import LoxLang.Proofs.Syntax.FirstTokens

/-!
Two expressions one after the other.

Where nothing separates them, a second expression that begins with a minus sign or a parenthesis is taken
for more of the first one: as an operand of the innermost operation at its end, or as the argument of a
call. The two make one expression of every level on which that can happen.
-/

set_option autoImplicit false

namespace LoxLang

theorem Begins.of_append {opens more : Kind → Bool} {u v : List Token} (h : Begins opens (u ++ v))
    (hu : Begins more u) : Begins opens u := by
  obtain ⟨t, u, rfl, -⟩ := hu
  obtain ⟨t', w, hw, ht'⟩ := h
  obtain ⟨rfl, -⟩ := List.cons.inj hw
  exact .cons ht'

def Fits (kind : Expr → Phrase) (w : List Token) : Prop := ∃ e, Derives (kind e) w ∧ e.WithinLimits

theorem Derives.conditional_of_call {e : Expr} {w : List Token} (h : Derives (.call e) w) :
    Derives (.conditional e) w :=
  have hproduct : Derives (.operation .product e) w := .ofOperand (.ofCall h)
  have hcomparison : Derives (.operation .comparison e) w := .ofOperand (.ofOperand hproduct)
  have hconjunction : Derives (.operation .conjunction e) w := .ofOperand (.ofOperand hcomparison)
  .ofOperation (.ofOperand hconjunction)

/-- Tokens of the kind and more of them that begin with the token are of the kind together. -/
structure Merges (opening : Kind) (kind : Expr → Phrase) : Prop where
  fits : ∀ {u v : List Token}, Fits kind u → Fits kind v → Begins (BEq.beq opening) v →
    Fits kind (u ++ v)

theorem Tier.withinLimits_node (tier : Tier) (l r : Expr) (operator : Token) :
    (tier.node l operator r).WithinLimits ↔ l.WithinLimits ∧ r.WithinLimits := by
  cases tier <;> rfl

namespace Fits

variable {tier : Tier} {u v w : List Token}

theorem ofOperand (h : Fits tier.operand w) : Fits (.operation tier) w := by
  obtain ⟨e, he, hlimits⟩ := h
  exact ⟨e, .ofOperand he, hlimits⟩

theorem operation {operator : Token} (hl : Fits (.operation tier) u)
    (ho : operator.kind ∈ tier.operators) (hr : Fits tier.operand v) :
    Fits (.operation tier) (u ++ operator :: v) := by
  obtain ⟨l, hl, hleft⟩ := hl
  obtain ⟨r, hr, hright⟩ := hr
  exact ⟨_, .operation hl ho hr, (tier.withinLimits_node l r operator).mpr ⟨hleft, hright⟩⟩

theorem operation_induction {motive : List Token → Prop} (h : Fits (.operation tier) w)
    (hone : ∀ w, Fits tier.operand w → motive w)
    (hmore : ∀ u operator v, Fits (.operation tier) u → motive u → operator.kind ∈ tier.operators →
      Fits tier.operand v → motive (u ++ operator :: v)) : motive w := by
  obtain ⟨e, he, hlimits⟩ := h
  generalize hph : Phrase.operation tier e = ph at he
  induction he generalizing e with
  | ofOperand he =>
    cases hph
    exact hone _ ⟨_, he, hlimits⟩
  | @operation _ operator l r u v hl ho hr ih =>
    cases hph
    obtain ⟨hleft, hright⟩ := (tier.withinLimits_node l r operator).mp hlimits
    exact hmore u operator v ⟨l, hl, hleft⟩ (ih l hleft rfl) ho ⟨r, hr, hright⟩
  | _ => cases hph

theorem opensExpression (h : Fits (.operation tier) w) : Begins Kind.opensExpression w := by
  obtain ⟨e, he, -⟩ := h
  exact he.beginsWell

theorem shortConditional {question colon : Token} (hc : Fits (.operation .disjunction) u)
    (hquestion : question.kind = .mark .question) (hcolon : colon.kind = .mark .colon)
    (he : Fits .conditional v) : Fits .conditional (u ++ question :: colon :: v) := by
  obtain ⟨c, hc, hcondition⟩ := hc
  obtain ⟨e, he, helse⟩ := he
  exact ⟨_, .shortConditional hc hquestion hcolon he, hcondition, helse⟩

theorem fullConditional {question colon : Token} (hc : Fits (.operation .disjunction) u)
    (hquestion : question.kind = .mark .question) (ht : Fits .conditional v)
    (hcolon : colon.kind = .mark .colon) (he : Fits .conditional w) :
    Fits .conditional (u ++ question :: (v ++ colon :: w)) := by
  obtain ⟨c, hc, hcondition⟩ := hc
  obtain ⟨t, ht, hthen⟩ := ht
  obtain ⟨e, he, helse⟩ := he
  exact ⟨_, .fullConditional hc hquestion ht hcolon he, hcondition, hthen, helse⟩

theorem ofCall (h : Fits .call w) : Fits .conditional w := by
  obtain ⟨e, he, hlimits⟩ := h
  exact ⟨e, he.conditional_of_call, hlimits⟩

theorem conditional_induction {motive : List Token → Prop} (h : Fits .conditional w)
    (hone : ∀ w, Fits (.operation .disjunction) w → motive w)
    (hmore : ∀ u v, motive v → (∀ v', Fits .conditional v' → Fits .conditional (u ++ v')) →
      motive (u ++ v)) : motive w := by
  obtain ⟨e, he, hlimits⟩ := h
  generalize hph : Phrase.conditional e = ph at he
  induction he generalizing e with
  | ofOperation he =>
    cases hph
    exact hone _ ⟨_, he, hlimits⟩
  | @shortConditional question colon c e u v hc hquestion hcolon _ _ ih =>
    cases hph
    have hend := hmore (u ++ [question, colon]) v (ih e hlimits.2 rfl) fun v' hv' => by
      simpa using shortConditional ⟨c, hc, hlimits.1⟩ hquestion hcolon hv'
    simpa using hend
  | @fullConditional question colon c t e u v w hc hquestion ht hcolon _ _ _ ih =>
    cases hph
    have hend := hmore (u ++ question :: (v ++ [colon])) w (ih e hlimits.2.2 rfl) fun w' hw' => by
      simpa using fullConditional ⟨c, hc, hlimits.1⟩ hquestion ⟨t, ht, hlimits.2.1⟩ hcolon hw'
    simpa using hend
  | _ => cases hph

end Fits

/-- The last operand of the first operation and the first one of the second make one. -/
theorem Merges.operation {opening : Kind} (tier : Tier) (h : Merges opening tier.operand) :
    Merges opening (.operation tier) := by
  refine ⟨fun {u v} hu hv => ?_⟩
  -- Inwards from both sides: down to the last operand of the first and the first operand of the second.
  refine hv.operation_induction (motive := fun v => Begins (BEq.beq opening) v →
    Fits (.operation tier) (u ++ v)) (fun v hv hb => ?_) ?_
  · refine hu.operation_induction (motive := fun u => Fits (.operation tier) (u ++ v)) ?_ ?_
    · exact fun u hu => (h.fits hu hv hb).ofOperand
    · intro u operator r hu _ ho hr
      rw [List.append_assoc]
      exact hu.operation ho (h.fits hr hv hb)
  · intro l operator r hl ih ho hr hb
    rw [← List.append_assoc]
    exact (ih (hb.of_append hl.opensExpression)).operation ho hr

theorem Merges.conditional {opening : Kind} (h : Merges opening (.operation .disjunction)) :
    Merges opening .conditional := by
  refine ⟨fun {u v} hu hv hb => ?_⟩
  refine hu.conditional_induction (motive := fun u => Fits .conditional (u ++ v)) (fun u hu => ?_) ?_
  · obtain ⟨e, he, hlimits⟩ := hv
    cases he with
    | ofOperation he =>
      obtain ⟨m, hm, hm'⟩ := h.fits hu ⟨_, he, hlimits⟩ hb
      exact ⟨m, .ofOperation hm, hm'⟩
    | shortConditional hc hquestion hcolon he =>
      have hm := h.fits hu ⟨_, hc, hlimits.1⟩ (hb.of_append hc.beginsWell)
      simpa using hm.shortConditional hquestion hcolon ⟨_, he, hlimits.2⟩
    | fullConditional hc hquestion ht hcolon he =>
      have hm := h.fits hu ⟨_, hc, hlimits.1⟩ (hb.of_append hc.beginsWell)
      simpa using hm.fullConditional hquestion ⟨_, ht, hlimits.2.1⟩ hcolon ⟨_, he, hlimits.2.2⟩
  · intro w v' ih hall
    rw [List.append_assoc]
    exact hall _ ih

theorem Merges.of_sum {opening : Kind} (h : Merges opening (.operation .sum)) :
    Merges opening .conditional :=
  have hcomparison : Merges opening (.operation .comparison) := .operation .comparison h
  have hequality : Merges opening (.operation .equality) := .operation .equality hcomparison
  have hconjunction : Merges opening (.operation .conjunction) := .operation .conjunction hequality
  .conditional (.operation .disjunction hconjunction)

theorem Fits.tail_of_minus {minus : Token} {w : List Token} (hminus : minus.kind = .mark .minus)
    (h : Fits (.operation .product) (minus :: w)) : Fits (.operation .product) w := by
  refine h.operation_induction (motive := fun u => ∀ w, u = minus :: w → Fits (.operation .product) w)
    ?_ ?_ w rfl
  · rintro _ ⟨e, he, hlimits⟩ w rfl
    cases he with
    | signed _ he => exact Fits.ofOperand ⟨_, he, hlimits⟩
    | ofCall he =>
      obtain ⟨_, _, hw, hopens⟩ := he.beginsWell
      cases hw
      simp [hminus, Kind.opensPrimary] at hopens
  · intro u operator v hu ih ho hv w hw
    obtain ⟨t, u, rfl, -⟩ := hu.opensExpression
    obtain ⟨rfl, rfl⟩ := List.cons.inj hw
    exact (ih u rfl).operation ho hv

theorem merges_sum_minus : Merges (.mark .minus) (.operation .sum) := by
  refine ⟨fun {u v} hu hv => ?_⟩
  refine hv.operation_induction (motive := fun v => Begins (BEq.beq (.mark .minus)) v →
    Fits (.operation .sum) (u ++ v)) ?_ ?_
  · rintro _ hv ⟨minus, v, rfl, hminus⟩
    have hminus : minus.kind = .mark .minus := (beq_iff_eq.mp hminus).symm
    exact hu.operation (by simp [hminus, Tier.operators]) (hv.tail_of_minus hminus)
  · intro l operator r hl ih ho hr hb
    rw [← List.append_assoc]
    exact (ih (hb.of_append hl.opensExpression)).operation ho hr

theorem merges_call_paren : Merges (.mark .leftParen) .call := by
  refine ⟨fun {u v} hu hv hb => ?_⟩
  obtain ⟨f, hf, hleft⟩ := hu
  obtain ⟨g, hg, hright⟩ := hv
  generalize hph : Phrase.call g = ph at hg
  -- Down the calls and names behind the grouping, which itself becomes the argument list.
  induction hg generalizing g with
  | ofPrimary hg =>
    cases hph
    obtain ⟨t, v, rfl, ht⟩ := hb
    have ht : t.kind = .mark .leftParen := (beq_iff_eq.mp ht).symm
    cases hg with
    | @grouping _ _ e _ hopen he hclose =>
      have hone : [e].length ≤ argumentLimit := by simp [argumentLimit]
      exact ⟨_, .call hf hopen (.arguments (.lastArgument he)) hclose, hleft, hone, hright, trivial⟩
    | _ => simp_all
  | @call _ right g es _ _ hg hopen hes hclose ih =>
    cases hph
    obtain ⟨m, hm, hlimits⟩ := ih (hb.of_append hg.beginsWell) g hright.1 rfl
    refine ⟨.call m right es, ?_, hlimits, hright.2⟩
    simpa using Derives.call hm hopen hes hclose
  | @get _ name o _ hg hdot hname ih =>
    cases hph
    obtain ⟨m, hm, hlimits⟩ := ih (hb.of_append hg.beginsWell) o hright rfl
    exact ⟨.get m name, by simpa using Derives.get hm hdot hname, hlimits⟩
  | _ => cases hph

theorem merges_unary_paren : Merges (.mark .leftParen) .unary := by
  refine ⟨fun {u v} hu hv hb => ?_⟩
  obtain ⟨e, he, hleft⟩ := hu
  obtain ⟨g, hg, hright⟩ := hv
  have hcall : Fits .call v := by
    cases hg with
    | ofCall hg => exact ⟨g, hg, hright⟩
    | signed ho _ =>
      obtain ⟨t, v, hv, ht⟩ := hb
      cases hv
      simp [← beq_iff_eq.mp ht] at ho
  generalize hph : Phrase.unary e = ph at he
  induction he generalizing e with
  | @signed operator e _ ho _ ih =>
    cases hph
    obtain ⟨m, hm, hlimits⟩ := ih e hleft rfl
    exact ⟨.unary operator m, .signed ho hm, hlimits⟩
  | ofCall he =>
    cases hph
    obtain ⟨m, hm, hlimits⟩ := merges_call_paren.fits ⟨_, he, hleft⟩ hcall hb
    exact ⟨m, .ofCall hm, hlimits⟩
  | _ => cases hph

/-- An expression that begins with a minus sign or a parenthesis is more of one before it. -/
theorem merges_conditional {opening : Kind} (h : opening = .mark .minus ∨ opening = .mark .leftParen) :
    Merges opening .conditional := by
  rcases h with rfl | rfl
  · exact .of_sum merges_sum_minus
  · have hproduct : Merges (.mark .leftParen) (.operation .product) :=
      .operation .product merges_unary_paren
    exact .of_sum (.operation .sum hproduct)

end LoxLang
