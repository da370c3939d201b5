import LoxLang.Proofs.Syntax.Promises

set_option autoImplicit false

namespace LoxLang

namespace Tier

open Parsing

def level (tier : Tier) : Level := ⟨tier.operators, tier.node⟩

def tighter : Tier → List Tier
  | .disjunction => [.conjunction, .equality, .comparison, .sum, .product]
  | .conjunction => [.equality, .comparison, .sum, .product]
  | .equality => [.comparison, .sum, .product]
  | .comparison => [.sum, .product]
  | .sum => [.product]
  | .product => []

def levels (tier : Tier) : List Level := tier.level :: tier.tighter.map level

theorem levels_disjunction : disjunction.levels = Parsing.levels := rfl

theorem ne_endOfInput_of_mem_operators {tier : Tier} {kind : Kind} (h : kind ∈ tier.operators) :
    kind ≠ .endOfInput := by
  rintro rfl
  cases tier <;> simp [operators] at h

end Tier

/-- A tree of a level that is no operation of it is one of a prefix operator or a call. -/
theorem Derives.unary_of_operation {ph : Phrase} {w : List Token} (h : Derives ph w) :
    ∀ {tier : Tier} {e : Expr}, ph = .operation tier e →
      (∀ l o r, e ≠ .binary l o r) → (∀ l o r, e ≠ .logical l o r) → Derives (.unary e) w := by
  induction h with
  | @ofOperand tier e w h ih =>
    rintro _ _ ⟨⟩ hb hl
    cases tier with
    | product => exact h
    | _ => exact ih rfl hb hl
  | @operation tier o l r u v hl ho hr =>
    rintro _ _ ⟨⟩ hb hl
    cases tier with
    | disjunction | conjunction => exact absurd rfl (hl l o r)
    | _ => exact absurd rfl (hb l o r)
  | _ => rintro _ _ ⟨⟩

theorem Derives.eq_of_variable {target : Reference} {w : List Token}
    (h : Derives (.conditional (.variable target)) w) :
    w = [target.name] ∧ target.name.kind = .identifier := by
  cases h with
  | ofOperation h =>
    cases h.unary_of_operation rfl (by simp) (by simp) with
    | ofCall h =>
      cases h with
      | ofPrimary h =>
        cases h with
        | named hk => exact ⟨rfl, hk⟩

theorem Derives.eq_of_get {o : Expr} {name : Token} {w : List Token}
    (h : Derives (.conditional (.get o name)) w) :
    ∃ u dot, w = u ++ [dot, name] ∧ dot.kind = .mark .dot ∧ name.kind = .identifier ∧
      Derives (.call o) u := by
  cases h with
  | ofOperation h =>
    cases h.unary_of_operation rfl (by simp) (by simp) with
    | ofCall h =>
      cases h with
      | ofPrimary h => cases h
      | get ho hd hn => exact ⟨_, _, rfl, hd, hn, ho⟩

namespace Parsing

structure ExpressionsSound (depth : Nat) : Prop where
  expression : Builds (expression depth) .expression
  conditional : Builds (conditional depth) .conditional
  level : ∀ tier : Tier, Builds (level depth tier.levels) (.operation tier)
  operands : Builds (Parsing.level depth []) .unary
  levelRest : ∀ (tier : Tier) left s,
    Yields (levelRest depth tier.level (tier.tighter.map Tier.level) left) s fun e w s' =>
      ∀ u lo, Built (.operation tier left) u lo s.nextId →
        Built (.operation tier e) (u ++ w) lo s'.nextId
  unary : Builds (unary depth) .unary
  callRest : ∀ callee s, Yields (callRest depth callee) s fun e w s' =>
    ∀ u lo, Built (.call callee) u lo s.nextId → Built (.call e) (u ++ w) lo s'.nextId
  arguments : ∀ count s, Yields (arguments depth count) s fun es w s' =>
    count + es.length ≤ argumentLimit ∧ Built (.arguments es) w s.nextId s'.nextId
  primary : Builds (primary depth) .primary

theorem ExpressionsSound.operand {depth : Nat} (h : ExpressionsSound depth) (tier : Tier) :
    Builds (Parsing.level depth (tier.tighter.map Tier.level)) tier.operand := by
  cases tier with
  | disjunction => exact h.level .conjunction
  | conjunction => exact h.level .equality
  | equality => exact h.level .comparison
  | comparison => exact h.level .sum
  | sum => exact h.level .product
  | product => exact h.operands

theorem expression_sound {depth : Nat} (ih : ExpressionsSound depth) :
    Builds (expression (depth + 1)) .expression := by
  intro s
  rw [expression]
  refine (ih.conditional s).bind fun target u s₁ => Yields.accept (by simp) ?_ ?_
  · intro equal s₂ hequal hid
    refine (ih.expression s₂).bind fun value v s₃ => ?_
    cases target with
    | «variable» target =>
      refine Yields.reference fun s₄ hid₄ => Yields.ret ?_
      intro hvalue _ htarget
      obtain ⟨rfl, hname⟩ := htarget.derives.eq_of_variable
      have hdrawn := hvalue.drawn.widen (hid ▸ htarget.drawn.le)
      refine ⟨?_, hvalue.limits, trivial, ?_⟩
      · simpa using .assignVariable hname hequal hvalue.derives
      · simpa [Phrase.references, Expr.references, hid₄] using hdrawn.push
    | get o name =>
      refine Yields.ret ?_
      intro hvalue _ htarget
      obtain ⟨w, dot, rfl, hdot, hname, ho⟩ := htarget.derives.eq_of_get
      refine ⟨?_, ⟨htarget.limits, hvalue.limits⟩, trivial, ?_⟩
      · simpa using .assignProperty ho hdot hname hequal hvalue.derives
      · have hdrawn := htarget.drawn.append (hid ▸ hvalue.drawn)
        simpa [Phrase.references, Expr.references] using hdrawn
    | _ => exact Yields.note fun _ => Yields.ret (P := fun _ _ _ => True) trivial
  · intro _
    refine Yields.ret ?_
    intro htarget
    simpa using ⟨.ofConditional htarget.derives, htarget.limits, trivial, htarget.drawn⟩

theorem conditional_sound {depth : Nat} (ih : ExpressionsSound depth) :
    Builds (conditional (depth + 1)) .conditional := by
  intro s
  rw [conditional]
  refine (ih.level .disjunction s).bind fun c u s₁ => Yields.accept (by simp) ?_ ?_
  · intro question s₂ hquestion hid
    refine Yields.accept (by simp) ?_ ?_
    · intro colon s₃ hcolon hid₃
      refine (ih.conditional s₃).bind fun e v s₄ => Yields.ret ?_
      intro he _ _ hc
      refine ⟨?_, ⟨hc.limits, he.limits⟩, trivial, ?_⟩
      · simpa using .shortConditional hc.derives hquestion hcolon he.derives
      · have hdrawn := hc.drawn.append (hid ▸ hid₃ ▸ he.drawn)
        simpa [Phrase.references, Expr.references] using hdrawn
    · intro _
      refine (ih.conditional s₂).bind fun t v s₃ => Yields.expect (by simp) ?_
      intro colon s₄ hcolon hid₄
      refine (ih.conditional s₄).bind fun e w s₅ => Yields.ret ?_
      intro he ht _ hc
      refine ⟨?_, ⟨hc.limits, ht.limits, he.limits⟩, trivial, ?_⟩
      · simpa using .fullConditional hc.derives hquestion ht.derives hcolon he.derives
      · have hdrawn := (hc.drawn.append (hid ▸ ht.drawn)).append (hid₄ ▸ he.drawn)
        simpa [Phrase.references, Expr.references] using hdrawn
  · intro _
    refine Yields.ret ?_
    intro hc
    simpa using ⟨.ofOperation hc.derives, hc.limits, trivial, hc.drawn⟩

theorem Built.operation {tier : Tier} {l r : Expr} {operator : Token} {u v : List Token}
    {lo mid hi : Nat} (hl : Built (.operation tier l) u lo mid)
    (ho : operator.kind ∈ tier.operators) (hr : Built (tier.operand r) v mid hi) :
    Built (.operation tier (tier.node l operator r)) (u ++ operator :: v) lo hi := by
  refine ⟨.operation hl.derives ho hr.derives, ?_, trivial, ?_⟩
  · cases tier <;> exact ⟨hl.limits, hr.limits⟩
  · have hdrawn := hl.drawn.append hr.drawn
    cases tier <;>
      simpa [Phrase.references, Expr.references, Tier.node, Tier.operand] using hdrawn

theorem Built.ofOperand {tier : Tier} {e : Expr} {w : List Token} {lo hi : Nat}
    (h : Built (tier.operand e) w lo hi) : Built (.operation tier e) w lo hi := by
  obtain ⟨hd, hl, -, hr⟩ := h
  cases tier <;> exact ⟨.ofOperand hd, hl, trivial, hr⟩

theorem level_sound {depth : Nat} (ih : ExpressionsSound depth) (tier : Tier) :
    Builds (level (depth + 1) tier.levels) (.operation tier) := by
  intro s
  rw [Tier.levels, level]
  refine (ih.operand tier s).bind fun left u s₁ => ?_
  refine (ih.levelRest tier left s₁).imp fun e w s' hrest hleft => ?_
  exact hrest u s.nextId (Built.ofOperand hleft)

theorem levelRest_sound {depth : Nat} (ih : ExpressionsSound depth) (tier : Tier) (left : Expr)
    (s : State) :
    Yields (levelRest (depth + 1) tier.level (tier.tighter.map Tier.level) left) s
      fun e w s' => ∀ u lo, Built (.operation tier left) u lo s.nextId →
        Built (.operation tier e) (u ++ w) lo s'.nextId := by
  rw [levelRest]
  refine Yields.current ?_
  split
  · rename_i hmem
    have hop : s.current.kind ∈ tier.operators := by simpa [Tier.level] using hmem
    refine Yields.advance (Tier.ne_endOfInput_of_mem_operators hop) fun s₁ hid => ?_
    refine (ih.operand tier s₁).bind fun right v s₂ => ?_
    refine (ih.levelRest tier (tier.node left s.current right) s₂).imp ?_
    intro e w s' hrest hright u lo hleft
    have hnode := Built.operation hleft hop (hid ▸ hright)
    simpa using hrest _ lo hnode
  · exact Yields.ret fun u lo hleft => by simpa using hleft

theorem unary_sound {depth : Nat} (ih : ExpressionsSound depth) :
    Builds (unary (depth + 1)) .unary := by
  intro s
  rw [unary]
  refine Yields.current ?_
  split
  · rename_i hmem
    have hop : s.current.kind ∈ [Kind.mark .bang, Kind.mark .minus] := by simpa using hmem
    have hend : s.current.kind ≠ .endOfInput := by
      rintro h
      simp [h] at hop
    refine Yields.advance hend fun s₁ hid => ?_
    refine (ih.unary s₁).bind fun e w s₂ => Yields.ret ?_
    intro he
    refine ⟨?_, he.limits, trivial, ?_⟩
    · simpa using .signed hop he.derives
    · simpa [Phrase.references, Expr.references, hid] using he.drawn
  · refine (ih.primary s).bind fun callee u s₁ => ?_
    refine (ih.callRest callee s₁).imp fun e w s' hrest hcallee => ?_
    have hcall := hrest u s.nextId ⟨.ofPrimary hcallee.derives, hcallee.limits, trivial,
      hcallee.drawn⟩
    exact ⟨.ofCall hcall.derives, hcall.limits, trivial, hcall.drawn⟩

theorem callRest_sound {depth : Nat} (ih : ExpressionsSound depth) (callee : Expr) (s : State) :
    Yields (callRest (depth + 1) callee) s fun e w s' =>
      ∀ u lo, Built (.call callee) u lo s.nextId → Built (.call e) (u ++ w) lo s'.nextId := by
  rw [callRest]
  refine Yields.accept (by simp) ?_ ?_
  · intro left s₁ hleft hid
    -- The list may be empty; what follows it is the same in both cases.
    have hclose : ∀ (es : List Expr) (s₂ : State), Yields (do
        let paren ← expect (.mark .rightParen) .argumentListEnd
        callRest depth (.call callee paren es)) s₂ fun e w s' =>
          ∀ u v lo, Built (.call callee) u lo s.nextId →
            Built (.argumentList es) v s.nextId s₂.nextId →
              Built (.call e) (u ++ left :: (v ++ w)) lo s'.nextId := by
      intro es s₂
      refine Yields.expect (by simp) fun right s₃ hright hid₃ => ?_
      refine (ih.callRest (.call callee right es) s₃).imp ?_
      intro e w s' hrest u v lo hcallee hes
      have hdrawn := hcallee.drawn.append hes.drawn
      have hcall : Built (.call (.call callee right es)) (u ++ left :: (v ++ [right])) lo
          s₃.nextId := by
        refine ⟨.call hcallee.derives hleft hes.derives hright,
          ⟨hcallee.limits, hes.limits⟩, trivial, ?_⟩
        simpa [Phrase.references, Expr.references, hid₃] using hdrawn
      simpa using hrest _ lo hcall
    refine Yields.check ?_ ?_
    · intro _
      refine (hclose [] s₁).imp fun e w s' h _ u lo hcallee => ?_
      refine h u [] lo hcallee ⟨.noArguments, ⟨by simp, trivial⟩, trivial, ?_⟩
      exact Drawn.nil (Nat.le_of_eq hid.symm)
    · intro _
      refine (ih.arguments 0 s₁).bind fun es v s₂ => ?_
      refine (hclose es s₂).imp fun e w s' h hes _ u lo hcallee => ?_
      obtain ⟨-, hes⟩ := hes
      exact h u v lo hcallee ⟨.arguments hes.derives, hes.limits, trivial, hid ▸ hes.drawn⟩
  · intro _
    refine Yields.accept (by simp) ?_ ?_
    · intro dot s₁ hdot hid
      refine Yields.expect (by simp) fun name s₂ hname hid₂ => ?_
      refine (ih.callRest (.get callee name) s₂).imp ?_
      intro e w s' hrest _ u lo hcallee
      have hget : Built (.call (.get callee name)) (u ++ [dot, name]) lo s₂.nextId :=
        ⟨.get hcallee.derives hdot hname, hcallee.limits, trivial,
          by simpa [Phrase.references, Expr.references, hid₂, hid] using hcallee.drawn⟩
      simpa using hrest _ lo hget
    · intro _
      exact Yields.ret fun u lo hcallee => by simpa using hcallee

def separated {α : Type} (item : Parser α) (more : Parser (List α)) : Parser (List α) := do
  let first ← item
  match ← accept (.mark .comma) with
  | some _ => return first :: (← more)
  | none => return [first]

theorem arguments_sound {depth : Nat} (ih : ExpressionsSound depth) (count : Nat) (s : State) :
    Yields (arguments (depth + 1) count) s fun es w s' =>
      count + es.length ≤ argumentLimit ∧ Built (.arguments es) w s.nextId s'.nextId := by
  have hlist : ∀ s : State,
      Yields (separated (expression depth) (arguments depth (count + 1))) s fun es w s' =>
        count < argumentLimit →
          count + es.length ≤ argumentLimit ∧ Built (.arguments es) w s.nextId s'.nextId := by
    intro s
    unfold separated
    refine (ih.expression s).bind fun first u s₁ => Yields.accept (by simp) ?_ ?_
    · intro comma s₂ hcomma hid
      refine (ih.arguments (count + 1) s₂).bind fun rest v s₃ => Yields.ret ?_
      intro hrest _ hfirst _
      obtain ⟨hcount, hrest⟩ := hrest
      refine ⟨by simp; omega, ?_, ⟨by simp; omega, hfirst.limits, hrest.limits.2⟩, trivial, ?_⟩
      · simpa using .argument hfirst.derives hcomma hrest.derives
      · have hdrawn := hfirst.drawn.append (hid ▸ hrest.drawn)
        simpa [Phrase.references, Expr.listReferences] using hdrawn
    · intro _
      refine Yields.ret ?_
      intro hfirst hcount
      refine ⟨by simp; omega, ?_, ⟨by simp; omega, hfirst.limits, trivial⟩, trivial, ?_⟩
      · simpa using .lastArgument hfirst.derives
      · simpa [Phrase.references, Expr.listReferences] using hfirst.drawn
  rw [arguments]
  split
  · refine Yields.current (Yields.note (P := fun _ _ _ => True) fun s₁ => ?_)
    exact (hlist s₁).imp fun _ _ _ _ => trivial
  · exact (hlist s).imp fun es w s' h => h (by omega)

theorem Yields.literal {value : Literal} {s : State} (hk : s.current.kind ≠ .endOfInput)
    (h : Derives (.primary (.literal value)) [s.current]) :
    Yields (do let _ ← Parsing.advance; return .literal value) s
      fun e w s' => Built (.primary e) w s.nextId s'.nextId := by
  refine Yields.advance hk fun s₁ hid => Yields.ret ⟨h, trivial, trivial, ?_⟩
  exact Drawn.nil (Nat.le_of_eq hid.symm)

theorem primary_sound {depth : Nat} (ih : ExpressionsSound depth) :
    Builds (primary (depth + 1)) .primary := by
  intro s
  rw [primary]
  refine Yields.current ?_
  split
  · rename_i hk
    exact Yields.literal (by simp [hk]) (.falseLiteral hk)
  · rename_i hk
    exact Yields.literal (by simp [hk]) (.trueLiteral hk)
  · rename_i hk
    exact Yields.literal (by simp [hk]) (.nilLiteral hk)
  · rename_i value hk
    exact Yields.literal (by simp [hk]) (.number hk)
  · rename_i contents hk
    exact Yields.literal (by simp [hk]) (.string hk)
  · rename_i hk
    refine Yields.advance (by simp [hk]) fun s₁ hid => Yields.reference fun s₂ hid₂ => ?_
    refine Yields.ret ⟨.receiver hk, trivial, trivial, ?_⟩
    simpa [Phrase.references, Expr.references, hid₂, hid] using Drawn.single _
  · rename_i hk
    refine Yields.advance (by simp [hk]) fun s₁ hid => Yields.expect (by simp) ?_
    intro dot s₂ hdot hid₂
    refine Yields.expect (by simp) fun method s₃ hmethod hid₃ => ?_
    refine Yields.reference fun s₄ hid₄ => ?_
    refine Yields.ret ⟨.superMethod hk hdot hmethod, trivial, trivial, ?_⟩
    simpa [Phrase.references, Expr.references, hid₄, hid₃, hid₂, hid] using Drawn.single _
  · rename_i hk
    refine Yields.advance (by simp [hk]) fun s₁ hid => Yields.reference fun s₂ hid₂ => ?_
    refine Yields.ret ⟨.named hk, trivial, trivial, ?_⟩
    simpa [Phrase.references, Expr.references, hid₂, hid] using Drawn.single _
  · rename_i hk
    refine Yields.advance (by simp [hk]) fun s₁ hid => ?_
    refine (ih.expression s₁).bind fun e v s₂ => Yields.expect (by simp) ?_
    intro right s₃ hright hid₃
    refine Yields.ret ?_
    intro he
    refine ⟨?_, he.limits, trivial, ?_⟩
    · simpa using .grouping hk he.derives hright
    · simpa [Phrase.references, Expr.references, hid, hid₃] using he.drawn
  · exact Yields.failHere

theorem operands_sound {depth : Nat} (ih : ExpressionsSound depth) :
    Builds (level (depth + 1) []) .unary := by
  intro s
  rw [level]
  exact ih.unary s

theorem expressionsSound (depth : Nat) : ExpressionsSound depth := by
  induction depth with
  | zero =>
    exact
      { expression := fun _ => Yields.outOfDepth
        conditional := fun _ => Yields.outOfDepth
        level := fun _ _ => Yields.outOfDepth
        operands := fun _ => Yields.outOfDepth
        levelRest := fun _ _ _ => Yields.outOfDepth
        unary := fun _ => Yields.outOfDepth
        callRest := fun _ _ => Yields.outOfDepth
        arguments := fun _ _ => Yields.outOfDepth
        primary := fun _ => Yields.outOfDepth }
  | succ depth ih =>
    exact
      { expression := expression_sound ih
        conditional := conditional_sound ih
        level := level_sound ih
        operands := operands_sound ih
        levelRest := levelRest_sound ih
        unary := unary_sound ih
        callRest := callRest_sound ih
        arguments := arguments_sound ih
        primary := primary_sound ih }

end Parsing

end LoxLang
