import LoxLang.Proofs.Syntax.Joining
import LoxLang.Proofs.Syntax.Steadiness
import LoxLang.Proofs.Syntax.Stumbling

/-!
Programs in which the semicolon of a statement is missing.

What follows the statement is taken for more of it where that can be, and otherwise skipped up to its own
semicolon or to the statement in it. If what follows leaves no brace and no `else` behind, the parser goes
on in the same list of declarations, and one error at most is reported.
-/

set_option autoImplicit false

namespace LoxLang

/-- The tokens are those of the statement without the semicolon at its end. -/
inductive Unended : Stmt → List Token → Prop
  | unsetVariable {word name : Token} :
    word.kind = .keyword .varWord → name.kind = .identifier →
    Unended (.declareVar name none) [word, name]
  | setVariable {word name equal : Token} {e : Expr} {w : List Token} :
    word.kind = .keyword .varWord → name.kind = .identifier → equal.kind = .mark .equal →
    Derives (.expression e) w → Unended (.declareVar name (some e)) (word :: name :: equal :: w)
  | print {word : Token} {e : Expr} {w : List Token} :
    word.kind = .keyword .printWord → Derives (.expression e) w → Unended (.print e) (word :: w)
  | returnWith {word : Token} {e : Option Expr} {w : List Token} :
    word.kind = .keyword .returnWord → Derives (.optional e) w → Unended (.returnWith word e) (word :: w)
  | breakLoop {word : Token} : word.kind = .keyword .breakWord → Unended (.breakLoop word) [word]
  | continueLoop {word : Token} : word.kind = .keyword .continueWord → Unended (.continueLoop word) [word]
  | expression {e : Expr} {w : List Token} : Derives (.expression e) w → Unended (.expression e) w

/-- Whether a token right behind the statement is taken for more of it. -/
def Stmt.holds : Stmt → Kind → Bool
  | .declareVar _ (some _), kind | .print _, kind | .returnWith _ (some _), kind | .expression _, kind =>
    decide (0 < kind.binding)
  | .returnWith _ none, kind => kind.opensExpression
  | _, _ => false

namespace Unended

variable {x : Stmt} {w : List Token}

theorem derives {semicolon : Token} (h : Unended x w) (hsemicolon : semicolon.kind = .mark .semicolon) :
    Derives (.declaration x) (w ++ [semicolon]) := by
  cases h with
  | unsetVariable hword hname => exact .variableDeclaration (.unsetVariable hword hname hsemicolon)
  | setVariable hword hname hequal he =>
    exact .variableDeclaration (.setVariable hword hname hequal he hsemicolon)
  | print hword he => exact .statementDeclaration (.print hword he hsemicolon)
  | returnWith hword he => exact .statementDeclaration (.returnWith hword he hsemicolon)
  | breakLoop hword => exact .statementDeclaration (.breakLoop hword hsemicolon)
  | continueLoop hword => exact .statementDeclaration (.continueLoop hword hsemicolon)
  | expression he => exact .statementDeclaration (.ofExpression (.expressionStatement he hsemicolon))

theorem opensDeclaration (h : Unended x w) : Begins Kind.opensDeclaration w := by
  cases h with
  | unsetVariable hword | setVariable hword | print hword | returnWith hword | breakLoop hword
  | continueLoop hword => exact .cons (by simp [hword, Kind.opensDeclaration, Kind.opensStatement])
  | expression he =>
    exact he.beginsWell.mono fun _ hk =>
      Kind.opensDeclaration_of_opensStatement (Kind.opensStatement_of_opensExpression hk)

theorem tail_not_separates {first : Token} (h : Unended x (first :: w)) :
    ∀ t ∈ w, t.kind.separates = false := by
  cases h with
  | unsetVariable _ hname => simp [hname, Kind.separates, Parsing.resumesAt]
  | setVariable _ hname hequal he =>
    have htail := he.not_separates rfl
    simp_all [Kind.separates, Parsing.resumesAt]
  | print _ he => exact he.not_separates rfl
  | returnWith _ he => exact he.not_separates rfl
  | breakLoop | continueLoop => simp
  | expression he => exact fun t ht => he.not_separates rfl t (List.mem_cons_of_mem _ ht)

end Unended

namespace Parsing

theorem Takes.weaken {α : Type} {first second : Nat} {p : Parser α} {s : State} {Q : α → Prop}
    {rest : List Token} (h : Takes first p s Q rest) (hle : first ≤ second) : Takes second p s Q rest := by
  obtain ⟨v, s', hp, hrest, ⟨found, hrep, hfound⟩, hv⟩ := h
  exact ⟨v, s', hp, hrest, ⟨found, hrep, Nat.le_trans hfound hle⟩, hv⟩

theorem Reads.weaken {α : Type} {first second : Nat} {p : Nat → Parser α} {rank : Nat}
    {stops : Kind → Prop} {P Q : α → Prop} {w : List Token} (h : Reads first p rank stops P w)
    (hle : first ≤ second) (himp : ∀ v, P v → Q v) : Reads second p rank stops Q w :=
  ⟨fun hd hs ht => ((h.takes hd hs ht).imp himp).weaken hle⟩

section

variable {depth : Nat} {s : State} {t : Token} {w rest : List Token}

theorem Fails.stumbles (hb : Begins Kind.opensStatement s.rest) (h : Fails (statement depth) s rest) :
    Takes 1 (declaration (depth + 1)) s (fun _ => True) (skipToBoundary rest) := by
  obtain ⟨first, w, hs, hfirst⟩ := hb
  rw [declaration]
  refine Fails.recover (Fails.current ?_)
  rw [State.current_of_rest hs]
  split
  case h_4 => exact h
  all_goals
    rename_i hk
    simp [hk, Kind.opensStatement, Kind.opensExpression, Kind.opensPrimary] at hfirst

theorem Fails.ofExpression (hb : Begins Kind.opensExpression s.rest)
    (h : Fails (expressionStatement depth) s rest) : Fails (statement (depth + 1)) s rest := by
  obtain ⟨first, w, hs, hfirst⟩ := hb
  rw [statement]
  refine Fails.current ?_
  rw [State.current_of_rest hs]
  split
  case h_9 => exact h
  all_goals
    rename_i hk
    simp [hk, Kind.opensExpression, Kind.opensPrimary] at hfirst

/-- Before a token that is neither a semicolon nor more of it the statement fails, and tokens are
skipped. -/
theorem stumbles {x : Stmt} (h : Unended x w) (hl : x.WithinLimits) (hd : 13 + 16 * w.length ≤ depth)
    (hs : s.rest = w ++ t :: rest) (hholds : x.holds t.kind = false)
    (hsemicolon : t.kind ≠ .mark .semicolon) (hequal : t.kind ≠ .mark .equal) :
    Takes 1 (declaration depth) s (fun _ => True) (skipToBoundary (t :: rest)) := by
  obtain ⟨depth, rfl⟩ : ∃ d, depth = d + 2 := ⟨depth - 2, by omega⟩
  -- An expression at the end of the statement is read, and stops before the token.
  have hexpression : ∀ {e : Expr} {v : List Token} {s₁ : State} {left : Nat}, Derives (.expression e) v →
      e.WithinLimits → v.length ≤ w.length → 0 < w.length → depth ≤ left → s₁.rest = v ++ t :: rest →
      ¬0 < t.kind.binding →
      Takes 0 (expression left) s₁ (·.anonymous = e.anonymous) (t :: rest) :=
    fun he hle hlength hpos hleft hs₁ hbinding =>
      (accepts_of_derives he hle trivial).takes (by omega) hs₁ (by omega)
  -- In each statement the parts before the missing semicolon are read, and what fails is to expect it.
  cases h with
  | unsetVariable hword hname =>
    rw [declaration]
    refine Fails.recover (Fails.current ?_)
    rw [State.current_of_rest hs, hword]
    refine .advance hs (by simp [hword]) fun s₁ hs₁ => ?_
    rw [variableDeclaration]
    exact .expect hs₁ hname fun s₂ hs₂ => .refuse hs₂ hequal (.missing hs₂ hsemicolon)
  | setVariable hword hname hequals he =>
    simp only [List.length_cons] at hd hexpression
    rw [declaration]
    refine Fails.recover (Fails.current ?_)
    rw [State.current_of_rest hs, hword]
    refine .advance hs (by simp [hword]) fun s₁ hs₁ => ?_
    rw [variableDeclaration]
    refine .expect hs₁ hname fun s₂ hs₂ => .accept hs₂ hequals fun s₃ hs₃ => ?_
    refine .after (hexpression he hl (by omega) (by omega) (by omega) hs₃
      (by simpa [Stmt.holds] using hholds)) ?_
    exact fun v s₄ hs₄ _ => .missing hs₄ hsemicolon
  | print hword he =>
    refine Fails.stumbles ⟨_, _, hs, by simp [hword, Kind.opensStatement]⟩ ?_
    rw [statement]
    refine .current ?_
    rw [State.current_of_rest hs, hword]
    refine .advance hs (by simp [hword]) fun s₁ hs₁ => ?_
    rw [printStatement]
    refine .after (hexpression he hl (by simp) (by simp) (Nat.le_refl _) hs₁
      (by simpa [Stmt.holds] using hholds)) ?_
    exact fun v s₂ hs₂ _ => .missing hs₂ hsemicolon
  | @returnWith word e w hword he =>
    refine Fails.stumbles ⟨_, _, hs, by simp [hword, Kind.opensStatement]⟩ ?_
    rw [statement]
    refine .current ?_
    rw [State.current_of_rest hs, hword]
    refine .advance hs (by simp [hword]) fun s₁ hs₁ => ?_
    rw [returnStatement]
    cases he with
    | absent =>
      refine .present hs₁ hsemicolon (.first (.first ?_))
      exact expression_fails (by omega) hs₁ hholds
    | present he =>
      obtain ⟨first, v, rfl, hfirst⟩ := he.beginsWell
      have hne : first.kind ≠ .mark .semicolon := by
        intro hk
        simp [hk, Kind.opensExpression, Kind.opensPrimary] at hfirst
      have hread : Takes 0 (some <$> expression depth) s₁ (fun _ => True) (t :: rest) :=
        ((hexpression he hl (by simp) (by simp) (Nat.le_refl _) hs₁ (by simpa [Stmt.holds] using hholds)).imp
          fun _ _ => trivial).map
      exact .present hs₁ hne (.after hread fun v s₂ hs₂ _ => .missing hs₂ hsemicolon)
  | breakLoop hword | continueLoop hword =>
    refine Fails.stumbles ⟨_, _, hs, by simp [hword, Kind.opensStatement]⟩ ?_
    rw [statement]
    refine .current ?_
    rw [State.current_of_rest hs, hword]
    exact .advance hs (by simp [hword]) fun s₁ hs₁ => .missing hs₁ hsemicolon
  | expression he =>
    have hb : Begins Kind.opensExpression s.rest := hs ▸ he.beginsWell.append _
    refine Fails.stumbles (hb.mono fun _ => Kind.opensStatement_of_opensExpression) (.ofExpression hb ?_)
    refine .after (hexpression he hl (Nat.le_refl _) he.beginsWell.length_pos (Nat.le_refl _) hs
      (by simpa [Stmt.holds] using hholds)) ?_
    exact fun v s₂ hs₂ _ => .missing hs₂ hsemicolon

end

theorem reads_assigned {limit : Nat} {target : Expr} {equal : Token} {u w : List Token}
    (htarget : Accepted (.conditional target) u) (hequal : equal.kind = .mark .equal)
    (he : Reads limit expression 11 (·.binding < 1) (fun _ => True) w) :
    Reads (limit + 1) expression 11 (·.binding < 1) (fun _ => True) (u ++ equal :: w) := by
  refine Reads.of_succ ?_ fun depth s t rest hd hs ht => ?_
  · omega
  simp only [List.length_append, List.length_cons] at hd
  simp only [List.append_assoc, List.cons_append] at hs
  rw [Parsing.expression]
  have hbinding : equal.kind.binding < 2 := by simp [hequal, Kind.binding]
  refine (htarget.takes (by omega) hs hbinding).bind fun x s₁ hs₁ hx => ?_
  refine Takes.accept hs₁ hequal fun s₂ hs₂ => ?_
  refine (he.takes (by omega) hs₂ ht).both fun y s₃ hs₃ hy => ?_
  split
  · exact Takes.reference hs₃ fun id s₄ hs₄ => .ret hs₄ trivial
  · exact .ret hs₃ trivial
  · refine ⟨x, _, rfl, hs₃, ⟨[.grammatical equal .invalidAssignmentTarget], rfl, ?_⟩, trivial⟩
    simp

theorem reads_merged {opening : Kind} (hopening : opening = .mark .minus ∨ opening = .mark .leftParen)
    {e g : Expr} {u v : List Token} (he : Derives (.expression e) u) (hl : e.WithinLimits)
    (hg : Derives (.expression g) v) (hlimits : g.WithinLimits) (hb : Begins (BEq.beq opening) v) :
    Reads 1 expression 11 (·.binding < 1) (fun _ => True) (u ++ v) := by
  have hmerges := merges_conditional hopening
  generalize hph : Phrase.expression e = ph at he
  -- Along the values of assignments in the first expression: the last of them is what the second one goes
  -- on.
  induction he generalizing e with
  | @ofConditional _ u he =>
    cases hph
    cases hg with
    | ofConditional hg =>
      obtain ⟨m, hm, hm'⟩ := hmerges.fits ⟨_, he, hl⟩ ⟨g, hg, hlimits⟩ hb
      exact Reads.weaken (accepts_of_derives (.ofConditional hm) hm' trivial) (Nat.zero_le 1)
        fun _ _ => trivial
    | assignVariable hname =>
      obtain ⟨t, w, hw, ht⟩ := hb
      cases hw
      rcases hopening with rfl | rfl <;> simp [hname] at ht
    | @assignProperty dot name equal o f w w' ho hdot hname hequal hf =>
      -- The merged target may be one that nothing can be assigned to.
      have htarget : Fits .conditional (w ++ [dot, name]) :=
        .ofCall ⟨_, .get ho hdot hname, hlimits.1⟩
      obtain ⟨m, hm, hm'⟩ := hmerges.fits ⟨_, he, hl⟩ htarget (hb.of_append ho.beginsWell |>.append _)
      have hvalue : Reads 0 expression 11 (·.binding < 1) (fun _ => True) w' :=
        Reads.weaken (accepts_of_derives hf hlimits.2 trivial) (Nat.le_refl 0) fun _ _ => trivial
      simpa using reads_assigned (accepts_of_derives hm hm' trivial) hequal hvalue
  | @assignVariable _ _ _ f _ hname hequal _ ih =>
    cases hph
    have hvalue : f.WithinLimits := hl
    exact reads_assignVariable hname hequal (ih hvalue rfl) fun _ _ _ => trivial
  | @assignProperty _ _ _ o f _ _ ho hdot hname hequal _ _ ih =>
    cases hph
    obtain ⟨hobject, hvalue⟩ : o.WithinLimits ∧ f.WithinLimits := hl
    have hread := reads_assignProperty ho.beginsWell (accepts_of_derives ho hobject trivial) hdot hname
      hequal (ih hvalue rfl) (Q := fun _ => True) fun _ _ _ _ => trivial
    simpa using hread
  | _ => cases hph

end Parsing

theorem Kind.opens_and_binds {kind : Kind} (hopens : kind.opensExpression = true)
    (hbinding : 0 < kind.binding) : kind = .mark .minus ∨ kind = .mark .leftParen := by
  cases kind with
  | mark m => cases m <;> simp_all [opensExpression, opensPrimary, binding]
  | keyword k => cases k <;> simp_all [opensExpression, opensPrimary, binding]
  | _ => simp [binding] at hbinding

theorem Stmt.opensExpression_of_holds {x : Stmt} {kind : Kind} (h : x.holds kind = true)
    (hopens : kind.opensDeclaration = true) : kind.opensExpression = true := by
  have hbinds : 0 < kind.binding → kind.opensExpression = true := by
    intro hbinding
    cases kind with
    | mark m =>
      cases m <;> simp_all [Kind.opensDeclaration, Kind.opensStatement, Kind.opensExpression,
        Kind.opensPrimary, Kind.binding]
    | keyword k =>
      cases k <;> simp_all [Kind.opensDeclaration, Kind.opensStatement, Kind.opensExpression,
        Kind.opensPrimary, Kind.binding]
    | _ => simp [Kind.binding] at hbinding
  -- The token holds on to the expression at the end, or it opens the value of an empty `return`.
  unfold Stmt.holds at h
  split at h
  case h_6 => cases h
  case h_5 => exact h
  all_goals exact hbinds (of_decide_eq_true h)

namespace Parsing

/-- A statement without its semicolon and an expression statement that is taken for more of it. -/
theorem reads_continued {x : Stmt} {g : Expr} {first semicolon : Token} {u v : List Token}
    {stops : Kind → Prop} (hx : Unended x u) (hl : x.WithinLimits) (hg : Derives (.expression g) (first :: v))
    (hlimits : g.WithinLimits) (hsemicolon : semicolon.kind = .mark .semicolon)
    (hholds : x.holds first.kind = true) :
    Reads 1 declaration 13 stops (fun _ => True) (u ++ (first :: v ++ [semicolon])) := by
  have hopens : first.kind.opensExpression = true := by
    obtain ⟨_, _, hw, hopens⟩ := hg.beginsWell
    cases hw
    exact hopens
  have hmerged : ∀ {e : Expr} {w : List Token}, Derives (.expression e) w → e.WithinLimits →
      0 < first.kind.binding →
      Reads 1 expression 11 (·.binding < 1) (fun _ => True) (w ++ first :: v) :=
    fun he hle hbinding =>
      reads_merged (Kind.opens_and_binds hopens hbinding) he hle hg hlimits (.cons (by simp))
  rw [← List.append_assoc]
  cases hx with
  | unsetVariable | breakLoop | continueLoop => simp [Stmt.holds] at hholds
  | setVariable hword hname hequal he =>
    refine reads_variableDeclaration (P := fun _ => True) hword ?_ fun _ _ => trivial
    exact reads_setVariable hname hequal (hmerged he hl (by simpa [Stmt.holds] using hholds)) hsemicolon
      fun _ _ => trivial
  | print hword he =>
    refine reads_statementDeclaration (P := fun _ => True)
      (.cons (by simp [hword, Kind.opensStatement])) ?_ fun _ _ => trivial
    exact reads_print hword (hmerged he hl (by simpa [Stmt.holds] using hholds)) hsemicolon
      fun _ _ => trivial
  | returnWith hword he =>
    refine reads_statementDeclaration (P := fun _ => True)
      (.cons (by simp [hword, Kind.opensStatement])) ?_ fun _ _ => trivial
    refine reads_returnWith (P := fun _ => True) hword (.inr ?_) hsemicolon fun _ _ => trivial
    cases he with
    | absent =>
      exact ⟨.cons hopens, Reads.weaken (accepts_of_derives hg hlimits trivial) (Nat.zero_le 1)
        fun _ _ => trivial⟩
    | present he =>
      exact ⟨he.beginsWell.append _, hmerged he hl (by simpa [Stmt.holds] using hholds)⟩
  | expression he =>
    have hb : Begins Kind.opensExpression (u ++ first :: v ++ [semicolon]) :=
      (he.beginsWell.append _).append _
    refine reads_statementDeclaration (P := fun _ => True)
      (hb.mono fun _ => Kind.opensStatement_of_opensExpression) ?_ fun _ _ => trivial
    refine reads_ofExpression hb (reads_expressionStatement (P := fun _ => True) ?_ hsemicolon
      fun _ _ => trivial)
    exact hmerged he hl (by simpa [Stmt.holds] using hholds)

end Parsing

end LoxLang
