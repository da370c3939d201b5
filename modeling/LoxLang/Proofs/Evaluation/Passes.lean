import LoxLang.Proofs.Evaluation.Endings
import LoxLang.Proofs.Syntax.Rewriting

/-!
Loops, pass by pass.

A pass tests the condition, runs the body and, unless the body has left the loop, runs the increment:
once, and also when the body ended at a `continue`. Then the next pass tests the condition. So a loop runs
as a chain of passes with another test after each of them, and a last one.
-/

set_option autoImplicit false

namespace LoxLang

open Eval

def increase (fuel : Nat) (n : Option Stmt) : Eval Unit :=
  match n with
  | none => ret ()
  | some n => do
    let _ ← execute fuel n

def bodyThenIncrement (fuel : Nat) (n : Option Stmt) (b : Stmt) : Eval Ending := do
  match ← execute fuel b with
  | .normal | .continued =>
    increase fuel n
    return .normal
  | ending => return ending

theorem iterate_eq (fuel : Nat) (c : Expr) (n : Option Stmt) (b : Stmt) :
    iterate (fuel + 1) c n b = (do
      if (← evaluate fuel c).truthy then
        match ← bodyThenIncrement fuel n b with
        | .broke => return .normal
        | .returned value => return .returned value
        | .normal | .continued => iterate fuel c n b
      else return .normal) := by
  cases n with
  | none | some n =>
    rw [iterate]
    simp only [bodyThenIncrement, increase, bind_assoc]
    congr
    funext v
    split
    · congr
      funext ending
      cases ending with
      | normal | continued =>
        simp only [bind_assoc]
        rfl
      | broke | returned => rfl
    · rfl

theorem iterate_not_continued (fuel : Nat) (c : Expr) (n : Option Stmt) (b : Stmt) (m : Machine) :
    (iterate fuel c n b).Answers m (· ≠ .continued) := by
  induction fuel generalizing m with
  | zero =>
    simp only [iterate]
    exact .outOfFuel
  | succ fuel ih =>
    rw [iterate_eq]
    refine .after fun _ m₁ => ?_
    split
    · refine .after fun ending m₂ => ?_
      cases ending with
      | normal | continued => exact ih m₂
      | broke => exact .ret (by simp)
      | returned value => exact .ret (by simp)
    · exact .ret (by simp)

/-- Statements without a `continue` of a loop around them do not end at one. -/
structure Settles (fuel : Nat) : Prop where
  execute : ∀ (s : Stmt) (m : Machine), s.continues = false → (execute fuel s).Answers m (· ≠ .continued)
  executeAll : ∀ (body : List Stmt) (m : Machine), Stmt.anyContinues body = false →
    (executeAll fuel body).Answers m (· ≠ .continued)

namespace Settles

variable {fuel : Nat}

theorem execute_succ (ih : Settles fuel) (s : Stmt) (m : Machine) (hs : s.continues = false) :
    (LoxLang.execute (fuel + 1) s).Answers m (· ≠ .continued) := by
  cases s with
  | expression e =>
    rw [LoxLang.execute]
    exact .after fun _ _ => .ret (by simp)
  | print e =>
    rw [LoxLang.execute]
    exact .after fun _ _ => .after fun _ _ => .after fun _ _ => .ret (by simp)
  | declareVar name e =>
    cases e <;> rw [LoxLang.execute] <;> exact .after fun _ _ => .after fun _ _ => .ret (by simp)
  | block body =>
    rw [LoxLang.execute]
    exact .after fun _ _ => .within (ih.executeAll body _ hs)
  | branch c t e =>
    cases e with
    | none =>
      rw [LoxLang.execute]
      refine .after fun _ m₁ => ?_
      split
      · exact ih.execute t m₁ hs
      · exact .ret (by simp)
    | some e =>
      obtain ⟨ht, he⟩ : t.continues = false ∧ e.continues = false := Bool.or_eq_false_iff.mp hs
      rw [LoxLang.execute]
      refine .after fun _ m₁ => ?_
      split
      · exact ih.execute t m₁ ht
      · exact ih.execute e m₁ he
  | loop i c n b =>
    cases i with
    | none =>
      rw [LoxLang.execute]
      exact iterate_not_continued fuel c n b m
    | some i =>
      rw [LoxLang.execute]
      exact .after fun _ _ => .within (.after fun _ m₂ => iterate_not_continued fuel c n b m₂)
  | declareFunction d =>
    rw [LoxLang.execute]
    exact .after fun _ _ => .after fun _ _ => .after fun _ _ => .ret (by simp)
  | returnWith word e =>
    cases e with
    | none =>
      rw [LoxLang.execute]
      exact .ret (by simp)
    | some e =>
      rw [LoxLang.execute]
      exact .after fun _ _ => .ret (by simp)
  | breakLoop word =>
    rw [LoxLang.execute]
    exact .ret (by simp)
  | continueLoop word => cases hs
  | declareClass name base ds =>
    rw [LoxLang.execute]
    exact .after fun _ _ => .ret (by simp)

theorem executeAll_succ (ih : Settles fuel) (body : List Stmt) (m : Machine)
    (hbody : Stmt.anyContinues body = false) :
    (LoxLang.executeAll (fuel + 1) body).Answers m (· ≠ .continued) := by
  cases body with
  | nil =>
    rw [LoxLang.executeAll]
    exact .ret (by simp)
  | cons s rest =>
    obtain ⟨hs, hrest⟩ : s.continues = false ∧ Stmt.anyContinues rest = false :=
      Bool.or_eq_false_iff.mp hbody
    rw [LoxLang.executeAll]
    refine .bind (ih.execute s m hs) fun ending m₁ hending => ?_
    cases ending with
    | normal => exact ih.executeAll rest m₁ hrest
    | returned | broke | continued => exact .ret hending

end Settles

theorem settles (fuel : Nat) : Settles fuel := by
  induction fuel with
  | zero =>
    constructor <;> intros <;> simp only [LoxLang.execute, LoxLang.executeAll] <;> exact .outOfFuel
  | succ fuel ih => exact { execute := ih.execute_succ, executeAll := ih.executeAll_succ }

section

variable {c : Expr} {n : Option Stmt} {b : Stmt} {fuel fuel' : Nat} {m m' : Machine} {o : Outcome Ending}

/-- From one test of the condition to the next: the condition holds, the body ends normally or at a
`continue`, and the increment is run, once. -/
inductive LoopPass (c : Expr) (n : Option Stmt) (b : Stmt) (fuel : Nat) (m m' : Machine) : Prop
  | mk {v : Value} {m₁ m₂ : Machine} {ending : Ending} : evaluate fuel c m = .answer v m₁ →
    v.truthy = true → execute fuel b m₁ = .answer ending m₂ → ending = .normal ∨ ending = .continued →
    increase fuel n m₂ = .answer () m' → LoopPass c n b fuel m m'

/-- A loop that begins on the first machine tests its condition on the second one, after some passes. -/
inductive LoopTests (c : Expr) (n : Option Stmt) (b : Stmt) : Nat → Machine → Nat → Machine → Prop
  | here {fuel : Nat} {m : Machine} : LoopTests c n b fuel m fuel m
  | pass {fuel fuel' : Nat} {m m₁ m' : Machine} : LoopPass c n b fuel m m₁ →
    LoopTests c n b fuel m₁ fuel' m' → LoopTests c n b (fuel + 1) m fuel' m'

/-- The pass from which there is no way to another test, and how the loop ends there. -/
inductive LastPass (c : Expr) (n : Option Stmt) (b : Stmt) (fuel : Nat) (m : Machine) :
    Outcome Ending → Prop
  | stops {v : Value} {m₁ : Machine} : evaluate fuel c m = .answer v m₁ → v.truthy = false →
    LastPass c n b fuel m (.answer .normal m₁)
  | breaks {v : Value} {m₁ m₂ : Machine} : evaluate fuel c m = .answer v m₁ → v.truthy = true →
    execute fuel b m₁ = .answer .broke m₂ → LastPass c n b fuel m (.answer .normal m₂)
  | returns {v w : Value} {m₁ m₂ : Machine} : evaluate fuel c m = .answer v m₁ → v.truthy = true →
    execute fuel b m₁ = .answer (.returned w) m₂ → LastPass c n b fuel m (.answer (.returned w) m₂)
  | conditionFails {f : Fault} {m₁ : Machine} : evaluate fuel c m = .fault f m₁ →
    LastPass c n b fuel m (.fault f m₁)
  | bodyFails {v : Value} {f : Fault} {m₁ m₂ : Machine} : evaluate fuel c m = .answer v m₁ →
    v.truthy = true → execute fuel b m₁ = .fault f m₂ → LastPass c n b fuel m (.fault f m₂)
  | incrementFails {v : Value} {f : Fault} {m₁ m₂ m₃ : Machine} {ending : Ending} :
    evaluate fuel c m = .answer v m₁ → v.truthy = true → execute fuel b m₁ = .answer ending m₂ →
    ending = .normal ∨ ending = .continued → increase fuel n m₂ = .fault f m₃ →
    LastPass c n b fuel m (.fault f m₃)

theorem bodyThenIncrement_eq {ending : Ending} (hb : execute fuel b m = .answer ending m')
    (hending : ending = .normal ∨ ending = .continued) :
    bodyThenIncrement fuel n b m = (do increase fuel n; return Ending.normal) m' := by
  rw [bodyThenIncrement, bind_of_answer hb]
  rcases hending with rfl | rfl <;> rfl

theorem LoopPass.run_eq (h : LoopPass c n b fuel m m') :
    iterate (fuel + 1) c n b m = iterate fuel c n b m' := by
  obtain ⟨hc, hv, hb, hending, hn⟩ := h
  have hturn := (bodyThenIncrement_eq (n := n) hb hending).trans (bind_of_answer hn)
  rw [iterate_eq, bind_of_answer hc, if_pos hv, bind_of_answer hturn]

theorem LoopTests.run_eq (h : LoopTests c n b fuel m fuel' m') :
    iterate fuel c n b m = iterate fuel' c n b m' := by
  induction h with
  | here => rfl
  | pass h _ ih => exact h.run_eq.trans ih

/-- After a `continue` a loop runs its increment, and then it tests its condition again. -/
theorem LoopTests.run_eq_of_continued {v : Value} {m₁ m₂ : Machine}
    (h : LoopTests c n b fuel m (fuel' + 1) m') (hc : evaluate fuel' c m' = .answer v m₁)
    (hv : v.truthy = true) (hb : execute fuel' b m₁ = .answer .continued m₂) :
    iterate fuel c n b m = (do increase fuel' n; iterate fuel' c n b) m₂ := by
  rw [h.run_eq, iterate_eq, bind_of_answer hc, if_pos hv, bodyThenIncrement, bind_assoc, bind_of_answer hb]
  dsimp only
  rw [bind_assoc]
  rfl

theorem LastPass.run_eq (h : LastPass c n b fuel m o) : iterate (fuel + 1) c n b m = o := by
  rw [iterate_eq]
  cases h with
  | stops hc hv =>
    rw [bind_of_answer hc, if_neg (by simp [hv])]
    rfl
  | breaks hc hv hb | returns hc hv hb =>
    rw [bind_of_answer hc, if_pos hv, bodyThenIncrement, bind_assoc, bind_of_answer hb]
    rfl
  | conditionFails hc => exact bind_of_fault hc
  | bodyFails hc hv hb =>
    rw [bind_of_answer hc, if_pos hv, bodyThenIncrement, bind_assoc]
    exact bind_of_fault hb
  | incrementFails hc hv hb hending hn =>
    have hturn := (bodyThenIncrement_eq (n := n) hb hending).trans (bind_of_fault hn)
    rw [bind_of_answer hc, if_pos hv]
    exact bind_of_fault hturn

theorem pass_or_last (ho : iterate (fuel + 1) c n b m ≠ .exhausted) :
    (∃ m', LoopPass c n b fuel m m') ∨ LastPass c n b fuel m (iterate (fuel + 1) c n b m) := by
  have last {o : Outcome Ending} (h : LastPass c n b fuel m o) :
      LastPass c n b fuel m (iterate (fuel + 1) c n b m) := by rwa [h.run_eq]
  -- By the ways in which the condition, the body and the increment end; none of them is out of fuel.
  cases hc : evaluate fuel c m with
  | exhausted =>
    rw [iterate_eq, bind_of_exhausted hc] at ho
    exact absurd rfl ho
  | fault f m₁ => exact .inr (last (.conditionFails hc))
  | answer v m₁ =>
    cases hv : v.truthy with
    | false => exact .inr (last (.stops hc hv))
    | true =>
      rw [iterate_eq, bind_of_answer hc, if_pos hv] at ho
      cases hb : execute fuel b m₁ with
      | exhausted =>
        have hturn : bodyThenIncrement fuel n b m₁ = .exhausted := bind_of_exhausted hb
        exact absurd (bind_of_exhausted hturn) ho
      | fault f m₂ => exact .inr (last (.bodyFails hc hv hb))
      | answer ending m₂ =>
        have increment (hending : ending = .normal ∨ ending = .continued) :
            (∃ m', LoopPass c n b fuel m m') ∨ LastPass c n b fuel m (iterate (fuel + 1) c n b m) := by
          have hturn := bodyThenIncrement_eq (n := n) hb hending
          cases hn : increase fuel n m₂ with
          | exhausted => exact absurd (bind_of_exhausted (hturn.trans (bind_of_exhausted hn))) ho
          | fault f m₃ => exact .inr (last (.incrementFails hc hv hb hending hn))
          | answer _ m₃ => exact .inl ⟨m₃, .mk hc hv hb hending hn⟩
        cases ending with
        | normal => exact increment (.inl rfl)
        | continued => exact increment (.inr rfl)
        | broke => exact .inr (last (.breaks hc hv hb))
        | returned value => exact .inr (last (.returns hc hv hb))

/-- A loop ends as its last pass does, after passes each of which runs the increment once. -/
theorem iterate_eq_iff (ho : o ≠ .exhausted) :
    iterate fuel c n b m = o ↔
      ∃ rest m', LoopTests c n b fuel m (rest + 1) m' ∧ LastPass c n b rest m' o := by
  constructor
  · rintro rfl
    -- On the fuel, of which each pass takes one.
    induction fuel generalizing m with
    | zero => exact absurd (by rw [iterate]; rfl) ho
    | succ fuel ih =>
      rcases pass_or_last ho with ⟨m₁, hpass⟩ | hlast
      · rw [hpass.run_eq] at ho ⊢
        obtain ⟨rest, m₂, htests, hlast⟩ := ih ho
        exact ⟨rest, m₂, .pass hpass htests, hlast⟩
      · exact ⟨fuel, m, .here, hlast⟩
  · rintro ⟨rest, m₁, htests, hlast⟩
    exact htests.run_eq.trans hlast.run_eq

end

end LoxLang
