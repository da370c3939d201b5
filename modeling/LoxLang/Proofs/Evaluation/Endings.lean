import LoxLang.Proofs.Evaluation.Ensures
import LoxLang.Proofs.Scope.Control

set_option autoImplicit false

namespace LoxLang

/-- The ways in which a statement of such a function may end. -/
def Ending.Allowed (kind : EnclosingFunction) (inLoop : Bool) : Ending → Prop
  | .normal => True
  | .returned value => kind ≠ .outside ∧ (kind = .initializer → value = .nil)
  | .broke | .continued => inLoop = true

namespace Eval

def Answers {α : Type} (act : Eval α) (m : Machine) (A : α → Prop) : Prop :=
  act.Ensures m (fun v _ => A v) fun _ _ => True

namespace Answers

variable {α β : Type} {m : Machine} {A : β → Prop}

theorem ret {v : β} (h : A v) : (pure v : Eval β).Answers m A := h

theorem outOfFuel : (outOfFuel : Eval β).Answers m A := trivial

theorem after {act : Eval α} {next : α → Eval β} (h : ∀ v m', (next v).Answers m' A) :
    (act >>= next).Answers m A := by
  have hact : act.Ensures m (fun _ _ => True) fun _ _ => True :=
    .intro (fun _ _ _ => trivial) fun _ _ _ => trivial
  exact .bind hact fun v m' _ _ => h v m'

theorem bind {act : Eval α} {next : α → Eval β} {P : α → Prop} (hact : act.Answers m P)
    (h : ∀ v m', P v → (next v).Answers m' A) : (act >>= next).Answers m A :=
  Ensures.bind hact fun v m' _ hv => h v m' hv

theorem within {act : Eval β} {frame : FrameId} (h : act.Answers { m with cursor := frame } A) :
    (within frame act).Answers m A :=
  Ensures.within h

end Answers

end Eval

/-- All statements end as they may with this much fuel. -/
structure Obeys (fuel : Nat) : Prop where
  execute : ∀ {kind inLoop} (s : Stmt) (m : Machine), s.Controlled kind inLoop →
    (execute fuel s).Answers m (·.Allowed kind inLoop)
  executeAll : ∀ {kind inLoop} (body : List Stmt) (m : Machine),
    Stmt.AllControlled kind inLoop body → (executeAll fuel body).Answers m (·.Allowed kind inLoop)
  iterate : ∀ {kind} (c : Expr) (n : Option Stmt) (b : Stmt) (m : Machine), b.Controlled kind true →
    (iterate fuel c n b).Answers m (·.Allowed kind false)

section

variable {fuel : Nat} {kind : EnclosingFunction} {inLoop : Bool}

theorem Ending.Allowed.leave {ending : Ending} (h : ending.Allowed kind false) :
    ending.Allowed kind inLoop := by
  cases ending with
  | normal => trivial
  | returned value => exact h
  | broke | continued => cases h

theorem Obeys.execute_succ (ih : Obeys fuel) (s : Stmt) (m : Machine)
    (hs : s.Controlled kind inLoop) :
    (LoxLang.execute (fuel + 1) s).Answers m (·.Allowed kind inLoop) := by
  cases s with
  | expression e =>
    rw [LoxLang.execute]
    exact .after fun _ _ => .ret trivial
  | print e =>
    rw [LoxLang.execute]
    exact .after fun _ _ => .after fun _ _ => .after fun _ _ => .ret trivial
  | declareVar name e =>
    cases e with
    | none =>
      rw [LoxLang.execute]
      exact .after fun _ _ => .after fun _ _ => .ret trivial
    | some e =>
      rw [LoxLang.execute]
      exact .after fun _ _ => .after fun _ _ => .ret trivial
  | block body =>
    rw [LoxLang.execute]
    exact .after fun _ _ => .within (ih.executeAll body _ hs)
  | branch c t e =>
    cases e with
    | none =>
      rw [LoxLang.execute]
      refine .after fun _ m₁ => ?_
      split
      · exact ih.execute t m₁ hs
      · exact .ret trivial
    | some e =>
      rw [LoxLang.execute]
      refine .after fun _ m₁ => ?_
      split
      · exact ih.execute t m₁ hs.1
      · exact ih.execute e m₁ hs.2
  | loop i c n b =>
    have leave : ∀ m, b.Controlled kind true →
        (LoxLang.iterate fuel c n b).Answers m (·.Allowed kind inLoop) :=
      fun m hb => Eval.Ensures.imp (ih.iterate c n b m hb) (fun _ _ h => h.leave) fun _ _ h => h
    cases i with
    | none =>
      rw [LoxLang.execute]
      exact leave m hs.2
    | some i =>
      rw [LoxLang.execute]
      exact .after fun _ _ => .within (.after fun _ m₂ => leave m₂ hs.2.2)
  | declareFunction d =>
    rw [LoxLang.execute]
    exact .after fun _ _ => .after fun _ _ => .after fun _ _ => .ret trivial
  | returnWith word e =>
    cases e with
    | none =>
      rw [LoxLang.execute]
      exact .ret ⟨hs.1, fun _ => rfl⟩
    | some e =>
      rw [LoxLang.execute]
      exact .after fun _ _ => .ret ⟨hs.1, fun hinit => absurd (hs.2 hinit) (by simp)⟩
  | breakLoop | continueLoop =>
    rw [LoxLang.execute]
    exact .ret hs
  | declareClass name base ds =>
    rw [LoxLang.execute]
    exact .after fun _ _ => .ret trivial

theorem Obeys.executeAll_succ (ih : Obeys fuel) (body : List Stmt) (m : Machine)
    (hs : Stmt.AllControlled kind inLoop body) :
    (LoxLang.executeAll (fuel + 1) body).Answers m (·.Allowed kind inLoop) := by
  cases body with
  | nil =>
    rw [LoxLang.executeAll]
    exact .ret trivial
  | cons s rest =>
    rw [LoxLang.executeAll]
    refine .bind (ih.execute s m hs.1) fun ending m₁ hending => ?_
    cases ending with
    | normal => exact ih.executeAll rest m₁ hs.2
    | returned | broke | continued => exact .ret hending

theorem Obeys.iterate_succ (ih : Obeys fuel) (c : Expr) (n : Option Stmt) (b : Stmt) (m : Machine)
    (hb : b.Controlled kind true) :
    (LoxLang.iterate (fuel + 1) c n b).Answers m (·.Allowed kind false) := by
  cases n with
  | none =>
    rw [LoxLang.iterate]
    refine .after fun _ m₁ => ?_
    split
    · refine .bind (ih.execute b m₁ hb) fun ending m₂ hending => ?_
      cases ending with
      | normal | continued => exact ih.iterate c none b m₂ hb
      | broke => exact .ret trivial
      | returned value => exact .ret hending
    · exact .ret trivial
  | some n =>
    rw [LoxLang.iterate]
    refine .after fun _ m₁ => ?_
    split
    · refine .bind (ih.execute b m₁ hb) fun ending m₂ hending => ?_
      cases ending with
      | normal | continued => exact .after fun _ m₃ => ih.iterate c (some n) b m₃ hb
      | broke => exact .ret trivial
      | returned value => exact .ret hending
    · exact .ret trivial

theorem obeys (fuel : Nat) : Obeys fuel := by
  induction fuel with
  | zero =>
    constructor <;> intros <;>
      simp only [LoxLang.execute, LoxLang.executeAll, LoxLang.iterate] <;>
      exact .outOfFuel
  | succ fuel ih =>
    exact
      { execute := ih.execute_succ
        executeAll := ih.executeAll_succ
        iterate := ih.iterate_succ }

theorem ends_normal_of_isClause {s : Stmt} (hs : s.isClause = true) {m : Machine} :
    (execute fuel s).Answers m (· = .normal) := by
  have hcontrolled : s.Controlled .outside false := by
    cases s <;> simp_all [Stmt.isClause, Stmt.Controlled]
  refine Eval.Ensures.imp ((obeys fuel).execute s m hcontrolled) (fun ending _ hallowed => ?_) fun _ _ h => h
  cases ending with
  | normal => rfl
  | returned value => exact absurd rfl hallowed.1
  | broke | continued => cases hallowed

end

end LoxLang
