import Mathlib
import LoxLang.Evaluation

set_option autoImplicit false

namespace LoxLang

def Outcome.answer? {α : Type} : Outcome α → Option (α × Machine)
  | .answer v m => some (v, m)
  | .fault _ _ | .exhausted => none

theorem Outcome.answer?_eq_some {α : Type} {o : Outcome α} {v : α} {m : Machine} :
    o.answer? = some (v, m) ↔ o = .answer v m := by
  cases o <;> simp [Outcome.answer?]

namespace Eval

/-- What holds of an answer and the machine after it, and of a fault and the machine after it. -/
def Ensures {α : Type} (act : Eval α) (m : Machine) (A : α → Machine → Prop)
    (F : Fault → Machine → Prop) : Prop :=
  match act m with
  | .answer v m' => A v m'
  | .fault f m' => F f m'
  | .exhausted => True

theorem bind_of_answer {α β : Type} {act : Eval α} {next : α → Eval β} {m m' : Machine} {v : α}
    (h : act m = .answer v m') : (act >>= next) m = next v m' := by
  change andThen act next m = _
  rw [andThen, h]

theorem bind_of_fault {α β : Type} {act : Eval α} {next : α → Eval β} {m m' : Machine} {f : Fault}
    (h : act m = .fault f m') : (act >>= next) m = .fault f m' := by
  change andThen act next m = _
  rw [andThen, h]

theorem bind_of_exhausted {α β : Type} {act : Eval α} {next : α → Eval β} {m : Machine}
    (h : act m = .exhausted) : (act >>= next) m = .exhausted := by
  change andThen act next m = _
  rw [andThen, h]

theorem bind_assoc {α β γ : Type} (act : Eval α) (f : α → Eval β) (g : β → Eval γ) :
    (act >>= f) >>= g = act >>= fun v => f v >>= g := by
  funext m
  change andThen (andThen act f) g m = andThen act (fun v => andThen (f v) g) m
  unfold andThen
  cases act m <;> rfl

theorem bind_ret {α : Type} (act : Eval α) : act >>= ret = act := by
  funext m
  change andThen act ret m = act m
  unfold andThen
  cases act m <;> rfl

theorem within_of_answer {α : Type} {act : Eval α} {frame : FrameId} {m m' : Machine} {v : α}
    (h : act { m with cursor := frame } = .answer v m') :
    within frame act m = .answer v { m' with cursor := m.cursor } := by
  simp only [within, h]

theorem lookUp_of_some {target : Reference} {m : Machine} {d : Nat}
    (h : m.hops[target.id]? = some d) :
    lookUp target m =
      ofExcept target.name.line (m.store.lookupAt m.cursor d target.name.lexeme) m := by
  unfold lookUp
  rw [h]

theorem lookUp_of_none {target : Reference} {m : Machine} (h : m.hops[target.id]? = none) :
    lookUp target m =
      ofExcept target.name.line (m.store.lookup Store.globals target.name.lexeme) m := by
  unfold lookUp
  rw [h]

theorem requireArity_answer {line arity given : Nat} {m m' : Machine} :
    requireArity line arity given m = .answer () m' ↔ arity = given ∧ m' = m := by
  unfold requireArity
  split
  · rename_i h
    exact ⟨by rintro ⟨⟩; exact ⟨h, rfl⟩, by rintro ⟨-, rfl⟩; rfl⟩
  · rename_i h
    exact ⟨nofun, fun hm => absurd hm.1 h⟩

theorem innerFrame_eq (m : Machine) :
    innerFrame m = .answer ⟨m.store.frames.size⟩
      { m with store := (m.store.addFrame (some m.cursor)).2 } := rfl

namespace Ensures

variable {α β : Type} {m : Machine} {F : Fault → Machine → Prop}

theorem answer {act : Eval α} {A : α → Machine → Prop} (h : act.Ensures m A F) {v : α}
    {m' : Machine} (hv : act m = .answer v m') : A v m' := by
  unfold Ensures at h
  rw [hv] at h
  exact h

theorem fault {act : Eval α} {A : α → Machine → Prop} (h : act.Ensures m A F) {f : Fault}
    {m' : Machine} (hf : act m = .fault f m') : F f m' := by
  unfold Ensures at h
  rw [hf] at h
  exact h

theorem intro {act : Eval α} {A : α → Machine → Prop}
    (hA : ∀ v m', act m = .answer v m' → A v m') (hF : ∀ f m', act m = .fault f m' → F f m') :
    act.Ensures m A F := by
  unfold Ensures
  cases h : act m with
  | answer v m' => exact hA v m' h
  | fault f m' => exact hF f m' h
  | exhausted => trivial

theorem imp {act : Eval α} {A B : α → Machine → Prop} {G : Fault → Machine → Prop}
    (h : act.Ensures m A F) (hA : ∀ v m', A v m' → B v m') (hF : ∀ f m', F f m' → G f m') :
    act.Ensures m B G :=
  intro (fun v m' hv => hA v m' (h.answer hv)) fun f m' hf => hF f m' (h.fault hf)

theorem of_eq {act act' : Eval α} {A : α → Machine → Prop} (heq : act m = act' m)
    (h : act'.Ensures m A F) : act.Ensures m A F := by
  unfold Ensures
  rw [heq]
  exact h

theorem ret {A : α → Machine → Prop} {v : α} (h : A v m) : (pure v : Eval α).Ensures m A F := h

theorem outOfFuel {A : α → Machine → Prop} : (outOfFuel : Eval α).Ensures m A F := trivial

theorem ofExcept {A : α → Machine → Prop} {line : Nat} {x : Except RuntimeError α}
    (hok : ∀ v, x = .ok v → A v m) (herror : ∀ cause, x = .error cause → F (.runtime line cause) m) :
    (ofExcept line x).Ensures m A F := by
  cases x with
  | ok v => exact hok v rfl
  | error cause => exact herror cause rfl

theorem bind {act : Eval α} {next : α → Eval β} {P : α → Machine → Prop}
    {A : β → Machine → Prop} (h : act.Ensures m P F)
    (hnext : ∀ v m', act m = .answer v m' → P v m' → (next v).Ensures m' A F) :
    (act >>= next).Ensures m A F := by
  change match andThen act next m with | .answer _ _ => _ | .fault _ _ => _ | .exhausted => _
  unfold andThen
  cases hv : act m with
  | answer v m' => exact hnext v m' hv (h.answer hv)
  | fault f m' => exact h.fault hv
  | exhausted => trivial

theorem viewThen {next : α → Eval β} {f : Machine → α} {A : β → Machine → Prop}
    (h : (next (f m)).Ensures m A F) : (Eval.view f >>= next).Ensures m A F := h

theorem updateThen {next : α → Eval β} {f : Store → α × Store} {A : β → Machine → Prop}
    (h : (next (f m.store).1).Ensures { m with store := (f m.store).2 } A F) :
    (Eval.update f >>= next).Ensures m A F := h

theorem innerThen {next : FrameId → Eval β} {A : β → Machine → Prop}
    (h : (next ⟨m.store.frames.size⟩).Ensures
      { m with store := (m.store.addFrame (some m.cursor)).2 } A F) :
    (innerFrame >>= next).Ensures m A F := h

theorem within {act : Eval α} {frame : FrameId} {A : α → Machine → Prop}
    (h : act.Ensures { m with cursor := frame } (fun v m' => A v { m' with cursor := m.cursor })
      fun f m' => F f { m' with cursor := m.cursor }) :
    (within frame act).Ensures m A F := by
  unfold Ensures Eval.within
  cases hv : act { m with cursor := frame } with
  | answer v m' => exact h.answer hv
  | fault f m' => exact h.fault hv
  | exhausted => trivial

theorem deeper {act : Eval α} {line : Nat} {A : α → Machine → Prop}
    (hfull : callLimit ≤ m.calls → F (.runtime line .stackOverflow) m)
    (h : m.calls < callLimit → act.Ensures { m with calls := m.calls + 1 }
      (fun v m' => A v { m' with calls := m'.calls - 1 })
      fun f m' => F f { m' with calls := m'.calls - 1 }) :
    (deeper line act).Ensures m A F := by
  unfold Ensures Eval.deeper
  by_cases hc : callLimit ≤ m.calls
  · rw [if_pos hc]
    exact hfull hc
  · rw [if_neg hc]
    have h := h (by omega)
    cases hv : act { m with calls := m.calls + 1 } with
    | answer v m' => exact h.answer hv
    | fault f m' => exact h.fault hv
    | exhausted => trivial

theorem emit {line : String} {A : Unit → Machine → Prop}
    (hok : ∀ sink, m.sink.accept line = .ok sink → A () { m with sink })
    (herror : ∀ cause, m.sink.accept line = .error cause → F (.io cause) m) :
    (emit line).Ensures m A F := by
  unfold Ensures Eval.emit
  cases h : m.sink.accept line with
  | ok sink => exact hok sink h
  | error cause => exact herror cause h

theorem takeLine {A : Except IoError (Option String) → Machine → Prop}
    (h : A (nextLine m.input).1 { m with input := (nextLine m.input).2 }) :
    Eval.takeLine.Ensures m A F := h

end Ensures

end Eval

end LoxLang
