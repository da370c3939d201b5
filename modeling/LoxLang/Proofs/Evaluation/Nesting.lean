import LoxLang.Proofs.Evaluation.Activity

/-!
Calls in progress.

An activity that is entered is nested in the one that entered it, and one call deeper if that one is a
call. The counter of the machine agrees with this nesting.
-/

set_option autoImplicit false

namespace LoxLang

namespace Outcome

variable {α : Type}

def forget : Outcome α → Outcome Unit
  | .answer _ m => .answer () m
  | .fault cause m => .fault cause m
  | .exhausted => .exhausted

theorem fault_of_forget {o : Outcome α} {cause : Fault} {m : Machine}
    (h : o.forget = .fault cause m) : o = .fault cause m := by
  cases o with
  | fault => simpa [forget] using h
  | answer | exhausted => simp [forget] at h

/-- On the way out the current environment and the number of calls in progress are those of another
machine. Running out of fuel is no way out. -/
def Restores (m : Machine) : Outcome α → Prop
  | .answer _ m' => m'.cursor = m.cursor ∧ m'.calls = m.calls
  | .fault _ m' => m'.cursor = m.cursor ∧ m'.calls = m.calls
  | .exhausted => True

end Outcome

namespace Activity

def outcome (a : Activity) : Outcome Unit :=
  match a.task with
  | .evaluate e => (LoxLang.evaluate a.fuel e a.machine).forget
  | .evaluateAll es => (LoxLang.evaluateAll a.fuel es a.machine).forget
  | .call line callee vs => (LoxLang.call a.fuel line callee vs a.machine).forget
  | .invoke line id vs => (LoxLang.invoke a.fuel line id vs a.machine).forget
  | .construct line id vs => (LoxLang.construct a.fuel line id vs a.machine).forget
  | .render line v => (LoxLang.render a.fuel line v a.machine).forget
  | .execute s => (LoxLang.execute a.fuel s a.machine).forget
  | .executeAll body => (LoxLang.executeAll a.fuel body a.machine).forget
  | .iterate c n b => (LoxLang.iterate a.fuel c n b a.machine).forget

end Activity

namespace Eval

variable {α : Type} {act : Eval α} {m : Machine}

theorem Keeps.restores (h : act.Keeps AnyFunction m) : (act m).Restores m := by
  have h := h (stored_any _)
  cases hv : act m with
  | answer v m' => exact ⟨(h.answer hv).cursor, (h.answer hv).calls⟩
  | fault f m' => exact ⟨(h.fault hv).cursor, (h.fault hv).calls⟩
  | exhausted => trivial

theorem restores_forget {m : Machine} {o : Outcome α} : o.forget.Restores m ↔ o.Restores m := by
  cases o <;> exact Iff.rfl

end Eval

theorem Activity.restores (a : Activity) : a.outcome.Restores a.machine := by
  obtain ⟨fuel, task, m⟩ := a
  have keeps := preserves_any fuel
  cases task with
  | evaluate e => exact Eval.restores_forget.mpr (keeps.evaluate e m).restores
  | evaluateAll es => exact Eval.restores_forget.mpr (keeps.evaluateAll es m).restores
  | call line callee vs => exact Eval.restores_forget.mpr (keeps.call line callee vs m).restores
  | invoke line id vs => exact Eval.restores_forget.mpr (keeps.invoke line id vs m).restores
  | construct line id vs => exact Eval.restores_forget.mpr (keeps.construct line id vs m).restores
  | render line v => exact Eval.restores_forget.mpr (keeps.render line v m).restores
  | execute s => exact Eval.restores_forget.mpr (keeps.execute s m fun _ _ _ => trivial).restores
  | executeAll body =>
    exact Eval.restores_forget.mpr (keeps.executeAll body m fun _ _ _ => trivial).restores
  | iterate c n b =>
    exact Eval.restores_forget.mpr (keeps.iterate c n b m fun _ _ _ => trivial).restores

def Task.opened : Task → Nat
  | .call _ _ _ | .render _ _ => 1
  | _ => 0

/-- The second activity is entered while the first one is in progress, with so many calls between. -/
inductive Activity.Nests (a : Activity) : Activity → Nat → Prop
  | self : Nests a a 0
  | part {b c : Activity} {n : Nat} {change : Context → Context} :
    Nests a b n → b.Enters change c → Nests a c (n + b.task.opened)
  | body {b c : Activity} {n : Nat} {id : FunctionId} {d : Declaration} {frame : FrameId} :
    Nests a b n → b.Invokes id d frame c → Nests a c n

namespace Activity

variable {a b c : Activity} {change : Context → Context} {n : Nat}

theorem Nests.ofPart (h : a.Enters change b) (hc : b.Nests c n) :
    a.Nests c (a.task.opened + n) := by
  induction hc with
  | self => simpa using Nests.self.part h
  | part _ hentered ih => simpa [Nat.add_assoc] using ih.part hentered
  | body _ hinvoked ih => exact ih.body hinvoked

theorem Nests.ofBody {id : FunctionId} {d : Declaration} {frame : FrameId}
    (h : a.Invokes id d frame b) (hc : b.Nests c n) : a.Nests c n := by
  induction hc with
  | self => exact Nests.self.body h
  | part _ hentered ih => exact ih.part hentered
  | body _ hinvoked ih => exact ih.body hinvoked

/-- What a task enters is at its own call depth or, for a call, one deeper and not beyond the limit. -/
theorem Enters.calls (h : a.Enters change b) :
    b.machine.calls = a.machine.calls + a.task.opened ∧
      (a.task.opened = 1 → a.machine.calls < callLimit) := by
  cases h with
  | binaryRight h | logicalRight h | conditionalThen h | conditionalElse h | arguments h
  | newValue h | others h | print h | branchThen h | branchElse h | body h =>
    exact ⟨(evaluate_kept h).calls, by simp [Task.opened]⟩
  | call hf hvs =>
    exact ⟨(evaluateAll_kept hvs).calls.trans (evaluate_kept hf).calls, by simp [Task.opened]⟩
  | function _ hcalls | classCall _ hcalls => exact ⟨rfl, fun _ => hcalls⟩
  | initializer hobject _ hbound =>
    cases hobject
    have hkept := (Eval.keeps_bindMethod _ _ (stored_any _)).answer hbound
    exact ⟨hkept.calls, by simp [Task.opened]⟩
  | text _ _ hbound hcalls =>
    have hkept := (Eval.keeps_bindMethod _ _ (stored_any _)).answer hbound
    exact ⟨congrArg (· + 1) hkept.calls, fun _ => hkept.calls ▸ hcalls⟩
  | @textOf fuel line m m₁ _ _ _ bound _ _ _ hbound hcalls hv =>
    have hkept := (Eval.keeps_bindMethod _ _ (stored_any _)).answer hbound
    have hbody := ((preserves_any fuel).invoke line bound [] m₁.deeper (stored_any _)).answer hv
    exact ⟨hbody.calls.trans (congrArg (· + 1) hkept.calls), fun _ => hkept.calls ▸ hcalls⟩
  | tail h => exact ⟨(execute_kept h).calls, by simp [Task.opened]⟩
  | @started _ m _ _ _ _ _ _ h =>
    have hkept : _ = m.inner.calls := (execute_kept h).calls
    exact ⟨hkept, by simp [Task.opened]⟩
  | increment hc _ hb _ | again hc _ hb _ =>
    exact ⟨(execute_kept hb).calls.trans (evaluate_kept hc).calls, by simp [Task.opened]⟩
  | incremented hc _ hb _ hn =>
    have hkept := (execute_kept hb).calls.trans (evaluate_kept hc).calls
    exact ⟨(execute_kept hn).calls.trans hkept, by simp [Task.opened]⟩
  | _ => exact ⟨rfl, by simp [Task.opened]⟩

theorem Invokes.calls {id : FunctionId} {d : Declaration} {frame : FrameId}
    (h : a.Invokes id d frame b) : b.machine.calls = a.machine.calls := by
  cases h with
  | body _ _ hframe =>
    exact ((Eval.keeps_parameterFrame _ _ _ (stored_any _)).answer hframe).calls

/-- The counter counts the calls in progress and stays within its limit. -/
theorem Nests.calls (h : a.Nests b n) (ha : a.machine.calls ≤ callLimit) :
    b.machine.calls = a.machine.calls + n ∧ b.machine.calls ≤ callLimit := by
  induction h with
  | self => exact ⟨rfl, ha⟩
  | @part b c n _ _ h ih =>
    obtain ⟨hcount, hlimit⟩ := h.calls
    have hopened : b.task.opened ≤ 1 := by
      cases b.task <;> simp [Task.opened]
    constructor <;> omega
  | body _ h ih =>
    rw [h.calls]
    exact ih

/-- The activity comes to a call that would be reported at the line: the callee is there and takes so
many arguments. -/
inductive Requests : Activity → Nat → Prop
  | native {fuel line : Nat} {m : Machine} {f : Native} {vs : List Value} :
    f.arity = vs.length → Requests ⟨fuel + 1, .call line (.native f) vs, m⟩ line
  | function {fuel line : Nat} {m : Machine} {f : FunctionId} {vs : List Value} :
    m.store.functionArity f = vs.length → Requests ⟨fuel + 1, .call line (.function f) vs, m⟩ line
  | classCall {fuel line : Nat} {m : Machine} {c : ClassId} {vs : List Value} :
    m.store.classArity c = vs.length → Requests ⟨fuel + 1, .call line (.classValue c) vs, m⟩ line
  | text {fuel line : Nat} {m : Machine} {object : ObjectId} {method : FunctionId} :
    m.store.methodOf? object toStringName = some method → m.store.functionArity method = 0 →
    Requests ⟨fuel + 1, .render line (.object object), m⟩ line

def Refused (a : Activity) (line : Nat) : Prop :=
  (∃ m', a.outcome = .fault (.runtime line .stackOverflow) m') ∧ ∀ change b, ¬ a.Enters change b

end Activity

end LoxLang
