import LoxLang.Proofs.Evaluation.Origins

/-!
The current environment and the counter of calls are balanced.

Whatever is evaluated, on whatever machine and with whatever hop counts, comes back to the environment
it started in with the counter it started with. In between the counter counts the calls in progress, and
a call is refused exactly at the limit. Hence a session is at rest between its steps.
-/

set_option autoImplicit false

namespace LoxLang

namespace Session

/-- Sessions that any steps lead to: runs, reading and printing a line, defining a global, taking what
was printed. What lies outside the session may change between two steps. -/
inductive Reachable : Session → Prop
  | start (sink : Sink) (input : Input) (clock : Clock) : Reachable (start sink input clock)
  | run {s s' : Session} {interactive : Bool} {fuel : Nat} {source : String}
      {errors : List Diagnostic} :
    Reachable s → s.runAs interactive fuel source = some (errors, s') → Reachable s'
  | takeLine {s : Session} : Reachable s → Reachable s.takeLine.2
  | emit {s s' : Session} {line : String} : Reachable s → s.emit line = .ok s' → Reachable s'
  | defineGlobal {s : Session} (name : String) (value : Value) :
    Reachable s → Reachable (s.defineGlobal name value)
  | takeOutput {s : Session} : Reachable s → Reachable s.takeOutput.2
  | facing {s : Session} (sink : Sink) (input : Input) (clock : Clock) :
    Reachable s → Reachable (s.facing sink input clock)

theorem Reachable.atRest {s : Session} (h : s.Reachable) : s.AtRest := by
  induction h with
  | start sink input clock => exact atRest_start sink input clock
  | run _ h ih =>
    exact (runAs_keeps (D := AnyFunction) (fun _ _ _ _ _ _ => trivial) (fun _ _ _ _ _ => trivial)
      (stored_any _) ih h).2
  | takeLine _ ih | defineGlobal _ _ _ ih | takeOutput _ ih | facing _ _ _ _ ih =>
    exact ⟨ih.cursor, ih.calls⟩
  | @emit s s' line _ h ih =>
    unfold Session.emit at h
    split at h
    · cases h
      exact ⟨ih.cursor, ih.calls⟩
    · cases h

theorem atRest_of_fault {s s₁ : Session} {source : String} {p : Performance} {fault : Fault}
    {after : Machine} (hs : s.AtRest) (hp : s.prepare source = (.ok p.program, s₁))
    (h : p.act s₁.machine = .fault fault after) : after.atRest = after := by
  obtain ⟨_, _, -, -, -, hm⟩ := prepare_ok hp
  have hact : p.act.Keeps AnyFunction s₁.machine :=
    Eval.keeps_act (fun _ _ _ _ _ _ => trivial) p _ fun _ _ _ => trivial
  have hkept := (hact (stored_any _)).fault h
  have hcursor : after.cursor = Store.globals := by
    rw [hkept.cursor, hm]
    exact hs.cursor
  have hcalls : after.calls = 0 := by
    rw [hkept.calls, hm]
    exact hs.calls
  unfold Machine.atRest
  rw [← hcursor, ← hcalls]

end Session

/-- The current environment and the number of calls survive every way out. Every activity, every block
and every call comes back to those it started with. While an activity is in progress the counter is the
number at its start and the calls since, and never more than the limit; a call is refused exactly when
there are as many calls in progress already, and no failure but that of such a call says so. Between the
steps of a session the current environment is the global one and no call is in progress, and nothing
has to be set right for that after a fault. -/
theorem cursor_and_calls_balanced :
    (∀ a : Activity, a.machine.calls ≤ callLimit → ∀ b n, a.Nests b n →
      b.outcome.Restores b.machine ∧
      b.machine.calls = a.machine.calls + n ∧ b.machine.calls ≤ callLimit ∧
      ∀ line, b.Requests line → (b.Refused line ↔ b.machine.calls = callLimit)) ∧
    (∀ a : Activity, a.machine.calls ≤ callLimit → ∀ line m,
      a.outcome = .fault (.runtime line .stackOverflow) m →
        ∃ b n, a.Nests b n ∧ b.Refused line ∧ a.machine.calls + n = callLimit) ∧
    (∀ fuel frame body m, (Eval.within frame (executeAll fuel body) m).Restores m) ∧
    (∀ (α : Type) (act : Eval α) (line : Nat) (m : Machine),
      (act { m with calls := m.calls + 1 }).Restores { m with calls := m.calls + 1 } →
        (Eval.deeper line act m).Restores m) ∧
    (∀ s : Session, s.Reachable → s.machine.cursor = Store.globals ∧ s.machine.calls = 0 ∧
      ∀ interactive fuel source p, s.performance? interactive fuel source = some p →
        ∀ fault after, p.act p.machine = .fault fault after → after.atRest = after) := by
  refine ⟨?_, ?_, ?_, ?_, ?_⟩
  · intro a ha b n hnests
    obtain ⟨hcount, hlimit⟩ := hnests.calls ha
    refine ⟨b.restores, hcount, hlimit, fun line hrequests => ?_⟩
    -- Refused is what is at the limit, and no count goes beyond it.
    rw [hrequests.refused_iff]
    omega
  · intro a ha line m hfault
    obtain ⟨b, n, hnests, hrequests, hfull⟩ := Activity.exists_request hfault
    obtain ⟨hcount, hlimit⟩ := hnests.calls ha
    exact ⟨b, n, hnests, hrequests.refused_iff.mpr hfull, by omega⟩
  · intro fuel frame body m
    have hbody := (preserves_any fuel).executeAll body { m with cursor := frame } fun _ _ _ => trivial
    exact hbody.within.restores
  · intro α act line m hact
    unfold Eval.deeper
    split
    · exact ⟨rfl, rfl⟩
    · cases hv : act { m with calls := m.calls + 1 } with
      | answer v m' =>
        rw [hv] at hact
        exact ⟨hact.1, by simp [hact.2]⟩
      | fault f m' =>
        rw [hv] at hact
        exact ⟨hact.1, by simp [hact.2]⟩
      | exhausted => trivial
  · intro s hs
    have hrest := hs.atRest
    refine ⟨hrest.cursor, hrest.calls, fun interactive fuel source p hp fault after h => ?_⟩
    obtain ⟨s₁, hprepare, hm⟩ := Session.performance?_some hp
    exact Session.atRest_of_fault hrest hprepare (hm ▸ h)

/-- With as many calls in progress as may be, even the clock is not asked. -/
theorem clock_refused_at_limit :
    ∃ a : Activity, a.machine.calls = callLimit ∧ a.Requests 7 ∧ a.Refused 7 ∧
      a.outcome.Restores a.machine := by
  let m : Machine := { Machine.start .unlimited [] (.ticking 0) with calls := callLimit }
  let a : Activity := ⟨1, .call 7 (.native .clock) [], m⟩
  have hrequests : a.Requests 7 := .native rfl
  obtain ⟨hrestores, -, -, hrefused⟩ :=
    cursor_and_calls_balanced.1 a (Nat.le_refl callLimit) a 0 .self
  exact ⟨a, rfl, hrequests, (hrefused 7 hrequests).mpr rfl, hrestores⟩

end LoxLang
