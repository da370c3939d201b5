import LoxLang.Proofs.Evaluation.Origins

set_option autoImplicit false

namespace LoxLang

namespace Eval

/-- The computation ends with the fault, on the machine but for the current environment and the calls in
progress. -/
def Fails {α : Type} (act : Eval α) (m : Machine) (f : Fault) (m' : Machine) : Prop :=
  ∃ y, act m = .fault f y ∧ y.atRest = m'.atRest

namespace Fails

variable {α β : Type} {act : Eval α} {next : α → Eval β} {m m₁ m' : Machine} {f : Fault} {v : α}

theorem first (h : act.Fails m f m') : (act >>= next).Fails m f m' := by
  obtain ⟨y, hy, hrest⟩ := h
  exact ⟨y, bind_of_fault hy, hrest⟩

theorem after (hv : act m = .answer v m₁) (h : (next v).Fails m₁ f m') :
    (act >>= next).Fails m f m' := by
  obtain ⟨y, hy, hrest⟩ := h
  exact ⟨y, by rw [bind_of_answer hv, hy], hrest⟩

theorem viewThen {g : Machine → α} (h : (next (g m)).Fails m f m') :
    (view g >>= next).Fails m f m' := after rfl h

theorem innerThen {next : FrameId → Eval β}
    (h : (next m.inner.cursor).Fails { m.inner with cursor := m.cursor } f m') :
    (innerFrame >>= next).Fails m f m' := after (innerFrame_eq m) h

theorem within {frame : FrameId} (h : act.Fails { m with cursor := frame } f m') :
    (within frame act).Fails m f m' := by
  obtain ⟨y, hy, hrest⟩ := h
  refine ⟨{ y with cursor := m.cursor }, ?_, hrest⟩
  unfold Eval.within
  rw [hy]

theorem deeper {line : Nat} (hcalls : m.calls < callLimit) (h : act.Fails m.deeper f m') :
    (deeper line act).Fails m f m' := by
  obtain ⟨y, hy, hrest⟩ := h
  refine ⟨{ y with calls := y.calls - 1 }, ?_, hrest⟩
  change act { m with calls := m.calls + 1 } = _ at hy
  unfold Eval.deeper
  rw [if_neg (Nat.not_le.mpr hcalls), hy]

end Fails

end Eval

namespace Activity

def Fails (a : Activity) (f : Fault) (m' : Machine) : Prop :=
  match a.task with
  | .evaluate e => (LoxLang.evaluate a.fuel e).Fails a.machine f m'
  | .evaluateAll es => (LoxLang.evaluateAll a.fuel es).Fails a.machine f m'
  | .call line callee vs => (LoxLang.call a.fuel line callee vs).Fails a.machine f m'
  | .invoke line id vs => (LoxLang.invoke a.fuel line id vs).Fails a.machine f m'
  | .construct line id vs => (LoxLang.construct a.fuel line id vs).Fails a.machine f m'
  | .render line v => (LoxLang.render a.fuel line v).Fails a.machine f m'
  | .execute s => (LoxLang.execute a.fuel s).Fails a.machine f m'
  | .executeAll body => (LoxLang.executeAll a.fuel body).Fails a.machine f m'
  | .iterate c n b => (LoxLang.iterate a.fuel c n b).Fails a.machine f m'

open Eval

variable {a b : Activity} {f : Fault} {m' : Machine}

/-- The fault of an activity is the fault of the one that entered it. -/
theorem Enters.fails {change : Context → Context} (h : a.Enters change b) (hb : b.Fails f m') :
    a.Fails f m' := by
  -- What comes first has been answered, so all that is left of `a` up to the fault is `b`.
  cases h with
  | grouping =>
    simp only [Fails, LoxLang.evaluate]
    exact hb
  | unary | binaryLeft | logicalLeft | condition | assigned | callee | gotten | changed =>
    simp only [Fails, LoxLang.evaluate]
    exact .first hb
  | binaryRight hv | arguments hv | newValue hv =>
    simp only [Fails, LoxLang.evaluate]
    exact .after hv (.first hb)
  | logicalRight hv hchosen | conditionalThen hv hchosen | conditionalElse hv hchosen =>
    simp only [Fails, LoxLang.evaluate]
    refine .after hv ?_
    rw [hchosen]
    exact hb
  | call hf hvs =>
    simp only [Fails, LoxLang.evaluate]
    exact .after hf (.after hvs hb)
  | first =>
    simp only [Fails, LoxLang.evaluateAll]
    exact .first hb
  | others hv =>
    simp only [Fails, LoxLang.evaluateAll]
    exact .after hv (.first hb)
  | function harity hcalls | classCall harity hcalls =>
    simp only [Fails, LoxLang.call]
    exact .viewThen (.after (requireArity_answer.mpr ⟨harity, rfl⟩) (.deeper hcalls hb))
  | initializer hobject hmethod hbound =>
    simp only [Fails, LoxLang.construct]
    refine .after hobject (.viewThen ?_)
    rw [hmethod]
    exact .after hbound (.first hb)
  | text hmethod harity hbound hcalls =>
    simp only [Fails, LoxLang.render]
    refine .viewThen ?_
    simp only [hmethod, harity, if_true]
    exact .after hbound (.deeper hcalls (.first hb))
  | textOf hmethod harity hbound hcalls hv =>
    simp only [Fails, LoxLang.render]
    refine .viewThen ?_
    simp only [hmethod, harity, if_true]
    exact .after hbound (.deeper hcalls (.after hv hb))
  | expression | printed | declareVar | returned =>
    simp only [Fails, LoxLang.execute]
    exact .first hb
  | print hv =>
    simp only [Fails, LoxLang.execute]
    exact .after hv (.first hb)
  | block =>
    simp only [Fails, LoxLang.execute]
    exact .innerThen (.within hb)
  | branchCondition =>
    simp only [Fails]
    rw [LoxLang.execute.eq_def]
    exact .first hb
  | branchThen hv htruthy =>
    simp only [Fails]
    rw [LoxLang.execute.eq_def]
    refine .after hv ?_
    rw [htruthy]
    exact hb
  | branchElse hv htruthy =>
    simp only [Fails, LoxLang.execute]
    refine .after hv ?_
    rw [htruthy]
    exact hb
  | loopStart =>
    simp only [Fails, LoxLang.execute]
    exact .innerThen (.within (.first hb))
  | started hi =>
    simp only [Fails, LoxLang.execute]
    exact .innerThen (.within (.after hi hb))
  | loop =>
    simp only [Fails, LoxLang.execute]
    exact hb
  | head =>
    simp only [Fails, LoxLang.executeAll]
    exact .first hb
  | tail hs =>
    simp only [Fails, LoxLang.executeAll]
    exact .after hs hb
  | loopCondition =>
    simp only [Fails]
    rw [LoxLang.iterate.eq_def]
    exact .first hb
  | body hv htruthy =>
    simp only [Fails]
    rw [LoxLang.iterate.eq_def]
    refine .after hv ?_
    rw [htruthy]
    exact .first hb
  | increment hv htruthy hbody hending =>
    simp only [Fails, LoxLang.iterate]
    refine .after hv ?_
    rw [htruthy]
    refine .after hbody ?_
    rcases hending with rfl | rfl <;> exact .first hb
  | again hv htruthy hbody hending =>
    simp only [Fails, LoxLang.iterate]
    refine .after hv ?_
    rw [htruthy]
    refine .after hbody ?_
    rcases hending with rfl | rfl <;> exact hb
  | incremented hv htruthy hbody hending hn =>
    simp only [Fails, LoxLang.iterate]
    refine .after hv ?_
    rw [htruthy]
    refine .after hbody ?_
    rcases hending with rfl | rfl <;> exact .after hn hb

theorem Invokes.fails {id : FunctionId} {d : Declaration} {frame : FrameId}
    (h : a.Invokes id d frame b) (hb : b.Fails f m') : a.Fails f m' := by
  cases h with
  | body hf hcode hframe =>
    simp only [Fails, LoxLang.invoke]
    refine .viewThen ?_
    simp only [hf, hcode]
    exact .after hframe (.first (.within hb))

theorem Goes.fails (h : a.Goes b) (hb : b.Fails f m') : a.Fails f m' := by
  rcases h with ⟨change, h⟩ | ⟨id, d, frame, h⟩
  · exact h.fails hb
  · exact h.fails hb

end Activity

end LoxLang
