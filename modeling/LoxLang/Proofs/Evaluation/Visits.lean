import LoxLang.Proofs.Evaluation.Activity
import LoxLang.Proofs.Syntax.Proper

set_option autoImplicit false

namespace LoxLang

def Task.declared : Task → List (Declaration × Bool)
  | .execute s => s.declared
  | .executeAll body => Stmt.allDeclared body
  | .iterate _ n b => Stmt.optionDeclared n ++ b.declared
  | _ => []

def Task.Proper : Task → Prop
  | .execute s => s.Proper
  | .executeAll body => Stmt.AllProper body
  | .iterate _ n b => n.all Stmt.isExpression = true ∧ b.Proper
  | _ => True

/-- All functions satisfy a condition, those in the store and those that the task can make. -/
structure Activity.Satisfies (D : Declaration → Bool → Prop) (a : Activity) : Prop where
  stored : a.machine.store.Stored D
  declared : AllSatisfy D a.task.declared

namespace Activity

variable {D : Declaration → Bool → Prop} {a b : Activity}

theorem Satisfies.mk_plain {fuel : Nat} {task : Task} {m : Machine} (h : m.store.Stored D)
    (htask : task.declared = []) : Satisfies D ⟨fuel, task, m⟩ :=
  ⟨h, fun d i hd => by simp [htask] at hd⟩

theorem Enters.proper {a b : Activity} {change : Context → Context} (h : a.Enters change b)
    (ha : a.task.Proper) : b.task.Proper := by
  cases h with
  | block => exact ha
  | @branchThen _ _ _ _ _ e _ hc hv =>
    cases e with
    | none => exact ha.1
    | some e => exact ha.1.1
  | branchElse hc hv => exact ha.2.1
  | loopStart => exact ha.1.1
  | started => exact ⟨ha.2.1, ha.2.2.1⟩
  | loop => exact ⟨ha.1, ha.2.1⟩
  | head => exact ha.1
  | tail hs => exact ha.2
  | body => exact ha.2
  | increment => exact Stmt.proper_of_isExpression ha.1
  | again | incremented => exact ha
  | _ => trivial

theorem Enters.satisfies {change : Context → Context} (hD : Hereditary D) (h : a.Enters change b)
    (ha : a.Satisfies D) : b.Satisfies D := by
  obtain ⟨hstored, hdeclared⟩ := ha
  cases h with
  | grouping | unary | binaryLeft | logicalLeft | condition | assigned | callee | gotten | changed
  | first | expression | printed | declareVar | branchCondition | returned | loopCondition
  | function | classCall => exact .mk_plain hstored rfl
  | binaryRight h | logicalRight h | conditionalThen h | conditionalElse h | arguments h
  | newValue h | others h | print h =>
    have hkept := ((preserves hD _).evaluate _ _ hstored).answer h
    exact .mk_plain hkept.stored rfl
  | call hf hes =>
    have hcallee := ((preserves hD _).evaluate _ _ hstored).answer hf
    have harguments := ((preserves hD _).evaluateAll _ _ hcallee.stored).answer hes
    exact .mk_plain harguments.stored rfl
  | @initializer _ _ _ m₁ _ _ _ _ _ _ hobject hmethod hbound =>
    have hadded : m₁.store.Stored D := by
      cases hobject
      exact hstored.of_functions rfl
    have hbound := (Eval.keeps_bindMethod _ _ hadded).answer hbound
    exact .mk_plain hbound.stored rfl
  | text hmethod harity hbound hcalls =>
    have hbound := (Eval.keeps_bindMethod _ _ hstored).answer hbound
    exact .mk_plain hbound.stored rfl
  | @textOf _ _ _ m₁ _ _ _ _ _ hmethod harity hbound hcalls hv =>
    have hready : m₁.deeper.store.Stored D :=
      ((Eval.keeps_bindMethod _ _ hstored).answer hbound).stored
    have hv := ((preserves hD _).invoke _ _ _ _ hready).answer hv
    exact .mk_plain hv.stored rfl
  | block => exact ⟨hstored.of_functions rfl, hdeclared⟩
  | @branchThen _ _ _ _ _ e _ h =>
    have hkept := ((preserves hD _).evaluate _ _ hstored).answer h
    refine ⟨hkept.stored, ?_⟩
    cases e with
    | none => exact hdeclared
    | some e => exact hdeclared.left
  | branchElse h =>
    have hkept := ((preserves hD _).evaluate _ _ hstored).answer h
    exact ⟨hkept.stored, hdeclared.right⟩
  | loopStart => exact ⟨hstored.of_functions rfl, hdeclared.left⟩
  | @started _ m _ _ _ _ _ _ h =>
    have hinner : m.inner.store.Stored D := hstored.of_functions rfl
    have hkept := ((preserves hD _).execute _ _ hdeclared.left hinner).answer h
    exact ⟨hkept.stored, hdeclared.right⟩
  | loop => exact ⟨hstored, hdeclared⟩
  | head => exact ⟨hstored, hdeclared.left⟩
  | tail h =>
    have hkept := ((preserves hD _).execute _ _ hdeclared.left hstored).answer h
    exact ⟨hkept.stored, hdeclared.right⟩
  | body h =>
    have hkept := ((preserves hD _).evaluate _ _ hstored).answer h
    exact ⟨hkept.stored, hdeclared.right⟩
  | increment hc hv hb hending =>
    have hkept := ((preserves hD _).evaluate _ _ hstored).answer hc
    have hbody := ((preserves hD _).execute _ _ hdeclared.right hkept.stored).answer hb
    exact ⟨hbody.stored, hdeclared.left⟩
  | again hc hv hb hending =>
    have hkept := ((preserves hD _).evaluate _ _ hstored).answer hc
    have hbody := ((preserves hD _).execute _ _ hdeclared.right hkept.stored).answer hb
    exact ⟨hbody.stored, hdeclared⟩
  | incremented hc hv hb hending hn =>
    have hkept := ((preserves hD _).evaluate _ _ hstored).answer hc
    have hbody := ((preserves hD _).execute _ _ hdeclared.right hkept.stored).answer hb
    have hincrement := ((preserves hD _).execute _ _ hdeclared.left hbody.stored).answer hn
    exact ⟨hincrement.stored, hdeclared⟩

theorem Invokes.satisfies {id : FunctionId} {d : Declaration} {frame : FrameId} (hD : Hereditary D)
    (h : a.Invokes id d frame b) (ha : a.Satisfies D) : b.Satisfies D := by
  cases h with
  | body hf hc hframe =>
    have hkept := (Eval.keeps_parameterFrame _ _ _ ha.stored).answer hframe
    exact ⟨hkept.stored, hD _ _ (ha.stored _ _ _ hf hc)⟩

theorem Visited.satisfies {root : Activity → Prop} (hD : Hereditary D)
    (hroot : ∀ a, root a → a.Satisfies D) (h : a.Visited root) : a.Satisfies D := by
  induction h with
  | root h => exact hroot _ h
  | part _ h ih => exact h.satisfies hD ih
  | body _ h ih => exact h.satisfies hD ih

end Activity

theorem Performance.Begins.satisfies {D : Declaration → Bool → Prop} {p : Performance} {a : Activity}
    (hD : Hereditary D) (h : p.Begins a) (hstored : p.machine.store.Stored D)
    (hP : AllSatisfy D (Stmt.allDeclared p.program)) : a.Satisfies D := by
  cases h with
  | statements _ h =>
    generalize p.program = P at h hP
    generalize p.machine = m at h hstored
    induction h with
    | statement => exact ⟨hstored, hP.left⟩
    | next hs _ ih =>
      have hkept := ((preserves hD _).execute _ _ hP.left hstored).answer hs
      exact ih hP.right hkept.stored
  | echoed => exact .mk_plain hstored rfl
  | echo _ h =>
    have hkept := ((preserves hD _).evaluate _ _ hstored).answer h
    exact .mk_plain hkept.stored rfl

end LoxLang
