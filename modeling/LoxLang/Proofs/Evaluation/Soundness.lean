import LoxLang.Proofs.Evaluation.ClassBodies

/-!
Every evaluation keeps the store sound.

An activity sits in a context if the environments of the context are those around the current one and
the references of its task are looked up in the scopes of the context. Then all that it enters sits in
the context that it leads to. By induction on the fuel every evaluation takes a step to a sound store,
its answers are fine, and it comes upon no internal failure.
-/

set_option autoImplicit false

namespace LoxLang

def Task.lookups : Task → List Scope → List Lookup
  | .evaluate e, scopes => e.lookups scopes
  | .evaluateAll es, scopes => lookupsIn scopes (Expr.listReferences es)
  | .execute s, scopes => s.lookups scopes
  | .executeAll body, scopes => Stmt.listLookups body scopes
  | .iterate c n b, scopes => c.lookups scopes ++ Stmt.optionLookups n scopes ++ b.lookups scopes
  | .call _ _ _, _ | .invoke _ _ _, _ | .construct _ _ _, _ | .render _ _, _ => []

def Setting.Suits (E : Setting) (s : Store) : Task → Prop
  | .call _ callee arguments => E.Fine s callee ∧ ∀ v ∈ arguments, E.Fine s v
  | .invoke _ id arguments => (∃ f, E.Callable s id f) ∧ s.functionArity id = arguments.length ∧
    ∀ v ∈ arguments, E.Fine s v
  | .construct _ id arguments => (s.class? id).isSome = true ∧
    s.classArity id = arguments.length ∧ ∀ v ∈ arguments, E.Fine s v
  | .render _ value => E.Fine s value
  | .evaluate _ | .evaluateAll _ | .execute _ | .executeAll _ | .iterate _ _ _ => True

namespace Activity

/-- The activity may run in the context. -/
structure Sits (E : Setting) (a : Activity) (K : Context) : Prop where
  stands : a.Stands E.root K
  fits : K.Matches E.root a.machine.store a.machine.cursor
  sound : E.Sound a.machine.store
  answers : E.Answers a.machine.hops
  known : E.Knows (a.task.lookups K.scopes)
  proper : a.task.Proper
  suits : E.Suits a.machine.store a.task

variable {E : Setting} {a b : Activity} {K : Context}

theorem Enters.known {change : Context → Context} (h : a.Enters change b)
    (ha : E.Knows (a.task.lookups K.scopes)) : E.Knows (b.task.lookups (change K).scopes) := by
  cases h with
  | grouping | unary => exact ha
  | binaryLeft | binaryRight | logicalLeft | logicalRight | callee | arguments | changed | newValue
  | assigned | first | others =>
    refine fun l hl => ha l ?_
    simp_all [Task.lookups, Expr.lookups, lookupsIn, Expr.references, Expr.listReferences]
  | @condition _ _ c e t | @conditionalElse _ _ _ c e t =>
    refine fun l hl => ha l ?_
    cases t <;> simp_all [Task.lookups, Expr.lookups, lookupsIn, Expr.references]
  | conditionalThen =>
    refine fun l hl => ha l ?_
    simp_all [Task.lookups, Expr.lookups, lookupsIn, Expr.references]
  | gotten | expression | printed | declareVar | returned => exact ha
  | block => exact ha
  | loop => simpa only [Task.lookups, Stmt.lookups, id_eq] using ha
  | @branchCondition _ _ c t e | @branchThen _ _ _ c t e =>
    refine fun l hl => ha l ?_
    cases e <;> simp_all [Task.lookups, Stmt.lookups]
  | branchElse | loopStart | loopCondition | body | head | tail =>
    refine fun l hl => ha l ?_
    simp_all [Task.lookups, Stmt.lookups, Stmt.listLookups, Context.within, Context.past]
  | started =>
    refine fun l hl => ha l ?_
    simp only [Task.lookups, Stmt.lookups, Context.past, Context.within, List.mem_append] at hl ⊢
    tauto
  | increment =>
    refine fun l hl => ha l ?_
    simp_all [Task.lookups, Stmt.optionLookups]
  | again | incremented => exact ha
  | call | function | classCall | initializer | text | textOf | print =>
    intro l hl
    cases hl

theorem Sits.part (ha : a.Sits E K) (h : a.Enters id b) (hm : E.Step a.machine b.machine)
    (hsuits : E.Suits b.machine.store b.task) : b.Sits E K where
  stands := ha.stands.part h
  fits := hm.cursor ▸ ha.fits.extend hm.later
  sound := hm.sound
  answers := hm.hops ▸ ha.answers
  known := h.known ha.known
  proper := h.proper ha.proper
  suits := hsuits

theorem Sits.within {change : Context → Context} (ha : a.Sits E K) (h : a.Enters change b)
    (hfits : (change K).Matches E.root b.machine.store b.machine.cursor)
    (hhops : b.machine.hops = a.machine.hops) (hsound : E.Sound b.machine.store)
    (hsuits : E.Suits b.machine.store b.task) : b.Sits E (change K) where
  stands := ha.stands.part h
  fits := hfits
  sound := hsound
  answers := hhops ▸ ha.answers
  known := h.known ha.known
  proper := h.proper ha.proper
  suits := hsuits

end Activity

section

variable {E : Setting} {fuel : Nat} {m : Machine} {K : Context}

def Setting.Returns (E : Setting) (ending : Ending) (s : Store) : Prop :=
  ∀ v, ending = .returned v → E.Fine s v

/-- What is returned is fine, and the name that is declared has been marked and bound. -/
def Setting.Leaves (E : Setting) (K : Context) (cursor : FrameId) (ending : Ending) (s : Store) :
    Prop :=
  K.Matches E.root s cursor ∧ E.Returns ending s

/-- All evaluation with the given fuel takes a step to a sound store, and its answers are fine. -/
structure Evaluates (E : Setting) (fuel : Nat) : Prop where
  evaluate : ∀ {e m K}, Activity.Sits E ⟨fuel, .evaluate e, m⟩ K →
    (evaluate fuel e).Steps E m fun v s => E.Fine s v
  evaluateAll : ∀ {es m K}, Activity.Sits E ⟨fuel, .evaluateAll es, m⟩ K →
    (evaluateAll fuel es).Steps E m fun vs s => ∀ v ∈ vs, E.Fine s v
  call : ∀ {line callee vs m K}, Activity.Sits E ⟨fuel, .call line callee vs, m⟩ K →
    (call fuel line callee vs).Steps E m fun v s => E.Fine s v
  invoke : ∀ {line id vs m K}, Activity.Sits E ⟨fuel, .invoke line id vs, m⟩ K →
    (invoke fuel line id vs).Steps E m fun v s => E.Fine s v
  construct : ∀ {line C vs m K}, Activity.Sits E ⟨fuel, .construct line C vs, m⟩ K →
    (construct fuel line C vs).Steps E m fun v s => E.Fine s v
  render : ∀ {line v m K}, Activity.Sits E ⟨fuel, .render line v, m⟩ K →
    (render fuel line v).Steps E m fun _ _ => True
  execute : ∀ {s m K}, Activity.Sits E ⟨fuel, .execute s, m⟩ K →
    (execute fuel s).Steps E m (E.Leaves (K.past s) m.cursor)
  executeAll : ∀ {body m K}, Activity.Sits E ⟨fuel, .executeAll body, m⟩ K →
    (executeAll fuel body).Steps E m E.Returns
  iterate : ∀ {c n b m K}, Activity.Sits E ⟨fuel, .iterate c n b, m⟩ K →
    (iterate fuel c n b).Steps E m E.Returns

namespace Activity

variable {a b : Activity}

theorem Sits.enter (ha : a.Sits E K) (h : a.Enters id b) (hm : E.Step a.machine b.machine)
    (hsuits : E.Suits b.machine.store b.task) :
    b.Sits E K ∧ a.machine.store.Extends b.machine.store := ⟨ha.part h hm hsuits, hm.later⟩

theorem Sits.inner {task : Task} (ha : a.Sits E K)
    (h : a.Enters (Context.within ∅ a.machine.inner.cursor) ⟨fuel, task, a.machine.inner⟩)
    (hsuits : E.Suits a.machine.inner.store task) :
    Sits E ⟨fuel, task, a.machine.inner⟩ (K.within ∅ a.machine.inner.cursor) :=
  ha.within h ha.fits.inner rfl (ha.sound.addFrame _) hsuits

theorem Sits.steps_initializer {line : Nat} {C : ClassId} {vs : List Value} {m₁ : Machine}
    {object : ObjectId} {method : FunctionId}
    (ha : Sits E ⟨fuel + 1, .construct line C vs, m⟩ K)
    (hobject : Eval.update (fun s => s.addObject ⟨C, ∅, #[]⟩) m = .answer object m₁)
    (hmethod : m₁.store.method? C initializerName = some method) :
    E.Step m m₁ ∧ (Eval.bindMethod method object).Steps E m₁ fun bound s =>
      (∃ f, E.Callable s bound f) ∧ s.functionArity bound = vs.length := by
  obtain ⟨hclass, harity, -⟩ := ha.suits
  cases hobject
  have hadded : E.Step m { m with store := (m.store.addObject ⟨C, ∅, #[]⟩).2 } :=
    ⟨rfl, rfl, m.store.extends_addObject _, ha.sound.addObject hclass⟩
  have ho : (m.store.addObject ⟨C, ∅, #[]⟩).2.object? ⟨m.store.objects.size⟩ =
      some ⟨C, ∅, #[]⟩ := (Store.object?_addObject _ _ _).trans (if_pos rfl)
  refine ⟨hadded, (Eval.steps_bindMethod hadded.sound ho (.self C) hmethod).imp ?_⟩
  rintro bound m₂ - ⟨hsame, f, D, hcallable, -⟩
  refine ⟨⟨f, hcallable⟩, hsame.trans ?_⟩
  have hfound : (m.store.addObject ⟨C, ∅, #[]⟩).2.method? C initializerName = some method := hmethod
  rw [← harity, ← Store.classArity_addObject m.store ⟨C, ∅, #[]⟩, Store.classArity, hfound]

theorem Sits.text {line : Nat} {m₁ : Machine} {object : ObjectId} {method bound : FunctionId}
    (ha : Sits E ⟨fuel + 1, .render line (.object object), m⟩ K)
    (hmethod : m.store.methodOf? object toStringName = some method)
    (harity : m.store.functionArity method = 0)
    (hbound : Eval.bindMethod method object m = .answer bound m₁) (hcalls : m₁.calls < callLimit) :
    E.Step m m₁ ∧ Sits E ⟨fuel, .invoke line bound [], m₁.deeper⟩ K := by
  obtain ⟨o, ho, hfound⟩ := Eval.object?_of_methodOf? hmethod
  obtain ⟨hm, hsame, f, D, hcallable, -⟩ :=
    (Eval.steps_bindMethod ha.sound ho (.self _) hfound).answer hbound
  refine ⟨hm, ha.part (.text hmethod harity hbound hcalls)
    ⟨hm.cursor, hm.hops, hm.later, hm.sound⟩ ⟨⟨f, hcallable⟩, hsame.trans harity, by simp⟩⟩

/-- What an activity enters sits in the context that it leads to, and finds a later store. -/
theorem Enters.leads {change : Context → Context} (ih : Evaluates E b.fuel) (h : a.Enters change b)
    (ha : a.Sits E K) : b.Sits E (change K) ∧ a.machine.store.Extends b.machine.store := by
  have hstay : E.Step a.machine a.machine := .refl ha.sound
  -- A first part starts on the machine at hand, a later one where an answer has led to, and this is known
  -- to be sound.
  cases h with
  | grouping => exact ha.enter .grouping hstay trivial
  | unary => exact ha.enter .unary hstay trivial
  | binaryLeft => exact ha.enter .binaryLeft hstay trivial
  | binaryRight hv =>
    have hm := (ih.evaluate (ha.part .binaryLeft hstay trivial)).answer hv
    exact ha.enter (.binaryRight hv) hm.1 trivial
  | logicalLeft => exact ha.enter .logicalLeft hstay trivial
  | logicalRight hv hdecided =>
    have hm := (ih.evaluate (ha.part .logicalLeft hstay trivial)).answer hv
    exact ha.enter (.logicalRight hv hdecided) hm.1 trivial
  | condition => exact ha.enter .condition hstay trivial
  | conditionalThen hv htruthy =>
    have hm := (ih.evaluate (ha.part .condition hstay trivial)).answer hv
    exact ha.enter (.conditionalThen hv htruthy) hm.1 trivial
  | conditionalElse hv htruthy =>
    have hm := (ih.evaluate (ha.part .condition hstay trivial)).answer hv
    exact ha.enter (.conditionalElse hv htruthy) hm.1 trivial
  | assigned => exact ha.enter .assigned hstay trivial
  | callee => exact ha.enter .callee hstay trivial
  | arguments hv =>
    have hm := (ih.evaluate (ha.part .callee hstay trivial)).answer hv
    exact ha.enter (.arguments hv) hm.1 trivial
  | call hv hvs =>
    have hm := (ih.evaluate (ha.part .callee hstay trivial)).answer hv
    have hm' := (ih.evaluateAll (ha.part (.arguments hv) hm.1 trivial)).answer hvs
    exact ha.enter (.call hv hvs) (hm.1.trans hm'.1) ⟨hm.2.extend hm'.1.later, hm'.2⟩
  | gotten => exact ha.enter .gotten hstay trivial
  | changed => exact ha.enter .changed hstay trivial
  | newValue hv =>
    have hm := (ih.evaluate (ha.part .changed hstay trivial)).answer hv
    exact ha.enter (.newValue hv) hm.1 trivial
  | first => exact ha.enter .first hstay trivial
  | others hv =>
    have hm := (ih.evaluate (ha.part .first hstay trivial)).answer hv
    exact ha.enter (.others hv) hm.1 trivial
  | function harity hcalls =>
    exact ha.enter (.function harity hcalls) ⟨rfl, rfl, .refl _, ha.sound⟩ ⟨ha.suits.1, harity, ha.suits.2⟩
  | classCall harity hcalls =>
    exact ha.enter (.classCall harity hcalls) ⟨rfl, rfl, .refl _, ha.sound⟩
      ⟨ha.suits.1, harity, ha.suits.2⟩
  | initializer hobject hmethod hbound =>
    obtain ⟨hm, hbind⟩ := ha.steps_initializer hobject hmethod
    obtain ⟨hm', hcallable, harity⟩ := hbind.answer hbound
    have hlater := hm.trans hm'
    exact ha.enter (.initializer hobject hmethod hbound) hlater
      ⟨hcallable, harity, fun v hv => (ha.suits.2.2 v hv).extend hlater.later⟩
  | text hmethod harity hbound hcalls =>
    obtain ⟨hm, hsits⟩ := ha.text hmethod harity hbound hcalls
    exact ⟨hsits, hm.later⟩
  | textOf hmethod harity hbound hcalls hv =>
    obtain ⟨hm, hsits⟩ := ha.text hmethod harity hbound hcalls
    have hm' := (ih.invoke hsits).answer hv
    exact ha.enter (.textOf hmethod harity hbound hcalls hv)
      (hm.trans ⟨hm'.1.cursor, hm'.1.hops, hm'.1.later, hm'.1.sound⟩) hm'.2
  | expression => exact ha.enter .expression hstay trivial
  | printed => exact ha.enter .printed hstay trivial
  | print hv =>
    have hm := (ih.evaluate (ha.part .printed hstay trivial)).answer hv
    exact ha.enter (.print hv) hm.1 hm.2
  | @declareVar _ _ name _ =>
    exact ⟨ha.within .declareVar (ha.fits.mark ha.proper (by simp)) rfl ha.sound trivial, .refl _⟩
  | block => exact ⟨ha.inner .block trivial, Store.extends_addFrame _ _⟩
  | branchCondition => exact ha.enter .branchCondition hstay trivial
  | branchThen hv htruthy =>
    have hm := (ih.evaluate (ha.part .branchCondition hstay trivial)).answer hv
    exact ha.enter (.branchThen hv htruthy) hm.1 trivial
  | branchElse hv htruthy =>
    have hm := (ih.evaluate (ha.part .branchCondition hstay trivial)).answer hv
    exact ha.enter (.branchElse hv htruthy) hm.1 trivial
  | loopStart => exact ⟨ha.inner .loopStart trivial, Store.extends_addFrame _ _⟩
  | started hs =>
    obtain ⟨hm, hfits, -⟩ := (ih.execute (ha.inner .loopStart trivial)).answer hs
    exact ⟨ha.within (.started hs) (hm.cursor ▸ hfits) hm.hops hm.sound trivial,
      (Store.extends_addFrame _ _).trans hm.later⟩
  | loop => exact ha.enter .loop hstay trivial
  | returned => exact ha.enter .returned hstay trivial
  | head => exact ha.enter .head hstay trivial
  | tail hs =>
    obtain ⟨hm, hfits, -⟩ := (ih.execute (ha.part .head hstay trivial)).answer hs
    exact ⟨ha.within (.tail hs) (hm.cursor ▸ hfits) hm.hops hm.sound trivial, hm.later⟩
  | loopCondition => exact ha.enter .loopCondition hstay trivial
  | body hv htruthy =>
    have hm := (ih.evaluate (ha.part .loopCondition hstay trivial)).answer hv
    exact ha.enter (.body hv htruthy) hm.1 trivial
  | increment hv htruthy hs hending =>
    have hm := (ih.evaluate (ha.part .loopCondition hstay trivial)).answer hv
    have hm' := (ih.execute (ha.part (.body hv htruthy) hm.1 trivial)).answer hs
    exact ha.enter (.increment hv htruthy hs hending) (hm.1.trans hm'.1) trivial
  | again hv htruthy hs hending =>
    have hm := (ih.evaluate (ha.part .loopCondition hstay trivial)).answer hv
    have hm' := (ih.execute (ha.part (.body hv htruthy) hm.1 trivial)).answer hs
    exact ha.enter (.again hv htruthy hs hending) (hm.1.trans hm'.1) trivial
  | incremented hv htruthy hs hending hw =>
    have hm := (ih.evaluate (ha.part .loopCondition hstay trivial)).answer hv
    have hm' := (ih.execute (ha.part (.body hv htruthy) hm.1 trivial)).answer hs
    have hm₂ := hm.1.trans hm'.1
    have hm₃ := (ih.execute (ha.part (.increment hv htruthy hs hending) hm₂ trivial)).answer hw
    exact ha.enter (.incremented hv htruthy hs hending hw) (hm₂.trans hm₃.1) trivial

theorem Enters.sits {change : Context → Context} (ih : Evaluates E b.fuel) (h : a.Enters change b)
    (ha : a.Sits E K) : b.Sits E (change K) := (h.leads ih ha).1

theorem Sits.steps_parameterFrame {line : Nat} {id : FunctionId} {vs : List Value} {f : Function}
    {d : Declaration} (ha : Sits E ⟨fuel, .invoke line id vs, m⟩ K)
    (hf : m.store.function? id = some f) (hcode : f.code = .declared d) (hd : d.Proper) :
    (Eval.parameterFrame f.closure d.parameters vs).Steps E m fun frame s =>
      s.enclosing? frame = some f.closure ∧
      ∀ name, (parameterScope d.parameters).get? name = some true →
        (s.local? frame name).isSome = true := by
  obtain ⟨-, harity, hvs⟩ := ha.suits
  have hlength : d.parameters.length = vs.length := by
    have harity : m.store.functionArity id = vs.length := harity
    simpa [Store.functionArity, hf, Function.arity, hcode] using harity
  refine Eval.steps_parameterFrame ha.sound f.closure hlength ?_ hvs
  obtain ⟨name, parameters, body⟩ := d
  exact hd.2.1

/-- The body of a function sits in the context that the function was made in. -/
theorem Invokes.leads {id : FunctionId} {d : Declaration} {frame : FrameId} (h : a.Invokes id d frame b)
    (ha : a.Sits E K) {K' : Context} (hcloses : Closes E.root id a.machine.store K')
    (hready : ∀ f, a.machine.store.function? id = some f → f.code = .declared d →
      E.Ready a.machine.store d f.closure K') :
    b.Sits E (K'.within (parameterScope d.parameters) frame) ∧
      a.machine.store.Extends b.machine.store := by
  have hinvokes := h
  cases h with
  | @body fuel line m m₁ _ vs f _ _ hf hcode hframe =>
    have hready : E.Ready m.store d f.closure K' := hready f hf hcode
    obtain ⟨hm, henclosing, hbound⟩ :=
      (ha.steps_parameterFrame hf hcode hready.proper).answer hframe
    obtain ⟨name, parameters, body⟩ := d
    obtain ⟨-, hparameters, hbody⟩ := hready.proper
    refine ⟨⟨.body ha.stands hinvokes hcloses, ?_, hm.sound, hm.hops ▸ ha.answers, hready.known,
      hbody, trivial⟩, hm.later⟩
    refine (hready.fits.extend hm.later).push henclosing hbound fun hthis => ?_
    obtain ⟨-, p, hp, hname⟩ := get?_parameterScope hthis
    exact absurd hname (hparameters p hp).not_this

end Activity

namespace Evaluates

open Eval Activity

theorem evaluate_succ (ih : Evaluates E fuel) {e : Expr} (h : Sits E ⟨fuel + 1, .evaluate e, m⟩ K) :
    (LoxLang.evaluate (fuel + 1) e).Steps E m fun v s => E.Fine s v := by
  cases e with
  | literal value =>
    rw [LoxLang.evaluate]
    exact .ret h.sound (.of_isData value.isData_value)
  | grouping inner =>
    rw [LoxLang.evaluate]
    exact ih.evaluate (Enters.grouping.sits ih h)
  | unary operator right =>
    rw [LoxLang.evaluate]
    refine .bind (ih.evaluate (Enters.unary.sits ih h)) fun v m₁ hv hm hfine => ?_
    exact .ofExcept hm.sound (fun _ hw => .of_isData (isData_applyUnary hw)) (external_applyUnary _ _)
  | binary left operator right =>
    rw [LoxLang.evaluate]
    refine .bind (ih.evaluate (Enters.binaryLeft.sits ih h)) fun v m₁ hv _ _ => ?_
    refine .bind (ih.evaluate ((Enters.binaryRight hv).sits ih h)) fun w m₂ _ hm _ => ?_
    exact .ofExcept hm.sound (fun _ hw => .of_isData (isData_applyBinary hw)) (external_applyBinary _ _ _)
  | logical left operator right =>
    rw [LoxLang.evaluate]
    refine .bind (ih.evaluate (Enters.logicalLeft.sits ih h)) fun v m₁ hv hm hfine => ?_
    split
    · exact .ret hm.sound hfine
    · rename_i hdecided
      exact ih.evaluate ((Enters.logicalRight hv (by simpa using hdecided)).sits ih h)
  | conditional condition thenBranch elseBranch =>
    rw [LoxLang.evaluate]
    refine .bind (ih.evaluate (Enters.condition.sits ih h)) fun v m₁ hv hm hfine => ?_
    split
    · rename_i htruthy
      cases thenBranch with
      | some thenBranch => exact ih.evaluate ((Enters.conditionalThen hv htruthy).sits ih h)
      | none => exact .ret hm.sound hfine
    · rename_i htruthy
      exact ih.evaluate ((Enters.conditionalElse hv (by simpa using htruthy)).sits ih h)
  | «variable» target =>
    rw [LoxLang.evaluate]
    exact steps_lookUp h.sound h.answers h.fits (by simp) (h.known _ (List.mem_singleton.mpr rfl))
  | assign target value =>
    rw [LoxLang.evaluate]
    refine .bind (ih.evaluate (Enters.assigned.sits ih h)) fun v m₁ hv hm hfine => ?_
    have hfits : K.Matches E.root m₁.store m₁.cursor := hm.cursor ▸ h.fits.extend hm.later
    have hassign := steps_assign hm.sound (hm.hops ▸ h.answers) hfits
      (h.known _ List.mem_cons_self) hfine
    exact .bind hassign fun _ m₂ _ hm' _ => .ret hm'.sound (hfine.extend hm'.later)
  | call callee paren arguments =>
    rw [LoxLang.evaluate]
    refine .bind (ih.evaluate (Enters.callee.sits ih h)) fun v m₁ hv _ _ => ?_
    refine .bind (ih.evaluateAll ((Enters.arguments hv).sits ih h)) fun vs m₂ hvs _ _ => ?_
    exact ih.call ((Enters.call hv hvs).sits ih h)
  | get object name =>
    rw [LoxLang.evaluate]
    exact .bind (ih.evaluate (Enters.gotten.sits ih h)) fun v m₁ _ hm _ => steps_property hm.sound
  | set object name value =>
    rw [LoxLang.evaluate]
    refine .bind (ih.evaluate (Enters.changed.sits ih h)) fun v m₁ hv hm _ => ?_
    split
    · refine .bind (ih.evaluate ((Enters.newValue hv).sits ih h)) fun w m₂ _ hm' hfine => ?_
      refine .bind (A := fun _ _ => True) (.update (m₂.store.extends_modifyObject _ fun _ => rfl)
        (hm'.sound.setField _ _ hfine) trivial) fun _ m₃ hset hm₃ _ => ?_
      exact .ret hm₃.sound (hfine.extend hm₃.later)
    · exact .fail hm.sound rfl
  | this keyword =>
    rw [LoxLang.evaluate]
    exact steps_lookUp h.sound h.answers h.fits (by simp) (h.known _ (List.mem_singleton.mpr rfl))
  | super keyword method =>
    rw [LoxLang.evaluate]
    exact steps_superMethod h.sound h.answers h.fits (h.known _ (List.mem_singleton.mpr rfl))

theorem evaluateAll_succ (ih : Evaluates E fuel) {es : List Expr}
    (h : Sits E ⟨fuel + 1, .evaluateAll es, m⟩ K) :
    (LoxLang.evaluateAll (fuel + 1) es).Steps E m fun vs s => ∀ v ∈ vs, E.Fine s v := by
  cases es with
  | nil =>
    rw [LoxLang.evaluateAll]
    exact .ret h.sound (by simp)
  | cons e rest =>
    rw [LoxLang.evaluateAll]
    refine .bind (ih.evaluate (Enters.first.sits ih h)) fun v m₁ hv _ hfine => ?_
    refine .bind (ih.evaluateAll ((Enters.others hv).sits ih h)) fun vs m₂ _ hm hvs => ?_
    refine .ret hm.sound fun w hw => ?_
    rcases List.mem_cons.mp hw with rfl | hw
    · exact hfine.extend hm.later
    · exact hvs w hw

theorem steps_requireArity (hs : E.Sound m.store) (line arity given : Nat) :
    (requireArity line arity given).Steps E m fun _ _ => arity = given := by
  unfold requireArity
  split
  · rename_i harity
    exact .ret hs harity
  · exact .fail hs rfl

theorem call_succ (ih : Evaluates E fuel) {line : Nat} {callee : Value} {vs : List Value}
    (h : Sits E ⟨fuel + 1, .call line callee vs, m⟩ K) :
    (LoxLang.call (fuel + 1) line callee vs).Steps E m fun v s => E.Fine s v := by
  have arity := fun n => steps_requireArity h.sound line n vs.length
  cases callee with
  | native function =>
    rw [LoxLang.call]
    refine .bind (arity _) fun _ m₁ hm₁ hm _ => .deeper hm.sound fun _ => ?_
    exact steps_runNative (m := m₁.deeper) hm.sound line function vs
  | function id =>
    rw [LoxLang.call]
    refine .viewThen (.bind (arity _) fun _ m₁ hm₁ hm harity => .deeper hm.sound fun hcalls => ?_)
    obtain rfl := (quiet_requireArity line _ _).answer hm₁
    exact ih.invoke ((Enters.function harity hcalls).sits ih h)
  | classValue C =>
    rw [LoxLang.call]
    refine .viewThen (.bind (arity _) fun _ m₁ hm₁ hm harity => .deeper hm.sound fun hcalls => ?_)
    obtain rfl := (quiet_requireArity line _ _).answer hm₁
    exact ih.construct ((Enters.classCall harity hcalls).sits ih h)
  | _ =>
    rw [LoxLang.call]
    · exact .fail h.sound rfl
    all_goals simp

theorem invoke_succ (ih : Evaluates E fuel) {line : Nat} {id : FunctionId} {vs : List Value}
    (h : Sits E ⟨fuel + 1, .invoke line id vs, m⟩ K) :
    (LoxLang.invoke (fuel + 1) line id vs).Steps E m fun v s => E.Fine s v := by
  obtain ⟨⟨f, hf⟩, -, hvs⟩ := h.suits
  rw [LoxLang.invoke]
  refine .viewThen ?_
  rw [hf.found]
  dsimp only
  split
  · rename_i method hcode
    exact steps_runArrayMethod h.sound hf hcode hvs line
  · rename_i d hcode
    obtain ⟨K', hcloses, hready⟩ := hf.ready d hcode
    refine .bind (h.steps_parameterFrame hf.found hcode hready.proper) ?_
    intro frame m₁ hframe hm _
    obtain ⟨hbody, -⟩ := (Invokes.body hf.found hcode hframe).leads h hcloses fun g hg _ => by
      obtain rfl : f = g := Option.some.inj (hf.found.symm.trans hg)
      exact hready
    refine .bind (.within (ih.executeAll hbody)) fun ending m₂ _ hm' hending => ?_
    exact steps_answerOf hm'.sound (hf.extend (hm.later.trans hm'.later)) hending line

theorem construct_succ (ih : Evaluates E fuel) {line : Nat} {C : ClassId} {vs : List Value}
    (h : Sits E ⟨fuel + 1, .construct line C vs, m⟩ K) :
    (LoxLang.construct (fuel + 1) line C vs).Steps E m fun v s => E.Fine s v := by
  rw [LoxLang.construct]
  refine .bind (A := fun object s => (s.object? object).isSome = true)
    (.update (m.store.extends_addObject _) (h.sound.addObject h.suits.1) ?_) ?_
  · rw [Store.addObject, Store.object?]
    simp
  intro object m₁ hobject hm hfine
  refine .viewThen ?_
  split
  · exact .ret hm.sound hfine
  · rename_i method hmethod
    obtain ⟨-, hbind⟩ := h.steps_initializer hobject hmethod
    refine .bind hbind fun bound m₂ hbound hm' _ => ?_
    refine .bind (ih.invoke ((Enters.initializer hobject hmethod hbound).sits ih h)) ?_
    exact fun _ m₃ _ hm'' _ => .ret hm''.sound (Setting.Fine.extend (hm'.later.trans hm''.later) hfine)

theorem render_succ (ih : Evaluates E fuel) {line : Nat} {v : Value}
    (h : Sits E ⟨fuel + 1, .render line v, m⟩ K) :
    (LoxLang.render (fuel + 1) line v).Steps E m fun _ _ => True := by
  cases v with
  | object object =>
    rw [LoxLang.render]
    refine .viewThen ?_
    split
    · exact .ret h.sound trivial
    · rename_i method hmethod
      split
      · rename_i harity
        obtain ⟨o, ho, hfound⟩ := object?_of_methodOf? hmethod
        refine .bind (steps_bindMethod h.sound ho (.self _) hfound) fun bound m₁ hbound hm _ => ?_
        refine .deeper hm.sound fun hcalls => ?_
        have hsits := (Enters.text hmethod harity hbound hcalls).sits ih h
        refine .bind (ih.invoke hsits) fun answer m₂ hv _ _ => ?_
        exact ih.render ((Enters.textOf hmethod harity hbound hcalls hv).sits ih h)
      · exact .ret h.sound trivial
  | _ =>
    rw [LoxLang.render]
    · exact .viewThen (.ret h.sound trivial)
    · simp

theorem declareFunction_succ {d : Declaration}
    (h : Sits E ⟨fuel + 1, .execute (.declareFunction d), m⟩ K) :
    (LoxLang.execute (fuel + 1) (.declareFunction d)).Steps E m
      (E.Leaves (K.past (.declareFunction d)) m.cursor) := by
  let f : Function := ⟨.declared d, m.cursor, false⟩
  let s₁ := (m.store.addFunction f).2
  let id : FunctionId := ⟨m.store.functions.size⟩
  let s' := s₁.bind m.cursor d.name.lexeme (.function id)
  have hdone : LoxLang.execute (fuel + 1) (.declareFunction d) m =
      .answer .normal { m with store := s' } := by
    rw [LoxLang.execute]
    rfl
  have hname : d.name.Ordinary := by
    have hproper : d.Proper := h.proper
    obtain ⟨name, parameters, body⟩ := d
    exact hproper.1
  have hadded : m.store.Extends s₁ := m.store.extends_addFunction f
  have hbound : s₁.Extends s' := s₁.extends_bind _ _ _ fun hreserved =>
    absurd hreserved (not_reserved_of_ordinary hname)
  have hlater := hadded.trans hbound
  have hframe := hadded.grows.frame?_isSome (h.fits.chained.frame? h.sound.globals)
  have hnamed : s'.local? m.cursor d.name.lexeme = some (.function id) :=
    (Store.local?_bind _ _ _ _ _ _).trans (if_pos ⟨rfl, rfl, hframe⟩)
  have hfits : (K.past (.declareFunction d)).Matches E.root s' m.cursor :=
    (h.fits.extend hlater).mark hname fun _ => by simp [hnamed]
  have hcallable : E.Callable s' id f := by
    refine ⟨hbound.grows.functions _ _ ((Store.function?_addFunction _ _ _).trans (if_pos rfl)),
      .inl ⟨fuel, d, m, h.stands.visited, rfl, hbound⟩, fun e he => ?_⟩
    obtain rfl : d = e := by simpa [f] using he
    exact ⟨_, .function h.stands hdone (.refl s'), hfits, h.proper, h.known⟩
  have hsound : E.Sound s' := (h.sound.addFunction f).bind_later hbound ⟨f, hcallable⟩
  unfold Steps Ensures
  rw [hdone]
  exact ⟨⟨rfl, rfl, hlater, hsound⟩, hfits, by simp [Setting.Returns]⟩

theorem declareClass_succ {name : Token} {base : Option Reference} {ds : List Declaration}
    (h : Sits E ⟨fuel + 1, .execute (.declareClass name base ds), m⟩ K) :
    (LoxLang.execute (fuel + 1) (.declareClass name base ds)).Steps E m
      (E.Leaves (K.past (.declareClass name base ds)) m.cursor) := by
  have hknown : E.Knows ((Stmt.declareClass name base ds).lookups K.scopes) := h.known
  have hbase : ∀ r, base = some r → E.known ⟨.superclass, r, K.scopes⟩ := by
    rintro r rfl
    exact hknown _ (by simp [Stmt.lookups])
  have hmethods : E.Knows (Declaration.listLookups ds (classScopes name base K.scopes)) :=
    fun l hl => hknown l (by simp [Stmt.lookups, hl])
  have hclass := ensures_declareClass h.sound h.answers h.fits h.proper.1 h.proper.2 hbase hmethods
  rw [LoxLang.execute]
  refine Ensures.bind hclass fun _ m₁ hm₁ hdeclared => ?_
  obtain ⟨hcursor, hhops, hlater, hnamed, hsound⟩ := hdeclared
  have hdone : LoxLang.execute (fuel + 1) (.declareClass name base ds) m = .answer .normal m₁ := by
    rw [LoxLang.execute, bind_of_answer hm₁]
    rfl
  refine ⟨⟨hcursor, hhops, hlater, hsound (.declaration h.stands hdone (.refl _))⟩, ?_, ?_⟩
  · exact (h.fits.extend hlater).mark h.proper.1 fun _ => hnamed
  · simp [Setting.Returns]

theorem leaves_of_returns {act : Eval Ending} {K' : Context} (hK : K'.Matches E.root m.store m.cursor)
    (h : act.Steps E m E.Returns) : act.Steps E m (E.Leaves K' m.cursor) :=
  h.imp fun _ _ hm hreturns => ⟨hK.extend hm.later, hreturns⟩

theorem steps_inner {α : Type} {next : FrameId → Eval α} {A : α → Store → Prop}
    (hs : E.Sound m.store)
    (h : (next ⟨m.store.frames.size⟩).Steps E
      { m with store := (m.store.addFrame (some m.cursor)).2 } A) :
    (innerFrame >>= next).Steps E m A := by
  have hadded : E.Step m { m with store := (m.store.addFrame (some m.cursor)).2 } :=
    ⟨rfl, rfl, m.store.extends_addFrame _, hs.addFrame _⟩
  exact Ensures.innerThen (Ensures.imp h (fun _ _ h' => ⟨hadded.trans h'.1, h'.2⟩)
    fun _ _ h' => ⟨hadded.trans h'.1, h'.2⟩)

theorem steps_declareVar {value : Value} {name : Token} {e : Option Expr} (hs : E.Sound m.store)
    (hK : K.Matches E.root m.store m.cursor) (hname : name.Ordinary) (hvalue : E.Fine m.store value) :
    (define name.lexeme value >>= fun _ => pure .normal : Eval Ending).Steps E m
      (E.Leaves (K.past (.declareVar name e)) m.cursor) := by
  have hcursor := hK.chained.frame? hs.globals
  refine .bind (steps_define hs hcursor hname hvalue) fun _ m₁ _ hm hnamed => ?_
  refine .ret hm.sound ⟨(hK.extend hm.later).mark hname fun _ => hnamed, by simp [Setting.Returns]⟩

theorem execute_succ (ih : Evaluates E fuel) {s : Stmt} (h : Sits E ⟨fuel + 1, .execute s, m⟩ K) :
    (LoxLang.execute (fuel + 1) s).Steps E m (E.Leaves (K.past s) m.cursor) := by
  have hnormal : ∀ s, E.Returns .normal s := by simp [Setting.Returns]
  cases s with
  | expression value =>
    rw [LoxLang.execute]
    refine leaves_of_returns h.fits (.bind (ih.evaluate (Enters.expression.sits ih h)) ?_)
    exact fun _ m₁ _ hm _ => .ret hm.sound (hnormal _)
  | print value =>
    rw [LoxLang.execute]
    refine leaves_of_returns h.fits (.bind (ih.evaluate (Enters.printed.sits ih h)) ?_)
    refine fun v m₁ hv _ _ => .bind (ih.render ((Enters.print hv).sits ih h)) fun text m₂ _ hm _ => ?_
    have hprinted : (emit text).Steps E m₂ fun _ _ => True := .emit hm.sound trivial
    exact .bind hprinted fun _ m₃ _ hm _ => .ret hm.sound (hnormal _)
  | declareVar name initializer =>
    cases initializer with
    | none =>
      rw [LoxLang.execute]
      have hnil : (pure .nil : Eval Value).Steps E m fun v s => E.Fine s v := .ret h.sound trivial
      refine .bind hnil fun v m₁ hv hm hfine => ?_
      cases hv
      exact steps_declareVar h.sound h.fits h.proper hfine
    | some value =>
      rw [LoxLang.execute]
      refine .bind (ih.evaluate (Enters.declareVar.sits ih h)) fun v m₁ _ hm hfine => ?_
      have hfits : K.Matches E.root m₁.store m₁.cursor := hm.cursor ▸ h.fits.extend hm.later
      have hcursor : m₁.cursor = m.cursor := hm.cursor
      exact hcursor ▸ steps_declareVar hm.sound hfits h.proper hfine
  | block body =>
    rw [LoxLang.execute]
    have hinner := Enters.block.sits ih h
    exact leaves_of_returns h.fits (steps_inner h.sound (.within (ih.executeAll hinner)))
  | branch condition thenBranch elseBranch =>
    refine leaves_of_returns h.fits ?_
    have hcondition := ih.evaluate (Enters.branchCondition.sits ih h)
    have hthen : ∀ {v m₁}, LoxLang.evaluate fuel condition m = .answer v m₁ → v.truthy = true →
        (LoxLang.execute fuel thenBranch).Steps E m₁ E.Returns := fun hv htruthy =>
      (ih.execute ((Enters.branchThen hv htruthy).sits ih h)).imp fun _ _ _ hleaves => hleaves.2
    cases elseBranch with
    | none =>
      rw [LoxLang.execute]
      refine .bind hcondition fun v m₁ hv hm _ => ?_
      split
      · exact hthen hv ‹_›
      · exact .ret hm.sound (hnormal _)
    | some elseBranch =>
      rw [LoxLang.execute]
      refine .bind hcondition fun v m₁ hv hm _ => ?_
      split
      · exact hthen hv ‹_›
      · rename_i htruthy
        have hsits := (Enters.branchElse hv (by simpa using htruthy)).sits ih h
        exact (ih.execute hsits).imp fun _ _ _ hleaves => hleaves.2
  | loop initializer condition increment body =>
    refine leaves_of_returns h.fits ?_
    cases initializer with
    | none =>
      rw [LoxLang.execute]
      exact ih.iterate (Enters.loop.sits ih h)
    | some initializer =>
      rw [LoxLang.execute]
      refine steps_inner h.sound (.within ?_)
      refine .bind (ih.execute (Enters.loopStart.sits ih h)) fun ending m₂ hs _ _ => ?_
      exact ih.iterate ((Enters.started hs).sits ih h)
  | declareFunction d => exact declareFunction_succ h
  | returnWith keyword value =>
    refine leaves_of_returns h.fits ?_
    cases value with
    | none =>
      rw [LoxLang.execute]
      refine .ret h.sound ?_
      rintro _ ⟨⟩
      trivial
    | some value =>
      rw [LoxLang.execute]
      refine .bind (ih.evaluate (Enters.returned.sits ih h)) fun v m₁ _ hm hfine => .ret hm.sound ?_
      rintro _ ⟨⟩
      exact hfine
  | breakLoop keyword | continueLoop keyword =>
    rw [LoxLang.execute]
    exact leaves_of_returns h.fits (.ret h.sound (by simp [Setting.Returns]))
  | declareClass name base ds => exact declareClass_succ h

theorem executeAll_succ (ih : Evaluates E fuel) {body : List Stmt}
    (h : Sits E ⟨fuel + 1, .executeAll body, m⟩ K) :
    (LoxLang.executeAll (fuel + 1) body).Steps E m E.Returns := by
  cases body with
  | nil =>
    rw [LoxLang.executeAll]
    exact .ret h.sound (by simp [Setting.Returns])
  | cons s rest =>
    rw [LoxLang.executeAll]
    refine .bind (ih.execute (Enters.head.sits ih h)) fun ending m₁ hs hm hleaves => ?_
    cases ending with
    | normal => exact ih.executeAll ((Enters.tail hs).sits ih h)
    | _ => exact .ret hm.sound hleaves.2

theorem iterate_succ (ih : Evaluates E fuel) {c : Expr} {n : Option Stmt} {b : Stmt}
    (h : Sits E ⟨fuel + 1, .iterate c n b, m⟩ K) :
    (LoxLang.iterate (fuel + 1) c n b).Steps E m E.Returns := by
  have hnormal : ∀ s, E.Returns .normal s := by simp [Setting.Returns]
  cases n with
  | none =>
    rw [LoxLang.iterate]
    refine .bind (ih.evaluate (Enters.loopCondition.sits ih h)) fun v m₁ hv hm _ => ?_
    split
    · rename_i htruthy
      refine .bind (ih.execute ((Enters.body hv htruthy).sits ih h)) fun ending m₂ hs hm hleaves => ?_
      cases ending with
      | normal => exact ih.iterate ((Enters.again hv htruthy hs (.inl rfl)).sits ih h)
      | continued => exact ih.iterate ((Enters.again hv htruthy hs (.inr rfl)).sits ih h)
      | broke => exact .ret hm.sound (hnormal _)
      | returned => exact .ret hm.sound hleaves.2
    · exact .ret hm.sound (hnormal _)
  | some n =>
    rw [LoxLang.iterate]
    refine .bind (ih.evaluate (Enters.loopCondition.sits ih h)) fun v m₁ hv hm _ => ?_
    split
    · rename_i htruthy
      refine .bind (ih.execute ((Enters.body hv htruthy).sits ih h)) fun ending m₂ hs hm hleaves => ?_
      have again : ending = .normal ∨ ending = .continued →
          (LoxLang.execute fuel n >>= fun _ => LoxLang.iterate fuel c (some n) b).Steps E m₂
            E.Returns := fun hending => by
        refine .bind (ih.execute ((Enters.increment hv htruthy hs hending).sits ih h)) ?_
        exact fun w m₃ hw _ _ => ih.iterate ((Enters.incremented hv htruthy hs hending hw).sits ih h)
      cases ending with
      | normal => exact again (.inl rfl)
      | continued => exact again (.inr rfl)
      | broke => exact .ret hm.sound (hnormal _)
      | returned => exact .ret hm.sound hleaves.2
    · exact .ret hm.sound (hnormal _)

end Evaluates

end

theorem evaluates (E : Setting) (fuel : Nat) : Evaluates E fuel := by
  induction fuel with
  | zero =>
    constructor <;> intros <;>
      simp only [LoxLang.evaluate, LoxLang.evaluateAll, LoxLang.call, LoxLang.invoke,
        LoxLang.construct, LoxLang.render, LoxLang.execute, LoxLang.executeAll, LoxLang.iterate] <;>
      exact .outOfFuel
  | succ fuel ih =>
    exact
      { evaluate := ih.evaluate_succ
        evaluateAll := ih.evaluateAll_succ
        call := ih.call_succ
        invoke := ih.invoke_succ
        construct := ih.construct_succ
        render := ih.render_succ
        execute := ih.execute_succ
        executeAll := ih.executeAll_succ
        iterate := ih.iterate_succ }

theorem Activity.Invokes.sits {E : Setting} {a b : Activity} {K : Context} {id : FunctionId}
    {d : Declaration} {frame : FrameId} (h : a.Invokes id d frame b) (ha : a.Sits E K) :
    ∃ K', b.Sits E K' ∧ a.machine.store.Extends b.machine.store := by
  have hinvokes := h
  cases h with
  | body hf hcode hframe =>
    obtain ⟨⟨f, hcallable⟩, -⟩ := ha.suits
    cases Option.some.inj (hcallable.found.symm.trans hf)
    obtain ⟨K', hcloses, hready⟩ := hcallable.ready _ hcode
    refine ⟨_, hinvokes.leads ha hcloses fun g hg _ => ?_⟩
    cases Option.some.inj (hf.symm.trans hg)
    exact hready

/-- Whatever is visited from activities at the top sits in some context. -/
theorem Activity.Visited.sits {E : Setting} {root : Activity → Prop} {a : Activity}
    (hroot : ∀ a, root a → a.Sits E .top) (h : a.Visited root) : ∃ K, a.Sits E K := by
  induction h with
  | root h => exact ⟨_, hroot _ h⟩
  | @part _ b _ _ h ih =>
    obtain ⟨K, ha⟩ := ih
    exact ⟨_, h.sits (evaluates E b.fuel) ha⟩
  | body _ h ih =>
    obtain ⟨K, ha⟩ := ih
    obtain ⟨K', hb, -⟩ := h.sits ha
    exact ⟨K', hb⟩

end LoxLang
