import LoxLang.Proofs.Evaluation.Origins
import LoxLang.Proofs.Evaluation.Soundness

set_option autoImplicit false

namespace LoxLang

/-- A `fun` declaration made the function, or it is a method that was bound to an object of a class that
has or inherits it. -/
def Store.Made (root : Activity → Prop) (s : Store) (id : FunctionId) : Prop :=
  s.Plain root id ∨
    ∃ f C name object, s.function? id = some f ∧ s.BindsMethod f C name object

section

variable {E : Setting} {s : Store}

theorem Setting.Fine.made {id : FunctionId} (h : E.Fine s (.function id)) : s.Made E.root id := by
  obtain ⟨f, hf⟩ := h
  exact hf.origin.imp_right fun ⟨C, name, object, hbinds⟩ => ⟨f, C, name, object, hf.found, hbinds⟩

theorem Setting.Sound.rooted (h : E.Sound s) {C : ClassId} {c : Class} (hc : s.class? C = some c) :
    s.Rooted C :=
  Store.rooted_of_older (fun C c B hc hB => (h.classes C c hc).older B hB) hc

variable {f : Function} {C : ClassId} {name : String} {object : ObjectId}

theorem Store.BindsMethod.array (h : s.BindsMethod f C name object) (hs : E.Sound s)
    {method : ArrayMethod} (hcode : f.code = .array method) : C = arrayClass ∧ name = method.name := by
  obtain ⟨c, unbound, g, hc, hmethod, hg, hsame, -, -⟩ := h.method
  obtain ⟨g', hg', hunbound⟩ := (hs.classes C c hc).methods name unbound hmethod
  obtain rfl : g = g' := Option.some.inj (hg.symm.trans hg')
  exact hunbound.array method (hsame.symm.trans hcode)

theorem Store.BindsMethod.initializes (h : s.BindsMethod f C name object) (hs : E.Sound s) :
    f.initializes = decide (name = initializerName) := by
  obtain ⟨c, unbound, g, hc, hmethod, hg, -, hsame, -⟩ := h.method
  obtain ⟨g', hg', hunbound⟩ := (hs.classes C c hc).methods name unbound hmethod
  obtain rfl : g = g' := Option.some.inj (hg.symm.trans hg')
  exact hsame.trans hunbound.initializes

end

namespace Activity

open Eval

variable {E : Setting} {a b : Activity} {K : Context} {fuel line : Nat} {m : Machine}
  {vs : List Value}

/-- A built-in method is run on an object of `array` or of a class that descends from it. -/
theorem Sits.receiver {id : FunctionId} (ha : Sits E ⟨fuel, .invoke line id vs, m⟩ K) {f : Function}
    (hf : m.store.function? id = some f) {method : ArrayMethod} (hcode : f.code = .array method) :
    ∃ object o, m.store.receiver? f.closure = some object ∧ m.store.object? object = some o ∧
      m.store.Descends o.classId arrayClass := by
  obtain ⟨⟨g, hg⟩, -⟩ := ha.suits
  obtain rfl : f = g := Option.some.inj (hf.symm.trans hg.found)
  obtain ⟨C, name, object, hbinds⟩ := hg.bound (.inr ⟨method, hcode⟩)
  obtain ⟨o, ho, hdescends⟩ := hbinds.descends
  obtain ⟨rfl, -⟩ := hbinds.array ha.sound hcode
  exact ⟨object, o, Store.receiver?_of_this hbinds.this, ho, hdescends⟩

/-- An initializer answers the object that `this` is in its closure, whatever its body returns. -/
theorem Sits.answers_this {id : FunctionId} (ha : Sits E ⟨fuel, .invoke line id vs, m⟩ K)
    {f : Function} (hf : m.store.function? id = some f) (hinit : f.initializes = true)
    {object : ObjectId} (hthis : m.store.local? f.closure "this" = some (.object object)) :
    (LoxLang.invoke fuel line id vs).Ensures m (fun v _ => v = .object object) fun _ _ => True := by
  cases fuel with
  | zero =>
    rw [LoxLang.invoke]
    exact Ensures.outOfFuel
  | succ fuel =>
    obtain ⟨⟨g, hg⟩, -⟩ := ha.suits
    obtain rfl : f = g := Option.some.inj (hf.symm.trans hg.found)
    rw [LoxLang.invoke]
    refine Ensures.viewThen ?_
    rw [hf]
    dsimp only
    split
    · unfold runArrayMethod
      refine Ensures.viewThen ?_
      rw [Store.receiver?_of_this hthis]
      refine Ensures.viewThen (Ensures.bind (P := fun _ _ => True) (Ensures.ofExcept (by simp) (by simp)) ?_)
      refine fun _ m₁ _ _ => Ensures.updateThen ?_
      rw [if_pos hinit]
      exact Ensures.ret rfl
    · rename_i d hcode
      obtain ⟨_, _, hready⟩ := hg.ready d hcode
      have hentered := ha.steps_parameterFrame hf hcode hready.proper
      refine Ensures.bind (Ensures.imp hentered (fun _ _ h => h) fun _ _ _ => trivial) ?_
      rintro frame m₁ hframe ⟨hm, -⟩
      obtain ⟨K', hbody, -⟩ := (Invokes.body hf hcode hframe).sits ha
      have hrun := Steps.within ((evaluates E fuel).executeAll hbody)
      refine Ensures.bind (Ensures.imp hrun (fun _ _ h => h) fun _ _ _ => trivial) ?_
      rintro ending m₂ - ⟨hm', -⟩
      -- What `this` is has not changed while the body ran, so it is still the object.
      have hkept := (hm.later.trans hm'.later).this hthis
      have hanswer : answerOf line f ending m₂ = .answer (.object object) m₂ := by
        simp [answerOf, hinit, Store.lookupAt_zero hkept]
        rfl
      unfold Ensures
      rw [hanswer]

theorem Sits.answers_new {C : ClassId} (ha : Sits E ⟨fuel, .construct line C vs, m⟩ K) :
    (LoxLang.construct fuel line C vs).Ensures m
      (fun v m' => v = .object ⟨m.store.objects.size⟩ ∧
        ∃ o, m'.store.object? ⟨m.store.objects.size⟩ = some o ∧ o.classId = C)
      fun _ _ => True := by
  cases fuel with
  | zero =>
    rw [LoxLang.construct]
    exact Ensures.outOfFuel
  | succ fuel =>
    let object : ObjectId := ⟨m.store.objects.size⟩
    let m₁ : Machine := { m with store := (m.store.addObject ⟨C, ∅, #[]⟩).2 }
    have hnew : m₁.store.object? object = some ⟨C, ∅, #[]⟩ :=
      (Store.object?_addObject _ _ _).trans (if_pos rfl)
    -- Objects keep their class, so it is enough that one was made.
    have hlast : ∀ m₂ : Machine, m₁.store.Extends m₂.store →
        ∃ o : Object, m₂.store.object? object = some o ∧ o.classId = C := by
      intro m₂ hlater
      obtain ⟨o, ho, hclass⟩ := hlater.grows.objects _ _ hnew
      exact ⟨o, ho, hclass⟩
    rw [LoxLang.construct]
    refine Ensures.updateThen (Ensures.viewThen ?_)
    split
    · exact Ensures.ret ⟨rfl, hlast m₁ (.refl _)⟩
    · rename_i method hmethod
      have hobject : Eval.update (fun s => s.addObject ⟨C, ∅, #[]⟩) m = .answer object m₁ := rfl
      obtain ⟨-, hbind⟩ := ha.steps_initializer hobject hmethod
      refine Ensures.bind (Ensures.imp hbind (fun _ _ h => h) fun _ _ _ => trivial) ?_
      rintro bound m₂ hbound ⟨hm, -⟩
      have hinvoke := (evaluates E fuel).invoke
        ((Enters.initializer hobject hmethod hbound).sits (evaluates E fuel) ha)
      refine Ensures.bind (Ensures.imp hinvoke (fun _ _ h => h) fun _ _ _ => trivial) ?_
      rintro _ m₃ - ⟨hm', -⟩
      exact Ensures.ret ⟨rfl, hlast m₃ (hm.later.trans hm'.later)⟩

def Gives (a : Activity) (v : Value) (m : Machine) : Prop :=
  match a.task with
  | .evaluate e => LoxLang.evaluate a.fuel e a.machine = .answer v m
  | .call line callee vs => LoxLang.call a.fuel line callee vs a.machine = .answer v m
  | .invoke line id vs => LoxLang.invoke a.fuel line id vs a.machine = .answer v m
  | .construct line C vs => LoxLang.construct a.fuel line C vs a.machine = .answer v m
  | _ => False

theorem Sits.class_answers {C : ClassId} (ha : Sits E ⟨fuel, .call line (.classValue C) vs, m⟩ K) :
    (LoxLang.call fuel line (.classValue C) vs).Ensures m
      (fun v m' => v = .object ⟨m.store.objects.size⟩ ∧
        ∃ o, m'.store.object? ⟨m.store.objects.size⟩ = some o ∧ o.classId = C)
      fun _ _ => True := by
  cases fuel with
  | zero =>
    rw [LoxLang.call]
    exact Ensures.outOfFuel
  | succ fuel =>
    have harity := Evaluates.steps_requireArity ha.sound line (m.store.classArity C) vs.length
    rw [LoxLang.call]
    refine Ensures.viewThen (Ensures.bind (Ensures.imp harity (fun _ _ h => h) fun _ _ _ => trivial) ?_)
    rintro _ m₁ hm₁ ⟨-, harity⟩
    obtain rfl := (quiet_requireArity line _ _).answer hm₁
    refine Ensures.deeper (fun _ => trivial) fun hcalls => ?_
    exact ((Enters.classCall harity hcalls).sits (evaluates E fuel) ha).answers_new

theorem Sits.initializer_answers {id : FunctionId}
    (ha : Sits E ⟨fuel, .call line (.function id) vs, m⟩ K) {f : Function} {C : ClassId}
    {object : ObjectId} (hf : m.store.function? id = some f)
    (hbinds : m.store.BindsMethod f C initializerName object) :
    (LoxLang.call fuel line (.function id) vs).Ensures m (fun v _ => v = .object object)
      fun _ _ => True := by
  cases fuel with
  | zero =>
    rw [LoxLang.call]
    exact Ensures.outOfFuel
  | succ fuel =>
    have harity := Evaluates.steps_requireArity ha.sound line (m.store.functionArity id) vs.length
    have hinit : f.initializes = true := by simpa using hbinds.initializes ha.sound
    rw [LoxLang.call]
    refine Ensures.viewThen (Ensures.bind (Ensures.imp harity (fun _ _ h => h) fun _ _ _ => trivial) ?_)
    rintro _ m₁ hm₁ ⟨-, harity⟩
    obtain rfl := (quiet_requireArity line _ _).answer hm₁
    refine Ensures.deeper (fun _ => trivial) fun hcalls => ?_
    have hsits := (Enters.function harity hcalls).sits (evaluates E fuel) ha
    exact hsits.answers_this hf hinit hbinds.this

/-- The object and the classes that `super` is about at a place. -/
structure SuperHere (root : Activity → Prop) (K : Context) (m : Machine) (C B : ClassId)
    (object : ObjectId) : Prop where
  body : ∃ d super L, distanceIn "super" K.scopes = some d ∧ K.trail[d]? = some super ∧
    Forms root C m.store L ∧ L.trail[0]? = some super
  superclass : ∃ c, m.store.class? C = some c ∧ c.superclass = some B
  this : ∃ d frame, distanceIn "this" K.scopes = some d ∧ K.trail[d]? = some frame ∧
    m.store.ancestor? d m.cursor = some frame ∧ m.store.local? frame "this" = some (.object object)
  descends : ∃ o, m.store.object? object = some o ∧ m.store.Descends o.classId C

/-- `super` finds methods from the superclass of the class on in whose body it stands, and binds them to
the object that `this` is at the same place. -/
theorem Sits.super_eq {keyword : Reference} {method : Token}
    (ha : Sits E ⟨fuel + 1, .evaluate (.super keyword method), m⟩ K) :
    ∃ C B object, SuperHere E.root K m C B object ∧
      LoxLang.evaluate (fuel + 1) (.super keyword method) m = methodFrom B object method m := by
  have hknown : E.known ⟨.super, keyword, K.scopes⟩ := ha.known _ (List.mem_singleton.mpr rfl)
  obtain ⟨d, this, super, hseat, hname, hhops, hthisAt, hup, hsuperAt, hup', hlinks⟩ :=
    seat_of_known ha.answers ha.fits hknown
  obtain ⟨C, L, object, o, hforms, htrail, ⟨c, B, hc, hB, hsuper⟩, hthis, ho, hdescends⟩ := hlinks
  refine ⟨C, B, object, ⟨⟨d + 1, super, L, hseat.super, hsuperAt, hforms, htrail⟩, ⟨c, hc, hB⟩,
    ⟨d, this, hseat.this, hthisAt, hup, hthis⟩, o, ho, hdescends⟩, ?_⟩
  rw [LoxLang.evaluate, superMethod_eq hname hhops hup hup' hsuper hthis]

def EndsIn (a : Activity) (m : Machine) : Prop :=
  a.outcome = .answer () m ∨ ∃ f, a.outcome = .fault f m

theorem Steps.step_of_forget {α : Type} {act : Eval α} {A : α → Store → Prop} {m' : Machine}
    (h : act.Steps E m A)
    (hm : (act m).forget = .answer () m' ∨ ∃ f, (act m).forget = .fault f m') : E.Step m m' := by
  cases hact : act m with
  | answer v m₁ =>
    rw [hact] at hm
    obtain rfl : m₁ = m' := by simpa [Outcome.forget] using hm
    exact (h.answer hact).1
  | fault f m₁ =>
    rw [hact] at hm
    obtain rfl : m₁ = m' := by simpa [Outcome.forget] using hm
    exact (h.fault hact).1
  | exhausted =>
    rw [hact] at hm
    simp [Outcome.forget] at hm

theorem Sits.ends {m' : Machine} (ha : a.Sits E K) (h : a.EndsIn m') : E.Step a.machine m' := by
  obtain ⟨fuel, task, m⟩ := a
  have heval := evaluates E fuel
  cases task with
  | evaluate e => exact Steps.step_of_forget (heval.evaluate ha) h
  | evaluateAll es => exact Steps.step_of_forget (heval.evaluateAll ha) h
  | call line callee vs => exact Steps.step_of_forget (heval.call ha) h
  | invoke line id vs => exact Steps.step_of_forget (heval.invoke ha) h
  | construct line C vs => exact Steps.step_of_forget (heval.construct ha) h
  | render line v => exact Steps.step_of_forget (heval.render ha) h
  | execute s => exact Steps.step_of_forget (heval.execute ha) h
  | executeAll body => exact Steps.step_of_forget (heval.executeAll ha) h
  | iterate c n b => exact Steps.step_of_forget (heval.iterate ha) h

theorem Sits.gives {v : Value} {m' : Machine} (ha : a.Sits E K) (h : a.Gives v m') :
    E.Fine m'.store v := by
  obtain ⟨fuel, task, m⟩ := a
  have heval := evaluates E fuel
  cases task with
  | evaluate e => exact ((heval.evaluate ha).answer h).2
  | call line callee vs => exact ((heval.call ha).answer h).2
  | invoke line id vs => exact ((heval.invoke ha).answer h).2
  | construct line C vs => exact ((heval.construct ha).answer h).2
  | _ => exact h.elim

theorem Sits.goes (ha : a.Sits E K) (h : a.Goes b) : a.machine.store.Extends b.machine.store := by
  rcases h with ⟨change, h⟩ | ⟨id, d, frame, h⟩
  · exact (h.leads (evaluates E b.fuel) ha).2
  · obtain ⟨-, -, hlater⟩ := h.sits ha
    exact hlater

end Activity

def Task.values : Task → List Value
  | .call _ callee vs => callee :: vs
  | .invoke _ id vs => .function id :: vs
  | .construct _ C vs => .classValue C :: vs
  | .render _ v => [v]
  | _ => []

theorem Activity.Sits.values {E : Setting} {a : Activity} {K : Context} (ha : a.Sits E K) {v : Value}
    (hv : v ∈ a.task.values) : E.Fine a.machine.store v := by
  obtain ⟨fuel, task, m⟩ := a
  cases task with
  | call line callee vs =>
    rcases List.mem_cons.mp hv with rfl | hv
    · exact ha.suits.1
    · exact ha.suits.2 v hv
  | invoke | construct =>
    rcases List.mem_cons.mp hv with rfl | hv
    · exact ha.suits.1
    · exact ha.suits.2.2 v hv
  | render line w =>
    obtain rfl := List.mem_singleton.mp hv
    exact ha.suits
  | _ => simp [Task.values] at hv

end LoxLang
