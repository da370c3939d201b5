import LoxLang.Proofs.Evaluation.Sequel
import LoxLang.Proofs.Session.Environments

set_option autoImplicit false

namespace LoxLang

namespace Store

variable {s : Store}

theorem methodAmong?_of_lt
    (hyounger : ∀ C c B, s.class? C = some c → c.superclass = some B → B.index < C.index)
    (name : String) {C : ClassId} {bound more : Nat} (hbound : C.index < bound)
    (hmore : C.index < more) : s.methodAmong? name bound C = s.methodAmong? name more C := by
  induction bound generalizing C more with
  | zero => exact absurd hbound (Nat.not_lt_zero _)
  | succ bound ih =>
    obtain ⟨more, rfl⟩ := Nat.exists_eq_add_one_of_ne_zero (Nat.ne_zero_of_lt hmore)
    rw [methodAmong?, methodAmong?]
    cases hc : s.class? C with
    | none => rfl
    | some c =>
      cases hB : c.superclass with
      | none => simp only [hB]
      | some B =>
        have hlt := hyounger C c B hc hB
        simp only [hB, @ih B more (by omega) (by omega)]

theorem method?_eq
    (hyounger : ∀ C c B, s.class? C = some c → c.superclass = some B → B.index < C.index)
    {C : ClassId} {c : Class} (hc : s.class? C = some c) (name : String) :
    s.method? C name = (c.methods.get? name).or (c.superclass.bind fun B => s.method? B name) := by
  have hsize : C.index < s.classes.size := by
    have hsome : s.classes[C.index]? = some c := hc
    exact (Array.getElem?_eq_some_iff.mp hsome).1
  have hnext : s.method? C name = s.methodAmong? name (s.classes.size + 1) C :=
    methodAmong?_of_lt hyounger name hsize (by omega)
  rw [hnext, methodAmong?, hc]
  cases hmethod : c.methods.get? name with
  | some method => simp [hmethod]
  | none => cases hB : c.superclass <;> simp [hmethod, hB, method?]

end Store

structure Store.Orderly (root : Activity → Prop) (s : Store) : Prop where
  rooted : ∀ C c, s.class? C = some c → s.Rooted C
  search : ∀ C c name, s.class? C = some c →
    s.method? C name = (c.methods.get? name).or (c.superclass.bind fun B => s.method? B name)
  made : ∀ id, s.Holds (.function id) → s.Made root id

/-- What `this` is in an environment has not changed, and neither has any class. -/
structure Store.Keeps (s s' : Store) : Prop where
  this : ∀ frame v, s.local? frame "this" = some v → s'.local? frame "this" = some v
  classes : ∀ C c, s.class? C = some c → s'.class? C = some c

variable {E : Setting} {s s' : Store}

theorem Setting.Sound.orderly (h : E.Sound s) : s.Orderly E.root where
  rooted _ _ hc := h.rooted hc
  search _ _ name hc := Store.method?_eq (fun C c B hc hB => (h.classes C c hc).older B hB) hc name
  made _ hheld := (h.held _ hheld).made

theorem Store.Extends.keeps (h : s.Extends s') : s.Keeps s' :=
  ⟨fun _ _ hv => h.this hv, h.grows.classes⟩

namespace Activity

/-- Methods are bound while the activity goes on and after it. -/
structure Dispatches (root : Activity → Prop) (a : Activity) : Prop where
  orderly : a.machine.store.Orderly root
  values : ∀ id, .function id ∈ a.task.values → a.machine.store.Made root id
  gives : ∀ id m, a.Gives (.function id) m → m.store.Made root id
  ends : ∀ m, a.EndsIn m → m.store.Orderly root ∧ a.machine.store.Keeps m.store
  goes : ∀ b, a.Goes b → a.machine.store.Keeps b.machine.store ∧
    ∀ m, a.EndsIn m → ∃ m₁, b.EndsIn m₁ ∧ m₁.store.Keeps m.store
  /-- A built-in method runs on an object of `array` or of a class that descends from it. -/
  receiver : ∀ line id vs f method, a.task = .invoke line id vs →
    a.machine.store.function? id = some f → f.code = .array method →
    ∃ object o, a.machine.store.receiver? f.closure = some object ∧
      a.machine.store.object? object = some o ∧ a.machine.store.Descends o.classId arrayClass
  /-- `super` is about the superclass of the class in whose body it stands, and about the object that
  `this` is there. -/
  super : ∀ fuel keyword method, a.fuel = fuel + 1 → a.task = .evaluate (.super keyword method) →
    ∃ K C B object, a.Stands root K ∧ SuperHere root K a.machine C B object ∧
      evaluate (fuel + 1) (.super keyword method) a.machine =
        Eval.methodFrom B object method a.machine
  creates : ∀ line C vs v m, a.task = .call line (.classValue C) vs → a.Gives v m →
    v = .object ⟨a.machine.store.objects.size⟩ ∧
      ∃ o, m.store.object? ⟨a.machine.store.objects.size⟩ = some o ∧ o.classId = C
  initializes : ∀ line id vs f C object v m, a.task = .call line (.function id) vs →
    a.machine.store.function? id = some f →
    a.machine.store.BindsMethod f C initializerName object → a.Gives v m → v = .object object

theorem Sits.dispatches {a : Activity} {K : Context} (ha : a.Sits E K) : a.Dispatches E.root where
  orderly := ha.sound.orderly
  values _ hid := (ha.values hid).made
  gives _ _ h := (ha.gives h).made
  ends _ h := ⟨(ha.ends h).sound.orderly, (ha.ends h).later.keeps⟩
  goes b h := by
    refine ⟨(ha.goes h).keeps, fun m hm => ?_⟩
    obtain ⟨m₁, hends, hlater⟩ := ha.returns h hm
    exact ⟨m₁, hends, hlater.keeps⟩
  receiver line id vs f method htask hf hcode := by
    obtain ⟨fuel, task, m⟩ := a
    obtain rfl := htask
    exact ha.receiver hf hcode
  super fuel keyword method hfuel htask := by
    obtain ⟨_, task, m⟩ := a
    obtain rfl := hfuel
    obtain rfl := htask
    obtain ⟨C, B, object, hhere, heq⟩ := ha.super_eq
    exact ⟨K, C, B, object, ha.stands, hhere, heq⟩
  creates line C vs v m' htask hgives := by
    obtain ⟨fuel, task, m⟩ := a
    obtain rfl := htask
    exact ha.class_answers.answer hgives
  initializes line id vs f C object v m' htask hf hbinds hgives := by
    obtain ⟨fuel, task, m⟩ := a
    obtain rfl := htask
    exact (ha.initializer_answers hf hbinds).answer hgives

end Activity

section

variable {P : Program} {p : Performance} {fuel : Nat} {m : Machine} {a : Activity}

/-- The activity begins on a later store, and if the computation comes to its end then it does so too, and
no later. -/
def Activity.LiesIn (a : Activity) (act : Eval Unit) (m : Machine) : Prop :=
  m.store.Extends a.machine.store ∧
    ∀ m', act.EndsIn m m' → ∃ m₁, a.EndsIn m₁ ∧ m₁.store.Extends m'.store

theorem Program.Begins.lies (h : P.Begins fuel m a) (hm : E.Admits P m)
    (hroot : ∀ a, P.Begins fuel m a → E.root a) : a.LiesIn (Eval.runStatements fuel P) m := by
  induction h with
  | @statement m s rest =>
    refine ⟨.refl _, fun m' hends => ?_⟩
    rw [Eval.runStatements] at hends
    refine hends.first fun ending m₁ hs => ?_
    have hstep := ((evaluates E fuel).execute (hm.head (hroot _ .statement))).answer hs
    exact (Eval.steps_runStatements (hm.tail hstep.1) fun a ha => hroot a (.next hs ha)).late
  | next hs _ ih =>
    have hstep := ((evaluates E fuel).execute (hm.head (hroot _ .statement))).answer hs
    obtain ⟨hlater, hends⟩ := ih (hm.tail hstep.1) fun a ha => hroot a (.next hs ha)
    refine ⟨hstep.1.later.trans hlater, fun m' hm' => hends m' ?_⟩
    rw [Eval.runStatements] at hm'
    exact hm'.after hs

theorem Performance.Begins.lies (h : p.Begins a) (hm : E.Admits p.program p.machine)
    (hroot : ∀ a, p.Begins a → E.root a) : a.LiesIn p.act p.machine := by
  rw [Performance.act_eq]
  cases h with
  | statements he h =>
    rw [he]
    exact h.lies hm fun a ha => hroot a (.statements he ha)
  | echoed he =>
    rw [he]
    refine ⟨.refl _, fun m' hends => ?_⟩
    refine Eval.EndsIn.first hends fun v m₁ hv => ?_
    have hrender := (evaluates E p.fuel).render (Performance.echo_sits hm hroot he hv)
    exact hrender.late.bind fun _ _ _ => .emit
  | echo he hv =>
    rw [he]
    have hstep := ((evaluates E p.fuel).evaluate (Performance.echoed_sits hm hroot he)).answer hv
    refine ⟨hstep.1.later, fun m' hends => ?_⟩
    exact (Eval.EndsIn.after hends hv).first fun _ _ _ => .emit

theorem Activity.Visited.lies {root : Activity → Prop} {act : Eval Unit}
    (hsits : ∀ a, root a → a.Sits E .top) (hlies : ∀ a, root a → a.LiesIn act m)
    (h : a.Visited root) : a.LiesIn act m := by
  have hgoes : ∀ a b : Activity, a.Visited root → a.Goes b → a.LiesIn act m → b.LiesIn act m := by
    intro a b ha hb hlies
    obtain ⟨K, ha⟩ := ha.sits hsits
    refine ⟨hlies.1.trans (ha.goes hb), fun m' hends => ?_⟩
    obtain ⟨m₁, ha', hlater⟩ := hlies.2 m' hends
    obtain ⟨m₂, hb', hlater'⟩ := ha.returns hb ha'
    exact ⟨m₂, hb', hlater'.trans hlater⟩
  induction h with
  | root h => exact hlies _ h
  | part ha h ih => exact hgoes _ _ ha (.inl ⟨_, h⟩) ih
  | body ha h ih => exact hgoes _ _ ha (.inr ⟨_, _, _, h⟩) ih

end

namespace Session

variable {history : List Performance} {s : Session} {p : Performance}

theorem run_ends {interactive : Bool} {fuel : Nat} {source : String} {errors : List Diagnostic}
    {s' : Session} (hp : s.performance? interactive fuel source = some p)
    (h : s.runAs interactive fuel source = some (errors, s')) :
    ∃ m', p.act.EndsIn p.machine m' ∧ m'.store = s'.machine.store := by
  rcases runAs_some h with ⟨hnone, -⟩ | ⟨q, s₁, hq, -, hm, hperform⟩
  · rw [hp] at hnone
    cases hnone
  · obtain rfl : p = q := Option.some.inj (hp.symm.trans hq)
    rw [← hm]
    obtain ⟨-, ⟨hact, -⟩ | ⟨f, after, hact, hm', -⟩⟩ := perform_some hperform
    · exact ⟨s'.machine, .inl (by rw [hact]; rfl), rfl⟩
    · exact ⟨after, .inr ⟨f, by rw [hact]; rfl⟩, by rw [hm']; rfl⟩

/-- Methods are bound in every state of a session. In a session that any runs led to, and whatever is
evaluated while an accepted program runs in it, chains of superclasses end and the methods that are values
are bound to objects of classes that have or inherit them. This never changes up to the end of the run,
and no run fails because a method is not bound. -/
theorem methods_bound (hs : s.After history) :
    s.machine.store.Orderly (Setting.of history).root ∧
      ∀ interactive fuel source p, s.performance? interactive fuel source = some p →
        (∀ a : Activity, a.Visited p.Begins → a.Dispatches (Setting.of (p :: history)).root ∧
          s.machine.store.Keeps a.machine.store) ∧
        (∀ line name m, p.act p.machine ≠ .fault (.runtime line (.methodNotBound name)) m) ∧
        ∀ errors s', s.runAs interactive fuel source = some (errors, s') →
          s'.machine.store.Orderly (Setting.of (p :: history)).root ∧
            s.machine.store.Keeps s'.machine.store ∧
            ∀ a : Activity, a.Visited p.Begins →
              ∃ m, a.EndsIn m ∧ m.store.Keeps s'.machine.store := by
  refine ⟨hs.settled.sound.orderly, fun interactive fuel source p hp => ?_⟩
  obtain ⟨s₁, hprepare, hm⟩ := performance?_some hp
  have hadmits := hs.settled.admits hprepare hm
  have hroot : ∀ a, p.Begins a → (Setting.of (p :: history)).root a :=
    fun a ha => ⟨p, List.mem_cons_self, ha⟩
  -- Preparing the source text has recorded hop counts only.
  have hstore : p.machine.store = s.machine.store := by
    obtain ⟨_, hops, -, -, -, hrecorded⟩ := prepare_ok hprepare
    rw [← hm, hrecorded]
    rfl
  have hlies : ∀ a : Activity, a.Visited p.Begins → a.LiesIn p.act p.machine := fun a ha =>
    ha.lies (fun b hb => hb.sits hadmits hroot) fun b hb => hb.lies hadmits hroot
  have hsteps := Eval.steps_act hadmits hroot
  refine ⟨fun a ha => ?_, fun line name m hfault => ?_, fun errors s' h => ?_⟩
  · obtain ⟨K, hsits⟩ := visited_sits hs hp ha
    exact ⟨hsits.dispatches, hstore ▸ (hlies a ha).1.keeps⟩
  · exact absurd (hsteps.fault hfault).2 (by simp [Fault.Expected, RuntimeError.isInternal])
  · obtain ⟨m', hends, hstore'⟩ := run_ends hp h
    have hstep := Activity.Steps.step_of_forget hsteps hends
    refine ⟨hstore' ▸ hstep.sound.orderly, ?_, fun a ha => ?_⟩
    · exact hstore ▸ hstore' ▸ hstep.later.keeps
    · obtain ⟨m₁, ha, hlater⟩ := (hlies a ha).2 m' hends
      exact ⟨m₁, ha, hstore' ▸ hlater.keeps⟩

/-- A method of an object is taken from it. -/
theorem methods_bound_size :
    ∃ (p : Performance) (a : Activity) (made : Expr),
      (start .unlimited [] (.ticking 0)).performance? false 9 "array().size;" = some p ∧
      a.Visited p.Begins ∧ a.task = .evaluate (.get made ⟨.identifier, "size", 1⟩) ∧
      a.Dispatches (Setting.of [p]).root := by
  let made : Expr := .call (.variable ⟨0, ⟨.identifier, "array", 1⟩⟩) ⟨.mark .rightParen, ")", 1⟩ []
  let taken : Expr := .get made ⟨.identifier, "size", 1⟩
  let m := ((start .unlimited [] (.ticking 0)).prepare "array().size;").2.machine
  have haccepts : (start .unlimited [] (.ticking 0)).accepts "array().size;" [.expression taken] := by
    show _ = _
    cbv
  let p : Performance := ⟨false, 9, [.expression taken], m⟩
  have hp : (start .unlimited [] (.ticking 0)).performance? false 9 "array().size;" = some p :=
    performance?_of_accepts haccepts
  have hvisited : Activity.Visited p.Begins ⟨8, .evaluate taken, m⟩ :=
    .part (.root (.statements rfl .statement)) .expression
  obtain ⟨hdispatches, -⟩ := ((methods_bound (.start .unlimited [] (.ticking 0))).2 _ _ _ p hp).1 _ hvisited
  exact ⟨p, _, made, hp, hvisited, rfl, hdispatches⟩

end Session

end LoxLang
