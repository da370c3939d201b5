import LoxLang.Proofs.Evaluation.Data
import LoxLang.Proofs.Evaluation.Trail
import LoxLang.Proofs.Evaluation.Visits
import LoxLang.Proofs.Store.Holding
import LoxLang.Proofs.Syntax.Proper

/-!
Where the values of a store come from.

Every function that is a value was made by a `fun` declaration, or it is a method that was bound to an
object of a class that has or inherits it. The methods of the classes themselves are no values. Whatever
has a declaration closes over the environments of the context in which the declaration stands.
-/

set_option autoImplicit false

namespace LoxLang

def Store.Plain (root : Activity → Prop) (s : Store) (id : FunctionId) : Prop :=
  ∃ fuel d m, Activity.Visited root ⟨fuel + 1, .execute (.declareFunction d), m⟩ ∧
    id = ⟨m.store.functions.size⟩ ∧
    (m.store.addFunction ⟨.declared d, m.cursor, false⟩).2.Extends s

/-- The function is a method of the class, bound to the object. Its closure is within that of the method,
and the class of the object is the class or descends from it. -/
structure Store.BindsMethod (s : Store) (f : Function) (C : ClassId) (name : String)
    (object : ObjectId) : Prop where
  method : ∃ c method g, s.class? C = some c ∧ c.methods.get? name = some method ∧
    s.function? method = some g ∧ f.code = g.code ∧ f.initializes = g.initializes ∧
    s.enclosing? f.closure = some g.closure
  this : s.local? f.closure "this" = some (.object object)
  descends : ∃ o, s.object? object = some o ∧ s.Descends o.classId C

def arrayClass : ClassId := ⟨0⟩

/-- What the invariants speak of: the activities that a session consists of, and the lookups of its
programs. -/
structure Setting where
  root : Activity → Prop
  known : Lookup → Prop

namespace Setting

variable (E : Setting)

def Knows (lookups : List Lookup) : Prop := ∀ l ∈ lookups, E.known l

structure Ready (s : Store) (d : Declaration) (closure : FrameId) (K : Context) : Prop where
  fits : K.Matches E.root s closure
  proper : d.Proper
  known : E.Knows (d.lookups K.scopes)

/-- A function that a value may be. -/
structure Callable (s : Store) (id : FunctionId) (f : Function) : Prop where
  found : s.function? id = some f
  origin : s.Plain E.root id ∨ ∃ C name object, s.BindsMethod f C name object
  ready : ∀ d, f.code = .declared d → ∃ K, Closes E.root id s K ∧ E.Ready s d f.closure K

def Fine (s : Store) : Value → Prop
  | .function id => ∃ f, E.Callable s id f
  | .object id => (s.object? id).isSome = true
  | .classValue id => (s.class? id).isSome = true
  | .nil | .boolean _ | .number _ | .string _ | .native _ => True

/-- The declaration can be run in the closure once `this` is bound there, in the scopes of a class
body. -/
structure Bindable (s : Store) (C : ClassId) (d : Declaration) (closure : FrameId) (K : Context) :
    Prop where
  fits : K.Matches E.root s closure
  proper : d.Proper
  known : E.Knows (d.lookups (oneName "this" :: K.scopes))
  housed : K.scopes[0]? = some (oneName "super") → ∀ frame, K.trail[0]? = some frame →
    s.Houses frame C

structure Unbound (s : Store) (C : ClassId) (name : String) (g : Function) : Prop where
  initializes : g.initializes = decide (name = initializerName)
  array : ∀ method, g.code = .array method → C = arrayClass ∧ name = method.name
  ready : ∀ d, g.code = .declared d → ∃ K, Forms E.root C s K ∧ E.Bindable s C d g.closure K

structure ClassFine (s : Store) (C : ClassId) (c : Class) : Prop where
  older : ∀ B, c.superclass = some B → B.index < C.index
  methods : ∀ name method, c.methods.get? name = some method →
    ∃ g, s.function? method = some g ∧ E.Unbound s C name g

/-- The invariant of stores. -/
structure Sound (s : Store) : Prop where
  held : ∀ v, s.Holds v → E.Fine s v
  objects : ∀ id o, s.object? id = some o → (s.class? o.classId).isSome = true
  classes : ∀ C c, s.class? C = some c → E.ClassFine s C c
  globals : (s.frame? Store.globals).isSome = true

end Setting

section

variable {E : Setting} {s s' : Store}

theorem Store.Plain.extend {root : Activity → Prop} {id : FunctionId} (hs : s.Extends s')
    (h : s.Plain root id) : s'.Plain root id := by
  obtain ⟨fuel, d, m, hvisited, hid, hextends⟩ := h
  exact ⟨fuel, d, m, hvisited, hid, hextends.trans hs⟩

theorem Store.BindsMethod.extend {f : Function} {C : ClassId} {name : String} {object : ObjectId}
    (hs : s.Extends s') (h : s.BindsMethod f C name object) : s'.BindsMethod f C name object := by
  obtain ⟨c, method, g, hc, hmethod, hg, hcode, hinit, henclosing⟩ := h.method
  obtain ⟨o, ho, hdescends⟩ := h.descends
  obtain ⟨o', ho', hclass⟩ := hs.grows.objects _ _ ho
  exact ⟨⟨c, method, g, hs.grows.classes _ _ hc, hmethod, hs.grows.functions _ _ hg, hcode, hinit,
    hs.grows.enclosing? henclosing⟩, hs.this h.this, o', ho', hclass ▸ hdescends.extend hs⟩

theorem Store.Grows.class?_isSome (hs : s.Grows s') {id : ClassId}
    (h : (s.class? id).isSome = true) : (s'.class? id).isSome = true := by
  obtain ⟨c, hc⟩ := Option.isSome_iff_exists.mp h
  simp [hs.classes _ _ hc]

theorem Store.Grows.object?_isSome (hs : s.Grows s') {id : ObjectId}
    (h : (s.object? id).isSome = true) : (s'.object? id).isSome = true := by
  obtain ⟨o, ho⟩ := Option.isSome_iff_exists.mp h
  obtain ⟨o', ho', -⟩ := hs.objects _ _ ho
  simp [ho']

namespace Setting

theorem Ready.extend {d : Declaration} {closure : FrameId} {K : Context} (hs : s.Extends s')
    (h : E.Ready s d closure K) : E.Ready s' d closure K := ⟨h.fits.extend hs, h.proper, h.known⟩

theorem Callable.extend {id : FunctionId} {f : Function} (hs : s.Extends s')
    (h : E.Callable s id f) : E.Callable s' id f := by
  refine ⟨hs.grows.functions _ _ h.found, ?_, fun d hd => ?_⟩
  · rcases h.origin with hplain | ⟨C, name, object, hbound⟩
    · exact .inl (hplain.extend hs)
    · exact .inr ⟨C, name, object, hbound.extend hs⟩
  · obtain ⟨K, hcloses, hready⟩ := h.ready d hd
    exact ⟨K, hcloses.extend hs, hready.extend hs⟩

theorem Fine.extend {v : Value} (hs : s.Extends s') (h : E.Fine s v) : E.Fine s' v := by
  cases v with
  | function id =>
    obtain ⟨f, h⟩ := h
    exact ⟨f, h.extend hs⟩
  | object id => exact hs.grows.object?_isSome h
  | classValue id => exact hs.grows.class?_isSome h
  | _ => trivial

theorem Fine.of_isData {v : Value} (h : v.isData = true) : E.Fine s v := by
  cases v with
  | nil | boolean | number | string => trivial
  | native | function | classValue | object => cases h

theorem Bindable.extend {C : ClassId} {d : Declaration} {closure : FrameId} {K : Context}
    (hs : s.Extends s') (h : E.Bindable s C d closure K) : E.Bindable s' C d closure K :=
  ⟨h.fits.extend hs, h.proper, h.known,
    fun hscope frame hframe => (h.housed hscope frame hframe).extend hs⟩

theorem Unbound.extend {C : ClassId} {name : String} {g : Function} (hs : s.Extends s')
    (h : E.Unbound s C name g) : E.Unbound s' C name g := by
  refine ⟨h.initializes, h.array, fun d hd => ?_⟩
  obtain ⟨K, hforms, hbindable⟩ := h.ready d hd
  exact ⟨K, hforms.extend hs, hbindable.extend hs⟩

theorem ClassFine.extend {C : ClassId} {c : Class} (hs : s.Extends s') (h : E.ClassFine s C c) :
    E.ClassFine s' C c := by
  refine ⟨h.older, fun name method hmethod => ?_⟩
  obtain ⟨g, hg, hunbound⟩ := h.methods name method hmethod
  exact ⟨g, hs.grows.functions _ _ hg, hunbound.extend hs⟩

/-- A store stays sound if what it gains is fine. -/
theorem Sound.step (h : E.Sound s) (hs : s.Extends s')
    (hheld : ∀ v, s'.Holds v → s.Holds v ∨ E.Fine s' v)
    (hobjects : ∀ id o, s'.object? id = some o →
      (∃ o', s.object? id = some o' ∧ o.classId = o'.classId) ∨ (s'.class? o.classId).isSome = true)
    (hclasses : ∀ C c, s'.class? C = some c → s.class? C = some c ∨ E.ClassFine s' C c) :
    E.Sound s' := by
  refine ⟨fun v hv => ?_, fun id o ho => ?_, fun C c hc => ?_, hs.grows.frame?_isSome h.globals⟩
  · rcases hheld v hv with hv | hv
    · exact (h.held v hv).extend hs
    · exact hv
  · rcases hobjects id o ho with ⟨o', ho', hclass⟩ | hclass
    · exact hs.grows.class?_isSome (hclass ▸ h.objects id o' ho')
    · exact hclass
  · rcases hclasses C c hc with hc | hc
    · exact (h.classes C c hc).extend hs
    · exact hc

theorem Sound.addFrame (h : E.Sound s) (enclosing : Option FrameId) :
    E.Sound (s.addFrame enclosing).2 :=
  h.step (s.extends_addFrame enclosing) (fun _ hv => .inl hv.of_addFrame)
    (fun _ o ho => .inl ⟨o, ho, rfl⟩) fun _ _ hc => .inl hc

theorem Sound.addFunction (h : E.Sound s) (f : Function) : E.Sound (s.addFunction f).2 :=
  h.step (s.extends_addFunction f) (fun _ hv => .inl hv.of_addFunction)
    (fun _ o ho => .inl ⟨o, ho, rfl⟩) fun _ _ hc => .inl hc

theorem Sound.bind_later (h : E.Sound s) {frame : FrameId} {name : String} {value : Value}
    (hs : s.Extends (s.bind frame name value)) (hvalue : E.Fine (s.bind frame name value) value) :
    E.Sound (s.bind frame name value) := by
  refine h.step hs (fun v hv => ?_) (fun _ o ho => .inl ⟨o, ho, rfl⟩) fun _ _ hc => .inl hc
  rcases hv.of_bind with hv | rfl
  · exact .inl hv
  · exact .inr hvalue

theorem Sound.bind (h : E.Sound s) {frame : FrameId} {name : String} {value : Value}
    (hs : s.Extends (s.bind frame name value)) (hvalue : E.Fine s value) :
    E.Sound (s.bind frame name value) := h.bind_later hs (hvalue.extend hs)

theorem Sound.bindAll (h : E.Sound s) (frame : FrameId) (entries : List (Token × Value))
    (hentries : ∀ entry ∈ entries, ¬ isReserved entry.1.lexeme ∧ E.Fine s entry.2) :
    E.Sound (entries.foldl (fun s entry => s.bind frame entry.1.lexeme entry.2) s) := by
  induction entries generalizing s with
  | nil => exact h
  | cons entry rest ih =>
    obtain ⟨hname, hvalue⟩ := hentries entry List.mem_cons_self
    have hs := s.extends_bind frame entry.1.lexeme entry.2 fun hreserved => absurd hreserved hname
    refine ih (h.bind hs hvalue) fun e he => ?_
    obtain ⟨hname, hvalue⟩ := hentries e (List.mem_cons_of_mem _ he)
    exact ⟨hname, hvalue.extend hs⟩

theorem Sound.addObject (h : E.Sound s) {C : ClassId} (hC : (s.class? C).isSome = true) :
    E.Sound (s.addObject ⟨C, ∅, #[]⟩).2 := by
  refine h.step (s.extends_addObject _) (fun v hv => .inl hv.of_addObject) (fun id o ho => ?_)
    fun C c hc => .inl hc
  rw [Store.object?_addObject] at ho
  split at ho
  · cases ho
    exact .inr hC
  · exact .inl ⟨o, ho, rfl⟩

theorem Sound.modifyObject (h : E.Sound s) (object : ObjectId) {g : Object → Object}
    (hclass : ∀ o, (g o).classId = o.classId)
    (hholds : ∀ o, s.object? object = some o → ∀ v, (g o).Holds v → s.Holds v ∨ E.Fine s v) :
    E.Sound (s.modifyObject object g) := by
  have hs := s.extends_modifyObject object hclass
  refine h.step hs (fun v hv => ?_) (fun id o ho => .inl ?_) fun C c hc => .inl hc
  · rcases hv.of_modifyObject with hv | ⟨o, ho, hv⟩
    · exact .inl hv
    · exact (hholds o ho v hv).imp_right (Fine.extend hs)
  · rw [Store.object?_modifyObject] at ho
    obtain ⟨o', ho', rfl⟩ := Option.map_eq_some_iff.mp ho
    refine ⟨o', ho', ?_⟩
    split
    · exact hclass o'
    · rfl

theorem Sound.setField (h : E.Sound s) (object : ObjectId) (name : String) {value : Value}
    (hvalue : E.Fine s value) : E.Sound (s.setField object name value) := by
  refine h.modifyObject object (fun _ => rfl) fun o ho v hv => ?_
  rcases Object.holds_insert hv with hv | rfl
  · exact .inl (hv.held ho)
  · exact .inr hvalue

variable {method : FunctionId} {g : Function} {object : ObjectId} {o : Object}

theorem bindMethod_found (object : ObjectId) (hmethod : s.function? method = some g) :
    s.Extends (s.bindMethod method object).2 ∧
      (s.bindMethod method object).2.function? ⟨s.functions.size⟩ =
        some { g with closure := ⟨s.frames.size⟩ } ∧
      (s.bindMethod method object).2.enclosing? ⟨s.frames.size⟩ = some g.closure ∧
      (s.bindMethod method object).2.local? ⟨s.frames.size⟩ "this" = some (.object object) := by
  refine ⟨s.extends_bindMethod method object, ?_⟩
  rw [Store.bindMethod_eq hmethod]
  refine ⟨(Store.function?_addFunction _ _ _).trans (if_pos rfl), ?_, ?_⟩
  · exact (Store.enclosing?_bind _ _ _ _ _).trans
      ((Store.enclosing?_addFrame _ _ _).trans (if_pos rfl))
  · have hframe : ((s.addFrame (some g.closure)).2.frame? ⟨s.frames.size⟩).isSome = true := by
      rw [Store.frame?_addFrame, if_pos rfl]
      rfl
    exact (Store.local?_bind _ _ _ _ _ _).trans (if_pos ⟨rfl, rfl, hframe⟩)

theorem Bindable.ready {C : ClassId} {d : Declaration} {K : Context}
    (h : E.Bindable s C d g.closure K) (hforms : Forms E.root C s K)
    (hmethod : s.function? method = some g)
    (ho : s.object? object = some o) (hdescends : s.Descends o.classId C) :
    E.Ready (s.bindMethod method object).2 d ⟨s.frames.size⟩
      (K.within (oneName "this") ⟨s.frames.size⟩) := by
  obtain ⟨hlater, -, henclosing, hthis⟩ := bindMethod_found object hmethod
  refine ⟨?_, h.proper, h.known⟩
  refine (h.fits.extend hlater).push henclosing (fun other hother => ?_) fun _ hscope frame hframe => ?_
  · obtain ⟨-, rfl⟩ := get?_oneName hother
    exact Option.isSome_iff_exists.mpr ⟨_, hthis⟩
  · obtain ⟨o', ho', hclass⟩ := hlater.grows.objects _ _ ho
    exact ⟨C, K, object, o', hforms.extend hlater, hframe,
      (h.housed hscope frame hframe).extend hlater, hthis, ho', hclass ▸ hdescends.extend hlater⟩

theorem Sound.bindMethod (h : E.Sound s) {D : ClassId} {d : Class} {name : String}
    (ho : s.object? object = some o) (hdescends : s.Descends o.classId D)
    (hd : s.class? D = some d) (hmethod : d.methods.get? name = some method) :
    E.Sound (s.bindMethod method object).2 ∧
      ∃ f, E.Callable (s.bindMethod method object).2 (s.bindMethod method object).1 f ∧
        (s.bindMethod method object).2.BindsMethod f D name object := by
  obtain ⟨g, hg, hunbound⟩ := (h.classes D d hd).methods name method hmethod
  obtain ⟨hlater, hfound, henclosing, hthis⟩ := bindMethod_found object hg
  -- The new environment has nothing but `this`, and the new function is none of the values yet.
  have hsound : E.Sound (s.bindMethod method object).2 := by
    rw [Store.bindMethod_eq hg]
    refine Sound.addFunction ((h.addFrame _).bind (Store.extends_bind _ _ _ _ fun _ => ?_) ?_) _
    · rw [Store.local?_addFrame, Store.local?_size]
    · simp [Fine, ho]
  have hid : (s.bindMethod method object).1 = ⟨s.functions.size⟩ := by
    rw [Store.bindMethod_eq hg]
    rfl
  let f : Function := { g with closure := ⟨s.frames.size⟩ }
  have hbinds : (s.bindMethod method object).2.BindsMethod f D name object := by
    obtain ⟨o', ho', hclass⟩ := hlater.grows.objects _ _ ho
    exact ⟨⟨d, method, g, hlater.grows.classes _ _ hd, hmethod, hlater.grows.functions _ _ hg, rfl,
      rfl, henclosing⟩, hthis, o', ho', hclass ▸ hdescends.extend hlater⟩
  rw [hid]
  refine ⟨hsound, f, ⟨hfound, .inr ⟨D, name, object, hbinds⟩, fun e he => ?_⟩, hbinds⟩
  obtain ⟨K, hforms, hbindable⟩ := hunbound.ready e he
  exact ⟨_, .method hforms hd hmethod ho hdescends (.refl _),
    hbindable.ready hforms hg ho hdescends⟩

end Setting

end

theorem Activity.Visited.mono {root root' : Activity → Prop} (hroot : ∀ a, root a → root' a)
    {a : Activity} (h : a.Visited root) : a.Visited root' := by
  induction h with
  | root h => exact .root (hroot _ h)
  | part _ h ih => exact ih.part h
  | body _ h ih => exact ih.body h

namespace Setting

/-- One session goes on from the other. -/
structure Continues (E E' : Setting) : Prop where
  root : ∀ a, E.root a → E'.root a
  known : ∀ l, E.known l → E'.known l

variable {E E' : Setting} {s : Store}

theorem Knows.mono (h : E.Continues E') {lookups : List Lookup} (hknown : E.Knows lookups) :
    E'.Knows lookups := fun l hl => h.known l (hknown l hl)

theorem Callable.mono (h : E.Continues E') {id : FunctionId} {f : Function}
    (hf : E.Callable s id f) : E'.Callable s id f := by
  refine ⟨hf.found, ?_, fun d hd => ?_⟩
  · rcases hf.origin with ⟨fuel, d, m, hvisited, hplain⟩ | hbound
    · exact .inl ⟨fuel, d, m, hvisited.mono h.root, hplain⟩
    · exact .inr hbound
  · obtain ⟨K, hcloses, hready⟩ := hf.ready d hd
    exact ⟨K, hcloses.mono h.root, hready.fits.mono h.root, hready.proper, hready.known.mono h⟩

theorem Fine.mono (h : E.Continues E') {v : Value} (hv : E.Fine s v) : E'.Fine s v := by
  cases v with
  | function id =>
    obtain ⟨f, hf⟩ := hv
    exact ⟨f, hf.mono h⟩
  | _ => exact hv

theorem ClassFine.mono (h : E.Continues E') {C : ClassId} {c : Class} (hc : E.ClassFine s C c) :
    E'.ClassFine s C c := by
  refine ⟨hc.older, fun name method hmethod => ?_⟩
  obtain ⟨g, hg, hunbound⟩ := hc.methods name method hmethod
  refine ⟨g, hg, hunbound.initializes, hunbound.array, fun d hd => ?_⟩
  obtain ⟨K, hforms, hbindable⟩ := hunbound.ready d hd
  exact ⟨K, hforms.mono h.root, hbindable.fits.mono h.root, hbindable.proper, hbindable.known.mono h,
    hbindable.housed⟩

theorem Sound.mono (h : E.Continues E') (hs : E.Sound s) : E'.Sound s :=
  ⟨fun v hv => (hs.held v hv).mono h, hs.objects, fun C c hc => (hs.classes C c hc).mono h,
    hs.globals⟩

end Setting

end LoxLang
