import LoxLang.Proofs.Store.Growth

/-!
Later stores.

What `this` and `super` are bound to in an environment never changes, since neither can be assigned to
or declared again. So chains of environments, the classes of objects and the objects of bound methods
stay what they were.
-/

set_option autoImplicit false

namespace LoxLang

def isReserved (name : String) : Prop := name = "this" ∨ name = "super"

namespace Store

variable (s : Store)

theorem local?_bind (frame id : FrameId) (name other : String) (value : Value) :
    (s.bind frame name value).local? id other =
      if id = frame ∧ name = other ∧ (s.frame? frame).isSome then some value
      else s.local? id other := by
  unfold local?
  rw [frame?_bind]
  by_cases hid : id = frame
  · subst hid
    cases s.frame? id with
    | none => simp
    | some f => by_cases hname : name = other <;> simp [Dictionary.get?_insert, hname]
  · cases s.frame? id <;> simp [hid]

theorem local?_addFrame (enclosing : Option FrameId) (id : FrameId) (name : String) :
    (s.addFrame enclosing).2.local? id name = s.local? id name := by
  unfold local?
  rw [frame?_addFrame]
  by_cases hid : id = ⟨s.frames.size⟩
  · simp [hid, frame?]
  · rw [if_neg hid]

theorem enclosing?_bind (frame id : FrameId) (name : String) (value : Value) :
    (s.bind frame name value).enclosing? id = s.enclosing? id := by
  unfold enclosing?
  rw [frame?_bind]
  cases s.frame? id with
  | none => rfl
  | some f => by_cases hid : id = frame <;> simp [hid]

theorem enclosing?_addFrame (enclosing : Option FrameId) (id : FrameId) :
    (s.addFrame enclosing).2.enclosing? id =
      if id = ⟨s.frames.size⟩ then enclosing else s.enclosing? id := by
  unfold enclosing?
  rw [frame?_addFrame]
  by_cases hid : id = ⟨s.frames.size⟩ <;> simp [hid]

variable {s}

theorem frame?_of_local? {frame : FrameId} {name : String} {value : Value}
    (h : s.local? frame name = some value) : (s.frame? frame).isSome = true := by
  unfold local? at h
  split at h
  · rename_i hf
    simp [hf]
  · cases h

theorem frame?_of_enclosing? {frame outer : FrameId} (h : s.enclosing? frame = some outer) :
    (s.frame? frame).isSome = true := by
  unfold enclosing? at h
  split at h
  · rename_i hf
    simp [hf]
  · cases h

theorem exists_size {frame : FrameId} (h : (s.frame? frame).isSome = true) :
    ∃ more, s.frames.size = more + 1 := by
  have hlt := (s.frame?_isSome_iff frame).mp h
  exact ⟨s.frames.size - 1, by omega⟩

theorem holder_of_local? {frame : FrameId} {name : String}
    (h : (s.local? frame name).isSome = true) : s.holder frame name = .ok frame := by
  obtain ⟨v, hv⟩ := Option.isSome_iff_exists.mp h
  obtain ⟨more, hsize⟩ := exists_size (frame?_of_local? hv)
  simp [holder, nearest?, hsize, binder?, h]

theorem holder_globals (hglobals : (s.frame? globals).isSome = true)
    (houtermost : s.enclosing? globals = none) (name : String) :
    s.holder globals name =
      if (s.local? globals name).isSome then .ok globals else .error (.undefinedVariable name) := by
  obtain ⟨more, hsize⟩ := exists_size hglobals
  simp only [holder, nearest?, hsize, binder?, houtermost]
  by_cases h : (s.local? globals name).isSome = true <;> simp [h]

theorem ne_size_of_frame? {frame : FrameId} (h : (s.frame? frame).isSome = true) :
    frame ≠ ⟨s.frames.size⟩ := by
  rintro rfl
  simp [frame?] at h

theorem Grows.frame?_isSome {s' : Store} (h : s.Grows s') {frame : FrameId}
    (hf : (s.frame? frame).isSome = true) : (s'.frame? frame).isSome = true := by
  obtain ⟨f, hf⟩ := Option.isSome_iff_exists.mp hf
  obtain ⟨f', hf', -⟩ := h.frames frame f hf
  simp [hf']

theorem Grows.local?_isSome {s' : Store} (h : s.Grows s') {frame : FrameId} {name : String}
    (hlocal : (s.local? frame name).isSome = true) : (s'.local? frame name).isSome = true := by
  unfold local? at hlocal ⊢
  split at hlocal
  · rename_i f hf
    obtain ⟨f', hf', hg⟩ := h.frames frame f hf
    simpa [hf'] using hg.bound name hlocal
  · simp at hlocal

theorem Grows.enclosing? {s' : Store} (h : s.Grows s') {frame outer : FrameId}
    (henclosing : s.enclosing? frame = some outer) : s'.enclosing? frame = some outer := by
  unfold Store.enclosing? at henclosing ⊢
  split at henclosing
  · rename_i f hf
    obtain ⟨f', hf', hg⟩ := h.frames frame f hf
    simpa [hf', hg.enclosing] using henclosing
  · cases henclosing

theorem Grows.outermost {s' : Store} (h : s.Grows s') {frame : FrameId}
    (hframe : (s.frame? frame).isSome = true) (houtermost : s.enclosing? frame = none) :
    s'.enclosing? frame = none := by
  obtain ⟨f, hf⟩ := Option.isSome_iff_exists.mp hframe
  obtain ⟨f', hf', hg⟩ := h.frames frame f hf
  simp only [Store.enclosing?, hf, hf', hg.enclosing] at houtermost ⊢
  exact houtermost

/-- The second store is a later one: it has grown, and nothing that `this` or `super` is bound to has
changed. -/
structure Extends (s s' : Store) : Prop where
  grows : s.Grows s'
  reserved : ∀ frame name value, isReserved name → s.local? frame name = some value →
    s'.local? frame name = some value

namespace Extends

variable {s₁ s' : Store}

theorem refl (s : Store) : s.Extends s := ⟨.refl s, fun _ _ _ _ h => h⟩

theorem trans (h : s.Extends s₁) (h' : s₁.Extends s') : s.Extends s' :=
  ⟨h.grows.trans h'.grows,
    fun frame name value hname hv => h'.reserved frame name value hname (h.reserved frame name value hname hv)⟩

theorem of_frames (h : s.Grows s') (hframes : s'.frames = s.frames) : s.Extends s' := by
  refine ⟨h, fun frame name value _ hv => ?_⟩
  have hframe (id : FrameId) : s'.frame? id = s.frame? id := by simp [frame?, hframes]
  simpa [local?, hframe] using hv

theorem this (h : s.Extends s') {frame : FrameId} {value : Value}
    (hv : s.local? frame "this" = some value) : s'.local? frame "this" = some value :=
  h.reserved frame "this" value (.inl rfl) hv

theorem super (h : s.Extends s') {frame : FrameId} {value : Value}
    (hv : s.local? frame "super" = some value) : s'.local? frame "super" = some value :=
  h.reserved frame "super" value (.inr rfl) hv

end Extends

theorem extends_addFrame (s : Store) (enclosing : Option FrameId) :
    s.Extends (s.addFrame enclosing).2 :=
  ⟨s.grows_addFrame enclosing, fun frame name value _ hv => by rw [local?_addFrame, hv]⟩

theorem extends_addFunction (s : Store) (f : Function) : s.Extends (s.addFunction f).2 :=
  .of_frames (s.grows_addFunction f) rfl

theorem extends_addClass (s : Store) (c : Class) : s.Extends (s.addClass c).2 :=
  .of_frames (s.grows_addClass c) rfl

theorem extends_addObject (s : Store) (o : Object) : s.Extends (s.addObject o).2 :=
  .of_frames (s.grows_addObject o) rfl

theorem extends_modifyObject (s : Store) (object : ObjectId) {g : Object → Object}
    (hg : ∀ o, (g o).classId = o.classId) : s.Extends (s.modifyObject object g) :=
  .of_frames (s.grows_modifyObject object hg) rfl

theorem extends_bind (s : Store) (frame : FrameId) (name : String) (value : Value)
    (h : isReserved name → s.local? frame name = none) : s.Extends (s.bind frame name value) := by
  refine ⟨s.grows_bind frame name value, fun id other v hother hv => ?_⟩
  rw [local?_bind, if_neg]
  · exact hv
  · rintro ⟨rfl, rfl, -⟩
    rw [h hother] at hv
    cases hv

theorem local?_size (s : Store) (name : String) : s.local? ⟨s.frames.size⟩ name = none := by
  simp [local?, frame?]

theorem extends_addFrame_bind (s : Store) (enclosing : Option FrameId) (name : String)
    (value : Value) :
    s.Extends ((s.addFrame enclosing).2.bind ⟨s.frames.size⟩ name value) := by
  refine (extends_addFrame s enclosing).trans (extends_bind _ _ _ _ fun _ => ?_)
  rw [local?_addFrame, local?_size]

theorem extends_bindMethod (s : Store) (method : FunctionId) (object : ObjectId) :
    s.Extends (s.bindMethod method object).2 := by
  cases hf : s.function? method with
  | none => simpa [bindMethod, hf] using Extends.refl s
  | some f =>
    rw [bindMethod_eq hf]
    exact (extends_addFrame_bind s _ _ _).trans (extends_addFunction _ _)

theorem extends_bindAll (s : Store) (frame : FrameId) (entries : List (Token × Value))
    (h : ∀ entry ∈ entries, ¬ isReserved entry.1.lexeme) :
    s.Extends (entries.foldl (fun s entry => s.bind frame entry.1.lexeme entry.2) s) := by
  induction entries generalizing s with
  | nil => exact .refl s
  | cons entry rest ih =>
    have hfirst := extends_bind s frame entry.1.lexeme entry.2 fun hname =>
      absurd hname (h entry List.mem_cons_self)
    exact hfirst.trans (ih _ fun e he => h e (List.mem_cons_of_mem _ he))

/-- The environments from one on outwards, up to the global one. -/
def Chain (s : Store) : FrameId → List FrameId → Prop
  | cursor, [] => cursor = globals
  | cursor, frame :: outer =>
    cursor = frame ∧ ∃ enclosing, s.enclosing? frame = some enclosing ∧ s.Chain enclosing outer

theorem Chain.extend {s' : Store} (h : s.Extends s') {cursor : FrameId} {trail : List FrameId}
    (hchain : s.Chain cursor trail) : s'.Chain cursor trail := by
  induction trail generalizing cursor with
  | nil => exact hchain
  | cons frame outer ih =>
    obtain ⟨rfl, enclosing, henclosing, houter⟩ := hchain
    exact ⟨rfl, enclosing, h.grows.enclosing? henclosing, ih houter⟩

theorem Chain.ancestor? {cursor frame : FrameId} {trail : List FrameId} {d : Nat}
    (h : s.Chain cursor trail) (hframe : trail[d]? = some frame) :
    s.ancestor? d cursor = some frame := by
  induction trail generalizing cursor d with
  | nil => simp at hframe
  | cons first outer ih =>
    obtain ⟨rfl, enclosing, henclosing, houter⟩ := h
    cases d with
    | zero => simpa [Store.ancestor?] using hframe
    | succ d =>
      rw [Store.ancestor?, henclosing]
      exact ih houter (by simpa using hframe)

theorem Chain.frame? {cursor : FrameId} {trail : List FrameId}
    (hglobals : (s.frame? globals).isSome = true) (h : s.Chain cursor trail) :
    (s.frame? cursor).isSome = true := by
  cases trail with
  | nil =>
    obtain rfl := h
    exact hglobals
  | cons frame outer =>
    obtain ⟨rfl, enclosing, henclosing, -⟩ := h
    exact frame?_of_enclosing? henclosing

inductive Descends (s : Store) : ClassId → ClassId → Prop
  | self (C : ClassId) : Descends s C C
  | up {A B C : ClassId} {c : Class} :
    s.class? A = some c → c.superclass = some B → Descends s B C → Descends s A C

theorem Descends.extend {s' : Store} (h : s.Extends s') {A C : ClassId} (hd : s.Descends A C) :
    s'.Descends A C := by
  induction hd with
  | self C => exact .self C
  | up hc hB _ ih => exact .up (h.grows.classes _ _ hc) hB ih

theorem Descends.trans {A B C : ClassId} (h : s.Descends A B) (h' : s.Descends B C) :
    s.Descends A C := by
  induction h with
  | self => exact h'
  | up hc hB _ ih => exact .up hc hB (ih h')

theorem descends_of_method? {C : ClassId} {name : String} {method : FunctionId}
    (h : s.method? C name = some method) :
    ∃ D d, s.Descends C D ∧ s.class? D = some d ∧ d.methods.get? name = some method := by
  unfold method? at h
  generalize s.classes.size = bound at h
  induction bound generalizing C with
  | zero => cases h
  | succ bound ih =>
    rw [methodAmong?] at h
    split at h
    · cases h
    · rename_i c hc
      split at h
      · rename_i hmethod
        cases h
        exact ⟨C, c, .self C, hc, hmethod⟩
      · split at h
        · rename_i B hB
          obtain ⟨D, d, hdescends, hd, hmethod⟩ := ih h
          exact ⟨D, d, .up hc hB hdescends, hd, hmethod⟩
        · cases h

/-- Which method a class has depends on the classes only. -/
theorem method?_of_classes {s s' : Store} (h : s'.classes = s.classes) (C : ClassId) (name : String) :
    s'.method? C name = s.method? C name := by
  have hclass : ∀ C, s'.class? C = s.class? C := by simp [class?, h]
  have hamong : ∀ bound C, s'.methodAmong? name bound C = s.methodAmong? name bound C := by
    intro bound
    induction bound with
    | zero => exact fun _ => rfl
    | succ bound ih =>
      intro C
      simp only [methodAmong?, hclass, ih]
  unfold method?
  rw [h, hamong]

theorem methodOf?_of_classes {s s' : Store} (h : s'.classes = s.classes) (hobjects : s'.objects = s.objects)
    (object : ObjectId) (name : String) : s'.methodOf? object name = s.methodOf? object name := by
  have hclass : s'.classOf? object = s.classOf? object := by simp [classOf?, object?, hobjects]
  simp only [methodOf?, hclass, method?_of_classes h]

theorem classArity_addObject (s : Store) (o : Object) (C : ClassId) :
    (s.addObject o).2.classArity C = s.classArity C := by
  have hclasses : (s.addObject o).2.classes = s.classes := rfl
  have hsame := method?_of_classes hclasses C initializerName
  simp only [classArity, hsame]
  rfl

inductive Rooted (s : Store) : ClassId → Prop
  | base {C : ClassId} {c : Class} : s.class? C = some c → c.superclass = none → Rooted s C
  | derived {C B : ClassId} {c : Class} :
    s.class? C = some c → c.superclass = some B → Rooted s B → Rooted s C

/-- Classes that are younger than their superclasses form chains that end. -/
theorem rooted_of_older
    (h : ∀ C c B, s.class? C = some c → c.superclass = some B → B.index < C.index) {C : ClassId}
    {c : Class} (hc : s.class? C = some c) : s.Rooted C := by
  induction hindex : C.index using Nat.strong_induction_on generalizing C c with
  | _ index ih =>
    cases hB : c.superclass with
    | none => exact .base hc hB
    | some B =>
      have hlt := h C c B hc hB
      have hsize : C.index < s.classes.size := by
        have hsome : s.classes[C.index]? = some c := hc
        exact (Array.getElem?_eq_some_iff.mp hsome).1
      have hbase : B.index < s.classes.size := Nat.lt_trans hlt hsize
      obtain ⟨b, hb⟩ : ∃ b, s.class? B = some b := ⟨s.classes[B.index], by simp [class?, hbase]⟩
      exact .derived hc hB (ih B.index (hindex ▸ hlt) hb rfl)

end Store

end LoxLang
