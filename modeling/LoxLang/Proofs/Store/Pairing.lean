import LoxLang.Proofs.Scope.Shifting
import LoxLang.Proofs.Store.Holding

/-!
Two stores that differ in the environments that braces make.

Every environment of the first store has one in the second with the same bindings. The chains of enclosing
environments differ: in the second store they go through further environments, which the first one does
not have. Classes and objects are the same, and functions that stand in the same place have the same code
but for braces, the hop counts shifted as the chain around their closure demands.
-/

set_option autoImplicit false

namespace LoxLang

/-- Two stores, with the environment of the second one for each of the first. -/
structure StorePair where
  first : Store
  second : Store
  frame : FrameId → FrameId

inductive Except.Agree {ε α β : Type} (R : α → β → Prop) : Except ε α → Except ε β → Prop
  | ok {v : α} {v' : β} : R v v' → Except.Agree R (.ok v) (.ok v')
  | error (cause : ε) : Except.Agree R (.error cause) (.error cause)

namespace StorePair

variable {W W₁ W₂ : StorePair} {a b : FrameId} {K : Layers}

def Joined (W : StorePair) (a b : FrameId) : Prop :=
  (W.first.frame? a).isSome = true ∧ b = W.frame a

/-- From the two environments on outwards, those of shared layers are joined, and the second store has
one more for each layer that is added. -/
def Linked (W : StorePair) : Layers → FrameId → FrameId → Prop
  | .top, a, b => a = Store.globals ∧ b = Store.globals
  | .shared K, a, b => b = W.frame a ∧ ∃ a' b', W.first.enclosing? a = some a' ∧
      W.second.enclosing? b = some b' ∧ W.Linked K a' b'
  | .added K, a, b => ∃ b', W.second.enclosing? b = some b' ∧ W.Linked K a b'

/-- What does not depend on the code in the stores. -/
structure Aligned (W : StorePair) : Prop where
  there : ∀ a, (W.first.frame? a).isSome = true → (W.second.frame? (W.frame a)).isSome = true
  bindings : ∀ a name, (W.first.frame? a).isSome = true →
    W.second.local? (W.frame a) name = W.first.local? a name
  distinct : ∀ a b, (W.first.frame? a).isSome = true → (W.first.frame? b).isSome = true →
    W.frame a = W.frame b → a = b
  globals : W.Joined Store.globals Store.globals
  outermost : W.first.enclosing? Store.globals = none
  outermost' : W.second.enclosing? Store.globals = none
  functions : W.second.functions.size = W.first.functions.size
  classes : W.second.classes = W.first.classes
  objects : W.second.objects = W.first.objects

structure Grows (W W₁ : StorePair) : Prop where
  first : W.first.Grows W₁.first
  second : W.second.Grows W₁.second
  frame : ∀ a, (W.first.frame? a).isSome = true → W₁.frame a = W.frame a

theorem Grows.refl (W : StorePair) : W.Grows W := ⟨.refl _, .refl _, fun _ _ => rfl⟩

theorem Grows.trans (h : W.Grows W₁) (h' : W₁.Grows W₂) : W.Grows W₂ :=
  ⟨h.first.trans h'.first, h.second.trans h'.second, fun a ha =>
    (h'.frame a (h.first.frame?_isSome ha)).trans (h.frame a ha)⟩

theorem Joined.mono (hg : W.Grows W₁) (h : W.Joined a b) : W₁.Joined a b :=
  ⟨hg.first.frame?_isSome h.1, h.2.trans (hg.frame a h.1).symm⟩

theorem Linked.mono (hg : W.Grows W₁) (h : W.Linked K a b) : W₁.Linked K a b := by
  induction K generalizing a b with
  | top => exact h
  | shared K ih =>
    obtain ⟨rfl, a', b', ha, hb, h⟩ := h
    exact ⟨(hg.frame a (Store.frame?_of_enclosing? ha)).symm, a', b', hg.first.enclosing? ha,
      hg.second.enclosing? hb, ih h⟩
  | added K ih =>
    obtain ⟨b', hb, h⟩ := h
    exact ⟨b', hg.second.enclosing? hb, ih h⟩

namespace Aligned

theorem local?_eq (h : W.Aligned) (hab : W.Joined a b) (name : String) :
    W.second.local? b name = W.first.local? a name := by
  obtain ⟨ha, rfl⟩ := hab
  exact h.bindings a name ha

theorem joined (h : W.Aligned) (hopen : K.Open) (hab : W.Linked K a b) : W.Joined a b := by
  cases K with
  | top =>
    obtain ⟨rfl, rfl⟩ := hab
    exact h.globals
  | shared K =>
    obtain ⟨rfl, a', b', ha, -, -⟩ := hab
    exact ⟨Store.frame?_of_enclosing? ha, rfl⟩
  | added K => exact absurd hopen id

theorem ancestor? (h : W.Aligned) (hab : W.Linked K a b) {d : Nat} (hd : d < K.depth) :
    ∃ c c', W.first.ancestor? d a = some c ∧ W.second.ancestor? (K.shift d) b = some c' ∧
      W.Joined c c' := by
  induction K generalizing a b d with
  | top => exact absurd hd (Nat.not_lt_zero d)
  | shared K ih =>
    cases d with
    | zero => exact ⟨a, b, rfl, rfl, h.joined (Layers.open_shared K) hab⟩
    | succ d =>
      obtain ⟨-, a', b', ha, hb, hab⟩ := hab
      obtain ⟨c, c', hc, hc', hjoined⟩ := ih hab (Nat.lt_of_succ_lt_succ hd)
      refine ⟨c, c', ?_, ?_, hjoined⟩
      · rw [Store.ancestor?, ha]
        exact hc
      · rw [Layers.shift, Store.ancestor?, hb]
        exact hc'
  | added K ih =>
    obtain ⟨b', hb, hab⟩ := hab
    obtain ⟨c, c', hc, hc', hjoined⟩ := ih hab hd
    refine ⟨c, c', hc, ?_, hjoined⟩
    rw [Layers.shift, Store.ancestor?, hb]
    exact hc'

theorem holderAt (h : W.Aligned) (hab : W.Linked K a b) {d : Nat} (hd : d < K.depth) (name : String) :
    Except.Agree W.Joined (W.first.holderAt a d name) (W.second.holderAt b (K.shift d) name) := by
  obtain ⟨c, c', hc, hc', hjoined⟩ := h.ancestor? hab hd
  simp only [Store.holderAt, hc, hc', h.local?_eq hjoined]
  split
  · exact .ok hjoined
  · exact .error _

theorem holder (h : W.Aligned) (name : String) :
    Except.Agree W.Joined (W.first.holder Store.globals name) (W.second.holder Store.globals name) := by
  obtain ⟨hthere, hsame⟩ := h.globals
  have hthere' := h.there _ hthere
  rw [← hsame] at hthere'
  rw [Store.holder_globals hthere h.outermost, Store.holder_globals hthere' h.outermost', h.local?_eq h.globals]
  split
  · exact .ok h.globals
  · exact .error _

theorem read (h : W.Aligned) (name : String) {x y : Except RuntimeError FrameId}
    (hxy : Except.Agree W.Joined x y) : W.second.read name y = W.first.read name x := by
  cases hxy with
  | ok hjoined => simp only [Store.read, h.local?_eq hjoined]
  | error cause => rfl

theorem lookupAt (h : W.Aligned) (hab : W.Linked K a b) {d : Nat} (hd : d < K.depth) (name : String) :
    W.second.lookupAt b (K.shift d) name = W.first.lookupAt a d name :=
  h.read name (h.holderAt hab hd name)

theorem lookup (h : W.Aligned) (name : String) :
    W.second.lookup Store.globals name = W.first.lookup Store.globals name :=
  h.read name (h.holder name)

theorem property (h : W.Aligned) (object : ObjectId) (name : String) :
    W.second.property object name = W.first.property object name := by
  have hobject : W.second.object? object = W.first.object? object := by
    simp only [Store.object?, h.objects]
  simp only [Store.property, hobject, Store.methodOf?_of_classes h.classes h.objects]

theorem elements (h : W.Aligned) (object : ObjectId) :
    W.second.elements object = W.first.elements object := by
  simp only [Store.elements, Store.object?, h.objects]

end Aligned

variable {T : Tables}

/-- The same code but for braces, in closures that the change of layers is between. -/
inductive SameCode (T : Tables) (W : StorePair) (change : Layers → Layers) : Function → Function → Prop
  | array {method : ArrayMethod} {closure closure' : FrameId} {initializes : Bool} :
    SameCode T W change ⟨.array method, closure, initializes⟩ ⟨.array method, closure', initializes⟩
  | declared {d d' : Declaration} {K : Layers} {closure closure' : FrameId} {initializes : Bool} :
    W.Linked K closure closure' → d.Shifts T (change K) d' →
    SameCode T W change ⟨.declared d, closure, initializes⟩ ⟨.declared d', closure', initializes⟩

def Ready (T : Tables) (W : StorePair) (id : FunctionId) : Prop :=
  ∃ f f', W.first.function? id = some f ∧ W.second.function? id = some f' ∧
    SameCode T W (fun K => K) f f' ∧ W.Joined f.closure f'.closure

def Unbound (T : Tables) (W : StorePair) (id : FunctionId) : Prop :=
  ∃ f f', W.first.function? id = some f ∧ W.second.function? id = some f' ∧
    SameCode T W Layers.shared f f'

def Fits (T : Tables) (W : StorePair) : Value → Prop
  | .function id => W.Ready T id
  | .nil | .boolean _ | .number _ | .string _ | .native _ | .classValue _ | .object _ => True

/-- The relation of the stores that running keeps. -/
structure Sound (T : Tables) (W : StorePair) : Prop extends Aligned W where
  held : ∀ v, W.first.Holds v → W.Fits T v
  methods : ∀ C c name id, W.first.class? C = some c → c.methods.get? name = some id → W.Unbound T id

theorem SameCode.mono {change : Layers → Layers} {f f' : Function} (hg : W.Grows W₁)
    (h : SameCode T W change f f') : SameCode T W₁ change f f' := by
  cases h with
  | array => exact .array
  | declared hlinked hd => exact .declared (hlinked.mono hg) hd

theorem Ready.mono {id : FunctionId} (hg : W.Grows W₁) (h : W.Ready T id) : W₁.Ready T id := by
  obtain ⟨f, f', hf, hf', hcode, hjoined⟩ := h
  exact ⟨f, f', hg.first.functions id f hf, hg.second.functions id f' hf', hcode.mono hg,
    hjoined.mono hg⟩

theorem Unbound.mono {id : FunctionId} (hg : W.Grows W₁) (h : W.Unbound T id) : W₁.Unbound T id := by
  obtain ⟨f, f', hf, hf', hcode⟩ := h
  exact ⟨f, f', hg.first.functions id f hf, hg.second.functions id f' hf', hcode.mono hg⟩

theorem Fits.mono {v : Value} (hg : W.Grows W₁) (h : W.Fits T v) : W₁.Fits T v := by
  cases v with
  | function id => exact Ready.mono hg h
  | _ => trivial

theorem SameCode.name {change : Layers → Layers} {f f' : Function} (h : SameCode T W change f f') :
    f'.name = f.name := by
  cases h with
  | array => rfl
  | declared _ hd =>
    cases hd
    rfl

theorem SameCode.arity {change : Layers → Layers} {f f' : Function} (h : SameCode T W change f f') :
    f'.arity = f.arity := by
  cases h with
  | array => rfl
  | declared _ hd =>
    cases hd
    rfl

theorem Ready.functionArity {id : FunctionId} (h : W.Ready T id) :
    W.second.functionArity id = W.first.functionArity id := by
  obtain ⟨f, f', hf, hf', hcode, -⟩ := h
  simp only [Store.functionArity, hf, hf', hcode.arity]

theorem Unbound.functionArity {id : FunctionId} (h : W.Unbound T id) :
    W.second.functionArity id = W.first.functionArity id := by
  obtain ⟨f, f', hf, hf', hcode⟩ := h
  simp only [Store.functionArity, hf, hf', hcode.arity]

namespace Sound

theorem unbound_of_method? (h : W.Sound T) {C : ClassId} {name : String} {id : FunctionId}
    (hid : W.first.method? C name = some id) : W.Unbound T id := by
  obtain ⟨D, d, -, hd, hmethod⟩ := Store.descends_of_method? hid
  exact h.methods D d name id hd hmethod

theorem unbound_of_methodOf? (h : W.Sound T) {object : ObjectId} {name : String} {id : FunctionId}
    (hid : W.first.methodOf? object name = some id) : W.Unbound T id := by
  unfold Store.methodOf? at hid
  split at hid
  · exact h.unbound_of_method? hid
  · cases hid

theorem unbound_of_property (h : W.Sound T) {object : ObjectId} {name : String} {id : FunctionId}
    (hid : W.first.property object name = .ok (.method id)) : W.Unbound T id := by
  unfold Store.property at hid
  split at hid
  · cases hid
  · split at hid
    · cases hid
      exact h.unbound_of_methodOf? ‹_›
    · cases hid

theorem classArity (h : W.Sound T) (C : ClassId) : W.second.classArity C = W.first.classArity C := by
  simp only [Store.classArity, Store.method?_of_classes h.classes]
  cases hid : W.first.method? C initializerName with
  | none => rfl
  | some id => exact (h.unbound_of_method? hid).functionArity

theorem text (h : W.Sound T) {v : Value} (hv : W.Fits T v) : W.second.text v = W.first.text v := by
  have hclass : ∀ C, W.second.className C = W.first.className C := fun C => by
    simp only [Store.className, Store.class?, h.classes]
  cases v with
  | function id =>
    obtain ⟨f, f', hf, hf', hcode, -⟩ := hv
    simp only [Store.text, Store.functionName, hf, hf', hcode.name]
  | object id => simp only [Store.text, Store.object?, h.objects, hclass]
  | classValue C => exact hclass C
  | boolean b => cases b <;> rfl
  | _ => rfl

end Sound

def bind (W : StorePair) (a b : FrameId) (name : String) (value : Value) : StorePair :=
  ⟨W.first.bind a name value, W.second.bind b name value, W.frame⟩

def addFrames (W : StorePair) (a b : FrameId) : StorePair :=
  ⟨(W.first.addFrame (some a)).2, (W.second.addFrame (some b)).2,
    Function.update W.frame ⟨W.first.frames.size⟩ ⟨W.second.frames.size⟩⟩

def addBraces (W : StorePair) (b : FrameId) : StorePair :=
  ⟨W.first, (W.second.addFrame (some b)).2, W.frame⟩

def addFunctions (W : StorePair) (f f' : Function) : StorePair :=
  ⟨(W.first.addFunction f).2, (W.second.addFunction f').2, W.frame⟩

def change (W : StorePair) (g : Store → Store) : StorePair := ⟨g W.first, g W.second, W.frame⟩

theorem frame_addFrames {c : FrameId} (hc : (W.first.frame? c).isSome = true) :
    (W.addFrames a b).frame c = W.frame c :=
  Function.update_of_ne (Store.ne_size_of_frame? hc) _ _

theorem frame_size (W : StorePair) (a b : FrameId) :
    (W.addFrames a b).frame ⟨W.first.frames.size⟩ = ⟨W.second.frames.size⟩ :=
  Function.update_self _ _ _

theorem grows_bind (name : String) (value : Value) : W.Grows (W.bind a b name value) :=
  ⟨W.first.grows_bind a name value, W.second.grows_bind b name value, fun _ _ => rfl⟩

theorem grows_addFrames (W : StorePair) (a b : FrameId) : W.Grows (W.addFrames a b) :=
  ⟨W.first.grows_addFrame _, W.second.grows_addFrame _, fun _ hc => frame_addFrames hc⟩

theorem grows_addBraces (W : StorePair) (b : FrameId) : W.Grows (W.addBraces b) :=
  ⟨.refl _, W.second.grows_addFrame _, fun _ _ => rfl⟩

theorem grows_addFunctions (W : StorePair) (f f' : Function) : W.Grows (W.addFunctions f f') :=
  ⟨W.first.grows_addFunction f, W.second.grows_addFunction f', fun _ _ => rfl⟩

theorem Linked.addFrames (h : W.Linked K a b) :
    (W.addFrames a b).Linked K.shared ⟨W.first.frames.size⟩ ⟨W.second.frames.size⟩ := by
  refine ⟨(W.frame_size a b).symm, a, b, ?_, ?_, h.mono (W.grows_addFrames a b)⟩
  · exact (Store.enclosing?_addFrame _ _ _).trans (if_pos rfl)
  · exact (Store.enclosing?_addFrame _ _ _).trans (if_pos rfl)

theorem Linked.addBraces (h : W.Linked K a b) :
    (W.addBraces b).Linked K.added a ⟨W.second.frames.size⟩ :=
  ⟨b, (Store.enclosing?_addFrame _ _ _).trans (if_pos rfl), h.mono (W.grows_addBraces b)⟩

theorem frame?_size (s : Store) (enclosing : Option FrameId) :
    ((s.addFrame enclosing).2.frame? ⟨s.frames.size⟩).isSome = true := by
  rw [Store.frame?_addFrame, if_pos rfl]
  rfl

theorem joined_addFrames (W : StorePair) (a b : FrameId) :
    (W.addFrames a b).Joined ⟨W.first.frames.size⟩ ⟨W.second.frames.size⟩ :=
  ⟨frame?_size _ _, (W.frame_size a b).symm⟩

namespace Aligned

theorem there_of_joined (h : W.Aligned) (hab : W.Joined a b) : (W.second.frame? b).isSome = true :=
  hab.2 ▸ h.there a hab.1

theorem bind (h : W.Aligned) (hab : W.Joined a b) (name : String) (value : Value) :
    (W.bind a b name value).Aligned := by
  have hframe (s : Store) (c d : FrameId) :
      ((s.bind c name value).frame? d).isSome = (s.frame? d).isSome := by
    rw [Store.frame?_bind, Option.isSome_map]
  refine ⟨fun c hc => ?_, fun c other hc => ?_, fun c d hc hd => ?_, ?_, ?_, ?_, h.functions, h.classes,
    h.objects⟩
  · exact (hframe _ _ _).trans (h.there c ((hframe _ _ _).symm.trans hc))
  · have hc : (W.first.frame? c).isSome = true := (hframe _ _ _).symm.trans hc
    have hsame : W.frame c = b ↔ c = a := by
      rw [hab.2]
      exact ⟨h.distinct c a hc hab.1, fun heq => heq ▸ rfl⟩
    change (W.second.bind b name value).local? (W.frame c) other =
      (W.first.bind a name value).local? c other
    rw [Store.local?_bind, Store.local?_bind, h.bindings c other hc, h.there_of_joined hab, hab.1]
    simp only [hsame]
  · exact h.distinct c d ((hframe _ _ _).symm.trans hc) ((hframe _ _ _).symm.trans hd)
  · exact h.globals.mono (grows_bind name value)
  · exact (Store.enclosing?_bind _ _ _ _ _).trans h.outermost
  · exact (Store.enclosing?_bind _ _ _ _ _).trans h.outermost'

theorem addFrames (h : W.Aligned) (a b : FrameId) : (W.addFrames a b).Aligned := by
  have hnew : ∀ c, ((W.first.addFrame (some a)).2.frame? c).isSome = true →
      c = ⟨W.first.frames.size⟩ ∨ (W.first.frame? c).isSome = true := by
    intro c hc
    rw [Store.frame?_addFrame] at hc
    split at hc
    · exact .inl ‹_›
    · exact .inr hc
  have hold : ∀ c, (W.first.frame? c).isSome = true → W.frame c ≠ ⟨W.second.frames.size⟩ :=
    fun c hc => Store.ne_size_of_frame? (h.there c hc)
  have hself := W.frame_size a b
  have hglobals : Store.globals ≠ ⟨W.first.frames.size⟩ := Store.ne_size_of_frame? h.globals.1
  have hglobals' : Store.globals ≠ ⟨W.second.frames.size⟩ :=
    Store.ne_size_of_frame? (h.there_of_joined h.globals)
  refine ⟨fun c hc => ?_, fun c name hc => ?_, fun c d hc hd heq => ?_, ?_, ?_, ?_, h.functions, h.classes,
    h.objects⟩
  · rcases hnew c hc with rfl | hc
    · rw [hself]
      exact frame?_size _ _
    · rw [frame_addFrames hc]
      exact (W.second.grows_addFrame _).frame?_isSome (h.there c hc)
  · change (W.second.addFrame (some b)).2.local? _ name = (W.first.addFrame (some a)).2.local? c name
    rw [Store.local?_addFrame, Store.local?_addFrame]
    rcases hnew c hc with rfl | hc
    · rw [hself, Store.local?_size, Store.local?_size]
    · rw [frame_addFrames hc, h.bindings c name hc]
  · rcases hnew c hc with rfl | hc <;> rcases hnew d hd with rfl | hd
    · rfl
    · rw [hself, frame_addFrames hd] at heq
      exact absurd heq.symm (hold d hd)
    · rw [hself, frame_addFrames hc] at heq
      exact absurd heq (hold c hc)
    · rw [frame_addFrames hc, frame_addFrames hd] at heq
      exact h.distinct c d hc hd heq
  · exact h.globals.mono (W.grows_addFrames a b)
  · exact ((Store.enclosing?_addFrame _ _ _).trans (if_neg hglobals)).trans h.outermost
  · exact ((Store.enclosing?_addFrame _ _ _).trans (if_neg hglobals')).trans h.outermost'

theorem addBraces (h : W.Aligned) (b : FrameId) : (W.addBraces b).Aligned := by
  have hglobals : Store.globals ≠ ⟨W.second.frames.size⟩ :=
    Store.ne_size_of_frame? (h.there_of_joined h.globals)
  exact
    { there := fun c hc => (W.second.grows_addFrame _).frame?_isSome (h.there c hc)
      bindings := fun c name hc => (Store.local?_addFrame _ _ _ _).trans (h.bindings c name hc)
      distinct := h.distinct
      globals := h.globals
      outermost := h.outermost
      outermost' := ((Store.enclosing?_addFrame _ _ _).trans (if_neg hglobals)).trans h.outermost'
      functions := h.functions
      classes := h.classes
      objects := h.objects }

theorem addFunctions (h : W.Aligned) (f f' : Function) : (W.addFunctions f f').Aligned :=
  { h with
    there := h.there
    bindings := h.bindings
    functions := by simp [StorePair.addFunctions, Store.addFunction, h.functions] }

end Aligned

namespace Sound

/-- The stores stay in relation if what they gain fits. -/
theorem step (h : W.Sound T) (hg : W.Grows W₁) (haligned : W₁.Aligned)
    (hheld : ∀ v, W₁.first.Holds v → W.first.Holds v ∨ W₁.Fits T v)
    (hmethods : ∀ C c, W₁.first.class? C = some c → W.first.class? C = some c ∨
      ∀ name id, c.methods.get? name = some id → W₁.Unbound T id) : W₁.Sound T := by
  refine ⟨haligned, fun v hv => ?_, fun C c name id hc hid => ?_⟩
  · rcases hheld v hv with hv | hv
    · exact (h.held v hv).mono hg
    · exact hv
  · rcases hmethods C c hc with hc | hnew
    · exact (h.methods C c name id hc hid).mono hg
    · exact hnew name id hid

theorem bind (h : W.Sound T) (hab : W.Joined a b) (name : String) {value : Value}
    (hvalue : W.Fits T value) : (W.bind a b name value).Sound T := by
  refine h.step (grows_bind name value) (h.toAligned.bind hab name value) (fun v hv => ?_)
    fun _ _ hc => .inl hc
  rcases hv.of_bind with hv | rfl
  · exact .inl hv
  · exact .inr (hvalue.mono (grows_bind name v))

theorem addFrames (h : W.Sound T) (a b : FrameId) : (W.addFrames a b).Sound T :=
  h.step (W.grows_addFrames a b) (h.toAligned.addFrames a b) (fun _ hv => .inl hv.of_addFrame)
    fun _ _ hc => .inl hc

theorem addBraces (h : W.Sound T) (b : FrameId) : (W.addBraces b).Sound T :=
  h.step (W.grows_addBraces b) (h.toAligned.addBraces b) (fun _ hv => .inl hv) fun _ _ hc => .inl hc

theorem addFunctions (h : W.Sound T) (f f' : Function) : (W.addFunctions f f').Sound T :=
  h.step (W.grows_addFunctions f f') (h.toAligned.addFunctions f f')
    (fun _ hv => .inl hv.of_addFunction) fun _ _ hc => .inl hc

theorem added (h : W.Sound T) (f f' : Function) :
    (W.addFunctions f f').first.function? ⟨W.first.functions.size⟩ = some f ∧
      (W.addFunctions f f').second.function? ⟨W.first.functions.size⟩ = some f' := by
  refine ⟨(Store.function?_addFunction _ _ _).trans (if_pos rfl), ?_⟩
  exact (Store.function?_addFunction _ _ _).trans (if_pos (by rw [h.functions]))

theorem addClass (h : W.Sound T) {c : Class}
    (hc : ∀ name id, c.methods.get? name = some id → W.Unbound T id) :
    (W.change fun s => (s.addClass c).2).Sound T := by
  have hg : W.Grows (W.change fun s => (s.addClass c).2) :=
    ⟨W.first.grows_addClass c, W.second.grows_addClass c, fun _ _ => rfl⟩
  have haligned : (W.change fun s => (s.addClass c).2).Aligned :=
    { h.toAligned with
      there := h.there
      bindings := h.bindings
      classes := by simp [change, Store.addClass, h.classes] }
  refine h.step hg haligned (fun _ hv => .inl hv.of_addClass) fun C d hd => ?_
  change (W.first.addClass c).2.class? C = some d at hd
  rw [Store.class?_addClass] at hd
  split at hd
  · cases hd
    exact .inr fun name id hid => (hc name id hid).mono hg
  · exact .inl hd

theorem addObject (h : W.Sound T) (C : ClassId) :
    (W.change fun s => (s.addObject ⟨C, ∅, #[]⟩).2).Sound T := by
  have hg : W.Grows (W.change fun s => (s.addObject ⟨C, ∅, #[]⟩).2) :=
    ⟨W.first.grows_addObject _, W.second.grows_addObject _, fun _ _ => rfl⟩
  have haligned : (W.change fun s => (s.addObject ⟨C, ∅, #[]⟩).2).Aligned :=
    { h.toAligned with
      there := h.there
      bindings := h.bindings
      objects := by simp [change, Store.addObject, h.objects] }
  exact h.step hg haligned (fun _ hv => .inl hv.of_addObject) fun _ _ hc => .inl hc

theorem modifyObject (h : W.Sound T) (object : ObjectId) {g : Object → Object}
    (hclass : ∀ o, (g o).classId = o.classId)
    (hholds : ∀ o, W.first.object? object = some o → ∀ v, (g o).Holds v →
      W.first.Holds v ∨ W.Fits T v) :
    (W.change fun s => s.modifyObject object g).Sound T := by
  have hg : W.Grows (W.change fun s => s.modifyObject object g) :=
    ⟨W.first.grows_modifyObject object hclass, W.second.grows_modifyObject object hclass, fun _ _ => rfl⟩
  have haligned : (W.change fun s => s.modifyObject object g).Aligned :=
    { h.toAligned with
      there := h.there
      bindings := h.bindings
      objects := by simp [change, Store.modifyObject, h.objects] }
  refine h.step hg haligned (fun v hv => ?_) fun _ _ hc => .inl hc
  rcases hv.of_modifyObject with hv | ⟨o, ho, hv⟩
  · exact .inl hv
  · exact (hholds o ho v hv).imp_right (Fits.mono hg)

end Sound

def bindAll (W : StorePair) (a b : FrameId) (entries : List (Token × Value)) : StorePair :=
  entries.foldl (fun W entry => W.bind a b entry.1.lexeme entry.2) W

theorem bindAll_eq (W : StorePair) (a b : FrameId) (entries : List (Token × Value)) :
    W.bindAll a b entries =
      ⟨entries.foldl (fun s entry => s.bind a entry.1.lexeme entry.2) W.first,
        entries.foldl (fun s entry => s.bind b entry.1.lexeme entry.2) W.second, W.frame⟩ := by
  induction entries generalizing W with
  | nil => rfl
  | cons entry rest ih => exact ih (W.bind a b entry.1.lexeme entry.2)

theorem grows_bindAll (W : StorePair) (a b : FrameId) (entries : List (Token × Value)) :
    W.Grows (W.bindAll a b entries) := by
  induction entries generalizing W with
  | nil => exact .refl W
  | cons entry rest ih => exact (grows_bind entry.1.lexeme entry.2).trans (ih _)

theorem Sound.bindAll (h : W.Sound T) (hab : W.Joined a b) {entries : List (Token × Value)}
    (hentries : ∀ entry ∈ entries, W.Fits T entry.2) : (W.bindAll a b entries).Sound T := by
  induction entries generalizing W with
  | nil => exact h
  | cons entry rest ih =>
    have hg : W.Grows (W.bind a b entry.1.lexeme entry.2) := grows_bind _ _
    refine ih (h.bind hab entry.1.lexeme (hentries entry List.mem_cons_self)) (hab.mono hg) fun e he => ?_
    exact (hentries e (List.mem_cons_of_mem _ he)).mono hg

def bindMethod (W : StorePair) (f f' : Function) (object : ObjectId) : StorePair :=
  ((W.addFrames f.closure f'.closure).bind ⟨W.first.frames.size⟩ ⟨W.second.frames.size⟩ "this"
    (.object object)).addFunctions { f with closure := ⟨W.first.frames.size⟩ }
      { f' with closure := ⟨W.second.frames.size⟩ }

theorem grows_bindMethod (W : StorePair) (f f' : Function) (object : ObjectId) :
    W.Grows (W.bindMethod f f' object) :=
  ((W.grows_addFrames f.closure f'.closure).trans (grows_bind _ _)).trans (grows_addFunctions _ _ _)

theorem Sound.bindMethod (h : W.Sound T) {f f' : Function} (hcode : SameCode T W Layers.shared f f')
    (object : ObjectId) :
    (W.bindMethod f f' object).Sound T ∧
      (W.bindMethod f f' object).Ready T ⟨W.first.functions.size⟩ := by
  have hjoined := W.joined_addFrames f.closure f'.closure
  have hthis : Fits T (W.addFrames f.closure f'.closure) (.object object) := trivial
  have hbound := (h.addFrames f.closure f'.closure).bind hjoined "this" hthis
  have hg : (W.addFrames f.closure f'.closure).Grows (W.bindMethod f f' object) :=
    (grows_bind _ _).trans (grows_addFunctions _ _ _)
  refine ⟨hbound.addFunctions _ _, _, _, (hbound.added _ _).1, (hbound.added _ _).2, ?_, hjoined.mono hg⟩
  cases hcode with
  | array => exact .array
  | declared hlinked hd => exact .declared (hlinked.addFrames.mono hg) hd

end StorePair

end LoxLang
