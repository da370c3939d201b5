import LoxLang.Proofs.Evaluation.Tracking

set_option autoImplicit false

namespace LoxLang

namespace Eval

variable {T : Tables} {dir : Direction} {K K₁ : Layers} {g : FrameId → FrameId} {m m' : Machine}
  {a b : FrameId}

theorem tracks_requireArity (line arity given : Nat) :
    Tracks T dir K (requireArity line arity given) (requireArity line arity given) SameAnswer g m m' := by
  unfold requireArity
  split
  · exact .ret rfl
  · exact .fail

theorem tracks_lookUp {kind : ReferenceKind} {target : Reference} (h : T.Shifts K (kind, target)) :
    Tracks T dir K (lookUp target) (lookUp target) (SameValue T) g m m' := by
  intro hm
  have hheld : ∀ {x : Except RuntimeError FrameId} {v : Value},
      m.store.read target.name.lexeme x = .ok v → SameValue T (m.pair m' g) v v :=
    fun hv => ⟨rfl, hm.sound.held _ (.of_read hv)⟩
  cases hd : T.first[target.id]? with
  | none =>
    have hd' : T.second[target.id]? = none := by rw [h.shifted, hd]; rfl
    rw [lookUp_of_none (hm.first ▸ hd), lookUp_of_none (hm.second ▸ hd')]
    have hsame := hm.sound.lookup target.name.lexeme
    exact Tracks.ofExcept (Except.agree_of_eq hsame fun _ hv => hheld hv) hm
  | some d =>
    have hd' : T.second[target.id]? = some (K.shift d) := by rw [h.shifted, hd]; rfl
    rw [lookUp_of_some (hm.first ▸ hd), lookUp_of_some (hm.second ▸ hd')]
    have hsame := hm.sound.lookupAt hm.linked (h.inside d hd) target.name.lexeme
    exact Tracks.ofExcept (Except.agree_of_eq hsame fun _ hv => hheld hv) hm

theorem tracks_bindIn (hab : (m.pair m' g).Joined a b) (name : String) {value : Value}
    (hvalue : (m.pair m' g).Fits T value) :
    Tracks T dir K (bindIn a name value) (bindIn b name value)
      (fun W _ _ => (W.first.local? a name).isSome = true) g m m' := by
  refine .update ((m.pair m' g).bind a b name value) rfl rfl (StorePair.grows_bind name value)
    (fun hs => hs.bind hab name hvalue) ?_
  change ((m.store.bind a name value).local? a name).isSome = true
  rw [Store.local?_bind, if_pos ⟨rfl, rfl, hab.1⟩]
  rfl

theorem tracks_define (hopen : K.Open) (name : String) {value : Value}
    (hvalue : (m.pair m' g).Fits T value) :
    Tracks T dir K (define name value) (define name value)
      (fun W _ _ => (W.first.local? m.cursor name).isSome = true) g m m' := by
  unfold define
  exact .viewThen (.assuming fun hm => tracks_bindIn (hm.sound.joined hopen hm.linked) name hvalue)

theorem tracks_assign {target : Reference} (h : T.Shifts K (.assign, target)) {value : Value}
    (hvalue : (m.pair m' g).Fits T value) :
    Tracks T dir K (assign target value) (assign target value) (fun _ _ _ => True) g m m' := by
  unfold assign
  refine .assuming fun hm => .viewThen (.viewThen ?_)
  rw [hm.first, hm.second, h.shifted]
  cases hd : T.first[target.id]? with
  | none =>
    refine .viewThen (.bind (.ofExcept (hm.sound.holder target.name.lexeme)) ?_)
    intro c c' g₁ m₁ m₁' hg hjoined
    exact (tracks_bindIn hjoined _ (hvalue.mono hg)).imp fun _ _ _ _ => trivial
  | some d =>
    refine .viewThen (.bind (.ofExcept (hm.sound.holderAt hm.linked (h.inside d hd) _)) ?_)
    intro c c' g₁ m₁ m₁' hg hjoined
    exact (tracks_bindIn hjoined _ (hvalue.mono hg)).imp fun _ _ _ _ => trivial

theorem tracks_newFrame (hab : (m.pair m' g).Linked K₁ a b) :
    Tracks T dir K (newFrame a) (newFrame b) (LinkedFrames K₁.shared) g m m' :=
  .update ((m.pair m' g).addFrames a b) rfl rfl ((m.pair m' g).grows_addFrames a b)
    (fun hs => hs.addFrames a b) hab.addFrames

theorem tracks_innerFrame :
    Tracks T dir K innerFrame innerFrame (LinkedFrames K.shared) g m m' := by
  unfold innerFrame
  exact .viewThen (.assuming fun hm => tracks_newFrame hm.linked)

theorem tracks_parameterFrame (hab : (m.pair m' g).Linked K₁ a b) (parameters : List Token)
    {arguments : List Value} (harguments : ∀ v ∈ arguments, (m.pair m' g).Fits T v) :
    Tracks T dir K (parameterFrame a parameters arguments) (parameterFrame b parameters arguments)
      (LinkedFrames K₁.shared) g m m' := by
  unfold parameterFrame
  refine .bind (tracks_newFrame hab) fun c c' g₁ m₁ m₁' hg hlinked => .assuming fun hm₁ => ?_
  have hentries : ∀ entry ∈ parameters.zip arguments, (m₁.pair m₁' g₁).Fits T entry.2 :=
    fun entry hentry => (harguments _ (List.of_mem_zip hentry).2).mono hg
  have hjoined := hm₁.sound.joined (Layers.open_shared K₁) hlinked
  have hbound := StorePair.bindAll_eq (m₁.pair m₁' g₁) c c' (parameters.zip arguments)
  refine .bind (.update ((m₁.pair m₁' g₁).bindAll c c' (parameters.zip arguments)) ?_ ?_
    ((m₁.pair m₁' g₁).grows_bindAll c c' _) (fun hs => hs.bindAll hjoined hentries)
    (Q := fun _ _ _ => True) trivial) ?_
  · rw [hbound]
    rfl
  · rw [hbound]
    rfl
  · exact fun _ _ g₂ m₂ m₂' hg₂ _ => .ret (hlinked.mono hg₂)

/-- The second computation runs in the environment of braces. -/
theorem tracks_braces {α β : Type} {Q : StorePair → α → β → Prop} {act : Eval α} {act' : Eval β}
    (h : ∀ m₁', Tracks T dir K.added act act' Q g m m₁') :
    Tracks T dir K act (do within (← innerFrame) act') Q g m m' := by
  intro hm
  let m₁' : Machine := { m' with
    store := (m'.store.addFrame (some m'.cursor)).2
    cursor := ⟨m'.store.frames.size⟩ }
  have hg : (m.pair m' g).Grows (m.pair m₁' g) := (m.pair m' g).grows_addBraces m'.cursor
  have hm₁ : m.At T K.added g m₁' :=
    ⟨⟨hm.sound.addBraces m'.cursor, hm.first, hm.second, hm.sink, hm.input, hm.calls, hm.clock⟩,
      hm.linked.addBraces⟩
  have hact := h m₁' hm₁
  have hsecond : (do within (← innerFrame) act' : Eval β) m' =
      within ⟨m'.store.frames.size⟩ act' { m' with store := (m'.store.addFrame (some m'.cursor)).2 } := rfl
  rw [hsecond]
  unfold Eval.within
  dsimp only
  generalize act m = o at hact ⊢
  change Outcome.Tracks T dir K.added _ _ Q _ (act' m₁') at hact
  generalize act' m₁' = o' at hact ⊢
  cases hact with
  | @answer _ _ m₂ _ _ hg₂ hm₂ hcursor hQ =>
    refine .answer (hg.trans hg₂) (hm.mono (hg.trans hg₂) ?_ hcursor rfl) hcursor hQ
    exact hm₂.moved m₂.cursor m'.cursor
  | @fault _ m₂ _ _ hm₂ => exact .fault (hm₂.moved m₂.cursor m'.cursor)
  | first hdir => exact .first hdir
  | second hdir => exact .second hdir

theorem tracks_addObject (C : ClassId) :
    Tracks T dir K (update fun s => s.addObject ⟨C, ∅, #[]⟩) (update fun s => s.addObject ⟨C, ∅, #[]⟩)
      SameAnswer g m m' := by
  have hg : (m.pair m' g).Grows ((m.pair m' g).change fun s => (s.addObject ⟨C, ∅, #[]⟩).2) :=
    ⟨m.store.grows_addObject _, m'.store.grows_addObject _, fun _ _ => rfl⟩
  refine .assuming fun hm => .update _ rfl rfl hg (fun hs => hs.addObject C) ?_
  exact congrArg ObjectId.mk (congrArg Array.size hm.sound.objects)

theorem tracks_setField (object : ObjectId) (name : String) {value : Value}
    (hvalue : (m.pair m' g).Fits T value) :
    Tracks T dir K (update fun s => ((), s.setField object name value))
      (update fun s => ((), s.setField object name value)) (fun _ _ _ => True) g m m' := by
  have hg : (m.pair m' g).Grows ((m.pair m' g).change fun s => s.setField object name value) :=
    ⟨m.store.grows_modifyObject _ fun _ => rfl, m'.store.grows_modifyObject _ fun _ => rfl, fun _ _ => rfl⟩
  refine .update _ rfl rfl hg (fun hs => hs.modifyObject object (fun _ => rfl) fun o ho v hv => ?_) trivial
  rcases Object.holds_insert hv with hv | rfl
  · exact .inl (hv.held ho)
  · exact .inr hvalue

theorem tracks_bindMethod {method : FunctionId} (h : (m.pair m' g).Unbound T method)
    (object : ObjectId) :
    Tracks T dir K (bindMethod method object) (bindMethod method object)
      (fun W id id' => id' = id ∧ W.Ready T id) g m m' := by
  obtain ⟨f, f', hf, hf', hcode⟩ := h
  refine .assuming fun hm => ?_
  have hfirst : m.store.bindMethod method object = _ := Store.bindMethod_eq hf
  have hsecond : m'.store.bindMethod method object = _ := Store.bindMethod_eq hf'
  refine .update ((m.pair m' g).bindMethod f f' object) (by rw [hfirst]; rfl) (by rw [hsecond]; rfl)
    (StorePair.grows_bindMethod _ f f' object) (fun hs => (hs.bindMethod hcode object).1) ?_
  rw [hfirst, hsecond]
  refine ⟨?_, (hm.sound.bindMethod hcode object).2⟩
  exact congrArg FunctionId.mk hm.sound.functions

theorem tracks_property {object : Value} (name : Token) :
    Tracks T dir K (property object name) (property object name) (SameValue T) g m m' := by
  unfold property
  split
  · rename_i id
    refine .viewThen (.assuming fun hm => ?_)
    have hsame : m'.store.property id name.lexeme = m.store.property id name.lexeme :=
      hm.sound.property id name.lexeme
    refine .bind (Q := fun W p p' => p' = p ∧ m.store.property id name.lexeme = .ok p)
      (.ofExcept (Except.agree_of_eq hsame fun p hp => ⟨rfl, hp⟩)) ?_
    rintro p p' g₁ m₁ m₁' hg ⟨rfl, hp⟩
    cases p' with
    | field value => exact .ret ⟨rfl, (hm.sound.held value (.of_property hp)).mono hg⟩
    | method method =>
      have hunbound : (m.pair m' g).Unbound T method := hm.sound.unbound_of_property hp
      refine .bind (tracks_bindMethod (hunbound.mono hg) id) ?_
      rintro bound bound' g₂ m₂ m₂' - ⟨rfl, hready⟩
      exact .ret ⟨rfl, hready⟩
  · exact .fail

theorem tracks_superMethod {keyword : Reference} (h : T.Shifts K (.super, keyword)) (method : Token) :
    Tracks T dir K (superMethod keyword method) (superMethod keyword method) (SameValue T) g m m' := by
  unfold superMethod
  refine .assuming fun hm => .viewThen ?_
  rw [hm.first, hm.second, h.shifted]
  cases hd : T.first[keyword.id]? with
  | none => exact .fail
  | some d =>
    have hinside := h.inside d hd
    have hseated : K.shift d - 1 = K.shift (d - 1) := by
      rw [h.seated rfl d hd]
      rfl
    have hsuper := hm.sound.lookupAt hm.linked hinside keyword.name.lexeme
    have hthis := hm.sound.lookupAt hm.linked (Nat.lt_of_le_of_lt (Nat.sub_le d 1) hinside) "this"
    refine .viewThen (.viewThen ?_)
    simp only [hseated]
    refine .bind (Q := SameAnswer) (.ofExcept (Except.agree_of_eq hsuper fun _ _ => rfl)) ?_
    rintro v v' g₁ m₁ m₁' hg₁ rfl
    cases v' with
    | classValue superclass =>
      refine .bind (Q := SameAnswer) (.ofExcept (Except.agree_of_eq hthis fun _ _ => rfl)) ?_
      rintro v v' g₂ m₂ m₂' hg₂ rfl
      cases v' with
      | object this =>
        have hsame : m'.store.method? superclass method.lexeme = m.store.method? superclass method.lexeme :=
          Store.method?_of_classes hm.sound.classes _ _
        dsimp only
        rw [hsame]
        cases hfound : m.store.method? superclass method.lexeme with
        | some function =>
          have hunbound : (m.pair m' g).Unbound T function := hm.sound.unbound_of_method? hfound
          refine .bind (tracks_bindMethod (hunbound.mono (hg₁.trans hg₂)) this) ?_
          rintro bound bound' g₃ m₃ m₃' - ⟨rfl, hready⟩
          exact .ret ⟨rfl, hready⟩
        | none => exact .fail
      | _ => exact .fail
    | _ => exact .fail

theorem tracks_runNative (line : Nat) (function : Native) (arguments : List Value) :
    Tracks T dir K (runNative line function arguments) (runNative line function arguments)
      (SameValue T) g m m' := by
  unfold runNative
  split
  · refine .bind .readClock ?_
    rintro time time' g₁ m₁ m₁' - rfl
    exact .ret ⟨rfl, trivial⟩
  · refine .bind .takeLine ?_
    rintro line line' g₁ m₁ m₁' - rfl
    split
    · exact .ret ⟨rfl, trivial⟩
    · exact .ret ⟨rfl, trivial⟩
    · exact .fail
  · exact .ofExcept (Except.agree_of_eq rfl fun _ hv => ⟨rfl, .of_isData (isData_parseNumber hv)⟩)
  · exact .fail

theorem tracks_runArrayMethod (line : Nat) {f f' : Function}
    (hclosure : (m.pair m' g).Joined f.closure f'.closure) (hinit : f'.initializes = f.initializes)
    (method : ArrayMethod) {arguments : List Value}
    (harguments : ∀ v ∈ arguments, (m.pair m' g).Fits T v) :
    Tracks T dir K (runArrayMethod line f method arguments) (runArrayMethod line f' method arguments)
      (SameValue T) g m m' := by
  unfold runArrayMethod
  refine .viewThen (.assuming fun hm => ?_)
  have hreceiver : m'.store.receiver? f'.closure = m.store.receiver? f.closure := by
    have hlocal : m'.store.local? f'.closure "this" = m.store.local? f.closure "this" :=
      hm.sound.local?_eq hclosure "this"
    simp only [Store.receiver?, hlocal]
  rw [hreceiver]
  cases m.store.receiver? f.closure with
  | none => exact .fail
  | some this =>
    have helements : m'.store.elements this = m.store.elements this := hm.sound.elements this
    refine .viewThen (.bind (Q := SameValue T) (.ofExcept ?_) ?_)
    · refine Except.agree_of_eq (by rw [helements]) fun v hv => ⟨rfl, ?_⟩
      rcases ArrayMethod.mem_of_answer hv with hv | hv
      · exact hm.sound.held v (.of_element hv)
      · exact .of_isData hv
    · rintro v v' g₁ m₁ m₁' hg ⟨rfl, hv⟩
      let edit : Store → Store := fun s => s.modifyElements this (method.change arguments)
      have hgrows : (m₁.pair m₁' g₁).Grows ((m₁.pair m₁' g₁).change edit) :=
        ⟨m₁.store.grows_modifyObject _ fun _ => rfl, m₁'.store.grows_modifyObject _ fun _ => rfl,
          fun _ _ => rfl⟩
      have hsound : (m₁.pair m₁' g₁).Sound T → ((m₁.pair m₁' g₁).change edit).Sound T := by
        refine fun hs => hs.modifyObject this (fun _ => rfl) fun o ho w hw => ?_
        rcases hw with ⟨name, hw⟩ | hw
        · exact .inl (.field ho hw)
        · rcases ArrayMethod.mem_change hw with hw | hw
          · exact .inl (.element ho hw)
          · exact .inr ((harguments w hw).mono hg)
      refine .bind (.update _ rfl rfl hgrows hsound (Q := fun _ _ _ => True) trivial) ?_
      intro _ _ g₂ m₂ m₂' hg₂ _
      rw [hinit]
      split
      · exact .ret ⟨rfl, trivial⟩
      · exact .ret ⟨rfl, hv.mono hg₂⟩

theorem tracks_answerOf (line : Nat) {f f' : Function}
    (hclosure : (m.pair m' g).Joined f.closure f'.closure) (hinit : f'.initializes = f.initializes)
    {ending : Ending} (hending : ∀ v, ending = .returned v → (m.pair m' g).Fits T v) :
    Tracks T dir K (answerOf line f ending) (answerOf line f' ending) (SameValue T) g m m' := by
  intro hm
  unfold answerOf
  rw [hinit]
  split
  · have hlocal : m'.store.local? f'.closure "this" = m.store.local? f.closure "this" :=
      hm.sound.local?_eq hclosure "this"
    have hsame : m'.store.lookupAt f'.closure 0 "this" = m.store.lookupAt f.closure 0 "this" := by
      simp only [Store.lookupAt, Store.holderAt, Store.ancestor?, hlocal]
      split
      · simp only [Store.read, hlocal]
      · rfl
    exact Tracks.ofExcept (Except.agree_of_eq hsame fun v hv => ⟨rfl, hm.sound.held v (.of_read hv)⟩) hm
  · cases ending with
    | returned v => exact .answer (.refl _) hm rfl ⟨rfl, hending v rfl⟩
    | _ => exact .answer (.refl _) hm rfl ⟨rfl, trivial⟩

theorem tracks_addFunctions (change : Layers → Layers) {d d' : Declaration}
    (hab : (m.pair m' g).Linked K₁ a b) (hd : d.Shifts T (change K₁) d') (initializes : Bool) :
    Tracks T dir K (update fun s => s.addFunction ⟨.declared d, a, initializes⟩)
      (update fun s => s.addFunction ⟨.declared d', b, initializes⟩)
      (fun W id id' => id' = id ∧ ∃ f f', W.first.function? id = some f ∧
        W.second.function? id = some f' ∧ StorePair.SameCode T W change f f' ∧ f.closure = a ∧
        f'.closure = b) g m m' := by
  refine .assuming fun hm => ?_
  let f : Function := ⟨.declared d, a, initializes⟩
  let f' : Function := ⟨.declared d', b, initializes⟩
  have hg := (m.pair m' g).grows_addFunctions f f'
  refine .update ((m.pair m' g).addFunctions f f') rfl rfl hg (fun hs => hs.addFunctions f f') ?_
  exact ⟨congrArg FunctionId.mk hm.sound.functions, f, f', (hm.sound.added f f').1,
    (hm.sound.added f f').2, .declared (hab.mono hg) hd, rfl, rfl⟩

theorem tracks_superclassOf {base : Option Reference}
    (h : ∀ r, base = some r → T.Shifts K (.superclass, r)) :
    Tracks T dir K (superclassOf base) (superclassOf base)
      (fun _ v v' => v' = v ∧ v.isSome = base.isSome) g m m' := by
  cases base with
  | none => exact .ret ⟨rfl, rfl⟩
  | some target =>
    refine .bind (tracks_lookUp (h target rfl)) ?_
    rintro v v' g₁ m₁ m₁' - ⟨rfl, -⟩
    cases v' with
    | classValue id => exact .ret ⟨rfl, rfl⟩
    | _ => exact .fail

theorem tracks_methodFrame {superclass : Option ClassId} {base : Option Reference}
    (h : superclass.isSome = base.isSome) :
    Tracks T dir K (methodFrame superclass) (methodFrame superclass) (LinkedFrames (K.inClass base))
      g m m' := by
  cases superclass with
  | none =>
    cases base with
    | none => exact fun hm => .answer (.refl _) hm rfl hm.linked
    | some _ => cases h
  | some superclass =>
    cases base with
    | none => cases h
    | some _ =>
      refine .bind tracks_innerFrame fun c c' g₁ m₁ m₁' _ hlinked => .assuming fun hm₁ => ?_
      have hjoined := hm₁.sound.joined (Layers.open_shared K) hlinked
      refine .bind (tracks_bindIn hjoined "super" trivial) fun _ _ g₂ m₂ m₂' hg₂ _ => ?_
      exact .ret (hlinked.mono hg₂)

theorem tracks_makeMethods {ds ds' : List Declaration} (hds : Declaration.AllShift T K₁.shared ds ds')
    (hab : (m.pair m' g).Linked K₁ a b) {methods : Dictionary FunctionId}
    (hmethods : ∀ name id, methods.get? name = some id → (m.pair m' g).Unbound T id) :
    Tracks T dir K (makeMethods a ds methods) (makeMethods b ds' methods)
      (fun W made made' => made' = made ∧
        ∀ name id, made.get? name = some id → W.Unbound T id) g m m' := by
  induction ds generalizing ds' methods g m m' with
  | nil =>
    cases hds
    exact .ret ⟨rfl, hmethods⟩
  | cons d rest ih =>
    cases hds with
    | @cons _ _ d' _ rest' hd hrest =>
      have hname : d'.name = d.name := by cases hd; rfl
      simp only [makeMethods, hname]
      refine .bind (tracks_addFunctions Layers.shared hab hd _) ?_
      rintro id id' g₁ m₁ m₁' hg ⟨rfl, f, f', hf, hf', hcode, -, -⟩
      refine ih hrest (hab.mono hg) fun name other hother => ?_
      rw [Dictionary.get?_insert] at hother
      split at hother
      · cases hother
        exact ⟨f, f', hf, hf', hcode⟩
      · exact (hmethods name other hother).mono hg

theorem tracks_declareClass (hopen : K.Open) (name : Token) {base : Option Reference}
    {ds ds' : List Declaration} (hbase : ∀ r, base = some r → T.Shifts K (.superclass, r))
    (hds : Declaration.AllShift T (K.inClass base).shared ds ds') :
    Tracks T dir K (declareClass name base ds) (declareClass name base ds') (fun _ _ _ => True)
      g m m' := by
  unfold declareClass
  refine .bindHere (tracks_superclassOf hbase) ?_
  rintro superclass superclass' g₁ m₁ m₁' hcursor₁ - ⟨rfl, hsome⟩
  refine .bindHere (tracks_define hopen name.lexeme trivial) fun _ _ g₂ m₂ m₂' hcursor₂ _ hnamed₂ => ?_
  refine .bindHere (tracks_methodFrame hsome) fun c c' g₃ m₃ m₃' hcursor₃ hg₃ hlinked => ?_
  refine .bindHere (tracks_makeMethods hds hlinked (by simp)) ?_
  rintro methods methods' g₄ m₄ m₄' hcursor₄ hg₄ ⟨rfl, hmethods⟩
  let made : Class := ⟨name.lexeme, superclass', methods'⟩
  have hg₅ : (m₄.pair m₄' g₄).Grows ((m₄.pair m₄' g₄).change fun s => (s.addClass made).2) :=
    ⟨m₄.store.grows_addClass made, m₄'.store.grows_addClass made, fun _ _ => rfl⟩
  refine .assuming fun hm₄ => .bindHere (.update _ rfl rfl hg₅ (fun hs => hs.addClass hmethods)
    (Q := SameAnswer) (congrArg ClassId.mk (congrArg Array.size hm₄.sound.classes))) ?_
  rintro id id' g₅ m₅ m₅' hcursor₅ hg₅ rfl
  -- The name is bound in the current environment since the class was begun.
  have hnamed : (m₅.store.local? m₅.cursor name.lexeme).isSome = true := by
    rw [hcursor₅, hcursor₄, hcursor₃, hcursor₂]
    exact ((hg₃.trans hg₄).trans hg₅).first.local?_isSome hnamed₂
  refine .viewThen (.assuming fun hm₅ => ?_)
  have hjoined := hm₅.sound.joined hopen hm₅.linked
  have hnamed' : (m₅'.store.local? m₅'.cursor name.lexeme).isSome = true := by
    have hsame : m₅'.store.local? m₅'.cursor name.lexeme = m₅.store.local? m₅.cursor name.lexeme :=
      hm₅.sound.local?_eq hjoined _
    rw [hsame, hnamed]
  rw [Store.holder_of_local? hnamed, Store.holder_of_local? hnamed']
  have hclass : (m₅.pair m₅' g₅).Fits T (.classValue id') := trivial
  exact (tracks_bindIn hjoined name.lexeme hclass).imp fun _ _ _ _ => trivial

end Eval

end LoxLang
