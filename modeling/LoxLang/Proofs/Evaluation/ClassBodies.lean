import LoxLang.Proofs.Evaluation.Binding

set_option autoImplicit false

namespace LoxLang

namespace Eval

variable {E : Setting} {m : Machine} {K : Context}

theorem steps_superclassOf (hs : E.Sound m.store) (hm : E.Answers m.hops)
    (hK : K.Matches E.root m.store m.cursor) {base : Option Reference}
    (hbase : ∀ r, base = some r → E.known ⟨.superclass, r, K.scopes⟩) :
    (superclassOf base).Steps E m fun B s => B.isSome = base.isSome ∧
      ∀ C, B = some C → (s.class? C).isSome = true := by
  unfold superclassOf
  cases base with
  | none => exact .ret hs ⟨rfl, by simp⟩
  | some r =>
    refine .bind (steps_lookUp hs hm hK (by simp) (hbase r rfl)) fun v m' _ hm' hv => ?_
    cases v with
    | classValue C => exact .ret hm'.sound ⟨rfl, fun D hD => by cases hD; exact hv⟩
    | _ => exact .fail hm'.sound rfl

theorem steps_methodFrame (hs : E.Sound m.store) {base : Option ClassId}
    (hbase : ∀ B, base = some B → (m.store.class? B).isSome = true) :
    (methodFrame base).Steps E m fun closure s => s.classes = m.store.classes ∧
      (base = none → closure = m.cursor) ∧
      ∀ B, base = some B → closure = ⟨m.store.frames.size⟩ ∧ s.enclosing? closure = some m.cursor ∧
        s.local? closure "super" = some (.classValue B) := by
  cases base with
  | none => exact ⟨.refl hs, rfl, fun _ => rfl, by simp⟩
  | some B =>
    have hlater := m.store.extends_addFrame_bind (some m.cursor) "super" (.classValue B)
    have hbound : E.Fine (m.store.addFrame (some m.cursor)).2 (.classValue B) := hbase B rfl
    have hfresh : (m.store.addFrame (some m.cursor)).2.Extends
        ((m.store.addFrame (some m.cursor)).2.bind ⟨m.store.frames.size⟩ "super" (.classValue B)) := by
      refine Store.extends_bind _ _ _ _ fun _ => ?_
      rw [Store.local?_addFrame, Store.local?_size]
    refine ⟨⟨rfl, rfl, hlater, (hs.addFrame _).bind hfresh hbound⟩, rfl, by simp, ?_⟩
    rintro _ ⟨⟩
    refine ⟨rfl, ?_, ?_⟩
    · exact (Store.enclosing?_bind _ _ _ _ _).trans
        ((Store.enclosing?_addFrame _ _ _).trans (if_pos rfl))
    · have hframe : ((m.store.addFrame (some m.cursor)).2.frame? ⟨m.store.frames.size⟩).isSome = true := by
        rw [Store.frame?_addFrame, if_pos rfl]
        rfl
      exact (Store.local?_bind _ _ _ _ _ _).trans (if_pos ⟨rfl, rfl, hframe⟩)

theorem steps_makeMethods (hs : E.Sound m.store) (closure : FrameId) (ds : List Declaration)
    (methods : Dictionary FunctionId) :
    (makeMethods closure ds methods).Steps E m fun made s =>
      s.frames = m.store.frames ∧ s.classes = m.store.classes ∧ s.objects = m.store.objects ∧
      ∀ name method, made.get? name = some method → methods.get? name = some method ∨
        ∃ d ∈ ds, name = d.name.lexeme ∧ s.function? method =
          some ⟨.declared d, closure, decide (d.name.lexeme = initializerName)⟩ := by
  induction ds generalizing methods m with
  | nil => exact .ret hs ⟨rfl, rfl, rfl, fun _ _ h => .inl h⟩
  | cons d rest ih =>
    unfold makeMethods
    let f : Function := ⟨.declared d, closure, decide (d.name.lexeme = initializerName)⟩
    have hadded : (Eval.update fun s => s.addFunction f).Steps E m fun id s =>
        id = ⟨m.store.functions.size⟩ ∧ s = (m.store.addFunction f).2 :=
      .update (m.store.extends_addFunction f) (hs.addFunction f) ⟨rfl, rfl⟩
    refine .bind hadded ?_
    rintro _ m₁ - hm₁ ⟨rfl, hstore⟩
    refine (ih hm₁.sound _).imp ?_
    rintro made m' hm' ⟨hframes, hclasses, hobjects, hmade⟩
    rw [hstore] at hframes hclasses hobjects
    refine ⟨hframes, hclasses, hobjects, fun name method hmethod => ?_⟩
    rcases hmade name method hmethod with hmethod | ⟨e, he, hname, hfunction⟩
    · rw [Dictionary.get?_insert] at hmethod
      split at hmethod
      · rename_i hname
        cases hmethod
        refine .inr ⟨d, List.mem_cons_self, hname.symm, ?_⟩
        refine hm'.later.grows.functions _ _ ?_
        rw [hstore, Store.function?_addFunction, if_pos rfl]
      · exact .inl hmethod
    · exact .inr ⟨e, List.mem_cons_of_mem _ he, hname, hfunction⟩

/-- What is known of a store in which just the class is missing. -/
structure Prepared (E : Setting) (m : Machine) (name : Token) (base : Option Reference)
    (ds : List Declaration) (K : Context) (closure : FrameId) (c : Class) (s : Store) : Prop where
  sound : E.Sound s
  later : m.store.Extends s
  classes : s.classes = m.store.classes
  named : (s.local? m.cursor name.lexeme).isSome = true
  derived : c.superclass.isSome = base.isSome
  superclass : ∀ B, c.superclass = some B → (s.class? B).isSome = true ∧
    closure = ⟨m.store.frames.size⟩ ∧ s.enclosing? closure = some m.cursor ∧
    s.local? closure "super" = some (.classValue B)
  base : c.superclass = none → closure = m.cursor
  methods : ∀ name method, c.methods.get? name = some method → ∃ d ∈ ds, name = d.name.lexeme ∧
    s.function? method = some ⟨.declared d, closure, decide (d.name.lexeme = initializerName)⟩

theorem listLookups_of_mem {ds : List Declaration} {d : Declaration} {scopes : List Scope}
    (hd : d ∈ ds) {l : Lookup} (hl : l ∈ d.lookups scopes) :
    l ∈ Declaration.listLookups ds scopes := by
  induction ds with
  | nil => simp at hd
  | cons e rest ih =>
    simp only [Declaration.listLookups, List.mem_append]
    rcases List.mem_cons.mp hd with rfl | hd
    · exact .inl hl
    · exact .inr (ih hd)

theorem proper_of_mem {ds : List Declaration} {d : Declaration} (h : Declaration.AllProper ds)
    (hd : d ∈ ds) : d.Proper := by
  induction ds with
  | nil => simp at hd
  | cons e rest ih =>
    rcases List.mem_cons.mp hd with rfl | hd
    · exact h.1
    · exact ih h.2 hd

theorem Prepared.fits {name : Token} {base : Option Reference} {ds : List Declaration}
    {closure : FrameId} {c : Class} {s s' : Store} (h : Prepared E m name base ds K closure c s)
    (hK : K.Matches E.root m.store m.cursor) (hname : name.Ordinary) (hs : s.Extends s') :
    (K.inClass name base ⟨m.store.frames.size⟩).Matches E.root s' closure := by
  have hlater : (K.past (.declareClass name base ds)).Matches E.root s' m.cursor :=
    ((hK.extend h.later).mark hname fun _ => h.named).extend hs
  cases base with
  | none =>
    have hnone : c.superclass = none := by simpa using h.derived
    rw [h.base hnone]
    exact hlater
  | some r =>
    obtain ⟨B, hB⟩ := Option.isSome_iff_exists.mp h.derived
    obtain ⟨-, hclosure, henclosing, hsuper⟩ := h.superclass B hB
    rw [← hclosure]
    refine hlater.push (hs.grows.enclosing? henclosing) (fun other hother => ?_) fun hthis => ?_
    · obtain ⟨-, rfl⟩ := get?_oneName hother
      exact hs.grows.local?_isSome (by simp [hsuper])
    · exact absurd (get?_oneName hthis).2 (by decide)

/-- The scope of `super` is around the methods only if there is a superclass. -/
theorem base_of_head {name : Token} {base : Option Reference} {frame : FrameId}
    (hname : name.Ordinary) (h : (K.inClass name base frame).scopes[0]? = some (oneName "super")) :
    base.isSome = true ∧ (K.inClass name base frame).trail[0]? = some frame := by
  cases base with
  | some r => exact ⟨rfl, rfl⟩
  | none =>
    have hhead : (markName name.lexeme true K.scopes)[0]? = some (oneName "super") := h
    cases hscopes : K.scopes with
    | nil => simp [hscopes, markName] at hhead
    | cons scope outer =>
      have hsame : scope.insert name.lexeme true = oneName "super" := by
        simpa [hscopes, markName] using hhead
      have hget : (oneName "super").get? name.lexeme = some true := by
        rw [← hsame, Dictionary.get?_insert_self]
      exact absurd (get?_oneName hget).2.symm hname.not_super

theorem Prepared.bindable {name : Token} {base : Option Reference} {ds : List Declaration}
    {closure : FrameId} {c : Class} {s s' : Store} {C : ClassId}
    (h : Prepared E m name base ds K closure c s) (hK : K.Matches E.root m.store m.cursor)
    (hname : name.Ordinary) (hds : Declaration.AllProper ds)
    (hknown : E.Knows (Declaration.listLookups ds (classScopes name base K.scopes)))
    (hs : s.Extends s') (hc : s'.class? C = some c) {d : Declaration} (hd : d ∈ ds) :
    E.Bindable s' C d closure (K.inClass name base ⟨m.store.frames.size⟩) := by
  refine ⟨h.fits hK hname hs, proper_of_mem hds hd, ?_, fun hhead frame hframe => ?_⟩
  · intro l hl
    have hscopes := Context.scopes_inClass name base ⟨m.store.frames.size⟩ ⟨0⟩ K
    exact hknown l (listLookups_of_mem hd (hscopes ▸ hl))
  · obtain ⟨hbase, htrail⟩ := base_of_head hname hhead
    obtain ⟨B, hB⟩ := Option.isSome_iff_exists.mp (h.derived.trans hbase)
    obtain ⟨-, hclosure, -, hsuper⟩ := h.superclass B hB
    obtain rfl : frame = closure := by
      rw [hclosure]
      exact Option.some.inj (hframe.symm.trans htrail)
    exact ⟨c, B, hc, hB, hs.super hsuper⟩

theorem Prepared.sound_addClass {name : Token} {base : Option Reference} {ds : List Declaration}
    {closure : FrameId} {c : Class} {s s' : Store} (h : Prepared E m name base ds K closure c s)
    (hK : K.Matches E.root m.store m.cursor) (hname : name.Ordinary) (hds : Declaration.AllProper ds)
    (hknown : E.Knows (Declaration.listLookups ds (classScopes name base K.scopes)))
    (hs' : s' = (s.addClass c).2.bind m.cursor name.lexeme (.classValue ⟨m.store.classes.size⟩))
    (hforms : Forms E.root ⟨m.store.classes.size⟩ s' (K.inClass name base ⟨m.store.frames.size⟩)) :
    E.Sound s' := by
  have hlater : s.Extends s' := by
    rw [hs']
    exact (s.extends_addClass c).trans (Store.extends_bind _ _ _ _ fun hreserved =>
      absurd hreserved (not_reserved_of_ordinary hname))
  have hclass : ∀ C, s'.class? C = if C = ⟨m.store.classes.size⟩ then some c else s.class? C := by
    intro C
    rw [hs', Store.class?_bind, Store.class?_addClass, h.classes]
  have hc : s'.class? ⟨m.store.classes.size⟩ = some c := by rw [hclass, if_pos rfl]
  have hfine : E.ClassFine s' ⟨m.store.classes.size⟩ c := by
    refine ⟨fun B hB => ?_, fun n method hmethod => ?_⟩
    · obtain ⟨b, hb⟩ := Option.isSome_iff_exists.mp (h.superclass B hB).1
      have hsome : s.classes[B.index]? = some b := hb
      rw [h.classes] at hsome
      exact (Array.getElem?_eq_some_iff.mp hsome).1
    · obtain ⟨d, hd, rfl, hfunction⟩ := h.methods n method hmethod
      refine ⟨_, hlater.grows.functions _ _ hfunction, rfl, by simp, fun e he => ?_⟩
      obtain rfl : d = e := by simpa using he
      exact ⟨_, hforms, h.bindable hK hname hds hknown hlater hc hd⟩
  refine h.sound.step hlater (fun v hv => ?_) (fun id o ho => .inl ⟨o, ?_, rfl⟩) fun C d hd => ?_
  · cases hv with
    | binding hv =>
      rw [hs', Store.local?_bind] at hv
      split at hv
      · cases hv
        exact .inr (by simp [Setting.Fine, hc])
      · exact .inl (.binding hv)
    | field ho hv => exact .inl (.field (by simpa [hs'] using ho) hv)
    | element ho hv => exact .inl (.element (by simpa [hs'] using ho) hv)
  · simpa [hs'] using ho
  · rw [hclass] at hd
    split at hd
    · rename_i hC
      cases hd
      exact .inr (hC ▸ hfine)
    · exact .inl hd

/-- A class declaration leads to a sound store, once the class is known to be declared there. -/
theorem ensures_declareClass (hs : E.Sound m.store) (hm : E.Answers m.hops)
    (hK : K.Matches E.root m.store m.cursor) {name : Token} {base : Option Reference}
    {ds : List Declaration} (hname : name.Ordinary) (hds : Declaration.AllProper ds)
    (hbase : ∀ r, base = some r → E.known ⟨.superclass, r, K.scopes⟩)
    (hknown : E.Knows (Declaration.listLookups ds (classScopes name base K.scopes))) :
    (declareClass name base ds).Ensures m
      (fun _ m' => m'.cursor = m.cursor ∧ m'.hops = m.hops ∧ m.store.Extends m'.store ∧
        (m'.store.local? m.cursor name.lexeme).isSome = true ∧
        (Forms E.root ⟨m.store.classes.size⟩ m'.store (K.inClass name base ⟨m.store.frames.size⟩) →
          E.Sound m'.store))
      fun f m' => E.Step m m' ∧ f.Expected := by
  have hcursor := hK.chained.frame? hs.globals
  have hreserved := not_reserved_of_ordinary hname
  unfold declareClass
  refine Ensures.bind (steps_superclassOf hs hm hK hbase) ?_
  rintro B m₀ hB ⟨-, hsome, hclass⟩
  obtain rfl := (quiet_superclassOf base).answer hB
  -- The name is bound to `nil` first.
  let s₁ := m₀.store.bind m₀.cursor name.lexeme .nil
  have hlater₁ : m₀.store.Extends s₁ :=
    m₀.store.extends_bind _ _ _ fun h => absurd h hreserved
  have hsound₁ : E.Sound s₁ := hs.bind hlater₁ trivial
  have hnamed₁ : (s₁.local? m₀.cursor name.lexeme).isSome = true := by
    rw [Store.local?_bind, if_pos ⟨rfl, rfl, hcursor⟩]
    rfl
  change Ensures (methodFrame B >>= _) { m₀ with store := s₁ } _ _
  have hframe : (methodFrame B).Steps E { m₀ with store := s₁ } _ :=
    steps_methodFrame hsound₁ fun C hC => hlater₁.grows.class?_isSome (hclass C hC)
  refine Ensures.bind (Ensures.imp hframe (fun _ _ h => h) fun f m' h => ?_) ?_
  · exact ⟨⟨h.1.cursor, h.1.hops, hlater₁.trans h.1.later, h.1.sound⟩, h.2⟩
  rintro closure m₂ - ⟨hstep₂, hclasses₂, hnone, hderived⟩
  refine Ensures.bind (Ensures.imp (steps_makeMethods hstep₂.sound closure ds ∅) (fun _ _ h => h)
    fun f m' h => ?_) ?_
  · exact ⟨⟨h.1.cursor.trans hstep₂.cursor, h.1.hops.trans hstep₂.hops,
      hlater₁.trans (hstep₂.later.trans h.1.later), h.1.sound⟩, h.2⟩
  rintro methods m₃ - ⟨hstep₃, -, hclasses₃, -, hmethods⟩
  have hsize : s₁.frames.size = m₀.store.frames.size := by simp [s₁, Store.bind]
  have hlater₃ := hlater₁.trans (hstep₂.later.trans hstep₃.later)
  have hcursor₃ : m₃.cursor = m₀.cursor := hstep₃.cursor.trans hstep₂.cursor
  let c : Class := ⟨name.lexeme, B, methods⟩
  -- From here on only the class itself is missing.
  have hprepared : Prepared E m₀ name base ds K closure c m₃.store := by
    refine ⟨hstep₃.sound, hlater₃, hclasses₃.trans hclasses₂, ?_, hsome, ?_, hnone, ?_⟩
    · exact (hstep₂.later.trans hstep₃.later).grows.local?_isSome hnamed₁
    · intro C hC
      obtain ⟨hclosure, henclosing, hsuper⟩ := hderived C hC
      exact ⟨hlater₃.grows.class?_isSome (hclass C hC), hsize ▸ hclosure,
        hstep₃.later.grows.enclosing? henclosing, hstep₃.later.super hsuper⟩
    · intro n method hmethod
      rcases hmethods n method hmethod with h | h
      · simp at h
      · exact h
  have hnamed : ((m₃.store.addClass c).2.local? m₃.cursor name.lexeme).isSome = true :=
    hcursor₃ ▸ hprepared.named
  change Ensures (ofExcept _ ((m₃.store.addClass c).2.holder m₃.cursor name.lexeme) >>= _) _ _ _
  -- The name is still bound where it was, so the assignment finds it.
  rw [Store.holder_of_local? hnamed]
  let s' := (m₃.store.addClass c).2.bind m₃.cursor name.lexeme (.classValue ⟨m₃.store.classes.size⟩)
  change m₃.cursor = m₀.cursor ∧ m₃.hops = m₀.hops ∧ m₀.store.Extends s' ∧
    (s'.local? m₀.cursor name.lexeme).isSome = true ∧
    (Forms E.root _ s' _ → E.Sound s')
  have hs' : s' = (m₃.store.addClass c).2.bind m₀.cursor name.lexeme
      (.classValue ⟨m₀.store.classes.size⟩) := by
    simp only [s', hcursor₃, hprepared.classes]
  have hlater' : m₃.store.Extends s' :=
    (m₃.store.extends_addClass c).trans (Store.extends_bind _ _ _ _ fun h => absurd h hreserved)
  exact ⟨hcursor₃, hstep₃.hops.trans hstep₂.hops, hlater₃.trans hlater',
    hlater'.grows.local?_isSome hprepared.named,
    fun hforms => hprepared.sound_addClass hK hname hds hknown hs' hforms⟩

end Eval

end LoxLang
