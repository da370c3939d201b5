import LoxLang.Proofs.Scope.Control
import LoxLang.Proofs.Scope.Marks

set_option autoImplicit false

namespace LoxLang

open Resolution

namespace Resolution

variable {r : Resolution}

theorem hops_defineName (name : String) : (r.defineName name).hops = r.hops := by
  unfold defineName
  split <;> rfl

theorem hops_declare (name : Token) : (r.declare name).hops = r.hops := by
  unfold declare
  split
  · rfl
  · split <;> rfl

theorem hops_declareParameters (parameters : List Token) :
    (r.declareParameters parameters).hops = r.hops := by
  unfold declareParameters
  induction parameters generalizing r with
  | nil => rfl
  | cons name rest ih =>
    rw [List.foldl_cons, ih]
    exact (hops_defineName _).trans (hops_declare name)

@[simp] theorem hops_report (token : Token) (cause : StaticError) :
    (r.report token cause).hops = r.hops := rfl

@[simp] theorem hops_reportIf (condition : Bool) (token : Token) (cause : StaticError) :
    (r.reportIf condition token cause).hops = r.hops := by
  unfold reportIf
  split <;> rfl

end Resolution

/-- The name is defined where it is found, and `super` is found right outside `this`. -/
structure Lookup.Sound (l : Lookup) : Prop where
  defined : l.kind ≠ .assign → ∀ d scope, l.distance? = some d → l.scopes[d]? = some scope →
    scope.get? l.target.name.lexeme = some true
  seated : l.kind = .super → Seated l.scopes

/-- The pass from one state to another has these lookups. -/
structure Resolution.Finds (r r' : Resolution) (lookups : List Lookup) : Prop where
  hops : ∀ entry, entry ∈ r'.hops ↔
    entry ∈ r.hops ∨ ∃ l ∈ lookups, l.target.id = entry.1 ∧ l.distance? = some entry.2
  sound : ∀ l ∈ lookups, l.Sound

namespace Resolution.Finds

variable {r r₁ r' : Resolution} {a b : List Lookup}

theorem of_hops (h : r'.hops = r.hops) : Finds r r' [] := ⟨by simp [h], by simp⟩

theorem trans (h : Finds r r₁ a) (h' : Finds r₁ r' b) : Finds r r' (a ++ b) := by
  refine ⟨fun entry => ?_, fun l hl => ?_⟩
  · rw [h'.hops, h.hops]
    simp only [List.mem_append, or_and_right, exists_or, or_assoc]
  · rcases List.mem_append.mp hl with hl | hl
    · exact h.sound l hl
    · exact h'.sound l hl

theorem perm (h : Finds r r' a) (hab : ∀ l, l ∈ b ↔ l ∈ a) : Finds r r' b :=
  ⟨fun entry => by simp only [h.hops, hab], fun l hl => h.sound l ((hab l).mp hl)⟩

theorem before (h : Finds r₁ r' a) (hr : r₁.hops = r.hops) : Finds r r' a :=
  ⟨fun entry => by rw [h.hops, hr], h.sound⟩

theorem after (h : Finds r r₁ a) (hr : r'.hops = r₁.hops) : Finds r r' a :=
  ⟨fun entry => by rw [hr, h.hops], h.sound⟩

theorem inScope (h : Finds r.openScope r' a) : Finds r r'.closeScope a := ⟨h.hops, h.sound⟩

theorem record {kind : ReferenceKind} {target : Reference} {scopes : List Scope}
    (hscopes : r.distance? target.name.lexeme = distanceIn target.name.lexeme scopes)
    (h : Lookup.Sound ⟨kind, target, scopes⟩) :
    Finds r (r.record target) [⟨kind, target, scopes⟩] := by
  refine ⟨fun entry => ?_, by simpa using h⟩
  unfold Resolution.record
  simp only [List.mem_singleton, exists_eq_left, Lookup.distance?, ← hscopes]
  cases hd : r.distance? target.name.lexeme with
  | none => simp
  | some d =>
    obtain ⟨id, hops⟩ := entry
    simp only [List.mem_cons, Prod.mk.injEq, Option.some.injEq]
    constructor
    · rintro (⟨rfl, rfl⟩ | h)
      · exact .inr ⟨rfl, rfl⟩
      · exact .inl h
    · rintro (h | ⟨rfl, rfl⟩)
      · exact .inr h
      · exact .inl ⟨rfl, rfl⟩

end Resolution.Finds

theorem Lookup.sound_of_defined {l : Lookup}
    (h : l.kind ≠ .assign → ∀ scope ∈ l.scopes, scope.get? l.target.name.lexeme ≠ some false)
    (hs : l.kind = .super → Seated l.scopes) : l.Sound := by
  refine ⟨fun hk d scope hd hscope => ?_, hs⟩
  have hcontains := contains_of_distanceIn hd hscope
  unfold Dictionary.contains at hcontains
  cases hget : scope.get? l.target.name.lexeme with
  | none => simp [hget] at hcontains
  | some defined =>
    cases defined with
    | true => rfl
    | false => exact absurd hget (h hk scope (List.mem_of_getElem? hscope))

theorem Lookup.sound_of_variable {r : Resolution} {globalName : Option String} {target : Reference}
    (hr : OuterDefined r.scopes)
    (h : r.isBeingInitialized globalName target.name.lexeme = false) :
    Lookup.Sound ⟨.variable, target, r.scopes⟩ := by
  refine Lookup.sound_of_defined (fun _ scope hscope => ?_) (by simp)
  unfold Resolution.isBeingInitialized at h
  cases hscopes : r.scopes with
  | nil => simp [hscopes] at hscope
  | cons innermost outer =>
    simp only [hscopes, decide_eq_false_iff_not] at h hscope hr
    rcases List.mem_cons.mp hscope with rfl | hscope
    · exact h
    · exact hr.outer scope hscope _

/-- What an expression may rely on. -/
structure Readable (around : Surroundings) (scopes : List Scope) : Prop where
  defined : OuterDefined scopes
  seated : around.classBody = .derived → Seated scopes

/-- The pass finds the references in the scopes it starts from, and no scope changes. -/
structure Passes (around : Surroundings) (refs : List (ReferenceKind × Reference))
    (pass : Resolution → Resolution) : Prop where
  clean : ∀ r, (pass r).Clean → r.Clean
  finds : ∀ r, (pass r).Clean → Readable around r.scopes → Spelled refs →
    r.Finds (pass r) (lookupsIn r.scopes refs) ∧ (pass r).scopes = r.scopes

namespace Passes

variable {around : Surroundings} {a b : List (ReferenceKind × Reference)}
  {f g : Resolution → Resolution}

theorem congr (hfg : ∀ r, g r = f r) (h : Passes around a f) : Passes around a g := by
  obtain rfl : g = f := funext hfg
  exact h

theorem skip : Passes around [] fun r => r :=
  ⟨fun _ h => h, fun _ _ _ _ => ⟨.of_hops rfl, rfl⟩⟩

theorem comp (hf : Passes around a f) (hg : Passes around b g) :
    Passes around (a ++ b) fun r => g (f r) := by
  refine ⟨fun r h => hf.clean r (hg.clean _ h), fun r h hr hspelled => ?_⟩
  rw [spelled_append] at hspelled
  obtain ⟨hfinds, hscopes⟩ := hf.finds r (hg.clean _ h) hr hspelled.1
  obtain ⟨hfinds', hscopes'⟩ := hg.finds (f r) h (hscopes ▸ hr) hspelled.2
  rw [hscopes] at hfinds' hscopes'
  exact ⟨by simpa [lookupsIn] using hfinds.trans hfinds', hscopes'⟩

theorem perm (h : Passes around a f) (hab : ∀ r, r ∈ b ↔ r ∈ a) : Passes around b f := by
  refine ⟨h.clean, fun r hr hreadable hspelled => ?_⟩
  obtain ⟨hfinds, hscopes⟩ := h.finds r hr hreadable fun t ht => hspelled t ((hab t).mpr ht)
  exact ⟨hfinds.perm fun l => by simp only [lookupsIn, List.mem_map, hab], hscopes⟩

theorem record {kind : ReferenceKind} {target : Reference} (hclean : ∀ r, (f r).Clean → r.Clean)
    (hf : ∀ r, (f r).Clean → f r = r.record target)
    (h : ∀ r, (f r).Clean → Readable around r.scopes → kind.Spells target.name →
      Lookup.Sound ⟨kind, target, r.scopes⟩) :
    Passes around [(kind, target)] f := by
  refine ⟨hclean, fun r hr hreadable hspelled => ?_⟩
  rw [hf r hr]
  refine ⟨.record rfl (h r hr hreadable ?_), scopes_record target⟩
  simpa using hspelled

end Passes

mutual
theorem Expr.passes (around : Surroundings) (globalName : Option String) : ∀ e : Expr,
    Passes around e.references (e.resolve around globalName)
  | .literal value => .congr (fun r => by rw [Expr.resolve]) .skip
  | .grouping e => .congr (fun r => by rw [Expr.resolve]) (Expr.passes around globalName e)
  | .unary _ e => .congr (fun r => by rw [Expr.resolve]) (Expr.passes around globalName e)
  | .binary l _ e =>
    .congr (fun r => by rw [Expr.resolve])
      (.comp (Expr.passes around globalName l) (Expr.passes around globalName e))
  | .logical l _ e =>
    .congr (fun r => by rw [Expr.resolve])
      (.comp (Expr.passes around globalName l) (Expr.passes around globalName e))
  | .conditional c (some t) e =>
    .congr (fun r => by rw [Expr.resolve])
      (.comp (.comp (Expr.passes around globalName c) (Expr.passes around globalName t))
        (Expr.passes around globalName e))
  | .conditional c none e =>
    .congr (fun r => by rw [Expr.resolve])
      (.comp (Expr.passes around globalName c) (Expr.passes around globalName e))
  | .variable target => by
    refine .congr (fun r => by rw [Expr.resolve]) (.record ?_ ?_ ?_)
    · intro r h
      simp only [clean_record, clean_reportIf] at h
      exact h.2
    · intro r h
      simp only [clean_record, clean_reportIf] at h
      simp [reportIf, h.1]
    · intro r h hreadable _
      simp only [clean_record, clean_reportIf] at h
      exact Lookup.sound_of_variable hreadable.defined h.1
  | .assign target e => by
    have hrecord : Passes around [(.assign, target)] fun r => r.record target :=
      .record (fun r h => clean_record.mp h) (fun _ _ => rfl)
        fun r _ _ _ => ⟨fun h => absurd rfl h, by simp⟩
    refine .congr (fun r => by rw [Expr.resolve])
      ((Passes.comp (Expr.passes around globalName e) hrecord).perm fun r => ?_)
    simp [Expr.references, or_comm]
  | .call f _ es =>
    .congr (fun r => by rw [Expr.resolve])
      (.comp (Expr.passes around globalName f) (Expr.list_passes around globalName es))
  | .get o _ => .congr (fun r => by rw [Expr.resolve]) (Expr.passes around globalName o)
  | .set o _ e => by
    refine .congr (fun r => by rw [Expr.resolve])
      ((Passes.comp (Expr.passes around globalName e) (Expr.passes around globalName o)).perm
        fun r => ?_)
    simp only [Expr.references, List.mem_append, or_comm]
  | .this keyword => by
    refine .congr (fun r => by rw [Expr.resolve]) ?_
    cases hc : around.classBody with
    | outside =>
      exact ⟨fun r h => absurd h not_clean_report, fun r h => absurd h not_clean_report⟩
    | base | derived =>
      refine .record (fun r h => clean_record.mp h) (fun _ _ => rfl) fun r _ hreadable hspelled => ?_
      have hname : keyword.name.lexeme = "this" := hspelled
      exact Lookup.sound_of_defined (fun _ scope hs => hname ▸ hreadable.defined.this scope hs) (by simp)
  | .super keyword _ => by
    refine .congr (fun r => by rw [Expr.resolve]) ?_
    cases hc : around.classBody with
    | outside | base =>
      exact ⟨fun r h => absurd (clean_record.mp h) not_clean_report,
        fun r h => absurd (clean_record.mp h) not_clean_report⟩
    | derived =>
      refine .record (fun r h => clean_record.mp h) (fun _ _ => rfl) fun r _ hreadable hspelled => ?_
      have hname : keyword.name.lexeme = "super" := hspelled
      exact Lookup.sound_of_defined (fun _ scope hs => hname ▸ hreadable.defined.super scope hs)
        fun _ => hreadable.seated hc

theorem Expr.list_passes (around : Surroundings) (globalName : Option String) : ∀ es : List Expr,
    Passes around (Expr.listReferences es) (Expr.resolveList around globalName es)
  | [] => .congr (fun r => by rw [Expr.resolveList]) .skip
  | e :: rest =>
    .congr (fun r => by rw [Expr.resolveList])
      (.comp (Expr.passes around globalName e) (Expr.list_passes around globalName rest))
end

theorem Expr.option_passes (around : Surroundings) (e : Option Expr) :
    Passes around (Expr.optionReferences e) (Expr.resolveOption around e) := by
  cases e with
  | none => exact .congr (fun _ => rfl) .skip
  | some e => exact Expr.passes around none e

theorem Standing.readable {around : Surroundings} {scopes : List Scope}
    (h : Standing around.classBody scopes) : Readable around scopes :=
  ⟨h.defined.outerDefined, h.seated⟩

def Stmt.Finds (around : Surroundings) (s : Stmt) (r : Resolution) : Prop :=
  r.Finds (s.resolve around r) (s.lookups r.scopes) ∧ (s.resolve around r).scopes = s.mark r.scopes

theorem Stmt.loop_finds (around : Surroundings) {c : Expr} {n : Option Stmt} {b : Stmt}
    {r : Resolution}
    (ih : ∀ r, (b.resolve { around with inLoop := true } r).Clean → b.Proper → Spelled b.references →
      Standing around.classBody r.scopes → b.Finds { around with inLoop := true } r)
    (h : (Stmt.resolveOption around n
      (b.resolve { around with inLoop := true } (c.resolve around none r))).Clean)
    (hp : n.all Stmt.isExpression = true ∧ (b.Proper ∧ b.declares = false))
    (hspelled : (Spelled c.references ∧ Spelled (Stmt.optionReferences n)) ∧ Spelled b.references)
    (hr : Standing around.classBody r.scopes) :
    r.Finds (Stmt.resolveOption around n
        (b.resolve { around with inLoop := true } (c.resolve around none r)))
      (c.lookups r.scopes ++ Stmt.optionLookups n r.scopes ++ b.lookups r.scopes) ∧
      (Stmt.resolveOption around n
        (b.resolve { around with inLoop := true } (c.resolve around none r))).scopes = r.scopes := by
  obtain ⟨n, rfl⟩ := Stmt.exists_increment hp.1
  rw [Stmt.resolveOption_map] at h ⊢
  rw [Stmt.optionReferences_map] at hspelled
  rw [Stmt.optionLookups_map]
  obtain ⟨⟨hc, hn⟩, hb⟩ := hspelled
  have hbody := Expr.clean_of_resolveOption h
  have hcondition := (Stmt.controlled_of_resolve { around with inLoop := true } b _ hbody).1
  obtain ⟨hfirst, hscopes⟩ := (Expr.passes around none c).finds r hcondition hr.readable hc
  obtain ⟨hsecond, hmark⟩ := ih _ hbody hp.2.1 hb (hscopes ▸ hr)
  rw [hscopes, Stmt.mark_of_not_declares hp.2.2] at hmark
  obtain ⟨hthird, hsame⟩ :=
    (Expr.option_passes around n).finds _ h (hmark ▸ hr.readable) hn
  rw [hscopes] at hsecond
  rw [hmark] at hthird hsame
  refine ⟨((hfirst.trans hsecond).trans hthird).perm fun l => ?_, hsame⟩
  simp only [List.mem_append, or_assoc, Expr.lookups, Expr.optionLookups]
  rw [or_comm (a := l ∈ lookupsIn r.scopes (Expr.optionReferences n))]

theorem Stmt.superclass_finds {around : Surroundings} {r : Resolution} {name : Token} {base : Reference}
    (hother : base.name.lexeme ≠ name.lexeme) (hr : Standing around.classBody r.scopes) :
    r.Finds ((((r.declare name).define name).reportIf (base.name.lexeme = name.lexeme) base.name
      .inheritsFromItself).record base) [⟨.superclass, base, r.scopes⟩] ∧
    ((((((r.declare name).define name).reportIf (base.name.lexeme = name.lexeme) base.name
      .inheritsFromItself).record base).openScope.defineName "super").openScope.defineName "this").scopes =
      classScopes name (some base) r.scopes := by
  generalize hr₀ : ((r.declare name).define name).reportIf (base.name.lexeme = name.lexeme) base.name
    .inheritsFromItself = r₀
  have hscopes : r₀.scopes = markName name.lexeme true r.scopes := by
    rw [← hr₀, scopes_reportIf, scopes_declareDefine]
  have hhops : r₀.hops = r.hops := by
    rw [← hr₀, hops_reportIf]
    exact (hops_defineName _).trans (hops_declare name)
  have hdistance : r₀.distance? base.name.lexeme = distanceIn base.name.lexeme r.scopes := by
    rw [← distanceIn_markName hother.symm true, ← hscopes]
    rfl
  have hsound : Lookup.Sound ⟨.superclass, base, r.scopes⟩ :=
    Lookup.sound_of_defined (fun _ scope hs => hr.defined scope hs _) (by simp)
  refine ⟨(Resolution.Finds.record hdistance hsound).before hhops, ?_⟩
  simp [defineName, openScope, hscopes, classScopes, oneName]

mutual
theorem Stmt.finds (around : Surroundings) : ∀ (s : Stmt) (r : Resolution),
    (s.resolve around r).Clean → s.Proper → Spelled s.references →
      Standing around.classBody r.scopes → s.Finds around r
  | .expression e, r, h, _, hspelled, hr | .print e, r, h, _, hspelled, hr => by
    simp only [Stmt.resolve, Stmt.references] at h hspelled
    simp only [Stmt.Finds, Stmt.resolve]
    exact (Expr.passes around none e).finds r h hr.readable hspelled
  | .declareVar name none, r, h, _, _, _ => by
    simp only [Stmt.resolve, clean_define] at h
    simp only [Stmt.Finds, Stmt.resolve]
    exact ⟨.of_hops ((hops_defineName _).trans (hops_declare name)), scopes_declareDefine name⟩
  | .declareVar name (some e), r, h, hp, hspelled, hr => by
    simp only [Stmt.resolve, clean_define, Stmt.references] at h hspelled
    simp only [Stmt.Finds, Stmt.resolve]
    have hpasses := Expr.passes around (if r.scopes.isEmpty then some name.lexeme else none) e
    have hscopes := (hpasses.clean _ h).scopes_declare
    -- The initializer is passed with the name in scope, declared and not yet defined.
    have hreadable : Readable around (r.declare name).scopes := by
      rw [hscopes]
      exact ⟨hr.defined.initializing hp, fun hc => (hr.seated hc).mark hp false⟩
    obtain ⟨hfinds, hsame⟩ := hpasses.finds _ h hreadable hspelled
    rw [hscopes] at hfinds hsame
    refine ⟨(hfinds.before (hops_declare name)).after (hops_defineName _), ?_⟩
    rw [scopes_define, hsame, markName_markName]
    rfl
  | .block body, r, h, hp, hspelled, hr => by
    simp only [Stmt.resolve, clean_closeScope] at h
    obtain ⟨hfinds, htail⟩ := Stmt.listFinds around body r.openScope h hp hspelled hr.block
    simp only [Stmt.Finds, Stmt.resolve]
    exact ⟨hfinds.inScope, htail⟩
  | .branch c t none, r, h, hp, hspelled, hr => by
    simp only [Stmt.resolve, Stmt.references, spelled_append] at h hspelled
    have hclean := (Stmt.controlled_of_resolve around t _ h).1
    obtain ⟨hc, hscopes⟩ := (Expr.passes around none c).finds r hclean hr.readable hspelled.1
    obtain ⟨ht, hmark⟩ := Stmt.finds around t _ h hp.1 hspelled.2 (hscopes ▸ hr)
    rw [hscopes] at ht hmark
    simp only [Stmt.Finds, Stmt.resolve]
    exact ⟨hc.trans ht, by rw [hmark, Stmt.mark_of_not_declares hp.2]; rfl⟩
  | .branch c t (some e), r, h, hp, hspelled, hr => by
    simp only [Stmt.resolve, Stmt.references, spelled_append] at h hspelled
    -- Reports are never taken back, so the end being clean makes each part clean, the last one first.
    have hthen := (Stmt.controlled_of_resolve around e _ h).1
    have hclean := (Stmt.controlled_of_resolve around t _ hthen).1
    obtain ⟨hc, hscopes⟩ := (Expr.passes around none c).finds r hclean hr.readable hspelled.1.1
    obtain ⟨ht, hmark⟩ := Stmt.finds around t _ hthen hp.1.1 hspelled.1.2 (hscopes ▸ hr)
    rw [hscopes, Stmt.mark_of_not_declares hp.1.2] at hmark
    obtain ⟨he, hmark'⟩ := Stmt.finds around e _ h hp.2.1 hspelled.2 (hmark ▸ hr)
    rw [hmark, Stmt.mark_of_not_declares hp.2.2] at hmark'
    rw [hscopes] at ht
    rw [hmark] at he
    simp only [Stmt.Finds, Stmt.resolve]
    exact ⟨(hc.trans ht).trans he, hmark'⟩
  | .loop none c n b, r, h, hp, hspelled, hr => by
    simp only [Stmt.resolve, Stmt.references, spelled_append] at h hspelled
    simp only [Stmt.Finds, Stmt.resolve]
    exact Stmt.loop_finds around (Stmt.finds { around with inLoop := true } b) h hp hspelled hr
  | .loop (some i) c n b, r, h, hp, hspelled, hr => by
    simp only [Stmt.resolve, clean_closeScope, Stmt.references, spelled_append] at h hspelled
    obtain ⟨⟨⟨hi, hc⟩, hn⟩, hb⟩ := hspelled
    have hbody := (Stmt.controlled_of_resolveOption around n _ h).1
    have hcondition := (Stmt.controlled_of_resolve { around with inLoop := true } b _ hbody).1
    have hclean := c.clean_of_resolve around none _ hcondition
    obtain ⟨hfirst, hscopes⟩ := Stmt.finds around i r.openScope hclean hp.1.1 hi hr.block
    have hstanding := hr.block.afterStmt hp.1.1
    obtain ⟨hrest, hsame⟩ := Stmt.loop_finds around (Stmt.finds { around with inLoop := true } b) h hp.2
      ⟨⟨hc, hn⟩, hb⟩ (hscopes ▸ hstanding)
    rw [hscopes] at hrest hsame
    simp only [Stmt.Finds, Stmt.resolve]
    refine ⟨(hfirst.trans hrest).inScope.perm fun l => ?_, ?_⟩
    · simp only [Stmt.lookups, List.mem_append, or_assoc]
      rfl
    · exact (congrArg List.tail hsame).trans (i.tail_mark _)
  | .declareFunction d, r, h, hp, hspelled, hr => by
    simp only [Stmt.resolve] at h
    have hscopes := scopes_declareDefine (r := r) d.name
    have hname : d.name.Ordinary := by
      obtain ⟨name, parameters, body⟩ := d
      exact hp.1
    obtain ⟨hfinds, hsame⟩ :=
      Declaration.finds around .function d _ h hp hspelled (hscopes ▸ hr.mark hname)
    rw [hscopes] at hfinds hsame
    simp only [Stmt.Finds, Stmt.resolve]
    exact ⟨hfinds.before ((hops_defineName _).trans (hops_declare d.name)), hsame⟩
  | .returnWith word e, r, h, _, hspelled, hr => by
    simp only [Stmt.resolve] at h
    simp only [Stmt.Finds, Stmt.resolve]
    obtain ⟨hfinds, hsame⟩ :=
      (Expr.option_passes around e).finds _ h (by simpa using hr.readable) hspelled
    simp only [scopes_reportIf] at hfinds hsame
    exact ⟨hfinds.before (by simp), hsame⟩
  | .breakLoop word, r, h, _, _, _ | .continueLoop word, r, h, _, _, _ => by
    simp only [Stmt.Finds, Stmt.resolve]
    exact ⟨.of_hops (by simp), by simp [Stmt.mark]⟩
  | .declareClass name none ds, r, h, hp, hspelled, hr => by
    simp only [Stmt.resolve, clean_closeScope] at h
    have hscopes : (((r.declare name).define name).openScope.defineName "this").scopes =
        classScopes name none r.scopes := by
      rw [scopes_defineThis, scopes_declareDefine]
      rfl
    obtain ⟨hfinds, hsame⟩ := Declaration.methodFinds { around with classBody := .base } ds _ h hp.2
      (by simpa [Stmt.references] using hspelled) (hscopes ▸ hr.inClass hp.1 none)
    rw [hscopes] at hfinds hsame
    simp only [Stmt.Finds, Stmt.resolve]
    refine ⟨(hfinds.before ?_).after rfl, congrArg List.tail hsame⟩
    exact (hops_defineName _).trans ((hops_defineName _).trans (hops_declare name))
  | .declareClass name (some base) ds, r, h, hp, hspelled, hr => by
    simp only [Stmt.resolve, clean_closeScope] at h
    have hclean := (Declaration.controlled_of_resolveMethods _ ds _ h).1
    simp only [clean_defineName, clean_openScope, clean_record, clean_reportIf, clean_define] at hclean
    obtain ⟨hother, -⟩ := hclean
    simp only [Stmt.Finds, Stmt.resolve]
    obtain ⟨hbase, hscopes⟩ := Stmt.superclass_finds (by simpa using hother) hr
    simp only [Stmt.references, Option.map_some, Option.toList_some, List.singleton_append,
      spelled_cons] at hspelled
    obtain ⟨hfinds, hsame⟩ := Declaration.methodFinds { around with classBody := .derived } ds _ h hp.2
      hspelled.2 (hscopes ▸ hr.inClass hp.1 (some base))
    rw [hscopes] at hfinds hsame
    refine ⟨(hbase.trans (hfinds.before ?_)).after rfl, congrArg (·.tail.tail) hsame⟩
    exact (hops_defineName "this").trans (hops_defineName "super")

theorem Stmt.listFinds (around : Surroundings) : ∀ (body : List Stmt) (r : Resolution),
    (Stmt.resolveList around body r).Clean → Stmt.AllProper body → Spelled (Stmt.listReferences body) →
      Standing around.classBody r.scopes →
        r.Finds (Stmt.resolveList around body r) (Stmt.listLookups body r.scopes) ∧
          (Stmt.resolveList around body r).scopes.tail = r.scopes.tail
  | [], r, _, _, _, _ => by
    simp only [Stmt.resolveList]
    exact ⟨.of_hops rfl, trivial⟩
  | s :: rest, r, h, hp, hspelled, hr => by
    simp only [Stmt.resolveList] at h
    simp only [Stmt.listReferences, spelled_append] at hspelled
    have hclean := (Stmt.controlled_of_resolveList around rest _ h).1
    obtain ⟨hs, hscopes⟩ := Stmt.finds around s r hclean hp.1 hspelled.1 hr
    have hstanding : Standing around.classBody (s.resolve around r).scopes :=
      hscopes ▸ hr.afterStmt hp.1
    obtain ⟨hrest, htail⟩ := Stmt.listFinds around rest _ h hp.2 hspelled.2 hstanding
    rw [hscopes] at hrest htail
    simp only [Stmt.resolveList]
    exact ⟨hs.trans hrest, htail.trans (s.tail_mark _)⟩

theorem Declaration.finds (around : Surroundings) (kind : EnclosingFunction) :
    ∀ (d : Declaration) (r : Resolution), (d.resolve around kind r).Clean → d.Proper →
      Spelled d.references → Standing around.classBody r.scopes →
        r.Finds (d.resolve around kind r) (d.lookups r.scopes) ∧
          (d.resolve around kind r).scopes = r.scopes
  | .mk name parameters body, r, h, hp, hspelled, hr => by
    simp only [Declaration.resolve, clean_closeScope] at h
    have hscopes : (r.openScope.declareParameters parameters).scopes =
        parameterScope parameters :: r.scopes := scopes_declareParameters parameters rfl
    obtain ⟨hfinds, htail⟩ := Stmt.listFinds { around with function := kind, inLoop := false } body _ h
      hp.2.2 hspelled (hscopes ▸ hr.parameters hp.2.1)
    rw [hscopes] at hfinds htail
    simp only [Declaration.resolve]
    exact ⟨(hfinds.before (hops_declareParameters parameters)).inScope, htail⟩

theorem Declaration.methodFinds (around : Surroundings) :
    ∀ (ds : List Declaration) (r : Resolution), (Declaration.resolveMethods around ds r).Clean →
      Declaration.AllProper ds → Spelled (Declaration.listReferences ds) →
        Standing around.classBody r.scopes →
          r.Finds (Declaration.resolveMethods around ds r) (Declaration.listLookups ds r.scopes) ∧
            (Declaration.resolveMethods around ds r).scopes = r.scopes
  | [], r, _, _, _, _ => by
    simp only [Declaration.resolveMethods]
    exact ⟨.of_hops rfl, trivial⟩
  | d :: rest, r, h, hp, hspelled, hr => by
    simp only [Declaration.resolveMethods] at h
    simp only [Declaration.listReferences, spelled_append] at hspelled
    have hclean := (Declaration.controlled_of_resolveMethods around rest _ h).1
    obtain ⟨hd, hscopes⟩ := Declaration.finds around d.methodContext d r hclean hp.1 hspelled.1 hr
    obtain ⟨hrest, hsame⟩ :=
      Declaration.methodFinds around rest _ h hp.2 hspelled.2 (hscopes ▸ hr)
    rw [hscopes] at hrest hsame
    simp only [Declaration.resolveMethods]
    exact ⟨hd.trans hrest, hsame⟩
end

end LoxLang
