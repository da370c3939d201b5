import LoxLang.Proofs.Scope.Marks
import LoxLang.Proofs.Scope.Rules
import LoxLang.Proofs.Syntax.StatementSoundness

/-!
The static pass judges by the rules.

The pass keeps what surrounds a statement and the open scopes as it goes. At every place they say no
more and no less than the way up to the root does. So each error points at a place that breaks a rule,
and if any place breaks one, some error is reported.
-/

set_option autoImplicit false

namespace LoxLang

open Resolution

namespace Way

def surroundings (way : Way) : Surroundings where
  function :=
    match way.function? with
    | none => .outside
    | some (.methodBody d) => d.methodContext
    | some _ => .function
  classBody :=
    match way.class? with
    | none => .outside
    | some none => .base
    | some (some _) => .derived
  inLoop := way.inLoop

variable {way : Way}

/-- The innermost scope has the names that the way tells, all of them defined. -/
inductive Fits (way : Way) : List Scope → Prop
  | globally : way.names? = none → Fits way []
  | locally {names : List String} {scope : Scope} {outer : List Scope} : way.names? = some names →
    (∀ x, scope.contains x = true ↔ x ∈ names) → (∀ x, scope.get? x ≠ some false) →
    Fits way (scope :: outer)

/-- The pass comes to a statement at the end of the way with these surroundings and scopes. -/
structure Reaches (way : Way) (around : Surroundings) (scopes : List Scope) : Prop where
  around : around = way.surroundings
  fits : way.Fits scopes
  outside : way.initialized? = none

variable {around : Surroundings} {scopes outer : List Scope}

theorem reaches_top : Reaches [] .program [] := ⟨rfl, .globally rfl, rfl⟩

theorem Fits.after (h : way.Fits scopes) (s : Stmt) : Fits (.after s :: way) (s.mark scopes) := by
  cases h with
  | globally h =>
    have hscopes : s.mark [] = [] := by cases s <;> rfl
    rw [hscopes]
    exact .globally (by simp [names?, h])
  | @locally names scope outer h hnames hdefined =>
    have hmark (name : Token) (hs : s.declaredName? = some name) :
        Fits (.after s :: way) (markName name.lexeme true (scope :: outer)) := by
      have hafter : Way.names? (.after s :: way) = some (name.lexeme :: names) := by
        simp [names?, h, hs]
      refine .locally hafter (fun x => ?_) fun x => ?_
      · rw [Dictionary.contains_insert]
        simp only [Bool.or_eq_true, decide_eq_true_eq, hnames, List.mem_cons]
        rw [eq_comm]
      · rw [Dictionary.get?_insert]
        split
        · simp
        · exact hdefined x
    have hkept (hs : s.declaredName? = none) : Fits (.after s :: way) (scope :: outer) := by
      have hafter : Way.names? (.after s :: way) = some names := by simp [names?, h, hs]
      exact .locally hafter hnames hdefined
    cases s with
    | declareVar name e => exact hmark name rfl
    | declareFunction d => exact hmark d.name rfl
    | declareClass name base ds => exact hmark name rfl
    | _ => exact hkept rfl

theorem Reaches.after (h : way.Reaches around scopes) (s : Stmt) :
    Reaches (.after s :: way) around (s.mark scopes) := ⟨h.around, h.fits.after s, rfl⟩

theorem Fits.congr {other : Way} (h : way.Fits scopes) (hnames : other.names? = way.names?) :
    other.Fits scopes := by
  cases h with
  | globally h => exact .globally (hnames.trans h)
  | locally h hcontains hdefined => exact .locally (hnames.trans h) hcontains hdefined

theorem Reaches.branch (h : way.Reaches around scopes) : Reaches (.branch :: way) around scopes :=
  ⟨h.around, h.fits.congr rfl, rfl⟩

theorem Reaches.loopBody (h : way.Reaches around scopes) :
    Reaches (.loopBody :: way) { around with inLoop := true } scopes :=
  ⟨by rw [h.around]; rfl, h.fits.congr rfl, rfl⟩

theorem fits_empty (h : way.names? = some []) : way.Fits (∅ :: scopes) :=
  .locally h (fun x => by simp [Dictionary.contains]) fun x => by simp

theorem Reaches.block (h : way.Reaches around scopes) :
    Reaches (.block :: way) around (∅ :: scopes) := ⟨h.around, fits_empty rfl, rfl⟩

theorem Reaches.clauses (h : way.Reaches around scopes) :
    Reaches (.clauses :: way) around (∅ :: scopes) := ⟨h.around, fits_empty rfl, rfl⟩

theorem contains_parameterScope (parameters : List Token) (x : String) :
    (parameterScope parameters).contains x = true ↔ x ∈ parameters.map Token.lexeme := by
  have hfold : ∀ scope : Scope,
      (parameters.foldl (fun scope name => scope.insert name.lexeme true) scope).contains x = true ↔
        scope.contains x = true ∨ x ∈ parameters.map Token.lexeme := by
    induction parameters with
    | nil => simp
    | cons name rest ih =>
      intro scope
      rw [List.foldl_cons, ih, Dictionary.contains_insert]
      simp only [Bool.or_eq_true, decide_eq_true_eq, List.map_cons, List.mem_cons, or_assoc]
      rw [eq_comm (a := x), or_left_comm]
  rw [parameterScope, hfold]
  simp [Dictionary.contains]

theorem fits_parameters {parameters : List Token}
    (h : way.names? = some (parameters.map Token.lexeme)) :
    way.Fits (parameterScope parameters :: scopes) :=
  .locally h (contains_parameterScope parameters) fun x hx => by
    simpa using (get?_parameterScope hx).1

theorem Reaches.functionBody (h : way.Reaches around outer) (d : Declaration) :
    Reaches (.functionBody d :: way) { around with function := .function, inLoop := false }
      (parameterScope d.parameters :: scopes) :=
  ⟨by rw [h.around]; rfl, fits_parameters rfl, rfl⟩

theorem reaches_methodBody (h : around = way.surroundings) (d : Declaration) :
    Reaches (.methodBody d :: way) { around with function := d.methodContext, inLoop := false }
      (parameterScope d.parameters :: scopes) :=
  ⟨by rw [h]; rfl, fits_parameters rfl, rfl⟩

end Way

/-- A pass over places reports nothing but broken rules, and something if a rule is broken. -/
structure Resolution.Judges (r r' : Resolution) (places : List Position) : Prop where
  reports : ∀ d ∈ r'.reported, d ∈ r.reported ∨
    ∃ token cause, d = .static token cause ∧ ∃ place ∈ places, place.Breaks token cause
  clean : r'.Clean → r.Clean ∧ ∀ place ∈ places, place.Lawful

namespace Resolution.Judges

variable {r r₁ r' : Resolution} {a b : List Position} {place : Position}

theorem skip (h : r'.reported = r.reported) : Judges r r' [] :=
  ⟨fun d hd => .inl (h ▸ hd), fun hr => ⟨h.symm.trans hr, by simp⟩⟩

theorem trans (h : Judges r r₁ a) (h' : Judges r₁ r' b) : Judges r r' (a ++ b) := by
  refine ⟨fun d hd => ?_, fun hr => ?_⟩
  · rcases h'.reports d hd with hd | ⟨token, cause, rfl, place, hp, hbreaks⟩
    · rcases h.reports d hd with hd | ⟨token, cause, rfl, place, hp, hbreaks⟩
      · exact .inl hd
      · exact .inr ⟨token, cause, rfl, place, List.mem_append_left _ hp, hbreaks⟩
    · exact .inr ⟨token, cause, rfl, place, List.mem_append_right _ hp, hbreaks⟩
  · obtain ⟨hr₁, hb⟩ := h'.clean hr
    obtain ⟨hr, ha⟩ := h.clean hr₁
    refine ⟨hr, fun place hp => ?_⟩
    rcases List.mem_append.mp hp with hp | hp
    · exact ha place hp
    · exact hb place hp

theorem swap (h : Judges r r' (a ++ b)) : Judges r r' (b ++ a) := by
  have hmem : ∀ place, place ∈ b ++ a ↔ place ∈ a ++ b := fun _ => by
    simp only [List.mem_append, or_comm]
  exact ⟨by simpa only [hmem] using h.reports, by simpa only [hmem] using h.clean⟩

theorem after (h : Judges r r₁ a) (hr : r'.reported = r₁.reported) : Judges r r' a := by
  simpa using h.trans (.skip hr)

theorem inScope (h : Judges r.openScope r' a) : Judges r r'.closeScope a := ⟨h.reports, h.clean⟩

theorem before (h : Judges r₁ r' a) (hr : r₁.reported = r.reported) : Judges r r' a := by
  simpa using (Judges.skip hr).trans h

theorem lawful (h : place.Lawful) : Judges r r [place] :=
  ⟨fun _ hd => .inl hd, fun hr => ⟨hr, by simpa using h⟩⟩

theorem breaches (found : List (Token × StaticError))
    (hr : r'.reported = r.reported ++ found.map fun breach => .static breach.1 breach.2)
    (hsound : ∀ breach ∈ found, place.Breaks breach.1 breach.2)
    (hcomplete : r.Clean → ∀ token cause, place.Breaks token cause → (token, cause) ∈ found) :
    Judges r r' [place] := by
  refine ⟨fun d hd => ?_, fun hclean => ?_⟩
  · rw [hr, List.mem_append, List.mem_map] at hd
    rcases hd with hd | ⟨breach, hbreach, rfl⟩
    · exact .inl hd
    · exact .inr ⟨breach.1, breach.2, rfl, place, by simp, hsound breach hbreach⟩
  · rw [Clean, hr, List.append_eq_nil_iff, List.map_eq_nil_iff] at hclean
    obtain ⟨hclean, rfl⟩ := hclean
    refine ⟨hclean, fun p hp token cause hbreaks => ?_⟩
    rw [List.mem_singleton.mp hp] at hbreaks
    simpa using hcomplete hclean token cause hbreaks

end Resolution.Judges

namespace Resolution

variable {r : Resolution}

def breachIf (condition : Bool) (token : Token) (cause : StaticError) : List (Token × StaticError) :=
  if condition then [(token, cause)] else []

@[simp] theorem mem_breachIf {condition : Bool} {token : Token} {cause : StaticError}
    {breach : Token × StaticError} :
    breach ∈ breachIf condition token cause ↔ condition = true ∧ breach = (token, cause) := by
  unfold breachIf
  split <;> simp_all

theorem reported_reportIf (condition : Bool) (token : Token) (cause : StaticError) :
    (r.reportIf condition token cause).reported =
      r.reported ++ (breachIf condition token cause).map fun breach => .static breach.1 breach.2 := by
  unfold reportIf breachIf
  split <;> simp [report]

@[simp] theorem reported_record (target : Reference) : (r.record target).reported = r.reported := by
  unfold record
  split <;> rfl

@[simp] theorem reported_define (name : Token) : (r.define name).reported = r.reported := by
  unfold define defineName
  split <;> rfl

@[simp] theorem reported_closeScope : r.closeScope.reported = r.reported := rfl

def hasDeclared (r : Resolution) (name : Token) : Bool :=
  r.scopes.head?.any fun scope => scope.contains name.lexeme

theorem reported_declare (name : Token) :
    (r.declare name).reported = r.reported ++
      (breachIf (r.hasDeclared name) name .alreadyDeclared).map
        fun breach => .static breach.1 breach.2 := by
  unfold declare breachIf hasDeclared
  cases r.scopes with
  | nil => simp
  | cons scope outer => by_cases h : scope.contains name.lexeme = true <;> simp [h, report]

end Resolution

theorem Way.Fits.hasDeclared {way : Way} {r : Resolution} (h : way.Fits r.scopes) (name : Token) :
    r.hasDeclared name = true ↔ ∃ names, way.names? = some names ∧ name.lexeme ∈ names := by
  unfold Resolution.hasDeclared
  generalize r.scopes = scopes at h
  cases h with
  | globally h => simp [h]
  | locally h hnames _ => simp [h, hnames]

/-- The pass comes to an expression at the end of the way. -/
structure Way.Reads (way : Way) (around : Surroundings) (globalName : Option String)
    (r : Resolution) : Prop where
  classBody : around.classBody = way.surroundings.classBody
  sound : ∀ x, r.isBeingInitialized globalName x = true → way.initialized? = some x
  complete : r.Clean → ∀ x, way.initialized? = some x → r.isBeingInitialized globalName x = true

theorem Way.Reaches.reads {way : Way} {around : Surroundings} {r : Resolution}
    (h : way.Reaches around r.scopes) : way.Reads around none r := by
  refine ⟨congrArg _ h.around, fun x hx => ?_, fun _ x hx => ?_⟩
  · have hfits := h.fits
    unfold isBeingInitialized at hx
    cases hscopes : r.scopes with
    | nil => simp [hscopes] at hx
    | cons scope outer =>
      rw [hscopes] at hfits
      cases hfits with
      | locally _ _ hdefined => exact absurd (by simpa [hscopes] using hx) (hdefined x)
  · simp [h.outside] at hx

theorem Way.Reads.past {way : Way} {around : Surroundings} {globalName : Option String}
    {r r' : Resolution} {places : List Position} (h : way.Reads around globalName r)
    (hscopes : r'.scopes = r.scopes) (hjudges : r.Judges r' places) :
    way.Reads around globalName r' := by
  have hsame (x : String) :
      r'.isBeingInitialized globalName x = r.isBeingInitialized globalName x := by
    simp [isBeingInitialized, hscopes]
  exact ⟨h.classBody, fun x hx => h.sound x (hsame x ▸ hx),
    fun hr x hx => (hsame x).trans (h.complete (hjudges.clean hr).1 x hx)⟩

def Expr.isName : Expr → Bool
  | .variable _ | .this _ | .super _ _ => true
  | _ => false

@[simp] theorem placesOf_append (way : Way) (a b : List Expr) :
    placesOf way (a ++ b) = placesOf way a ++ placesOf way b := List.map_append

theorem Resolution.Judges.compound {r r' : Resolution} {way : Way} {e : Expr} {places : List Position}
    (h : r.Judges r' places) (he : e.isName = false)
    (hplaces : e.places way = ⟨.expression e, way⟩ :: places) : r.Judges r' (e.places way) := by
  have hnode : Position.Lawful ⟨.expression e, way⟩ := by
    intro token cause hbreaks
    cases hbreaks <;> simp [Expr.isName] at he
  rw [hplaces]
  exact (Judges.lawful hnode).trans h

theorem Resolution.Judges.name {r : Resolution} {way : Way} {e : Expr} {target : Reference}
    {condition : Bool} {cause : StaticError} (he : e.isName = true)
    (hsound : condition = true → Position.Breaks ⟨.expression e, way⟩ target.name cause)
    (hcomplete : r.Clean → ∀ token other, Position.Breaks ⟨.expression e, way⟩ token other →
      condition = true ∧ token = target.name ∧ other = cause) :
    r.Judges (r.reportIf condition target.name cause) (e.places way) := by
  have hparts : e.places way = [⟨.expression e, way⟩] := by
    cases e <;> simp_all [Expr.isName, Expr.places, Expr.parts, placesOf]
  rw [hparts]
  refine .breaches _ (reported_reportIf condition target.name cause) ?_ fun hr token other h => ?_
  · rintro breach hbreach
    obtain ⟨hcondition, rfl⟩ := mem_breachIf.mp hbreach
    exact hsound hcondition
  · obtain ⟨hcondition, rfl, rfl⟩ := hcomplete hr token other h
    exact mem_breachIf.mpr ⟨hcondition, rfl⟩

theorem Way.class?_eq_none {way : Way} : way.class? = none ↔ way.surroundings.classBody = .outside := by
  unfold Way.surroundings
  rcases way.class? with _ | _ | _ <;> simp

theorem Way.class?_eq_base {way : Way} :
    way.class? = some none ↔ way.surroundings.classBody = .base := by
  unfold Way.surroundings
  rcases way.class? with _ | _ | _ <;> simp

mutual
theorem Expr.judged {way : Way} {around : Surroundings} {globalName : Option String} :
    ∀ (e : Expr) (r : Resolution), way.Reads around globalName r →
      r.Judges (e.resolve around globalName r) (e.places way)
  | .literal value, r, h => by
    have hnothing : r.Judges r [] := .skip rfl
    rw [Expr.resolve]
    exact hnothing.compound rfl (by simp [Expr.places, Expr.parts, placesOf])
  | .grouping e, r, h | .unary _ e, r, h | .get e _, r, h => by
    rw [Expr.resolve]
    exact (Expr.judged e r h).compound rfl (by simp [Expr.places, Expr.parts, placesOf])
  | .binary l _ e, r, h | .logical l _ e, r, h => by
    -- No part of an expression changes the scopes, so each part is read at the end of the same way.
    have hl := Expr.judged l r h
    have he := Expr.judged e _ (h.past (l.scopes_resolve around globalName r) hl)
    rw [Expr.resolve]
    exact (hl.trans he).compound rfl (by simp [Expr.places, Expr.parts, placesOf])
  | .conditional c (some t) e, r, h => by
    have hc := Expr.judged c r h
    have h := h.past (c.scopes_resolve around globalName r) hc
    have ht := Expr.judged t _ h
    have he := Expr.judged e _ (h.past (t.scopes_resolve around globalName _) ht)
    rw [Expr.resolve]
    exact (hc.trans (ht.trans he)).compound rfl (by simp [Expr.places, Expr.parts, placesOf])
  | .conditional c none e, r, h => by
    have hc := Expr.judged c r h
    have he := Expr.judged e _ (h.past (c.scopes_resolve around globalName r) hc)
    rw [Expr.resolve]
    exact (hc.trans he).compound rfl (by simp [Expr.places, Expr.parts, placesOf])
  | .variable target, r, h => by
    rw [Expr.resolve]
    refine (Judges.name rfl (fun hread => ?_) fun hr token other hbreaks => ?_).after
      (reported_record target)
    · exact .readInOwnInitializer (h.sound _ hread)
    · cases hbreaks with
      | readInOwnInitializer hinit => exact ⟨h.complete hr _ hinit, rfl, rfl⟩
  | .assign target e, r, h => by
    rw [Expr.resolve]
    exact ((Expr.judged e r h).after (reported_record target)).compound rfl
      (by simp [Expr.places, Expr.parts, placesOf])
  | .call f _ es, r, h => by
    have hf := Expr.judged f r h
    have hes := Expr.list_judged es _ (h.past (f.scopes_resolve around globalName r) hf)
    rw [Expr.resolve]
    exact (hf.trans hes).compound rfl (by simp [Expr.places, Expr.parts, placesOf])
  | .set o _ e, r, h => by
    have he := Expr.judged e r h
    have ho := Expr.judged o _ (h.past (e.scopes_resolve around globalName r) he)
    rw [Expr.resolve]
    exact (he.trans ho).swap.compound rfl (by simp [Expr.places, Expr.parts, placesOf])
  | .this keyword, r, h => by
    have hjudged : r.Judges
        (r.reportIf (around.classBody = .outside) keyword.name .thisOutsideClass)
        (Expr.places (.this keyword) way) := by
      refine .name rfl (fun hclass => ?_) fun _ token other hbreaks => ?_
      · exact .thisOutsideClass (Way.class?_eq_none.mpr (by simpa [h.classBody] using hclass))
      · cases hbreaks with
        | thisOutsideClass hclass => simp [h.classBody, Way.class?_eq_none.mp hclass]
    rw [Expr.resolve]
    cases hc : around.classBody with
    | outside => simpa [hc, reportIf] using hjudged
    | base | derived =>
      have hjudged : r.Judges r (Expr.places (.this keyword) way) := by
        simpa [hc, reportIf] using hjudged
      exact hjudged.after (reported_record keyword)
  | .super keyword method, r, h => by
    have hnone := @Way.class?_eq_none way
    have hbase := @Way.class?_eq_base way
    rw [← h.classBody] at hnone hbase
    rw [Expr.resolve]
    cases hc : around.classBody with
    | outside =>
      have hreport : r.Judges (r.reportIf true keyword.name .superOutsideClass)
          (Expr.places (.super keyword method) way) :=
        .name rfl (fun _ => .superOutsideClass (hnone.mpr hc)) fun _ token other hbreaks => by
          cases hbreaks <;> simp_all
      exact hreport.after (reported_record keyword)
    | base =>
      have hreport : r.Judges (r.reportIf true keyword.name .superWithoutSuperclass)
          (Expr.places (.super keyword method) way) :=
        .name rfl (fun _ => .superWithoutSuperclass (hbase.mpr hc)) fun _ token other hbreaks => by
          cases hbreaks <;> simp_all
      exact hreport.after (reported_record keyword)
    | derived =>
      have hnothing : r.Judges (r.reportIf false keyword.name .superOutsideClass)
          (Expr.places (.super keyword method) way) :=
        .name rfl (by simp) fun _ token other hbreaks => by cases hbreaks <;> simp_all
      exact hnothing.after (reported_record keyword)

theorem Expr.list_judged {way : Way} {around : Surroundings} {globalName : Option String} :
    ∀ (es : List Expr) (r : Resolution), way.Reads around globalName r →
      r.Judges (Expr.resolveList around globalName es r) (placesOf way (Expr.allParts es))
  | [], r, h => by
    rw [Expr.resolveList]
    exact .skip rfl
  | e :: rest, r, h => by
    have he := Expr.judged e r h
    have hrest := Expr.list_judged rest _ (h.past (e.scopes_resolve around globalName r) he)
    rw [Expr.resolveList, Expr.allParts, placesOf_append]
    exact he.trans hrest
end

theorem Expr.option_judged {way : Way} {around : Surroundings} {r : Resolution} (e : Option Expr)
    (h : way.Reads around none r) :
    r.Judges (Expr.resolveOption around e r) (Expr.optionPlaces way e) := by
  cases e with
  | none => exact .skip rfl
  | some e => exact Expr.judged e r h

theorem Way.function?_eq_none {way : Way} :
    way.function? = none ↔ way.surroundings.function = .outside := by
  unfold Way.surroundings Declaration.methodContext
  cases h : way.function? with
  | none => simp
  | some edge =>
    cases edge with
    | methodBody d => by_cases hd : d.name.lexeme = initializerName <;> simp [hd]
    | _ => simp

theorem Way.initializer_iff {way : Way} :
    (∃ d, way.function? = some (.methodBody d) ∧ d.name.lexeme = initializerName) ↔
      way.surroundings.function = .initializer := by
  unfold Way.surroundings Declaration.methodContext
  cases h : way.function? with
  | none => simp
  | some edge =>
    cases edge with
    | methodBody d => by_cases hd : d.name.lexeme = initializerName <;> simp [hd]
    | _ => simp

def Stmt.isFree : Stmt → Bool
  | .expression _ | .print _ | .block _ | .branch _ _ _ | .loop _ _ _ _ => true
  | _ => false

namespace Resolution.Judges

variable {r r' : Resolution} {way : Way} {s : Stmt} {places : List Position}

theorem under (h : r.Judges r' places) (hs : s.isFree = true) :
    r.Judges r' (⟨.statement s, way⟩ :: places) := by
  have hnode : Position.Lawful ⟨.statement s, way⟩ := by
    intro token cause hbreaks
    cases hbreaks with
    | alreadyDeclared hname => cases s <;> simp_all [Stmt.isFree, Stmt.declaredName?]
    | _ => simp [Stmt.isFree] at hs
  exact (Judges.lawful hnode).trans h

theorem declares {name : Token} (hs : s.declaredName? = some name)
    (hbase : ∀ other base ds, s ≠ .declareClass other (some base) ds) (h : way.Fits r.scopes) :
    r.Judges (r.declare name) [⟨.statement s, way⟩] := by
  refine .breaches _ (reported_declare name) ?_ fun _ token cause hbreaks => ?_
  · intro breach hbreach
    obtain ⟨hdeclared, rfl⟩ := mem_breachIf.mp hbreach
    obtain ⟨names, hnames, hname⟩ := (h.hasDeclared name).mp hdeclared
    exact .alreadyDeclared hs hnames hname
  · cases hbreaks with
    | alreadyDeclared hs' hnames hname =>
      obtain rfl : name = token := by simpa [hs] using hs'
      exact mem_breachIf.mpr ⟨(h.hasDeclared name).mpr ⟨_, hnames, hname⟩, rfl⟩
    | inheritsFromItself => exact absurd rfl (hbase _ _ _)
    | _ => simp [Stmt.declaredName?] at hs

theorem derives {name : Token} {base : Reference} {ds : List Declaration} (h : way.Fits r.scopes) :
    r.Judges (((r.declare name).define name).reportIf (base.name.lexeme = name.lexeme) base.name
      .inheritsFromItself) [⟨.statement (.declareClass name (some base) ds), way⟩] := by
  refine .breaches (breachIf (r.hasDeclared name) name .alreadyDeclared ++
    breachIf (base.name.lexeme = name.lexeme) base.name .inheritsFromItself) ?_ ?_
      fun _ token cause hbreaks => ?_
  · rw [reported_reportIf, reported_define, reported_declare, List.map_append, List.append_assoc]
  · intro breach hbreach
    rcases List.mem_append.mp hbreach with hbreach | hbreach
    · obtain ⟨hdeclared, rfl⟩ := mem_breachIf.mp hbreach
      obtain ⟨names, hnames, hname⟩ := (h.hasDeclared name).mp hdeclared
      exact .alreadyDeclared rfl hnames hname
    · obtain ⟨hsame, rfl⟩ := mem_breachIf.mp hbreach
      exact .inheritsFromItself (by simpa using hsame)
  · cases hbreaks with
    | alreadyDeclared hs hnames hname =>
      obtain rfl : name = token := by simpa [Stmt.declaredName?] using hs
      exact List.mem_append_left _
        (mem_breachIf.mpr ⟨(h.hasDeclared name).mpr ⟨_, hnames, hname⟩, rfl⟩)
    | inheritsFromItself hsame => exact List.mem_append_right _ (mem_breachIf.mpr ⟨by simpa, rfl⟩)

theorem leavesLoop {keyword : Token} {cause : StaticError} {inLoop : Bool}
    (hs : s = .breakLoop keyword ∧ cause = .breakOutsideLoop ∨
      s = .continueLoop keyword ∧ cause = .continueOutsideLoop) (h : inLoop = way.inLoop) :
    r.Judges (r.reportIf (!inLoop) keyword cause) [⟨.statement s, way⟩] := by
  refine .breaches _ (reported_reportIf _ keyword cause) ?_ fun _ token other hbreaks => ?_
  · intro breach hbreach
    obtain ⟨houtside, rfl⟩ := mem_breachIf.mp hbreach
    have houtside : way.inLoop = false := by simpa [h] using houtside
    rcases hs with ⟨rfl, rfl⟩ | ⟨rfl, rfl⟩
    · exact .breakOutsideLoop houtside
    · exact .continueOutsideLoop houtside
  · rcases hs with ⟨rfl, rfl⟩ | ⟨rfl, rfl⟩
    all_goals cases hbreaks <;> simp_all [Stmt.declaredName?]

/-- A `return` outside of functions, or with a value in an initializer. -/
theorem returns {around : Surroundings} {keyword : Token} {e : Option Expr}
    (h : around.function = way.surroundings.function) :
    r.Judges ((r.reportIf (around.function = .outside) keyword .returnAtTopLevel).reportIf
      (e.isSome && around.function = .initializer) keyword .returnFromInitializer)
      [⟨.statement (.returnWith keyword e), way⟩] := by
  refine .breaches (breachIf (around.function = .outside) keyword .returnAtTopLevel ++
    breachIf (e.isSome && around.function = .initializer) keyword .returnFromInitializer) ?_ ?_
      fun _ token other hbreaks => ?_
  · rw [reported_reportIf, reported_reportIf, List.map_append, List.append_assoc]
  · intro breach hbreach
    rcases List.mem_append.mp hbreach with hbreach | hbreach
    · obtain ⟨houtside, rfl⟩ := mem_breachIf.mp hbreach
      exact .returnAtTopLevel (Way.function?_eq_none.mpr (by simpa [h] using houtside))
    · obtain ⟨hinit, rfl⟩ := mem_breachIf.mp hbreach
      simp only [Bool.and_eq_true, decide_eq_true_eq, h, ← Way.initializer_iff] at hinit
      obtain ⟨hvalue, d, hd, hname⟩ := hinit
      obtain ⟨e, rfl⟩ := Option.isSome_iff_exists.mp hvalue
      exact .returnFromInitializer hd hname
  · cases hbreaks with
    | returnAtTopLevel hnone =>
      have houtside := Way.function?_eq_none.mp hnone
      exact List.mem_append_left _ (mem_breachIf.mpr ⟨by simpa [h] using houtside, rfl⟩)
    | returnFromInitializer hd hname =>
      have hinit := Way.initializer_iff.mp ⟨_, hd, hname⟩
      exact List.mem_append_right _ (mem_breachIf.mpr ⟨by simpa [h] using hinit, rfl⟩)
    | alreadyDeclared hs => simp [Stmt.declaredName?] at hs

theorem parameters {way : Way} : ∀ (rest earlier : List Token) (r : Resolution)
    (scope : Scope) (outer : List Scope), r.scopes = scope :: outer →
    (∀ x, scope.contains x = true ↔ x ∈ earlier.map Token.lexeme) →
    r.Judges (r.declareParameters rest) (parameterPlaces way earlier rest)
  | [], _, r, _, _, _, _ => .skip rfl
  | name :: rest, earlier, r, scope, outer, hr, hscope => by
    have hdeclared : r.hasDeclared name = true ↔ name.lexeme ∈ earlier.map Token.lexeme := by
      simp only [hasDeclared, hr, List.head?_cons, Option.any_some, hscope]
    have hname : r.Judges ((r.declare name).define name) [⟨.parameter name earlier, way⟩] := by
      refine .breaches _ ((reported_define name).trans (reported_declare name)) ?_
        fun _ token cause hbreaks => ?_
      · intro breach hbreach
        obtain ⟨h, rfl⟩ := mem_breachIf.mp hbreach
        exact .parameterAlreadyDeclared (hdeclared.mp h)
      · cases hbreaks with
        | parameterAlreadyDeclared h => exact mem_breachIf.mpr ⟨hdeclared.mpr h, rfl⟩
    have hscopes : ((r.declare name).define name).scopes =
        scope.insert name.lexeme true :: outer := by
      rw [scopes_declareDefine, hr]
      rfl
    refine hname.trans (Judges.parameters rest (earlier ++ [name]) _ _ outer hscopes fun x => ?_)
    rw [Dictionary.contains_insert]
    simp only [Bool.or_eq_true, decide_eq_true_eq, hscope, List.map_append, List.mem_append,
      List.map_cons, List.map_nil, List.mem_singleton]
    rw [eq_comm, or_comm]

end Resolution.Judges

theorem Way.Reaches.initializer {way : Way} {around : Surroundings} {r : Resolution}
    (h : way.Reaches around r.scopes) (name : Token) :
    Way.Reads (.initializer name :: way) around
      (if r.scopes.isEmpty then some name.lexeme else none) (r.declare name) := by
  refine ⟨congrArg _ h.around, fun x hx => ?_, fun hr x hx => ?_⟩
  · have hfits := h.fits
    unfold isBeingInitialized at hx
    cases hscopes : r.scopes with
    | nil =>
      have hnone : (r.declare name).scopes = [] := by simp [declare, hscopes]
      simpa [hnone, hscopes, Way.initialized?] using hx
    | cons scope outer =>
      rw [hscopes] at hfits
      cases hfits with
      | locally _ _ hdefined =>
        rcases scopes_declare (r := r) name with hsame | hmark
        · exact absurd (by simpa [hsame, hscopes] using hx) (hdefined x)
        · by_cases hname : name.lexeme = x
          · exact congrArg some hname
          · refine absurd ?_ (hdefined x)
            simpa [hmark, hscopes, markName, Dictionary.get?_insert, hname] using hx
  · obtain rfl : name.lexeme = x := by simpa [Way.initialized?] using hx
    unfold isBeingInitialized
    rw [Clean.scopes_declare hr]
    cases r.scopes <;> simp [markName]

theorem Stmt.increment_judged {way : Way} {around : Surroundings} {n : Option Stmt} {r : Resolution}
    (hn : n.all Stmt.isExpression = true) (h : way.Reads around none r) :
    r.Judges (Stmt.resolveOption around n r) (Stmt.optionPlaces n way) := by
  obtain ⟨n, rfl⟩ := Stmt.exists_increment hn
  rw [Stmt.resolveOption_map]
  cases n with
  | none => exact .skip rfl
  | some e => exact (Expr.judged e r h).under rfl

/-- The parts of a loop, in the scopes it runs in. -/
theorem Stmt.loop_judged {way : Way} {around : Surroundings} {c : Expr} {n : Option Stmt} {b : Stmt}
    {r : Resolution} (hp : n.all Stmt.isExpression = true ∧ (b.Proper ∧ b.declares = false))
    (h : way.Reaches around r.scopes)
    (hbody : ∀ r' : Resolution, r'.scopes = r.scopes →
      r'.Judges (b.resolve { around with inLoop := true } r') (b.places (.loopBody :: way))) :
    r.Judges (Stmt.resolveOption around n
        (b.resolve { around with inLoop := true } (c.resolve around none r)))
      (c.places way ++ b.places (.loopBody :: way) ++ Stmt.optionPlaces n way) := by
  have hc := Expr.judged c r h.reads
  have hscopes := c.scopes_resolve around none r
  have hmark := b.scopes_resolve { around with inLoop := true } (c.resolve around none r) hp.2.1
  rw [hscopes, Stmt.mark_of_not_declares hp.2.2] at hmark
  have hn := Stmt.increment_judged hp.1 (Way.Reaches.reads (hmark ▸ h))
  exact (hc.trans (hbody _ hscopes)).trans hn

mutual
theorem Stmt.judged : ∀ (s : Stmt) {way : Way} {around : Surroundings} (r : Resolution), s.Proper →
    way.Reaches around r.scopes → r.Judges (s.resolve around r) (s.places way)
  | .expression e, way, around, r, _, h | .print e, way, around, r, _, h => by
    rw [Stmt.resolve, Stmt.places]
    exact (Expr.judged e r h.reads).under rfl
  | .declareVar name none, way, around, r, _, h => by
    rw [Stmt.resolve, Stmt.places]
    exact (Judges.declares rfl (by simp) h.fits).after (reported_define name)
  | .declareVar name (some e), way, around, r, hp, h => by
    -- The name is declared first, and its initializer is read with the name not yet defined.
    have hname : r.Judges (r.declare name) [⟨.statement (.declareVar name (some e)), way⟩] :=
      .declares rfl (by simp) h.fits
    simp only [Stmt.resolve, Stmt.places]
    exact (hname.trans (Expr.judged e _ (h.initializer name))).after (reported_define name)
  | .block body, way, around, r, hp, h => by
    have hbody : r.openScope.Judges (Stmt.resolveList around body r.openScope)
        (Stmt.listPlaces body (.block :: way)) := Stmt.list_judged body r.openScope hp h.block
    rw [Stmt.resolve, Stmt.places]
    exact hbody.inScope.under rfl
  | .branch c t (some e), way, around, r, hp, h => by
    have hc := Expr.judged c r h.reads
    have hscopes := c.scopes_resolve around none r
    have ht := Stmt.judged t (c.resolve around none r) hp.1.1 (hscopes ▸ h.branch)
    have hmark := t.scopes_resolve around (c.resolve around none r) hp.1.1
    rw [hscopes, Stmt.mark_of_not_declares hp.1.2] at hmark
    have he := Stmt.judged e (t.resolve around (c.resolve around none r)) hp.2.1 (hmark ▸ h.branch)
    rw [Stmt.resolve, Stmt.places]
    exact ((hc.trans ht).trans he).under rfl
  | .branch c t none, way, around, r, hp, h => by
    have hc := Expr.judged c r h.reads
    have hscopes := c.scopes_resolve around none r
    have ht := Stmt.judged t (c.resolve around none r) hp.1 (hscopes ▸ h.branch)
    rw [Stmt.resolve, Stmt.places]
    exact (hc.trans ht).under rfl
  | .loop (some i) c n b, way, around, r, hp, h => by
    have hi := Stmt.judged i r.openScope hp.1.1 h.clauses
    have hscopes := i.scopes_resolve around r.openScope hp.1.1
    have hinner := h.clauses.after i
    have hloop := Stmt.loop_judged (c := c) (n := n) hp.2 (hscopes ▸ hinner) fun r' hr' =>
      Stmt.judged b r' hp.2.2.1 (hr' ▸ hscopes ▸ hinner.loopBody)
    simp only [Stmt.resolve, Stmt.places]
    rw [List.append_assoc, List.append_assoc, ← List.append_assoc (Expr.places _ _)]
    exact (hi.trans hloop).inScope.under rfl
  | .loop none c n b, way, around, r, hp, h => by
    have hloop := Stmt.loop_judged (c := c) (n := n) hp h fun r' hr' =>
      Stmt.judged b r' hp.2.1 (hr' ▸ h.loopBody)
    rw [Stmt.resolve, Stmt.places]
    exact hloop.under rfl
  | .declareFunction d, way, around, r, hp, h => by
    have hname : r.Judges (r.declare d.name) [⟨.statement (.declareFunction d), way⟩] :=
      .declares rfl (by simp) h.fits
    have hbody := Declaration.judged d .function ((r.declare d.name).define d.name) hp
      (h.functionBody d)
    rw [Stmt.resolve, Stmt.places]
    exact (hname.after (reported_define d.name)).trans hbody
  | .returnWith keyword e, way, around, r, _, h => by
    rw [Stmt.resolve, Stmt.places]
    refine (Judges.returns (congrArg _ h.around)).trans
      (Expr.option_judged e (Way.Reaches.reads ?_))
    simpa using h
  | .breakLoop keyword, way, around, r, _, h => by
    rw [Stmt.resolve, Stmt.places]
    exact .leavesLoop (.inl ⟨rfl, rfl⟩) (congrArg _ h.around)
  | .continueLoop keyword, way, around, r, _, h => by
    rw [Stmt.resolve, Stmt.places]
    exact .leavesLoop (.inr ⟨rfl, rfl⟩) (congrArg _ h.around)
  | .declareClass name none ds, way, around, r, hp, h => by
    have hname : r.Judges (r.declare name) [⟨.statement (.declareClass name none ds), way⟩] :=
      .declares rfl (by simp) h.fits
    have hmethods := @Declaration.methods_judged ds (.classBody none :: way) _
      (((r.declare name).define name).openScope.defineName "this") hp.2
        (show { around with classBody := .base } = _ by rw [h.around]; rfl)
    simp only [Stmt.resolve, Stmt.places]
    exact (hname.trans (hmethods.before (reported_define name))).after rfl
  | .declareClass name (some base) ds, way, around, r, hp, h => by
    have hname := @Judges.derives r way name base ds h.fits
    have hmethods := @Declaration.methods_judged ds (.classBody (some base) :: way) _
      ((((((r.declare name).define name).reportIf (base.name.lexeme = name.lexeme) base.name
        .inheritsFromItself).record base).openScope.defineName "super").openScope.defineName "this")
      hp.2 (show { around with classBody := .derived } = _ by rw [h.around]; rfl)
    simp only [Stmt.resolve, Stmt.places]
    exact (hname.trans (hmethods.before (reported_record base))).after rfl

theorem Stmt.list_judged : ∀ (body : List Stmt) {way : Way} {around : Surroundings} (r : Resolution),
    Stmt.AllProper body → way.Reaches around r.scopes →
      r.Judges (Stmt.resolveList around body r) (Stmt.listPlaces body way)
  | [], way, around, r, _, _ => by
    rw [Stmt.resolveList]
    exact .skip rfl
  | s :: rest, way, around, r, hp, h => by
    have hs := Stmt.judged s r hp.1 h
    have h := h.after s
    rw [← s.scopes_resolve around r hp.1] at h
    rw [Stmt.resolveList, Stmt.listPlaces]
    exact hs.trans (Stmt.list_judged rest _ hp.2 h)

theorem Declaration.judged : ∀ (d : Declaration) {way : Way} {around : Surroundings}
    (kind : EnclosingFunction) (r : Resolution), d.Proper →
      way.Reaches { around with function := kind, inLoop := false }
        (parameterScope d.parameters :: r.scopes) →
      r.Judges (d.resolve around kind r) (d.places way)
  | .mk name parameters body, way, around, kind, r, hp, h => by
    have hparameters : r.openScope.Judges (r.openScope.declareParameters parameters)
        (parameterPlaces way [] parameters) :=
      .parameters parameters [] r.openScope ∅ r.scopes rfl (by simp [Dictionary.contains])
    have hbody := Stmt.list_judged body (r.openScope.declareParameters parameters) hp.2.2
      (scopes_declareParameters parameters (r := r.openScope) rfl ▸ h)
    simp only [Declaration.resolve, Declaration.places]
    exact (hparameters.trans hbody).inScope

theorem Declaration.methods_judged : ∀ (ds : List Declaration) {way : Way} {around : Surroundings}
    (r : Resolution), Declaration.AllProper ds → around = way.surroundings →
      r.Judges (Declaration.resolveMethods around ds r) (Declaration.methodPlaces ds way)
  | [], way, around, r, _, _ => by
    rw [Declaration.resolveMethods]
    exact .skip rfl
  | d :: rest, way, around, r, hp, h => by
    have hd := Declaration.judged d d.methodContext r hp.1 (Way.reaches_methodBody h d)
    rw [Declaration.resolveMethods, Declaration.methodPlaces]
    exact hd.trans (Declaration.methods_judged rest _ hp.2 h)
end

theorem Program.judged {P : Program} (hp : Stmt.AllProper P) :
    Resolution.start.Judges (Stmt.resolveList .program P .start) P.places :=
  Stmt.list_judged P .start hp Way.reaches_top

/-- Programs are accepted just when no place breaks a rule, and every error of one that is not accepted
is about a place that breaks that rule. -/
theorem Program.resolves_iff_lawful {source : String} {tokens : List Token} {first next : ReferenceId}
    {P : Program} (htokens : Token.ofSource source = .ok tokens)
    (hP : Program.ofTokens first tokens = (.ok P, next)) :
    ((∃ hops, P.resolve = .ok hops) ↔ ∀ place ∈ P.places, place.Lawful) ∧
      ∀ errors, P.resolve = .error errors → errors ≠ [] ∧
        ∀ d ∈ errors, ∃ token cause, d = .static token cause ∧
          ∃ place ∈ P.places, place.Breaks token cause := by
  -- Names of source text are ordinary where the grammar asks for a name.
  have hproper : Stmt.AllProper P := by
    obtain ⟨body, last, rfl, hlast⟩ := Token.ofSource_ended htokens
    obtain ⟨w, t, rest, happend, -, hbuilt⟩ := Program.ofTokens_built hlast hP
    exact hbuilt.derives.proper fun u hu => Token.ofSource_genuine htokens u (by simp [happend, hu])
  obtain ⟨hreports, hclean⟩ := Program.judged hproper
  have hsound : ∀ d ∈ (Stmt.resolveList .program P .start).reported, ∃ token cause,
      d = .static token cause ∧ ∃ place ∈ P.places, place.Breaks token cause := fun d hd =>
    (hreports d hd).resolve_left (by simp [Resolution.start])
  refine ⟨⟨?_, fun hlawful => ?_⟩, fun errors herrors => ?_⟩
  · rintro ⟨hops, h⟩
    exact (hclean (Program.resolve_ok h).1).2
  · have hnothing : (Stmt.resolveList .program P .start).reported = [] := by
      refine List.eq_nil_iff_forall_not_mem.mpr fun d hd => ?_
      obtain ⟨token, cause, -, place, hplace, hbreaks⟩ := hsound d hd
      exact hlawful place hplace token cause hbreaks
    exact ⟨(Stmt.resolveList .program P .start).hops, by simp [Program.resolve, hnothing]⟩
  · obtain ⟨hsome, rfl⟩ := Program.resolve_error herrors
    exact ⟨hsome, hsound⟩

/-- In `fun f(a) { var a; }` the parameter and the variable share a scope. -/
theorem Program.sharedScope_refused :
    ∃ tokens P next, Token.ofSource "fun f(a) \x7b var a; \x7d" = .ok tokens ∧
      Program.ofTokens 0 tokens = (.ok P, next) ∧ (¬ ∃ hops, P.resolve = .ok hops) ∧
      ∃ place ∈ P.places, place.Breaks ⟨.identifier, "a", 1⟩ .alreadyDeclared := by
  let name : Token := ⟨.identifier, "f", 1⟩
  let parameter : Token := ⟨.identifier, "a", 1⟩
  let P : Program := [.declareFunction (.mk name [parameter] [.declareVar parameter none])]
  have htokens : Token.ofSource "fun f(a) \x7b var a; \x7d" = .ok
      [⟨.keyword .funWord, "fun", 1⟩, name, ⟨.mark .leftParen, "(", 1⟩, parameter,
        ⟨.mark .rightParen, ")", 1⟩, ⟨.mark .leftBrace, "\x7b", 1⟩, ⟨.keyword .varWord, "var", 1⟩,
        parameter, ⟨.mark .semicolon, ";", 1⟩, ⟨.mark .rightBrace, "\x7d", 1⟩,
        ⟨.endOfInput, "", 1⟩] := by
    cbv
  have hP : Program.ofTokens 0
      [⟨.keyword .funWord, "fun", 1⟩, name, ⟨.mark .leftParen, "(", 1⟩, parameter,
        ⟨.mark .rightParen, ")", 1⟩, ⟨.mark .leftBrace, "\x7b", 1⟩, ⟨.keyword .varWord, "var", 1⟩,
        parameter, ⟨.mark .semicolon, ";", 1⟩, ⟨.mark .rightBrace, "\x7d", 1⟩,
        ⟨.endOfInput, "", 1⟩] = (.ok P, 0) := by
    cbv
  have hresolve : P.resolve = .error [.static parameter .alreadyDeclared] := by cbv
  obtain ⟨hiff, herrors⟩ := Program.resolves_iff_lawful htokens hP
  obtain ⟨-, hbreaks⟩ := herrors _ hresolve
  obtain ⟨token, cause, hd, place, hplace, hbreak⟩ := hbreaks _ List.mem_cons_self
  cases hd
  refine ⟨_, P, 0, htokens, hP, ?_, place, hplace, hbreak⟩
  exact fun hok => hiff.mp hok place hplace _ _ hbreak

end LoxLang
