import LoxLang.Proofs.Scope.Lookups
import LoxLang.Proofs.Scope.Reports
import LoxLang.Proofs.Syntax.Proper

set_option autoImplicit false

namespace LoxLang

namespace Dictionary

variable {α : Type}

theorem contains_insert (d : Dictionary α) (name other : String) (value : α) :
    (d.insert name value).contains other = (decide (name = other) || d.contains other) := by
  unfold contains
  rw [get?_insert]
  split <;> simp_all

theorem insert_insert (d : Dictionary α) (name : String) (a b : α) :
    (d.insert name a).insert name b = d.insert name b := by
  have hput : ∀ entries : List (String × α),
      put name b (put name a entries) = put name b entries := by
    intro entries
    induction entries with
    | nil => simp [put]
    | cons entry rest ih =>
      by_cases h : entry.1 = name
      · simp [put, h]
      · simp [put, h, ih]
  simp [insert, hput]

end Dictionary

@[simp] theorem distanceIn_nil (name : String) : distanceIn name [] = none := rfl

theorem distanceIn_cons (name : String) (scope : Scope) (scopes : List Scope) :
    distanceIn name (scope :: scopes) =
      if scope.contains name then some 0 else (distanceIn name scopes).map (· + 1) := by
  simp [distanceIn, List.findIdx?_cons]

theorem contains_of_distanceIn {name : String} {scopes : List Scope} {d : Nat} {scope : Scope}
    (h : distanceIn name scopes = some d) (hscope : scopes[d]? = some scope) :
    scope.contains name = true := by
  have hfound := (List.findIdx?_eq_some_iff_getElem.mp h)
  obtain ⟨hlt, hcontains, -⟩ := hfound
  rw [List.getElem?_eq_getElem hlt] at hscope
  cases hscope
  exact hcontains

theorem distanceIn_markName {name other : String} (h : name ≠ other) (defined : Bool)
    (scopes : List Scope) : distanceIn other (markName name defined scopes) = distanceIn other scopes := by
  cases scopes with
  | nil => rfl
  | cons scope outer => simp [markName, distanceIn_cons, Dictionary.contains_insert, h]

theorem markName_markName (name : String) (a b : Bool) (scopes : List Scope) :
    markName name b (markName name a scopes) = markName name b scopes := by
  cases scopes with
  | nil => rfl
  | cons scope outer => simp [markName, Dictionary.insert_insert]

/-- The scope of `super` stands right outside the nearest one that has `this`, and has nothing else. -/
structure SeatedAt (d : Nat) (scopes : List Scope) : Prop where
  this : distanceIn "this" scopes = some d
  super : distanceIn "super" scopes = some (d + 1)
  inner : ∃ scope, scopes[d]? = some scope ∧ scope.get? "this" = some true
  outer : scopes[d + 1]? = some (oneName "super")

def Seated (scopes : List Scope) : Prop := ∃ d, SeatedAt d scopes

def AllDefined (scopes : List Scope) : Prop :=
  ∀ scope ∈ scopes, ∀ name, scope.get? name ≠ some false

/-- Everything is defined but ordinary names in the innermost scope. -/
structure OuterDefined (scopes : List Scope) : Prop where
  outer : ∀ scope ∈ scopes.tail, ∀ name, scope.get? name ≠ some false
  this : ∀ scope ∈ scopes, scope.get? "this" ≠ some false
  super : ∀ scope ∈ scopes, scope.get? "super" ≠ some false

theorem AllDefined.outerDefined {scopes : List Scope} (h : AllDefined scopes) :
    OuterDefined scopes :=
  ⟨fun scope hs => h scope (List.mem_of_mem_tail hs), fun scope hs => h scope hs "this",
    fun scope hs => h scope hs "super"⟩

theorem AllDefined.push {scope : Scope} {scopes : List Scope}
    (hscope : ∀ name, scope.get? name ≠ some false) (h : AllDefined scopes) :
    AllDefined (scope :: scopes) := by
  intro s hs
  rcases List.mem_cons.mp hs with rfl | hs
  · exact hscope
  · exact h s hs

theorem AllDefined.mark {scopes : List Scope} (h : AllDefined scopes) (name : String) :
    AllDefined (markName name true scopes) := by
  cases scopes with
  | nil => exact h
  | cons scope outer =>
    refine AllDefined.push (fun other => ?_) fun s hs => h s (List.mem_cons_of_mem _ hs)
    rw [Dictionary.get?_insert]
    split
    · simp
    · exact h scope List.mem_cons_self other

theorem AllDefined.initializing {scopes : List Scope} (h : AllDefined scopes) {name : Token}
    (hname : name.Ordinary) : OuterDefined (markName name.lexeme false scopes) := by
  cases scopes with
  | nil => exact h.outerDefined
  | cons scope outer =>
    refine ⟨fun s hs => h s (List.mem_cons_of_mem _ hs), fun s hs => ?_, fun s hs => ?_⟩
    all_goals
      rcases List.mem_cons.mp hs with rfl | hs
      · rw [Dictionary.get?_insert]
        simp only [hname.not_this, hname.not_super, if_false]
        exact h scope List.mem_cons_self _
      · exact h s (List.mem_cons_of_mem _ hs) _

theorem get?_parameterScope {parameters : List Token} {name : String} {defined : Bool}
    (h : (parameterScope parameters).get? name = some defined) :
    defined = true ∧ ∃ p ∈ parameters, p.lexeme = name := by
  have hfold : ∀ (parameters : List Token) (scope : Scope),
      (parameters.foldl (fun scope name => scope.insert name.lexeme true) scope).get? name =
        some defined → scope.get? name = some defined ∨
          defined = true ∧ ∃ p ∈ parameters, p.lexeme = name := by
    intro parameters
    induction parameters with
    | nil => exact fun _ h => .inl h
    | cons p rest ih =>
      intro scope h
      rcases ih _ h with h | ⟨hd, q, hq, hname⟩
      · rw [Dictionary.get?_insert] at h
        split at h
        · exact .inr ⟨by simpa using h.symm, p, List.mem_cons_self, ‹_›⟩
        · exact .inl h
      · exact .inr ⟨hd, q, List.mem_cons_of_mem _ hq, hname⟩
  rcases hfold parameters ∅ h with h | h
  · simp at h
  · exact h

theorem get?_oneName {name other : String} {defined : Bool}
    (h : (oneName name).get? other = some defined) : defined = true ∧ name = other := by
  rw [oneName, Dictionary.get?_insert] at h
  split at h
  · exact ⟨by simpa using h.symm, ‹_›⟩
  · simp at h

theorem AllDefined.parameters (parameters : List Token) {scopes : List Scope} (h : AllDefined scopes) :
    AllDefined (parameterScope parameters :: scopes) :=
  h.push fun _ hname => absurd (get?_parameterScope hname).1 (by simp)

theorem AllDefined.oneName (name : String) {scopes : List Scope} (h : AllDefined scopes) :
    AllDefined (LoxLang.oneName name :: scopes) :=
  h.push fun _ hother => absurd (get?_oneName hother).1 (by simp)

theorem AllDefined.stmt {scopes : List Scope} (h : AllDefined scopes) (s : Stmt) :
    AllDefined (s.mark scopes) := by
  cases s <;> first | exact h.mark _ | exact h

theorem Seated.push {scope : Scope} {scopes : List Scope} (hthis : scope.contains "this" = false)
    (hsuper : scope.contains "super" = false) (h : Seated scopes) : Seated (scope :: scopes) := by
  obtain ⟨d, h⟩ := h
  exact ⟨d + 1, by simp [distanceIn_cons, hthis, h.this], by simp [distanceIn_cons, hsuper, h.super],
    by simpa using h.inner, by simpa using h.outer⟩

theorem Seated.mark {scopes : List Scope} (h : Seated scopes) {name : Token} (hname : name.Ordinary)
    (defined : Bool) : Seated (markName name.lexeme defined scopes) := by
  obtain ⟨d, h⟩ := h
  refine ⟨d, by rw [distanceIn_markName hname.not_this, h.this],
    by rw [distanceIn_markName hname.not_super, h.super], ?_, ?_⟩
  · obtain ⟨seat, hseat, hthis⟩ := h.inner
    cases scopes with
    | nil => simp at hseat
    | cons scope outer =>
      cases d with
      | zero =>
        obtain rfl : scope = seat := by simpa using hseat
        exact ⟨_, rfl, by rw [Dictionary.get?_insert, if_neg hname.not_this, hthis]⟩
      | succ d => exact ⟨seat, by simpa [markName] using hseat, hthis⟩
  · have houter := h.outer
    cases scopes with
    | nil => simp at houter
    | cons scope outer => simpa [markName] using houter

theorem seated_classBody (scopes : List Scope) :
    Seated (oneName "this" :: oneName "super" :: scopes) := by
  have hthis : (oneName "this").contains "this" = true := by decide
  have hnot : (oneName "this").contains "super" = false := by decide
  have hsuper : (oneName "super").contains "super" = true := by decide
  exact ⟨0, by simp [distanceIn_cons, hthis], by simp [distanceIn_cons, hnot, hsuper],
    ⟨oneName "this", rfl, by decide⟩, rfl⟩

/-- What the checks rely on. -/
structure Standing (classBody : EnclosingClass) (scopes : List Scope) : Prop where
  defined : AllDefined scopes
  seated : classBody = .derived → Seated scopes

namespace Standing

variable {classBody : EnclosingClass} {scopes : List Scope}

theorem top : Standing .outside [] := ⟨fun _ h => by simp at h, fun h => by cases h⟩

theorem mark (h : Standing classBody scopes) {name : Token} (hname : name.Ordinary) :
    Standing classBody (markName name.lexeme true scopes) :=
  ⟨h.defined.mark _, fun hc => (h.seated hc).mark hname true⟩

theorem block (h : Standing classBody scopes) : Standing classBody (∅ :: scopes) :=
  ⟨h.defined.push (by simp), fun hc => (h.seated hc).push rfl rfl⟩

theorem parameters (h : Standing classBody scopes) {parameters : List Token}
    (hparameters : ∀ p ∈ parameters, p.Ordinary) :
    Standing classBody (parameterScope parameters :: scopes) := by
  have habsent : ∀ other, (∀ p ∈ parameters, p.lexeme ≠ other) →
      (parameterScope parameters).contains other = false := by
    intro other hother
    cases hget : (parameterScope parameters).get? other with
    | none => simp [Dictionary.contains, hget]
    | some defined =>
      obtain ⟨-, p, hp, hname⟩ := get?_parameterScope hget
      exact absurd hname (hother p hp)
  refine ⟨h.defined.push fun name hfalse => ?_, fun hc => (h.seated hc).push ?_ ?_⟩
  · simpa using (get?_parameterScope hfalse).1
  · exact habsent "this" fun p hp => (hparameters p hp).not_this
  · exact habsent "super" fun p hp => (hparameters p hp).not_super

theorem afterStmt (h : Standing classBody scopes) {s : Stmt} (hs : s.Proper) :
    Standing classBody (s.mark scopes) := by
  cases s with
  | declareVar name e => exact h.mark hs
  | declareFunction d =>
    obtain ⟨name, parameters, body⟩ := d
    exact h.mark hs.1
  | declareClass name base ds => exact h.mark hs.1
  | _ => exact h

theorem inClass (h : Standing classBody scopes) {name : Token} (hname : name.Ordinary)
    (base : Option Reference) :
    Standing (if base.isSome then .derived else .base) (classScopes name base scopes) := by
  have hone : ∀ name other : String, (oneName name).get? other ≠ some false := by
    intro name other hfalse
    simpa using (get?_oneName hfalse).1
  cases base with
  | none => exact ⟨(h.mark hname).defined.push (hone _), fun hc => by cases hc⟩
  | some base =>
    refine ⟨AllDefined.push (hone _) ((h.mark hname).defined.push (hone _)), fun _ => ?_⟩
    exact seated_classBody _

end Standing

end LoxLang
