import LoxLang.Proofs.Scope.Rules
import LoxLang.Proofs.Scope.Walking
import LoxLang.Proofs.Session.Accepted
import LoxLang.Proofs.Syntax.Gap

set_option autoImplicit false

namespace LoxLang

namespace Walk

def enterClass (w : Walk) (name : Token) : Option Reference → Walk
  | none => ((w.inClass .base).declareDefine name).openScope.on fun r => r.defineName "this"
  | some superclass =>
    let w := (w.inClass .base).declareDefine name
    let w := w.on
      (Resolution.reportIf (superclass.name.lexeme = name.lexeme) superclass.name .inheritsFromItself)
    let w := (w.inClass .derived).on fun r => r.record superclass
    let w := w.openScope.on fun r => r.defineName "super"
    w.openScope.on fun r => r.defineName "this"

def enterFunction (w : Walk) (kind : EnclosingFunction) (parameters : List Token) : Walk :=
  (w.inFunction kind 0).openScope.on fun r => r.declareParameters parameters

end Walk

def Holder.arrive : Holder → Walk → Option Walk
  | .block, w => some w.openScope
  | .thenBranch c h _, w => h.arrive (w.expression c)
  | .elseBranch c t h, w => do h.arrive (← t.walk (w.expression c))
  | .loop (some i) c _ h, w => do h.arrive ((← i.walk w.openScope).expression c).enterLoop
  | .loop none c _ h, w => h.arrive (w.expression c).enterLoop
  | .function name parameters, w => some ((w.declareDefine name).enterFunction .function parameters)
  | .method name base before own parameters _, w => do
    let w ← Declaration.walkAll before (w.enterClass name base)
    return w.enterFunction (Declaration.mk own parameters []).methodContext parameters

def Gap.arrive : Gap → Walk → Option Walk
  | .here before _, w => Stmt.walkAll before w
  | .inside before holder inner _, w => do inner.arrive (← holder.arrive (← Stmt.walkAll before w))

/-- A walk that has a list of statements in it: it comes to the list in this state, walks it, and goes on in
a way that knows nothing of the list but the state it leaves. -/
def Walk.Meets (v : Walk) (walk : List Stmt → Option Walk) : Prop :=
  ∃ leave : Walk → Option Walk, ∀ body, walk body = (Stmt.walkAll body v).bind leave

namespace Walk.Meets

variable {v : Walk} {walk walk' : List Stmt → Option Walk}

theorem bind (h : v.Meets walk) (next : Walk → Option Walk) :
    v.Meets fun body => (walk body).bind next := by
  obtain ⟨leave, hleave⟩ := h
  exact ⟨fun w => (leave w).bind next, fun body => by simp only [hleave, Option.bind_assoc]⟩

theorem congr (h : v.Meets walk) (hsame : ∀ body, walk' body = walk body) : v.Meets walk' := by
  obtain ⟨leave, hleave⟩ := h
  exact ⟨leave, fun body => (hsame body).trans (hleave body)⟩

theorem function (w : Walk) (kind : EnclosingFunction) (name : Token) (parameters : List Token) :
    (w.enterFunction kind parameters).Meets fun body => (Declaration.mk name parameters body).walk kind w :=
  ⟨fun v => some (v.closeScope.inFunction w.function w.loops), fun body => by
    dsimp only
    rw [Declaration.walk]
    rfl⟩

end Walk.Meets

def found (ls : List Lookup) : List (ReferenceId × Option Nat) :=
  ls.map fun l => (l.target.id, l.distance?)

theorem found_append (a b : List Lookup) : found (a ++ b) = found a ++ found b := List.map_append

/-- These names are found as far out in the one list of scopes as in the other. -/
structure SameFor (names : String → Prop) (scopes scopes' : List Scope) : Prop where
  distance : ∀ name, names name → distanceIn name scopes' = distanceIn name scopes
  isEmpty : scopes'.isEmpty = scopes.isEmpty

namespace SameFor

variable {names : String → Prop} {scopes scopes' : List Scope}

theorem refl (names : String → Prop) (scopes : List Scope) : SameFor names scopes scopes :=
  ⟨fun _ _ => rfl, rfl⟩

theorem push (h : SameFor names scopes scopes') (scope : Scope) :
    SameFor names (scope :: scopes) (scope :: scopes') :=
  ⟨fun name hname => by rw [distanceIn_cons, distanceIn_cons, h.distance name hname], rfl⟩

theorem mark (h : SameFor names scopes scopes') (name : String) (defined : Bool) :
    SameFor names (markName name defined scopes) (markName name defined scopes') := by
  obtain ⟨hdistance, hempty⟩ := h
  cases scopes with
  | nil =>
    cases scopes' with
    | nil => exact .refl names []
    | cons => cases hempty
  | cons scope outer =>
    cases scopes' with
    | nil => cases hempty
    | cons scope' outer' =>
      refine ⟨fun other hother => ?_, rfl⟩
      by_cases hname : name = other
      · subst hname
        simp [markName, distanceIn_cons, Dictionary.contains_insert]
      · rw [distanceIn_markName hname, distanceIn_markName hname, hdistance other hother]

theorem stmt (h : SameFor names scopes scopes') (s : Stmt) :
    SameFor names (s.mark scopes) (s.mark scopes') := by
  cases s with
  | declareVar | declareFunction | declareClass => exact h.mark _ true
  | _ => exact h

theorem inClass (h : SameFor names scopes scopes') (name : Token) (base : Option Reference) :
    SameFor names (classScopes name base scopes) (classScopes name base scopes') := by
  cases base with
  | none => exact (h.mark _ true).push _
  | some _ => exact ((h.mark _ true).push _).push _

theorem past {s : Stmt} (hnames : ∀ name, s.declaredName? = some name → ¬names name.lexeme)
    (scopes : List Scope) :
    SameFor names scopes (s.mark scopes) := by
  have hmark : ∀ name, ¬names name → SameFor names scopes (markName name true scopes) := by
    refine fun name hname => ⟨fun other hother => distanceIn_markName ?_ true scopes, ?_⟩
    · rintro rfl
      exact hname hother
    · cases scopes <;> rfl
  cases s with
  | declareVar | declareFunction | declareClass => exact hmark _ (hnames _ rfl)
  | _ => exact .refl names scopes

end SameFor

section

variable (ρ : Relabeling) {names : String → Prop}

theorem Stmt.mark_relabel (s : Stmt) (scopes : List Scope) : (s.relabel ρ).mark scopes = s.mark scopes := by
  cases s with
  | branch c t e => cases e <;> rfl
  | loop i c n b => cases i <;> rfl
  | declareFunction d => simp [Stmt.relabel, Stmt.mark]
  | _ => rfl

theorem parameterScope_relabel (parameters : List Token) :
    parameterScope (parameters.map (Token.relabel ρ)) = parameterScope parameters := by
  rw [parameterScope, List.foldl_map]
  rfl

theorem classScopes_relabel (name : Token) (base : Option Reference) (scopes : List Scope) :
    classScopes (name.relabel ρ) (base.map (Reference.relabel ρ)) scopes = classScopes name base scopes := by
  cases base <;> rfl

def movedTo (entries : List (ReferenceId × Option Nat)) : List (ReferenceId × Option Nat) :=
  entries.map (Prod.map ρ.identity id)

theorem movedTo_append (a b : List (ReferenceId × Option Nat)) :
    movedTo ρ (a ++ b) = movedTo ρ a ++ movedTo ρ b := List.map_append

def Named (names : String → Prop) (refs : List (ReferenceKind × Reference)) : Prop :=
  ∀ r ∈ refs, names r.2.name.lexeme

theorem found_lookupsIn {scopes scopes' : List Scope} (h : SameFor names scopes scopes')
    {refs : List (ReferenceKind × Reference)} (hrefs : Named names refs) :
    found (lookupsIn scopes' (refs.map (relabelEntry ρ))) = movedTo ρ (found (lookupsIn scopes refs)) := by
  unfold found lookupsIn movedTo
  rw [List.map_map, List.map_map, List.map_map, List.map_map]
  refine List.map_congr_left fun r hr => ?_
  exact congrArg (Prod.mk _) (h.distance _ (hrefs r hr))

theorem Expr.found_lookups {scopes scopes' : List Scope} (h : SameFor names scopes scopes') {e : Expr}
    (he : Named names e.references) :
    found ((e.relabel ρ).lookups scopes') = movedTo ρ (found (e.lookups scopes)) := by
  rw [Expr.lookups, Expr.references_relabel]
  exact found_lookupsIn ρ h he

theorem Expr.found_optionLookups {scopes scopes' : List Scope} (h : SameFor names scopes scopes')
    {e : Option Expr} (he : Named names (Expr.optionReferences e)) :
    found (Expr.optionLookups scopes' (e.map (Expr.relabel ρ))) =
      movedTo ρ (found (Expr.optionLookups scopes e)) := by
  rw [Expr.optionLookups, Expr.optionReferences_relabel]
  exact found_lookupsIn ρ h he

mutual
theorem Stmt.found_lookups : ∀ (s : Stmt) {scopes scopes' : List Scope}, SameFor names scopes scopes' →
    Named names s.references → found ((s.relabel ρ).lookups scopes') = movedTo ρ (found (s.lookups scopes))
  | .expression _, _, _, h, hs | .print _, _, _, h, hs => Expr.found_lookups ρ h hs
  | .declareVar _ _, _, _, h, hs => Expr.found_optionLookups ρ (h.mark _ false) hs
  | .block body, _, _, h, hs => Stmt.found_listLookups body (h.push ∅) hs
  | .branch c t (some e), scopes, scopes', h, hs => by
    obtain ⟨⟨hc, ht⟩, he⟩ : (Named names c.references ∧ Named names t.references) ∧
      Named names e.references := by simpa only [Named, Stmt.references, List.forall_mem_append] using hs
    simp only [Stmt.relabel, Stmt.lookups, found_append, movedTo_append, Expr.found_lookups ρ h hc,
      Stmt.found_lookups t h ht, Stmt.found_lookups e h he]
  | .branch c t none, _, _, h, hs => by
    obtain ⟨hc, ht⟩ : Named names c.references ∧ Named names t.references := by
      simpa only [Named, Stmt.references, List.forall_mem_append] using hs
    simp only [Stmt.relabel, Stmt.lookups, found_append, movedTo_append, Expr.found_lookups ρ h hc,
      Stmt.found_lookups t h ht]
  | .loop (some i) c n b, _, _, h, hs => by
    obtain ⟨⟨⟨hi, hc⟩, hn⟩, hb⟩ : ((Named names i.references ∧ Named names c.references) ∧
      Named names (Stmt.optionReferences n)) ∧ Named names b.references := by
      simpa only [Named, Stmt.references, List.forall_mem_append] using hs
    have hinner := h.push ∅
    have hafter := hinner.stmt i
    simp only [Stmt.relabel, Stmt.lookups, found_append, movedTo_append, Stmt.mark_relabel,
      Stmt.found_lookups i hinner hi, Expr.found_lookups ρ hafter hc, Stmt.found_optionLookups n hafter hn,
      Stmt.found_lookups b hafter hb]
  | .loop none c n b, _, _, h, hs => by
    obtain ⟨⟨hc, hn⟩, hb⟩ : (Named names c.references ∧ Named names (Stmt.optionReferences n)) ∧
      Named names b.references := by simpa only [Named, Stmt.references, List.forall_mem_append] using hs
    simp only [Stmt.relabel, Stmt.lookups, found_append, movedTo_append, Expr.found_lookups ρ h hc,
      Stmt.found_optionLookups n h hn, Stmt.found_lookups b h hb]
  | .declareFunction d, _, _, h, hs => by
    simp only [Stmt.relabel, Stmt.lookups, Declaration.name_relabel, Token.lexeme_relabel]
    exact Declaration.found_lookups d (h.mark _ true) hs
  | .returnWith _ _, _, _, h, hs => Expr.found_optionLookups ρ h hs
  | .breakLoop _, _, _, _, _ | .continueLoop _, _, _, _, _ => rfl
  | .declareClass name base ds, _, _, h, hs => by
    obtain ⟨hbase, hds⟩ : Named names (base.map fun r => (ReferenceKind.superclass, r)).toList ∧
      Named names (Declaration.listReferences ds) := by
      simpa only [Named, Stmt.references, List.forall_mem_append] using hs
    simp only [Stmt.relabel, Stmt.lookups, found_append, movedTo_append, classScopes_relabel,
      Declaration.found_listLookups ds (h.inClass name base) hds]
    congr 1
    cases base with
    | none => rfl
    | some base => exact found_lookupsIn ρ h hbase

theorem Stmt.found_optionLookups : ∀ (s : Option Stmt) {scopes scopes' : List Scope},
    SameFor names scopes scopes' → Named names (Stmt.optionReferences s) →
    found (Stmt.optionLookups (Stmt.relabelOption ρ s) scopes') =
      movedTo ρ (found (Stmt.optionLookups s scopes))
  | none, _, _, _, _ => rfl
  | some s, _, _, h, hs => by
    rw [Stmt.optionReferences_some] at hs
    exact Stmt.found_lookups s h hs

theorem Stmt.found_listLookups : ∀ (body : List Stmt) {scopes scopes' : List Scope},
    SameFor names scopes scopes' → Named names (Stmt.listReferences body) →
    found (Stmt.listLookups (Stmt.relabelAll ρ body) scopes') =
      movedTo ρ (found (Stmt.listLookups body scopes))
  | [], _, _, _, _ => rfl
  | s :: rest, _, _, h, hs => by
    obtain ⟨hone, hrest⟩ : Named names s.references ∧ Named names (Stmt.listReferences rest) := by
      simpa only [Named, Stmt.listReferences, List.forall_mem_append] using hs
    simp only [Stmt.relabelAll, Stmt.listLookups, found_append, movedTo_append, Stmt.mark_relabel,
      Stmt.found_lookups s h hone, Stmt.found_listLookups rest (h.stmt s) hrest]

theorem Declaration.found_lookups : ∀ (d : Declaration) {scopes scopes' : List Scope},
    SameFor names scopes scopes' → Named names d.references →
    found ((d.relabel ρ).lookups scopes') = movedTo ρ (found (d.lookups scopes))
  | .mk _ parameters body, _, _, h, hs => by
    rw [Declaration.relabel, Declaration.lookups, parameterScope_relabel]
    exact Stmt.found_listLookups body (h.push _) hs

theorem Declaration.found_listLookups : ∀ (ds : List Declaration) {scopes scopes' : List Scope},
    SameFor names scopes scopes' → Named names (Declaration.listReferences ds) →
    found (Declaration.listLookups (Declaration.relabelAll ρ ds) scopes') =
      movedTo ρ (found (Declaration.listLookups ds scopes))
  | [], _, _, _, _ => rfl
  | d :: rest, _, _, h, hs => by
    obtain ⟨hone, hrest⟩ : Named names d.references ∧ Named names (Declaration.listReferences rest) := by
      simpa only [Named, Declaration.listReferences, List.forall_mem_append] using hs
    simp only [Declaration.relabelAll, Declaration.listLookups, found_append, movedTo_append,
      Declaration.found_lookups d h hone, Declaration.found_listLookups rest h hrest]
end

end

namespace Stmt

end Stmt

namespace Program

end Program

end LoxLang
