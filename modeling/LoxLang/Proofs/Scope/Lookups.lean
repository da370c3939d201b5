import LoxLang.Proofs.Scope.Context
import LoxLang.Syntax.Reference

set_option autoImplicit false

namespace LoxLang

/-- A reference and the scopes that are open where it stands. -/
structure Lookup where
  kind : ReferenceKind
  target : Reference
  scopes : List Scope

def distanceIn (name : String) (scopes : List Scope) : Option Nat :=
  scopes.findIdx? fun scope => scope.contains name

def Lookup.distance? (l : Lookup) : Option Nat := distanceIn l.target.name.lexeme l.scopes

/-- The open scopes in the body of a class: one for `super` if there is a superclass, and one for
`this`. -/
def classScopes (name : Token) (base : Option Reference) (scopes : List Scope) : List Scope :=
  match base with
  | none => oneName "this" :: markName name.lexeme true scopes
  | some _ => oneName "this" :: oneName "super" :: markName name.lexeme true scopes

def lookupsIn (scopes : List Scope) (refs : List (ReferenceKind × Reference)) : List Lookup :=
  refs.map fun r => ⟨r.1, r.2, scopes⟩

/-- All lookups of an expression have the scopes around it. -/
def Expr.lookups (scopes : List Scope) (e : Expr) : List Lookup := lookupsIn scopes e.references

def Expr.optionLookups (scopes : List Scope) (e : Option Expr) : List Lookup :=
  lookupsIn scopes (Expr.optionReferences e)

mutual
def Stmt.lookups : Stmt → List Scope → List Lookup
  | .expression e, scopes | .print e, scopes => e.lookups scopes
  | .declareVar name e, scopes => Expr.optionLookups (markName name.lexeme false scopes) e
  | .block body, scopes => Stmt.listLookups body (∅ :: scopes)
  | .branch c t (some e), scopes => c.lookups scopes ++ t.lookups scopes ++ e.lookups scopes
  | .branch c t none, scopes => c.lookups scopes ++ t.lookups scopes
  | .loop (some i) c n b, scopes =>
    i.lookups (∅ :: scopes) ++ c.lookups (i.mark (∅ :: scopes)) ++
      Stmt.optionLookups n (i.mark (∅ :: scopes)) ++ b.lookups (i.mark (∅ :: scopes))
  | .loop none c n b, scopes =>
    c.lookups scopes ++ Stmt.optionLookups n scopes ++ b.lookups scopes
  | .declareFunction d, scopes => d.lookups (markName d.name.lexeme true scopes)
  | .returnWith _ e, scopes => Expr.optionLookups scopes e
  | .breakLoop _, _ | .continueLoop _, _ => []
  | .declareClass name base ds, scopes =>
    (base.map fun r => ⟨.superclass, r, scopes⟩).toList ++
      Declaration.listLookups ds (classScopes name base scopes)

def Stmt.optionLookups : Option Stmt → List Scope → List Lookup
  | none, _ => []
  | some s, scopes => s.lookups scopes

/-- Every statement is in the scopes that those before it leave. -/
def Stmt.listLookups : List Stmt → List Scope → List Lookup
  | [], _ => []
  | s :: rest, scopes => s.lookups scopes ++ Stmt.listLookups rest (s.mark scopes)

def Declaration.lookups : Declaration → List Scope → List Lookup
  | .mk _ parameters body, scopes => Stmt.listLookups body (parameterScope parameters :: scopes)

def Declaration.listLookups : List Declaration → List Scope → List Lookup
  | [], _ => []
  | d :: rest, scopes => d.lookups scopes ++ Declaration.listLookups rest scopes
end

@[simp] theorem Stmt.optionLookups_map (n : Option Expr) (scopes : List Scope) :
    Stmt.optionLookups (n.map .expression) scopes = Expr.optionLookups scopes n := by
  cases n <;> simp [Stmt.optionLookups, Stmt.lookups, Expr.lookups, Expr.optionLookups,
    Expr.optionReferences, lookupsIn]

def Lookup.reference (l : Lookup) : ReferenceKind × Reference := (l.kind, l.target)

theorem map_lookupsIn (scopes : List Scope) (refs : List (ReferenceKind × Reference)) :
    (lookupsIn scopes refs).map Lookup.reference = refs := by
  simp [lookupsIn, Lookup.reference, Function.comp_def]

theorem Expr.map_lookups (scopes : List Scope) (e : Expr) :
    (e.lookups scopes).map Lookup.reference = e.references := map_lookupsIn _ _

theorem Expr.map_optionLookups (scopes : List Scope) (e : Option Expr) :
    (Expr.optionLookups scopes e).map Lookup.reference = Expr.optionReferences e :=
  map_lookupsIn _ _

mutual
theorem Stmt.map_lookups : ∀ (s : Stmt) (scopes : List Scope),
    (s.lookups scopes).map Lookup.reference = s.references
  | .expression e, scopes | .print e, scopes => by
    simp [Stmt.lookups, Stmt.references, Expr.map_lookups]
  | .declareVar name e, scopes => by
    simp [Stmt.lookups, Stmt.references, Expr.map_optionLookups]
  | .block body, scopes => by
    simp [Stmt.lookups, Stmt.references, Stmt.map_listLookups body]
  | .branch c t (some e), scopes => by
    simp [Stmt.lookups, Stmt.references, Expr.map_lookups, Stmt.map_lookups t, Stmt.map_lookups e]
  | .branch c t none, scopes => by
    simp [Stmt.lookups, Stmt.references, Expr.map_lookups, Stmt.map_lookups t]
  | .loop (some i) c n b, scopes => by
    simp [Stmt.lookups, Stmt.references, Expr.map_lookups, Stmt.map_optionLookups n,
      Stmt.map_lookups i, Stmt.map_lookups b]
  | .loop none c n b, scopes => by
    simp [Stmt.lookups, Stmt.references, Expr.map_lookups, Stmt.map_optionLookups n,
      Stmt.map_lookups b]
  | .declareFunction d, scopes => by
    simp [Stmt.lookups, Stmt.references, Declaration.map_lookups d]
  | .returnWith word e, scopes => by
    simp [Stmt.lookups, Stmt.references, Expr.map_optionLookups]
  | .breakLoop _, _ | .continueLoop _, _ => by simp [Stmt.lookups, Stmt.references]
  | .declareClass name base ds, scopes => by
    cases base <;>
      simp [Stmt.lookups, Stmt.references, Declaration.map_listLookups ds, Lookup.reference]

theorem Stmt.map_optionLookups : ∀ (s : Option Stmt) (scopes : List Scope),
    (Stmt.optionLookups s scopes).map Lookup.reference = Stmt.optionReferences s
  | none, _ => by simp [Stmt.optionLookups, Stmt.optionReferences]
  | some s, scopes => by simp [Stmt.optionLookups, Stmt.optionReferences, Stmt.map_lookups s]

theorem Stmt.map_listLookups : ∀ (body : List Stmt) (scopes : List Scope),
    (Stmt.listLookups body scopes).map Lookup.reference = Stmt.listReferences body
  | [], _ => by simp [Stmt.listLookups, Stmt.listReferences]
  | s :: rest, scopes => by
    simp [Stmt.listLookups, Stmt.listReferences, Stmt.map_lookups s, Stmt.map_listLookups rest]

theorem Declaration.map_lookups : ∀ (d : Declaration) (scopes : List Scope),
    (d.lookups scopes).map Lookup.reference = d.references
  | .mk _ parameters body, scopes => by
    simp [Declaration.lookups, Declaration.references, Stmt.map_listLookups body]

theorem Declaration.map_listLookups : ∀ (ds : List Declaration) (scopes : List Scope),
    (Declaration.listLookups ds scopes).map Lookup.reference = Declaration.listReferences ds
  | [], _ => by simp [Declaration.listLookups, Declaration.listReferences]
  | d :: rest, scopes => by
    simp [Declaration.listLookups, Declaration.listReferences, Declaration.map_lookups d,
      Declaration.map_listLookups rest]
end

end LoxLang
