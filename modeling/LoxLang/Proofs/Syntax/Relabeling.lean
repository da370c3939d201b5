import LoxLang.Proofs.Syntax.Grammar
import LoxLang.Proofs.Syntax.Identities

set_option autoImplicit false

namespace LoxLang

/-- New line numbers for tokens, and new identities for references. -/
structure Relabeling where
  line : Nat → Nat
  identity : ReferenceId → ReferenceId

namespace Relabeling

def ofLines (line : Nat → Nat) : Relabeling := ⟨line, fun id => id⟩

def ofIdentities (identity : ReferenceId → ReferenceId) : Relabeling := ⟨fun line => line, identity⟩

def shifted (line : Nat → Nat) (k : Nat) : Relabeling := ⟨line, fun id => id + k⟩

theorem identity_shifted (line : Nat → Nat) (k id : Nat) : (shifted line k).identity id = id + k := rfl

def comp (σ ρ : Relabeling) : Relabeling :=
  ⟨fun line => σ.line (ρ.line line), fun id => σ.identity (ρ.identity id)⟩

end Relabeling

def Token.relabel (ρ : Relabeling) (t : Token) : Token := { t with line := ρ.line t.line }

def Reference.relabel (ρ : Relabeling) (r : Reference) : Reference :=
  ⟨ρ.identity r.id, r.name.relabel ρ⟩

mutual
def Expr.relabel (ρ : Relabeling) : Expr → Expr
  | .literal value => .literal value
  | .grouping e => .grouping (e.relabel ρ)
  | .unary o e => .unary (o.relabel ρ) (e.relabel ρ)
  | .binary l o r => .binary (l.relabel ρ) (o.relabel ρ) (r.relabel ρ)
  | .logical l o r => .logical (l.relabel ρ) (o.relabel ρ) (r.relabel ρ)
  | .conditional c (some t) e => .conditional (c.relabel ρ) (some (t.relabel ρ)) (e.relabel ρ)
  | .conditional c none e => .conditional (c.relabel ρ) none (e.relabel ρ)
  | .variable r => .variable (r.relabel ρ)
  | .assign r e => .assign (r.relabel ρ) (e.relabel ρ)
  | .call f paren es => .call (f.relabel ρ) (paren.relabel ρ) (Expr.relabelAll ρ es)
  | .get o name => .get (o.relabel ρ) (name.relabel ρ)
  | .set o name e => .set (o.relabel ρ) (name.relabel ρ) (e.relabel ρ)
  | .this r => .this (r.relabel ρ)
  | .super r method => .super (r.relabel ρ) (method.relabel ρ)

def Expr.relabelAll (ρ : Relabeling) : List Expr → List Expr
  | [] => []
  | e :: rest => e.relabel ρ :: Expr.relabelAll ρ rest
end

mutual
def Stmt.relabel (ρ : Relabeling) : Stmt → Stmt
  | .expression e => .expression (e.relabel ρ)
  | .print e => .print (e.relabel ρ)
  | .declareVar name e => .declareVar (name.relabel ρ) (e.map (Expr.relabel ρ))
  | .block body => .block (Stmt.relabelAll ρ body)
  | .branch c t (some e) => .branch (c.relabel ρ) (t.relabel ρ) (some (e.relabel ρ))
  | .branch c t none => .branch (c.relabel ρ) (t.relabel ρ) none
  | .loop (some i) c n b =>
    .loop (some (i.relabel ρ)) (c.relabel ρ) (Stmt.relabelOption ρ n) (b.relabel ρ)
  | .loop none c n b => .loop none (c.relabel ρ) (Stmt.relabelOption ρ n) (b.relabel ρ)
  | .declareFunction d => .declareFunction (d.relabel ρ)
  | .returnWith word e => .returnWith (word.relabel ρ) (e.map (Expr.relabel ρ))
  | .breakLoop word => .breakLoop (word.relabel ρ)
  | .continueLoop word => .continueLoop (word.relabel ρ)
  | .declareClass name base ds =>
    .declareClass (name.relabel ρ) (base.map (Reference.relabel ρ)) (Declaration.relabelAll ρ ds)

def Stmt.relabelOption (ρ : Relabeling) : Option Stmt → Option Stmt
  | none => none
  | some s => some (s.relabel ρ)

def Stmt.relabelAll (ρ : Relabeling) : List Stmt → List Stmt
  | [] => []
  | s :: rest => s.relabel ρ :: Stmt.relabelAll ρ rest

def Declaration.relabel (ρ : Relabeling) : Declaration → Declaration
  | .mk name names body =>
    .mk (name.relabel ρ) (names.map (Token.relabel ρ)) (Stmt.relabelAll ρ body)

def Declaration.relabelAll (ρ : Relabeling) : List Declaration → List Declaration
  | [] => []
  | d :: rest => d.relabel ρ :: Declaration.relabelAll ρ rest
end

def Diagnostic.relabel (ρ : Relabeling) : Diagnostic → Diagnostic
  | .lexical line cause => .lexical (ρ.line line) cause
  | .grammatical token cause => .grammatical (token.relabel ρ) cause
  | .static token cause => .static (token.relabel ρ) cause
  | .runtime line cause => .runtime (ρ.line line) cause
  | .io cause => .io cause
  | .encoding cause => .encoding cause

section

variable (ρ σ : Relabeling)

@[simp] theorem Token.kind_relabel (t : Token) : (t.relabel ρ).kind = t.kind := rfl
@[simp] theorem Token.lexeme_relabel (t : Token) : (t.relabel ρ).lexeme = t.lexeme := rfl
@[simp] theorem Token.line_relabel (t : Token) : (t.relabel ρ).line = ρ.line t.line := rfl
@[simp] theorem Reference.id_relabel (r : Reference) : (r.relabel ρ).id = ρ.identity r.id := rfl
@[simp] theorem Reference.name_relabel (r : Reference) : (r.relabel ρ).name = r.name.relabel ρ := rfl

@[simp] theorem Declaration.name_relabel (d : Declaration) :
    (d.relabel ρ).name = d.name.relabel ρ := by
  cases d
  rfl

@[simp] theorem Declaration.parameters_relabel (d : Declaration) :
    (d.relabel ρ).parameters = d.parameters.map (Token.relabel ρ) := by
  cases d
  rfl

@[simp] theorem Declaration.body_relabel (d : Declaration) :
    (d.relabel ρ).body = Stmt.relabelAll ρ d.body := by
  cases d
  rfl

/-- Literals stand on line 0, so that line should be kept if it is the line of the expression. -/
theorem Expr.line_relabel : ∀ e : Expr, (e.line = 0 → ρ.line 0 = 0) → (e.relabel ρ).line = ρ.line e.line
  | .literal _, hzero => (hzero rfl).symm
  | .grouping e, hzero => by simpa [Expr.relabel, Expr.line] using e.line_relabel hzero
  | .conditional c (some _) _, hzero | .conditional c none _, hzero => by
    simpa [Expr.relabel, Expr.line] using c.line_relabel hzero
  | .unary _ _, _ | .binary _ _ _, _ | .logical _ _ _, _ | .variable _, _ | .assign _ _, _
  | .call _ _ _, _ | .get _ _, _ | .set _ _ _, _ | .this _, _ | .super _ _, _ => rfl

theorem Token.relabel_relabel (t : Token) : (t.relabel ρ).relabel σ = t.relabel (σ.comp ρ) := rfl

mutual
theorem Expr.relabel_relabel : ∀ e : Expr, (e.relabel ρ).relabel σ = e.relabel (σ.comp ρ)
  | .literal _ | .variable _ | .this _ | .super _ _ => rfl
  | .grouping e => by simp only [Expr.relabel, e.relabel_relabel]
  | .unary _ e | .assign _ e | .get e _ => by
    simp only [Expr.relabel, e.relabel_relabel]
    rfl
  | .binary l _ r | .logical l _ r | .set l _ r => by
    simp only [Expr.relabel, l.relabel_relabel, r.relabel_relabel]
    rfl
  | .conditional c (some t) e => by
    simp only [Expr.relabel, c.relabel_relabel, t.relabel_relabel, e.relabel_relabel]
  | .conditional c none e => by simp only [Expr.relabel, c.relabel_relabel, e.relabel_relabel]
  | .call f _ es => by
    simp only [Expr.relabel, f.relabel_relabel, Expr.relabelAll_relabelAll es]
    rfl

theorem Expr.relabelAll_relabelAll : ∀ es : List Expr,
    Expr.relabelAll σ (Expr.relabelAll ρ es) = Expr.relabelAll (σ.comp ρ) es
  | [] => rfl
  | e :: rest => by
    simp only [Expr.relabelAll, e.relabel_relabel, Expr.relabelAll_relabelAll rest]
end

theorem Expr.map_relabel_relabel (e : Option Expr) :
    (e.map (Expr.relabel ρ)).map (Expr.relabel σ) = e.map (Expr.relabel (σ.comp ρ)) := by
  cases e <;> simp [Expr.relabel_relabel]

mutual
theorem Stmt.relabel_relabel : ∀ s : Stmt, (s.relabel ρ).relabel σ = s.relabel (σ.comp ρ)
  | .expression e | .print e => by simp only [Stmt.relabel, e.relabel_relabel]
  | .declareVar _ e | .returnWith _ e => by
    simp only [Stmt.relabel, Expr.map_relabel_relabel]
    rfl
  | .block body => by simp only [Stmt.relabel, Stmt.relabelAll_relabelAll body]
  | .branch c t (some e) => by
    simp only [Stmt.relabel, c.relabel_relabel, t.relabel_relabel, e.relabel_relabel]
  | .branch c t none => by simp only [Stmt.relabel, c.relabel_relabel, t.relabel_relabel]
  | .loop (some i) c n b => by
    simp only [Stmt.relabel, i.relabel_relabel, c.relabel_relabel, Stmt.relabelOption_relabelOption n,
      b.relabel_relabel]
  | .loop none c n b => by
    simp only [Stmt.relabel, c.relabel_relabel, Stmt.relabelOption_relabelOption n, b.relabel_relabel]
  | .declareFunction d => by simp only [Stmt.relabel, d.relabel_relabel]
  | .breakLoop _ | .continueLoop _ => rfl
  | .declareClass _ base ds => by
    simp only [Stmt.relabel, Declaration.relabelAll_relabelAll ds, Option.map_map]
    rfl

theorem Stmt.relabelOption_relabelOption : ∀ s : Option Stmt,
    Stmt.relabelOption σ (Stmt.relabelOption ρ s) = Stmt.relabelOption (σ.comp ρ) s
  | none => rfl
  | some s => by simp only [Stmt.relabelOption, s.relabel_relabel]

theorem Stmt.relabelAll_relabelAll : ∀ body : List Stmt,
    Stmt.relabelAll σ (Stmt.relabelAll ρ body) = Stmt.relabelAll (σ.comp ρ) body
  | [] => rfl
  | s :: rest => by
    simp only [Stmt.relabelAll, s.relabel_relabel, Stmt.relabelAll_relabelAll rest]

theorem Declaration.relabel_relabel : ∀ d : Declaration,
    (d.relabel ρ).relabel σ = d.relabel (σ.comp ρ)
  | .mk _ names body => by
    simp only [Declaration.relabel, Stmt.relabelAll_relabelAll body, List.map_map]
    rfl

theorem Declaration.relabelAll_relabelAll : ∀ ds : List Declaration,
    Declaration.relabelAll σ (Declaration.relabelAll ρ ds) = Declaration.relabelAll (σ.comp ρ) ds
  | [] => rfl
  | d :: rest => by
    simp only [Declaration.relabelAll, d.relabel_relabel, Declaration.relabelAll_relabelAll rest]
end

def relabelEntry (r : ReferenceKind × Reference) : ReferenceKind × Reference :=
  (r.1, r.2.relabel ρ)

mutual
theorem Expr.references_relabel : ∀ e : Expr,
    (e.relabel ρ).references = e.references.map (relabelEntry ρ)
  | .literal _ | .variable _ | .this _ | .super _ _ => rfl
  | .grouping e | .unary _ e | .get e _ => by
    simpa only [Expr.relabel, Expr.references] using e.references_relabel
  | .assign _ e => by
    simp only [Expr.relabel, Expr.references, e.references_relabel, List.map_cons]
    rfl
  | .binary l _ r | .logical l _ r | .set l _ r => by
    simp only [Expr.relabel, Expr.references, l.references_relabel, r.references_relabel,
      List.map_append]
  | .conditional c (some t) e => by
    simp only [Expr.relabel, Expr.references, c.references_relabel, t.references_relabel,
      e.references_relabel, List.map_append]
  | .conditional c none e => by
    simp only [Expr.relabel, Expr.references, c.references_relabel, e.references_relabel,
      List.map_append]
  | .call f _ es => by
    simp only [Expr.relabel, Expr.references, f.references_relabel,
      Expr.listReferences_relabelAll es, List.map_append]

theorem Expr.listReferences_relabelAll : ∀ es : List Expr,
    Expr.listReferences (Expr.relabelAll ρ es) = (Expr.listReferences es).map (relabelEntry ρ)
  | [] => rfl
  | e :: rest => by
    simp only [Expr.relabelAll, Expr.listReferences, e.references_relabel,
      Expr.listReferences_relabelAll rest, List.map_append]
end

theorem Expr.optionReferences_relabel (e : Option Expr) :
    Expr.optionReferences (e.map (Expr.relabel ρ)) = (Expr.optionReferences e).map (relabelEntry ρ) := by
  cases e with
  | none => rfl
  | some e => exact e.references_relabel ρ

mutual
theorem Stmt.references_relabel : ∀ s : Stmt,
    (s.relabel ρ).references = s.references.map (relabelEntry ρ)
  | .expression e | .print e => by
    simpa only [Stmt.relabel, Stmt.references] using e.references_relabel ρ
  | .declareVar _ e | .returnWith _ e => by
    simpa only [Stmt.relabel, Stmt.references] using Expr.optionReferences_relabel ρ e
  | .block body => by
    simpa only [Stmt.relabel, Stmt.references] using Stmt.listReferences_relabelAll body
  | .branch c t (some e) => by
    simp only [Stmt.relabel, Stmt.references, c.references_relabel, t.references_relabel,
      e.references_relabel, List.map_append]
  | .branch c t none => by
    simp only [Stmt.relabel, Stmt.references, c.references_relabel, t.references_relabel,
      List.map_append]
  | .loop (some i) c n b => by
    simp only [Stmt.relabel, Stmt.references, i.references_relabel, c.references_relabel,
      Stmt.optionReferences_relabelOption n, b.references_relabel, List.map_append]
  | .loop none c n b => by
    simp only [Stmt.relabel, Stmt.references, c.references_relabel,
      Stmt.optionReferences_relabelOption n, b.references_relabel, List.map_append]
  | .declareFunction d => by
    simpa only [Stmt.relabel, Stmt.references] using d.references_relabel
  | .breakLoop _ | .continueLoop _ => rfl
  | .declareClass _ base ds => by
    simp only [Stmt.relabel, Stmt.references, Declaration.listReferences_relabelAll ds,
      List.map_append]
    cases base <;> rfl

theorem Stmt.optionReferences_relabelOption : ∀ s : Option Stmt,
    Stmt.optionReferences (Stmt.relabelOption ρ s) = (Stmt.optionReferences s).map (relabelEntry ρ)
  | none => by simp [Stmt.relabelOption]
  | some s => by simp [Stmt.relabelOption, s.references_relabel]

theorem Stmt.listReferences_relabelAll : ∀ body : List Stmt,
    Stmt.listReferences (Stmt.relabelAll ρ body) = (Stmt.listReferences body).map (relabelEntry ρ)
  | [] => rfl
  | s :: rest => by
    simp only [Stmt.relabelAll, Stmt.listReferences, s.references_relabel,
      Stmt.listReferences_relabelAll rest, List.map_append]

theorem Declaration.references_relabel : ∀ d : Declaration,
    (d.relabel ρ).references = d.references.map (relabelEntry ρ)
  | .mk _ _ body => by
    simpa only [Declaration.relabel, Declaration.references] using Stmt.listReferences_relabelAll body

theorem Declaration.listReferences_relabelAll : ∀ ds : List Declaration,
    Declaration.listReferences (Declaration.relabelAll ρ ds) =
      (Declaration.listReferences ds).map (relabelEntry ρ)
  | [] => rfl
  | d :: rest => by
    simp only [Declaration.relabelAll, Declaration.listReferences, d.references_relabel,
      Declaration.listReferences_relabelAll rest, List.map_append]
end

theorem identities_relabel (refs : List (ReferenceKind × Reference)) :
    identities (refs.map (relabelEntry ρ)) = (identities refs).map ρ.identity := by
  simp [identities, relabelEntry, Function.comp_def]

end

section

variable (f : ReferenceId → ReferenceId)

mutual
theorem Expr.anonymous_relabel : ∀ e : Expr, (e.relabel (.ofIdentities f)).anonymous = e.anonymous
  | .literal _ | .variable _ | .this _ | .super _ _ => rfl
  | .grouping e => by simp only [Expr.relabel, Expr.anonymous, e.anonymous_relabel]
  | .unary _ e | .assign _ e | .get e _ => by
    simp only [Expr.relabel, Expr.anonymous, e.anonymous_relabel]
    rfl
  | .binary l _ r | .logical l _ r | .set l _ r => by
    simp only [Expr.relabel, Expr.anonymous, l.anonymous_relabel, r.anonymous_relabel]
    rfl
  | .conditional c (some t) e => by
    simp only [Expr.relabel, Expr.anonymous, c.anonymous_relabel, t.anonymous_relabel,
      e.anonymous_relabel]
  | .conditional c none e => by
    simp only [Expr.relabel, Expr.anonymous, c.anonymous_relabel, e.anonymous_relabel]
  | .call f _ es => by
    simp only [Expr.relabel, Expr.anonymous, f.anonymous_relabel, Expr.allAnonymous_relabelAll es]
    rfl

theorem Expr.allAnonymous_relabelAll : ∀ es : List Expr,
    Expr.allAnonymous (Expr.relabelAll (.ofIdentities f) es) = Expr.allAnonymous es
  | [] => rfl
  | e :: rest => by
    simp only [Expr.relabelAll, Expr.allAnonymous, e.anonymous_relabel,
      Expr.allAnonymous_relabelAll rest]
end

theorem Expr.map_anonymous_relabel (e : Option Expr) :
    (e.map (Expr.relabel (.ofIdentities f))).map Expr.anonymous = e.map Expr.anonymous := by
  cases e <;> simp [Expr.anonymous_relabel]

mutual
theorem Stmt.anonymous_relabel : ∀ s : Stmt, (s.relabel (.ofIdentities f)).anonymous = s.anonymous
  | .expression e | .print e => by simp only [Stmt.relabel, Stmt.anonymous, e.anonymous_relabel]
  | .declareVar _ e | .returnWith _ e => by
    simp only [Stmt.relabel, Stmt.anonymous, Expr.map_anonymous_relabel]
    rfl
  | .block body => by simp only [Stmt.relabel, Stmt.anonymous, Stmt.allAnonymous_relabelAll body]
  | .branch c t (some e) => by
    simp only [Stmt.relabel, Stmt.anonymous, c.anonymous_relabel, t.anonymous_relabel,
      e.anonymous_relabel]
  | .branch c t none => by
    simp only [Stmt.relabel, Stmt.anonymous, c.anonymous_relabel, t.anonymous_relabel]
  | .loop (some i) c n b => by
    simp only [Stmt.relabel, Stmt.anonymous, i.anonymous_relabel, c.anonymous_relabel,
      Stmt.optionAnonymous_relabelOption n, b.anonymous_relabel]
  | .loop none c n b => by
    simp only [Stmt.relabel, Stmt.anonymous, c.anonymous_relabel, Stmt.optionAnonymous_relabelOption n,
      b.anonymous_relabel]
  | .declareFunction d => by simp only [Stmt.relabel, Stmt.anonymous, d.anonymous_relabel]
  | .breakLoop _ | .continueLoop _ => rfl
  | .declareClass _ base ds => by
    simp only [Stmt.relabel, Stmt.anonymous, Declaration.allAnonymous_relabelAll ds, Option.map_map]
    rfl

theorem Stmt.optionAnonymous_relabelOption : ∀ s : Option Stmt,
    Stmt.optionAnonymous (Stmt.relabelOption (.ofIdentities f) s) = Stmt.optionAnonymous s
  | none => rfl
  | some s => by simp only [Stmt.relabelOption, Stmt.optionAnonymous, s.anonymous_relabel]

theorem Stmt.allAnonymous_relabelAll : ∀ body : List Stmt,
    Stmt.allAnonymous (Stmt.relabelAll (.ofIdentities f) body) = Stmt.allAnonymous body
  | [] => rfl
  | s :: rest => by
    simp only [Stmt.relabelAll, Stmt.allAnonymous, s.anonymous_relabel,
      Stmt.allAnonymous_relabelAll rest]

theorem Declaration.anonymous_relabel : ∀ d : Declaration,
    (d.relabel (.ofIdentities f)).anonymous = d.anonymous
  | .mk _ names body => by
    have hnames : names.map (Token.relabel (.ofIdentities f)) = names := List.map_id' names
    simp only [Declaration.relabel, Declaration.anonymous, Stmt.allAnonymous_relabelAll body, hnames]
    rfl

theorem Declaration.allAnonymous_relabelAll : ∀ ds : List Declaration,
    Declaration.allAnonymous (Declaration.relabelAll (.ofIdentities f) ds) =
      Declaration.allAnonymous ds
  | [] => rfl
  | d :: rest => by
    simp only [Declaration.relabelAll, Declaration.allAnonymous, d.anonymous_relabel,
      Declaration.allAnonymous_relabelAll rest]
end

end

end LoxLang
