import LoxLang.Proofs.Scope.Marks
import LoxLang.Proofs.Syntax.Joining

set_option autoImplicit false

namespace LoxLang

namespace Resolution

def relabel (ρ : Relabeling) (before : List (ReferenceId × Nat)) (r : Resolution) : Resolution where
  scopes := r.scopes
  hops := r.hops.map (Prod.map ρ.identity id) ++ before
  reported := r.reported.map (Diagnostic.relabel ρ)

variable {ρ : Relabeling} {before : List (ReferenceId × Nat)} (r : Resolution)

@[simp] theorem scopes_relabel : (r.relabel ρ before).scopes = r.scopes := rfl

@[simp] theorem report_relabel (token : Token) (cause : StaticError) :
    (r.relabel ρ before).report (token.relabel ρ) cause = (r.report token cause).relabel ρ before := by
  simp [relabel, report, Diagnostic.relabel]

@[simp] theorem reportIf_relabel (condition : Bool) (token : Token) (cause : StaticError) :
    (r.relabel ρ before).reportIf condition (token.relabel ρ) cause =
      (r.reportIf condition token cause).relabel ρ before := by
  unfold reportIf
  split <;> simp

@[simp] theorem openScope_relabel : (r.relabel ρ before).openScope = r.openScope.relabel ρ before := rfl

@[simp] theorem closeScope_relabel : (r.relabel ρ before).closeScope = r.closeScope.relabel ρ before := rfl

@[simp] theorem declare_relabel (name : Token) :
    (r.relabel ρ before).declare (name.relabel ρ) = (r.declare name).relabel ρ before := by
  unfold declare
  simp only [scopes_relabel, Token.lexeme_relabel]
  cases r.scopes with
  | nil => rfl
  | cons scope outer =>
    by_cases hdeclared : scope.contains name.lexeme
    · simp only [hdeclared, if_true]
      exact report_relabel r name _
    · simp only [hdeclared]
      rfl

@[simp] theorem defineName_relabel (name : String) :
    (r.relabel ρ before).defineName name = (r.defineName name).relabel ρ before := by
  unfold defineName
  rw [scopes_relabel]
  cases r.scopes <;> rfl

@[simp] theorem define_relabel (name : Token) :
    (r.relabel ρ before).define (name.relabel ρ) = (r.define name).relabel ρ before :=
  defineName_relabel r name.lexeme

@[simp] theorem record_relabel (target : Reference) :
    (r.relabel ρ before).record (target.relabel ρ) = (r.record target).relabel ρ before := by
  unfold record
  have hdistance : (r.relabel ρ before).distance? (target.relabel ρ).name.lexeme =
      r.distance? target.name.lexeme := rfl
  rw [hdistance]
  cases r.distance? target.name.lexeme <;> rfl

@[simp] theorem isBeingInitialized_relabel (globalName : Option String) (name : String) :
    (r.relabel ρ before).isBeingInitialized globalName name = r.isBeingInitialized globalName name := rfl

@[simp] theorem declareParameters_relabel (parameters : List Token) :
    (r.relabel ρ before).declareParameters (parameters.map (Token.relabel ρ)) =
      (r.declareParameters parameters).relabel ρ before := by
  induction parameters generalizing r with
  | nil => rfl
  | cons name rest ih =>
    have hstep := ih ((r.declare name).define name)
    rw [← define_relabel, ← declare_relabel] at hstep
    exact hstep

end Resolution

section

open Resolution

variable (ρ : Relabeling) (before : List (ReferenceId × Nat))

mutual
theorem Expr.resolve_relabel (around : Surroundings) (globalName : Option String) :
    ∀ (e : Expr) (r : Resolution),
      (e.relabel ρ).resolve around globalName (r.relabel ρ before) =
        (e.resolve around globalName r).relabel ρ before
  | .literal _, _ => rfl
  | .grouping e, r | .unary _ e, r | .get e _, r => by
    simpa only [Expr.relabel, Expr.resolve] using e.resolve_relabel around globalName r
  | .binary l _ e, r | .logical l _ e, r => by
    simp only [Expr.relabel, Expr.resolve, l.resolve_relabel, e.resolve_relabel]
  | .set o _ e, r => by
    simp only [Expr.relabel, Expr.resolve, o.resolve_relabel, e.resolve_relabel]
  | .conditional c (some t) e, r => by
    simp only [Expr.relabel, Expr.resolve, c.resolve_relabel, t.resolve_relabel, e.resolve_relabel]
  | .conditional c none e, r => by
    simp only [Expr.relabel, Expr.resolve, c.resolve_relabel, e.resolve_relabel]
  | .variable target, r => by
    simp only [Expr.relabel, Expr.resolve, Reference.name_relabel, Token.lexeme_relabel,
      isBeingInitialized_relabel, reportIf_relabel, record_relabel]
  | .assign target e, r => by
    simp only [Expr.relabel, Expr.resolve, e.resolve_relabel, record_relabel]
  | .call f _ es, r => by
    simp only [Expr.relabel, Expr.resolve, f.resolve_relabel,
      Expr.resolveList_relabelAll around globalName es]
  | .this keyword, r => by
    simp only [Expr.relabel, Expr.resolve, Reference.name_relabel]
    cases around.classBody <;> simp only [report_relabel, record_relabel]
  | .super keyword _, r => by
    simp only [Expr.relabel, Expr.resolve, Reference.name_relabel]
    cases around.classBody <;> simp only [report_relabel, record_relabel]

theorem Expr.resolveList_relabelAll (around : Surroundings) (globalName : Option String) :
    ∀ (es : List Expr) (r : Resolution),
      Expr.resolveList around globalName (Expr.relabelAll ρ es) (r.relabel ρ before) =
        (Expr.resolveList around globalName es r).relabel ρ before
  | [], _ => rfl
  | e :: rest, r => by
    simp only [Expr.relabelAll, Expr.resolveList, e.resolve_relabel,
      Expr.resolveList_relabelAll around globalName rest]
end

theorem Expr.resolveOption_relabel (around : Surroundings) (e : Option Expr) (r : Resolution) :
    Expr.resolveOption around (e.map (Expr.relabel ρ)) (r.relabel ρ before) =
      (Expr.resolveOption around e r).relabel ρ before := by
  cases e with
  | none => rfl
  | some e => exact e.resolve_relabel ρ before around none r

theorem Declaration.methodContext_relabel (d : Declaration) :
    (d.relabel ρ).methodContext = d.methodContext := by
  simp [Declaration.methodContext]

mutual
theorem Stmt.resolve_relabel (around : Surroundings) : ∀ (s : Stmt) (r : Resolution),
    (s.relabel ρ).resolve around (r.relabel ρ before) = (s.resolve around r).relabel ρ before
  | .expression e, r | .print e, r => by
    simpa only [Stmt.relabel, Stmt.resolve] using e.resolve_relabel ρ before around none r
  | .declareVar name none, r => by
    simp only [Stmt.relabel, Option.map_none, Stmt.resolve, declare_relabel, define_relabel]
  | .declareVar name (some e), r => by
    simp only [Stmt.relabel, Option.map_some, Stmt.resolve, declare_relabel, scopes_relabel,
      Token.lexeme_relabel, e.resolve_relabel, define_relabel]
    rfl
  | .block body, r => by
    simp only [Stmt.relabel, Stmt.resolve, openScope_relabel, Stmt.resolveList_relabelAll around body,
      closeScope_relabel]
  | .branch c t (some e), r => by
    simp only [Stmt.relabel, Stmt.resolve, c.resolve_relabel, t.resolve_relabel, e.resolve_relabel]
  | .branch c t none, r => by
    simp only [Stmt.relabel, Stmt.resolve, c.resolve_relabel, t.resolve_relabel]
  | .loop (some i) c n b, r => by
    simp only [Stmt.relabel, Stmt.resolve, openScope_relabel, i.resolve_relabel, c.resolve_relabel,
      b.resolve_relabel, Stmt.resolveOption_relabel around n, closeScope_relabel]
  | .loop none c n b, r => by
    simp only [Stmt.relabel, Stmt.resolve, c.resolve_relabel, b.resolve_relabel,
      Stmt.resolveOption_relabel around n]
  | .declareFunction d, r => by
    simp only [Stmt.relabel, Stmt.resolve, Declaration.name_relabel, declare_relabel, define_relabel,
      d.resolve_relabel]
  | .returnWith word e, r => by
    simp only [Stmt.relabel, Stmt.resolve, Option.isSome_map, reportIf_relabel,
      Expr.resolveOption_relabel]
  | .breakLoop word, r | .continueLoop word, r => by
    simp only [Stmt.relabel, Stmt.resolve, reportIf_relabel]
  | .declareClass name none ds, r => by
    simp only [Stmt.relabel, Option.map_none, Stmt.resolve, declare_relabel, define_relabel,
      openScope_relabel, defineName_relabel, Declaration.resolveMethods_relabelAll _ ds,
      closeScope_relabel]
  | .declareClass name (some base) ds, r => by
    simp only [Stmt.relabel, Option.map_some, Stmt.resolve, declare_relabel, define_relabel,
      Reference.name_relabel, Token.lexeme_relabel, reportIf_relabel, record_relabel,
      openScope_relabel, defineName_relabel, Declaration.resolveMethods_relabelAll _ ds,
      closeScope_relabel]
    rfl

theorem Stmt.resolveOption_relabel (around : Surroundings) : ∀ (s : Option Stmt) (r : Resolution),
    Stmt.resolveOption around (Stmt.relabelOption ρ s) (r.relabel ρ before) =
      (Stmt.resolveOption around s r).relabel ρ before
  | none, _ => rfl
  | some s, r => by simp only [Stmt.relabelOption, Stmt.resolveOption, s.resolve_relabel]

theorem Stmt.resolveList_relabelAll (around : Surroundings) : ∀ (body : List Stmt) (r : Resolution),
    Stmt.resolveList around (Stmt.relabelAll ρ body) (r.relabel ρ before) =
      (Stmt.resolveList around body r).relabel ρ before
  | [], _ => rfl
  | s :: rest, r => by
    simp only [Stmt.relabelAll, Stmt.resolveList, s.resolve_relabel,
      Stmt.resolveList_relabelAll around rest]

theorem Declaration.resolve_relabel (around : Surroundings) (kind : EnclosingFunction) :
    ∀ (d : Declaration) (r : Resolution),
      (d.relabel ρ).resolve around kind (r.relabel ρ before) =
        (d.resolve around kind r).relabel ρ before
  | .mk _ parameters body, r => by
    simp only [Declaration.relabel, Declaration.resolve, openScope_relabel, declareParameters_relabel,
      Stmt.resolveList_relabelAll _ body, closeScope_relabel]

theorem Declaration.resolveMethods_relabelAll (around : Surroundings) :
    ∀ (ds : List Declaration) (r : Resolution),
      Declaration.resolveMethods around (Declaration.relabelAll ρ ds) (r.relabel ρ before) =
        (Declaration.resolveMethods around ds r).relabel ρ before
  | [], _ => rfl
  | d :: rest, r => by
    simp only [Declaration.relabelAll, Declaration.resolveMethods, Declaration.methodContext_relabel,
      d.resolve_relabel, Declaration.resolveMethods_relabelAll around rest]
end

end

theorem Stmt.resolveList_append (around : Surroundings) (a b : List Stmt) (r : Resolution) :
    Stmt.resolveList around (a ++ b) r = Stmt.resolveList around b (Stmt.resolveList around a r) := by
  induction a generalizing r with
  | nil => rfl
  | cons s rest ih => exact ih (s.resolve around r)

namespace Program

variable {ρ : Relabeling} {P Q : Program} {hops more : List (ReferenceId × Nat)}

theorem resolve_eq_ok : P.resolve = .ok hops ↔
    (Stmt.resolveList .program P .start).reported = [] ∧
      hops = (Stmt.resolveList .program P .start).hops := by
  unfold Program.resolve
  cases hreported : (Stmt.resolveList .program P .start).reported with
  | nil => simp [hreported, eq_comm]
  | cons d errors => simp [hreported]

/-- A tree with other lines and other identities is resolved to the same hop counts under the new
identities, or refused for the same errors on the new lines. -/
theorem resolve_relabelAll_eq (ρ : Relabeling) (P : Program) :
    Program.resolve (Stmt.relabelAll ρ P) =
      match P.resolve with
      | .ok hops => .ok (hops.map (Prod.map ρ.identity id))
      | .error errors => .error (errors.map (Diagnostic.relabel ρ)) := by
  have hstart : Stmt.resolveList .program (Stmt.relabelAll ρ P) .start =
      (Stmt.resolveList .program P .start).relabel ρ [] :=
    Stmt.resolveList_relabelAll ρ [] .program P .start
  unfold Program.resolve
  rw [hstart]
  cases hreported : (Stmt.resolveList .program P .start).reported <;>
    simp [Resolution.relabel, hreported]

theorem resolve_relabelAll :
    Program.resolve (Stmt.relabelAll ρ P) = .ok hops ↔
      ∃ found, P.resolve = .ok found ∧ hops = found.map (Prod.map ρ.identity id) := by
  rw [resolve_relabelAll_eq]
  cases P.resolve with
  | ok found => simp [eq_comm]
  | error errors => simp

theorem scopes_resolveList_nil {r : Resolution} (hP : Stmt.AllProper P) (hr : r.scopes = []) :
    (Stmt.resolveList .program P r).scopes = [] := by
  induction P generalizing r with
  | nil => exact hr
  | cons s rest ih =>
    refine ih hP.2 ?_
    rw [Stmt.scopes_resolve .program s r hP.1, hr, Stmt.mark_nil]

theorem relabelAll_congr {f g : ReferenceId → ReferenceId}
    (h : ∀ i ∈ identities (Stmt.listReferences P), f i = g i) :
    Stmt.relabelAll (.ofIdentities f) P = Stmt.relabelAll (.ofIdentities g) P := by
  refine Stmt.eq_of_allAnonymous ?_ ?_
  · rw [Stmt.allAnonymous_relabelAll, Stmt.allAnonymous_relabelAll]
  · simp only [Stmt.listReferences_relabelAll, identities_relabel]
    exact List.map_congr_left h

theorem relabelAll_same (P : Program) : Stmt.relabelAll (.ofIdentities fun id => id) P = P := by
  refine Stmt.eq_of_allAnonymous (Stmt.allAnonymous_relabelAll _ P) ?_
  rw [Stmt.listReferences_relabelAll, identities_relabel]
  exact List.map_id _

theorem resolve_append (hproper : Stmt.AllProper P) (hP : P.resolve = .ok hops)
    (hQ : Q.resolve = .ok more) : Program.resolve (P ++ Q) = .ok (more ++ hops) := by
  obtain ⟨hPreported, rfl⟩ := resolve_eq_ok.mp hP
  obtain ⟨hQreported, rfl⟩ := resolve_eq_ok.mp hQ
  have hseam : Stmt.resolveList .program P .start =
      Resolution.start.relabel (.ofIdentities fun id => id)
        (Stmt.resolveList .program P .start).hops := by
    have hscopes := scopes_resolveList_nil (r := .start) hproper rfl
    cases hr : Stmt.resolveList .program P .start with
    | mk scopes hops reported =>
      rw [hr] at hPreported hscopes
      subst hPreported hscopes
      rfl
  have hboth : Stmt.resolveList .program (P ++ Q) .start =
      (Stmt.resolveList .program Q .start).relabel (.ofIdentities fun id => id)
        (Stmt.resolveList .program P .start).hops := by
    rw [Stmt.resolveList_append, hseam, ← Stmt.resolveList_relabelAll, relabelAll_same]
    rfl
  rw [resolve_eq_ok, hboth]
  constructor
  · rw [Resolution.relabel, hQreported]
    rfl
  · exact congrArg (· ++ _) (List.map_id _).symm

end Program

end LoxLang
