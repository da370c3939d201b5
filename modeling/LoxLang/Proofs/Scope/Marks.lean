import LoxLang.Proofs.Scope.Standing
import LoxLang.Proofs.Syntax.Proper

set_option autoImplicit false

namespace LoxLang

namespace Resolution

variable {r : Resolution}

@[simp] theorem scopes_report (token : Token) (cause : StaticError) :
    (r.report token cause).scopes = r.scopes := rfl

@[simp] theorem scopes_reportIf (condition : Bool) (token : Token) (cause : StaticError) :
    (r.reportIf condition token cause).scopes = r.scopes := by
  unfold reportIf
  split <;> rfl

@[simp] theorem scopes_record (target : Reference) : (r.record target).scopes = r.scopes := by
  unfold record
  split <;> rfl

theorem scopes_define (name : Token) : (r.define name).scopes = markName name.lexeme true r.scopes := by
  unfold define defineName
  cases h : r.scopes <;> simp [markName, h]

theorem scopes_declare (name : Token) :
    (r.declare name).scopes = r.scopes ∨
      (r.declare name).scopes = markName name.lexeme false r.scopes := by
  unfold declare
  split
  · exact .inl rfl
  · rename_i scope outer hscopes
    split
    · exact .inl rfl
    · exact .inr (by simp [hscopes, markName])

theorem Clean.scopes_declare {name : Token} (h : (r.declare name).Clean) :
    (r.declare name).scopes = markName name.lexeme false r.scopes := by
  unfold declare at h ⊢
  split
  · rename_i hscopes
    simp [hscopes, markName]
  · rename_i scope outer hscopes
    simp only [hscopes] at h
    split at h
    · exact absurd h not_clean_report
    · rename_i hnew
      simp [hnew, hscopes, markName]

theorem mark_declare (name : Token) :
    markName name.lexeme true (r.declare name).scopes = markName name.lexeme true r.scopes := by
  rcases scopes_declare (r := r) name with h | h
  · rw [h]
  · rw [h, markName_markName]

theorem scopes_declareDefine (name : Token) :
    ((r.declare name).define name).scopes = markName name.lexeme true r.scopes := by
  rw [scopes_define, mark_declare]

theorem scopes_declareParameters {scope : Scope} {outer : List Scope} (parameters : List Token)
    (hr : r.scopes = scope :: outer) :
    (r.declareParameters parameters).scopes =
      parameters.foldl (fun scope name => scope.insert name.lexeme true) scope :: outer := by
  unfold declareParameters
  induction parameters generalizing r scope with
  | nil => exact hr
  | cons name rest ih => exact ih (by rw [scopes_declareDefine, hr]; rfl)

theorem scopes_defineThis : (r.openScope.defineName "this").scopes = oneName "this" :: r.scopes := rfl

theorem scopes_defineSuper :
    (r.openScope.defineName "super").scopes = oneName "super" :: r.scopes := rfl

end Resolution

open Resolution

mutual
theorem Expr.scopes_resolve (around : Surroundings) (globalName : Option String) :
    ∀ (e : Expr) (r : Resolution), (e.resolve around globalName r).scopes = r.scopes
  | .literal _, r => by rw [Expr.resolve]
  | .grouping e, r | .unary _ e, r | .get e _, r => by
    rw [Expr.resolve, Expr.scopes_resolve around globalName e]
  | .binary l _ e, r | .logical l _ e, r => by
    rw [Expr.resolve, Expr.scopes_resolve around globalName e, Expr.scopes_resolve around globalName l]
  | .conditional c (some t) e, r => by
    rw [Expr.resolve, Expr.scopes_resolve around globalName e, Expr.scopes_resolve around globalName t,
      Expr.scopes_resolve around globalName c]
  | .conditional c none e, r => by
    rw [Expr.resolve, Expr.scopes_resolve around globalName e, Expr.scopes_resolve around globalName c]
  | .variable target, r => by rw [Expr.resolve, scopes_record, scopes_reportIf]
  | .assign target e, r => by
    rw [Expr.resolve, scopes_record, Expr.scopes_resolve around globalName e]
  | .call f _ es, r => by
    rw [Expr.resolve, Expr.scopes_resolveList around globalName es,
      Expr.scopes_resolve around globalName f]
  | .set o _ e, r => by
    rw [Expr.resolve, Expr.scopes_resolve around globalName o, Expr.scopes_resolve around globalName e]
  | .this keyword, r | .super keyword _, r => by
    rw [Expr.resolve]
    split <;> simp

theorem Expr.scopes_resolveList (around : Surroundings) (globalName : Option String) :
    ∀ (es : List Expr) (r : Resolution),
      (Expr.resolveList around globalName es r).scopes = r.scopes
  | [], r => by rw [Expr.resolveList]
  | e :: rest, r => by
    rw [Expr.resolveList, Expr.scopes_resolveList around globalName rest,
      Expr.scopes_resolve around globalName e]
end

theorem Expr.scopes_resolveOption (around : Surroundings) (e : Option Expr) (r : Resolution) :
    (Expr.resolveOption around e r).scopes = r.scopes := by
  cases e with
  | none => rfl
  | some e => exact Expr.scopes_resolve around none e r

theorem Stmt.resolveOption_map (around : Surroundings) (e : Option Expr) (r : Resolution) :
    Stmt.resolveOption around (e.map .expression) r = Expr.resolveOption around e r := by
  cases e <;> simp [Stmt.resolveOption, Stmt.resolve, Expr.resolveOption]

theorem Stmt.scopes_resolveIncrement (around : Surroundings) {n : Option Stmt}
    (h : n.all Stmt.isExpression = true) (r : Resolution) :
    (Stmt.resolveOption around n r).scopes = r.scopes := by
  obtain ⟨n, rfl⟩ := Stmt.exists_increment h
  rw [Stmt.resolveOption_map, Expr.scopes_resolveOption]

theorem Stmt.mark_nil (s : Stmt) : s.mark [] = [] := by cases s <;> rfl

theorem Stmt.tail_mark (s : Stmt) (scopes : List Scope) : (s.mark scopes).tail = scopes.tail := by
  cases s <;> cases scopes <;> simp [Stmt.mark, markName]

theorem Stmt.mark_of_not_declares {s : Stmt} (h : s.declares = false) (scopes : List Scope) :
    s.mark scopes = scopes := by
  cases s <;> simp_all [Stmt.mark, Stmt.declares]

mutual
theorem Stmt.scopes_resolve (around : Surroundings) : ∀ (s : Stmt) (r : Resolution), s.Proper →
    (s.resolve around r).scopes = s.mark r.scopes
  | .expression e, r, _ | .print e, r, _ => by
    rw [Stmt.resolve, Expr.scopes_resolve]
    rfl
  | .declareVar name none, r, _ => by
    rw [Stmt.resolve, scopes_declareDefine]
    rfl
  | .declareVar name (some e), r, _ => by
    simp only [Stmt.resolve]
    rw [scopes_define, Expr.scopes_resolve, mark_declare]
    rfl
  | .block body, r, hp => by
    rw [Stmt.resolve]
    exact Stmt.tail_resolveList around body r.openScope hp
  | .branch c t (some e), r, hp => by
    rw [Stmt.resolve, Stmt.scopes_resolve around e _ hp.2.1, Stmt.scopes_resolve around t _ hp.1.1,
      Expr.scopes_resolve, Stmt.mark_of_not_declares hp.1.2, Stmt.mark_of_not_declares hp.2.2]
    rfl
  | .branch c t none, r, hp => by
    rw [Stmt.resolve, Stmt.scopes_resolve around t _ hp.1, Expr.scopes_resolve,
      Stmt.mark_of_not_declares hp.2]
    rfl
  | .loop (some i) c n b, r, hp => by
    have hbody := Stmt.scopes_resolve { around with inLoop := true } b
    simp only [Stmt.resolve, closeScope, Stmt.scopes_resolveIncrement around hp.2.1]
    rw [hbody _ hp.2.2.1, Expr.scopes_resolve, Stmt.scopes_resolve around i _ hp.1.1,
      Stmt.mark_of_not_declares hp.2.2.2, Stmt.tail_mark]
    rfl
  | .loop none c n b, r, hp => by
    have hbody := Stmt.scopes_resolve { around with inLoop := true } b
    simp only [Stmt.resolve, Stmt.scopes_resolveIncrement around hp.1]
    rw [hbody _ hp.2.1, Expr.scopes_resolve, Stmt.mark_of_not_declares hp.2.2]
    rfl
  | .declareFunction d, r, hp => by
    rw [Stmt.resolve, Declaration.scopes_resolve around .function d _ hp, scopes_declareDefine]
    rfl
  | .returnWith _ e, r, _ => by
    simp only [Stmt.resolve, Expr.scopes_resolveOption, scopes_reportIf]
    rfl
  | .breakLoop _, r, _ | .continueLoop _, r, _ => by
    rw [Stmt.resolve, scopes_reportIf]
    rfl
  | .declareClass name none ds, r, hp => by
    simp only [Stmt.resolve, closeScope]
    rw [Declaration.scopes_resolveMethods _ ds _ hp.2, scopes_defineThis, scopes_declareDefine]
    rfl
  | .declareClass name (some base) ds, r, hp => by
    simp only [Stmt.resolve, closeScope]
    rw [Declaration.scopes_resolveMethods _ ds _ hp.2, scopes_defineThis, scopes_defineSuper,
      scopes_record, scopes_reportIf, scopes_declareDefine]
    rfl

theorem Stmt.tail_resolveList (around : Surroundings) : ∀ (body : List Stmt) (r : Resolution),
    Stmt.AllProper body → (Stmt.resolveList around body r).scopes.tail = r.scopes.tail
  | [], r, _ => by rw [Stmt.resolveList]
  | s :: rest, r, hp => by
    rw [Stmt.resolveList, Stmt.tail_resolveList around rest _ hp.2,
      Stmt.scopes_resolve around s r hp.1, Stmt.tail_mark]

theorem Declaration.scopes_resolve (around : Surroundings) (kind : EnclosingFunction) :
    ∀ (d : Declaration) (r : Resolution), d.Proper → (d.resolve around kind r).scopes = r.scopes
  | .mk name parameters body, r, hp => by
    simp only [Declaration.resolve, closeScope]
    rw [Stmt.tail_resolveList _ body _ hp.2.2, scopes_declareParameters parameters rfl]
    rfl

theorem Declaration.scopes_resolveMethods (around : Surroundings) :
    ∀ (ds : List Declaration) (r : Resolution), Declaration.AllProper ds →
      (Declaration.resolveMethods around ds r).scopes = r.scopes
  | [], r, _ => by rw [Declaration.resolveMethods]
  | d :: rest, r, hp => by
    rw [Declaration.resolveMethods, Declaration.scopes_resolveMethods around rest _ hp.2,
      Declaration.scopes_resolve around _ d r hp.1]
end

end LoxLang
