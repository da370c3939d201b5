import Mathlib
import LoxLang.Scope

set_option autoImplicit false

namespace LoxLang

namespace Resolution

variable {r : Resolution}

def Clean (r : Resolution) : Prop := r.reported = []

theorem not_clean_report {token : Token} {cause : StaticError} : ¬ (r.report token cause).Clean := by
  simp [Clean, report]

@[simp] theorem clean_reportIf {condition : Bool} {token : Token} {cause : StaticError} :
    (r.reportIf condition token cause).Clean ↔ condition = false ∧ r.Clean := by
  unfold reportIf
  cases condition with
  | false => simp
  | true => simp [not_clean_report]

@[simp] theorem clean_openScope : r.openScope.Clean ↔ r.Clean := Iff.rfl

@[simp] theorem clean_closeScope : r.closeScope.Clean ↔ r.Clean := Iff.rfl

@[simp] theorem clean_defineName {name : String} : (r.defineName name).Clean ↔ r.Clean := by
  unfold defineName
  split <;> exact Iff.rfl

@[simp] theorem clean_define {name : Token} : (r.define name).Clean ↔ r.Clean := clean_defineName

@[simp] theorem clean_record {target : Reference} : (r.record target).Clean ↔ r.Clean := by
  unfold record
  split <;> exact Iff.rfl

theorem Clean.of_declare {name : Token} (h : (r.declare name).Clean) : r.Clean := by
  unfold declare at h
  split at h
  · exact h
  · split at h
    · exact absurd h not_clean_report
    · exact h

theorem Clean.of_declareParameters {parameters : List Token}
    (h : (r.declareParameters parameters).Clean) : r.Clean := by
  unfold declareParameters at h
  induction parameters generalizing r with
  | nil => exact h
  | cons name rest ih => exact (clean_define.mp (ih h)).of_declare

end Resolution

open Resolution

mutual
theorem Expr.clean_of_resolve (around : Surroundings) (globalName : Option String) :
    ∀ (e : Expr) (r : Resolution), (e.resolve around globalName r).Clean → r.Clean
  | .literal _, r, h => by simpa [Expr.resolve] using h
  | .grouping e, r, h => Expr.clean_of_resolve around globalName e r (by simpa [Expr.resolve] using h)
  | .unary _ e, r, h => Expr.clean_of_resolve around globalName e r (by simpa [Expr.resolve] using h)
  | .binary l _ e, r, h | .logical l _ e, r, h => by
    simp only [Expr.resolve] at h
    exact Expr.clean_of_resolve around globalName l r
      (Expr.clean_of_resolve around globalName e _ h)
  | .conditional c (some t) e, r, h => by
    simp only [Expr.resolve] at h
    exact Expr.clean_of_resolve around globalName c r
      (Expr.clean_of_resolve around globalName t _ (Expr.clean_of_resolve around globalName e _ h))
  | .conditional c none e, r, h => by
    simp only [Expr.resolve] at h
    exact Expr.clean_of_resolve around globalName c r
      (Expr.clean_of_resolve around globalName e _ h)
  | .variable target, r, h => by
    simp only [Expr.resolve, clean_record, clean_reportIf] at h
    exact h.2
  | .assign target e, r, h => by
    simp only [Expr.resolve, clean_record] at h
    exact Expr.clean_of_resolve around globalName e r h
  | .call f _ es, r, h => by
    simp only [Expr.resolve] at h
    exact Expr.clean_of_resolve around globalName f r
      (Expr.clean_of_resolveList around globalName es _ h)
  | .get o _, r, h => Expr.clean_of_resolve around globalName o r (by simpa [Expr.resolve] using h)
  | .set o _ e, r, h => by
    simp only [Expr.resolve] at h
    exact Expr.clean_of_resolve around globalName e r
      (Expr.clean_of_resolve around globalName o _ h)
  | .this keyword, r, h => by
    simp only [Expr.resolve] at h
    split at h
    · exact absurd h not_clean_report
    all_goals exact clean_record.mp h
  | .super keyword _, r, h => by
    simp only [Expr.resolve] at h
    split at h
    · exact absurd (clean_record.mp h) not_clean_report
    · exact absurd (clean_record.mp h) not_clean_report
    · exact clean_record.mp h

theorem Expr.clean_of_resolveList (around : Surroundings) (globalName : Option String) :
    ∀ (es : List Expr) (r : Resolution), (Expr.resolveList around globalName es r).Clean → r.Clean
  | [], r, h => by simpa [Expr.resolveList] using h
  | e :: rest, r, h => by
    simp only [Expr.resolveList] at h
    exact Expr.clean_of_resolve around globalName e r
      (Expr.clean_of_resolveList around globalName rest _ h)
end

theorem Expr.clean_of_resolveOption {around : Surroundings} {e : Option Expr} {r : Resolution}
    (h : (Expr.resolveOption around e r).Clean) : r.Clean := by
  cases e with
  | none => exact h
  | some e => exact Expr.clean_of_resolve around none e r h

theorem Program.resolve_ok {P : Program} {hops : List (ReferenceId × Nat)}
    (h : P.resolve = .ok hops) :
    (Stmt.resolveList .program P .start).Clean ∧
      hops = (Stmt.resolveList .program P .start).hops := by
  unfold Program.resolve at h
  simp only at h
  split at h
  · rename_i hclean
    cases h
    exact ⟨by simpa [Clean] using hclean, rfl⟩
  · cases h

theorem Program.resolve_error {P : Program} {errors : List Diagnostic} (h : P.resolve = .error errors) :
    errors ≠ [] ∧ errors = (Stmt.resolveList .program P .start).reported := by
  unfold Program.resolve at h
  simp only at h
  split at h
  · cases h
  · rename_i hsome
    cases h
    exact ⟨by simpa using hsome, rfl⟩

end LoxLang
