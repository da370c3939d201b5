import LoxLang.Proofs.Syntax.Relabeling

set_option autoImplicit false

namespace LoxLang

/-- A statement with its innermost list of statements left out. -/
inductive Holder where
  | block
  | thenBranch (condition : Expr) (inner : Holder) (elseBranch : Option Stmt)
  | elseBranch (condition : Expr) (thenBranch : Stmt) (inner : Holder)
  | loop (initializer : Option Stmt) (condition : Expr) (increment : Option Stmt) (inner : Holder)
  | function (name : Token) (parameters : List Token)
  | method (name : Token) (superclass : Option Reference) (before : List Declaration)
    (own : Token) (parameters : List Token) (after : List Declaration)

/-- A list of statements with a place between two of them, or deeper in one of them. -/
inductive Gap where
  | here (before rest : List Stmt)
  | inside (before : List Stmt) (holder : Holder) (inner : Gap) (after : List Stmt)

namespace Holder

def fill : Holder → List Stmt → Stmt
  | .block, body => .block body
  | .thenBranch c h e, body => .branch c (h.fill body) e
  | .elseBranch c t h, body => .branch c t (some (h.fill body))
  | .loop i c n h, body => .loop i c n (h.fill body)
  | .function name parameters, body => .declareFunction (.mk name parameters body)
  | .method name base before own parameters after, body =>
    .declareClass name base (before ++ .mk own parameters body :: after)

def relabel (ρ : Relabeling) : Holder → Holder
  | .block => .block
  | .thenBranch c h e => .thenBranch (c.relabel ρ) (h.relabel ρ) (e.map (Stmt.relabel ρ))
  | .elseBranch c t h => .elseBranch (c.relabel ρ) (t.relabel ρ) (h.relabel ρ)
  | .loop i c n h =>
    .loop (i.map (Stmt.relabel ρ)) (c.relabel ρ) (Stmt.relabelOption ρ n) (h.relabel ρ)
  | .function name parameters => .function (name.relabel ρ) (parameters.map (Token.relabel ρ))
  | .method name base before own parameters after =>
    .method (name.relabel ρ) (base.map (Reference.relabel ρ)) (Declaration.relabelAll ρ before)
      (own.relabel ρ) (parameters.map (Token.relabel ρ)) (Declaration.relabelAll ρ after)

end Holder

namespace Gap

def fill : Gap → List Stmt → List Stmt
  | .here before rest, more => before ++ (more ++ rest)
  | .inside before holder inner after, more => before ++ holder.fill (inner.fill more) :: after

def rest : Gap → List Stmt
  | .here _ rest => rest
  | .inside _ _ inner _ => inner.rest

def relabel (ρ : Relabeling) : Gap → Gap
  | .here before rest => .here (Stmt.relabelAll ρ before) (Stmt.relabelAll ρ rest)
  | .inside before holder inner after =>
    .inside (Stmt.relabelAll ρ before) (holder.relabel ρ) (inner.relabel ρ) (Stmt.relabelAll ρ after)

end Gap

variable (ρ : Relabeling)

theorem Stmt.relabelAll_append (a b : List Stmt) :
    Stmt.relabelAll ρ (a ++ b) = Stmt.relabelAll ρ a ++ Stmt.relabelAll ρ b := by
  induction a with
  | nil => rfl
  | cons s rest ih => exact congrArg (s.relabel ρ :: ·) ih

theorem Declaration.relabelAll_append (a b : List Declaration) :
    Declaration.relabelAll ρ (a ++ b) = Declaration.relabelAll ρ a ++ Declaration.relabelAll ρ b := by
  induction a with
  | nil => rfl
  | cons d rest ih => exact congrArg (d.relabel ρ :: ·) ih

theorem Holder.relabel_fill (h : Holder) (body : List Stmt) :
    (h.fill body).relabel ρ = (h.relabel ρ).fill (Stmt.relabelAll ρ body) := by
  induction h with
  | block => rfl
  | thenBranch c h e ih => cases e <;> simp [fill, relabel, Stmt.relabel, ih]
  | elseBranch c t h ih => simp [fill, relabel, Stmt.relabel, ih]
  | loop i c n h ih => cases i <;> simp [fill, relabel, Stmt.relabel, ih]
  | function name parameters => rfl
  | method name base before own parameters after =>
    simp only [fill, relabel, Stmt.relabel, Declaration.relabelAll_append]
    rfl

theorem Gap.relabel_fill (g : Gap) (more : List Stmt) :
    Stmt.relabelAll ρ (g.fill more) = (g.relabel ρ).fill (Stmt.relabelAll ρ more) := by
  induction g with
  | here before rest => simp [fill, relabel, Stmt.relabelAll_append]
  | inside before h inner after ih =>
    simp [fill, relabel, Stmt.relabelAll_append, Stmt.relabelAll, Holder.relabel_fill, ih]

end LoxLang
