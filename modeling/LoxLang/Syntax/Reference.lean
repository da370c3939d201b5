import LoxLang.Syntax.Basic

set_option autoImplicit false

namespace LoxLang

inductive ReferenceKind where
  | variable
  | assign
  | this
  | super
  | superclass
  deriving DecidableEq, Repr

def ReferenceKind.name : ReferenceKind → String
  | .variable => "variable"
  | .assign => "assign"
  | .this => "this"
  | .super => "super"
  | .superclass => "superclass"

mutual
def Expr.references : Expr → List (ReferenceKind × Reference)
  | .literal _ => []
  | .grouping inner => inner.references
  | .unary _ right => right.references
  | .binary left _ right | .logical left _ right => left.references ++ right.references
  | .conditional condition (some thenBranch) elseBranch =>
    condition.references ++ thenBranch.references ++ elseBranch.references
  | .conditional condition none elseBranch => condition.references ++ elseBranch.references
  | .variable target => [(.variable, target)]
  | .assign target value => (.assign, target) :: value.references
  | .call callee _ arguments => callee.references ++ Expr.listReferences arguments
  | .get object _ => object.references
  | .set object _ value => object.references ++ value.references
  | .this keyword => [(.this, keyword)]
  | .super keyword _ => [(.super, keyword)]

def Expr.listReferences : List Expr → List (ReferenceKind × Reference)
  | [] => []
  | e :: rest => e.references ++ Expr.listReferences rest
end

def Expr.optionReferences : Option Expr → List (ReferenceKind × Reference)
  | some e => e.references
  | none => []

mutual
def Stmt.references : Stmt → List (ReferenceKind × Reference)
  | .expression value | .print value => value.references
  | .declareVar _ initializer => Expr.optionReferences initializer
  | .block body => Stmt.listReferences body
  | .branch condition thenBranch (some elseBranch) =>
    condition.references ++ thenBranch.references ++ elseBranch.references
  | .branch condition thenBranch none => condition.references ++ thenBranch.references
  | .loop (some initializer) condition increment body =>
    initializer.references ++ condition.references ++ Stmt.optionReferences increment ++
      body.references
  | .loop none condition increment body =>
    condition.references ++ Stmt.optionReferences increment ++ body.references
  | .declareFunction declaration => declaration.references
  | .returnWith _ value => Expr.optionReferences value
  | .breakLoop _ | .continueLoop _ => []
  | .declareClass _ superclass methods =>
    (superclass.map fun r => (.superclass, r)).toList ++ Declaration.listReferences methods

def Stmt.optionReferences : Option Stmt → List (ReferenceKind × Reference)
  | some s => s.references
  | none => []

def Stmt.listReferences : List Stmt → List (ReferenceKind × Reference)
  | [] => []
  | s :: rest => s.references ++ Stmt.listReferences rest

def Declaration.references : Declaration → List (ReferenceKind × Reference)
  | .mk _ _ body => Stmt.listReferences body

def Declaration.listReferences : List Declaration → List (ReferenceKind × Reference)
  | [] => []
  | d :: rest => d.references ++ Declaration.listReferences rest
end

@[simp] theorem Stmt.optionReferences_none : Stmt.optionReferences none = [] := by
  simp [Stmt.optionReferences]

@[simp] theorem Stmt.optionReferences_some (s : Stmt) : Stmt.optionReferences (some s) = s.references := by
  simp [Stmt.optionReferences]

@[simp] theorem Stmt.optionReferences_map (e : Option Expr) :
    Stmt.optionReferences (e.map .expression) = Expr.optionReferences e := by
  cases e <;> simp [Stmt.references, Expr.optionReferences]

end LoxLang
