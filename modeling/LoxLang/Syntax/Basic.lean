import LoxLang.Token.Basic

/-!
Syntax trees of programs.

Every place that names a binding is a `Reference` with an identity of its own, so two references of
the same name stay apart when hop counts are recorded for them.
-/

set_option autoImplicit false

namespace LoxLang

abbrev ReferenceId := Nat

/-- A place that names a binding: a variable, `this`, `super` or a superclass. -/
structure Reference where
  id : ReferenceId
  name : Token
  deriving DecidableEq, Repr

inductive Literal where
  | number (value : Number)
  | string (text : String)
  | boolean (value : Bool)
  | nil
  deriving DecidableEq, Repr

inductive Expr where
  | literal (value : Literal)
  | grouping (inner : Expr)
  | unary (operator : Token) (right : Expr)
  | binary (left : Expr) (operator : Token) (right : Expr)
  | logical (left : Expr) (operator : Token) (right : Expr)
  /-- `c ? t : e`, and `c ?: e` where the condition is also the answer. -/
  | conditional (condition : Expr) (thenBranch : Option Expr) (elseBranch : Expr)
  | variable (target : Reference)
  | assign (target : Reference) (value : Expr)
  /-- A call with its closing parenthesis, at which failures are reported. -/
  | call (callee : Expr) (paren : Token) (arguments : List Expr)
  | get (object : Expr) (name : Token)
  | set (object : Expr) (name : Token) (value : Expr)
  | this (keyword : Reference)
  | super (keyword : Reference) (method : Token)
  deriving Repr

mutual
inductive Stmt where
  | expression (value : Expr)
  | print (value : Expr)
  | declareVar (name : Token) (initializer : Option Expr)
  | block (body : List Stmt)
  | branch (condition : Expr) (thenBranch : Stmt) (elseBranch : Option Stmt)
  /-- The only loop: `while` has neither an initializer nor an increment, `for` may have both. -/
  | loop (initializer : Option Stmt) (condition : Expr) (increment : Option Stmt) (body : Stmt)
  | declareFunction (declaration : Declaration)
  | returnWith (keyword : Token) (value : Option Expr)
  | breakLoop (keyword : Token)
  | continueLoop (keyword : Token)
  | declareClass (name : Token) (superclass : Option Reference) (methods : List Declaration)
  deriving Repr

inductive Declaration where
  | mk (name : Token) (parameters : List Token) (body : List Stmt)
  deriving Repr
end

abbrev Program := List Stmt

namespace Declaration

def name : Declaration → Token
  | .mk name _ _ => name

def parameters : Declaration → List Token
  | .mk _ parameters _ => parameters

def body : Declaration → List Stmt
  | .mk _ _ body => body

end Declaration

/-- The line a failure in the expression is attributed to. A literal stands on no line. -/
def Expr.line : Expr → Nat
  | .literal _ => 0
  | .grouping inner => inner.line
  | .unary operator _ => operator.line
  | .binary _ operator _ => operator.line
  | .logical _ operator _ => operator.line
  | .conditional condition _ _ => condition.line
  | .variable target => target.name.line
  | .assign target _ => target.name.line
  | .call _ paren _ => paren.line
  | .get _ name => name.line
  | .set _ name _ => name.line
  | .this keyword => keyword.name.line
  | .super keyword _ => keyword.name.line

def initializerName : String := "init"

def toStringName : String := "toString"

end LoxLang
