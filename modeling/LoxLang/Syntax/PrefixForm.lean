import LoxLang.Number.Text
import LoxLang.Syntax.Basic

set_option autoImplicit false

namespace LoxLang

def Literal.prefixForm : Literal → String
  | .number value => String.ofList value.inTree
  | .string text => text
  | .boolean true => "true"
  | .boolean false => "false"
  | .nil => "nil"

mutual
def Expr.prefixForm : Expr → String
  | .literal value => value.prefixForm
  | .grouping inner => "(group " ++ inner.prefixForm ++ ")"
  | .unary operator right => "(" ++ operator.lexeme ++ " " ++ right.prefixForm ++ ")"
  | .binary left operator right | .logical left operator right =>
    "(" ++ operator.lexeme ++ " " ++ left.prefixForm ++ " " ++ right.prefixForm ++ ")"
  | .conditional condition (some thenBranch) elseBranch =>
    "(?: " ++ condition.prefixForm ++ " " ++ thenBranch.prefixForm ++ " " ++
      elseBranch.prefixForm ++ ")"
  | .conditional condition none elseBranch =>
    "(?: " ++ condition.prefixForm ++ " " ++ elseBranch.prefixForm ++ ")"
  | .variable target => target.name.lexeme
  | .assign target value => "(= " ++ target.name.lexeme ++ " " ++ value.prefixForm ++ ")"
  | .call callee _ arguments =>
    "(call " ++ callee.prefixForm ++ Expr.prefixForms arguments ++ ")"
  | .get object name => "(. " ++ object.prefixForm ++ " " ++ name.lexeme ++ ")"
  | .set object name value =>
    "(= (. " ++ object.prefixForm ++ " " ++ name.lexeme ++ ") " ++ value.prefixForm ++ ")"
  | .this _ => "this"
  | .super _ method => "(super " ++ method.lexeme ++ ")"

def Expr.prefixForms : List Expr → String
  | [] => ""
  | e :: rest => " " ++ e.prefixForm ++ Expr.prefixForms rest
end

mutual
def Stmt.prefixForm : Stmt → String
  | .expression value => "(; " ++ value.prefixForm ++ ")"
  | .print value => "(print " ++ value.prefixForm ++ ")"
  | .declareVar name (some value) => "(var " ++ name.lexeme ++ " " ++ value.prefixForm ++ ")"
  | .declareVar name none => "(var " ++ name.lexeme ++ ")"
  | .block body => "(block" ++ Stmt.prefixForms body ++ ")"
  | .branch condition thenBranch (some elseBranch) =>
    "(if " ++ condition.prefixForm ++ " " ++ thenBranch.prefixForm ++ " " ++
      elseBranch.prefixForm ++ ")"
  | .branch condition thenBranch none =>
    "(if " ++ condition.prefixForm ++ " " ++ thenBranch.prefixForm ++ ")"
  | .loop none condition none body =>
    "(while " ++ condition.prefixForm ++ " " ++ body.prefixForm ++ ")"
  | .loop none condition (some increment) body =>
    "(for nil " ++ condition.prefixForm ++ " " ++ increment.prefixForm ++ " " ++ body.prefixForm ++ ")"
  | .loop (some initializer) condition none body =>
    "(for " ++ initializer.prefixForm ++ " " ++ condition.prefixForm ++ " nil " ++
      body.prefixForm ++ ")"
  | .loop (some initializer) condition (some increment) body =>
    "(for " ++ initializer.prefixForm ++ " " ++ condition.prefixForm ++ " " ++
      increment.prefixForm ++ " " ++ body.prefixForm ++ ")"
  | .declareFunction declaration => declaration.prefixForm "fun"
  | .returnWith _ (some value) => "(return " ++ value.prefixForm ++ ")"
  | .returnWith _ none => "(return)"
  | .breakLoop _ => "(break)"
  | .continueLoop _ => "(continue)"
  | .declareClass name superclass methods =>
    "(class " ++ name.lexeme ++
      (match superclass with
       | some superclass => " < " ++ superclass.name.lexeme
       | none => "") ++
      Declaration.prefixForms methods ++ ")"

def Stmt.prefixForms : List Stmt → String
  | [] => ""
  | s :: rest => " " ++ s.prefixForm ++ Stmt.prefixForms rest

def Declaration.prefixForm (head : String) : Declaration → String
  | .mk name parameters body =>
    "(" ++ head ++ " " ++ name.lexeme ++ " (" ++
      " ".intercalate (parameters.map Token.lexeme) ++ ")" ++ Stmt.prefixForms body ++ ")"

def Declaration.prefixForms : List Declaration → String
  | [] => ""
  | d :: rest => " " ++ d.prefixForm "method" ++ Declaration.prefixForms rest
end

end LoxLang
