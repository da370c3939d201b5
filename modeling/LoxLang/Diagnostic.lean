import LoxLang.Number.Rounding
import LoxLang.Number.Text
import LoxLang.Text.Utf8
import LoxLang.Token.Basic
import LoxLang.Value

set_option autoImplicit false

namespace LoxLang

inductive LexicalError where
  | unexpectedCharacter (c : Char)
  | unterminatedString
  deriving DecidableEq, Repr

def LexicalError.message : LexicalError → String
  | .unexpectedCharacter c => "Unexpected character: " ++ String.singleton c
  | .unterminatedString => "Unterminated string."

inductive FunctionKind where
  | function
  | method
  deriving DecidableEq, Repr

def FunctionKind.name : FunctionKind → String
  | .function => "function"
  | .method => "method"

inductive Expectation where
  | className
  | superclassName
  | classBody
  | classEnd
  | functionName (kind : FunctionKind)
  | parameterList (kind : FunctionKind)
  | parameterName
  | parameterListEnd
  | functionBody (kind : FunctionKind)
  | variableName
  | variableEnd
  | breakEnd
  | continueEnd
  | forClauses
  | loopConditionEnd
  | forClausesEnd
  | printEnd
  | expressionEnd
  | ifCondition
  | ifConditionEnd
  | whileCondition
  | whileConditionEnd
  | returnEnd
  | blockEnd
  | elseBranch
  | propertyName
  | argumentListEnd
  | superMethodDot
  | superMethodName
  | groupEnd
  | expression
  | endOfExpression
  deriving DecidableEq, Repr

def Expectation.text : Expectation → String
  | .className => "class name"
  | .superclassName => "superclass name"
  | .classBody => "'\x7b' before class body"
  | .classEnd => "'\x7d' after class body"
  | .functionName kind => kind.name ++ " name"
  | .parameterList kind => "'(' after " ++ kind.name ++ " name"
  | .parameterName => "parameter name"
  | .parameterListEnd => "')' after parameters"
  | .functionBody kind => "'\x7b' before " ++ kind.name ++ " body"
  | .variableName => "variable name"
  | .variableEnd => "';' after variable declaration"
  | .breakEnd => "';' after 'break'"
  | .continueEnd => "';' after 'continue'"
  | .forClauses => "'(' after 'for'"
  | .loopConditionEnd => "';' after loop condition"
  | .forClausesEnd => "')' after for clauses"
  | .printEnd => "';' after value"
  | .expressionEnd => "';' after expression"
  | .ifCondition => "'(' after 'if'"
  | .ifConditionEnd => "')' after if condition"
  | .whileCondition => "'(' after 'while'"
  | .whileConditionEnd => "')' after condition"
  | .returnEnd => "';' after return value"
  | .blockEnd => "'\x7d' after block"
  | .elseBranch => "':' after then branch of conditional expression"
  | .propertyName => "property name after '.'"
  | .argumentListEnd => "')' after arguments"
  | .superMethodDot => "'.' after 'super'"
  | .superMethodName => "superclass method name"
  | .groupEnd => "')' after expression"
  | .expression => "expression"
  | .endOfExpression => "end of expression"

def argumentLimit : Nat := 8

inductive SyntaxError where
  | expected (what : Expectation)
  | invalidAssignmentTarget
  | tooManyParameters
  | tooManyArguments
  deriving DecidableEq, Repr

def SyntaxError.message : SyntaxError → String
  | .expected what => "Expect " ++ what.text ++ "."
  | .invalidAssignmentTarget => "Invalid assignment target."
  | .tooManyParameters => "Can't have more than " ++ toString argumentLimit ++ " parameters."
  | .tooManyArguments => "Can't have more than " ++ toString argumentLimit ++ " arguments."

/-- Programs that parse and still have no meaning. -/
inductive StaticError where
  | alreadyDeclared
  | readInOwnInitializer
  | returnAtTopLevel
  | returnFromInitializer
  | breakOutsideLoop
  | continueOutsideLoop
  | inheritsFromItself
  | thisOutsideClass
  | superOutsideClass
  | superWithoutSuperclass
  deriving DecidableEq, Repr

def StaticError.message : StaticError → String
  | .alreadyDeclared => "Already a variable with this name in this scope."
  | .readInOwnInitializer => "Can't read local variable in its own initializer."
  | .returnAtTopLevel => "Can't return from top-level code."
  | .returnFromInitializer => "Can't return a value from an initializer."
  | .breakOutsideLoop => "Can't use 'break' outside of a loop."
  | .continueOutsideLoop => "Can't use 'continue' outside of a loop."
  | .inheritsFromItself => "A class can't inherit from itself."
  | .thisOutsideClass => "Can't use 'this' outside of a class."
  | .superOutsideClass => "Can't use 'super' outside of a class."
  | .superWithoutSuperclass => "Can't use 'super' in a class with no superclass."

/-- A failure of reading or printing a line. Only the stream knows what can fail in it. -/
structure IoError where
  message : String
  deriving DecidableEq, Repr, Inhabited

def IoError.malformedText : IoError := ⟨"stream did not contain valid UTF-8"⟩

inductive RuntimeError where
  | undefinedVariable (name : String)
  | noScope (distance : Nat) (name : String)
  | operandNotNumber
  | operandsNotNumbers
  | operandsNotAddable
  | invalidUnary (operator : String)
  | invalidBinary (operator : String)
  | superclassNotClass
  | superOutsideClass
  | thisNotObject
  | undefinedProperty (name : String)
  | propertyOfNonObject
  | fieldOfNonObject
  | notCallable
  | wrongArity (expected given : Nat)
  | stackOverflow
  | methodNotBound (name : String)
  | indexNotNumber
  | indexOutOfRange (index : Number)
  | popFromEmpty
  | notNumeral (text : String)
  | noNumberIn (type : TypeName)
  | inputFailed (cause : IoError)
  deriving DecidableEq, Repr

def RuntimeError.message : RuntimeError → String
  | .undefinedVariable name => "Undefined variable '" ++ name ++ "'."
  | .noScope distance name =>
    "No scope " ++ toString distance ++ " levels up for '" ++ name ++ "'."
  | .operandNotNumber => "Operand must be a number."
  | .operandsNotNumbers => "Operands must be numbers."
  | .operandsNotAddable => "Operands must be two numbers or include a string."
  | .invalidUnary operator => "Invalid unary operator '" ++ operator ++ "'."
  | .invalidBinary operator => "Invalid binary operator '" ++ operator ++ "'."
  | .superclassNotClass => "Superclass must be a class."
  | .superOutsideClass => "Can't use 'super' outside of a class."
  | .thisNotObject => "'this' is not an instance."
  | .undefinedProperty name => "Undefined property '" ++ name ++ "'."
  | .propertyOfNonObject => "Only instances have properties."
  | .fieldOfNonObject => "Only instances have fields."
  | .notCallable => "Can only call functions and classes."
  | .wrongArity expected given =>
    "Expected " ++ toString expected ++ " arguments but got " ++ toString given ++ "."
  | .stackOverflow => "Stack overflow."
  | .methodNotBound name => "Method '" ++ name ++ "' is not bound."
  | .indexNotNumber => "Indexes can only be numbers."
  | .indexOutOfRange index =>
    "Index " ++ String.ofList index.truncate.plain ++ " out of range."
  | .popFromEmpty => "Cannot pop from an empty array."
  | .notNumeral text => "Cannot parse '" ++ text ++ "' as a number."
  | .noNumberIn type => "Cannot parse a " ++ type.text ++ " as a number."
  | .inputFailed cause => "Failed to read input: " ++ cause.message

inductive Diagnostic where
  | lexical (line : Nat) (cause : LexicalError)
  | grammatical (token : Token) (cause : SyntaxError)
  | static (token : Token) (cause : StaticError)
  | runtime (line : Nat) (cause : RuntimeError)
  | io (cause : IoError)
  | encoding (cause : Utf8Error)
  deriving DecidableEq, Repr

def Token.place (t : Token) : String :=
  if t.kind = .endOfInput then "at end" else "at '" ++ t.lexeme ++ "'"

namespace Diagnostic

def line? : Diagnostic → Option Nat
  | .lexical line _ | .runtime line _ => some line
  | .grammatical token _ | .static token _ => some token.line
  | .io _ | .encoding _ => none

def message : Diagnostic → String
  | .lexical _ cause => cause.message
  | .grammatical _ cause => cause.message
  | .static _ cause => cause.message
  | .runtime _ cause => cause.message
  | .io cause => cause.message
  | .encoding cause => cause.message

def text : Diagnostic → String
  | .lexical line cause => "[line " ++ toString line ++ "] Error: " ++ cause.message
  | .grammatical token cause =>
    "[line " ++ toString token.line ++ "] Error " ++ token.place ++ ": " ++ cause.message
  | .static token cause =>
    "[line " ++ toString token.line ++ "] Error " ++ token.place ++ ": " ++ cause.message
  | .runtime line cause => cause.message ++ "\n[line " ++ toString line ++ "]"
  | .io cause => cause.message
  | .encoding cause => cause.message

def isRuntime : Diagnostic → Bool
  | .runtime _ _ => true
  | _ => false

/-- The exit status of a run that reported these: 70 after a failure at run time, 65 after any
other, 0 after none. -/
def exitStatus (diagnostics : List Diagnostic) : Nat :=
  if diagnostics.any isRuntime then 70
  else if diagnostics.isEmpty then 0 else 65

def report (diagnostics : List Diagnostic) : String :=
  "\n".intercalate (diagnostics.map text)

end Diagnostic

end LoxLang
