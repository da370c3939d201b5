import LoxLang.Machine.Basic
import LoxLang.Number.Numeral
import LoxLang.Store.Elements

/-!
Running statements and evaluating expressions.

A reference with a recorded hop count is looked up exactly that many environments up, any other one
among the globals. `return`, `break` and `continue` are ways for a statement to end, not faults.
Every function takes fuel: it bounds how deep the evaluation nests, iterations of a loop included,
and running out of it is told apart from every way in which a program can end.
-/

set_option autoImplicit false

namespace LoxLang

inductive Ending where
  | normal
  | returned (value : Value)
  | broke
  | continued
  deriving DecidableEq, Repr

def Literal.value : Literal → Value
  | .number value => .number value
  | .string text => .string text
  | .boolean value => .boolean value
  | .nil => .nil

def applyUnary (operator : Token) (right : Value) : Except RuntimeError Value :=
  match operator.kind with
  | .mark .minus =>
    match right with
    | .number n => .ok (.number n.negate)
    | _ => .error .operandNotNumber
  | .mark .bang => .ok (.boolean (!right.truthy))
  | _ => .error (.invalidUnary operator.lexeme)

/-- Addition, and concatenation as soon as one side is a string and the other can be written. -/
def addValues : Value → Value → Except RuntimeError Value
  | .number a, .number b => .ok (.number (a.add b))
  | .string a, .string b => .ok (.string (a ++ b))
  | .string a, .number b => .ok (.string (a ++ String.ofList b.printed))
  | .number a, .string b => .ok (.string (String.ofList a.printed ++ b))
  | _, _ => .error .operandsNotAddable

def applyToNumbers (operator : Token) (a b : Number) : Except RuntimeError Value :=
  match operator.kind with
  | .mark .minus => .ok (.number (a.sub b))
  | .mark .star => .ok (.number (a.mul b))
  | .mark .slash => .ok (.number (a.div b))
  | .mark .greater => .ok (.boolean (b.lt a))
  | .mark .greaterEqual => .ok (.boolean (b.le a))
  | .mark .less => .ok (.boolean (a.lt b))
  | .mark .lessEqual => .ok (.boolean (a.le b))
  | _ => .error (.invalidBinary operator.lexeme)

/-- Applies an operator to two operands. Only addition and equality are defined on other values
than numbers. -/
def applyBinary (operator : Token) (left right : Value) : Except RuntimeError Value :=
  match operator.kind with
  | .mark .plus => addValues left right
  | .mark .equalEqual => .ok (.boolean (left.same right))
  | .mark .bangEqual => .ok (.boolean (!left.same right))
  | _ =>
    match left, right with
    | .number a, .number b => applyToNumbers operator a b
    | _, _ => .error .operandsNotNumbers

/-- Whether `and` or `or` answers its left operand. Every operator but `or` acts as `and`. -/
def decidedByLeft (operator : Token) (left : Value) : Bool :=
  if operator.kind = .keyword .orWord then left.truthy else !left.truthy

def parseNumber : Value → Except RuntimeError Value
  | .number n => .ok (.number n)
  | .string text =>
    match Number.numeral? (trimBlank text.toList) with
    | some n => .ok (.number n)
    | none => .error (.notNumeral text)
  | other => .error (.noNumberIn other.typeOf)

namespace Eval

def requireArity (line arity given : Nat) : Eval Unit :=
  if arity = given then ret () else fail line (.wrongArity arity given)

def lookUp (target : Reference) : Eval Value := fun m =>
  match m.hops[target.id]? with
  | some distance =>
    ofExcept target.name.line (m.store.lookupAt m.cursor distance target.name.lexeme) m
  | none => ofExcept target.name.line (m.store.lookup Store.globals target.name.lexeme) m

def bindIn (frame : FrameId) (name : String) (value : Value) : Eval Unit :=
  update fun s => ((), s.bind frame name value)

def assign (target : Reference) (value : Value) : Eval Unit := do
  let name := target.name.lexeme
  let cursor ← view Machine.cursor
  let holder ←
    match (← view Machine.hops)[target.id]? with
    | some distance => view fun m => m.store.holderAt cursor distance name
    | none => view fun m => m.store.holder Store.globals name
  bindIn (← ofExcept target.name.line holder) name value

def define (name : String) (value : Value) : Eval Unit := do
  bindIn (← view Machine.cursor) name value

def newFrame (enclosing : FrameId) : Eval FrameId :=
  update fun s => s.addFrame (some enclosing)

def innerFrame : Eval FrameId := do newFrame (← view Machine.cursor)

def bindMethod (method : FunctionId) (object : ObjectId) : Eval FunctionId :=
  update fun s => s.bindMethod method object

def runNative (line : Nat) (function : Native) (arguments : List Value) : Eval Value :=
  match function, arguments with
  | .clock, _ => do
    return .number (Clock.seconds (← readClock))
  | .input, _ => do
    match ← takeLine with
    | .ok (some text) => return .string text
    | .ok none => return .nil
    | .error cause => fail line (.inputFailed cause)
  | .parseNumber, [value] => ofExcept line (parseNumber value)
  | .parseNumber, _ => fail line (.wrongArity 1 arguments.length)

/-- Runs a method of `array` on the object that `this` is in its closure. An initializer answers
the object. -/
def runArrayMethod (line : Nat) (f : Function) (method : ArrayMethod) (arguments : List Value) :
    Eval Value := do
  match (← view Machine.store).receiver? f.closure with
  | none => fail line (.methodNotBound method.name)
  | some this =>
    let answer ← ofExcept line (← view fun m => method.answer (m.store.elements this) arguments)
    update fun s => ((), s.modifyElements this (method.change arguments))
    return if f.initializes then .object this else answer

def parameterFrame (closure : FrameId) (parameters : List Token) (arguments : List Value) :
    Eval FrameId := do
  let frame ← newFrame closure
  update fun s =>
    ((), (parameters.zip arguments).foldl (fun s (name, value) => s.bind frame name.lexeme value) s)
  return frame

/-- What a call answers after its body: an initializer the object it was run on, and any other
function what it returned. -/
def answerOf (line : Nat) (f : Function) (ending : Ending) : Eval Value := fun m =>
  if f.initializes then ofExcept line (m.store.lookupAt f.closure 0 "this") m
  else
    match ending with
    | .returned value => .answer value m
    | _ => .answer .nil m

/-- `super.m`: the superclass stands the recorded number of environments up, and the object one
below it. -/
def superMethod (keyword : Reference) (method : Token) : Eval Value := do
  let line := keyword.name.line
  match (← view Machine.hops)[keyword.id]? with
  | none => fail line .superOutsideClass
  | some distance =>
    let cursor ← view Machine.cursor
    let store ← view Machine.store
    match ← ofExcept line (store.lookupAt cursor distance keyword.name.lexeme) with
    | .classValue superclass =>
      match ← ofExcept line (store.lookupAt cursor (distance - 1) "this") with
      | .object this =>
        match store.method? superclass method.lexeme with
        | some function => return .function (← bindMethod function this)
        | none => fail method.line (.undefinedProperty method.lexeme)
      | _ => fail line .thisNotObject
    | _ => fail line .superclassNotClass

def property (object : Value) (name : Token) : Eval Value :=
  match object with
  | .object id => do
    match ← ofExcept name.line (← view fun m => m.store.property id name.lexeme) with
    | .field value => return value
    | .method method => return .function (← bindMethod method id)
  | _ => fail name.line .propertyOfNonObject

def superclassOf : Option Reference → Eval (Option ClassId)
  | none => ret none
  | some target => do
    match ← lookUp target with
    | .classValue id => return some id
    | _ => fail target.name.line .superclassNotClass

/-- The environment that methods close over: one that binds `super` if there is a superclass, and
otherwise the current one. -/
def methodFrame : Option ClassId → Eval FrameId
  | none => view Machine.cursor
  | some superclass => do
    let frame ← innerFrame
    bindIn frame "super" (.classValue superclass)
    return frame

/-- Makes the functions of a class body; of two of one name the later one stays. -/
def makeMethods (closure : FrameId) : List Declaration → Dictionary FunctionId →
    Eval (Dictionary FunctionId)
  | [], methods => ret methods
  | d :: rest, methods => do
    let initializes := decide (d.name.lexeme = initializerName)
    let id ← update fun s => s.addFunction ⟨.declared d, closure, initializes⟩
    makeMethods closure rest (methods.insert d.name.lexeme id)

/-- Declares a class. Its name is bound to `nil` until it is complete. -/
def declareClass (name : Token) (superclass : Option Reference) (methods : List Declaration) :
    Eval Unit := do
  let superclass ← superclassOf superclass
  define name.lexeme .nil
  let closure ← methodFrame superclass
  let methods ← makeMethods closure methods ∅
  let id ← update fun s => s.addClass ⟨name.lexeme, superclass, methods⟩
  let holder ← view fun m => m.store.holder m.cursor name.lexeme
  bindIn (← ofExcept name.line holder) name.lexeme (.classValue id)

end Eval

open Eval

mutual
def evaluate : Nat → Expr → Eval Value
  | 0, _ => outOfFuel
  | _ + 1, .literal value => ret value.value
  | fuel + 1, .grouping inner => evaluate fuel inner
  | fuel + 1, .unary operator right => do
    ofExcept operator.line (applyUnary operator (← evaluate fuel right))
  | fuel + 1, .binary left operator right => do
    let left ← evaluate fuel left
    let right ← evaluate fuel right
    ofExcept operator.line (applyBinary operator left right)
  | fuel + 1, .logical left operator right => do
    let left ← evaluate fuel left
    if decidedByLeft operator left then return left else evaluate fuel right
  | fuel + 1, .conditional condition thenBranch elseBranch => do
    let condition ← evaluate fuel condition
    if condition.truthy then
      match thenBranch with
      | some thenBranch => evaluate fuel thenBranch
      | none => return condition
    else evaluate fuel elseBranch
  | _ + 1, .variable target => lookUp target
  | fuel + 1, .assign target value => do
    let value ← evaluate fuel value
    assign target value
    return value
  | fuel + 1, .call callee paren arguments => do
    let callee ← evaluate fuel callee
    let arguments ← evaluateAll fuel arguments
    call fuel paren.line callee arguments
  | fuel + 1, .get object name => do
    property (← evaluate fuel object) name
  | fuel + 1, .set object name value => do
    match ← evaluate fuel object with
    | .object id =>
      let value ← evaluate fuel value
      update fun s => ((), s.setField id name.lexeme value)
      return value
    | _ => fail name.line .fieldOfNonObject
  | _ + 1, .this keyword => lookUp keyword
  | _ + 1, .super keyword method => superMethod keyword method

def evaluateAll : Nat → List Expr → Eval (List Value)
  | 0, _ => outOfFuel
  | _ + 1, [] => ret []
  | fuel + 1, e :: rest => do
    let value ← evaluate fuel e
    return value :: (← evaluateAll fuel rest)

/-- Calls a value; failures of the call itself are attributed to the line. -/
def call : Nat → Nat → Value → List Value → Eval Value
  | 0, _, _, _ => outOfFuel
  | _ + 1, line, .native function, arguments => do
    requireArity line function.arity arguments.length
    deeper line (runNative line function arguments)
  | fuel + 1, line, .function id, arguments => do
    requireArity line ((← view Machine.store).functionArity id) arguments.length
    deeper line (invoke fuel line id arguments)
  | fuel + 1, line, .classValue id, arguments => do
    requireArity line ((← view Machine.store).classArity id) arguments.length
    deeper line (construct fuel line id arguments)
  | _ + 1, line, _, _ => fail line .notCallable

def invoke : Nat → Nat → FunctionId → List Value → Eval Value
  | 0, _, _, _ => outOfFuel
  | fuel + 1, line, id, arguments => do
    match (← view Machine.store).function? id with
    | none => fail line .notCallable
    | some f =>
      match f.code with
      | .array method => runArrayMethod line f method arguments
      | .declared d =>
        let frame ← parameterFrame f.closure d.parameters arguments
        let ending ← within frame (executeAll fuel d.body)
        answerOf line f ending

def construct : Nat → Nat → ClassId → List Value → Eval Value
  | 0, _, _, _ => outOfFuel
  | fuel + 1, line, id, arguments => do
    let object ← update fun s => s.addObject ⟨id, ∅, #[]⟩
    match (← view Machine.store).method? id initializerName with
    | none => return .object object
    | some method =>
      let bound ← bindMethod method object
      let _ ← invoke fuel line bound arguments
      return .object object

/-- The text `print` shows. An object whose class has a method `toString` without parameters is
shown as what that answers, at one call deeper. -/
def render : Nat → Nat → Value → Eval String
  | 0, _, _ => outOfFuel
  | fuel + 1, line, .object object => do
    let store ← view Machine.store
    match store.methodOf? object toStringName with
    | none => return store.text (.object object)
    | some method =>
      if store.functionArity method = 0 then
        let bound ← bindMethod method object
        deeper line do
          let answer ← invoke fuel line bound []
          render fuel line answer
      else return store.text (.object object)
  | _ + 1, _, value => do
    return (← view Machine.store).text value

def execute : Nat → Stmt → Eval Ending
  | 0, _ => outOfFuel
  | fuel + 1, .expression value => do
    let _ ← evaluate fuel value
    return .normal
  | fuel + 1, .print value => do
    let answer ← evaluate fuel value
    emit (← render fuel value.line answer)
    return .normal
  | fuel + 1, .declareVar name initializer => do
    let value ←
      match initializer with
      | some value => evaluate fuel value
      | none => pure .nil
    define name.lexeme value
    return .normal
  | fuel + 1, .block body => do
    within (← innerFrame) (executeAll fuel body)
  | fuel + 1, .branch condition thenBranch elseBranch => do
    if (← evaluate fuel condition).truthy then execute fuel thenBranch
    else
      match elseBranch with
      | some elseBranch => execute fuel elseBranch
      | none => return .normal
  | fuel + 1, .loop (some initializer) condition increment body => do
    within (← innerFrame) do
      let _ ← execute fuel initializer
      iterate fuel condition increment body
  | fuel + 1, .loop none condition increment body => iterate fuel condition increment body
  | _ + 1, .declareFunction declaration => do
    let cursor ← view Machine.cursor
    let id ← update fun s => s.addFunction ⟨.declared declaration, cursor, false⟩
    define declaration.name.lexeme (.function id)
    return .normal
  | fuel + 1, .returnWith _ value => do
    match value with
    | some value => return .returned (← evaluate fuel value)
    | none => return .returned .nil
  | _ + 1, .breakLoop _ => ret .broke
  | _ + 1, .continueLoop _ => ret .continued
  | _ + 1, .declareClass name superclass methods => do
    declareClass name superclass methods
    return .normal

def executeAll : Nat → List Stmt → Eval Ending
  | 0, _ => outOfFuel
  | _ + 1, [] => ret .normal
  | fuel + 1, s :: rest => do
    match ← execute fuel s with
    | .normal => executeAll fuel rest
    | ending => return ending

/-- Repeats a body while a condition holds. The increment runs after every pass that is not left by
`break` or `return`; how it ends does not matter. -/
def iterate : Nat → Expr → Option Stmt → Stmt → Eval Ending
  | 0, _, _, _ => outOfFuel
  | fuel + 1, condition, increment, body => do
    if (← evaluate fuel condition).truthy then
      match ← execute fuel body with
      | .broke => return .normal
      | .returned value => return .returned value
      | .normal | .continued =>
        match increment with
        | some increment =>
          let _ ← execute fuel increment
          iterate fuel condition (some increment) body
        | none => iterate fuel condition none body
    else return .normal
end

end LoxLang
