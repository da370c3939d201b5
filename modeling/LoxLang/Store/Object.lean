import LoxLang.Store.Environment

set_option autoImplicit false

namespace LoxLang

namespace Store

/-- The method a class has or inherits, searching a number of classes up. -/
def methodAmong? (s : Store) (name : String) : Nat → ClassId → Option FunctionId
  | 0, _ => none
  | bound + 1, id =>
    match s.class? id with
    | none => none
    | some c =>
      match c.methods.get? name with
      | some method => some method
      | none =>
        match c.superclass with
        | some superclass => s.methodAmong? name bound superclass
        | none => none

/-- The method a class has or inherits. A class is younger than its superclass, so the search is
over after as many classes as there are. -/
def method? (s : Store) (id : ClassId) (name : String) : Option FunctionId :=
  s.methodAmong? name s.classes.size id

def functionArity (s : Store) (id : FunctionId) : Nat :=
  match s.function? id with
  | some f => f.arity
  | none => 0

def classArity (s : Store) (id : ClassId) : Nat :=
  match s.method? id initializerName with
  | some method => s.functionArity method
  | none => 0

/-- A new function with the code of a method, in whose closure `this` is the object. -/
def bindMethod (s : Store) (method : FunctionId) (object : ObjectId) : FunctionId × Store :=
  match s.function? method with
  | none => (method, s)
  | some f =>
    let (frame, s) := s.addFrame (some f.closure)
    (s.bind frame "this" (.object object)).addFunction { f with closure := frame }

def receiver? (s : Store) (frame : FrameId) : Option ObjectId :=
  match s.local? frame "this" with
  | some (.object id) => some id
  | _ => none

def classOf? (s : Store) (object : ObjectId) : Option ClassId :=
  (s.object? object).map Object.classId

def methodOf? (s : Store) (object : ObjectId) (name : String) : Option FunctionId :=
  match s.classOf? object with
  | some classId => s.method? classId name
  | none => none

inductive Property where
  | field (value : Value)
  | method (id : FunctionId)
  deriving DecidableEq, Repr

/-- A property: a field, or else a method. -/
def property (s : Store) (object : ObjectId) (name : String) : Except RuntimeError Property :=
  match (s.object? object).bind fun o => o.fields.get? name with
  | some value => .ok (.field value)
  | none =>
    match s.methodOf? object name with
    | some method => .ok (.method method)
    | none => .error (.undefinedProperty name)

def setField (s : Store) (object : ObjectId) (name : String) (value : Value) : Store :=
  s.modifyObject object fun o => { o with fields := o.fields.insert name value }

def elements (s : Store) (object : ObjectId) : Array Value :=
  match s.object? object with
  | some o => o.elements
  | none => #[]

def modifyElements (s : Store) (object : ObjectId) (f : Array Value → Array Value) : Store :=
  s.modifyObject object fun o => { o with elements := f o.elements }

end Store

end LoxLang
