import LoxLang.Dictionary
import LoxLang.Number.Text
import LoxLang.Syntax.Basic
import LoxLang.Value

set_option autoImplicit false

namespace LoxLang

structure FrameId where
  index : Nat
  deriving DecidableEq, Repr

/-- An environment: the bindings of one activation of a scope, inside another environment. -/
structure Frame where
  bindings : Dictionary Value
  enclosing : Option FrameId

inductive ArrayMethod where
  | init
  | size
  | get
  | set
  | append
  | pop
  deriving DecidableEq, Repr

def ArrayMethod.name : ArrayMethod → String
  | .init => "init"
  | .size => "size"
  | .get => "get"
  | .set => "set"
  | .append => "append"
  | .pop => "pop"

def ArrayMethod.arity : ArrayMethod → Nat
  | .init | .size | .pop => 0
  | .get | .append => 1
  | .set => 2

inductive Code where
  | declared (declaration : Declaration)
  | array (method : ArrayMethod)

/-- A closure: code and the environment it was made in. -/
structure Function where
  code : Code
  closure : FrameId
  initializes : Bool

namespace Function

def name (f : Function) : String :=
  match f.code with
  | .declared declaration => declaration.name.lexeme
  | .array method => method.name

def arity (f : Function) : Nat :=
  match f.code with
  | .declared declaration => declaration.parameters.length
  | .array method => method.arity

end Function

structure Class where
  name : String
  superclass : Option ClassId
  methods : Dictionary FunctionId

/-- An instance of a class. The elements belong to the instances of `array`. -/
structure Object where
  classId : ClassId
  fields : Dictionary Value
  elements : Array Value

structure Store where
  frames : Array Frame
  functions : Array Function
  classes : Array Class
  objects : Array Object

namespace Store

def empty : Store := ⟨#[], #[], #[], #[]⟩

def frame? (s : Store) (id : FrameId) : Option Frame := s.frames[id.index]?
def function? (s : Store) (id : FunctionId) : Option Function := s.functions[id.index]?
def class? (s : Store) (id : ClassId) : Option Class := s.classes[id.index]?
def object? (s : Store) (id : ObjectId) : Option Object := s.objects[id.index]?

def addFunction (s : Store) (f : Function) : FunctionId × Store :=
  (⟨s.functions.size⟩, { s with functions := s.functions.push f })

def addClass (s : Store) (c : Class) : ClassId × Store :=
  (⟨s.classes.size⟩, { s with classes := s.classes.push c })

def addObject (s : Store) (o : Object) : ObjectId × Store :=
  (⟨s.objects.size⟩, { s with objects := s.objects.push o })

def modifyObject (s : Store) (id : ObjectId) (f : Object → Object) : Store :=
  { s with objects := s.objects.modify id.index f }

def functionName (s : Store) (id : FunctionId) : String :=
  match s.function? id with
  | some f => f.name
  | none => ""

def className (s : Store) (id : ClassId) : String :=
  match s.class? id with
  | some c => c.name
  | none => ""

def text (s : Store) : Value → String
  | .nil => "nil"
  | .boolean true => "true"
  | .boolean false => "false"
  | .number value => String.ofList value.printed
  | .string text => text
  | .native function => "<native fn " ++ function.name ++ ">"
  | .function id => "<fn " ++ s.functionName id ++ ">"
  | .classValue id => s.className id
  | .object id =>
    match s.object? id with
    | some o => s.className o.classId ++ " instance"
    | none => " instance"

end Store

end LoxLang
