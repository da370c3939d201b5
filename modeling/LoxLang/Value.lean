import LoxLang.Number.Basic

set_option autoImplicit false

namespace LoxLang

structure FunctionId where
  index : Nat
  deriving DecidableEq, Repr

structure ClassId where
  index : Nat
  deriving DecidableEq, Repr

structure ObjectId where
  index : Nat
  deriving DecidableEq, Repr

inductive Native where
  | clock
  | input
  | parseNumber
  deriving DecidableEq, Repr

inductive Value where
  | nil
  | boolean (value : Bool)
  | number (value : Number)
  | string (text : String)
  | native (function : Native)
  | function (id : FunctionId)
  | classValue (id : ClassId)
  | object (id : ObjectId)
  deriving DecidableEq, Repr

inductive TypeName where
  | nil | boolean | number | string | function | classType | objectType
  deriving DecidableEq, Repr

def TypeName.text : TypeName → String
  | .nil => "nil"
  | .boolean => "boolean"
  | .number => "number"
  | .string => "string"
  | .function => "function"
  | .classType => "class"
  | .objectType => "instance"

def Native.name : Native → String
  | .clock => "clock"
  | .input => "input"
  | .parseNumber => "parseNumber"

def Native.arity : Native → Nat
  | .clock | .input => 0
  | .parseNumber => 1

namespace Value

def typeOf : Value → TypeName
  | .nil => .nil
  | .boolean _ => .boolean
  | .number _ => .number
  | .string _ => .string
  | .native _ | .function _ => .function
  | .classValue _ => .classType
  | .object _ => .objectType

def truthy : Value → Bool
  | .nil => false
  | .boolean b => b
  | _ => true

/-- Equality of the language: numbers compare as numbers, everything else by content or identity. -/
def same : Value → Value → Bool
  | .number a, .number b => a.same b
  | a, b => decide (a = b)

end Value

end LoxLang
