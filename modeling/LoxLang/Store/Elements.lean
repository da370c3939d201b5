import LoxLang.Diagnostic
import LoxLang.Store.Basic

set_option autoImplicit false

namespace LoxLang

/-- The position an index stands for: a finite number whose whole part lies in the array. What lies
between -1 and 0 counts as 0. -/
def Value.position (index : Value) (length : Nat) : Except RuntimeError Nat :=
  match index with
  | .number n =>
    if n.isFinite && (!n.isNegative || decide (n.whole = 0)) && decide (n.whole < length) then
      .ok n.whole
    else .error (.indexOutOfRange n)
  | _ => .error .indexNotNumber

namespace ArrayMethod

def answer (method : ArrayMethod) (elements : Array Value) (arguments : List Value) :
    Except RuntimeError Value :=
  match method, arguments with
  | .init, [] => .ok .nil
  | .size, [] => .ok (.number (.ofNat elements.size))
  | .get, [index] =>
    match index.position elements.size with
    | .ok i => .ok (elements.getD i .nil)
    | .error cause => .error cause
  | .set, [index, _] =>
    match index.position elements.size with
    | .ok _ => .ok .nil
    | .error cause => .error cause
  | .append, [_] => .ok .nil
  | .pop, [] =>
    match elements.back? with
    | some value => .ok value
    | none => .error .popFromEmpty
  | _, _ => .error (.wrongArity method.arity arguments.length)

def change (method : ArrayMethod) (arguments : List Value) (elements : Array Value) :
    Array Value :=
  match method, arguments with
  | .init, [] => #[]
  | .set, [index, value] =>
    match index.position elements.size with
    | .ok i => elements.setIfInBounds i value
    | .error _ => elements
  | .append, [value] => elements.push value
  | .pop, [] => elements.pop
  | _, _ => elements

end ArrayMethod

end LoxLang
