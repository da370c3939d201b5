import LoxLang.Store.Object

set_option autoImplicit false

namespace LoxLang

namespace Store

/-- The environment of the global variables. It is the first one and has none around it. -/
def globals : FrameId := ⟨0⟩

def bindNatives (s : Store) : Store :=
  [Native.clock, .input, .parseNumber].foldl
    (fun s function => s.bind globals function.name (.native function)) s

def arrayMethods : List ArrayMethod := [.init, .size, .get, .set, .append, .pop]

def addArrayMethods (s : Store) (closure : FrameId) : Dictionary FunctionId × Store :=
  arrayMethods.foldl
    (fun (methods, s) method =>
      let (id, s) := s.addFunction ⟨.array method, closure, method = .init⟩
      (methods.insert method.name id, s))
    (∅, s)

def start : Store :=
  let (_, s) := empty.addFrame none
  let (closure, s) := s.bindNatives.addFrame (some globals)
  let (methods, s) := s.addArrayMethods closure
  let (array, s) := s.addClass ⟨"array", none, methods⟩
  s.bind globals "array" (.classValue array)

end Store

end LoxLang
