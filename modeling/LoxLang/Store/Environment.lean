import LoxLang.Diagnostic
import LoxLang.Store.Basic

/-!
Looking names up in environments.

There are two ways. `lookup` and `assign` search the chain of enclosing environments for the nearest
binding; `lookupAt` and `assignAt` go a given number of links up and look there only. Neither kind of
assignment makes a new binding.
-/

set_option autoImplicit false

namespace LoxLang

namespace Store

def addFrame (s : Store) (enclosing : Option FrameId) : FrameId × Store :=
  (⟨s.frames.size⟩, { s with frames := s.frames.push ⟨∅, enclosing⟩ })

def bind (s : Store) (frame : FrameId) (name : String) (value : Value) : Store :=
  { s with
    frames := s.frames.modify frame.index fun f =>
      { f with bindings := f.bindings.insert name value } }

def local? (s : Store) (frame : FrameId) (name : String) : Option Value :=
  match s.frame? frame with
  | some f => f.bindings.get? name
  | none => none

def enclosing? (s : Store) (frame : FrameId) : Option FrameId :=
  match s.frame? frame with
  | some f => f.enclosing
  | none => none

/-- The environment the given number of links up. -/
def ancestor? (s : Store) : Nat → FrameId → Option FrameId
  | 0, frame => some frame
  | distance + 1, frame =>
    match s.enclosing? frame with
    | some outer => s.ancestor? distance outer
    | none => none

def binder? (s : Store) (name : String) : Nat → FrameId → Option FrameId
  | 0, _ => none
  | bound + 1, frame =>
    if (s.local? frame name).isSome then some frame
    else
      match s.enclosing? frame with
      | some outer => s.binder? name bound outer
      | none => none

/-- The nearest environment of the whole chain that binds a name. A chain visits no environment
twice, so it is no longer than their number. -/
def nearest? (s : Store) (frame : FrameId) (name : String) : Option FrameId :=
  s.binder? name s.frames.size frame

def holder (s : Store) (frame : FrameId) (name : String) : Except RuntimeError FrameId :=
  match s.nearest? frame name with
  | some holder => .ok holder
  | none => .error (.undefinedVariable name)

/-- The environment the given number of links up, if it binds the name. -/
def holderAt (s : Store) (frame : FrameId) (distance : Nat) (name : String) :
    Except RuntimeError FrameId :=
  match s.ancestor? distance frame with
  | none => .error (.noScope distance name)
  | some target =>
    if (s.local? target name).isSome then .ok target else .error (.undefinedVariable name)

def read (s : Store) (name : String) : Except RuntimeError FrameId → Except RuntimeError Value
  | .error cause => .error cause
  | .ok holder =>
    match s.local? holder name with
    | some value => .ok value
    | none => .error (.undefinedVariable name)

def lookup (s : Store) (frame : FrameId) (name : String) : Except RuntimeError Value :=
  s.read name (s.holder frame name)

def lookupAt (s : Store) (frame : FrameId) (distance : Nat) (name : String) :
    Except RuntimeError Value :=
  s.read name (s.holderAt frame distance name)

def assign (s : Store) (frame : FrameId) (name : String) (value : Value) :
    Except RuntimeError Store :=
  (s.holder frame name).map fun holder => s.bind holder name value

def assignAt (s : Store) (frame : FrameId) (distance : Nat) (name : String) (value : Value) :
    Except RuntimeError Store :=
  (s.holderAt frame distance name).map fun holder => s.bind holder name value

end Store

end LoxLang
