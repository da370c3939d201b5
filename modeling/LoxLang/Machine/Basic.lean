import LoxLang.Machine.Lines
import LoxLang.Store.Prelude
import Std.Data.TreeMap.Basic

/-!
The state of a running program, and computations on it.

A computation ends with an answer or with a fault, and both leave a state behind; or it runs out of
the steps it was given, which says nothing about the program.
-/

set_option autoImplicit false

namespace LoxLang

abbrev HopTable := Std.TreeMap ReferenceId Nat

/-- The readings of the clock from here on, in microseconds since the start of 1970. Nothing is known of them. -/
structure Clock where
  reading : Nat → Int64

namespace Clock

def later (clock : Clock) : Clock := ⟨fun n => clock.reading (n + 1)⟩

def ticking (first : Nat) : Clock := ⟨fun n => .ofNat (first + n)⟩

instance : Coe Nat Clock := ⟨ticking⟩

/-- A reading in seconds. It is rounded to a number first, and so is the quotient. -/
def seconds (micros : Int64) : Number := (Number.ofInt micros.toInt).div (.ofNat 1000000)

end Clock

structure Machine where
  store : Store
  cursor : FrameId
  hops : HopTable
  sink : Sink
  input : Input
  calls : Nat
  clock : Clock

/-- Why a run stops early. -/
inductive Fault where
  | runtime (line : Nat) (cause : RuntimeError)
  | io (cause : IoError)
  deriving DecidableEq, Repr

def Fault.diagnostic : Fault → Diagnostic
  | .runtime line cause => .runtime line cause
  | .io cause => .io cause

inductive Outcome (α : Type) where
  | answer (value : α) (machine : Machine)
  | fault (fault : Fault) (machine : Machine)
  | exhausted

/-- A computation on the machine. -/
def Eval (α : Type) : Type := Machine → Outcome α

namespace Eval

@[always_inline, inline]
def ret {α : Type} (value : α) : Eval α := fun m => .answer value m

@[always_inline, inline]
def andThen {α β : Type} (act : Eval α) (next : α → Eval β) : Eval β := fun m =>
  match act m with
  | .answer value m => next value m
  | .fault fault m => .fault fault m
  | .exhausted => .exhausted

instance : Monad Eval where
  pure := ret
  bind := andThen

def outOfFuel {α : Type} : Eval α := fun _ => .exhausted

def fail {α : Type} (line : Nat) (cause : RuntimeError) : Eval α := fun m =>
  .fault (.runtime line cause) m

def ofExcept {α : Type} (line : Nat) : Except RuntimeError α → Eval α
  | .ok value => ret value
  | .error cause => fail line cause

@[inline]
def view {α : Type} (f : Machine → α) : Eval α := fun m => .answer (f m) m

@[inline]
def update {α : Type} (f : Store → α × Store) : Eval α := fun m =>
  let (value, store) := f m.store
  .answer value { m with store }

/-- Runs with another current environment and comes back to this one on every way out. -/
@[inline]
def within {α : Type} (frame : FrameId) (act : Eval α) : Eval α := fun m =>
  let back := m.cursor
  match act { m with cursor := frame } with
  | .answer value after => .answer value { after with cursor := back }
  | .fault fault after => .fault fault { after with cursor := back }
  | .exhausted => .exhausted

end Eval

def callLimit : Nat := 256

namespace Eval

/-- Runs one call deeper, unless the calls in progress are as many as may be. -/
@[inline]
def deeper {α : Type} (line : Nat) (act : Eval α) : Eval α := fun m =>
  if callLimit ≤ m.calls then .fault (.runtime line .stackOverflow) m
  else
    match act { m with calls := m.calls + 1 } with
    | .answer value after => .answer value { after with calls := after.calls - 1 }
    | .fault fault after => .fault fault { after with calls := after.calls - 1 }
    | .exhausted => .exhausted

def emit (line : String) : Eval Unit := fun m =>
  match m.sink.accept line with
  | .ok sink => .answer () { m with sink }
  | .error cause => .fault (.io cause) m

/-- Takes a line of input; the answer tells end of input and unreadable lines apart. -/
def takeLine : Eval (Except IoError (Option String)) := fun m =>
  let (line, input) := nextLine m.input
  .answer line { m with input }

def readClock : Eval Int64 := fun m => .answer (m.clock.reading 0) { m with clock := m.clock.later }

end Eval

namespace Machine

/-- The machine before the first program: the built-in globals and nothing else. -/
def start (sink : Sink) (input : Input) (clock : Clock) : Machine :=
  { store := .start
    cursor := Store.globals
    hops := ∅
    sink
    input
    calls := 0
    clock }

def recordHops (m : Machine) (hops : List (ReferenceId × Nat)) : Machine :=
  { m with hops := hops.foldl (fun table (id, distance) => table.insert id distance) m.hops }

end Machine

end LoxLang
