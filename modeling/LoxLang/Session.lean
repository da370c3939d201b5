import LoxLang.Evaluation
import LoxLang.Scope
import LoxLang.Syntax.Parsing
import LoxLang.Token.Lexeme

/-!
Sessions: programs run one after the other on one machine.

Source text passes through scanning, parsing and resolving; the first stage that reports anything
ends the run, and then only the supply of identities has changed. Otherwise the statements run until
the first fault. Running takes fuel and gives no report if it runs out.
-/

set_option autoImplicit false

namespace LoxLang

structure Session where
  machine : Machine
  nextId : ReferenceId

namespace Eval

/-- Executes the statements of a program in order. How a statement ended does not matter at the top
level. -/
def runStatements (fuel : Nat) : Program → Eval Unit
  | [] => ret ()
  | s :: rest => do
    let _ ← execute fuel s
    runStatements fuel rest

def echo (fuel : Nat) (value : Expr) : Eval Unit := do
  let answer ← evaluate fuel value
  emit (← render fuel value.line answer)

end Eval

namespace Machine

/-- The machine between two programs: in the global environment, with no call in progress. -/
def atRest (m : Machine) : Machine := { m with cursor := Store.globals, calls := 0 }

/-- Runs a computation as a whole program: the fault that stopped it, if any, and the machine at
rest after it. -/
def perform (m : Machine) (act : Eval Unit) : Option (List Diagnostic × Machine) :=
  match act m with
  | .answer _ after => some ([], after)
  | .fault fault after => some ([fault.diagnostic], after.atRest)
  | .exhausted => none

end Machine

namespace Session

def start (sink : Sink) (input : Input) (clock : Clock) : Session :=
  ⟨.start sink input clock, 0⟩

/-- Takes source text to statements whose hop counts are recorded in the machine. -/
def prepare (s : Session) (source : String) : Except (List Diagnostic) Program × Session :=
  match Token.ofSource source with
  | .error errors => (.error errors, s)
  | .ok tokens =>
    match Program.ofTokens s.nextId tokens with
    | (.error errors, nextId) => (.error errors, { s with nextId })
    | (.ok program, nextId) =>
      match Program.resolve program with
      | .error errors => (.error errors, { s with nextId })
      | .ok hops => (.ok program, ⟨s.machine.recordHops hops, nextId⟩)

def perform (s : Session) (act : Eval Unit) : Option (List Diagnostic × Session) :=
  (s.machine.perform act).map fun (errors, machine) => (errors, { s with machine })

def run (fuel : Nat) (s : Session) (source : String) : Option (List Diagnostic × Session) :=
  match s.prepare source with
  | (.error errors, s) => some (errors, s)
  | (.ok program, s) => s.perform (Eval.runStatements fuel program)

/-- What a line of an interactive session does: a lone expression is printed. -/
def responseTo (fuel : Nat) : Program → Eval Unit
  | [.expression value] => Eval.echo fuel value
  | program => Eval.runStatements fuel program

def respond (fuel : Nat) (s : Session) (line : String) : Option (List Diagnostic × Session) :=
  match s.prepare line with
  | (.error errors, s) => some (errors, s)
  | (.ok program, s) => s.perform (responseTo fuel program)

def takeLine (s : Session) : Except IoError (Option String) × Session :=
  let (line, input) := nextLine s.machine.input
  (line, { s with machine := { s.machine with input } })

def emit (s : Session) (line : String) : Except IoError Session :=
  match s.machine.sink.accept line with
  | .ok sink => .ok { s with machine := { s.machine with sink } }
  | .error cause => .error cause

def global? (s : Session) (name : String) : Option Value :=
  s.machine.store.local? Store.globals name

def defineGlobal (s : Session) (name : String) (value : Value) : Session :=
  { s with
    machine :=
      { s.machine with store := s.machine.store.bind Store.globals name value } }

def takeOutput (s : Session) : String × Session :=
  (s.machine.sink.text, { s with machine := { s.machine with sink := s.machine.sink.emptied } })

end Session

end LoxLang
