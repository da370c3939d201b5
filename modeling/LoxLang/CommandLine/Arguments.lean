set_option autoImplicit false

namespace LoxLang

namespace CommandLine

inductive Command where
  | tokenize (file : String) (json : Bool)
  | parse (file : String) (expression : Bool)
  | run (file : String)
  | interact
  | version
  deriving DecidableEq, Repr

structure Invocation where
  command : Command
  log : Bool
  deriving DecidableEq, Repr

def Command.file? : Command → Option String
  | .tokenize file _ | .parse file _ | .run file => some file
  | .interact | .version => none

def Command.readsInput : Command → Bool
  | .run _ | .interact => true
  | .tokenize _ _ | .parse _ _ | .version => false

structure Operands where
  log : Bool
  option : Bool
  files : List String
  deriving DecidableEq, Repr

/-- Whether an argument asks for an option. A lone dash does not. -/
def isOption (argument : String) : Bool :=
  match argument.toList with
  | '-' :: _ :: _ => true
  | _ => false

def logOption : String := "--log"

/-- Reads the arguments after the name of a command whose own option is given, if it has one. -/
def readOperands (option : Option String) : List String → Operands → Option Operands
  | [], found => some found
  | argument :: rest, found =>
    if argument = "--" then some { found with files := found.files ++ rest }
    else if argument = logOption then
      if found.log then none else readOperands option rest { found with log := true }
    else if option = some argument then
      if found.option then none else readOperands option rest { found with option := true }
    else if isOption argument then none
    else readOperands option rest { found with files := found.files ++ [argument] }

def command? (name : String) (found : Operands) : Option Command :=
  match name, found.files with
  | "repl", [] => some .interact
  | "tokenize", [file] => if file = "" then none else some (.tokenize file found.option)
  | "parse", [file] => if file = "" then none else some (.parse file found.option)
  | "run", [file] => if file = "" then none else some (.run file)
  | _, _ => none

def ownOption : String → Option String
  | "tokenize" => some "--json"
  | "parse" => some "--expression"
  | _ => none

def readCommand (name : String) (log : Bool) (rest : List String) : Option Invocation :=
  match readOperands (ownOption name) rest ⟨false, false, []⟩ with
  | some found => (command? name found).map fun command => ⟨command, log || found.log⟩
  | none => none

/-- Whether an argument asks for the version: the letter may have others after it. -/
def asksVersion (argument : String) : Bool :=
  argument = "--version" || ['-', 'V'].isPrefixOf argument.toList

def readFrom (log : Bool) : List String → Option Invocation
  | [] | ["--"] => some ⟨.interact, log⟩
  | argument :: rest =>
    if argument = logOption then if log then none else readFrom true rest
    else if asksVersion argument then some ⟨.version, false⟩
    else readCommand argument log rest

def readArguments (arguments : List String) : Option Invocation := readFrom false arguments

end CommandLine

end LoxLang
