import LoxLang.Diagnostic
import LoxLang.Text.Blank
import LoxLang.Text.Utf8

set_option autoImplicit false

namespace LoxLang

/-- How many more lines a sink takes, and how the next one fails. -/
structure Limit where
  room : Nat
  refusal : IoError
  deriving DecidableEq, Repr, Inhabited

/-- Where printed lines go: those taken since the sink was last emptied, the last one first. -/
structure Sink where
  lines : List String
  limit : Option Limit
  deriving DecidableEq, Repr

namespace Sink

def unlimited : Sink := ⟨[], none⟩

def limited (room : Nat) (refusal : IoError := ⟨"sink full"⟩) : Sink := ⟨[], some ⟨room, refusal⟩⟩

def accept (sink : Sink) (line : String) : Except IoError Sink :=
  match sink.limit with
  | none => .ok { sink with lines := line :: sink.lines }
  | some ⟨0, refusal⟩ => .error refusal
  | some ⟨room + 1, refusal⟩ => .ok ⟨line :: sink.lines, some ⟨room, refusal⟩⟩

def text (sink : Sink) : String := String.join (sink.lines.reverse.map (· ++ "\n"))

def emptied (sink : Sink) : Sink := { sink with lines := [] }

end Sink

/-- What a stream of input gives from here on: bytes, and failures of reading in between. -/
abbrev Input := List (Except IoError UInt8)

instance : Coe (List UInt8) Input := ⟨List.map .ok⟩

/-- Takes the bytes up to the next line end, that one included, or up to the next failure. The bytes
before a failure are lost. -/
def takeBytes : Input → Except IoError (List UInt8) × Input
  | [] => (.ok [], [])
  | .error cause :: rest => (.error cause, rest)
  | .ok byte :: rest =>
    if byte = 10 then (.ok [byte], rest)
    else
      let (line, rest) := takeBytes rest
      (line.map (byte :: ·), rest)

def withoutLineEnd (line : String) : String :=
  String.ofList (dropTrailing (fun c => c = '\n' || c = '\r') line.toList)

/-- Reads one line: nothing at the end of the input. A line that is no text is used up as well. -/
def nextLine (input : Input) : Except IoError (Option String) × Input :=
  match takeBytes input with
  | (.error cause, rest) => (.error cause, rest)
  | (.ok [], rest) => (.ok none, rest)
  | (.ok line, rest) =>
    match Utf8.decode line with
    | .ok text => (.ok (some (withoutLineEnd text)), rest)
    | .error _ => (.error .malformedText, rest)

end LoxLang
