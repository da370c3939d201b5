import LoxLang.CommandLine
import Std.Time.DateTime.Timestamp

set_option autoImplicit false

namespace LoxLang

namespace CommandLine

partial def readBytes (stream : IO.FS.Stream) (read : ByteArray) : IO ByteArray := do
  let chunk ← stream.read 65536
  if chunk.isEmpty then return read else readBytes stream (read ++ chunk)

/-- The number of a failure, which may come negated in 32 bits. -/
def failureNumber (number : UInt32) : Nat := min number.toNat (2 ^ 32 - number.toNat)

def refusal : IO.Error → SystemError
  | .alreadyExists _ number text | .invalidArgument _ number text
  | .permissionDenied _ number text | .resourceExhausted _ number text
  | .inappropriateType _ number text | .noSuchThing _ number text
  | .noFileOrDirectory _ number text | .interrupted _ number text
  | .otherError number text | .resourceBusy number text | .resourceVanished number text
  | .unsupportedOperation number text | .hardwareFault number text
  | .unsatisfiedConstraints number text | .illegalOperation number text
  | .protocolError number text | .timeExpired number text =>
    .ofNumber (failureNumber number) text
  | .unexpectedEof => ⟨"unexpected end of file", 0⟩
  | .userError text => ⟨text, 0⟩

def openFile (name : String) : IO Opened := do
  try
    return .content (← IO.FS.readBinFile name).toList
  catch failure =>
    let cause := refusal failure
    return if cause = .isDirectory then .directory else .refused cause

/-- More steps than any machine takes. -/
def boundlessFuel : Nat := 2 ^ 62

def runInvocation (invocation : Invocation) : IO UInt32 := do
  if invocation.log then IO.FS.writeFile "app.log" ""
  let opened ←
    match invocation.command.file? with
    | some name => openFile name
    | none => pure (.refused .notFound)
  let input ←
    if invocation.command.readsInput then readBytes (← IO.getStdin) ByteArray.empty
    else pure ByteArray.empty
  -- The clock of a run is set once and ticks on from there.
  let now := (← Std.Time.Timestamp.now).toNanosecondsSinceUnixEpoch.val.toNat / 1000
  match perform boundlessFuel now (fun _ => opened) input.toList invocation.command with
  | none => return 1
  | some transcript =>
    IO.print transcript.output
    IO.eprint transcript.errors
    return UInt32.ofNat transcript.status

end CommandLine

end LoxLang

def main (arguments : List String) : IO UInt32 := do
  match LoxLang.CommandLine.readArguments arguments with
  | some invocation => LoxLang.CommandLine.runInvocation invocation
  | none =>
    IO.eprintln "error: unexpected arguments"
    return 2
