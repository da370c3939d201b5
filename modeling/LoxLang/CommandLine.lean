import LoxLang.CommandLine.Arguments
import LoxLang.Files
import LoxLang.Session
import LoxLang.Syntax.PrefixForm
import LoxLang.Text.Quoted
import LoxLang.Token.Listing

set_option autoImplicit false

namespace LoxLang

namespace CommandLine

structure Transcript where
  output : String
  errors : String
  status : Nat
  deriving DecidableEq, Repr

def versionText : String := "rox 0.1.0"

def lines (texts : List String) : String := String.join (texts.map (· ++ "\n"))

def failure (attempt cause : String) : Transcript :=
  ⟨"", "Error: " ++ attempt ++ "\n\nCaused by:\n    " ++ cause ++ "\n", 1⟩

def ended (output : String) (errors : List Diagnostic) : Transcript :=
  ⟨output, lines (errors.map Diagnostic.text), Diagnostic.exitStatus errors⟩

/-- Answers with the text of a file and the input that is left, or fails as a file that cannot be
read or is no text. -/
def withSource (file : String) (opened : Opened) (input : List UInt8)
    (use : String → List UInt8 → Option Transcript) : Option Transcript :=
  match opened with
  | .refused cause => some (failure ("Failed to open file " ++ quoted file) cause.message)
  | .directory =>
    some (failure ("Failed to map file " ++ quoted file) SystemError.noDevice.message)
  | .standardInput =>
    match Utf8.decode input with
    | .error _ =>
      some (failure ("Failed to read file " ++ quoted file) IoError.malformedText.message)
    | .ok source => use source []
  | .content bytes =>
    match Utf8.decode bytes with
    | .error cause =>
      some (failure ("File " ++ quoted file ++ " is not valid UTF-8") cause.message)
    | .ok source => use source input

def tokenize (json : Bool) (source : String) : Transcript :=
  let items := Token.scan source
  let tokens := successes items
  ended
    (if json then lines [(Json.array (tokens.map Token.toJson)).pretty 0]
     else lines (tokens.map Token.listing))
    (failures items)

def parse (expression : Bool) (source : String) : Transcript :=
  match Token.ofSource source with
  | .error errors => ended "" errors
  | .ok tokens =>
    if expression then
      match (Expr.ofTokens 0 tokens).1 with
      | .error errors => ended "" errors
      | .ok value => ended (lines [value.prefixForm]) []
    else
      match (Program.ofTokens 0 tokens).1 with
      | .error errors => ended "" errors
      | .ok program => ended (lines (program.map Stmt.prefixForm)) []

def run (fuel : Nat) (session : Session) (source : String) : Option Transcript :=
  (session.run fuel source).map fun (errors, session) => ended session.takeOutput.1 errors

def prompt : String := "> "

def interact (fuel : Nat) : Nat → Session → String → String → Option Transcript
  | 0, _, output, errors => some ⟨output, errors, 0⟩
  | count + 1, session, output, errors =>
    let output := output ++ prompt
    match session.takeLine with
    | (.ok none, _) => some ⟨output, errors, 0⟩
    | (.error cause, _) =>
      let failed := failure "Failed to read from stdin" cause.message
      some ⟨output, errors ++ failed.errors, failed.status⟩
    | (.ok (some line), session) =>
      match session.respond fuel line with
      | none => none
      | some (reported, session) =>
        let (printed, session) := session.takeOutput
        interact fuel count session (output ++ printed)
          (errors ++ lines (reported.map Diagnostic.text))

/-- Runs a command with what opening a file gives, and the standard input. Every line of the input
has a byte, so one round more than it has bytes comes to its end. -/
def perform (fuel : Nat) (clock : Clock) (opened : String → Opened) (input : List UInt8) :
    Command → Option Transcript
  | .version => some ⟨lines [versionText], "", 0⟩
  | .tokenize file json =>
    withSource file (opened file) input fun source _ => some (tokenize json source)
  | .parse file expression =>
    withSource file (opened file) input fun source _ => some (parse expression source)
  | .run file =>
    withSource file (opened file) input fun source input =>
      run fuel (.start .unlimited input clock) source
  | .interact =>
    interact fuel (input.length + 1) (.start .unlimited input clock) "" ""

end CommandLine

end LoxLang
