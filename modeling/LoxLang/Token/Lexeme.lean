import LoxLang.Diagnostic
import LoxLang.Number.Numeral

/-!
Cutting source text into lexemes, and the tokens they stand for.

Each lexeme is the longest one that the text starts with, and together they are the text: blanks,
comments and the characters no lexeme starts with included. Lines are counted afterwards, over the
finished cut.
-/

set_option autoImplicit false

namespace LoxLang

/-- What a lexeme is. -/
inductive Form where
  | blank
  | token (kind : Kind)
  | stray (c : Char)
  | unclosed
  deriving DecidableEq, Repr

structure Lexeme where
  form : Form
  text : List Char
  deriving DecidableEq, Repr

namespace Lexeme

def isSpace (c : Char) : Bool := c = ' ' || c = '\r' || c = '\t' || c = '\n'
def startsWord (c : Char) : Bool := c.isAlpha || c = '_'
def continuesWord (c : Char) : Bool := c.isAlphanum || c = '_'

def wordKind (word : List Char) : Kind :=
  match Keyword.ofSpelling? (String.ofList word) with
  | some keyword => .keyword keyword
  | none => .identifier

/-- Splits a number off a text: digits, and a point with digits after it. -/
def splitNumber (text : List Char) : Lexeme × List Char :=
  let whole := text.takeWhile Char.isDigit
  match text.dropWhile Char.isDigit with
  | '.' :: d :: rest =>
    if d.isDigit then
      let fraction := (d :: rest).takeWhile Char.isDigit
      (⟨.token (.number (.ofDigits false whole fraction 0)), whole ++ '.' :: fraction⟩,
        (d :: rest).dropWhile Char.isDigit)
    else (⟨.token (.number (.ofDigits false whole [] 0)), whole⟩, '.' :: d :: rest)
  | rest => (⟨.token (.number (.ofDigits false whole [] 0)), whole⟩, rest)

def splitString (text : List Char) : Lexeme × List Char :=
  let contents := text.takeWhile (· ≠ '"')
  match text.dropWhile (· ≠ '"') with
  | [] => (⟨.unclosed, '"' :: contents⟩, [])
  | quote :: rest =>
    (⟨.token (.string (String.ofList contents)), '"' :: contents ++ [quote]⟩, rest)

/-- Splits off a mark of two characters, else of one, else the stray character. -/
def splitMark (c : Char) (text : List Char) : Lexeme × List Char :=
  match Mark.ofChars? (c :: text.take 1) with
  | some mark => (⟨.token (.mark mark), c :: text.take 1⟩, text.drop 1)
  | none =>
    match Mark.ofChars? [c] with
    | some mark => (⟨.token (.mark mark), [c]⟩, text)
    | none => (⟨.stray c, [c]⟩, text)

def split (c : Char) (text : List Char) : Lexeme × List Char :=
  if isSpace c then (⟨.blank, [c]⟩, text)
  else if c = '/' && text.head? = some '/' then
    (⟨.blank, c :: text.takeWhile (· ≠ '\n')⟩, text.dropWhile (· ≠ '\n'))
  else if c = '"' then splitString text
  else if c.isDigit then splitNumber (c :: text)
  else if startsWord c then
    let word := c :: text.takeWhile continuesWord
    (⟨.token (wordKind word), word⟩, text.dropWhile continuesWord)
  else splitMark c text

def cut : Nat → List Char → List Lexeme
  | 0, _ => []
  | _, [] => []
  | count + 1, c :: text =>
    let (lexeme, rest) := split c text
    lexeme :: cut count rest

def newlines (text : List Char) : Nat := text.count '\n'

def item? (lexeme : Lexeme) (line : Nat) : Option (Except Diagnostic Token) :=
  match lexeme.form with
  | .blank => none
  | .token kind => some (.ok ⟨kind, String.ofList lexeme.text, line⟩)
  | .stray c => some (.error (.lexical line (.unexpectedCharacter c)))
  | .unclosed => some (.error (.lexical line .unterminatedString))

/-- The tokens and errors of the lexemes of a text that starts on the given line, with the end of
the input last. -/
def items (line : Nat) : List Lexeme → List (Except Diagnostic Token)
  | [] => [.ok ⟨.endOfInput, "", line⟩]
  | lexeme :: rest =>
    let line := line + newlines lexeme.text
    match lexeme.item? line with
    | some item => item :: items line rest
    | none => items line rest

/-- The lexemes of a text. Every lexeme has a character, so their number is bounded by the length. -/
def ofText (text : List Char) : List Lexeme := cut text.length text

end Lexeme

def successes {ε α : Type} : List (Except ε α) → List α :=
  List.filterMap fun
    | .ok a => some a
    | .error _ => none

def failures {ε α : Type} : List (Except ε α) → List ε :=
  List.filterMap fun
    | .ok _ => none
    | .error e => some e

namespace Token

def scan (source : String) : List (Except Diagnostic Token) :=
  Lexeme.items 1 (Lexeme.ofText source.toList)

def ofSource (source : String) : Except (List Diagnostic) (List Token) :=
  match failures (scan source) with
  | [] => .ok (successes (scan source))
  | errors => .error errors

end Token

end LoxLang
