import LoxLang.Proofs.Text.Bytes
import LoxLang.Token.Lexeme
import Mathlib.Data.List.TakeWhile
import Mathlib.Data.Nat.PSub

/-!
Scanning byte by byte.

The scanner keeps positions in the bytes of the source text. A byte behind the end, a slice out of bounds or
inside a character, a position before the first one, and a loop with more passes than there are bytes have no
result, and then neither has the scan. It turns out to have one for every source text, and that is the list
of items that the lexemes stand for.
-/

set_option autoImplicit false

namespace LoxLang

open Lexeme

structure ByteScanner where
  source : String
  start : Nat
  /-- The next byte to read. -/
  position : Nat
  line : Nat
  /-- What the lexeme has been found to be. -/
  pending : Option Kind

namespace ByteScanner

def fresh (source : String) : ByteScanner := ⟨source, 0, 0, 1, none⟩

section

variable (s : ByteScanner)

def bytes : List UInt8 := bytesOf s.source

def atEnd : Bool := decide (s.bytes.length ≤ s.position)

def found (kind : Kind) : ByteScanner := { s with pending := some kind }

def pass (count lines : Nat) : ByteScanner :=
  { s with position := s.position + count, line := s.line + lines }

def advance : Option (UInt8 × ByteScanner) := do
  let byte ← s.bytes[s.position]?
  return (byte, s.pass 1 0)

def peek : Option UInt8 := if s.atEnd then some 0 else s.bytes[s.position]?

def peekNext : Option UInt8 :=
  if s.bytes.length ≤ s.position + 1 then some 0 else s.bytes[s.position + 1]?

def accept (expected : Char) : Option (Bool × ByteScanner) := do
  if s.atEnd then return (false, s)
  if asChar (← s.peek) = expected then return (true, (← s.advance).2) else return (false, s)

def withEqual (two one : Mark) : Option ByteScanner := do
  let (isTwo, s) ← s.accept '='
  return s.found (.mark (if isTwo then two else one))

def lexeme : Option String := slice? s.source s.start s.position

def skipComment : Option ByteScanner := do
  let rest ← byteSlice? s.bytes s.position s.bytes.length
  match rest.findIdx? fun byte => decide (asChar byte = '\n') with
  | some count => return s.pass count 0
  | none => return { s with position := s.bytes.length }

end

def skipWhile (test : Char → Bool) : Nat → ByteScanner → Option ByteScanner
  | 0, _ => none
  | passes + 1, s => do
    if test (asChar (← s.peek)) then skipWhile test passes (← s.advance).2 else return s

def skipString : Nat → ByteScanner → Option ByteScanner
  | 0, _ => none
  | passes + 1, s => do
    if s.atEnd || decide (asChar (← s.peek) = '"') then return s
    let (byte, s) ← s.advance
    skipString passes (if asChar byte = '\n' then s.pass 0 1 else s)

section

variable (s : ByteScanner)

def passes : Nat := s.bytes.length + 1

def scanString : Option (Option Diagnostic × ByteScanner) := do
  let s ← s.skipString s.passes
  if s.atEnd then return (some (.lexical s.line .unterminatedString), s)
  let (_, s) ← s.advance
  let contents ← slice? s.source (s.start + 1) (← s.position.psub 1)
  return (none, s.found (.string contents))

def skipFraction : Option ByteScanner := do
  if asChar (← s.peek) = '.' ∧ (asChar (← s.peekNext)).isDigit then
    skipWhile Char.isDigit s.passes (← s.advance).2
  else return s

def scanNumber : Option ByteScanner := do
  let s ← s.skipWhile Char.isDigit s.passes
  let s ← s.skipFraction
  let text ← s.lexeme
  return s.found (.number ((Number.numeral? text.toList).getD .zero))

def scanWord : Option ByteScanner := do
  let s ← s.skipWhile continuesWord s.passes
  let word ← byteSlice? s.bytes s.start s.position
  match Keyword.all.find? fun k => decide (bytesOf k.spelling = word) with
  | some keyword => return s.found (.keyword keyword)
  | none => return s.found .identifier

def refuse (byte : UInt8) : Option (Option Diagnostic × ByteScanner) := do
  if byte.toNat < 128 then return (some (.lexical s.line (.unexpectedCharacter (asChar byte))), s)
  let rest ← slice? s.source s.start s.bytes.length
  let c := rest.toList.headD '\uFFFD'
  return (some (.lexical s.line (.unexpectedCharacter c)), { s with position := s.start + c.utf8Size })

/-- Scans what starts at the next byte; the answer is the error in it, if there is one. -/
def scanLexeme : Option (Option Diagnostic × ByteScanner) := do
  let (byte, s) ← s.advance
  match asChar byte with
  | ' ' | '\r' | '\t' => return (none, s)
  | '\n' => return (none, s.pass 0 1)
  | '!' => return (none, ← s.withEqual .bangEqual .bang)
  | '=' => return (none, ← s.withEqual .equalEqual .equal)
  | '<' => return (none, ← s.withEqual .lessEqual .less)
  | '>' => return (none, ← s.withEqual .greaterEqual .greater)
  | '/' =>
    let (isComment, s) ← s.accept '/'
    if isComment then return (none, ← s.skipComment) else return (none, s.found (.mark .slash))
  | '"' => s.scanString
  | c =>
    if c.isDigit then return (none, ← s.scanNumber)
    if startsWord c then return (none, ← s.scanWord)
    match Mark.ofChars? [c] with
    | some mark => return (none, s.found (.mark mark))
    | none => s.refuse byte

end

def restart (s : ByteScanner) : ByteScanner := { s with start := s.position, pending := none }

/-- The next token or error, and nothing after the end of the input. -/
def next : Nat → ByteScanner → Option (Option (Except Diagnostic Token) × ByteScanner)
  | 0, _ => none
  | passes + 1, s => do
    if s.bytes.length < s.position then return (none, s)
    if s.position = s.bytes.length then
      return (some (.ok ⟨.endOfInput, "", s.line⟩), s.pass 1 0)
    match ← s.restart.scanLexeme with
    | (some error, s) => return (some (.error error), s)
    | (none, s) =>
      match s.pending with
      | some kind => return (some (.ok ⟨kind, ← s.lexeme, s.line⟩), { s with pending := none })
      | none => next passes s

def collect : Nat → ByteScanner → Option (List (Except Diagnostic Token))
  | 0, _ => none
  | count + 1, s => do
    match ← s.next s.passes with
    | (none, _) => return []
    | (some item, s) => return item :: (← collect count s)

end ByteScanner

/-- All tokens and lexical errors of a source text, scanned byte by byte. There are at most as many as bytes,
and the end of the input. -/
def Token.scanBytes (source : String) : Option (List (Except Diagnostic Token)) :=
  (ByteScanner.fresh source).collect ((bytesOf source).length + 2)

namespace ByteScanner

section

variable {s : ByteScanner}

def ahead (s : ByteScanner) : List UInt8 := s.bytes.drop s.position

@[simp]
theorem pass_pass (s : ByteScanner) (a b c d : Nat) : (s.pass a b).pass c d = s.pass (a + c) (b + d) := by
  simp only [pass, Nat.add_assoc]

theorem length_ahead (s : ByteScanner) : s.ahead.length = s.bytes.length - s.position := List.length_drop

theorem ahead_pass (s : ByteScanner) (count lines : Nat) : (s.pass count lines).ahead = s.ahead.drop count := by
  rw [ahead, ahead, List.drop_drop]
  rfl

theorem ahead_pass_one {byte : UInt8} {rest : List UInt8} (h : s.ahead = byte :: rest) (lines : Nat) :
    (s.pass 1 lines).ahead = rest := by
  rw [ahead_pass, h, List.drop_succ_cons, List.drop_zero]

theorem atEnd_eq (s : ByteScanner) : s.atEnd = decide (s.ahead = []) := by
  rw [atEnd, ahead, decide_eq_decide, List.drop_eq_nil_iff]

theorem getElem?_ahead (s : ByteScanner) (n : Nat) : s.bytes[s.position + n]? = s.ahead[n]? := by
  rw [ahead, List.getElem?_drop]

theorem advance_eq {byte : UInt8} {rest : List UInt8} (h : s.ahead = byte :: rest) :
    s.advance = some (byte, s.pass 1 0) := by
  have hbyte := getElem?_ahead s 0
  rw [Nat.add_zero, h, List.getElem?_cons_zero] at hbyte
  rw [advance, hbyte]
  rfl

theorem peek_eq (s : ByteScanner) : s.peek = some (s.ahead.headD 0) := by
  rw [peek, atEnd_eq]
  cases h : s.ahead with
  | nil => rfl
  | cons byte rest =>
    have hbyte := getElem?_ahead s 0
    rw [Nat.add_zero, h] at hbyte
    exact hbyte

theorem peekNext_eq (s : ByteScanner) : s.peekNext = some (s.ahead.tail.headD 0) := by
  have hlength := length_ahead s
  have hbyte := getElem?_ahead s 1
  rw [peekNext]
  cases h : s.ahead with
  | nil =>
    rw [h, List.length_nil] at hlength
    exact if_pos (by omega)
  | cons byte rest =>
    rw [h, List.length_cons] at hlength
    rw [h, List.getElem?_cons_succ] at hbyte
    cases rest with
    | nil => exact if_pos (by simp only [List.length_nil] at hlength; omega)
    | cons second rest =>
      rw [if_neg (by simp only [List.length_cons] at hlength; omega), hbyte]
      rfl

theorem skipWhile_eq {test : Char → Bool} (hzero : test (asChar 0) = false) {passes : Nat}
    (hpasses : s.ahead.length < passes) :
    s.skipWhile test passes = some (s.pass (s.ahead.takeWhile fun byte => test (asChar byte)).length 0) := by
  induction passes generalizing s with
  | zero => omega
  | succ passes ih =>
    rw [skipWhile, peek_eq]
    cases h : s.ahead with
    | nil => simp [hzero, pass]
    | cons byte rest =>
      have hrest := ahead_pass_one h 0
      rw [h, List.length_cons] at hpasses
      have hnext := ih (s := s.pass 1 0) (by rw [hrest]; omega)
      rw [hrest, pass_pass] at hnext
      cases htest : test (asChar byte) with
      | true => simp [htest, advance_eq h, hnext, Nat.add_comm]
      | false => simp [htest, pass]

theorem skipString_eq {passes : Nat} (hpasses : s.ahead.length < passes) :
    s.skipString passes =
      some (s.pass (s.ahead.takeWhile fun byte => decide (asChar byte ≠ '"')).length
        ((s.ahead.takeWhile fun byte => decide (asChar byte ≠ '"')).countP fun byte =>
          decide (asChar byte = '\n'))) := by
  induction passes generalizing s with
  | zero => omega
  | succ passes ih =>
    rw [skipString, peek_eq, atEnd_eq]
    cases h : s.ahead with
    | nil => simp [pass]
    | cons byte rest =>
      rw [h, List.length_cons] at hpasses
      have hline (lines : Nat) := ih (s := s.pass 1 lines) (by rw [ahead_pass_one h]; omega)
      simp only [ahead_pass_one h, pass_pass] at hline
      by_cases hquote : asChar byte = '"'
      · simp [hquote, pass]
      · by_cases hnewline : asChar byte = '\n'
        · simp [hnewline, advance_eq h, hline, Nat.add_comm]
        · simp [hquote, hnewline, advance_eq h, hline, Nat.add_comm]

theorem skipComment_eq (hplace : s.position ≤ s.bytes.length) :
    s.skipComment = some (s.pass (s.ahead.takeWhile fun byte => decide (asChar byte ≠ '\n')).length 0) := by
  have hslice : byteSlice? s.bytes s.position s.bytes.length = some s.ahead := by
    rw [byteSlice?, if_pos ⟨hplace, Nat.le_refl _⟩, List.take_length, ahead]
  rw [skipComment, hslice]
  cases hfind : s.ahead.findIdx? fun byte => decide (asChar byte = '\n') with
  | some count =>
    obtain ⟨hlt, hcount⟩ := List.findIdx?_eq_some_iff_findIdx_eq.mp hfind
    have hlength : (s.ahead.takeWhile fun byte => decide (asChar byte ≠ '\n')).length = count := by
      rw [List.takeWhile_eq_take_findIdx_not, List.length_take]
      simp only [decide_not, Bool.not_not, hcount]
      exact Nat.min_eq_left (Nat.le_of_lt hlt)
    rw [hlength]
    simp [hfind]
  | none =>
    have hall : (s.ahead.takeWhile fun byte => decide (asChar byte ≠ '\n')) = s.ahead :=
      List.takeWhile_eq_self_iff.mpr fun byte hbyte => by
        simpa using List.findIdx?_eq_none_iff.mp hfind byte hbyte
    have hend : s.position + s.ahead.length = s.bytes.length := by
      rw [length_ahead]
      omega
    rw [hall]
    simp [hfind, pass, hend]

end

end ByteScanner

end LoxLang
