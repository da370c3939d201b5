import LoxLang.Number.Rounding

set_option autoImplicit false

namespace LoxLang

namespace Number

def digitsValue (digits : List Char) : Nat :=
  digits.foldl (fun value c => 10 * value + (c.toNat - '0'.toNat)) 0

theorem digitsValue_append (digits : List Char) (c : Char) :
    digitsValue (digits ++ [c]) = 10 * digitsValue digits + (c.toNat - '0'.toNat) := by
  rw [digitsValue, List.foldl_append]
  rfl

theorem foldl_digits (start : Nat) (digits : List Char) :
    digits.foldl (fun value c => 10 * value + (c.toNat - '0'.toNat)) start =
      start * 10 ^ digits.length + digitsValue digits := by
  induction digits generalizing start with
  | nil => simp [digitsValue]
  | cons c rest ih =>
    rw [digitsValue, List.foldl_cons, List.foldl_cons, ih, ih, List.length_cons, Nat.pow_succ]
    grind

theorem digitsValue_split (high low : List Char) :
    digitsValue (high ++ low) = digitsValue high * 10 ^ low.length + digitsValue low := by
  rw [digitsValue, List.foldl_append, foldl_digits]
  rfl

/-- The value of digits, found by halving them a number of times. The halves of a long text are
multiplied in one step, where a fold would multiply all that it has read by ten for each digit. -/
def halvedValue : Nat → List Char → Nat
  | 0, digits => digitsValue digits
  | depth + 1, digits =>
    let half := digits.length / 2
    halvedValue depth (digits.take half) * 10 ^ (digits.length - half) +
      halvedValue depth (digits.drop half)

theorem halvedValue_eq (depth : Nat) (digits : List Char) :
    halvedValue depth digits = digitsValue digits := by
  induction depth generalizing digits with
  | zero => rfl
  | succ depth ih =>
    rw [halvedValue, ih, ih, ← List.length_drop, ← digitsValue_split, List.take_append_drop]

def halvings (digits : List Char) : Nat := Nat.log2 digits.length - 6

/-- The number written as `whole.fraction` times a power of ten. -/
def ofDigits (negative : Bool) (whole fraction : List Char) (exponent : Int) : Number :=
  let digits := whole ++ fraction
  ofDecimal negative (halvedValue (halvings digits) digits) (exponent - fraction.length)

def splitSign : List Char → Bool × List Char
  | '-' :: rest => (true, rest)
  | '+' :: rest => (false, rest)
  | text => (false, text)

/-- The value an exponent stops growing at: digits after those that reach it do not count. -/
def exponentLimit : Nat := 2 ^ 16

def exponentValue (digits : List Char) : Nat :=
  digits.foldl
    (fun value c => if value < exponentLimit then 10 * value + (c.toNat - '0'.toNat) else value) 0

/-- Reads what stands after the digits of a decimal: nothing, or an exponent with digits. -/
def exponent? : List Char → Option Int
  | [] => some 0
  | mark :: rest =>
    let (negative, digits) := splitSign rest
    if mark.toLower = 'e' && !digits.isEmpty && digits.all Char.isDigit then
      some (if negative then -exponentValue digits else exponentValue digits)
    else none

def decimal? (negative : Bool) (text : List Char) : Option Number :=
  let whole := text.takeWhile Char.isDigit
  let (fraction, rest) :=
    match text.dropWhile Char.isDigit with
    | '.' :: rest => (rest.takeWhile Char.isDigit, rest.dropWhile Char.isDigit)
    | rest => ([], rest)
  if whole.isEmpty && fraction.isEmpty then none
  else (exponent? rest).map (ofDigits negative whole fraction)

/-- Reads a whole text as a number. The words stand in any case. -/
def numeral? (text : List Char) : Option Number :=
  let (negative, rest) := splitSign text
  let word := rest.map Char.toLower
  if word = "inf".toList || word = "infinity".toList then some (ofMagnitude negative infinite)
  else if word = "nan".toList then some nan
  else decimal? negative rest

end Number

end LoxLang
