import LoxLang.Number.Shortest

set_option autoImplicit false

namespace LoxLang

def decimalDigits (n : Nat) : List Char := Nat.toDigits 10 n

namespace Decimal

/-- All digits in place, with at least one before the point and none after it if there is no
fraction. -/
def positional (d : Decimal) : List Char :=
  let digits := decimalDigits d.digits
  if 0 ≤ d.exponent then digits ++ List.replicate d.exponent.toNat '0'
  else
    let places := (-d.exponent).toNat
    let padded := List.replicate (places + 1 - digits.length) '0' ++ digits
    padded.take (padded.length - places) ++ '.' :: padded.drop (padded.length - places)

def leadingPower (d : Decimal) : Int := d.exponent + (decimalDigits d.digits).length - 1

def scientific (d : Decimal) (positiveMark : List Char) : List Char :=
  let mantissa :=
    match decimalDigits d.digits with
    | first :: second :: rest => first :: '.' :: second :: rest
    | digits => digits
  let power := d.leadingPower
  if 0 ≤ power then mantissa ++ positiveMark ++ decimalDigits power.toNat
  else mantissa ++ 'e' :: '-' :: decimalDigits (-power).toNat

end Decimal

namespace Number

def signed (n : Number) (magnitude : List Char) : List Char :=
  if n.isNegative then '-' :: magnitude else magnitude

def plain (n : Number) : List Char :=
  if n.isNaN then "NaN".toList
  else n.signed
    (if n.isInfinite then "inf".toList
     else if n.isZero then ['0']
     else (n.shortest .up).positional)

def scientificFrom : Nat := 10 ^ 21

/-- The text `print` and concatenation use: integers in full below 10^21, powers of ten from there
on, and otherwise the shortest digits. -/
def printed (n : Number) : List Char :=
  if n.isFinite && decide (scientificFrom * unit ≤ n.grains) then
    n.signed ((n.shortest .up).scientific ['e'])
  else if n.isIntegral then n.signed (decimalDigits n.whole)
  else n.plain

/-- The text in a syntax tree: integers exactly and with `.0`. -/
def inTree (n : Number) : List Char :=
  if n.isIntegral then n.signed (decimalDigits n.whole ++ ".0".toList) else n.plain

/-- The text in a token listing: integers below 2^63 with `.0`, zero without its sign. -/
def inListing (n : Number) : List Char :=
  if n.isIntegral && decide (n.whole < 2 ^ 63) then
    (if n.isZero then id else n.signed) (decimalDigits n.whole ++ ".0".toList)
  else n.plain

/-- The text in JSON: positional from 10^-5 up to 10^16, and what is not finite is null. -/
def inJson (n : Number) : List Char :=
  if !n.isFinite then "null".toList
  else if n.isZero then n.signed "0.0".toList
  else
    let decimal := n.shortest .even
    n.signed
      (if -5 ≤ decimal.leadingPower && decide (decimal.leadingPower < 16) then
        if 0 ≤ decimal.exponent then decimal.positional ++ ".0".toList else decimal.positional
       else decimal.scientific ['e', '+'])

end Number

end LoxLang
