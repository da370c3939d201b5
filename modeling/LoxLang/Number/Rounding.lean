import LoxLang.Number.Basic

/-!
Correct rounding: the binary64 number nearest to a fraction or to a decimal.

The quotient of the value by the grain 2^-1074 is cut to 53 binary digits, rounded to nearest with
ties to even, and packed. Packing is one addition because a significand that reaches 2^53 carries
into the exponent field by itself.
-/

set_option autoImplicit false

namespace LoxLang

/-- The whole number nearest to `num / den`, the even one of two equally near. -/
def roundHalfEven (num den : Nat) : Nat :=
  let quotient := num / den
  let twice := 2 * (num % den)
  if twice < den then quotient
  else if den < twice then quotient + 1
  else quotient + quotient % 2

namespace Number

/-- The number nearest to `num / den`; from the midpoint above the largest number on, infinity. -/
def ofRatio (negative : Bool) (num den : Nat) : Number :=
  let grains := num * unit
  let scale := Nat.log2 (grains / den) - 52
  ofMagnitude negative
    (min infinite (scale * 2 ^ 52 + roundHalfEven grains (den * 2 ^ scale)))

def ofNat (n : Nat) : Number := ofRatio false n 1

def ofInt (i : Int) : Number := ofRatio (decide (i < 0)) i.natAbs 1

def truncate (n : Number) : Number :=
  if n.isFinite then ofRatio n.isNegative n.whole 1 else n

/-- The number nearest to `digits * 10 ^ exponent`. From 10^400 on the answer is infinity, and below
10^-400 it is zero; neither power is computed then. -/
def ofDecimal (negative : Bool) (digits : Nat) (exponent : Int) : Number :=
  if digits = 0 then ofMagnitude negative 0
  else if 400 ≤ exponent then ofMagnitude negative infinite
  else if exponent + Nat.log2 digits + 1 ≤ -400 then ofMagnitude negative 0
  else if 0 ≤ exponent then ofRatio negative (digits * 10 ^ exponent.toNat) 1
  else ofRatio negative digits (10 ^ (-exponent).toNat)

end Number

end LoxLang
