import LoxLang.Number.Basic

/-!
The shortest decimal that reads back to a number.

A finite magnitude is a whole number of units of 10^-1074, so all comparisons are between natural
numbers. The decimal grids of 10^k units are tried from the coarsest down; the first one with a
point in the rounding interval gives the answer. The grid of single units holds the number itself,
so the search always ends with a point of the interval.
-/

set_option autoImplicit false

namespace LoxLang

/-- The decimal `digits * 10 ^ exponent`. -/
structure Decimal where
  digits : Nat
  exponent : Int
  deriving DecidableEq, Repr

inductive Tie where
  | up
  | even
  deriving DecidableEq, Repr

namespace Number

def units (n : Number) : Nat := n.grains * 5 ^ 1074

/-- Quarter units from the number down to the midpoint below it. Below a power of two the neighbour
is half as far away as above. -/
def gapBelow (n : Number) : Nat :=
  if n.magnitude % 2 ^ 52 = 0 ∧ 1 < n.magnitude / 2 ^ 52 then 2 ^ n.scale * 5 ^ 1074
  else 2 * (2 ^ n.scale * 5 ^ 1074)

def gapAbove (n : Number) : Nat := 2 * (2 ^ n.scale * 5 ^ 1074)

/-- Whether a magnitude of `x` units rounds to `n`: it lies between the two midpoints, and a
midpoint itself rounds to the even significand. -/
def attracts (n : Number) (x : Nat) : Bool :=
  let centre := 4 * n.units
  if n.magnitude % 2 = 0 then
    decide (centre ≤ 4 * x + n.gapBelow) && decide (4 * x ≤ centre + n.gapAbove)
  else
    decide (centre < 4 * x + n.gapBelow) && decide (4 * x < centre + n.gapAbove)

def neighbour? (n : Number) (tie : Tie) (step : Nat) : Option Nat :=
  let below := n.units / step
  let above := below + 1
  match n.attracts (below * step), n.attracts (above * step) with
  | false, false => none
  | true, false => some below
  | false, true => some above
  | true, true =>
    let down := n.units - below * step
    let up := above * step - n.units
    if down < up then some below
    else if up < down then some above
    else match tie with
      | .up => some above
      | .even => some (if below % 2 = 0 then below else above)

/-- The point found on the coarsest grid of at most 10^k units, with the power of its grid. -/
def coarsest (n : Number) (tie : Tie) : Nat → Nat × Nat
  | 0 => (n.units, 0)
  | k + 1 =>
    match n.neighbour? tie (10 ^ (k + 1)) with
    | some digits => (digits, k + 1)
    | none => coarsest n tie k

/-- A power of ten above all digits of `x`: a number of `b` binary digits has at most
`0.30103 * b + 1` decimal ones. -/
def powerAbove (x : Nat) : Nat := (Nat.log2 x + 1) * 30103 / 100000 + 1

/-- The shortest decimal that reads back to the magnitude of `n`, the nearest one of those. -/
def shortest (n : Number) (tie : Tie) : Decimal :=
  let (digits, power) := n.coarsest tie (powerAbove n.units)
  ⟨digits, (power : Int) - 1074⟩

end Number

end LoxLang
