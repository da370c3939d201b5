/-!
Numbers of the language: binary64 words.

Everything but the arithmetic is read off the bits with natural numbers. The magnitude of a finite
number is a whole number of *grains* of 2^-1074, the distance between the smallest numbers, so two
finite magnitudes compare as their grains do.
-/

set_option autoImplicit false

namespace LoxLang

/-- Powers of natural numbers are the built-in ones, whatever else is in scope. -/
@[default_instance 20000]
instance (priority := 20000) builtinPower : Pow Nat Nat := instPowNat

structure Number where
  bits : UInt64
  deriving DecidableEq, Repr

namespace Number

def magnitude (n : Number) : Nat := n.bits.toNat % 2 ^ 63

def isNegative (n : Number) : Bool := decide (2 ^ 63 ≤ n.bits.toNat)

/-- The magnitude of infinity; words above it are not numbers, words below it are finite. -/
def infinite : Nat := 2047 * 2 ^ 52

def isFinite (n : Number) : Bool := decide (n.magnitude < infinite)
def isInfinite (n : Number) : Bool := decide (n.magnitude = infinite)
def isNaN (n : Number) : Bool := decide (infinite < n.magnitude)
def isZero (n : Number) : Bool := decide (n.magnitude = 0)

def ofMagnitude (negative : Bool) (magnitude : Nat) : Number :=
  ⟨UInt64.ofNat (if negative then magnitude + 2 ^ 63 else magnitude)⟩

theorem toNat_ofMagnitude (negative : Bool) (m : Nat) :
    (ofMagnitude negative m).bits.toNat = (if negative then m + 2 ^ 63 else m) % 2 ^ 64 :=
  UInt64.toNat_ofNat'

theorem magnitude_ofMagnitude (negative : Bool) {m : Nat} (h : m < 2 ^ 63) :
    (ofMagnitude negative m).magnitude = m := by
  rw [magnitude, toNat_ofMagnitude]
  split <;> omega

theorem isNegative_ofMagnitude (negative : Bool) {m : Nat} (h : m < 2 ^ 63) :
    (ofMagnitude negative m).isNegative = negative := by
  rw [isNegative, toNat_ofMagnitude]
  cases negative
  · exact decide_eq_false (by rw [if_neg Bool.false_ne_true]; omega)
  · exact decide_eq_true (by rw [if_pos rfl]; omega)

theorem ofMagnitude_magnitude (n : Number) : ofMagnitude n.isNegative n.magnitude = n := by
  have bound := n.bits.toNat_lt
  have same : (ofMagnitude n.isNegative n.magnitude).bits.toNat = n.bits.toNat := by
    rw [toNat_ofMagnitude, magnitude]
    by_cases h : 2 ^ 63 ≤ n.bits.toNat
    · rw [isNegative, decide_eq_true h, if_pos rfl]; omega
    · rw [isNegative, decide_eq_false h, if_neg Bool.false_ne_true]; omega
  have bits := UInt64.toNat_inj.mp same
  cases n
  exact congrArg Number.mk bits

def zero : Number := ofMagnitude false 0
def nan : Number := ofMagnitude false (infinite + 2 ^ 51)

/-- How often the significand is doubled. Numbers below 2^-1022 share the scale 0 with the first
numbers above. -/
def scale (n : Number) : Nat := n.magnitude / 2 ^ 52 - 1

def significand (n : Number) : Nat := n.magnitude - n.scale * 2 ^ 52

/-- The magnitude counted in grains of 2^-1074. -/
def grains (n : Number) : Nat := n.significand * 2 ^ n.scale

def unit : Nat := 2 ^ 1074

def isIntegral (n : Number) : Bool := n.isFinite && decide (n.grains % unit = 0)

def whole (n : Number) : Nat := n.grains / unit

def negate (n : Number) : Number := ofMagnitude (!n.isNegative) n.magnitude

def toFloat (n : Number) : Float := Float.ofBits n.bits
def ofFloat (x : Float) : Number := ⟨x.toBits⟩

def add (a b : Number) : Number := ofFloat (a.toFloat + b.toFloat)
def sub (a b : Number) : Number := ofFloat (a.toFloat - b.toFloat)
def mul (a b : Number) : Number := ofFloat (a.toFloat * b.toFloat)
def div (a b : Number) : Number := ofFloat (a.toFloat / b.toFloat)

def lt (a b : Number) : Bool := decide (a.toFloat < b.toFloat)
def le (a b : Number) : Bool := decide (a.toFloat ≤ b.toFloat)

/-- Equality as the language sees it: the two zeros are equal, and NaN differs from itself. -/
def same (a b : Number) : Bool := a.toFloat == b.toFloat

end Number

end LoxLang
