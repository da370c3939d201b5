import Mathlib
import LoxLang.Number.Text

/-!
Rounding intervals.

A decimal reads back to a number if it lies between the midpoints to the two neighbours, and on a midpoint if
the number is the even one. The midpoint above a number is the midpoint below the next one, so the intervals
lie side by side and no decimal lies in two of them.
-/

set_option autoImplicit false

namespace LoxLang

namespace Number

variable {n m : Number} {x : Nat}

theorem magnitude_lt (n : Number) : n.magnitude < 2 ^ 63 := Nat.mod_lt _ (by decide)

theorem five_pow_pos (k : Nat) : 0 < 5 ^ k := Nat.pow_pos (by decide)

theorem gapAbove_pos (n : Number) : 0 < n.gapAbove :=
  Nat.mul_pos (by decide) (Nat.mul_pos (Nat.two_pow_pos _) (five_pow_pos 1074))

def grainsBelow (n : Number) : Nat :=
  if n.magnitude % 2 ^ 52 = 0 ∧ 1 < n.magnitude / 2 ^ 52 then 2 ^ n.scale else 2 * 2 ^ n.scale

theorem gapBelow_eq (n : Number) : n.gapBelow = n.grainsBelow * 5 ^ 1074 := by
  unfold gapBelow grainsBelow
  split
  · rfl
  · rw [Nat.mul_assoc]

theorem grains_succ (h : m.magnitude = n.magnitude + 1) :
    4 * n.grains + 2 * 2 ^ n.scale + m.grainsBelow = 4 * m.grains := by
  have hsplit := Nat.div_add_mod n.magnitude (2 ^ 52)
  have hmod := Nat.mod_lt n.magnitude (show 0 < 2 ^ 52 by decide)
  unfold grainsBelow grains significand scale
  rw [h]
  by_cases hlast : n.magnitude % 2 ^ 52 + 1 = 2 ^ 52
  · -- The next number is the first one of the next scale.
    have hdiv : (n.magnitude + 1) / 2 ^ 52 = n.magnitude / 2 ^ 52 + 1 := by omega
    have hfirst : (n.magnitude + 1) % 2 ^ 52 = 0 := by omega
    rw [hdiv, hfirst]
    cases hexponent : n.magnitude / 2 ^ 52 with
    | zero => simp; omega
    | succ e =>
      have hpower : 2 ^ (e + 1) = 2 * 2 ^ e := by rw [Nat.pow_succ, Nat.mul_comm]
      have hhere : n.magnitude - e * 2 ^ 52 = 2 ^ 53 - 1 := by omega
      have hnext : n.magnitude + 1 - (e + 1) * 2 ^ 52 = 2 ^ 52 := by omega
      simp only [Nat.add_sub_cancel, hhere, hnext, hpower, Nat.lt_add_left_iff_pos, true_and,
        if_pos (Nat.succ_pos e)]
      omega
  · have hdiv : (n.magnitude + 1) / 2 ^ 52 = n.magnitude / 2 ^ 52 := by omega
    have hmod' : ¬((n.magnitude + 1) % 2 ^ 52 = 0 ∧ 1 < n.magnitude / 2 ^ 52) := by omega
    have hbase : n.magnitude + 1 - (n.magnitude / 2 ^ 52 - 1) * 2 ^ 52 =
        n.magnitude - (n.magnitude / 2 ^ 52 - 1) * 2 ^ 52 + 1 := by omega
    rw [hdiv, if_neg hmod', hbase, Nat.add_mul]
    omega

/-- The midpoint above a number is the midpoint below the next one. -/
theorem units_succ (h : m.magnitude = n.magnitude + 1) :
    4 * n.units + n.gapAbove + m.gapBelow = 4 * m.units := by
  have hgrains := congrArg (· * 5 ^ 1074) (grains_succ h)
  simp only [Nat.add_mul, Nat.mul_assoc] at hgrains
  rw [gapBelow_eq]
  unfold units gapAbove
  exact hgrains

theorem units_lt (h : n.magnitude < m.magnitude) :
    4 * n.units + n.gapAbove + m.gapBelow ≤ 4 * m.units ∧
      (n.magnitude + 1 < m.magnitude → 4 * n.units + n.gapAbove + m.gapBelow < 4 * m.units) := by
  obtain ⟨k, hk⟩ := Nat.exists_eq_add_of_lt h
  induction k generalizing m with
  | zero =>
    have hnext := units_succ (n := n) (m := m) (by omega)
    exact ⟨hnext.le, fun hlater => absurd hk (by omega)⟩
  | succ k ih =>
    have hbound := m.magnitude_lt
    have hbefore : (ofMagnitude false (m.magnitude - 1)).magnitude = m.magnitude - 1 :=
      magnitude_ofMagnitude false (by omega)
    have hearlier := (ih (m := ofMagnitude false (m.magnitude - 1)) (by omega) (by omega)).1
    have hnext := units_succ (n := ofMagnitude false (m.magnitude - 1)) (m := m) (by omega)
    have hgap := (ofMagnitude false (m.magnitude - 1)).gapAbove_pos
    have hstrict : 4 * n.units + n.gapAbove + m.gapBelow < 4 * m.units := by omega
    exact ⟨hstrict.le, fun _ => hstrict⟩

theorem attracts_iff :
    n.attracts x = true ↔
      if n.magnitude % 2 = 0 then
        4 * n.units ≤ 4 * x + n.gapBelow ∧ 4 * x ≤ 4 * n.units + n.gapAbove
      else 4 * n.units < 4 * x + n.gapBelow ∧ 4 * x < 4 * n.units + n.gapAbove := by
  unfold attracts
  split <;> simp

theorem attracts_units (n : Number) : n.attracts n.units = true := by
  have habove := n.gapAbove_pos
  have hbelow : 0 < n.gapBelow := by
    rw [gapBelow_eq]
    refine Nat.mul_pos ?_ (five_pow_pos 1074)
    have hpower := Nat.two_pow_pos n.scale
    unfold grainsBelow
    split <;> omega
  rw [attracts_iff]
  split <;> omega

theorem not_attracts_both (h : n.magnitude < m.magnitude) (hn : n.attracts x = true) :
    m.attracts x = false := by
  rw [Bool.eq_false_iff]
  intro hm
  rw [attracts_iff] at hn hm
  obtain ⟨hle, hlt⟩ := units_lt h
  by_cases hnext : n.magnitude + 1 < m.magnitude
  · have hlt := hlt hnext
    split at hn <;> split at hm <;> omega
  · -- Of two neighbours one is odd, and an odd one does not have its midpoints.
    split at hn <;> split at hm <;> omega

/-- No decimal reads back to two magnitudes. -/
theorem magnitude_of_attracts (hn : n.attracts x = true) (hm : m.attracts x = true) :
    n.magnitude = m.magnitude := by
  rcases Nat.lt_trichotomy n.magnitude m.magnitude with h | h | h
  · exact absurd hm (by rw [not_attracts_both h hn]; exact Bool.false_ne_true)
  · exact h
  · exact absurd hn (by rw [not_attracts_both h hm]; exact Bool.false_ne_true)

theorem neighbour?_attracts {tie : Tie} {step digits : Nat} (h : n.neighbour? tie step = some digits) :
    n.attracts (digits * step) = true := by
  unfold neighbour? at h
  generalize n.units / step = below at h
  simp only at h
  -- Whatever settles a tie between the two neighbours, the one that is taken was tested.
  cases hbelow : n.attracts (below * step) <;> cases habove : n.attracts ((below + 1) * step) <;>
    simp only [hbelow, habove] at h
  · cases h
  · cases h
    exact habove
  · cases h
    exact hbelow
  · have hdigits : digits = below ∨ digits = below + 1 := by
      split at h
      · exact .inl (Option.some.inj h).symm
      · split at h
        · exact .inr (Option.some.inj h).symm
        · split at h
          · exact .inr (Option.some.inj h).symm
          · split at h
            · exact .inl (Option.some.inj h).symm
            · exact .inr (Option.some.inj h).symm
    rcases hdigits with rfl | rfl
    · exact hbelow
    · exact habove

theorem coarsest_attracts (n : Number) (tie : Tie) (k : Nat) :
    n.attracts ((n.coarsest tie k).1 * 10 ^ (n.coarsest tie k).2) = true := by
  induction k with
  | zero => simpa [coarsest] using n.attracts_units
  | succ k ih =>
    rw [coarsest]
    cases hdigits : n.neighbour? tie (10 ^ (k + 1)) with
    | none => exact ih
    | some digits => exact neighbour?_attracts hdigits

end Number

end LoxLang
