import LoxLang.Number.Rounding
import LoxLang.Proofs.Number.Texts

set_option autoImplicit false

namespace LoxLang

theorem roundHalfEven_near (num : Nat) {den : Nat} (h : 0 < den) :
    if roundHalfEven num den % 2 = 0 then
      2 * (roundHalfEven num den * den) ≤ 2 * num + den ∧
        2 * num ≤ 2 * (roundHalfEven num den * den) + den
    else
      2 * (roundHalfEven num den * den) < 2 * num + den ∧
        2 * num < 2 * (roundHalfEven num den * den) + den := by
  have hsplit := Nat.div_add_mod' num den
  have hmod := Nat.mod_lt num h
  have hstep : (num / den + 1) * den = num / den * den + den := Nat.succ_mul _ _
  -- The quotient or the next number, by the remainder; on a tie whichever of them is even.
  have hcases : roundHalfEven num den = num / den ∧ 2 * (num % den) < den ∨
      roundHalfEven num den = num / den + 1 ∧ den < 2 * (num % den) ∨
      roundHalfEven num den % 2 = 0 ∧ 2 * (num % den) = den ∧
        (roundHalfEven num den = num / den ∨ roundHalfEven num den = num / den + 1) := by
    unfold roundHalfEven
    simp only
    split
    · exact .inl ⟨rfl, ‹_›⟩
    · split
      · exact .inr (.inl ⟨rfl, ‹_›⟩)
      · exact .inr (.inr ⟨by omega, by omega, by omega⟩)
  rcases hcases with ⟨hr, hdown⟩ | ⟨hr, hup⟩ | ⟨heven, htie, hr | hr⟩
  · rw [hr]
    split <;> omega
  · rw [hr, hstep]
    split <;> omega
  · rw [if_pos heven, hr]
    omega
  · rw [if_pos heven, hr, hstep]
    omega

theorem roundHalfEven_mem (num den : Nat) :
    num / den ≤ roundHalfEven num den ∧ roundHalfEven num den ≤ num / den + 1 := by
  unfold roundHalfEven
  simp only
  split
  · omega
  · split <;> omega

namespace Number

variable {n m : Number} {num den x : Nat}

/-- A significand of at most 2^53 is packed by one addition, with a carry into the exponent field or without. -/
theorem fields_of_packed {scale digits : Nat} (hdigits : digits ≤ 2 ^ 53)
    (hscale : scale = 0 ∨ 2 ^ 52 ≤ digits) (h : m.magnitude = scale * 2 ^ 52 + digits) :
    m.grains = digits * 2 ^ scale ∧ 2 ^ scale ≤ 2 ^ m.scale ∧
      (m.grainsBelow = 2 * 2 ^ scale ∨ digits = 2 ^ 52 ∧ 0 < scale ∧ m.grainsBelow = 2 ^ scale) := by
  unfold grainsBelow grains significand Number.scale
  rw [h]
  -- A full significand carries into the exponent field and leaves a fraction of zero.
  by_cases hcarry : digits = 2 ^ 53
  · have hdiv : (scale * 2 ^ 52 + digits) / 2 ^ 52 = scale + 2 := by omega
    have hmod : (scale * 2 ^ 52 + digits) % 2 ^ 52 = 0 := by omega
    have hbase : scale * 2 ^ 52 + digits - (scale + 2 - 1) * 2 ^ 52 = 2 ^ 52 := by omega
    have hpower : 2 ^ (scale + 1) = 2 * 2 ^ scale := by rw [Nat.pow_succ, Nat.mul_comm]
    rw [hdiv, hbase, hmod, if_pos ⟨rfl, by omega⟩, Nat.add_sub_assoc (by decide), hpower, hcarry]
    omega
  -- Without its leading digit the significand is subnormal, and then it was not scaled.
  · by_cases hnormal : 2 ^ 52 ≤ digits
    · have hdiv : (scale * 2 ^ 52 + digits) / 2 ^ 52 = scale + 1 := by omega
      have hbase : scale * 2 ^ 52 + digits - (scale + 1 - 1) * 2 ^ 52 = digits := by omega
      rw [hdiv, hbase, Nat.add_sub_cancel]
      refine ⟨rfl, Nat.le_refl _, ?_⟩
      split
      · exact .inr ⟨by omega, by omega, rfl⟩
      · exact .inl rfl
    · obtain rfl : scale = 0 := by omega
      have hdiv : (0 * 2 ^ 52 + digits) / 2 ^ 52 = 0 := by omega
      have hbase : 0 * 2 ^ 52 + digits - (0 - 1) * 2 ^ 52 = digits := by omega
      rw [hdiv, hbase, if_neg (by omega)]
      exact ⟨rfl, Nat.le_refl _, .inl rfl⟩

def nearestMagnitude (grains den : Nat) : Nat :=
  let scale := Nat.log2 (grains / den) - 52
  scale * 2 ^ 52 + roundHalfEven grains (den * 2 ^ scale)

theorem ofRatio_eq (negative : Bool) (num den : Nat) :
    ofRatio negative num den = ofMagnitude negative (min infinite (nearestMagnitude (num * unit) den)) := rfl

/-- The scale leaves a quotient of 53 binary digits, unless there are fewer. -/
theorem quotient_bounds (grains den : Nat) :
    grains / (den * 2 ^ (Nat.log2 (grains / den) - 52)) < 2 ^ 53 ∧
      (Nat.log2 (grains / den) - 52 = 0 ∨ 2 ^ 52 ≤ grains / (den * 2 ^ (Nat.log2 (grains / den) - 52))) := by
  rw [← Nat.div_div_eq_div_mul]
  generalize grains / den = q
  constructor
  · rw [Nat.div_lt_iff_lt_mul (Nat.two_pow_pos _), ← Nat.pow_add]
    exact Nat.lt_of_lt_of_le Nat.lt_log2_self (Nat.pow_le_pow_right (by decide) (by omega))
  · by_cases hq : Nat.log2 q - 52 = 0
    · exact .inl hq
    · refine .inr ?_
      have hne : q ≠ 0 := by
        rintro rfl
        exact hq (by decide)
      rw [Nat.le_div_iff_mul_le (Nat.two_pow_pos _), ← Nat.pow_add]
      exact Nat.le_trans (Nat.pow_le_pow_right (by decide) (by omega)) (Nat.log2_self_le hne)

theorem le_iff_of_scaled {a b c d k l : Nat} (hk : 0 < k) (hl : 0 < l) (hac : a * k = c * l)
    (hbd : b * k = d * l) : a ≤ b ↔ c ≤ d := by
  rw [← Nat.mul_le_mul_right_iff hk, hac, hbd, Nat.mul_le_mul_right_iff hl]

/-- That `num / den` lies in the interval of a number, counted in quarters of a grain. -/
theorem attracts_iff_ratio (hden : 0 < den) (hvalue : num * 10 ^ 1074 = x * den) :
    n.attracts x = true ↔
      if n.magnitude % 2 = 0 then
        4 * (n.grains * den) ≤ 4 * (num * unit) + n.grainsBelow * den ∧
          4 * (num * unit) ≤ 4 * (n.grains * den) + 2 * (2 ^ n.scale * den)
      else
        4 * (n.grains * den) < 4 * (num * unit) + n.grainsBelow * den ∧
          4 * (num * unit) < 4 * (n.grains * den) + 2 * (2 ^ n.scale * den) := by
  rw [← unit_mul_five_pow] at hvalue
  rw [attracts_iff, gapBelow_eq, units, gapAbove]
  have hfive := five_pow_pos 1074
  generalize 5 ^ 1074 = five at *
  generalize unit = one at *
  -- One side times `den` is the other times 5^1074.
  have hcentre : 4 * (n.grains * five) * den = 4 * (n.grains * den) * five := by ring
  have hx : 4 * x * den = 4 * (num * one) * five := by
    rw [Nat.mul_assoc, ← hvalue]
    ring
  have hbelow : (4 * x + n.grainsBelow * five) * den = (4 * (num * one) + n.grainsBelow * den) * five := by
    rw [Nat.add_mul, hx]
    ring
  have habove : (4 * (n.grains * five) + 2 * (2 ^ n.scale * five)) * den =
      (4 * (n.grains * den) + 2 * (2 ^ n.scale * den)) * five := by ring
  simp only [← Nat.not_le]
  rw [le_iff_of_scaled hden hfive hcentre hbelow, le_iff_of_scaled hden hfive hx habove,
    le_iff_of_scaled hden hfive hbelow hcentre, le_iff_of_scaled hden hfive habove hx]

/-- A fraction lies in the interval of the number it is rounded to. -/
theorem attracts_nearest (hden : 0 < den) (hvalue : num * 10 ^ 1074 = x * den)
    (h : m.magnitude = nearestMagnitude (num * unit) den) : m.attracts x = true := by
  rw [attracts_iff_ratio hden hvalue]
  generalize num * unit = grains at *
  unfold nearestMagnitude at h
  simp only at h
  obtain ⟨hupper, hlower⟩ := quotient_bounds grains den
  generalize Nat.log2 (grains / den) - 52 = scale at *
  have hstep : 0 < den * 2 ^ scale := Nat.mul_pos hden (Nat.two_pow_pos _)
  have hnear := roundHalfEven_near grains hstep
  obtain ⟨hleast, hmost⟩ := roundHalfEven_mem grains (den * 2 ^ scale)
  have hquotient := Nat.div_mul_le_self grains (den * 2 ^ scale)
  generalize roundHalfEven grains (den * 2 ^ scale) = digits at *
  obtain ⟨hgrains, hscale, hbelow⟩ := fields_of_packed (by omega) (by omega) h
  have hparity : m.magnitude % 2 = digits % 2 := by omega
  have hfull : m.grains * den = digits * (den * 2 ^ scale) := by
    rw [hgrains]
    ring
  have hwide : den * 2 ^ scale ≤ 2 ^ m.scale * den := by
    rw [Nat.mul_comm]
    exact Nat.mul_le_mul_right den hscale
  rw [hparity, hfull]
  rcases hbelow with hbelow | ⟨rfl, hpositive, hbelow⟩
  · have hgap : m.grainsBelow * den = 2 * (den * 2 ^ scale) := by
      rw [hbelow]
      ring
    rw [hgap]
    by_cases heven : digits % 2 = 0
    · rw [if_pos heven] at hnear ⊢
      omega
    · rw [if_neg heven] at hnear ⊢
      omega
  · -- Below a power of two the gap is half as wide, but no fraction there is rounded up over it.
    have hnone : 2 ^ 52 * (den * 2 ^ scale) ≤ grains :=
      Nat.le_trans (Nat.mul_le_mul_right _ (by omega)) hquotient
    rw [if_pos (by decide)] at hnear ⊢
    omega

theorem fields_of_isFinite (h : n.isFinite = true) : n.scale ≤ 2045 ∧ n.significand < 2 ^ 53 := by
  rw [isFinite, decide_eq_true_eq, infinite] at h
  unfold significand scale
  omega

def ceiling : Nat := 2 ^ 2098

theorem grains_bound (h : n.isFinite = true) : 4 * n.grains + 2 * 2 ^ n.scale < 4 * ceiling := by
  obtain ⟨hscale, hsignificand⟩ := fields_of_isFinite h
  have hpower : 2 ^ 53 * 2 ^ n.scale ≤ ceiling := by
    have hexponent : 53 + n.scale ≤ 2098 := by omega
    rw [ceiling, ← Nat.pow_add]
    gcongr
    decide
  have hgrains : n.grains + 2 ^ n.scale ≤ 2 ^ 53 * 2 ^ n.scale := by
    rw [grains, ← Nat.succ_mul]
    exact Nat.mul_le_mul_right _ hsignificand
  have hpositive := Nat.two_pow_pos n.scale
  generalize ceiling = bound at *
  omega

theorem nearestMagnitude_le {grains : Nat} (h : grains / den < ceiling) :
    nearestMagnitude grains den ≤ infinite := by
  have hscale : Nat.log2 (grains / den) - 52 ≤ 2045 := by
    by_cases hzero : grains / den = 0
    · rw [hzero]
      decide
    · by_contra hlarge
      have hpower : ceiling ≤ 2 ^ Nat.log2 (grains / den) := by
        rw [ceiling]
        gcongr
        · decide
        · omega
      exact absurd h (Nat.not_lt.mpr (Nat.le_trans hpower (Nat.log2_self_le hzero)))
  have hupper := (quotient_bounds grains den).1
  have hmost := (roundHalfEven_mem grains (den * 2 ^ (Nat.log2 (grains / den) - 52))).2
  unfold nearestMagnitude infinite
  simp only
  omega

theorem attracts_lt_ceiling (hfinite : n.isFinite = true) (hx : n.attracts x = true) :
    x < ceiling * 5 ^ 1074 := by
  have habove : 4 * x ≤ (4 * n.grains + 2 * 2 ^ n.scale) * 5 ^ 1074 := by
    rw [attracts_iff] at hx
    rw [Nat.add_mul, Nat.mul_assoc, Nat.mul_assoc]
    split at hx
    · exact hx.2
    · exact Nat.le_of_lt hx.2
  have hbound : (4 * n.grains + 2 * 2 ^ n.scale) * 5 ^ 1074 < 4 * ceiling * 5 ^ 1074 :=
    Nat.mul_lt_mul_of_pos_right (grains_bound hfinite) (five_pow_pos 1074)
  rw [Nat.mul_assoc] at hbound
  exact Nat.lt_of_mul_lt_mul_left (Nat.lt_of_le_of_lt habove hbound)

/-- Rounding a fraction out of the interval of a finite number gives the number. -/
theorem ofRatio_of_attracts (negative : Bool) (hfinite : n.isFinite = true) (hden : 0 < den)
    (hvalue : num * 10 ^ 1074 = x * den) (hx : n.attracts x = true) :
    ofRatio negative num den = ofMagnitude negative n.magnitude := by
  have hquotient : num * unit / den < ceiling := by
    have hbound : num * unit * 5 ^ 1074 < ceiling * den * 5 ^ 1074 := by
      rw [Nat.mul_assoc, unit_mul_five_pow, hvalue, Nat.mul_right_comm]
      exact Nat.mul_lt_mul_of_pos_right (attracts_lt_ceiling hfinite hx) hden
    rw [Nat.div_lt_iff_lt_mul hden]
    exact Nat.lt_of_mul_lt_mul_right hbound
  -- Below infinity the packed magnitude is that of a number, and two intervals with a point in common are of
  -- one number.
  have hmost := nearestMagnitude_le hquotient
  have hmagnitude : (ofMagnitude negative (nearestMagnitude (num * unit) den)).magnitude =
      nearestMagnitude (num * unit) den :=
    magnitude_ofMagnitude negative (Nat.lt_of_le_of_lt hmost (by decide))
  have hsame := magnitude_of_attracts (attracts_nearest hden hvalue hmagnitude) hx
  rw [ofRatio_eq, Nat.min_eq_right hmost, ← hmagnitude, hsame]

def Holds (n : Number) (d : Decimal) : Prop :=
  ∃ power : Nat, d.exponent = (power : Int) - 1074 ∧ n.attracts (d.digits * 10 ^ power) = true

theorem attracts_lt (hfinite : n.isFinite = true) (hx : n.attracts x = true) : x < 10 ^ 1474 :=
  Nat.lt_of_lt_of_le (attracts_lt_ceiling hfinite hx) (by decide +kernel)

theorem lt_of_ten_pow_lt {j k : Nat} (h : 10 ^ j < 10 ^ k) : j < k :=
  (Nat.pow_lt_pow_iff_right (by decide)).mp h

/-- No power of ten from 10^400 on has a point in the interval of a finite number, zero apart. -/
theorem power_lt_of_attracts {digits power : Nat} (hfinite : n.isFinite = true) (hpositive : 0 < digits)
    (hx : n.attracts (digits * 10 ^ power) = true) : power < 1474 :=
  lt_of_ten_pow_lt (Nat.lt_of_le_of_lt (Nat.le_mul_of_pos_left _ hpositive) (attracts_lt hfinite hx))

theorem magnitude_of_attracts_small (hsmall : x ≤ 10 ^ 674) (hx : n.attracts x = true) : n.magnitude = 0 := by
  have hmagnitude : zero.magnitude = 0 := rfl
  have hzero : zero.attracts x = true := by
    have habove : 4 * x ≤ 2 * 5 ^ 1074 :=
      Nat.le_trans (Nat.mul_le_mul_left 4 hsmall) (by decide +kernel)
    have hscale : zero.scale = 0 := rfl
    have hgrains : zero.grains = 0 := rfl
    rw [attracts_iff, if_pos (by rw [hmagnitude]), units, gapAbove, hscale, hgrains, Nat.zero_mul,
      Nat.pow_zero, Nat.one_mul, Nat.mul_zero, Nat.zero_add]
    exact ⟨Nat.zero_le _, habove⟩
  exact magnitude_of_attracts hx hzero

theorem mul_ten_pow_le {digits power limit : Nat} (h : Nat.log2 digits + 1 + power ≤ limit) :
    digits * 10 ^ power ≤ 10 ^ limit := by
  have hdigits : digits ≤ 10 ^ (Nat.log2 digits + 1) :=
    Nat.le_trans (Nat.le_of_lt Nat.lt_log2_self) (Nat.pow_le_pow_left (by decide) _)
  refine Nat.le_trans (Nat.mul_le_mul_right _ hdigits) ?_
  rw [← Nat.pow_add]
  exact Nat.pow_le_pow_right (by decide) h

theorem ofDecimal_of_holds (negative : Bool) {d : Decimal} (hfinite : n.isFinite = true) (h : n.Holds d) :
    ofDecimal negative d.digits d.exponent = ofMagnitude negative n.magnitude := by
  obtain ⟨digits, exponent⟩ := d
  obtain ⟨power, hexponent, hx⟩ := h
  simp only at hexponent hx ⊢
  subst hexponent
  unfold ofDecimal
  by_cases hzero : digits = 0
  · rw [if_pos hzero, magnitude_of_attracts_small (by rw [hzero, Nat.zero_mul]; exact Nat.zero_le _) hx]
  -- No decimal in the interval is too large for the reader, and what is too small for it is rounded to zero.
  have hpower := power_lt_of_attracts hfinite (Nat.pos_of_ne_zero hzero) hx
  rw [if_neg hzero, if_neg (by omega)]
  by_cases hsmall : (power : Int) - 1074 + Nat.log2 digits + 1 ≤ -400
  · rw [if_pos hsmall, magnitude_of_attracts_small (mul_ten_pow_le (by omega)) hx]
  rw [if_neg hsmall]
  by_cases hwhole : 0 ≤ (power : Int) - 1074
  · rw [if_pos hwhole]
    refine ofRatio_of_attracts negative hfinite Nat.one_pos ?_ hx
    rw [Nat.mul_one, Nat.mul_assoc, ← Nat.pow_add]
    congr 2
    omega
  · rw [if_neg hwhole]
    refine ofRatio_of_attracts negative hfinite (Nat.pow_pos (by decide)) ?_ hx
    rw [Nat.mul_assoc, ← Nat.pow_add]
    congr 2
    omega

end Number

end LoxLang
