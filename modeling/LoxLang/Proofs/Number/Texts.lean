import LoxLang.Number.Numeral
import LoxLang.Proofs.Number.Intervals

set_option autoImplicit false

namespace LoxLang

namespace Number

variable {n m : Number}

theorem digitsValue_decimalDigits (k : Nat) : digitsValue (decimalDigits k) = k :=
  Nat.ofDigitChars_toDigits (by decide) (by decide)

theorem digitsValue_zeros (k : Nat) : digitsValue (List.replicate k '0') = 0 := by
  induction k with
  | zero => rfl
  | succ k ih =>
    rw [List.replicate_succ', digitsValue_append, ih]
    rfl

theorem isDigit_of_mem_decimalDigits {k : Nat} {c : Char} (h : c ∈ decimalDigits k) : c.isDigit = true :=
  Nat.isDigit_of_mem_toDigits (by decide) (by decide) h

theorem isDigit_of_mem_zeros {k : Nat} {c : Char} (h : c ∈ List.replicate k '0') : c.isDigit = true := by
  obtain rfl := List.eq_of_mem_replicate h
  rfl

def unitsOf (text : List Char) : Nat :=
  let fraction := (text.dropWhile Char.isDigit).drop 1
  digitsValue (text.takeWhile Char.isDigit ++ fraction) * 10 ^ (1074 - fraction.length)

theorem unitsOf_whole {whole : List Char} (h : ∀ c ∈ whole, c.isDigit = true) :
    unitsOf whole = digitsValue whole * 10 ^ 1074 := by
  have htake : whole.takeWhile Char.isDigit = whole := List.takeWhile_eq_self_iff.mpr h
  have hdrop : whole.dropWhile Char.isDigit = [] := List.dropWhile_eq_nil_iff.mpr h
  simp only [unitsOf, htake, hdrop, List.drop_nil, List.append_nil, List.length_nil, Nat.sub_zero]

theorem unitsOf_point {whole fraction : List Char} (h : ∀ c ∈ whole, c.isDigit = true) :
    unitsOf (whole ++ '.' :: fraction) =
      digitsValue (whole ++ fraction) * 10 ^ (1074 - fraction.length) := by
  have htake : (whole ++ '.' :: fraction).takeWhile Char.isDigit = whole := by
    rw [List.takeWhile_append_of_pos h, List.takeWhile_cons_of_neg (by decide), List.append_nil]
  have hdrop : (whole ++ '.' :: fraction).dropWhile Char.isDigit = '.' :: fraction := by
    rw [List.dropWhile_append_of_pos h, List.dropWhile_cons_of_neg (by decide)]
  simp only [unitsOf, htake, hdrop, List.drop_succ_cons, List.drop_zero]

/-- What stands before a point and after it. -/
inductive Written : List Char → Prop
  | whole {whole : List Char} : whole ≠ [] → (∀ c ∈ whole, c.isDigit = true) → Written whole
  | point {whole fraction : List Char} : whole ≠ [] → (∀ c ∈ whole, c.isDigit = true) →
    (∀ c ∈ fraction, c.isDigit = true) → Written (whole ++ '.' :: fraction)

theorem Written.exists_cons {text : List Char} (h : Written text) :
    ∃ c rest, text = c :: rest ∧ c.isDigit = true := by
  cases h with
  | whole hne hdigits =>
    obtain ⟨c, rest, rfl⟩ := List.exists_cons_of_ne_nil hne
    exact ⟨c, rest, rfl, hdigits c List.mem_cons_self⟩
  | point hne hdigits =>
    obtain ⟨c, rest, rfl⟩ := List.exists_cons_of_ne_nil hne
    exact ⟨c, _, rfl, hdigits c List.mem_cons_self⟩

theorem Written.mem {text : List Char} (h : Written text) {c : Char} (hc : c ∈ text) :
    c.isDigit = true ∨ c = '.' := by
  cases h with
  | whole _ hdigits => exact .inl (hdigits c hc)
  | point _ hwhole hfraction =>
    rcases List.mem_append.mp hc with hc | hc
    · exact .inl (hwhole c hc)
    · rcases List.mem_cons.mp hc with rfl | hc
      · exact .inr rfl
      · exact .inl (hfraction c hc)

theorem decimalDigits_ne_nil (k : Nat) : decimalDigits k ≠ [] := Nat.toDigits_ne_nil

theorem positional_whole (digits : Nat) {exponent : Int} (h : 0 ≤ exponent) :
    Decimal.positional ⟨digits, exponent⟩ = decimalDigits digits ++ List.replicate exponent.toNat '0' :=
  if_pos h

theorem isDigit_of_mem_whole {digits k : Nat} {c : Char} (h : c ∈ decimalDigits digits ++ List.replicate k '0') :
    c.isDigit = true :=
  (List.mem_append.mp h).elim isDigit_of_mem_decimalDigits isDigit_of_mem_zeros

theorem positional_point (digits : Nat) {exponent : Int} (h : exponent < 0) : ∃ whole fraction : List Char,
    Decimal.positional ⟨digits, exponent⟩ = whole ++ '.' :: fraction ∧ whole ≠ [] ∧
      (∀ c ∈ whole, c.isDigit = true) ∧ (∀ c ∈ fraction, c.isDigit = true) ∧
      fraction.length = (-exponent).toNat ∧ digitsValue (whole ++ fraction) = digits := by
  unfold Decimal.positional
  simp only [if_neg (Int.not_le.mpr h)]
  generalize (-exponent).toNat = places
  generalize hpadded : List.replicate (places + 1 - (decimalDigits digits).length) '0' ++ decimalDigits digits =
    padded
  have hlength : places + 1 ≤ padded.length := by
    rw [← hpadded, List.length_append, List.length_replicate]
    omega
  have hall : ∀ c ∈ padded, c.isDigit = true := by
    intro c hc
    rw [← hpadded] at hc
    exact (List.mem_append.mp hc).elim isDigit_of_mem_zeros isDigit_of_mem_decimalDigits
  have hvalue : digitsValue padded = digits := by
    rw [← hpadded, digitsValue_split, digitsValue_zeros, Nat.zero_mul, Nat.zero_add, digitsValue_decimalDigits]
  refine ⟨_, _, rfl, ?_, fun c hc => hall c (List.mem_of_mem_take hc), fun c hc => hall c (List.mem_of_mem_drop hc),
    ?_, ?_⟩
  · rw [ne_eq, List.take_eq_nil_iff]
    rintro (hzero | rfl)
    · omega
    · simp at hlength
  · rw [List.length_drop]
    omega
  · rw [List.take_append_drop, hvalue]

/-- All digits in place stand for the decimal. -/
theorem positional_written (digits power : Nat) :
    Written (Decimal.positional ⟨digits, (power : Int) - 1074⟩) ∧
      unitsOf (Decimal.positional ⟨digits, (power : Int) - 1074⟩) = digits * 10 ^ power := by
  by_cases hexponent : (0 : Int) ≤ (power : Int) - 1074
  · have hpower : ((power : Int) - 1074).toNat + 1074 = power := by omega
    rw [positional_whole digits hexponent]
    refine ⟨.whole (by simp [decimalDigits_ne_nil]) fun c hc => isDigit_of_mem_whole hc, ?_⟩
    rw [unitsOf_whole fun c hc => isDigit_of_mem_whole hc, digitsValue_split, digitsValue_decimalDigits,
      digitsValue_zeros, List.length_replicate, Nat.add_zero, Nat.mul_assoc, ← Nat.pow_add, hpower]
  · obtain ⟨whole, fraction, htext, hne, hwhole, hfraction, hlength, hvalue⟩ :=
      positional_point digits (Int.not_le.mp hexponent)
    rw [htext]
    refine ⟨.point hne hwhole hfraction, ?_⟩
    rw [unitsOf_point hwhole, hvalue, hlength]
    congr 2
    omega

/-- A number that a literal can stand for: it is finite and has no sign. -/
structure IsLiteral (n : Number) : Prop where
  finite : n.isFinite = true
  unsigned : n.isNegative = false

theorem two_pow_mul_five_pow (k : Nat) : 2 ^ k * 5 ^ k = 10 ^ k := (Nat.mul_pow 2 5 k).symm

theorem ten_mul_pow (k : Nat) : 10 * 10 ^ k = 10 ^ (k + 1) := Nat.pow_succ'.symm

theorem unit_mul_five_pow : unit * 5 ^ 1074 = 10 ^ 1074 := by
  unfold unit
  rw [two_pow_mul_five_pow]

theorem grains_of_isIntegral (h : n.isIntegral = true) : n.grains = n.whole * unit := by
  simp only [isIntegral, Bool.and_eq_true, decide_eq_true_eq] at h
  exact (Nat.div_mul_cancel (Nat.dvd_of_mod_eq_zero h.2)).symm

theorem units_of_isIntegral (h : n.isIntegral = true) : n.units = n.whole * 10 ^ 1074 := by
  rw [units, grains_of_isIntegral h, Nat.mul_assoc, unit_mul_five_pow]

-- Said of the function itself: to compare its value with the pair that is found, the search would be run.
theorem shortest_eq : shortest = fun n tie =>
    (fun found : Nat × Nat => (⟨found.1, (found.2 : Int) - 1074⟩ : Decimal))
      (n.coarsest tie (powerAbove n.units)) := by
  delta shortest
  funext n tie
  split
  next digits power hfound => rw [hfound]

theorem exists_shortest (n : Number) (tie : Tie) : ∃ digits power : Nat,
    n.attracts (digits * 10 ^ power) = true ∧ n.shortest tie = ⟨digits, (power : Int) - 1074⟩ :=
  ⟨_, _, n.coarsest_attracts tie _, congrFun (congrFun shortest_eq n) tie⟩

theorem plain_of_isFinite (hfinite : n.isFinite = true) (hzero : n.isZero = false) :
    n.plain = n.signed (n.shortest .up).positional := by
  have hmagnitude : n.magnitude < infinite := by simpa [isFinite] using hfinite
  have hnan : n.isNaN = false := by
    rw [isNaN, decide_eq_false_iff_not]
    omega
  have hinfinite : n.isInfinite = false := by
    rw [isInfinite, decide_eq_false_iff_not]
    omega
  simp [plain, hnan, hinfinite, hzero]

theorem plain_of_not_isIntegral (hfinite : n.isFinite = true) (hintegral : ¬n.isIntegral = true) :
    n.plain = n.signed (n.shortest .up).positional := by
  refine plain_of_isFinite hfinite ?_
  by_contra hzero
  rw [Bool.not_eq_false, isZero, decide_eq_true_eq] at hzero
  refine hintegral ?_
  simp [isIntegral, hfinite, grains, significand, scale, hzero]

theorem inTree_written (h : n.IsLiteral) :
    Written n.inTree ∧ n.attracts (unitsOf n.inTree) = true := by
  unfold inTree
  by_cases hintegral : n.isIntegral = true
  · have htext : n.signed (decimalDigits n.whole ++ ".0".toList) = decimalDigits n.whole ++ '.' :: ['0'] := by
      rw [signed, h.unsigned]
      rfl
    have hdigits : ∀ c ∈ decimalDigits n.whole, c.isDigit = true :=
      fun c hc => isDigit_of_mem_decimalDigits hc
    rw [if_pos hintegral, htext]
    refine ⟨.point (decimalDigits_ne_nil _) hdigits (by simp), ?_⟩
    have hvalue : unitsOf (decimalDigits n.whole ++ '.' :: ['0']) = n.units := by
      rw [unitsOf_point hdigits, digitsValue_append, digitsValue_decimalDigits, Nat.sub_self, Nat.add_zero,
        Nat.mul_comm 10, Nat.mul_assoc, ten_mul_pow, units_of_isIntegral hintegral, List.length_singleton]
    rw [hvalue]
    exact n.attracts_units
  · have htext : n.plain = (n.shortest .up).positional := by
      rw [plain_of_not_isIntegral h.finite hintegral, signed, h.unsigned, if_neg Bool.false_ne_true]
    obtain ⟨digits, power, hreads, hshortest⟩ := n.exists_shortest .up
    obtain ⟨hwritten, hunits⟩ := positional_written digits power
    rw [if_neg hintegral, htext, hshortest, hunits]
    exact ⟨hwritten, hreads⟩

/-- Different numbers have different texts. -/
theorem inTree_injective (hn : n.IsLiteral) (hm : m.IsLiteral) (h : n.inTree = m.inTree) : n = m := by
  have hreads := (inTree_written hn).2
  rw [h] at hreads
  have hmagnitude := magnitude_of_attracts hreads (inTree_written hm).2
  rw [← n.ofMagnitude_magnitude, ← m.ofMagnitude_magnitude, hmagnitude, hn.unsigned, hm.unsigned]

theorem isNegative_ofRatio (num den : Nat) : (ofRatio false num den).isNegative = false := by
  unfold ofRatio
  refine isNegative_ofMagnitude false (Nat.lt_of_le_of_lt (Nat.min_le_left _ _) ?_)
  decide

theorem isNegative_ofDigits (whole fraction : List Char) (exponent : Int) :
    (ofDigits false whole fraction exponent).isNegative = false := by
  unfold ofDigits ofDecimal
  simp only
  split
  · rfl
  · split
    · rfl
    · split
      · rfl
      · split <;> exact isNegative_ofRatio _ _

end Number

end LoxLang
