import LoxLang.Evaluation
import LoxLang.Proofs.Number.Rounding
import LoxLang.Proofs.Token.Rescanning
import LoxLang.Syntax.PrefixForm

/-!
Numbers survive being printed and read back.

A number is printed as digits with a point among them or none, and from 10^21 on with a power of ten. This
decimal lies in the interval of the number, so the reader, which rounds correctly, answers the number itself.
The text in a syntax tree has no power of ten and is a lexeme of source text.
-/

set_option autoImplicit false

namespace LoxLang

theorem isDigits_iff {w : List Char} : isDigits w = true ↔ w ≠ [] ∧ ∀ c ∈ w, c.isDigit = true := by
  simp [isDigits]

theorem isBlank_of_isDigit {c : Char} (h : c.isDigit = true) : isBlank c = false := by
  obtain ⟨hlow, hhigh⟩ : 48 ≤ c.toNat ∧ c.toNat ≤ 57 := by
    simpa [Char.isDigit, UInt32.le_iff_toNat_le] using h
  simp [isBlank, CodePoints.has, blankRanges]
  omega

theorem trimBlank_of_not_blank {text : List Char} (h : ∀ c ∈ text, isBlank c = false) : trimBlank text = text := by
  have hdrop {text : List Char} (h : ∀ c ∈ text, isBlank c = false) : text.dropWhile isBlank = text := by
    cases text with
    | nil => rfl
    | cons c rest => exact List.dropWhile_cons_of_neg (by rw [h c List.mem_cons_self]; exact Bool.false_ne_true)
  have hreverse : ∀ c ∈ text.reverse, isBlank c = false := fun c hc => h c (List.mem_reverse.mp hc)
  rw [trimBlank, dropTrailing, hdrop h, hdrop hreverse, List.reverse_reverse]

namespace Number

variable {n : Number} {text tail : List Char} {d : Decimal} {power : Int}

/-- The text spells the decimal, with a point or without. -/
inductive Spells : List Char → Decimal → Prop
  | whole {whole : List Char} : isDigits whole = true → Spells whole ⟨digitsValue whole, 0⟩
  | point {whole fraction : List Char} : isDigits whole = true → isDigits fraction = true →
    Spells (whole ++ '.' :: fraction) ⟨digitsValue (whole ++ fraction), -fraction.length⟩

/-- The text spells the power of ten that a decimal is multiplied by. -/
inductive SpellsPower : List Char → Int → Prop
  | none : SpellsPower [] 0
  | raised {power : Nat} : power < exponentLimit → SpellsPower ('e' :: decimalDigits power) power
  | lowered {power : Nat} : power < exponentLimit → SpellsPower ('e' :: '-' :: decimalDigits power) (-power)

theorem isDigits_decimalDigits (k : Nat) : isDigits (decimalDigits k) = true :=
  isDigits_iff.mpr ⟨decimalDigits_ne_nil k, fun _ => isDigit_of_mem_decimalDigits⟩

theorem ofDigits_eq (negative : Bool) (whole fraction : List Char) (exponent : Int) :
    ofDigits negative whole fraction exponent =
      ofDecimal negative (digitsValue (whole ++ fraction)) (exponent - fraction.length) := by
  rw [ofDigits, halvedValue_eq]

theorem Spells.written (h : Spells text d) : Written text := by
  cases h with
  | whole hwhole =>
    obtain ⟨hne, hall⟩ := isDigits_iff.mp hwhole
    exact .whole hne hall
  | point hwhole hfraction =>
    obtain ⟨hne, hall⟩ := isDigits_iff.mp hwhole
    exact .point hne hall (isDigits_iff.mp hfraction).2

theorem SpellsPower.mem (h : SpellsPower tail power) {c : Char} (hc : c ∈ tail) :
    c.isDigit = true ∨ c = 'e' ∨ c = '-' := by
  cases h with
  | none => cases hc
  | raised =>
    rcases List.mem_cons.mp hc with rfl | hc
    · exact .inr (.inl rfl)
    · exact .inl (isDigit_of_mem_decimalDigits hc)
  | lowered =>
    rcases List.mem_cons.mp hc with rfl | hc
    · exact .inr (.inl rfl)
    · rcases List.mem_cons.mp hc with rfl | hc
      · exact .inr (.inr rfl)
      · exact .inl (isDigit_of_mem_decimalDigits hc)

theorem le_foldl_digits (start : Nat) (digits : List Char) :
    start ≤ digits.foldl (fun value c => 10 * value + (c.toNat - '0'.toNat)) start := by
  rw [foldl_digits]
  exact Nat.le_add_right_of_le (Nat.le_mul_of_pos_right _ (Nat.pow_pos (by decide)))

theorem exponentValue_of_lt {digits : List Char} (h : digitsValue digits < exponentLimit) :
    exponentValue digits = digitsValue digits := by
  unfold digitsValue at h ⊢
  unfold exponentValue
  generalize 0 = start at h ⊢
  induction digits generalizing start with
  | nil => rfl
  | cons c rest ih =>
    -- The value never falls from digit to digit, so it is below the limit on the way too.
    have hstart : start < exponentLimit := by
      refine Nat.lt_of_le_of_lt ?_ h
      exact le_foldl_digits start (c :: rest)
    rw [List.foldl_cons, List.foldl_cons, if_pos hstart]
    exact ih _ h

theorem exponentValue_decimalDigits {k : Nat} (h : k < exponentLimit) : exponentValue (decimalDigits k) = k := by
  have hvalue := digitsValue_decimalDigits k
  rw [exponentValue_of_lt (by rwa [hvalue]), hvalue]

theorem splitSign_of_isDigit {c : Char} (h : c.isDigit = true) (rest : List Char) :
    splitSign (c :: rest) = (false, c :: rest) := by
  have hplain : c ≠ '-' ∧ c ≠ '+' := by
    constructor <;> rintro rfl <;> exact absurd h (by decide)
  unfold splitSign
  split <;> simp_all

theorem exponent?_of_spells (h : SpellsPower tail power) : exponent? tail = some power := by
  cases h with
  | none => rfl
  | @raised k hk =>
    obtain ⟨hne, hall⟩ := isDigits_iff.mp (isDigits_decimalDigits k)
    obtain ⟨c, rest, hdigits⟩ := List.exists_cons_of_ne_nil hne
    have hsign : splitSign (decimalDigits k) = (false, decimalDigits k) := by
      rw [hdigits]
      exact splitSign_of_isDigit (hall c (by rw [hdigits]; exact List.mem_cons_self)) rest
    have hmark : 'e'.toLower = 'e' := by decide
    simp [exponent?, hsign, hmark, hne, List.all_eq_true.mpr hall, exponentValue_decimalDigits hk]
  | @lowered k hk =>
    obtain ⟨hne, hall⟩ := isDigits_iff.mp (isDigits_decimalDigits k)
    have hmark : 'e'.toLower = 'e' := by decide
    simp [exponent?, splitSign, hmark, hne, List.all_eq_true.mpr hall, exponentValue_decimalDigits hk]

theorem SpellsPower.stops (h : SpellsPower tail power) : tail = [] ∨ ∃ rest, tail = 'e' :: rest := by
  cases h with
  | none => exact .inl rfl
  | raised | lowered => exact .inr ⟨_, rfl⟩

theorem takeWhile_digits {w : List Char} (h : isDigits w = true) {more : List Char}
    (hmore : ∀ c ∈ more.head?, c.isDigit = false) :
    (w ++ more).takeWhile Char.isDigit = w ∧ (w ++ more).dropWhile Char.isDigit = more := by
  have hall := (isDigits_iff.mp h).2
  rw [List.takeWhile_append_of_pos hall, List.dropWhile_append_of_pos hall]
  cases more with
  | nil => exact ⟨List.append_nil w, rfl⟩
  | cons c more =>
    have hc : ¬c.isDigit = true := by
      rw [hmore c rfl]
      exact Bool.false_ne_true
    rw [List.takeWhile_cons_of_neg hc, List.dropWhile_cons_of_neg hc, List.append_nil]
    exact ⟨rfl, rfl⟩

theorem decimal?_of_spells (negative : Bool) (h : Spells text d) (ht : SpellsPower tail power) :
    decimal? negative (text ++ tail) = some (ofDecimal negative d.digits (d.exponent + power)) := by
  have hstop : ∀ c ∈ tail.head?, c.isDigit = false := by
    rcases ht.stops with rfl | ⟨rest, rfl⟩
    · simp
    · simp
  cases h with
  | @whole whole hwhole =>
    obtain ⟨htake, hdrop⟩ := takeWhile_digits hwhole hstop
    have hpoint : ∀ rest, tail ≠ '.' :: rest := by
      rcases ht.stops with rfl | ⟨rest, rfl⟩ <;> simp
    simp only [decimal?, htake, hdrop]
    simp [(isDigits_iff.mp hwhole).1, exponent?_of_spells ht, ofDigits_eq]
  | @point whole fraction hwhole hfraction =>
    have hdot : ∀ c ∈ ('.' :: (fraction ++ tail)).head?, c.isDigit = false := by simp
    obtain ⟨htake, hdrop⟩ := takeWhile_digits hwhole hdot
    obtain ⟨htake', hdrop'⟩ := takeWhile_digits hfraction hstop
    rw [List.append_assoc, List.cons_append]
    simp only [decimal?, htake, hdrop, htake', hdrop']
    simp [(isDigits_iff.mp hwhole).1, exponent?_of_spells ht, ofDigits_eq, Int.add_comm, Int.sub_eq_add_neg]

theorem numeral?_signed {c : Char} (hc : c.isDigit = true) (rest : List Char) :
    numeral? (n.signed (c :: rest)) = decimal? n.isNegative (c :: rest) := by
  have hsign : splitSign (n.signed (c :: rest)) = (n.isNegative, c :: rest) := by
    unfold signed
    split
    next hnegative => rw [hnegative]; rfl
    next hnegative => rw [splitSign_of_isDigit hc, Bool.eq_false_iff.mpr hnegative]
  have hletter : c ≠ 'i' ∧ c ≠ 'n' := by
    constructor <;> rintro rfl <;> exact absurd hc (by decide)
  simp [numeral?, hsign, Number.toLower_of_isDigit hc, hletter]

theorem unit_pos : 0 < unit := by decide +kernel

theorem holds_shortest (n : Number) (tie : Tie) : n.Holds (n.shortest tie) := by
  obtain ⟨digits, power, hx, hshortest⟩ := n.exists_shortest tie
  rw [hshortest]
  exact ⟨power, rfl, hx⟩

theorem holds_whole (h : n.isIntegral = true) : n.Holds ⟨n.whole, 0⟩ := by
  refine ⟨1074, rfl, ?_⟩
  rw [← units_of_isIntegral h]
  exact n.attracts_units

theorem positional_spells (h : n.Holds d) : ∃ e, Spells d.positional e ∧ n.Holds e := by
  obtain ⟨digits, exponent⟩ := d
  obtain ⟨power, hexponent, hx⟩ := h
  simp only at hexponent hx
  by_cases hwhole : 0 ≤ exponent
  · have hpower : exponent.toNat + 1074 = power := by omega
    have hdigits : isDigits (decimalDigits digits ++ List.replicate exponent.toNat '0') = true :=
      isDigits_iff.mpr ⟨by simp [decimalDigits_ne_nil], fun _ => isDigit_of_mem_whole⟩
    rw [positional_whole digits hwhole]
    refine ⟨_, .whole hdigits, 1074, rfl, ?_⟩
    rw [digitsValue_split, digitsValue_decimalDigits, digitsValue_zeros, List.length_replicate, Nat.add_zero,
      Nat.mul_assoc, ← Nat.pow_add, hpower]
    exact hx
  · obtain ⟨whole, fraction, htext, hne, hdigits, hfraction, hlength, hvalue⟩ :=
      positional_point digits (Int.not_le.mp hwhole)
    have hne' : fraction ≠ [] := by
      rw [← List.length_pos_iff, hlength]
      omega
    rw [htext]
    refine ⟨_, .point (isDigits_iff.mpr ⟨hne, hdigits⟩) (isDigits_iff.mpr ⟨hne', hfraction⟩), power, ?_, ?_⟩
    · simp only [hlength]
      omega
    · rwa [hvalue]

theorem scientific_eq (d : Decimal) : ∃ text, Spells text ⟨d.digits, 1 - (decimalDigits d.digits).length⟩ ∧
    d.scientific ['e'] = text ++
      if 0 ≤ d.leadingPower then 'e' :: decimalDigits d.leadingPower.toNat
      else 'e' :: '-' :: decimalDigits (-d.leadingPower).toNat := by
  have hvalue := digitsValue_decimalDigits d.digits
  have hdigits := isDigits_decimalDigits d.digits
  unfold Decimal.scientific
  generalize d.leadingPower = power
  generalize decimalDigits d.digits = digits at *
  match digits with
  | [] => cases hdigits
  | [c] =>
    refine ⟨[c], hvalue ▸ .whole hdigits, ?_⟩
    by_cases hpower : 0 ≤ power <;> simp [hpower]
  | first :: second :: rest =>
    simp only [isDigits, List.all_cons, Bool.and_eq_true] at hdigits
    have hpoint : Spells ([first] ++ '.' :: second :: rest) _ :=
      .point (by simp [isDigits, hdigits]) (by simp [isDigits, hdigits])
    have hplaces : (1 : Int) - (first :: second :: rest).length = -(second :: rest).length := by
      simp only [List.length_cons]
      omega
    refine ⟨_, by rw [← hvalue, hplaces]; exact hpoint, ?_⟩
    by_cases hpower : 0 ≤ power <;> simp [hpower]

theorem grains_of_isZero (h : n.isZero = true) : n.grains = 0 := by
  rw [isZero, decide_eq_true_eq] at h
  simp [grains, significand, scale, h]

theorem Holds.digits_pos (h : n.Holds d) (hpositive : 0 < n.grains) : 0 < d.digits := by
  obtain ⟨power, -, hx⟩ := h
  by_contra hzero
  rw [Nat.eq_zero_of_not_pos hzero, Nat.zero_mul] at hx
  have hmagnitude := magnitude_of_attracts_small (Nat.zero_le _) hx
  have hgrains := grains_of_isZero (n := n) (decide_eq_true hmagnitude)
  omega

theorem length_decimalDigits_le {k places : Nat} (hplaces : 0 < places) (h : k < 10 ^ places) :
    (decimalDigits k).length ≤ places :=
  Nat.toDigits_length 10 k places hplaces h

/-- The first digit of the shortest decimal is no further from the point than an exponent can say. -/
theorem leadingPower_bounds (hfinite : n.isFinite = true) (hpositive : 0 < d.digits) (h : n.Holds d) :
    -exponentLimit < d.leadingPower ∧ d.leadingPower < exponentLimit := by
  obtain ⟨power, hexponent, hx⟩ := h
  have hlimit := attracts_lt hfinite hx
  have hdigits : d.digits < 10 ^ 1474 :=
    Nat.lt_of_le_of_lt (Nat.le_mul_of_pos_right _ (Nat.pow_pos (by decide))) hlimit
  have hlength : (decimalDigits d.digits).length ≤ 1474 := length_decimalDigits_le (by decide) hdigits
  have hone := List.length_pos_iff.mpr (decimalDigits_ne_nil d.digits)
  have hpower := power_lt_of_attracts hfinite hpositive hx
  unfold Decimal.leadingPower exponentLimit
  omega

/-- The text spells a decimal in the interval of the number. -/
def SpelledBy (n : Number) (numeral : List Char) : Prop :=
  ∃ text tail d power, numeral = text ++ tail ∧ Spells text d ∧ SpellsPower tail power ∧
    n.Holds ⟨d.digits, d.exponent + power⟩

theorem Spells.spelledBy (h : Spells text d) (hheld : n.Holds d) : n.SpelledBy text :=
  ⟨text, [], d, 0, (List.append_nil text).symm, h, .none, by rwa [Int.add_zero]⟩

theorem scientific_spelledBy (hfinite : n.isFinite = true) (hpositive : 0 < n.grains) (h : n.Holds d) :
    n.SpelledBy (d.scientific ['e']) := by
  obtain ⟨hlow, hhigh⟩ := leadingPower_bounds hfinite (h.digits_pos hpositive) h
  obtain ⟨text, hspells, htext⟩ := scientific_eq d
  have hsum : 1 - ((decimalDigits d.digits).length : Int) + d.leadingPower = d.exponent := by
    unfold Decimal.leadingPower
    omega
  by_cases hpower : 0 ≤ d.leadingPower
  · rw [if_pos hpower] at htext
    refine ⟨text, _, _, _, htext, hspells, .raised (by omega), ?_⟩
    rw [Int.toNat_of_nonneg hpower, hsum]
    exact h
  · rw [if_neg hpower] at htext
    refine ⟨text, _, _, _, htext, hspells, .lowered (by omega), ?_⟩
    rw [Int.toNat_of_nonneg (by omega), Int.neg_neg, hsum]
    exact h

theorem printed_spelledBy (hfinite : n.isFinite = true) :
    ∃ text, n.printed = n.signed text ∧ n.SpelledBy text := by
  unfold printed
  by_cases hlarge : scientificFrom * unit ≤ n.grains
  · have hpositive : 0 < n.grains := Nat.lt_of_lt_of_le (Nat.mul_pos (by decide) unit_pos) hlarge
    rw [if_pos (by simp [hfinite, hlarge])]
    exact ⟨_, rfl, scientific_spelledBy hfinite hpositive (n.holds_shortest .up)⟩
  · rw [if_neg (by simp [hlarge])]
    by_cases hintegral : n.isIntegral = true
    · have hspells := Spells.whole (isDigits_decimalDigits n.whole)
      rw [digitsValue_decimalDigits] at hspells
      rw [if_pos hintegral]
      exact ⟨_, rfl, hspells.spelledBy (holds_whole hintegral)⟩
    · obtain ⟨d, hspells, hheld⟩ := positional_spells (n.holds_shortest .up)
      rw [if_neg hintegral, plain_of_not_isIntegral hfinite hintegral]
      exact ⟨_, rfl, hspells.spelledBy hheld⟩

theorem inTree_spells (h : n.IsLiteral) : ∃ d, Spells n.inTree d ∧ n.Holds d := by
  unfold inTree
  have hsigned (text : List Char) : n.signed text = text := by
    rw [signed, h.unsigned, if_neg Bool.false_ne_true]
  by_cases hintegral : n.isIntegral = true
  · have hspells := Spells.point (isDigits_decimalDigits n.whole) (rfl : isDigits ['0'] = true)
    rw [if_pos hintegral, hsigned]
    refine ⟨_, hspells, 1073, rfl, ?_⟩
    rw [digitsValue_append, digitsValue_decimalDigits, Nat.sub_self, Nat.add_zero, Nat.mul_comm 10, Nat.mul_assoc,
      ten_mul_pow, ← units_of_isIntegral hintegral]
    exact n.attracts_units
  · rw [if_neg hintegral, plain_of_not_isIntegral h.finite hintegral, hsigned]
    exact positional_spells (n.holds_shortest .up)

/-- A spelled number is read as itself. -/
theorem numeral?_of_spelledBy (hfinite : n.isFinite = true) (h : n.SpelledBy text) :
    numeral? (n.signed text) = some n := by
  obtain ⟨front, tail, d, power, rfl, hspells, hpower, hheld⟩ := h
  obtain ⟨c, rest, hfront, hc⟩ := hspells.written.exists_cons
  have hread : decimal? n.isNegative (front ++ tail) = some n := by
    rw [decimal?_of_spells n.isNegative hspells hpower, ofDecimal_of_holds n.isNegative hfinite hheld,
      n.ofMagnitude_magnitude]
  rw [hfront, List.cons_append] at hread ⊢
  rw [numeral?_signed hc, hread]

theorem not_blank_of_spelledBy (h : n.SpelledBy text) : ∀ c ∈ n.signed text, isBlank c = false := by
  obtain ⟨front, tail, d, power, rfl, hspells, hpower, -⟩ := h
  intro c hc
  have hmem : c = '-' ∨ c ∈ front ++ tail := by
    unfold signed at hc
    split at hc
    · exact List.mem_cons.mp hc
    · exact .inr hc
  rcases hmem with rfl | hmem
  · decide
  · rcases List.mem_append.mp hmem with hmem | hmem
    · rcases hspells.written.mem hmem with hdigit | rfl
      · exact isBlank_of_isDigit hdigit
      · decide
    · rcases hpower.mem hmem with hdigit | rfl | rfl
      · exact isBlank_of_isDigit hdigit
      · decide
      · decide

theorem printed_of_not_isFinite (h : n.isFinite = false) :
    n.isNaN = true ∧ n.printed = "NaN".toList ∨ n.isNaN = false ∧ n = ofMagnitude n.isNegative infinite ∧
      n.printed = n.signed "inf".toList := by
  have hplain : n.printed = n.plain := by simp [printed, isIntegral, h]
  rw [isFinite, decide_eq_false_iff_not] at h
  cases hnan : n.isNaN with
  | true => exact .inl ⟨rfl, by rw [hplain, plain, hnan]; rfl⟩
  | false =>
    have hmagnitude : n.magnitude = infinite := by
      rw [isNaN, decide_eq_false_iff_not] at hnan
      omega
    have hinfinite : n.isInfinite = true := decide_eq_true hmagnitude
    refine .inr ⟨rfl, ?_, ?_⟩
    · rw [← hmagnitude, n.ofMagnitude_magnitude]
    · simp [hplain, plain, hnan, hinfinite]

theorem numeral?_printed (n : Number) :
    ∃ m, numeral? (trimBlank n.printed) = some m ∧ if n.isNaN = true then m.isNaN = true else m = n := by
  cases hfinite : n.isFinite with
  | true =>
    obtain ⟨text, htext, hspelled⟩ := printed_spelledBy hfinite
    have hnan : ¬n.isNaN = true := by
      simp only [isFinite, isNaN, decide_eq_true_eq] at hfinite ⊢
      omega
    refine ⟨n, ?_, by rw [if_neg hnan]⟩
    rw [htext, trimBlank_of_not_blank (not_blank_of_spelledBy hspelled), numeral?_of_spelledBy hfinite hspelled]
  | false =>
    rcases printed_of_not_isFinite hfinite with ⟨hnan, htext⟩ | ⟨hnan, hn, htext⟩
    · refine ⟨nan, ?_, by rw [if_pos hnan]; rfl⟩
      rw [htext]
      rfl
    · refine ⟨n, ?_, by rw [if_neg (Bool.eq_false_iff.mp hnan)]⟩
      rw [htext, signed]
      conv_rhs => rw [hn]
      cases n.isNegative <;> rfl

theorem Spells.lexical (h : Spells text d) :
    Lexical (.token (.number (ofDecimal false d.digits d.exponent))) text := by
  cases h with
  | whole hwhole =>
    have hlexical := Lexical.whole hwhole
    rwa [ofDigits_eq, List.append_nil] at hlexical
  | point hwhole hfraction =>
    have hlexical := Lexical.decimal hwhole hfraction
    rwa [ofDigits_eq, Int.zero_sub] at hlexical

end Number

theorem Token.scan_of_lexical {kind : Kind} {text : List Char} (h : Lexical (.token kind) text) (hline : '\n' ∉ text) :
    scan (String.ofList text) = [.ok ⟨kind, String.ofList text, 1⟩, .ok ⟨.endOfInput, "", 1⟩] := by
  have hmunched := Munched.cons (h.first (.inl rfl)) .nil
  rw [List.append_nil] at hmunched
  have hnewlines : Lexeme.newlines text = 0 := List.count_eq_zero.mpr hline
  rw [scan, String.toList_ofList, ← hmunched.unique]
  simp [Lexeme.items, Lexeme.item?, hnewlines]

/-- Numbers survive being printed and read back, and the text that a syntax tree shows for a literal is scanned as
this literal and nothing else. -/
theorem Number.texts_read_back (n : Number) :
    (∃ m, parseNumber (.string (String.ofList n.printed)) = .ok (.number m) ∧
      if n.isNaN = true then m.isNaN = true else m = n) ∧
    (n.isFinite = true → n.isNegative = false →
      Token.scan (Expr.literal (.number n)).prefixForm =
        [.ok ⟨.number n, (Expr.literal (.number n)).prefixForm, 1⟩, .ok ⟨.endOfInput, "", 1⟩]) := by
  constructor
  · obtain ⟨m, hread, hm⟩ := n.numeral?_printed
    refine ⟨m, ?_, hm⟩
    simp only [parseNumber, String.toList_ofList, hread]
  · intro hfinite hunsigned
    obtain ⟨d, hspells, hheld⟩ := inTree_spells ⟨hfinite, hunsigned⟩
    have hlexical := hspells.lexical
    rw [ofDecimal_of_holds false hfinite hheld, ← hunsigned, n.ofMagnitude_magnitude] at hlexical
    refine Token.scan_of_lexical hlexical fun hmem => ?_
    rcases hspells.written.mem hmem with hdigit | hpoint
    · exact absurd hdigit (by decide)
    · exact absurd hpoint (by decide)

def sextillion : Number := ⟨0x444b1ae4d6e2ef50⟩

theorem Number.texts_read_back_sextillion :
    sextillion.isFinite = true ∧ sextillion.isNegative = false ∧ sextillion.printed = "1e21".toList ∧
      parseNumber (.string "1e21") = .ok (.number sextillion) ∧
      (Expr.literal (.number sextillion)).prefixForm = "1000000000000000000000.0" ∧
      Token.scan "1000000000000000000000.0" =
        [.ok ⟨.number sextillion, "1000000000000000000000.0", 1⟩, .ok ⟨.endOfInput, "", 1⟩] := by
  have hprinted : sextillion.printed = "1e21".toList := by decide +kernel
  have htree : (Expr.literal (.number sextillion)).prefixForm = "1000000000000000000000.0" := by decide +kernel
  obtain ⟨⟨m, hread, hm⟩, hscan⟩ := texts_read_back sextillion
  rw [if_neg (by decide)] at hm
  rw [hprinted, String.ofList_toList, hm] at hread
  have hscan := hscan (by decide) (by decide)
  rw [htree] at hscan
  exact ⟨by decide, by decide, hprinted, hread, htree, hscan⟩

end LoxLang
