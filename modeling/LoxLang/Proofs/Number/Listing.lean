import LoxLang.Proofs.Number.Reading
import LoxLang.Syntax.Parsing
import LoxLang.Token.Listing

set_option autoImplicit false

namespace LoxLang

namespace Number

variable {n : Number}

theorem neighbour?_isSome {tie : Tie} {step : Nat} (h : n.attracts (n.units / step * step) = true) :
    n.neighbour? tie step ≠ none := by
  unfold neighbour?
  simp only [h]
  cases n.attracts ((n.units / step + 1) * step) with
  | false => simp
  | true =>
    simp only
    split
    · simp
    · split
      · simp
      · cases tie <;> simp

theorem le_coarsest (tie : Tie) {grid k : Nat} (hgrid : 0 < grid)
    (h : n.attracts (n.units / 10 ^ grid * 10 ^ grid) = true) (hk : grid ≤ k) : grid ≤ (n.coarsest tie k).2 := by
  induction k with
  | zero => omega
  | succ k ih =>
    rw [coarsest]
    cases hdigits : n.neighbour? tie (10 ^ (k + 1)) with
    | some digits => exact hk
    | none =>
      have hne : grid ≠ k + 1 := by
        rintro rfl
        exact neighbour?_isSome h hdigits
      exact ih (by omega)

theorem le_log2_of_le {k x : Nat} (h : 2 ^ k ≤ x) : k ≤ Nat.log2 x := by
  have hne : x ≠ 0 := Nat.pos_iff_ne_zero.mp (Nat.lt_of_lt_of_le (Nat.two_pow_pos k) h)
  exact (Nat.le_log2 hne).mpr h

theorem le_powerAbove {x : Nat} (h : 2 ^ 3567 ≤ x) : 1074 ≤ powerAbove x := by
  have hlog := le_log2_of_le h
  unfold powerAbove
  omega

theorem shortest_exponent_nonneg (hintegral : n.isIntegral = true) (hpositive : 0 < n.whole) (tie : Tie) :
    0 ≤ (n.shortest tie).exponent := by
  have hunits := units_of_isIntegral hintegral
  have hgrid : n.attracts (n.units / 10 ^ 1074 * 10 ^ 1074) = true := by
    rw [hunits, Nat.mul_div_cancel _ (Nat.pow_pos (by decide)), ← hunits]
    exact n.attracts_units
  -- The grid of the integers has a hit, the number itself, and the search starts above it.
  have hlarge : 1074 ≤ powerAbove n.units := by
    refine le_powerAbove (Nat.le_trans ?_ (hunits ▸ Nat.le_mul_of_pos_left _ hpositive))
    decide +kernel
  have hpower := le_coarsest tie (by decide) hgrid hlarge
  rw [shortest_eq]
  simp only
  omega

theorem plain_of_isIntegral (hintegral : n.isIntegral = true) (hunsigned : n.isNegative = false)
    (hpositive : 0 < n.whole) : ∀ c ∈ n.plain, c.isDigit = true := by
  have hfinite : n.isFinite = true := by
    rw [isIntegral, Bool.and_eq_true] at hintegral
    exact hintegral.1
  have hzero : n.isZero = false := by
    by_contra hzero
    rw [whole, grains_of_isZero (Bool.not_eq_false _ ▸ hzero), Nat.zero_div] at hpositive
    omega
  obtain ⟨digits, power, -, hshortest⟩ := n.exists_shortest .up
  have hexponent := shortest_exponent_nonneg hintegral hpositive .up
  rw [hshortest] at hexponent
  rw [plain_of_isFinite hfinite hzero, signed, hunsigned, if_neg Bool.false_ne_true, hshortest,
    positional_whole digits hexponent]
  exact fun c hc => isDigit_of_mem_whole hc

theorem inTree_of_isIntegral (hintegral : n.isIntegral = true) (hunsigned : n.isNegative = false) :
    n.inTree = decimalDigits n.whole ++ ".0".toList := by
  rw [inTree, if_pos hintegral, signed, hunsigned, if_neg Bool.false_ne_true]

theorem inListing_of_lt (hunsigned : n.isNegative = false) (h : n.isIntegral = true → n.whole < 2 ^ 63) :
    n.inListing = n.inTree := by
  unfold inListing
  by_cases hintegral : n.isIntegral = true
  · have hsmall : (n.isIntegral && decide (n.whole < 2 ^ 63)) = true := by
      rw [hintegral, Bool.true_and, decide_eq_true (h hintegral)]
    have hsigned : (if n.isZero then id else n.signed) = id := by
      split
      · rfl
      · funext text
        rw [signed, hunsigned, if_neg Bool.false_ne_true, id_eq]
    rw [if_pos hsmall, inTree_of_isIntegral hintegral hunsigned, hsigned, id_eq]
  · rw [if_neg (by simp [hintegral]), inTree, if_neg hintegral]

theorem inListing_of_le (hunsigned : n.isNegative = false) (hintegral : n.isIntegral = true)
    (h : 2 ^ 63 ≤ n.whole) : ∀ c ∈ n.inListing, c.isDigit = true := by
  have hlarge : ¬(n.isIntegral && decide (n.whole < 2 ^ 63)) = true := by
    rw [hintegral, Bool.true_and, decide_eq_false (Nat.not_lt.mpr h)]
    exact Bool.false_ne_true
  have hpositive : 0 < n.whole := Nat.lt_of_lt_of_le (by decide) h
  rw [inListing, if_neg hlarge]
  exact plain_of_isIntegral hintegral hunsigned hpositive

end Number

theorem Lexical.isNegative_number {v : Number} {w : List Char} (h : Lexical (.token (.number v)) w) :
    v.isNegative = false := by
  cases h with
  | whole | decimal => exact Number.isNegative_ofDigits _ _ _

namespace Token

theorem isNegative_of_mem_scan {source : String} {t : Token} {v : Number} (h : .ok t ∈ scan source)
    (hkind : t.kind = .number v) : v.isNegative = false := by
  -- The end of the input is no number, so the token comes from a lexeme.
  obtain ⟨front, line, hitems⟩ := Lexeme.exists_items_eq 1 (Lexeme.ofText source.toList)
  have hfront : .ok t ∈ front := by
    rw [scan, hitems] at h
    rcases List.mem_append.mp h with h | h
    · exact h
    · obtain rfl : t = ⟨.endOfInput, "", line⟩ := by simpa using h
      cases hkind
  have hmem : .ok t ∈ (Lexeme.items 1 (Lexeme.ofText source.toList)).dropLast := by
    rwa [hitems, List.dropLast_concat]
  obtain ⟨l, hl, hform⟩ := Lexeme.form_of_mem_items hmem
  rw [hkind] at hform
  exact ((Munched.ofText source.toList).lexical hl hform).isNegative_number

/-- The expression that the parser makes of a token, wherever it comes to the token and when nothing else stands
there. -/
structure Becomes (t : Token) (e : Expr) : Prop where
  anywhere : ∀ depth (s : Parsing.State), s.current = t →
    Parsing.primary (depth + 1) s = .parsed e { s with rest := s.rest.tail }
  alone : ∀ nextId line, Expr.ofTokens nextId [t, ⟨.endOfInput, "", line⟩] = (.ok e, nextId)

theorem becomes_literal {t : Token} {v : Number} (h : t.kind = .number v) : t.Becomes (.literal (.number v)) where
  anywhere := by
    intro depth s hs
    subst hs
    rw [Parsing.primary]
    simp only [bind, Parsing.andThen, Parsing.current, h, Parsing.advance]
    rfl
  alone := by
    obtain ⟨kind, lexeme, line⟩ := t
    obtain rfl : kind = .number v := h
    exact fun _ _ => rfl

/-- A number literal is listed with the text that a syntax tree shows for it, unless it stands for an integer of
2^63 or more. The tree shows all integers with `.0`, and the listing those without a point. -/
theorem listing_matches_tree {source : String} {t : Token} {v : Number} (ht : .ok t ∈ scan source)
    (hkind : t.kind = .number v) :
    ∃ e, t.Becomes e ∧
      (t.listing = "NUMBER " ++ t.lexeme ++ " " ++ e.prefixForm ↔ (v.isIntegral = true → v.whole < 2 ^ 63)) ∧
      (v.isIntegral = true → ∃ digits, e.prefixForm = digits ++ ".0") ∧
      (v.isIntegral = true → 2 ^ 63 ≤ v.whole → '.' ∉ t.kind.valueText.toList) := by
  have hunsigned := isNegative_of_mem_scan ht hkind
  have hlisting : t.listing = "NUMBER " ++ t.lexeme ++ " " ++ String.ofList v.inListing := by
    simp [listing, hkind, Kind.name, Kind.valueText]
  have htree : (Expr.literal (.number v)).prefixForm = String.ofList v.inTree := by
    simp [Expr.prefixForm, Literal.prefixForm]
  have hvalue : t.kind.valueText.toList = v.inListing := by simp [hkind, Kind.valueText]
  have hsame : t.listing = "NUMBER " ++ t.lexeme ++ " " ++ (Expr.literal (.number v)).prefixForm ↔
      v.inListing = v.inTree := by
    rw [hlisting, htree, String.append_right_inj]
    exact ⟨fun h => String.ofList_injective h, fun h => by rw [h]⟩
  have hpoint (hintegral : v.isIntegral = true) (hlarge : 2 ^ 63 ≤ v.whole) : '.' ∉ v.inListing := fun hmem =>
    absurd (Number.inListing_of_le hunsigned hintegral hlarge _ hmem) (by decide)
  refine ⟨_, becomes_literal hkind, ?_, ?_, ?_⟩
  · rw [hsame]
    constructor
    · intro h hintegral
      -- From 2^63 on the listing has no point, and the tree always has one.
      by_contra hlarge
      refine hpoint hintegral (Nat.not_lt.mp hlarge) ?_
      rw [h, Number.inTree_of_isIntegral hintegral hunsigned]
      simp
    · exact Number.inListing_of_lt hunsigned
  · intro hintegral
    rw [htree, Number.inTree_of_isIntegral hintegral hunsigned, String.ofList_append]
    exact ⟨_, rfl⟩
  · rw [hvalue]
    exact hpoint

def roundedLiteral : Token := ⟨.number ⟨0x4340000000000000⟩, "9007199254740993", 1⟩

theorem listing_matches_tree_rounded :
    .ok roundedLiteral ∈ scan "9007199254740993" ∧ roundedLiteral.kind = .number ⟨0x4340000000000000⟩ ∧
      ∃ e, roundedLiteral.Becomes e ∧ e.prefixForm = "9007199254740992.0" ∧
        roundedLiteral.listing = "NUMBER 9007199254740993 " ++ e.prefixForm := by
  have ht : .ok roundedLiteral ∈ scan "9007199254740993" := by decide +kernel
  obtain ⟨e, he, hlisting, -⟩ := listing_matches_tree ht rfl
  have hliteral : e = .literal (.number ⟨0x4340000000000000⟩) := by
    have hsame := (he.alone 0 1).symm.trans ((becomes_literal rfl).alone 0 1)
    simpa using hsame
  exact ⟨ht, rfl, e, he, by rw [hliteral]; decide +kernel, hlisting.mpr fun _ => by decide +kernel⟩

def hugeLiteral : Token := ⟨.number ⟨0x43e0000000000000⟩, "9223372036854775808", 1⟩

/-- It is listed without a point and with other digits than in a tree. -/
theorem listing_drops_point :
    .ok hugeLiteral ∈ scan "9223372036854775808" ∧
      hugeLiteral.Becomes (.literal (.number ⟨0x43e0000000000000⟩)) ∧
      hugeLiteral.listing = "NUMBER 9223372036854775808 9223372036854776000" ∧
      (Expr.literal (.number ⟨0x43e0000000000000⟩)).prefixForm = "9223372036854775808.0" ∧
      hugeLiteral.kind.valueText ≠ (Expr.literal (.number ⟨0x43e0000000000000⟩)).prefixForm :=
  ⟨by decide +kernel, becomes_literal rfl, by decide +kernel, by decide +kernel, by decide +kernel⟩

end Token

end LoxLang
