import LoxLang.Proofs.Token.ByteScanner
import LoxLang.Proofs.Token.Lexical

/-!
Scanning bytes is scanning characters.

Between lexemes the scanner stands between characters of its source text, and every loop of it stops at one:
the tests of bytes it makes do not tell the bytes of a larger character apart. So each lexeme is the one that
is split off the text, and no step is without a result.
-/

set_option autoImplicit false

namespace LoxLang

open Lexeme

namespace Number

theorem toLower_of_isDigit {c : Char} (h : c.isDigit = true) : c.toLower = c := by
  simp only [Char.isDigit, Bool.and_eq_true, decide_eq_true_eq, UInt32.le_iff_toNat_le] at h
  refine dif_neg fun hupper => ?_
  simp only [ge_iff_le, UInt32.le_iff_toNat_le] at hupper
  simp at h hupper
  omega

theorem numeral?_of_isDigit {c : Char} (h : c.isDigit = true) (rest : List Char) :
    numeral? (c :: rest) = decimal? false (c :: rest) := by
  have hsign : splitSign (c :: rest) = (false, c :: rest) := by
    unfold splitSign
    split
    · rename_i heq
      cases heq
      exact absurd h (by decide)
    · rename_i heq
      cases heq
      exact absurd h (by decide)
    · rfl
  have hword (w : List Char) (hw : w.head?.any Char.isDigit = false) : (c :: rest).map Char.toLower ≠ w := by
    rintro rfl
    simp [toLower_of_isDigit h, h] at hw
  have hinf := hword "inf".toList (by decide)
  have hinfinity := hword "infinity".toList (by decide)
  have hnan := hword "nan".toList (by decide)
  rw [numeral?, hsign]
  simp only [hinf, hinfinity, hnan, decide_false, Bool.or_self, Bool.false_eq_true, if_false]

variable {whole fraction : List Char}

theorem decimal?_whole (hwhole : ∀ c ∈ whole, c.isDigit = true) (hne : whole ≠ []) :
    decimal? false whole = some (.ofDigits false whole [] 0) := by
  have htake : whole.takeWhile Char.isDigit = whole := List.takeWhile_eq_self_iff.mpr hwhole
  have hdrop : whole.dropWhile Char.isDigit = [] := List.dropWhile_eq_nil_iff.mpr hwhole
  simp [decimal?, htake, hdrop, hne, exponent?]

theorem decimal?_point (hwhole : ∀ c ∈ whole, c.isDigit = true) (hne : whole ≠ [])
    (hfraction : ∀ c ∈ fraction, c.isDigit = true) :
    decimal? false (whole ++ '.' :: fraction) = some (.ofDigits false whole fraction 0) := by
  have htake : (whole ++ '.' :: fraction).takeWhile Char.isDigit = whole := by
    rw [List.takeWhile_append_of_pos hwhole, List.takeWhile_cons_of_neg (by decide), List.append_nil]
  have hdrop : (whole ++ '.' :: fraction).dropWhile Char.isDigit = '.' :: fraction := by
    rw [List.dropWhile_append_of_pos hwhole, List.dropWhile_cons_of_neg (by decide)]
  have htail : fraction.takeWhile Char.isDigit = fraction := List.takeWhile_eq_self_iff.mpr hfraction
  have hend : fraction.dropWhile Char.isDigit = [] := List.dropWhile_eq_nil_iff.mpr hfraction
  simp [decimal?, htake, hdrop, htail, hend, hne, exponent?]

theorem numeral?_whole (hwhole : ∀ c ∈ whole, c.isDigit = true) (hne : whole ≠ []) :
    numeral? whole = some (.ofDigits false whole [] 0) := by
  obtain ⟨c, rest, rfl⟩ := List.exists_cons_of_ne_nil hne
  rw [numeral?_of_isDigit (hwhole c List.mem_cons_self), decimal?_whole hwhole hne]

theorem numeral?_point (hwhole : ∀ c ∈ whole, c.isDigit = true) (hne : whole ≠ [])
    (hfraction : ∀ c ∈ fraction, c.isDigit = true) :
    numeral? (whole ++ '.' :: fraction) = some (.ofDigits false whole fraction 0) := by
  obtain ⟨c, rest, rfl⟩ := List.exists_cons_of_ne_nil hne
  rw [List.cons_append, numeral?_of_isDigit (hwhole c List.mem_cons_self), ← List.cons_append,
    decimal?_point hwhole hne hfraction]

end Number

namespace ByteScanner

theorem uniform_isDigit : Uniform Char.isDigit false := by
  intro c hc
  have hval : c.val.toNat = c.toNat := rfl
  simp only [Char.isDigit, Bool.and_eq_false_iff, decide_eq_false_iff_not, UInt32.le_iff_toNat_le, hval]
  exact .inr (by simp; omega)

theorem uniform_startsWord : Uniform startsWord false := by
  intro c hc
  have hval : c.val.toNat = c.toNat := rfl
  have hline : c ≠ '_' := by
    rintro rfl
    exact absurd hc (by decide)
  simp [startsWord, Char.isAlpha, Char.isUpper, Char.isLower, UInt32.le_iff_toNat_le, hval, hline]
  omega

theorem uniform_continuesWord : Uniform continuesWord false := by
  intro c hc
  have hword := uniform_startsWord c hc
  have hdigit := uniform_isDigit c hc
  simp only [startsWord, Bool.or_eq_false_iff] at hword
  simp [continuesWord, Char.isAlphanum, hword, hdigit]

def after (s : ByteScanner) (word : List Char) : ByteScanner := s.pass (encoded word).length (newlines word)

/-- Where a scanner stands in its source text: what comes before the lexeme, what has been read of it, and
what comes next. -/
structure Stands (s : ByteScanner) (before word text : List Char) : Prop where
  source : s.source = String.ofList (before ++ word ++ text)
  start : s.start = (encoded before).length
  position : s.position = (encoded (before ++ word)).length

def leaves (s : ByteScanner) (l : Lexeme) : Option Diagnostic × ByteScanner :=
  match l.form with
  | .blank => (none, s.after l.text)
  | .token kind => (none, (s.after l.text).found kind)
  | .stray c => (some (.lexical (s.after l.text).line (.unexpectedCharacter c)), s.after l.text)
  | .unclosed => (some (.lexical (s.after l.text).line .unterminatedString), s.after l.text)

@[simp]
theorem after_after (s : ByteScanner) (word more : List Char) :
    (s.after word).after more = s.after (word ++ more) := by
  rw [after, after, after, pass_pass, encoded_append, List.length_append, newlines_append]

theorem pass_eq_after {c : Char} (hc : c.toNat < 128) (hnewline : c ≠ '\n') (s : ByteScanner) :
    s.pass 1 0 = s.after [c] := by
  have hlines : newlines [c] = 0 := by simp [newlines, hnewline]
  rw [after, hlines, encoded_cons, encode_of_lt hc]
  rfl

theorem newlines_takeWhile {test : Char → Bool} (h : test '\n' = false) (text : List Char) :
    newlines (text.takeWhile test) = 0 :=
  List.count_eq_zero.mpr fun hmem => by
    rw [List.mem_takeWhile_imp hmem] at h
    cases h

namespace Stands

variable {s : ByteScanner} {before word text : List Char}

theorem bytes (h : s.Stands before word text) : s.bytes = encoded (before ++ word ++ text) := by
  rw [ByteScanner.bytes, h.source, bytesOf_ofList]

theorem ahead (h : s.Stands before word text) : s.ahead = encoded text := by
  rw [ByteScanner.ahead, h.bytes, h.position, encoded_append (before ++ word), List.drop_left]

theorem after {more rest : List Char} (h : s.Stands before word text) (htext : text = more ++ rest) :
    (s.after more).Stands before (word ++ more) rest where
  source := by
    rw [← List.append_assoc, List.append_assoc _ more, ← htext, ← h.source]
    rfl
  start := h.start
  position := by
    rw [← List.append_assoc, encoded_append _ more, List.length_append, ← h.position]
    rfl

theorem ahead_lt (s : ByteScanner) : s.ahead.length < s.passes := by
  rw [length_ahead, passes]
  omega

theorem lexeme (h : s.Stands before word text) : s.lexeme = some (String.ofList word) := by
  rw [ByteScanner.lexeme, h.source, h.start, h.position, slice?_ofList]

theorem atEnd (h : s.Stands before word text) : s.atEnd = decide (text = []) := by
  rw [atEnd_eq, h.ahead, decide_eq_decide]
  cases text with
  | nil => simp
  | cons c text => simp [String.utf8EncodeChar_ne_nil]

theorem peek (h : s.Stands before word text) {test : Char → Bool} (htest : Uniform test false)
    (hzero : test (asChar 0) = false) :
    ∃ byte, s.peek = some byte ∧ test (asChar byte) = text.head?.any test :=
  ⟨_, peek_eq s, h.ahead ▸ htest.headD_encoded hzero text⟩

theorem skipWhile (h : s.Stands before word text) {test : Char → Bool} (htest : Uniform test false)
    (hzero : test (asChar 0) = false) (hnewline : test '\n' = false) :
    s.skipWhile test s.passes = some (s.after (text.takeWhile test)) := by
  rw [skipWhile_eq hzero (ahead_lt s), h.ahead, htest.takeWhile_encoded, ByteScanner.after,
    newlines_takeWhile hnewline]

/-- What starts with a character is read up to the first one that does not stand the test. -/
theorem skipRun {c : Char} (h : s.Stands before word (c :: text)) {test : Char → Bool}
    (htest : Uniform test false) (hzero : test (asChar 0) = false) (hnewline : test '\n' = false) :
    (s.after [c]).skipWhile test (s.after [c]).passes = some (s.after (c :: text.takeWhile test)) ∧
      (s.after (c :: text.takeWhile test)).Stands before (word ++ c :: text.takeWhile test)
        (text.dropWhile test) := by
  have hopened : (s.after [c]).Stands before (word ++ [c]) text := h.after rfl
  have hread := hopened.skipWhile htest hzero hnewline
  rw [after_after, List.singleton_append] at hread
  exact ⟨hread, h.after (by rw [List.cons_append, List.takeWhile_append_dropWhile])⟩

theorem advance {c : Char} (h : s.Stands before word (c :: text)) (hc : c.toNat < 128) :
    s.advance = some (UInt8.ofNat c.toNat, s.pass 1 0) :=
  advance_eq (h.ahead.trans (by rw [encoded_cons, encode_of_lt hc]; rfl))

theorem advance_after {c : Char} (h : s.Stands before word (c :: text)) (hc : c.toNat < 128)
    (hnewline : c ≠ '\n') : s.advance = some (UInt8.ofNat c.toNat, s.after [c]) := by
  rw [h.advance hc, pass_eq_after hc hnewline]

theorem accept (h : s.Stands before word text) {expected : Char} (hone : expected.toNat < 128)
    (hzero : expected ≠ asChar 0) (hnewline : expected ≠ '\n') :
    s.accept expected =
      some (if text.head? = some expected then (true, s.after [expected]) else (false, s)) := by
  rw [ByteScanner.accept, h.atEnd]
  cases text with
  | nil => rfl
  | cons d rest =>
    obtain ⟨byte, hpeek, hbyte⟩ := h.peek (uniform_equals hone) (decide_eq_false hzero.symm)
    rw [List.head?_cons, Option.any_some, decide_eq_decide] at hbyte
    by_cases hd : d = expected
    · subst hd
      simp [hpeek, hbyte.mpr, h.advance_after hone hnewline]
    · have hbyte : asChar byte ≠ expected := fun hsame => hd (hbyte.mp hsame)
      simp [hpeek, hbyte, hd]

theorem withEqual (h : s.Stands before word text) (two one : Mark) :
    s.withEqual two one =
      some (if text.head? = some '=' then (s.after ['=']).found (.mark two) else s.found (.mark one)) := by
  rw [ByteScanner.withEqual, h.accept (by decide) (by decide) (by decide)]
  by_cases hequal : text.head? = some '=' <;> simp [hequal]

theorem skipString (h : s.Stands before word text) :
    s.skipString s.passes = some (s.after (text.takeWhile (· ≠ '"'))) := by
  have hquote : Uniform (fun c => decide (c ≠ '"')) true := uniform_differs (by decide)
  have hnewline : Uniform (fun c => decide (c = '\n')) false := uniform_equals (by decide)
  rw [skipString_eq (ahead_lt s), h.ahead, hquote.takeWhile_encoded, countP_encoded hnewline, ByteScanner.after,
    newlines, List.count_eq_countP]
  rfl

theorem skipComment (h : s.Stands before word text) :
    s.skipComment = some (s.after (text.takeWhile (· ≠ '\n'))) := by
  have hplace : s.position ≤ s.bytes.length := by
    rw [h.position, h.bytes, encoded_append _ text, List.length_append]
    exact Nat.le_add_right _ _
  have hnewline : Uniform (fun c => decide (c ≠ '\n')) true := uniform_differs (by decide)
  rw [skipComment_eq hplace, h.ahead, hnewline.takeWhile_encoded, ByteScanner.after,
    newlines_takeWhile (by decide)]

theorem scanString (h : s.Stands before [] ('"' :: text)) :
    (s.after ['"']).scanString = some (s.leaves (splitString text).1) := by
  have hopened : (s.after ['"']).Stands before ['"'] text := h.after rfl
  have hread := hopened.skipString
  have hparts := List.takeWhile_append_dropWhile (p := fun c => decide (c ≠ '"')) (l := text)
  rw [ByteScanner.scanString, splitString]
  generalize text.takeWhile (fun c => decide (c ≠ '"')) = contents at hparts hread ⊢
  have hstopped := hopened.after hparts.symm
  rw [after_after, List.singleton_append] at hread hstopped
  simp only [hread, Option.bind_eq_bind, Option.bind_some, hstopped.atEnd]
  cases hrest : text.dropWhile (fun c => decide (c ≠ '"')) with
  | nil => rfl
  | cons quote rest =>
    have hquote := List.head?_dropWhile_not (fun c => decide (c ≠ '"')) text
    rw [hrest, List.head?_cons] at hquote
    obtain rfl : quote = '"' := by simpa using hquote
    rw [hrest] at hstopped
    have hclosed : (s.after ('"' :: contents ++ ['"'])).Stands before ('"' :: contents ++ ['"']) rest := by
      rw [← after_after]
      exact hstopped.after rfl
    have hadvance := hstopped.advance_after (by decide) (by decide)
    rw [after_after] at hadvance
    have hstop : (s.after ('"' :: contents ++ ['"'])).position.psub 1 =
        some (encoded (before ++ ['"'] ++ contents)).length := by
      rw [hclosed.position, Nat.psub_eq_some]
      simp [encode_of_lt (c := '"') (by decide)]
      omega
    have hcontents : slice? (s.after ('"' :: contents ++ ['"'])).source
        ((s.after ('"' :: contents ++ ['"'])).start + 1) (encoded (before ++ ['"'] ++ contents)).length =
        some (String.ofList contents) := by
      have hslice := slice?_ofList (before ++ ['"']) contents ('"' :: rest)
      rw [hclosed.source, hclosed.start]
      simpa [encode_of_lt (c := '"') (by decide)] using hslice
    simp only [hadvance, Option.bind_some, hstop, hcontents]
    rfl

theorem byteSlice (h : s.Stands before word text) :
    byteSlice? s.bytes s.start s.position = some (encoded word) := by
  have hsplit : s.bytes = encoded (before ++ word) ++ encoded text := by rw [h.bytes, encoded_append _ text]
  have hle : s.start ≤ s.position := by simp [h.start, h.position]
  have hlen : s.position ≤ s.bytes.length := by
    rw [hsplit, List.length_append, h.position]
    exact Nat.le_add_right _ _
  rw [byteSlice?, if_pos ⟨hle, hlen⟩, hsplit, h.position, List.take_left, h.start, encoded_append,
    List.drop_left]

theorem scanWord {c : Char} (h : s.Stands before [] (c :: text)) :
    (s.after [c]).scanWord = some ((s.after (c :: text.takeWhile continuesWord)).found
      (wordKind (c :: text.takeWhile continuesWord))) := by
  obtain ⟨hread, hstopped⟩ := h.skipRun uniform_continuesWord (by decide) (by decide)
  rw [ByteScanner.scanWord]
  simp only [hread, Option.bind_eq_bind, Option.bind_some, hstopped.byteSlice]
  rw [List.nil_append, ← bytesOf_ofList]
  simp only [bytesOf_inj]
  rw [wordKind, Keyword.ofSpelling?]
  cases Keyword.all.find? fun k => decide (k.spelling = String.ofList (c :: text.takeWhile continuesWord)) <;> rfl

theorem point (h : s.Stands before word text) :
    ∃ first second, s.peek = some first ∧ s.peekNext = some second ∧
      ((asChar first = '.' ∧ (asChar second).isDigit = true) ↔
        ∃ d rest, text = '.' :: d :: rest ∧ d.isDigit = true) := by
  obtain ⟨first, hpeek, hfirst⟩ := h.peek (uniform_equals (c := '.') (by decide)) (by decide)
  refine ⟨first, _, hpeek, peekNext_eq s, ?_⟩
  rw [h.ahead]
  cases text with
  | nil =>
    simp only [List.head?_nil, Option.any_none, decide_eq_false_iff_not] at hfirst
    simp [hfirst]
  | cons c rest =>
    rw [List.head?_cons, Option.any_some, decide_eq_decide] at hfirst
    rw [hfirst]
    by_cases hc : c = '.'
    · subst hc
      have hsecond := uniform_isDigit.headD_encoded (by decide) rest
      rw [encoded_cons, encode_of_lt (by decide), List.singleton_append, List.tail_cons, hsecond]
      cases rest with
      | nil => simp
      | cons d rest => simp
    · simp [hc]

theorem skipFraction {whole rest : List Char} (h : s.Stands before whole rest)
    (hwhole : ∀ c ∈ whole, c.isDigit = true) (hne : whole ≠ []) :
    ∃ fraction n, (numberAfter whole rest).1 = ⟨.token (.number n), whole ++ fraction⟩ ∧
      s.skipFraction = some (s.after fraction) ∧
      (s.after fraction).lexeme = some (String.ofList (whole ++ fraction)) ∧
      Number.numeral? (whole ++ fraction) = some n := by
  obtain ⟨first, second, hpeek, hnext, hpoint⟩ := h.point
  have hskip (hpresent : ∃ d more, rest = '.' :: d :: more ∧ d.isDigit = true) :
      s.skipFraction = s.advance.bind fun read => ByteScanner.skipWhile Char.isDigit s.passes read.2 := by
    rw [ByteScanner.skipFraction, hpeek, hnext]
    exact if_pos (hpoint.mpr hpresent)
  have hstay (habsent : ¬∃ d more, rest = '.' :: d :: more ∧ d.isDigit = true) :
      s.skipFraction = some (s.after []) := by
    rw [ByteScanner.skipFraction, hpeek, hnext]
    exact if_neg fun hpresent => habsent (hpoint.mp hpresent)
  have hlexeme : (s.after []).lexeme = some (String.ofList (whole ++ [])) := (h.after rfl).lexeme
  have hnumeral : Number.numeral? (whole ++ []) = some (.ofDigits false whole [] 0) := by
    rw [List.append_nil, Number.numeral?_whole hwhole hne]
  fun_cases numberAfter whole rest with
  | case1 d rest hd =>
    have hdot := h.advance_after (by decide) (by decide)
    obtain ⟨hread, hended⟩ := h.skipRun uniform_isDigit (by decide) (by decide)
    have hfraction : ∀ c ∈ (d :: rest).takeWhile Char.isDigit, c.isDigit = true :=
      fun _ h => List.mem_takeWhile_imp h
    refine ⟨'.' :: (d :: rest).takeWhile Char.isDigit, _, rfl, ?_, hended.lexeme,
      Number.numeral?_point hwhole hne hfraction⟩
    rw [hskip ⟨d, rest, rfl, hd⟩, hdot]
    exact hread
  | case2 d rest hd =>
    refine ⟨[], _, by rw [List.append_nil], hstay ?_, hlexeme, hnumeral⟩
    rintro ⟨d, rest, heq, hdigit⟩
    cases heq
    exact hd hdigit
  | case3 rest hother =>
    refine ⟨[], _, by rw [List.append_nil], hstay ?_, hlexeme, hnumeral⟩
    rintro ⟨d, rest, rfl, -⟩
    exact hother d rest rfl

theorem scanNumber {c : Char} (h : s.Stands before [] (c :: text)) (hc : c.isDigit = true) :
    ∃ n w, (split c text).1 = ⟨.token (.number n), w⟩ ∧
      (s.after [c]).scanNumber = some ((s.after w).found (.number n)) := by
  obtain ⟨hread, hstopped⟩ := h.skipRun uniform_isDigit (by decide) (by decide)
  rw [List.nil_append] at hstopped
  have hwhole : ∀ d ∈ c :: text.takeWhile Char.isDigit, d.isDigit = true := by
    intro d hd
    rcases List.mem_cons.mp hd with rfl | hd
    · exact hc
    · exact List.mem_takeWhile_imp hd
  obtain ⟨fraction, n, hnumber, hskip, hlexeme, hnumeral⟩ := hstopped.skipFraction hwhole (List.cons_ne_nil _ _)
  rw [after_after] at hskip hlexeme
  refine ⟨n, _, by rw [split_digit hc, hnumber], ?_⟩
  rw [ByteScanner.scanNumber]
  simp only [hread, hskip, hlexeme, Option.bind_eq_bind, Option.bind_some, String.toList_ofList, hnumeral]
  rfl

theorem refuse {c : Char} (h : s.Stands before [] (c :: text)) (hnewline : c ≠ '\n') {byte : UInt8}
    {more : List UInt8} (hbyte : String.utf8EncodeChar c = byte :: more) :
    (s.pass 1 0).refuse byte = some (s.leaves ⟨.stray c, [c]⟩) := by
  rw [ByteScanner.refuse]
  by_cases hc : c.toNat < 128
  · obtain ⟨rfl, -⟩ := List.cons.inj (hbyte.symm.trans (encode_of_lt hc))
    have hsmall : (UInt8.ofNat c.toNat).toNat < 128 := by
      rw [← toNat_asChar, asChar_of_lt hc]
      exact hc
    rw [if_pos hsmall, asChar_of_lt hc, pass_eq_after hc hnewline]
    rfl
  · have hlarge : ¬byte.toNat < 128 :=
      Nat.not_lt_of_le (le_of_mem_encode (Nat.le_of_not_lt hc) (by simp [hbyte]))
    have hslice : slice? s.source s.start s.bytes.length = some (String.ofList (c :: text)) := by
      have hwhole := slice?_ofList before (c :: text) []
      rw [List.append_nil] at hwhole
      rw [h.bytes, h.source, h.start, List.append_nil, hwhole]
    have hposition : s.position = s.start := by rw [h.position, h.start, List.append_nil]
    have hlines : newlines [c] = 0 := by simp [newlines, hnewline]
    have hwidth : (encoded [c]).length = c.utf8Size := by simp [String.length_utf8EncodeChar]
    have hafter : s.after [c] = { s.pass 1 0 with position := s.start + c.utf8Size } := by
      rw [ByteScanner.after, hwidth, hlines, pass, hposition]
      rfl
    rw [if_neg hlarge]
    change (slice? s.source s.start s.bytes.length).bind _ = _
    rw [hslice, leaves, hafter, Option.bind_some, String.toList_ofList]
    rfl

end Stands

theorem ofChars?_two {c d : Char} {m : Mark} (h : Mark.ofChars? [c, d] = some m) :
    d = '=' ∧ (c = '!' ∨ c = '=' ∨ c = '<' ∨ c = '>') := by
  unfold Mark.ofChars? at h
  split at h <;> simp_all

theorem ofChars?_large {c : Char} (h : 128 ≤ c.toNat) : Mark.ofChars? [c] = none := by
  refine Option.eq_none_iff_forall_not_mem.mpr fun m hm => ?_
  unfold Mark.ofChars? at hm
  split at hm
  case h_22 => cases hm
  all_goals
    rename_i heq
    cases heq
  all_goals exact absurd h (by decide)

theorem splitMark_equals {c : Char} {two one : Mark} (htwo : Mark.ofChars? [c, '='] = some two)
    (hone : Mark.ofChars? [c] = some one) (text : List Char) :
    splitMark c text = if text.head? = some '=' then (⟨.token (.mark two), [c, '=']⟩, text.drop 1)
      else (⟨.token (.mark one), [c]⟩, text) := by
  cases text with
  | nil => simp [splitMark, hone]
  | cons d text =>
    by_cases hd : d = '='
    · simp [splitMark, hd, htwo]
    · have hnone : Mark.ofChars? [c, d] = none :=
        Option.eq_none_iff_forall_not_mem.mpr fun m hm => hd (ofChars?_two hm).1
      simp [splitMark, hd, hnone, hone]

theorem splitMark_single {c : Char} (hc : ¬(c = '!' ∨ c = '=' ∨ c = '<' ∨ c = '>')) (text : List Char) :
    splitMark c text = match Mark.ofChars? [c] with
      | some mark => (⟨.token (.mark mark), [c]⟩, text)
      | none => (⟨.stray c, [c]⟩, text) := by
  cases text with
  | nil => cases h : Mark.ofChars? [c] <;> simp [splitMark, h]
  | cons d text =>
    have hnone : Mark.ofChars? [c, d] = none :=
      Option.eq_none_iff_forall_not_mem.mpr fun m hm => hc (ofChars?_two hm).2
    cases h : Mark.ofChars? [c] <;> simp [splitMark, hnone, h]

namespace Stands

variable {s : ByteScanner} {before text : List Char}

theorem scanOther {c : Char} (h : s.Stands before [] (c :: text)) {byte : UInt8} {more : List UInt8}
    (hbytes : String.utf8EncodeChar c = byte :: more) (hsplit : split c text = splitMark c text)
    (hsingle : ¬(c = '!' ∨ c = '=' ∨ c = '<' ∨ c = '>')) (hnewline : c ≠ '\n') :
    (match Mark.ofChars? [asChar byte] with
      | some mark => some (none, (s.pass 1 0).found (.mark mark))
      | none => (s.pass 1 0).refuse byte) = some (s.leaves (split c text).1) := by
  rw [hsplit, splitMark_single hsingle]
  have hmem : byte ∈ String.utf8EncodeChar c := by simp [hbytes]
  obtain hsame | ⟨hc, hchar⟩ := asChar_of_mem hmem
  · rw [hsame]
    cases hmark : Mark.ofChars? [c] with
    | some mark =>
      have hc : c.toNat < 128 := by
        by_contra hlarge
        rw [ofChars?_large (Nat.le_of_not_lt hlarge)] at hmark
        cases hmark
      rw [pass_eq_after hc hnewline]
      rfl
    | none => exact h.refuse hnewline hbytes
  · rw [ofChars?_large hc, ofChars?_large hchar]
    exact h.refuse hnewline hbytes

theorem scanSpace {c : Char} (h : isSpace c = true) (hc : c.toNat < 128) (hnewline : c ≠ '\n') :
    some (none, s.pass 1 0) = some (s.leaves (split c text).1) := by
  rw [pass_eq_after hc hnewline, split_space h]
  rfl

theorem scanEquals {c : Char} {two one : Mark} (h : s.Stands before [] (c :: text)) (hc : c.toNat < 128)
    (hnewline : c ≠ '\n') (htwo : Mark.ofChars? [c, '='] = some two) (hone : Mark.ofChars? [c] = some one)
    (hcomment : c ≠ '/') :
    ((s.pass 1 0).withEqual two one).bind (fun s => some (none, s)) = some (s.leaves (split c text).1) := by
  have hopened : (s.after [c]).Stands before [c] text := h.after rfl
  rw [pass_eq_after hc hnewline, hopened.withEqual, split_of_ofChars? hone fun h => hcomment h.1,
    splitMark_equals htwo hone, after_after]
  by_cases hequal : text.head? = some '=' <;> simp [hequal, leaves]

theorem scanSlash (h : s.Stands before [] ('/' :: text)) :
    ((s.pass 1 0).accept '/').bind (fun read =>
      if read.1 = true then read.2.skipComment.bind fun s => some (none, s)
      else some (none, read.2.found (.mark .slash))) = some (s.leaves (split '/' text).1) := by
  have hopened : (s.after ['/']).Stands before ['/'] text := h.after rfl
  rw [pass_eq_after (c := '/') (by decide) (by decide), hopened.accept (by decide) (by decide) (by decide), after_after]
  by_cases hslash : text.head? = some '/'
  · obtain ⟨rest, rfl⟩ : ∃ rest, text = '/' :: rest := by
      cases text with
      | nil => cases hslash
      | cons d rest => exact ⟨rest, by rw [Option.some.inj hslash]⟩
    have hdoubled : (s.after ['/', '/']).Stands before ['/', '/'] rest := h.after rfl
    have hskip := hdoubled.skipComment
    rw [after_after] at hskip
    simp [hskip, split_comment, leaves]
  · have hmark : Mark.ofChars? ['/'] = some .slash := rfl
    rw [split_of_ofChars? hmark fun h => hslash h.2, splitMark_single (by decide)]
    simp [hslash, hmark, leaves]

/-- Scanning takes the lexeme that is split off. -/
theorem scanLexeme {c : Char} (h : s.Stands before [] (c :: text)) :
    s.scanLexeme = some (s.leaves (split c text).1) := by
  obtain ⟨byte, more, hbytes⟩ := List.exists_cons_of_ne_nil (String.utf8EncodeChar_ne_nil (c := c))
  have hadvance : s.advance = some (byte, s.pass 1 0) :=
    advance_eq (h.ahead.trans (by rw [encoded_cons, hbytes, List.cons_append]))
  have hmem : byte ∈ String.utf8EncodeChar c := by simp [hbytes]
  -- A byte that is seen as a character of one byte is all of the character.
  have hsame {a : Char} (hbyte : asChar byte = a) (ha : a.toNat < 128) : c = a := by
    obtain hsame | ⟨-, hlarge⟩ := asChar_of_mem hmem
    · exact hsame.symm.trans hbyte
    · rw [hbyte] at hlarge
      omega
  rw [ByteScanner.scanLexeme, hadvance, Option.bind_eq_bind, Option.bind_some]
  dsimp only
  split
  · obtain rfl := hsame ‹_› (by decide)
    exact scanSpace rfl (by decide) (by decide)
  · obtain rfl := hsame ‹_› (by decide)
    exact scanSpace rfl (by decide) (by decide)
  · obtain rfl := hsame ‹_› (by decide)
    exact scanSpace rfl (by decide) (by decide)
  · obtain rfl := hsame ‹_› (by decide)
    rw [pass_pass, split_space rfl]
    rfl
  · obtain rfl := hsame ‹_› (by decide)
    exact h.scanEquals (by decide) (by decide) rfl rfl (by decide)
  · obtain rfl := hsame ‹_› (by decide)
    exact h.scanEquals (by decide) (by decide) rfl rfl (by decide)
  · obtain rfl := hsame ‹_› (by decide)
    exact h.scanEquals (by decide) (by decide) rfl rfl (by decide)
  · obtain rfl := hsame ‹_› (by decide)
    exact h.scanEquals (by decide) (by decide) rfl rfl (by decide)
  · obtain rfl := hsame ‹_› (by decide)
    exact h.scanSlash
  · obtain rfl := hsame ‹_› (by decide)
    rw [pass_eq_after (c := '"') (by decide) (by decide), split_quote]
    exact h.scanString
  · rename_i hspace hreturn htab hnewline hbang hequal hless hgreater hslash hquote
    have hne {a : Char} (hbyte : ¬asChar byte = a) (ha : a.toNat < 128) : c ≠ a := by
      rintro rfl
      obtain hsame | ⟨hlarge, -⟩ := asChar_of_mem hmem
      · exact hbyte hsame
      · omega
    have hnewline := hne hnewline (by decide)
    have hopened : (s.after [c]).Stands before [c] text := h.after rfl
    rw [uniform_isDigit.test_byte hmem, uniform_startsWord.test_byte hmem]
    by_cases hdigit : c.isDigit = true
    · have hc := uniform_isDigit.toNat_lt hdigit
      obtain ⟨n, w, hsplit, hscan⟩ := h.scanNumber hdigit
      rw [if_pos hdigit, pass_eq_after hc hnewline, hscan, hsplit]
      rfl
    by_cases hword : startsWord c = true
    · have hc := uniform_startsWord.toNat_lt hword
      rw [if_neg hdigit, if_pos hword, pass_eq_after hc hnewline, h.scanWord, split_word hword]
      rfl
    have hsplit : split c text = splitMark c text := by
      have hblank : isSpace c = false := by
        simp [isSpace, hne hspace, hne hreturn, hne htab, hnewline]
      simp [split, hblank, hne hslash, hne hquote, hdigit, hword]
    rw [if_neg hdigit, if_neg hword]
    refine h.scanOther hbytes hsplit ?_ hnewline
    rintro (hc | hc | hc | hc)
    · exact hne hbang (by decide) hc
    · exact hne hequal (by decide) hc
    · exact hne hless (by decide) hc
    · exact hne hgreater (by decide) hc

theorem restart {word : List Char} (h : s.Stands before word text) :
    s.restart.Stands (before ++ word) [] text where
  source := by
    rw [List.append_nil]
    exact h.source
  start := h.position
  position := by
    rw [List.append_nil]
    exact h.position

theorem length_bytes (h : s.restart.Stands before [] text) :
    s.bytes.length = s.position + (encoded text).length := by
  have hbytes : s.bytes = encoded (before ++ [] ++ text) := h.bytes
  have hposition : s.position = (encoded (before ++ [])).length := h.position
  rw [hbytes, hposition, encoded_append _ text, List.length_append]

theorem length_lt_passes (h : s.restart.Stands before [] text) : text.length < s.passes := by
  have hlength := h.length_bytes
  have hle := length_le_encoded text
  rw [passes]
  omega

theorem items (h : s.restart.Stands before [] text) {passes count : Nat} (hpasses : text.length < passes)
    (hcount : text.length < count) :
    (do
      match ← s.next passes with
      | (none, _) => return []
      | (some item, s) => return item :: (← s.collect count)) = some (Lexeme.items s.line (ofText text)) := by
  -- Along the lexemes of the text, at each of which the scanner stands before the rest.
  induction text using ofText_induction generalizing s before passes count with
  | nil =>
    obtain ⟨passes, rfl⟩ := Nat.exists_eq_succ_of_ne_zero (Nat.ne_zero_of_lt hpasses)
    obtain ⟨count, rfl⟩ := Nat.exists_eq_succ_of_ne_zero (Nat.ne_zero_of_lt hcount)
    have hend : s.position = s.bytes.length := by simpa using h.length_bytes.symm
    have hbehind : (s.pass 1 0).next (s.pass 1 0).passes = some (none, s.pass 1 0) :=
      if_pos (Nat.lt_succ_of_le (Nat.le_of_eq hend.symm))
    rw [next, if_neg (Nat.not_lt_of_le (Nat.le_of_eq hend)), if_pos hend]
    simp only [Option.pure_def, Option.bind_eq_bind, Option.bind_some, collect, hbehind]
    rfl
  | cons c text ih =>
    obtain ⟨passes, rfl⟩ := Nat.exists_eq_succ_of_ne_zero (Nat.ne_zero_of_lt hpasses)
    obtain ⟨count, rfl⟩ := Nat.exists_eq_succ_of_ne_zero (Nat.ne_zero_of_lt hcount)
    rw [List.length_cons] at hpasses hcount
    obtain ⟨w, htext, hparts⟩ := split_parts c text
    have hshort := split_length_le c text
    have hread : (s.restart.after (split c text).1.text).Stands before ([] ++ (split c text).1.text)
        (split c text).2 := h.after (by rw [htext, List.cons_append, ← hparts])
    have hrest := hread.restart
    have hcollect (s' : ByteScanner) (hplace : s'.restart = (s.restart.after (split c text).1.text).restart) :
        s'.collect count.succ = some (Lexeme.items s'.line (ofText (split c text).2)) :=
      ih (hplace ▸ hrest) (length_lt_passes (hplace ▸ hrest)) (by omega)
    have hbefore : s.position < s.bytes.length := by
      have hlength := h.length_bytes
      have hwidth := length_le_encoded (c :: text)
      rw [List.length_cons] at hwidth
      omega
    rw [next, if_neg (Nat.not_lt_of_lt hbefore), if_neg (Nat.ne_of_lt hbefore)]
    simp only [Option.pure_def, Option.bind_eq_bind, h.scanLexeme, Option.bind_some]
    rw [ofText_cons, Lexeme.items, leaves, item?]
    cases hform : (split c text).1.form with
    | blank => exact ih hrest (by omega) (by omega)
    | token kind =>
      have hlexeme : ((s.restart.after (split c text).1.text).found kind).lexeme =
          some (String.ofList (split c text).1.text) := hread.lexeme
      have hpending : ((s.restart.after (split c text).1.text).found kind).pending = some kind := rfl
      have htaken := hcollect
        { (s.restart.after (split c text).1.text).found kind with pending := none } rfl
      simp only [hpending, hlexeme, htaken, Option.bind_some]
      rfl
    | stray d =>
      simp only [Option.bind_some]
      rw [hcollect _ rfl]
      rfl
    | unclosed =>
      simp only [Option.bind_some]
      rw [hcollect _ rfl]
      rfl

end Stands

end ByteScanner

/-- Scanning the bytes of a source text never fails, and finds what scanning its characters does. -/
theorem Token.scanBytes_eq (source : String) : scanBytes source = some (scan source) := by
  have hbytes : bytesOf source = encoded source.toList := by
    rw [← bytesOf_ofList, String.ofList_toList]
  have hstart : (ByteScanner.fresh source).restart.Stands [] [] source.toList :=
    ⟨String.ofList_toList.symm, rfl, rfl⟩
  have hle := length_le_encoded source.toList
  exact hstart.items hstart.length_lt_passes (by rw [hbytes]; omega)

end LoxLang
