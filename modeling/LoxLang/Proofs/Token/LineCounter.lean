import LoxLang.Proofs.Token.Bytewise
import LoxLang.Proofs.Token.Reading

/-!
The line counter of the scanner.

The scanner counts an end of line where it passes over it: between two lexemes, or inside a string. A comment
stops in front of the one that ends it. So behind every span the counter has counted all that lie before it,
each of them once, and this is the line that an item carries.
-/

set_option autoImplicit false

namespace LoxLang

open Lexeme

namespace ByteScanner

def passSpan (s : ByteScanner) : Option ByteScanner := do
  return (← s.restart.scanLexeme).2

def passSpans : Nat → ByteScanner → Option ByteScanner
  | 0, s => some s
  | count + 1, s => do passSpans count (← s.passSpan)

def asked : Nat → ByteScanner → Option ByteScanner
  | 0, s => some s
  | count + 1, s => do asked count (← s.next s.passes).2

/-- Between two spans of its source text the scanner has counted the ends of lines before it. -/
structure Counts (s : ByteScanner) (before text : List Char) : Prop where
  stands : s.restart.Stands before [] text
  line : s.line = 1 + newlines before

end ByteScanner

/-- An item of a source text that has been read up to the end of the span of the item. -/
structure Counted (read rest : List Char) (item : Except Diagnostic Token) : Prop where
  line : StandsOn item (1 + newlines read)
  string : ∀ contents lexeme line, item = .ok ⟨.string contents, lexeme, line⟩ →
    ∃ before, read = before ++ '"' :: contents.toList ++ ['"'] ∧
      line = 1 + newlines (before ++ '"' :: contents.toList)
  unclosed : ∀ line, item = .error (.lexical line .unterminatedString) → rest = []
  ended : ∀ t, item = .ok t → t.kind = .endOfInput → rest = []

theorem Lexical.text_of_string {contents : String} {w : List Char}
    (h : Lexical (.token (.string contents)) w) : w = '"' :: contents.toList ++ ['"'] := by
  cases h with
  | string hquote => simp

theorem First.text_of_string {l : Lexeme} {rest : List Char} {contents : String} (h : First l rest)
    (hform : l.form = .token (.string contents)) : l.text = '"' :: contents.toList ++ ['"'] := by
  cases h with
  | longest hl _ => exact (hform ▸ hl).text_of_string
  | stray | unclosed => cases hform

theorem First.rest_of_unclosed {l : Lexeme} {rest : List Char} (h : First l rest)
    (hform : l.form = .unclosed) : rest = [] := by
  cases h with
  | longest hl _ =>
    rw [hform] at hl
    cases hl
  | stray => cases hform
  | unclosed => rfl

namespace ByteScanner

namespace Counts

variable {s : ByteScanner} {before text : List Char}

theorem leaves {c : Char} (h : s.Counts before (c :: text)) :
    (s.restart.leaves (split c text).1).2.Counts (before ++ (split c text).1.text) (split c text).2 := by
  obtain ⟨w, htext, hparts⟩ := split_parts c text
  have hread : (s.restart.after (split c text).1.text).Stands before ([] ++ (split c text).1.text)
      (split c text).2 := h.stands.after (by rw [htext, List.cons_append, ← hparts])
  have hline : s.line + newlines (split c text).1.text =
      1 + newlines (before ++ (split c text).1.text) := by
    rw [h.line, newlines_append, Nat.add_assoc]
  rw [ByteScanner.leaves]
  cases (split c text).1.form <;> exact ⟨hread.restart, hline⟩

theorem passSpan {c : Char} (h : s.Counts before (c :: text)) :
    ∃ s', s.passSpan = some s' ∧ s'.Counts (before ++ (split c text).1.text) (split c text).2 := by
  refine ⟨_, ?_, h.leaves⟩
  rw [ByteScanner.passSpan, h.stands.scanLexeme]
  rfl

theorem passSpans (h : s.Counts before text) (count : Nat) (hcount : count ≤ (ofText text).length) :
    ∃ s', s.passSpans count = some s' ∧
      s'.Counts (before ++ ((ofText text).take count).flatMap Lexeme.text)
        (((ofText text).drop count).flatMap Lexeme.text) := by
  induction count generalizing s before text with
  | zero =>
    refine ⟨s, rfl, ?_⟩
    rw [List.take_zero, List.drop_zero, flatMap_ofText, List.flatMap_nil, List.append_nil]
    exact h
  | succ count ih =>
    cases text with
    | nil => exact absurd hcount (Nat.not_succ_le_zero count)
    | cons c text =>
      obtain ⟨s₁, hspan, hnext⟩ := h.passSpan
      rw [ofText_cons, List.length_cons] at hcount
      obtain ⟨s', hspans, hbehind⟩ := ih hnext (Nat.le_of_succ_le_succ hcount)
      refine ⟨s', ?_, ?_⟩
      · rw [ByteScanner.passSpans, hspan]
        exact hspans
      · rw [ofText_cons, List.take_succ_cons, List.drop_succ_cons, List.flatMap_cons, ← List.append_assoc]
        exact hbehind

theorem place (h : s.Counts before text) : min s.position s.bytes.length = (encoded before).length := by
  have hplace : s.position = (encoded before).length := h.stands.start
  rw [Nat.min_eq_left (by rw [h.stands.length_bytes]; exact Nat.le_add_right _ _), hplace]

/-- Asked for an item, the scanner stops behind the span of the item that a reader answers. -/
theorem next (h : s.Counts before text) {passes : Nat} (hpasses : text.length < passes) :
    ∃ s' read rest, text = read ++ rest ∧ s.next passes = some (some (nextItem s.line text).1, s') ∧
      min s'.position s'.bytes.length = (encoded (before ++ read)).length ∧
      Counted (before ++ read) rest (nextItem s.line text).1 ∧ s'.line = (nextItem s.line text).2.2 ∧
      ((nextItem s.line text).2.1 = none ∧ s'.bytes.length < s'.position ∨
        (nextItem s.line text).2.1 = some rest ∧ s'.Counts (before ++ read) rest) := by
  induction text using ofText_induction generalizing s before passes with
  | nil =>
    obtain ⟨passes, rfl⟩ := Nat.exists_eq_succ_of_ne_zero (Nat.ne_zero_of_lt hpasses)
    have hend : s.position = s.bytes.length := by simpa using h.stands.length_bytes.symm
    have hplace : s.position = (encoded before).length := h.stands.start
    rw [ByteScanner.next, if_neg (Nat.not_lt_of_le (Nat.le_of_eq hend)), if_pos hend, nextItem]
    -- The end is answered by one more step, after which the position is behind the text for good.
    refine ⟨s.pass 1 0, [], [], rfl, rfl, ?_, ?_, rfl, .inl ⟨rfl, ?_⟩⟩
    · rw [List.append_nil, ← hplace, hend]
      exact Nat.min_eq_right (Nat.le_succ_of_le (Nat.le_of_eq hend.symm))
    · rw [List.append_nil, h.line]
      exact ⟨.inl ⟨_, rfl, rfl⟩, by simp, by simp, fun _ _ _ => rfl⟩
    · exact Nat.lt_succ_of_le (Nat.le_of_eq hend.symm)
  | cons c text ih =>
    obtain ⟨passes, rfl⟩ := Nat.exists_eq_succ_of_ne_zero (Nat.ne_zero_of_lt hpasses)
    rw [List.length_cons] at hpasses
    obtain ⟨w, htext, hparts⟩ := split_parts c text
    have hwhole : c :: text = (split c text).1.text ++ (split c text).2 := by
      rw [htext, List.cons_append, ← hparts]
    have hshort := split_length_le c text
    have hfirst := first_split c text
    have hend := form_split_ne c text
    have hbehind := h.leaves
    have hbefore : s.position < s.bytes.length := by
      have hlength := h.stands.length_bytes
      have hwidth := length_le_encoded (c :: text)
      rw [List.length_cons] at hwidth
      omega
    rw [ByteScanner.next, if_neg (Nat.not_lt_of_lt hbefore), if_neg (Nat.ne_of_lt hbefore)]
    simp only [Option.bind_eq_bind, h.stands.scanLexeme, Option.bind_some]
    rw [nextItem, item?]
    generalize (split c text).1 = l at hwhole hfirst hend hbehind ⊢
    generalize (split c text).2 = rest at hwhole hfirst hshort hbehind ih ⊢
    rw [ByteScanner.leaves] at hbehind ⊢
    have hline : s.line + newlines l.text = 1 + newlines (before ++ l.text) := by
      rw [h.line, newlines_append, Nat.add_assoc]
    have hlexeme : (s.restart.after l.text).lexeme = some (String.ofList l.text) :=
      (h.stands.after hwhole).lexeme
    -- A blank span has no item: the scanner goes on with the next span. The others are answered.
    cases hform : l.form with
    | blank =>
      simp only [hform] at hbehind
      have hfew : rest.length < passes := by omega
      obtain ⟨s', read, last, hrest, hnext, hplace, hcounted, hline, hreader⟩ := ih hbehind hfew
      rw [List.append_assoc] at hplace hcounted hreader
      exact ⟨s', l.text ++ read, last, by rw [hwhole, hrest, List.append_assoc], hnext, hplace, hcounted, hline,
        hreader⟩
    | token kind =>
      simp only [hform] at hbehind
      have hpending : ((s.restart.after l.text).found kind).pending = some kind := rfl
      have hfound : ((s.restart.after l.text).found kind).lexeme = some (String.ofList l.text) := hlexeme
      simp only [hpending, hfound, Option.bind_some]
      have hcounts : ByteScanner.Counts { (s.restart.after l.text).found kind with pending := none }
          (before ++ l.text) rest := ⟨hbehind.stands, hbehind.line⟩
      refine ⟨_, l.text, rest, hwhole, rfl, hcounts.place, ⟨?_, ?_, ?_, ?_⟩, rfl, .inr ⟨rfl, hcounts⟩⟩
      · exact .inl ⟨_, rfl, hline⟩
      · rintro contents lexeme line ⟨⟩
        have hquoted := hfirst.text_of_string hform
        refine ⟨before, by rw [hquoted, List.append_assoc], ?_⟩
        rw [hline, hquoted, ← List.append_assoc, newlines_append]
        rfl
      · rintro line ⟨⟩
      · rintro t ⟨⟩ hkind
        exact absurd (hform.trans (congrArg Form.token hkind)) hend
    | stray d =>
      simp only [hform] at hbehind
      refine ⟨_, l.text, rest, hwhole, rfl, hbehind.place, ⟨?_, ?_, ?_, ?_⟩, rfl, .inr ⟨rfl, hbehind⟩⟩
      · rw [← hline]
        exact .inr ⟨_, rfl⟩
      · rintro contents lexeme line ⟨⟩
      · rintro line ⟨⟩
      · rintro t ⟨⟩
    | unclosed =>
      simp only [hform] at hbehind
      refine ⟨_, l.text, rest, hwhole, rfl, hbehind.place, ⟨?_, ?_, ?_, ?_⟩, rfl, .inr ⟨rfl, hbehind⟩⟩
      · rw [← hline]
        exact .inr ⟨_, rfl⟩
      · rintro contents lexeme line ⟨⟩
      · exact fun _ _ => hfirst.rest_of_unclosed hform
      · rintro t ⟨⟩

end Counts

inductive ReadTo (source : List Char) (s : ByteScanner) : Reader → Prop
  | between {before text : List Char} :
    source = before ++ text → s.Counts before text → ReadTo source s ⟨some text, s.line⟩
  | ended {line : Nat} : s.bytes.length < s.position → ReadTo source s ⟨none, line⟩

namespace ReadTo

variable {source : List Char} {s : ByteScanner} {r : Reader}

theorem next (h : s.ReadTo source r) :
    ∃ s', s.next s.passes = some (r.next.1, s') ∧ s'.ReadTo source r.next.2 := by
  cases h with
  | @between before text hsource hcounts =>
    obtain ⟨s', read, rest, htext, hnext, -, -, hline, ⟨hrest, hplace⟩ | ⟨hrest, hbehind⟩⟩ :=
      hcounts.next hcounts.stands.length_lt_passes
    · refine ⟨s', hnext, ?_⟩
      change s'.ReadTo source ⟨(nextItem s.line text).2.1, (nextItem s.line text).2.2⟩
      rw [hrest]
      exact .ended hplace
    · refine ⟨s', hnext, ?_⟩
      change s'.ReadTo source ⟨(nextItem s.line text).2.1, (nextItem s.line text).2.2⟩
      rw [hrest, ← hline]
      exact .between (by rw [hsource, htext, List.append_assoc]) hbehind
  | ended hplace => exact ⟨s, if_pos hplace, .ended hplace⟩

theorem asked (h : s.ReadTo source r) (count : Nat) :
    ∃ s', s.asked count = some s' ∧ s'.ReadTo source ((fun r => r.next.2)^[count] r) := by
  induction count generalizing s r with
  | zero => exact ⟨s, rfl, h⟩
  | succ count ih =>
    obtain ⟨s₁, hnext, hread⟩ := h.next
    obtain ⟨s', hasked, hend⟩ := ih hread
    refine ⟨s', ?_, hend⟩
    rw [ByteScanner.asked, hnext]
    exact hasked

end ReadTo

theorem fresh_counts (source : String) : (fresh source).Counts [] source.toList :=
  ⟨⟨String.ofList_toList.symm, rfl, rfl⟩, rfl⟩

end ByteScanner

theorem First.of_comment {w rest : List Char} (h : First ⟨.blank, '/' :: '/' :: w⟩ rest) :
    '\n' ∉ w ∧ (rest = [] ∨ ∃ more, rest = '\n' :: more) := by
  cases h with
  | longest hl hmost =>
    have hclean : '\n' ∉ w := by
      cases hl with
      | comment hclean => exact hclean
    refine ⟨hclean, ?_⟩
    cases rest with
    | nil => exact .inl rfl
    | cons c more =>
      -- Any other character would make the comment longer.
      by_cases hc : c = '\n'
      · exact .inr ⟨more, by rw [hc]⟩
      · have hlonger : Lexical .blank ('/' :: '/' :: (w ++ [c])) :=
          .comment (by simp [hclean, Ne.symm hc])
        have hle := hmost _ _ more hlonger (by simp)
        simp at hle

theorem Munched.part {text : List Char} {before after : List Lexeme} {l : Lexeme}
    (h : Munched text (before ++ l :: after)) : ∃ rest, First l rest ∧ after = Lexeme.ofText rest := by
  induction before generalizing text with
  | nil =>
    cases h with
    | cons hfirst hrest => exact ⟨_, hfirst, hrest.unique⟩
  | cons b before ih =>
    cases h with
    | cons hfirst hrest => exact ih hrest

namespace Lexeme

theorem StandsOn.unique {item : Except Diagnostic Token} {i j : Nat} (hi : StandsOn item i)
    (hj : StandsOn item j) : i = j := by
  rcases hi with ⟨t, rfl, rfl⟩ | ⟨cause, rfl⟩ <;> rcases hj with ⟨u, h, rfl⟩ | ⟨other, h⟩ <;>
    cases h <;> rfl

theorem items_ordered (line : Nat) (ls : List Lexeme) :
    (items line ls).Pairwise fun a b => ∀ i j, StandsOn a i → StandsOn b j → i ≤ j := by
  induction ls generalizing line with
  | nil => simp [items]
  | cons l rest ih =>
    rw [items]
    cases hitem : l.item? (line + newlines l.text) with
    | none => exact ih _
    | some item =>
      refine List.pairwise_cons.mpr ⟨fun other hother i j hi hj => ?_, ih _⟩
      obtain ⟨k, hlow, -, hk⟩ := standsOn_of_mem_items hother
      rw [hi.unique (item?_standsOn hitem), hj.unique hk]
      exact hlow

end Lexeme

/-- Every item of a source text carries the line on which its span ends: one more than the ends of lines in
front of the place at which the scanner stops for it. Its counter is right behind every span, and the end of
the line behind a comment is a span of its own. No line is less than one before it. -/
theorem Token.lines_exact (source : String) :
    (∀ n item, (scan source)[n]? = some item →
      ∃ s s' read rest, (ByteScanner.fresh source).asked n = some s ∧
        s.next s.passes = some (some item, s') ∧ source.toList = read ++ rest ∧
        min s'.position s'.bytes.length = (encoded read).length ∧ Counted read rest item) ∧
    (∀ n ≤ (ofText source.toList).length,
      ∃ s, (ByteScanner.fresh source).passSpans n = some s ∧
        s.position = (encoded (((ofText source.toList).take n).flatMap Lexeme.text)).length ∧
        s.line = 1 + newlines (((ofText source.toList).take n).flatMap Lexeme.text)) ∧
    (∀ before w after, ofText source.toList = before ++ ⟨.blank, '/' :: '/' :: w⟩ :: after →
      '\n' ∉ w ∧ (after = [] ∨ ∃ more, after = ⟨.blank, ['\n']⟩ :: more)) ∧
    (scan source).Pairwise fun a b => ∀ i j, StandsOn a i → StandsOn b j → i ≤ j := by
  have hfresh := ByteScanner.fresh_counts source
  refine ⟨fun n item hitem => ?_, fun n hn => ?_, fun before w after hspans => ?_, items_ordered 1 _⟩
  · rw [← Reader.answer_start] at hitem
    have hread : (ByteScanner.fresh source).ReadTo source.toList (Reader.start source) := .between rfl hfresh
    obtain ⟨s, hasked, hs⟩ := hread.asked n
    rw [Reader.answer] at hitem
    generalize (fun r : Reader => r.next.2)^[n] (Reader.start source) = r at hs hitem
    cases hs with
    | @between before text hsource hcounts =>
      obtain ⟨s', read, rest, htext, hnext, hplace, hcounted, -, -⟩ :=
        hcounts.next hcounts.stands.length_lt_passes
      obtain rfl : (nextItem s.line text).1 = item := Option.some.inj hitem
      exact ⟨s, s', before ++ read, rest, hasked, hnext, by rw [hsource, htext, List.append_assoc], hplace,
        hcounted⟩
    | ended hplace => cases hitem
  · obtain ⟨s, hspans, hcounts⟩ := hfresh.passSpans n hn
    rw [List.nil_append] at hcounts
    exact ⟨s, hspans, hcounts.stands.start, hcounts.line⟩
  · have hmunched := Munched.ofText source.toList
    rw [hspans] at hmunched
    obtain ⟨rest, hfirst, rfl⟩ := hmunched.part
    obtain ⟨hclean, rfl | ⟨more, rfl⟩⟩ := hfirst.of_comment
    · exact ⟨hclean, .inl rfl⟩
    · exact ⟨hclean, .inr ⟨ofText more, by rw [ofText_cons]; rfl⟩⟩

/-- A string over two lines, behind a comment. -/
theorem Token.lines_exact_string :
    let source := "// c\n\"a\nb\""
    (scan source)[0]? = some (.ok ⟨.string "a\nb", "\"a\nb\"", 3⟩) ∧
      ∃ s s' read rest, (ByteScanner.fresh source).asked 0 = some s ∧
        s.next s.passes = some (some (.ok ⟨.string "a\nb", "\"a\nb\"", 3⟩), s') ∧
        source.toList = read ++ rest ∧ min s'.position s'.bytes.length = (encoded read).length ∧
        Counted read rest (.ok ⟨.string "a\nb", "\"a\nb\"", 3⟩) := by
  intro source
  have hscan : (scan source)[0]? = some (.ok ⟨.string "a\nb", "\"a\nb\"", 3⟩) := by decide +kernel
  exact ⟨hscan, (lines_exact source).1 0 _ hscan⟩

end LoxLang
