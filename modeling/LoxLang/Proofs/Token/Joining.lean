import LoxLang.Proofs.Syntax.Relabeling
import LoxLang.Proofs.Token.Genuine

set_option autoImplicit false

namespace LoxLang

theorem takeWhile_append_stop {α : Type} {p : α → Bool} {x : α} (hx : p x = false) (a b : List α) :
    (a ++ x :: b).takeWhile p = a.takeWhile p := by
  induction a with
  | nil => simp [hx]
  | cons y a ih =>
    rw [List.cons_append, List.takeWhile_cons, List.takeWhile_cons, ih]

theorem dropWhile_append_stop {α : Type} {p : α → Bool} {x : α} (hx : p x = false) (a b : List α) :
    (a ++ x :: b).dropWhile p = a.dropWhile p ++ x :: b := by
  induction a with
  | nil => simp [hx]
  | cons y a ih =>
    rw [List.cons_append, List.dropWhile_cons, List.dropWhile_cons, ih]
    split <;> rfl

namespace Lexeme

def numberAfter (whole : List Char) : List Char → Lexeme × List Char
  | '.' :: d :: rest =>
    if d.isDigit then
      (⟨.token (.number (.ofDigits false whole ((d :: rest).takeWhile Char.isDigit) 0)),
        whole ++ '.' :: (d :: rest).takeWhile Char.isDigit⟩, (d :: rest).dropWhile Char.isDigit)
    else (⟨.token (.number (.ofDigits false whole [] 0)), whole⟩, '.' :: d :: rest)
  | rest => (⟨.token (.number (.ofDigits false whole [] 0)), whole⟩, rest)

theorem splitNumber_eq (text : List Char) :
    splitNumber text = numberAfter (text.takeWhile Char.isDigit) (text.dropWhile Char.isDigit) := rfl

theorem splitNumber_digit {c : Char} (hdigit : c.isDigit) (text : List Char) :
    splitNumber (c :: text) =
      numberAfter (c :: text.takeWhile Char.isDigit) (text.dropWhile Char.isDigit) := by
  rw [splitNumber_eq, List.takeWhile_cons_of_pos hdigit, List.dropWhile_cons_of_pos hdigit]

theorem numberAfter_parts (c : Char) (whole rest : List Char) :
    ∃ w, (numberAfter (c :: whole) rest).1.text = c :: w ∧
      whole ++ rest = w ++ (numberAfter (c :: whole) rest).2 := by
  unfold numberAfter
  split
  · rename_i d rest
    split
    · refine ⟨whole ++ '.' :: (d :: rest).takeWhile Char.isDigit, rfl, ?_⟩
      rw [List.append_assoc, List.cons_append, List.takeWhile_append_dropWhile]
    · exact ⟨_, rfl, rfl⟩
  · exact ⟨_, rfl, rfl⟩

theorem numberAfter_append (whole rest more : List Char) :
    numberAfter whole (rest ++ '\n' :: more) =
      ((numberAfter whole rest).1, (numberAfter whole rest).2 ++ '\n' :: more) := by
  have hstop : Char.isDigit '\n' = false := by decide
  fun_cases numberAfter whole rest with
  | case1 d rest hd =>
    rw [List.cons_append, List.cons_append, numberAfter, if_pos hd, ← List.cons_append,
      takeWhile_append_stop hstop, dropWhile_append_stop hstop]
  | case2 d rest hd => rw [List.cons_append, List.cons_append, numberAfter, if_neg hd]
  | case3 rest h =>
    unfold numberAfter
    split
    · rename_i d after heq
      -- The point is the last character of the line, so no digit follows it.
      have hd : d = '\n' := by
        cases rest with
        | nil => simp at heq
        | cons x rest =>
          cases rest with
          | nil => simpa [eq_comm] using (List.cons.inj (List.cons.inj heq).2).1
          | cons y rest =>
            obtain rfl := (List.cons.inj heq).1
            exact absurd rfl (h y rest)
      rw [hd, hstop, heq, hd]
      rfl
    · rfl

theorem split_parts (c : Char) (text : List Char) :
    ∃ w, (split c text).1.text = c :: w ∧ text = w ++ (split c text).2 := by
  unfold split
  split
  · exact ⟨[], rfl, rfl⟩
  · split
    · exact ⟨_, rfl, (List.takeWhile_append_dropWhile).symm⟩
    · split
      · rename_i hc
        obtain rfl : c = '"' := by simpa using hc
        unfold splitString
        have hparts := List.takeWhile_append_dropWhile (p := fun c => decide (c ≠ '"')) (l := text)
        split
        · rename_i hrest
          rw [hrest] at hparts
          exact ⟨_, rfl, hparts.symm⟩
        · rename_i quote rest hrest
          rw [hrest] at hparts
          exact ⟨_, rfl, by simpa using hparts.symm⟩
      · split
        · rename_i hdigit
          obtain ⟨w, hw, hparts⟩ := numberAfter_parts c (text.takeWhile Char.isDigit)
            (text.dropWhile Char.isDigit)
          rw [splitNumber_digit hdigit]
          exact ⟨w, hw, by rw [← hparts, List.takeWhile_append_dropWhile]⟩
        · split
          · exact ⟨_, rfl, (List.takeWhile_append_dropWhile).symm⟩
          · unfold splitMark
            split
            · exact ⟨_, rfl, (List.take_append_drop 1 text).symm⟩
            · split <;> exact ⟨[], rfl, rfl⟩

theorem split_length_le (c : Char) (text : List Char) : (split c text).2.length ≤ text.length := by
  obtain ⟨w, -, htext⟩ := split_parts c text
  have hlength := congrArg List.length htext
  rw [List.length_append] at hlength
  omega

theorem ofChars?_newline (c : Char) : Mark.ofChars? [c, '\n'] = none := by
  unfold Mark.ofChars?
  split <;> simp_all

theorem splitString_append (text more : List Char)
    (h : (splitString text).1.form ≠ .unclosed) :
    splitString (text ++ more) = ((splitString text).1, (splitString text).2 ++ more) := by
  unfold splitString at h ⊢
  rw [List.takeWhile_append, List.dropWhile_append]
  have hparts := List.takeWhile_append_dropWhile (p := fun c => decide (c ≠ '"')) (l := text)
  split at h
  · exact absurd rfl h
  · rename_i quote rest hrest
    rw [hrest] at hparts ⊢
    have hshort : (text.takeWhile (· ≠ '"')).length ≠ text.length := by
      have := congrArg List.length hparts
      simp only [List.length_append, List.length_cons] at this
      omega
    rw [if_neg hshort]
    rfl

theorem splitMark_append (c : Char) (text more : List Char) :
    splitMark c (text ++ '\n' :: more) =
      ((splitMark c text).1, (splitMark c text).2 ++ '\n' :: more) := by
  cases text with
  | nil =>
    simp only [splitMark, List.nil_append, List.take_succ_cons, List.take_zero, List.take_nil,
      ofChars?_newline, List.drop_nil]
    cases Mark.ofChars? [c] <;> rfl
  | cons d text =>
    simp only [splitMark, List.cons_append, List.take_succ_cons, List.take_zero, List.drop_succ_cons,
      List.drop_zero]
    cases Mark.ofChars? [c, d] with
    | some mark => rfl
    | none => cases Mark.ofChars? [c] <;> rfl

/-- A lexeme ends at the end of the line, unless it is a string. -/
theorem split_append (c : Char) (text more : List Char) (h : (split c text).1.form ≠ .unclosed) :
    split c (text ++ '\n' :: more) = ((split c text).1, (split c text).2 ++ '\n' :: more) := by
  have hhead : (text ++ '\n' :: more).head? = some '/' ↔ text.head? = some '/' := by
    cases text <;> simp
  unfold split at h ⊢
  simp only [hhead]
  split
  · rfl
  · split
    · rw [takeWhile_append_stop (by decide), dropWhile_append_stop (by decide)]
    · split
      · rename_i hspace hcomment hquote
        rw [if_neg hspace, if_neg hcomment, if_pos hquote] at h
        exact splitString_append text _ h
      · split
        · rename_i hdigit
          rw [splitNumber_digit hdigit, splitNumber_digit hdigit,
            takeWhile_append_stop (by decide), dropWhile_append_stop (by decide), numberAfter_append]
        · split
          · rw [takeWhile_append_stop (by decide), dropWhile_append_stop (by decide)]
          · exact splitMark_append c text more

theorem cut_succ (count : Nat) (c : Char) (text : List Char) :
    cut (count + 1) (c :: text) = (split c text).1 :: cut count (split c text).2 := rfl

theorem cut_of_le {count : Nat} {text : List Char} (h : text.length ≤ count) :
    cut count text = ofText text := by
  unfold ofText
  induction count using Nat.strongRecOn generalizing text with
  | ind count ih =>
    cases text with
    | nil => cases count <;> rfl
    | cons c text =>
      have hrest := split_length_le c text
      cases count with
      | zero => simp at h
      | succ count =>
        rw [List.length_cons] at h ⊢
        rw [cut_succ, cut_succ, ih count (by omega) (by omega), ih text.length (by omega) hrest]

theorem ofText_cons (c : Char) (text : List Char) :
    ofText (c :: text) = (split c text).1 :: ofText (split c text).2 := by
  rw [ofText, List.length_cons, cut_succ, cut_of_le (split_length_le c text)]

theorem ofText_induction {P : List Char → Prop} (nil : P [])
    (cons : ∀ c text, P (split c text).2 → P (c :: text)) (text : List Char) : P text := by
  induction hlength : text.length using Nat.strongRecOn generalizing text with
  | ind length ih =>
    cases text with
    | nil => exact nil
    | cons c text =>
      have hrest := split_length_le c text
      simp only [List.length_cons] at hlength
      exact cons c text (ih _ (by omega) _ rfl)

theorem flatMap_ofText (text : List Char) : (ofText text).flatMap Lexeme.text = text := by
  induction text using ofText_induction with
  | nil => rfl
  | cons c text ih =>
    obtain ⟨w, hw, htext⟩ := split_parts c text
    rw [ofText_cons, List.flatMap_cons, ih, hw, List.cons_append, ← htext]

/-- A text is cut up in the same way when lines follow it, unless it ends in a string. -/
theorem ofText_append (text more : List Char) (h : ∀ l ∈ ofText text, l.form ≠ .unclosed) :
    ofText (text ++ '\n' :: more) = ofText text ++ ⟨.blank, ['\n']⟩ :: ofText more := by
  induction text using ofText_induction with
  | nil => rw [List.nil_append, ofText_cons]; rfl
  | cons c text ih =>
    rw [ofText_cons] at h ⊢
    have hfirst := h _ List.mem_cons_self
    rw [List.cons_append, ofText_cons, split_append c text more hfirst,
      ih fun l hl => h l (List.mem_cons_of_mem _ hl), List.cons_append]

theorem newlines_append (a b : List Char) : newlines (a ++ b) = newlines a + newlines b :=
  List.count_append

def relabelItem (ρ : Relabeling) : Except Diagnostic Token → Except Diagnostic Token
  | .ok t => .ok (t.relabel ρ)
  | .error d => .error (d.relabel ρ)

theorem item?_relabel (φ : Nat → Nat) (l : Lexeme) (line : Nat) :
    l.item? (φ line) = (l.item? line).map (relabelItem (.ofLines φ)) := by
  unfold item?
  cases l.form <;> rfl

theorem items_add (line n : Nat) (ls : List Lexeme) :
    items (line + n) ls = (items line ls).map (relabelItem (.ofLines (· + n))) := by
  induction ls generalizing line with
  | nil => rfl
  | cons l rest ih =>
    have hline : line + n + newlines l.text = line + newlines l.text + n := by omega
    have hitem := item?_relabel (· + n) l (line + newlines l.text)
    simp only [items, hline, ih, hitem]
    cases l.item? (line + newlines l.text) <;> rfl

theorem items_ne_nil (line : Nat) (ls : List Lexeme) : items line ls ≠ [] := by
  obtain ⟨front, last, h⟩ := exists_items_eq line ls
  simp [h]

theorem items_append (line : Nat) (ls more : List Lexeme) :
    items line (ls ++ more) =
      (items line ls).dropLast ++ items (line + newlines (ls.flatMap Lexeme.text)) more := by
  induction ls generalizing line with
  | nil => rfl
  | cons l rest ih =>
    have hline : line + newlines ((l :: rest).flatMap Lexeme.text) =
        line + newlines l.text + newlines (rest.flatMap Lexeme.text) := by
      rw [List.flatMap_cons, newlines_append]
      omega
    simp only [List.cons_append, items, ih, hline]
    cases l.item? (line + newlines l.text) with
    | none => rfl
    | some item => simp [List.dropLast_cons_of_ne_nil (items_ne_nil _ rest)]

def StandsOn (item : Except Diagnostic Token) (line : Nat) : Prop :=
  (∃ t, item = .ok t ∧ t.line = line) ∨ ∃ cause, item = .error (.lexical line cause)

theorem item?_standsOn {l : Lexeme} {line : Nat} {item : Except Diagnostic Token}
    (h : l.item? line = some item) : StandsOn item line := by
  unfold item? at h
  cases hform : l.form with
  | blank => simp [hform] at h
  | token kind => exact .inl ⟨_, by simpa [hform] using h.symm, rfl⟩
  | stray c => exact .inr ⟨_, by simpa [hform] using h.symm⟩
  | unclosed => exact .inr ⟨_, by simpa [hform] using h.symm⟩

/-- The lines of the items of a text lie between its first and its last one. -/
theorem standsOn_of_mem_items {line : Nat} {ls : List Lexeme} {item : Except Diagnostic Token}
    (h : item ∈ items line ls) :
    ∃ n, line ≤ n ∧ n ≤ line + newlines (ls.flatMap Lexeme.text) ∧ StandsOn item n := by
  induction ls generalizing line with
  | nil =>
    obtain rfl : item = .ok ⟨.endOfInput, "", line⟩ := by simpa [items] using h
    exact ⟨line, Nat.le_refl _, Nat.le_add_right _ _, .inl ⟨_, rfl, rfl⟩⟩
  | cons l rest ih =>
    rw [List.flatMap_cons, newlines_append]
    have hrest (h : item ∈ items (line + newlines l.text) rest) :
        ∃ n, line ≤ n ∧ n ≤ line + (newlines l.text + newlines (rest.flatMap Lexeme.text)) ∧
          StandsOn item n := by
      obtain ⟨n, hlow, hhigh, hn⟩ := ih h
      exact ⟨n, by omega, by omega, hn⟩
    rw [items] at h
    cases hitem : l.item? (line + newlines l.text) with
    | none => exact hrest (by simpa [hitem] using h)
    | some first =>
      simp only [hitem] at h
      rcases List.mem_cons.mp h with rfl | h
      · exact ⟨_, Nat.le_add_right _ _, by omega, item?_standsOn hitem⟩
      · exact hrest h

theorem form_of_mem_items {line : Nat} {ls : List Lexeme} {t : Token}
    (h : .ok t ∈ (items line ls).dropLast) : ∃ l ∈ ls, l.form = .token t.kind := by
  induction ls generalizing line with
  | nil => simp [items] at h
  | cons l rest ih =>
    have hrest : .ok t ∈ (items (line + newlines l.text) rest).dropLast →
        ∃ l' ∈ l :: rest, l'.form = .token t.kind := by
      intro h
      obtain ⟨l', hl', hform⟩ := ih h
      exact ⟨l', List.mem_cons_of_mem _ hl', hform⟩
    rw [items] at h
    cases hitem : l.item? (line + newlines l.text) with
    | none => exact hrest (by simpa [hitem] using h)
    | some item =>
      simp only [hitem, List.dropLast_cons_of_ne_nil (items_ne_nil _ rest)] at h
      rcases List.mem_cons.mp h with rfl | h
      · refine ⟨l, List.mem_cons_self, ?_⟩
        unfold item? at hitem
        cases hform : l.form <;> simp [hform] at hitem
        simp [← hitem]
      · exact hrest h

theorem wordKind_ne (word : List Char) : wordKind word ≠ .endOfInput := by
  unfold wordKind
  split <;> simp

theorem form_split_ne (c : Char) (text : List Char) : (split c text).1.form ≠ .token .endOfInput := by
  unfold split
  split
  · simp
  · split
    · simp
    · split
      · unfold splitString
        split <;> simp
      · split
        · rw [splitNumber_eq, numberAfter.eq_def]
          split
          · split <;> simp
          · simp
        · split
          · rw [Ne, Form.token.injEq]
            exact wordKind_ne _
          · unfold splitMark
            split
            · simp
            · split <;> simp

theorem form_ne_of_mem_ofText {text : List Char} {l : Lexeme} (h : l ∈ ofText text) :
    l.form ≠ .token .endOfInput := by
  induction text using ofText_induction with
  | nil => simp [ofText, cut] at h
  | cons c text ih =>
    rw [ofText_cons] at h
    rcases List.mem_cons.mp h with rfl | h
    · exact form_split_ne c text
    · exact ih h

theorem unclosed_of_failures_nil {line : Nat} {ls : List Lexeme}
    (h : failures (items line ls) = []) : ∀ l ∈ ls, l.form ≠ .unclosed := by
  induction ls generalizing line with
  | nil => simp
  | cons l rest ih =>
    rw [items] at h
    rintro l' hl'
    cases hitem : l.item? (line + newlines l.text) with
    | none =>
      simp only [hitem] at h
      rcases List.mem_cons.mp hl' with rfl | hl'
      · intro hform
        simp [item?, hform] at hitem
      · exact ih h l' hl'
    | some item =>
      simp only [hitem, failures, List.filterMap_cons] at h
      cases item with
      | error d => simp at h
      | ok t =>
        rcases List.mem_cons.mp hl' with rfl | hl'
        · intro hform
          simp [item?, hform] at hitem
        · exact ih (by simpa [failures] using h) l' hl'

theorem successes_append (xs ys : List (Except Diagnostic Token)) :
    successes (xs ++ ys) = successes xs ++ successes ys :=
  List.filterMap_append

theorem failures_append (xs ys : List (Except Diagnostic Token)) :
    failures (xs ++ ys) = failures xs ++ failures ys :=
  List.filterMap_append

theorem successes_relabel (ρ : Relabeling) (xs : List (Except Diagnostic Token)) :
    successes (xs.map (relabelItem ρ)) = (successes xs).map (Token.relabel ρ) := by
  induction xs with
  | nil => rfl
  | cons x xs ih =>
    cases x with
    | ok t => simpa [successes, relabelItem] using ih
    | error d => simpa [successes, relabelItem] using ih

theorem failures_relabel (ρ : Relabeling) (xs : List (Except Diagnostic Token)) :
    failures (xs.map (relabelItem ρ)) = (failures xs).map (Diagnostic.relabel ρ) := by
  induction xs with
  | nil => rfl
  | cons x xs ih =>
    cases x with
    | ok t => simpa [failures, relabelItem] using ih
    | error d => simpa [failures, relabelItem] using ih

end Lexeme

namespace Token

open Lexeme

theorem ofSource_eq_ok {source : String} {tokens : List Token} :
    ofSource source = .ok tokens ↔ failures (scan source) = [] ∧ tokens = successes (scan source) := by
  unfold ofSource
  cases failures (scan source) with
  | nil => simp [eq_comm]
  | cons d errors => simp

def linesOf (source : String) : Nat := newlines source.toList + 1

theorem standsOn_of_mem_scan {source : String} {item : Except Diagnostic Token}
    (h : item ∈ scan source) : ∃ n, 1 ≤ n ∧ n ≤ linesOf source ∧ StandsOn item n := by
  obtain ⟨n, hlow, hhigh, hn⟩ := standsOn_of_mem_items h
  rw [flatMap_ofText] at hhigh
  exact ⟨n, hlow, by unfold linesOf; omega, hn⟩

theorem line_le {source : String} {tokens : List Token} (h : ofSource source = .ok tokens) :
    ∀ t ∈ tokens, 1 ≤ t.line ∧ t.line ≤ linesOf source := by
  intro t ht
  rw [ofSource_ok h, mem_successes] at ht
  obtain ⟨n, hlow, hhigh, ⟨_, ⟨⟩, rfl⟩ | ⟨_, ⟨⟩⟩⟩ := standsOn_of_mem_scan ht
  exact ⟨hlow, hhigh⟩

theorem ofSource_front {source : String} {tokens : List Token} (h : ofSource source = .ok tokens) :
    ∃ front last, tokens = front ++ [last] ∧ last.kind = .endOfInput ∧
      ∀ t ∈ front, t.kind ≠ .endOfInput := by
  obtain ⟨xs, line, hxs⟩ := exists_items_eq 1 (ofText source.toList)
  refine ⟨successes xs, ⟨.endOfInput, "", line⟩, ?_, rfl, fun t ht hkind => ?_⟩
  · rw [ofSource_ok h, scan, hxs]
    exact List.filterMap_append
  · rw [mem_successes] at ht
    have hfront : .ok t ∈ (items 1 (ofText source.toList)).dropLast := by
      rw [hxs, List.dropLast_concat]
      exact ht
    obtain ⟨l, hl, hform⟩ := form_of_mem_items hfront
    exact form_ne_of_mem_ofText hl (hkind ▸ hform)

theorem scan_append {first : String} (second : String) (h : failures (scan first) = []) :
    scan (first ++ "\n" ++ second) =
      (scan first).dropLast ++ (scan second).map (relabelItem (.ofLines (· + linesOf first))) := by
  have htext : (first ++ "\n" ++ second).toList = first.toList ++ '\n' :: second.toList := by
    simp
  have hblank : ∀ line, items line (⟨.blank, ['\n']⟩ :: ofText second.toList) =
      items (line + 1) (ofText second.toList) := fun line => rfl
  have hline : 1 + newlines first.toList + 1 = 1 + linesOf first := by
    unfold linesOf
    omega
  rw [scan, htext, ofText_append _ _ (unclosed_of_failures_nil h), items_append, flatMap_ofText, hblank,
    hline, items_add]
  rfl

theorem ofSource_append {first second : String} {front : List Token} {last : Token}
    {tokens : List Token} (hfirst : ofSource first = .ok (front ++ [last]))
    (hsecond : ofSource second = .ok tokens) :
    ofSource (first ++ "\n" ++ second) =
      .ok (front ++ tokens.map (Token.relabel (.ofLines (· + linesOf first)))) := by
  obtain ⟨hnone, hfront⟩ := ofSource_eq_ok.mp hfirst
  obtain ⟨hnoneAfter, rfl⟩ := ofSource_eq_ok.mp hsecond
  obtain ⟨xs, line, hscan⟩ : ∃ xs line, scan first = xs ++ [.ok ⟨.endOfInput, "", line⟩] :=
    exists_items_eq 1 (ofText first.toList)
  have hjoined := scan_append second hnone
  rw [hscan, List.dropLast_concat] at hjoined
  rw [hscan, successes_append] at hfront
  rw [hscan, failures_append] at hnone
  rw [ofSource_eq_ok, hjoined, failures_append, (List.append_eq_nil_iff.mp hnone).1,
    failures_relabel, hnoneAfter, successes_append, successes_relabel,
    (List.append_inj' hfront rfl).1]
  exact ⟨rfl, rfl⟩

/-- The second text on the lines on which it stands after the first one, with nothing above it. -/
def below (first second : String) : String :=
  String.ofList (List.replicate (newlines first.toList) '\n') ++ "\n" ++ second

theorem ofSource_emptyLines (n : Nat) :
    ofSource (String.ofList (List.replicate n '\n')) = .ok [⟨.endOfInput, "", 1 + n⟩] := by
  have hitems : ∀ line, items line (ofText (List.replicate n '\n')) =
      [.ok ⟨.endOfInput, "", line + n⟩] := by
    induction n with
    | zero => exact fun line => rfl
    | succ n ih =>
      intro line
      have hblank : items line (ofText (List.replicate (n + 1) '\n')) =
          items (line + 1) (ofText (List.replicate n '\n')) := by
        rw [List.replicate_succ, ofText_cons]
        rfl
      rw [hblank, ih, Nat.add_right_comm, Nat.add_assoc]
  rw [ofSource_eq_ok, scan, String.toList_ofList, hitems]
  exact ⟨rfl, rfl⟩

theorem linesOf_emptyLines (n : Nat) :
    linesOf (String.ofList (List.replicate n '\n')) = n + 1 := by
  simp [linesOf, newlines]

theorem ofSource_below {second : String} {tokens : List Token} (first : String)
    (h : ofSource second = .ok tokens) :
    ofSource (below first second) =
      .ok (tokens.map (Token.relabel (.ofLines (· + linesOf first)))) := by
  have hempty := ofSource_emptyLines (newlines first.toList)
  have hjoined := @ofSource_append _ _ [] _ _ hempty h
  rwa [linesOf_emptyLines] at hjoined

end Token

end LoxLang
