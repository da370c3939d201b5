import LoxLang.Proofs.Token.Joining

/-!
Source text is cut up by longest match.

The lexical grammar says which texts are lexemes and nothing of how they are found. Cutting takes again
and again the longest lexeme that is left at the front of the text. Where there is none, a lexical error
covers one character, or from an opening quote on all that is left. So nothing of the text is lost, and no
other way to cut it up does the same.
-/

set_option autoImplicit false

namespace LoxLang

open Lexeme

def isDigits (w : List Char) : Bool := !w.isEmpty && w.all Char.isDigit

def isWord : List Char → Bool
  | [] => false
  | c :: w => startsWord c && w.all continuesWord

/-- The texts that are lexemes, with what they are. -/
inductive Lexical : Form → List Char → Prop
  | space {c : Char} : isSpace c = true → Lexical .blank [c]
  | comment {w : List Char} : '\n' ∉ w → Lexical .blank ('/' :: '/' :: w)
  | mark {m : Mark} {w : List Char} : Mark.ofChars? w = some m → Lexical (.token (.mark m)) w
  | whole {ds : List Char} : isDigits ds = true →
    Lexical (.token (.number (.ofDigits false ds [] 0))) ds
  | decimal {ds es : List Char} : isDigits ds = true → isDigits es = true →
    Lexical (.token (.number (.ofDigits false ds es 0))) (ds ++ '.' :: es)
  | keyword (k : Keyword) : Lexical (.token (.keyword k)) k.spelling.toList
  | identifier {w : List Char} : isWord w = true → (∀ k : Keyword, k.spelling.toList ≠ w) →
    Lexical (.token .identifier) w
  | string {w : List Char} : '"' ∉ w → Lexical (.token (.string (String.ofList w))) ('"' :: (w ++ ['"']))

def StartsLexeme (text : List Char) : Prop := ∃ f u v, Lexical f u ∧ u ++ v = text

/-- The lexeme is what longest match takes from the front of a text, and the rest is left. -/
inductive First : Lexeme → List Char → Prop
  | longest {l : Lexeme} {rest : List Char} : Lexical l.form l.text →
    (∀ f u v, Lexical f u → u ++ v = l.text ++ rest → u.length ≤ l.text.length) → First l rest
  | stray {c : Char} {rest : List Char} : c ≠ '"' → ¬StartsLexeme (c :: rest) →
    First ⟨.stray c, [c]⟩ rest
  | unclosed {w : List Char} : ¬StartsLexeme ('"' :: w) → First ⟨.unclosed, '"' :: w⟩ []

/-- The text is cut up by longest match. -/
inductive Munched : List Char → List Lexeme → Prop
  | nil : Munched [] []
  | cons {l : Lexeme} {rest : List Char} {ls : List Lexeme} : First l rest → Munched rest ls →
    Munched (l.text ++ rest) (l :: ls)

namespace Lexeme

variable {c : Char}

theorem not_isSpace_of_isDigit (h : c.isDigit = true) : isSpace c = false := by
  by_contra hspace
  simp only [isSpace, Bool.not_eq_false, Bool.or_eq_true, decide_eq_true_eq] at hspace
  rcases hspace with ((rfl | rfl) | rfl) | rfl <;> exact absurd h (by decide)

theorem not_isSpace_of_startsWord (h : startsWord c = true) : isSpace c = false := by
  by_contra hspace
  simp only [isSpace, Bool.not_eq_false, Bool.or_eq_true, decide_eq_true_eq] at hspace
  rcases hspace with ((rfl | rfl) | rfl) | rfl <;> exact absurd h (by decide)

theorem not_isDigit_of_startsWord (h : startsWord c = true) : c.isDigit = false := by
  simp only [startsWord, Bool.or_eq_true, decide_eq_true_eq] at h
  rcases h with h | rfl
  · unfold Char.isAlpha Char.isUpper Char.isLower at h
    unfold Char.isDigit
    grind
  · rfl

theorem split_of_ofChars? {w : List Char} {m : Mark} (h : Mark.ofChars? (c :: w) = some m)
    {text : List Char} (hcomment : ¬(c = '/' ∧ text.head? = some '/')) :
    split c text = splitMark c text := by
  have hother : isSpace c = false ∧ c ≠ '"' ∧ c.isDigit = false ∧ startsWord c = false := by
    unfold Mark.ofChars? at h
    split at h <;> rename_i hspelled <;> cases h <;> obtain ⟨rfl, -⟩ := List.cons.inj hspelled <;> decide
  obtain ⟨hspace, hquote, hdigit, hword⟩ := hother
  unfold split
  simp only [hspace, Bool.false_eq_true, if_false, hquote, hdigit, hword]
  rw [if_neg (by simpa using hcomment)]

theorem split_space (h : isSpace c = true) (text : List Char) : split c text = (⟨.blank, [c]⟩, text) := by
  rw [split, if_pos h]

theorem split_comment (text : List Char) :
    split '/' ('/' :: text) =
      (⟨.blank, '/' :: '/' :: text.takeWhile (· ≠ '\n')⟩, text.dropWhile (· ≠ '\n')) := by
  simp [split, isSpace]

theorem split_quote (text : List Char) : split '"' text = splitString text := by
  simp [split, isSpace]

theorem split_digit (h : c.isDigit = true) (text : List Char) :
    split c text = numberAfter (c :: text.takeWhile Char.isDigit) (text.dropWhile Char.isDigit) := by
  have hslash : c ≠ '/' := by
    rintro rfl
    exact absurd h (by decide)
  have hquote : c ≠ '"' := by
    rintro rfl
    exact absurd h (by decide)
  rw [split, ← splitNumber_digit h]
  simp [not_isSpace_of_isDigit h, hslash, hquote, h]

theorem split_word (h : startsWord c = true) (text : List Char) :
    split c text = (⟨.token (wordKind (c :: text.takeWhile continuesWord)),
      c :: text.takeWhile continuesWord⟩, text.dropWhile continuesWord) := by
  have hslash : c ≠ '/' := by
    rintro rfl
    exact absurd h (by decide)
  have hquote : c ≠ '"' := by
    rintro rfl
    exact absurd h (by decide)
  rw [split]
  simp [not_isSpace_of_startsWord h, hslash, hquote, not_isDigit_of_startsWord h, h]

end Lexeme

def Form.isError : Form → Bool
  | .stray _ | .unclosed => true
  | .blank | .token _ => false

/-- From a text that starts with this lexeme, cutting takes it or a longer one. -/
structure Found (f : Form) (c : Char) (w v : List Char) : Prop where
  longer : ∃ more, (split c (w ++ v)).1.text = c :: (w ++ more)
  proper : (split c (w ++ v)).1.form.isError = false
  same : v = [] → (split c (w ++ v)).1.form = f

section

variable {c : Char} {w v ds es : List Char}

theorem found_space (h : isSpace c = true) : Found .blank c [] v := by
  have hsplit := split_space h v
  exact ⟨⟨[], by simp [hsplit]⟩, by simp [hsplit, Form.isError], fun _ => by simp [hsplit]⟩

theorem found_comment (h : '\n' ∉ w) : Found .blank '/' ('/' :: w) v := by
  have hsplit := split_comment (w ++ v)
  have hkept : ∀ d ∈ w, decide (d ≠ '\n') = true := by
    intro d hd
    simpa using fun hnewline : d = '\n' => h (hnewline ▸ hd)
  rw [List.takeWhile_append_of_pos hkept] at hsplit
  refine ⟨⟨v.takeWhile (· ≠ '\n'), ?_⟩, ?_, fun _ => ?_⟩ <;> rw [List.cons_append, hsplit] <;> rfl

theorem found_mark {m : Mark} (h : Mark.ofChars? (c :: w) = some m) :
    Found (.token (.mark m)) c w v := by
  by_cases hcomment : c = '/' ∧ (w ++ v).head? = some '/'
  · -- A comment, and a slash is the mark.
    obtain ⟨rfl, hhead⟩ := hcomment
    cases w with
    | nil =>
      obtain ⟨v, rfl⟩ : ∃ more, v = '/' :: more := by
        cases v with
        | nil => simp at hhead
        | cons d more => exact ⟨more, by simpa using hhead⟩
      have hsplit := split_comment v
      refine ⟨⟨'/' :: v.takeWhile (· ≠ '\n'), ?_⟩, ?_, fun hv => by cases hv⟩ <;>
        rw [List.nil_append, hsplit] <;> rfl
    | cons d w =>
      obtain rfl : d = '/' := by simpa using hhead
      simp [Mark.ofChars?] at h
  · have hsplit := split_of_ofChars? h hcomment
    unfold splitMark at hsplit
    cases w with
    | nil =>
      simp only [List.nil_append] at hsplit
      cases htwo : Mark.ofChars? (c :: v.take 1) with
      | some other =>
        simp only [htwo] at hsplit
        refine ⟨⟨v.take 1, by simp [hsplit]⟩, by simp [hsplit, Form.isError], ?_⟩
        rintro rfl
        have hsame : other = m := by simpa [h] using htwo.symm
        simp [hsplit, hsame]
      | none =>
        simp only [htwo, h] at hsplit
        exact ⟨⟨[], by simp [hsplit]⟩, by simp [hsplit, Form.isError], fun _ => by simp [hsplit]⟩
    | cons d w =>
      have hw : w = [] := by
        unfold Mark.ofChars? at h
        split at h <;> rename_i hspelled <;> simp_all
      subst hw
      simp only [List.singleton_append, List.take_succ_cons, List.take_zero, h] at hsplit
      exact ⟨⟨[], by simp [hsplit]⟩, by simp [hsplit, Form.isError], fun _ => by simp [hsplit]⟩

theorem numberAfter_longer (whole rest : List Char) :
    (∃ more, (numberAfter whole rest).1.text = whole ++ more) ∧
      ∃ n, (numberAfter whole rest).1.form = .token (.number n) := by
  fun_cases numberAfter whole rest with
  | case1 d rest hd => exact ⟨⟨_, rfl⟩, _, rfl⟩
  | case2 d rest hd => exact ⟨⟨[], (List.append_nil _).symm⟩, _, rfl⟩
  | case3 rest h => exact ⟨⟨[], (List.append_nil _).symm⟩, _, rfl⟩

theorem found_whole (h : isDigits (c :: w) = true) :
    Found (.token (.number (.ofDigits false (c :: w) [] 0))) c w v := by
  simp only [isDigits, List.all_cons, Bool.and_eq_true, List.all_eq_true] at h
  obtain ⟨-, hc, hw⟩ := h
  have hsplit := split_digit hc (w ++ v)
  rw [List.takeWhile_append_of_pos hw, List.dropWhile_append_of_pos hw] at hsplit
  obtain ⟨⟨more, hmore⟩, n, hn⟩ := numberAfter_longer (c :: (w ++ v.takeWhile Char.isDigit))
    (v.dropWhile Char.isDigit)
  refine ⟨⟨v.takeWhile Char.isDigit ++ more, ?_⟩, ?_, ?_⟩
  · rw [hsplit, hmore, List.cons_append, List.append_assoc]
  · rw [hsplit, hn]
    rfl
  · rintro rfl
    rw [hsplit]
    simp [numberAfter]

theorem found_decimal (hds : isDigits (c :: ds) = true) (hes : isDigits es = true) :
    Found (.token (.number (.ofDigits false (c :: ds) es 0))) c (ds ++ '.' :: es) v := by
  simp only [isDigits, List.all_cons, Bool.and_eq_true, List.all_eq_true] at hds hes
  obtain ⟨-, hc, hds⟩ := hds
  obtain ⟨hne, hes⟩ := hes
  obtain ⟨e, es, rfl⟩ : ∃ e more, es = e :: more := List.exists_cons_of_ne_nil (by simpa using hne)
  have he : e.isDigit = true := hes e List.mem_cons_self
  have hsplit := split_digit hc (ds ++ '.' :: (e :: es ++ v))
  rw [List.takeWhile_append_of_pos hds, List.dropWhile_append_of_pos hds,
    List.takeWhile_cons_of_neg (by decide), List.dropWhile_cons_of_neg (by decide), List.append_nil,
    List.cons_append, numberAfter, if_pos he, ← List.cons_append, List.takeWhile_append_of_pos hes,
    List.dropWhile_append_of_pos hes] at hsplit
  have htext : ds ++ '.' :: e :: es ++ v = ds ++ '.' :: (e :: es ++ v) := by simp
  refine ⟨⟨v.takeWhile Char.isDigit, ?_⟩, ?_, ?_⟩
  · rw [htext, hsplit]
    simp
  · rw [htext, hsplit]
    rfl
  · rintro rfl
    rw [htext, hsplit]
    simp

theorem found_word (h : isWord (c :: w) = true) : Found (.token (wordKind (c :: w))) c w v := by
  simp only [isWord, Bool.and_eq_true, List.all_eq_true] at h
  have hsplit := split_word h.1 (w ++ v)
  rw [List.takeWhile_append_of_pos h.2] at hsplit
  refine ⟨⟨v.takeWhile continuesWord, ?_⟩, ?_, ?_⟩
  · rw [hsplit]
  · rw [hsplit]
    rfl
  · rintro rfl
    rw [hsplit]
    simp

theorem found_string (h : '"' ∉ w) :
    Found (.token (.string (String.ofList w))) '"' (w ++ ['"']) v := by
  have hkept : ∀ d ∈ w, decide (d ≠ '"') = true := by
    intro d hd
    simpa using fun hquote : d = '"' => h (hquote ▸ hd)
  have hsplit := split_quote (w ++ '"' :: v)
  unfold splitString at hsplit
  rw [List.takeWhile_append_of_pos hkept, List.dropWhile_append_of_pos hkept,
    List.takeWhile_cons_of_neg (by simp), List.dropWhile_cons_of_neg (by simp), List.append_nil] at hsplit
  have htext : w ++ ['"'] ++ v = w ++ '"' :: v := by simp
  refine ⟨⟨[], ?_⟩, ?_, fun _ => ?_⟩ <;> rw [htext, hsplit] <;> simp [Form.isError]

theorem isWord_spelling (k : Keyword) : isWord k.spelling.toList = true := by
  cases k <;> rfl

theorem wordKind_spelling (k : Keyword) : wordKind k.spelling.toList = .keyword k := by
  simp [wordKind, Keyword.ofSpelling?_spelling]

theorem wordKind_of_ne (h : ∀ k : Keyword, k.spelling.toList ≠ w) : wordKind w = .identifier := by
  unfold wordKind
  split
  · rename_i k hk
    have hfound := List.find?_some hk
    have hspelled : k.spelling = String.ofList w := of_decide_eq_true hfound
    exact absurd (by simp [hspelled]) (h k)
  · rfl

end

theorem Lexical.exists_cons {f : Form} {u : List Char} (h : Lexical f u) : ∃ c w, u = c :: w := by
  refine List.exists_cons_of_ne_nil ?_
  cases h with
  | mark hm =>
    rintro rfl
    simp [Mark.ofChars?] at hm
  | whole hds =>
    rintro rfl
    simp [isDigits] at hds
  | identifier hw =>
    rintro rfl
    simp [isWord] at hw
  | keyword k =>
    intro hempty
    simpa [hempty, isWord] using isWord_spelling k
  | space | comment | decimal | string => simp

theorem Lexical.found {f : Form} {c : Char} {w : List Char} (h : Lexical f (c :: w)) (v : List Char) :
    Found f c w v := by
  generalize hu : c :: w = u at h
  -- The first character of each class of lexemes decides which way cutting takes.
  cases h with
  | space hc =>
    obtain ⟨rfl, rfl⟩ := List.cons.inj hu
    exact found_space hc
  | comment hw =>
    obtain ⟨rfl, rfl⟩ := List.cons.inj hu
    exact found_comment hw
  | mark hm => exact found_mark (hu ▸ hm)
  | whole hds =>
    subst hu
    exact found_whole hds
  | @decimal ds es hds hes =>
    cases ds with
    | nil => simp [isDigits] at hds
    | cons d ds =>
      obtain ⟨rfl, rfl⟩ := List.cons.inj hu
      exact found_decimal hds hes
  | keyword k =>
    have hfound := found_word (v := v) (hu ▸ isWord_spelling k)
    rwa [hu, wordKind_spelling] at hfound
  | identifier hword hne =>
    subst hu
    rw [← wordKind_of_ne hne]
    exact found_word hword
  | string hw =>
    obtain ⟨rfl, rfl⟩ := List.cons.inj hu
    exact found_string hw

/-- A text is a lexeme in one way only. -/
theorem Lexical.unique {f g : Form} {u : List Char} (h : Lexical f u) (h' : Lexical g u) : f = g := by
  obtain ⟨c, w, rfl⟩ := h.exists_cons
  exact ((h.found []).same rfl).symm.trans ((h'.found []).same rfl)

namespace Lexeme

variable (c : Char) (text : List Char)

theorem lexical_numberAfter {whole : List Char} (h : isDigits whole = true) (rest : List Char) :
    Lexical (numberAfter whole rest).1.form (numberAfter whole rest).1.text := by
  fun_cases numberAfter whole rest with
  | case1 d rest hd =>
    refine .decimal h ?_
    rw [List.takeWhile_cons_of_pos hd]
    simp [isDigits, hd]
  | case2 d rest hd => exact .whole h
  | case3 rest hrest => exact .whole h

theorem lexical_word {w : List Char} (h : isWord w = true) : Lexical (.token (wordKind w)) w := by
  by_cases hk : ∃ k : Keyword, k.spelling.toList = w
  · obtain ⟨k, rfl⟩ := hk
    rw [wordKind_spelling]
    exact .keyword k
  · have hne : ∀ k : Keyword, k.spelling.toList ≠ w := fun k hw => hk ⟨k, hw⟩
    rw [wordKind_of_ne hne]
    exact .identifier h hne

inductive Taken (c : Char) (text : List Char) : Lexeme × List Char → Prop
  | lexeme {l : Lexeme} {rest : List Char} : Lexical l.form l.text → Taken c text (l, rest)
  | stray : c ≠ '"' → Taken c text (⟨.stray c, [c]⟩, text)
  | unclosed : c = '"' → Taken c text (⟨.unclosed, c :: text⟩, [])

theorem taken_splitString : Taken '"' text (splitString text) := by
  have hclean : '"' ∉ text.takeWhile (· ≠ '"') := fun hmem => by simpa using List.mem_takeWhile_imp hmem
  unfold splitString
  split
  · rename_i hrest
    have hall := List.takeWhile_append_dropWhile (p := fun c => decide (c ≠ '"')) (l := text)
    rw [hrest, List.append_nil] at hall
    simp only [hall]
    exact .unclosed rfl
  · rename_i quote rest hrest
    have hquote : quote = '"' := by
      have hstop := List.head?_dropWhile_not (fun c => decide (c ≠ '"')) text
      rw [hrest] at hstop
      simpa using hstop
    subst hquote
    exact .lexeme (.string hclean)

theorem taken_splitMark (hquote : c ≠ '"') : Taken c text (splitMark c text) := by
  unfold splitMark
  split
  · rename_i m hm
    exact .lexeme (.mark hm)
  · split
    · rename_i m hm
      exact .lexeme (.mark hm)
    · exact .stray hquote

theorem taken_split : Taken c text (split c text) := by
  unfold split
  split
  · rename_i hspace
    exact .lexeme (.space hspace)
  · split
    · rename_i hcomment
      simp only [Bool.and_eq_true, decide_eq_true_eq] at hcomment
      obtain ⟨rfl, hhead⟩ := hcomment
      obtain ⟨text, rfl⟩ : ∃ more, text = '/' :: more := by
        cases text with
        | nil => simp at hhead
        | cons d more => exact ⟨more, by simpa using hhead⟩
      have hclean : '\n' ∉ text.takeWhile (· ≠ '\n') :=
        fun hmem => by simpa using List.mem_takeWhile_imp hmem
      rw [List.takeWhile_cons_of_pos (by decide)]
      exact .lexeme (.comment hclean)
    · split
      · rename_i hquote
        subst hquote
        exact taken_splitString text
      · rename_i hquote
        split
        · rename_i hdigit
          have hdigits : isDigits (c :: text.takeWhile Char.isDigit) = true := by
            simp [isDigits, hdigit]
          rw [splitNumber_digit hdigit]
          exact .lexeme (lexical_numberAfter hdigits _)
        · split
          · rename_i hword
            have hword : isWord (c :: text.takeWhile continuesWord) = true := by
              simp [isWord, hword]
            exact .lexeme (lexical_word hword)
          · exact taken_splitMark c text hquote

/-- Cutting takes from the front of a text what longest match takes. -/
theorem first_split : First (split c text).1 (split c text).2 := by
  obtain ⟨w, hw, htext⟩ := split_parts c text
  have hparts : (split c text).1.text ++ (split c text).2 = c :: text := by
    rw [hw, List.cons_append, ← htext]
  have hfront : ∀ f u v, Lexical f u → u ++ v = c :: text →
      u.length ≤ (split c text).1.text.length ∧ (split c text).1.form.isError = false := by
    intro f u v hu huv
    obtain ⟨d, u, rfl⟩ := hu.exists_cons
    obtain ⟨rfl, rfl⟩ := List.cons.inj huv
    obtain ⟨⟨more, hmore⟩, hproper, -⟩ := hu.found v
    exact ⟨by simp [hmore], hproper⟩
  have htaken := taken_split c text
  generalize split c text = taken at hparts hfront htaken
  -- If cutting takes no lexeme, none is at the front: it would have been found, or a longer one.
  cases htaken with
  | lexeme hl => exact .longest hl fun f u v hu huv => (hfront f u v hu (huv.trans hparts)).1
  | stray hquote =>
    refine .stray hquote ?_
    rintro ⟨f, u, v, hu, huv⟩
    cases (hfront f u v hu huv).2
  | unclosed hquote =>
    subst hquote
    refine .unclosed ?_
    rintro ⟨f, u, v, hu, huv⟩
    cases (hfront f u v hu huv).2

end Lexeme

theorem First.exists_cons {l : Lexeme} {rest : List Char} (h : First l rest) : ∃ c w, l.text = c :: w := by
  cases h with
  | longest hl _ => exact hl.exists_cons
  | stray | unclosed => exact ⟨_, _, rfl⟩

theorem First.unique {l l' : Lexeme} {rest rest' : List Char} (h : First l rest) (h' : First l' rest')
    (htext : l.text ++ rest = l'.text ++ rest') : l = l' ∧ rest = rest' := by
  -- Two longest lexemes have one length. Without any, the first character decides what is taken.
  cases h with
  | longest hl hmost =>
    cases h' with
    | longest hl' hmost' =>
      have hle := hmost' _ _ _ hl htext
      have hge := hmost _ _ _ hl' htext.symm
      obtain ⟨hsame, hrest⟩ := List.append_inj htext (Nat.le_antisymm hle hge)
      obtain ⟨form, w⟩ := l
      obtain ⟨form', w'⟩ := l'
      obtain rfl : w = w' := hsame
      obtain rfl : form = form' := hl.unique hl'
      exact ⟨rfl, hrest⟩
    | stray _ hnone => exact absurd ⟨_, _, _, hl, htext⟩ hnone
    | unclosed hnone => exact absurd ⟨_, _, _, hl, by simpa using htext⟩ hnone
  | stray hquote hnone =>
    cases h' with
    | longest hl' _ => exact absurd ⟨_, _, _, hl', htext.symm⟩ hnone
    | stray _ _ =>
      obtain ⟨rfl, rfl⟩ := List.cons.inj htext
      exact ⟨rfl, rfl⟩
    | unclosed _ => exact absurd (List.cons.inj htext).1 hquote
  | unclosed hnone =>
    cases h' with
    | longest hl' _ => exact absurd ⟨_, _, _, hl', by simpa using htext.symm⟩ hnone
    | stray hquote _ => exact absurd (List.cons.inj htext).1.symm hquote
    | unclosed _ =>
      obtain rfl : _ = _ := by simpa using htext
      exact ⟨rfl, rfl⟩

namespace Munched

theorem ofText (text : List Char) : Munched text (Lexeme.ofText text) := by
  induction text using ofText_induction with
  | nil => exact .nil
  | cons c text ih =>
    obtain ⟨w, hw, htext⟩ := split_parts c text
    have hparts : (split c text).1.text ++ (split c text).2 = c :: text := by
      rw [hw, List.cons_append, ← htext]
    rw [ofText_cons, ← hparts]
    exact .cons (first_split c text) ih

theorem unique {text : List Char} {ls : List Lexeme} (h : Munched text ls) :
    ls = Lexeme.ofText text := by
  induction h with
  | nil => rfl
  | @cons l rest ls hfirst _ ih =>
    obtain ⟨c, w, hw⟩ := hfirst.exists_cons
    have htext : l.text ++ rest = c :: (w ++ rest) := by rw [hw, List.cons_append]
    obtain ⟨w', hw', hrest⟩ := split_parts c (w ++ rest)
    have hparts : l.text ++ rest = (split c (w ++ rest)).1.text ++ (split c (w ++ rest)).2 := by
      rw [hw', List.cons_append, ← hrest, htext]
    obtain ⟨hl, hafter⟩ := hfirst.unique (first_split c (w ++ rest)) hparts
    rw [htext, ofText_cons, ← hl, ← hafter, ih]

theorem ne_nil {text : List Char} {ls : List Lexeme} (h : Munched text ls) : ∀ l ∈ ls, l.text ≠ [] := by
  induction h with
  | nil => simp
  | cons hfirst _ ih =>
    obtain ⟨c, w, hw⟩ := hfirst.exists_cons
    exact List.forall_mem_cons.mpr ⟨by simp [hw], ih⟩

end Munched

end LoxLang
