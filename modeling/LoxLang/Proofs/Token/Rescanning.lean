import LoxLang.Proofs.Token.LineCounter

set_option autoImplicit false

namespace LoxLang

open Lexeme

theorem not_mem_space_of_isDigits {w : List Char} (h : isDigits w = true) : ' ' ∉ w := by
  intro hspace
  simp only [isDigits, Bool.and_eq_true, List.all_eq_true] at h
  exact absurd (h.2 ' ' hspace) (by decide)

theorem not_mem_space_of_isWord {w : List Char} (h : isWord w = true) : ' ' ∉ w := by
  cases w with
  | nil => simp
  | cons c w =>
    simp only [isWord, Bool.and_eq_true, List.all_eq_true] at h
    intro hspace
    rcases List.mem_cons.mp hspace with rfl | hspace
    · exact absurd h.1 (by decide)
    · exact absurd (h.2 ' ' hspace) (by decide)

theorem not_mem_space_of_ofChars? {w : List Char} {m : Mark} (h : Mark.ofChars? w = some m) : ' ' ∉ w := by
  unfold Mark.ofChars? at h
  split at h <;> first | decide | cases h

/-- What can reach over a space. -/
theorem Lexical.reaches {f : Form} {u v : List Char} (h : Lexical f (u ++ ' ' :: v)) (hne : u ≠ []) :
    (∃ w, u ++ ' ' :: v = '/' :: '/' :: w ∧ '\n' ∉ w) ∨ ∃ w, u ++ ' ' :: v = '"' :: (w ++ ['"']) ∧ '"' ∉ w := by
  have hspace : ' ' ∈ u ++ ' ' :: v := by simp
  generalize htext : u ++ ' ' :: v = text at h hspace
  cases h with
  | space _ =>
    have hlength := congrArg List.length htext
    have hu := List.length_pos_iff.mpr hne
    simp only [List.length_append, List.length_cons, List.length_nil] at hlength
    omega
  | comment hw => exact .inl ⟨_, rfl, hw⟩
  | mark hm => exact absurd hspace (not_mem_space_of_ofChars? hm)
  | whole hds => exact absurd hspace (not_mem_space_of_isDigits hds)
  | decimal hds hes =>
    have hds := not_mem_space_of_isDigits hds
    have hes := not_mem_space_of_isDigits hes
    simp [hds, hes] at hspace
  | keyword k => exact absurd hspace (not_mem_space_of_isWord (isWord_spelling k))
  | identifier hw => exact absurd hspace (not_mem_space_of_isWord hw)
  | string hw => exact .inr ⟨_, rfl, hw⟩

theorem Lexical.quote_mem {f : Form} {t : List Char} (h : Lexical f ('"' :: t)) : '"' ∈ t := by
  generalize htext : '"' :: t = text at h
  cases h with
  | @space c hc =>
    obtain ⟨rfl, -⟩ := List.cons.inj htext
    exact absurd hc (by decide)
  | comment => simp at htext
  | mark hm =>
    subst htext
    simp [Mark.ofChars?] at hm
  | whole hds =>
    subst htext
    simp [isDigits] at hds
  | @decimal ds es hds =>
    cases ds with
    | nil => simp [isDigits] at hds
    | cons d ds =>
      obtain ⟨rfl, -⟩ := List.cons.inj htext
      simp [isDigits] at hds
  | keyword k =>
    have hword := htext ▸ isWord_spelling k
    simp [isWord, startsWord] at hword
  | identifier hword =>
    subst htext
    simp [isWord, startsWord] at hword
  | string =>
    obtain ⟨-, rfl⟩ := List.cons.inj htext
    simp

/-- The lexeme of a token is no part of a longer one that a space is in. -/
theorem Lexical.stops {kind : Kind} {f : Form} {u v : List Char} (h : Lexical (.token kind) u) :
    ¬Lexical f (u ++ ' ' :: v) := by
  intro hlonger
  obtain ⟨c, t, rfl⟩ := h.exists_cons
  rcases hlonger.reaches (by simp) with ⟨w, htext, hw⟩ | ⟨w, htext, hw⟩
  · -- The token would start like a comment.
    obtain ⟨rfl, hrest⟩ := List.cons.inj htext
    cases t with
    | nil => simp at hrest
    | cons d t =>
      obtain ⟨rfl, rfl⟩ := List.cons.inj hrest
      have hblank : Lexical .blank ('/' :: '/' :: t) := .comment fun hmem => hw (List.mem_append_left _ hmem)
      exact absurd (h.unique hblank) (by simp)
  · -- The token is a string, and its closing quote would stand inside the other one.
    obtain ⟨rfl, hrest⟩ := List.cons.inj htext
    have hrest : t ++ ' ' :: v = w ++ ['"'] := hrest
    have hcontents : w = t ++ (' ' :: v).dropLast := by
      rw [← List.dropLast_append_cons, hrest, List.dropLast_concat]
    rw [hcontents] at hw
    exact hw (List.mem_append_left _ h.quote_mem)

def Separates (rest : List Char) : Prop := rest = [] ∨ ∃ v, rest = ' ' :: v

theorem Lexical.first {kind : Kind} {u rest : List Char} (h : Lexical (.token kind) u) (hseparates : Separates rest) :
    First ⟨.token kind, u⟩ rest := by
  refine .longest h fun f u' v' hu' htext => ?_
  by_contra hlonger
  have hlonger : u.length < u'.length := Nat.lt_of_not_le hlonger
  have hfront : u' <+: u ++ rest := ⟨v', htext⟩
  obtain ⟨more, rfl⟩ := List.prefix_of_prefix_length_le (List.prefix_append u rest) hfront hlonger.le
  rw [List.append_assoc] at htext
  have hrest : rest = more ++ v' := (List.append_cancel_left htext).symm
  cases more with
  | nil => simp at hlonger
  | cons c more =>
    rcases hseparates with rfl | ⟨v, rfl⟩
    · cases hrest
    · obtain ⟨rfl, -⟩ := List.cons.inj hrest
      exact h.stops hu'

def Token.content (t : Token) : Kind × String := (t.kind, t.lexeme)

def Lexeme.content? (l : Lexeme) : Option (Kind × String) :=
  match l.form with
  | .token kind => some (kind, String.ofList l.text)
  | _ => none

namespace Lexeme

theorem content_successes (line : Nat) (ls : List Lexeme) :
    (successes (items line ls)).map Token.content = ls.filterMap content? ++ [(.endOfInput, "")] := by
  induction ls generalizing line with
  | nil => rfl
  | cons l rest ih =>
    have hrest := ih (line + newlines l.text)
    obtain ⟨form, text⟩ := l
    cases form with
    | token kind => exact congrArg (List.cons (kind, String.ofList text)) hrest
    | blank | stray | unclosed => exact hrest

theorem failures_eq_nil_iff (line : Nat) (ls : List Lexeme) :
    failures (items line ls) = [] ↔ ∀ l ∈ ls, l.form.isError = false := by
  induction ls generalizing line with
  | nil => simp [items, failures]
  | cons l rest ih =>
    have hrest := ih (line + newlines l.text)
    obtain ⟨form, text⟩ := l
    cases form with
    | blank | token => simpa [items, item?, failures, Form.isError] using hrest
    | stray | unclosed => simp [items, item?, failures, Form.isError]

end Lexeme

theorem Munched.lexical {text : List Char} {ls : List Lexeme} (h : Munched text ls) {l : Lexeme} {kind : Kind}
    (hl : l ∈ ls) (hform : l.form = .token kind) : Lexical (.token kind) l.text := by
  induction h with
  | nil => simp at hl
  | cons hfirst _ ih =>
    rcases List.mem_cons.mp hl with rfl | hl
    · cases hfirst with
      | longest hlexical _ => exact hform ▸ hlexical
      | stray | unclosed => cases hform
    · exact ih hl

def blankSpace : Lexeme := ⟨.blank, [' ']⟩

theorem first_blankSpace (rest : List Char) : First blankSpace rest := by
  have hfirst := first_split ' ' rest
  rwa [split_space (by decide)] at hfirst

def Lexeme.IsToken (l : Lexeme) : Prop := ∃ kind, l.form = .token kind ∧ Lexical (.token kind) l.text

/-- Lexemes of tokens that have spaces between them, and maybe one behind them, are cut up into these lexemes
and the spaces. -/
theorem munched_spaced {ls : List Lexeme} (h : ∀ l ∈ ls, l.IsToken) {behind : List (List Char)}
    (hbehind : behind = [] ∨ behind = [[]]) :
    ∃ cut, Munched ([' '].intercalate (ls.map Lexeme.text ++ behind)) cut ∧
      cut.filterMap content? = ls.filterMap content? ∧ ∀ l ∈ cut, l.form.isError = false := by
  induction ls with
  | nil =>
    refine ⟨[], ?_, rfl, by simp⟩
    rcases hbehind with rfl | rfl <;> exact .nil
  | cons l more ih =>
    obtain ⟨kind, hform, hl⟩ := h l List.mem_cons_self
    obtain ⟨cut, hcut, hcontents, hproper⟩ := ih fun l hl => h l (List.mem_cons_of_mem _ hl)
    obtain ⟨form, text⟩ := l
    obtain rfl : form = .token kind := hform
    -- No space follows the last lexeme, unless the empty one is joined to it.
    by_cases hlast : more.map Lexeme.text ++ behind = []
    · obtain ⟨rfl, rfl⟩ : more = [] ∧ behind = [] := by simpa using hlast
      have hfirst := Munched.cons (hl.first (.inl rfl)) .nil
      exact ⟨_, by simpa using hfirst, by simp, by simp [Form.isError]⟩
    · have hspace := Munched.cons (first_blankSpace _) hcut
      have hfirst := Munched.cons (hl.first (.inr ⟨_, rfl⟩)) hspace
      refine ⟨⟨.token kind, text⟩ :: blankSpace :: cut, ?_, ?_, ?_⟩
      · rw [List.map_cons, List.cons_append, List.intercalate_cons_of_ne_nil hlast, List.append_assoc]
        exact hfirst
      · exact congrArg (List.cons (kind, String.ofList text)) hcontents
      · simpa [blankSpace, Form.isError] using hproper

namespace Token

theorem exists_lexemes {source : String} {tokens : List Token} (h : ofSource source = .ok tokens) :
    ∃ ls : List Lexeme, (∀ l ∈ ls, l.IsToken) ∧
      tokens.map content = ls.filterMap content? ++ [(.endOfInput, "")] := by
  obtain ⟨hnone, rfl⟩ := ofSource_eq_ok.mp h
  have hproper := (failures_eq_nil_iff _ _).mp hnone
  refine ⟨visible (ofText source.toList), fun l hl => ?_, ?_⟩
  · obtain ⟨hmem, hvisible⟩ : l ∈ ofText source.toList ∧ l.form ≠ .blank := by simpa [visible] using hl
    have herror := hproper l hmem
    cases hform : l.form with
    | token kind => exact ⟨kind, hform, (Munched.ofText _).lexical hmem hform⟩
    | blank => exact absurd hform hvisible
    | stray | unclosed => simp [hform, Form.isError] at herror
  · rw [scan, content_successes, visible, List.filterMap_filter]
    congr 1
    refine List.filterMap_congr fun l _ => ?_
    obtain ⟨form, text⟩ := l
    cases form <;> rfl

theorem texts_of_content {ls : List Lexeme} (h : ∀ l ∈ ls, l.IsToken) {tokens : List Token}
    (hcontents : tokens.map content = ls.filterMap content? ++ [(.endOfInput, "")]) :
    tokens.map (String.toList ∘ lexeme) = ls.map Lexeme.text ++ [[]] := by
  have hlexemes : (ls.filterMap content?).map (String.toList ∘ Prod.snd) = ls.map Lexeme.text := by
    clear hcontents
    induction ls with
    | nil => rfl
    | cons l more ih =>
      obtain ⟨kind, hform, -⟩ := h l List.mem_cons_self
      have hcontent : content? l = some (kind, String.ofList l.text) := by simp [content?, hform]
      rw [List.filterMap_cons_some hcontent, List.map_cons, List.map_cons,
        ih fun l hl => h l (List.mem_cons_of_mem _ hl)]
      simp
  calc tokens.map (String.toList ∘ lexeme)
      = (tokens.map content).map (String.toList ∘ Prod.snd) := by rw [List.map_map]; rfl
    _ = ls.map Lexeme.text ++ [[]] := by rw [hcontents, List.map_append, hlexemes]; rfl

/-- The lexemes of a source text without lexical errors, joined by single spaces, scan to the same kinds with
the same values and lexemes again. The end of the input, whose lexeme is empty, may be joined to the others
or not. -/
theorem rescan_lexemes {source : String} {tokens joined : List Token} (h : ofSource source = .ok tokens)
    (hjoined : joined = tokens ∨ joined = tokens.dropLast) :
    ∃ again, ofSource (" ".intercalate (joined.map lexeme)) = .ok again ∧
      again.map content = tokens.map content := by
  obtain ⟨ls, htokens, hcontents⟩ := exists_lexemes h
  obtain ⟨behind, hbehind, htexts⟩ : ∃ behind : List (List Char), (behind = [] ∨ behind = [[]]) ∧
      (joined.map lexeme).map String.toList = ls.map Lexeme.text ++ behind := by
    have hall := texts_of_content htokens hcontents
    rw [List.map_map]
    rcases hjoined with rfl | rfl
    · exact ⟨[[]], .inr rfl, hall⟩
    · refine ⟨[], .inl rfl, ?_⟩
      rw [List.map_dropLast, hall, List.dropLast_concat, List.append_nil]
  obtain ⟨cut, hcut, hsame, hproper⟩ := munched_spaced htokens hbehind
  have htext : (" ".intercalate (joined.map lexeme)).toList = [' '].intercalate (ls.map Lexeme.text ++ behind) := by
    rw [String.toList_intercalate, htexts]
    rfl
  have hscan : scan (" ".intercalate (joined.map lexeme)) = items 1 cut := by
    rw [scan, htext, ← hcut.unique]
  refine ⟨successes (items 1 cut), ?_, ?_⟩
  · rw [ofSource_eq_ok, hscan]
    exact ⟨(failures_eq_nil_iff _ _).mpr hproper, rfl⟩
  · rw [content_successes, hsame, hcontents]

/-- In the text of the lexemes no slash starts a comment, and the string ends where it did. -/
theorem rescan_lexemes_slashes :
    ∃ tokens again, ofSource "x=\"//\n\"/8.5" = .ok tokens ∧
      ofSource "x = \"//\n\" / 8.5 " = .ok again ∧ again.map content = tokens.map content := by
  let tokens : List Token :=
    [⟨.identifier, "x", 1⟩, ⟨.mark .equal, "=", 1⟩, ⟨.string "//\n", "\"//\n\"", 2⟩, ⟨.mark .slash, "/", 2⟩,
      ⟨.number (.ofDigits false ['8'] ['5'] 0), "8.5", 2⟩, ⟨.endOfInput, "", 2⟩]
  have hscan : ofSource "x=\"//\n\"/8.5" = .ok tokens := by decide +kernel
  obtain ⟨again, hagain, hcontents⟩ := rescan_lexemes hscan (.inl rfl)
  exact ⟨tokens, again, hscan, hagain, hcontents⟩

end Token

end LoxLang
