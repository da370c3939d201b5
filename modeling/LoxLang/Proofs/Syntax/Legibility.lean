import LoxLang.Proofs.Syntax.Outline
import LoxLang.Proofs.Token.Genuine
import LoxLang.Proofs.Token.Rescanning

set_option autoImplicit false

namespace LoxLang

open Nested

theorem isPlain_of {p : Char → Bool} (hspace : p ' ' = false) (hopen : p '(' = false)
    (hclose : p ')' = false) {c : Char} (h : p c = true) : isPlain c = true := by
  by_contra hplain
  have hc : c = ' ' ∨ c = '(' ∨ c = ')' := by grind [isPlain]
  rcases hc with rfl | rfl | rfl <;> simp_all

theorem isWord_name {text : String} (h : isWord text.toList = true) : IsWord text := by
  cases htext : text.toList with
  | nil => simp [htext, isWord] at h
  | cons c rest =>
    simp only [htext, isWord, Bool.and_eq_true, List.all_eq_true] at h
    refine ⟨by simp [htext], fun d hd => ?_⟩
    rw [htext] at hd
    rcases List.mem_cons.mp hd with rfl | hd
    · exact isPlain_of (by decide) (by decide) (by decide) h.1
    · exact isPlain_of (by decide) (by decide) (by decide) (h.2 d hd)

theorem isWord_number {n : Number} (h : n.IsLiteral) : IsWord (String.ofList n.inTree) := by
  obtain ⟨c, rest, htext, -⟩ := (Number.inTree_written h).1.exists_cons
  refine ⟨by simp [htext], fun d hd => ?_⟩
  rw [String.toList_ofList] at hd
  rcases (Number.inTree_written h).1.mem hd with hdigit | rfl
  · exact isPlain_of (by decide) (by decide) (by decide) hdigit
  · decide

theorem isWord_literal {v : Literal} (h : v.IsClear) : IsWord v.prefixForm := by
  cases v with
  | number n => exact isWord_number h
  | string text => exact h.elim
  | boolean value => cases value <;> exact isWord_name (by decide)
  | nil => exact isWord_name (by decide)

theorem Literal.digit_or_word {v : Literal} (h : v.IsClear) :
    (∃ c rest, v.prefixForm.toList = c :: rest ∧ c.isDigit = true) ∨
      v.prefixForm = "true" ∨ v.prefixForm = "false" ∨ v.prefixForm = "nil" := by
  cases v with
  | number n =>
    obtain ⟨c, rest, htext, hc⟩ := (Number.inTree_written h).1.exists_cons
    exact .inl ⟨c, rest, by simp [Literal.prefixForm, htext], hc⟩
  | string text => exact h.elim
  | boolean value => cases value <;> simp [Literal.prefixForm]
  | nil => simp [Literal.prefixForm]

theorem isWord_of_digit {text : String} {c : Char} {rest : List Char} (htext : text.toList = c :: rest)
    (hc : c.isDigit = true) : isWord text.toList = false := by
  rw [htext, isWord, Bool.and_eq_false_iff]
  refine .inl (Bool.eq_false_iff.mpr fun hstarts => ?_)
  exact absurd hc (by rw [Lexeme.not_isDigit_of_startsWord hstarts]; exact Bool.false_ne_true)

theorem Literal.prefixForm_injective {v w : Literal} (hv : v.IsClear) (hw : w.IsClear)
    (h : v.prefixForm = w.prefixForm) : v = w := by
  have hnumber {n : Number} {text : String} (hn : n.IsLiteral) (htext : isWord text.toList = true) :
      String.ofList n.inTree ≠ text := by
    rintro rfl
    obtain ⟨c, rest, hcons, hc⟩ := (Number.inTree_written hn).1.exists_cons
    rw [isWord_of_digit (by rw [String.toList_ofList, hcons]) hc] at htext
    cases htext
  cases v with
  | number n =>
    cases w with
    | number m => exact congrArg _ (Number.inTree_injective hv hw (String.ofList_injective h))
    | string => exact hw.elim
    | boolean value => cases value <;> exact absurd h (hnumber hv (by decide))
    | nil => exact absurd h (hnumber hv (by decide))
  | string => exact hv.elim
  | boolean value =>
    cases w with
    | number m => cases value <;> exact absurd h.symm (hnumber hw (by decide))
    | string => exact hw.elim
    | boolean other => cases value <;> cases other <;> first | rfl | exact absurd h (by decide)
    | nil => cases value <;> exact absurd h (by decide)
  | nil =>
    cases w with
    | number m => exact absurd h.symm (hnumber hw (by decide))
    | string => exact hw.elim
    | boolean value => cases value <;> exact absurd h (by decide)
    | nil => rfl

theorem Expr.ofWord_literal {v : Literal} (h : v.IsClear) : Expr.ofWord v.prefixForm = .literal v := by
  have hexists : ∃ w : Literal, w.IsClear ∧ w.prefixForm = v.prefixForm := ⟨v, h, rfl⟩
  rw [Expr.ofWord, dif_pos hexists]
  exact congrArg _ (Literal.prefixForm_injective hexists.choose_spec.1 h hexists.choose_spec.2)

theorem Expr.ofWord_word {text : String} (hword : isWord text.toList = true)
    (hother : text ≠ "true" ∧ text ≠ "false" ∧ text ≠ "nil") :
    Expr.ofWord text =
      if text = "this" then .this ⟨0, .ofKeyword .thisWord⟩ else .variable ⟨0, .ofName text⟩ := by
  rw [Expr.ofWord, dif_neg]
  rintro ⟨v, hv, rfl⟩
  rcases Literal.digit_or_word hv with ⟨c, rest, htext, hc⟩ | h | h | h
  · rw [isWord_of_digit htext hc] at hword
    cases hword
  · exact hother.1 h
  · exact hother.2.1 h
  · exact hother.2.2 h

def Mark.spelling : Mark → String
  | .leftParen => "("
  | .rightParen => ")"
  | .leftBrace => "\x7b"
  | .rightBrace => "\x7d"
  | .comma => ","
  | .dot => "."
  | .minus => "-"
  | .plus => "+"
  | .semicolon => ";"
  | .slash => "/"
  | .star => "*"
  | .question => "?"
  | .colon => ":"
  | .bang => "!"
  | .bangEqual => "!="
  | .equal => "="
  | .equalEqual => "=="
  | .greater => ">"
  | .greaterEqual => ">="
  | .less => "<"
  | .lessEqual => "<="

theorem Mark.ofChars?_eq_some {w : List Char} {m : Mark} (h : Mark.ofChars? w = some m) :
    w = m.spelling.toList := by
  unfold Mark.ofChars? at h
  split at h <;> cases h <;> rfl

namespace Token

def HasText (t : Token) : Prop :=
  (∀ contents, t.kind ≠ .string contents) ∧ ∀ n, t.kind = .number n → n.isFinite = true

/-- A token that its lexeme tells. -/
structure Legible (t : Token) : Prop extends t.Genuine where
  mark : ∀ m, t.kind = .mark m → t.lexeme = m.spelling
  word : t.kind = .identifier → isWord t.lexeme.toList = true
  number : ∀ n, t.kind = .number n → n.IsLiteral
  string : ∀ contents, t.kind ≠ .string contents

theorem legible_of_lexical {t : Token} (h : Lexical (.token t.kind) t.lexeme.toList) (hgenuine : t.Genuine)
    (htext : t.HasText) : t.Legible := by
  obtain ⟨kind, lexeme, line⟩ := t
  simp only at h
  generalize hform : Form.token kind = form at h
  generalize hword : lexeme.toList = word at h
  refine ⟨hgenuine, fun m hkind => ?_, fun hkind => ?_, fun n hkind => ⟨htext.2 n hkind, ?_⟩, htext.1⟩
  · obtain rfl : kind = .mark m := hkind
    subst hform
    cases h with
    | mark hm => exact String.toList_inj.mp (hword.trans (Mark.ofChars?_eq_some hm))
  · obtain rfl : kind = .identifier := hkind
    subst hform
    cases h with
    | identifier hw => rwa [hword]
  · obtain rfl : kind = .number n := hkind
    subst hform
    cases h with
    | whole | decimal => exact Number.isNegative_ofDigits _ _ _

theorem ofSource_legible {source : String} {tokens : List Token} (h : ofSource source = .ok tokens)
    (htext : ∀ t ∈ tokens, t.HasText) : ∀ t ∈ tokens, t.Legible := by
  intro t ht
  obtain ⟨ls, htokens, hcontents⟩ := exists_lexemes h
  have hcontent : t.content ∈ ls.filterMap Lexeme.content? ++ [(.endOfInput, "")] :=
    hcontents ▸ List.mem_map_of_mem ht
  rcases List.mem_append.mp hcontent with hmem | hmem
  · obtain ⟨l, hl, hcontent⟩ := List.mem_filterMap.mp hmem
    obtain ⟨kind, hform, hlexical⟩ := htokens l hl
    obtain ⟨hkind, hlexeme⟩ : kind = t.kind ∧ String.ofList l.text = t.lexeme := by
      simpa [Lexeme.content?, hform, content] using hcontent
    refine legible_of_lexical ?_ (ofSource_genuine h t ht) (htext t ht)
    rw [← hkind, ← hlexeme, String.toList_ofList]
    exact hlexical
  · obtain ⟨hkind, -⟩ : t.kind = .endOfInput ∧ t.lexeme = "" := by simpa [content] using hmem
    exact ⟨ofSource_genuine h t ht, by simp [hkind], by simp [hkind], by simp [hkind], by simp [hkind]⟩

variable {t : Token}

theorem Legible.isWord_name (h : t.Legible) (hkind : t.kind = .identifier) : IsWord t.lexeme :=
  LoxLang.isWord_name (h.word hkind)

theorem ofName_lexeme (hkind : t.kind = .identifier) : ofName t.lexeme = t.relabel .blank := by
  obtain ⟨kind, lexeme, line⟩ := t
  obtain rfl : kind = .identifier := hkind
  rfl

theorem Legible.ofKeyword (h : t.Legible) {k : Keyword} (hkind : t.kind = .keyword k) :
    ofKeyword k = t.relabel .blank := by
  have hlexeme := h.keyword k hkind
  obtain ⟨kind, lexeme, line⟩ := t
  obtain rfl : kind = .keyword k := hkind
  obtain rfl : lexeme = k.spelling := hlexeme
  rfl

theorem Legible.ofOperator (h : t.Legible) {m : Mark} (hkind : t.kind = .mark m) :
    ofOperator m.spelling = t.relabel .blank := by
  have hlexeme := h.mark m hkind
  obtain ⟨kind, lexeme, line⟩ := t
  obtain rfl : kind = .mark m := hkind
  obtain rfl : lexeme = m.spelling := hlexeme
  cases m <;> rfl

end Token

end LoxLang
