import LoxLang.Proofs.Token.Lexical

set_option autoImplicit false

namespace LoxLang

open Lexeme

/-- The next item of a text that goes on on the given line; then what is left, unless the input has ended,
and the line on which it goes on. -/
def Lexeme.nextItem (line : Nat) : List Char → Except Diagnostic Token × Option (List Char) × Nat
  | [] => (.ok ⟨.endOfInput, "", line⟩, none, line)
  | c :: text =>
    match (split c text).1.item? (line + newlines (split c text).1.text) with
    | some item => (item, some (split c text).2, line + newlines (split c text).1.text)
    | none => nextItem (line + newlines (split c text).1.text) (split c text).2
termination_by text => text.length
decreasing_by exact Nat.lt_succ_of_le (split_length_le c text)

structure Reader where
  rest : Option (List Char)
  line : Nat

namespace Reader

def start (source : String) : Reader := ⟨some source.toList, 1⟩

def next (r : Reader) : Option (Except Diagnostic Token) × Reader :=
  match r.rest with
  | none => (none, r)
  | some text => (some (nextItem r.line text).1, ⟨(nextItem r.line text).2.1, (nextItem r.line text).2.2⟩)

def answer (r : Reader) (asked : Nat) : Option (Except Diagnostic Token) :=
  ((fun r => r.next.2)^[asked] r).next.1

theorem answer_ended (line asked : Nat) : answer ⟨none, line⟩ asked = none := by
  induction asked with
  | zero => rfl
  | succ asked ih => exact ih

theorem items_nextItem (line : Nat) (text : List Char) :
    items line (ofText text) = (nextItem line text).1 ::
      match (nextItem line text).2.1 with
      | some rest => items (nextItem line text).2.2 (ofText rest)
      | none => [] := by
  induction text using ofText_induction generalizing line with
  | nil =>
    rw [nextItem]
    rfl
  | cons c text ih =>
    rw [ofText_cons, items, nextItem]
    cases (split c text).1.item? (line + newlines (split c text).1.text) with
    | some item => rfl
    | none => exact ih _

/-- A reader answers the items that are listed, in order, and then nothing. -/
theorem answer_eq (line asked : Nat) (text : List Char) :
    answer ⟨some text, line⟩ asked = (items line (ofText text))[asked]? := by
  induction asked generalizing line text with
  | zero =>
    rw [items_nextItem]
    rfl
  | succ asked ih =>
    rw [items_nextItem, List.getElem?_cons_succ]
    change answer ⟨(nextItem line text).2.1, (nextItem line text).2.2⟩ asked = _
    cases (nextItem line text).2.1 with
    | some rest => exact ih _ rest
    | none =>
      rw [answer_ended]
      rfl

theorem answer_start (source : String) (asked : Nat) :
    (start source).answer asked = (Token.scan source)[asked]? := answer_eq 1 asked source.toList

end Reader

namespace Lexeme

def spelled (ls : List Lexeme) : String := String.ofList (ls.flatMap Lexeme.text)

def visible (ls : List Lexeme) : List Lexeme := ls.filter fun l => l.form ≠ .blank

/-- What a visible lexeme is answered as, if it ends on the line. -/
inductive Yields (line : Nat) : Lexeme → Except Diagnostic Token → Prop
  | token {kind : Kind} {w : List Char} : Yields line ⟨.token kind, w⟩ (.ok ⟨kind, String.ofList w, line⟩)
  | stray {c : Char} {w : List Char} :
    Yields line ⟨.stray c, w⟩ (.error (.lexical line (.unexpectedCharacter c)))
  | unclosed {w : List Char} : Yields line ⟨.unclosed, w⟩ (.error (.lexical line .unterminatedString))

theorem item?_of_visible {l : Lexeme} (h : l.form ≠ .blank) (line : Nat) :
    ∃ item, l.item? line = some item ∧ Yields line l item := by
  obtain ⟨form, w⟩ := l
  cases form with
  | blank => exact absurd rfl h
  | token kind => exact ⟨_, rfl, .token⟩
  | stray c => exact ⟨_, rfl, .stray⟩
  | unclosed => exact ⟨_, rfl, .unclosed⟩

theorem length_items (line : Nat) (ls : List Lexeme) : (items line ls).length = (visible ls).length + 1 := by
  induction ls generalizing line with
  | nil => rfl
  | cons l rest ih =>
    rw [items]
    by_cases hblank : l.form = .blank
    · have hitem : l.item? (line + newlines l.text) = none := by simp [item?, hblank]
      simp [hitem, ih, visible, hblank]
    · obtain ⟨item, hitem, -⟩ := item?_of_visible hblank (line + newlines l.text)
      simp [hitem, ih, visible, hblank]

theorem getElem?_items (line : Nat) (before more : List Lexeme) :
    (items line (before ++ more))[(visible before).length]? =
      (items (line + newlines (before.flatMap Lexeme.text)) more)[0]? := by
  have hlength : (items line before).dropLast.length = (visible before).length := by
    rw [List.length_dropLast, length_items, Nat.add_sub_cancel]
  rw [items_append, List.getElem?_append_right (Nat.le_of_eq hlength), hlength, Nat.sub_self]

end Lexeme

end LoxLang
