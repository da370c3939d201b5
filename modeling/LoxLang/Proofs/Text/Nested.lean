import Mathlib

/-!
Nested lists in text.

Words with a space between neighbours and parentheses around each list. If no word is empty and none has a
space or a parenthesis in it, the text determines the list.
-/

set_option autoImplicit false

namespace LoxLang

inductive Nested where
  | word (text : String)
  | list (parts : List Nested)

namespace Nested

mutual
def written : Nested → List Char
  | .word text => text.toList
  | .list parts => '(' :: ((following parts).tail ++ [')'])

def following : List Nested → List Char
  | [] => []
  | part :: rest => ' ' :: (part.written ++ following rest)
end

def isPlain (c : Char) : Bool := c ≠ ' ' && c ≠ '(' && c ≠ ')'

/-- A word that is told apart from what stands around it. -/
structure IsWord (text : String) : Prop where
  nonempty : text.toList ≠ []
  plain : ∀ c ∈ text.toList, isPlain c = true

instance (text : String) : Decidable (IsWord text) :=
  decidable_of_iff (text.toList ≠ [] ∧ text.toList.all isPlain = true)
    ⟨fun h => ⟨h.1, List.all_eq_true.mp h.2⟩, fun h => ⟨h.nonempty, List.all_eq_true.mpr h.plain⟩⟩

mutual
def Clear : Nested → Prop
  | .word text => IsWord text
  | .list parts => AllClear parts

def AllClear : List Nested → Prop
  | [] => True
  | part :: rest => part.Clear ∧ AllClear rest
end

def Stops (rest : List Char) : Prop := ∀ c, rest.head? = some c → isPlain c = false

theorem stops_nil : Stops [] := by
  intro c hc
  cases hc

theorem stops_cons {c : Char} {rest : List Char} (h : isPlain c = false) : Stops (c :: rest) := by
  intro d hd
  obtain rfl : c = d := by simpa using hd
  exact h

theorem takeWhile_word {text : String} {rest : List Char} (h : IsWord text) (hrest : Stops rest) :
    (text.toList ++ rest).takeWhile isPlain = text.toList := by
  rw [List.takeWhile_append_of_pos h.plain]
  cases rest with
  | nil => simp
  | cons c rest =>
    have hc := hrest c rfl
    rw [List.takeWhile_cons_of_neg (by simp [hc]), List.append_nil]

/-- A word and what follows it. -/
theorem word_cancel {text other : String} {u v : List Char} (h : IsWord text) (h' : IsWord other)
    (hu : Stops u) (hv : Stops v) (heq : text.toList ++ u = other.toList ++ v) : text = other ∧ u = v := by
  have htext := takeWhile_word h hu
  rw [heq, takeWhile_word h' hv] at htext
  rw [htext] at heq
  exact ⟨String.toList_inj.mp htext.symm, List.append_cancel_left heq⟩

theorem word_ne_list {text : String} {u v : List Char} (h : IsWord text) :
    text.toList ++ u ≠ '(' :: v := by
  intro heq
  obtain ⟨c, rest, htext⟩ := List.exists_cons_of_ne_nil h.nonempty
  rw [htext] at heq
  obtain ⟨rfl, -⟩ := List.cons.inj heq
  exact absurd (h.plain '(' (by simp [htext])) (by decide)

theorem written_ne_close {part : Nested} {u v : List Char} (h : part.Clear) :
    part.written ++ u ≠ ')' :: v := by
  intro heq
  cases part with
  | word text =>
    obtain ⟨c, rest, htext⟩ := List.exists_cons_of_ne_nil (IsWord.nonempty h)
    simp only [written, htext] at heq
    obtain ⟨rfl, -⟩ := List.cons.inj heq
    exact absurd (IsWord.plain h ')' (by simp [htext])) (by decide)
  | list parts => simp [written] at heq

theorem stops_following {rest : List Nested} {u : List Char} : Stops (following rest ++ ')' :: u) := by
  cases rest with
  | nil => exact stops_cons (by decide)
  | cons part rest => exact stops_cons (by decide)

mutual
/-- The text determines the list and what follows it. -/
theorem written_cancel : ∀ {a b : Nested} {u v : List Char}, a.Clear → b.Clear → Stops u → Stops v →
    a.written ++ u = b.written ++ v → a = b ∧ u = v
  | .word text, .word other, u, v, ha, hb, hu, hv, heq => by
    obtain ⟨rfl, rfl⟩ := word_cancel ha hb hu hv heq
    exact ⟨rfl, rfl⟩
  | .word text, .list parts, u, v, ha, _, _, _, heq => absurd heq (word_ne_list ha)
  | .list parts, .word text, u, v, _, hb, _, _, heq => absurd heq.symm (word_ne_list hb)
  | .list xs, .list ys, u, v, ha, hb, _, _, heq => by
    simp only [written, List.cons_append, List.append_assoc, List.nil_append, List.cons.injEq,
      true_and] at heq
    -- The first part has no space in front of it; with one added both rests have the form of `following`.
    have hrest : following xs ++ ')' :: u = following ys ++ ')' :: v := by
      cases xs with
      | nil =>
        cases ys with
        | nil => exact heq
        | cons y ys =>
          simp only [following, List.tail_nil, List.tail_cons, List.nil_append, List.append_assoc] at heq
          exact absurd heq.symm (written_ne_close hb.1)
      | cons x xs =>
        cases ys with
        | nil =>
          simp only [following, List.tail_nil, List.tail_cons, List.nil_append, List.append_assoc] at heq
          exact absurd heq (written_ne_close ha.1)
        | cons y ys => exact congrArg (List.cons ' ') heq
    obtain ⟨rfl, rfl⟩ := following_cancel ha hb hrest
    exact ⟨rfl, rfl⟩

theorem following_cancel : ∀ {xs ys : List Nested} {u v : List Char}, AllClear xs → AllClear ys →
    following xs ++ ')' :: u = following ys ++ ')' :: v → xs = ys ∧ u = v
  | [], [], _, _, _, _, heq => ⟨rfl, (List.cons.inj heq).2⟩
  | [], _ :: _, _, _, _, _, heq => by simp [following] at heq
  | _ :: _, [], _, _, _, _, heq => by simp [following] at heq
  | x :: xs, y :: ys, u, v, ha, hb, heq => by
    simp only [following, List.cons_append, List.append_assoc, List.cons.injEq, true_and] at heq
    obtain ⟨rfl, hrest⟩ := written_cancel ha.1 hb.1 stops_following stops_following heq
    obtain ⟨rfl, rfl⟩ := following_cancel ha.2 hb.2 hrest
    exact ⟨rfl, rfl⟩
end

theorem written_injective {a b : Nested} (ha : a.Clear) (hb : b.Clear) (h : a.written = b.written) :
    a = b :=
  (written_cancel ha hb stops_nil stops_nil (congrArg (· ++ []) h)).1

end Nested

end LoxLang
