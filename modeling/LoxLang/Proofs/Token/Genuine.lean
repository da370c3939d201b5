import Mathlib
import LoxLang.Token.Lexeme

set_option autoImplicit false

namespace LoxLang

/-- A word of the kind that its spelling asks for. -/
structure Token.Genuine (t : Token) : Prop where
  identifier : t.kind = .identifier → ∀ k : Keyword, t.lexeme ≠ k.spelling
  keyword : ∀ k : Keyword, t.kind = .keyword k → t.lexeme = k.spelling

namespace Lexeme

def Genuine (l : Lexeme) : Prop :=
  ∀ kind line, l.form = .token kind → Token.Genuine ⟨kind, String.ofList l.text, line⟩

theorem genuine_word (word : List Char) : Genuine ⟨.token (wordKind word), word⟩ := by
  rintro kind line ⟨⟩
  unfold wordKind
  cases h : Keyword.ofSpelling? (String.ofList word) with
  | none =>
    refine ⟨fun _ k hk => ?_, fun k hk => by simp at hk⟩
    have hspelled := Keyword.ofSpelling?_spelling k
    rw [← hk, h] at hspelled
    cases hspelled
  | some keyword =>
    refine ⟨fun hk => by simp at hk, fun k hk => ?_⟩
    obtain rfl : keyword = k := by simpa using hk
    have hfound := List.find?_some h
    simpa using (of_decide_eq_true hfound).symm

theorem genuine_of_not_word {l : Lexeme} (h : l.form ≠ .token .identifier)
    (hk : ∀ k, l.form ≠ .token (.keyword k)) : l.Genuine := by
  intro kind line hform
  refine ⟨fun hkind => ?_, fun k hkind => ?_⟩
  · have hkind : kind = .identifier := hkind
    exact absurd (hkind ▸ hform) h
  · have hkind : kind = .keyword k := hkind
    exact absurd (hkind ▸ hform) (hk k)

theorem genuine_split (c : Char) (text : List Char) : (split c text).1.Genuine := by
  unfold split
  split
  · exact genuine_of_not_word (by simp) (by simp)
  · split
    · exact genuine_of_not_word (by simp) (by simp)
    · split
      · unfold splitString
        split <;> exact genuine_of_not_word (by simp) (by simp)
      · split
        · unfold splitNumber
          split
          · split <;> exact genuine_of_not_word (by simp) (by simp)
          · exact genuine_of_not_word (by simp) (by simp)
        · split
          · exact genuine_word _
          · unfold splitMark
            split
            · exact genuine_of_not_word (by simp) (by simp)
            · split <;> exact genuine_of_not_word (by simp) (by simp)

theorem genuine_of_mem_cut {count : Nat} {text : List Char} {l : Lexeme} (h : l ∈ cut count text) :
    l.Genuine := by
  induction count generalizing text with
  | zero => simp [cut] at h
  | succ count ih =>
    cases text with
    | nil => simp [cut] at h
    | cons c text =>
      rw [cut] at h
      rcases List.mem_cons.mp h with rfl | h
      · exact genuine_split c text
      · exact ih h

theorem item?_genuine {l : Lexeme} {line : Nat} {t : Token} (hl : l.Genuine)
    (h : l.item? line = some (.ok t)) : t.Genuine := by
  unfold item? at h
  split at h
  · cases h
  · rename_i kind hform
    cases h
    exact hl kind line hform
  · cases h
  · cases h

theorem genuine_of_mem_items {line : Nat} {ls : List Lexeme} {t : Token}
    (hls : ∀ l ∈ ls, l.Genuine) (h : .ok t ∈ items line ls) : t.Genuine := by
  induction ls generalizing line with
  | nil =>
    simp only [items, List.mem_singleton, Except.ok.injEq] at h
    subst h
    exact ⟨fun hk => by simp at hk, fun k hk => by simp at hk⟩
  | cons l rest ih =>
    have hrest : ∀ line, .ok t ∈ items line rest → t.Genuine :=
      fun line => ih fun l hl => hls l (List.mem_cons_of_mem _ hl)
    rw [items] at h
    cases hitem : l.item? (line + newlines l.text) with
    | none =>
      simp only [hitem] at h
      exact hrest _ h
    | some item =>
      simp only [hitem] at h
      rcases List.mem_cons.mp h with rfl | h
      · exact item?_genuine (hls l List.mem_cons_self) hitem
      · exact hrest _ h

theorem exists_items_eq (line : Nat) (ls : List Lexeme) :
    ∃ front line', items line ls = front ++ [.ok ⟨.endOfInput, "", line'⟩] := by
  induction ls generalizing line with
  | nil => exact ⟨[], line, rfl⟩
  | cons l rest ih =>
    obtain ⟨front, line', h⟩ := ih (line + newlines l.text)
    rw [items]
    cases hitem : l.item? (line + newlines l.text) with
    | none => exact ⟨front, line', by simpa [hitem] using h⟩
    | some item => exact ⟨item :: front, line', by simp [h]⟩

end Lexeme

theorem mem_successes {ε α : Type} {xs : List (Except ε α)} {a : α} :
    a ∈ successes xs ↔ .ok a ∈ xs := by
  unfold successes
  rw [List.mem_filterMap]
  constructor
  · rintro ⟨x, hx, ha⟩
    cases x with
    | ok b =>
      obtain rfl : b = a := by simpa using ha
      exact hx
    | error e => simp at ha
  · exact fun h => ⟨.ok a, h, rfl⟩

theorem mem_failures {ε α : Type} {xs : List (Except ε α)} {e : ε} :
    e ∈ failures xs ↔ .error e ∈ xs := by
  unfold failures
  rw [List.mem_filterMap]
  constructor
  · rintro ⟨x, hx, he⟩
    cases x with
    | ok a => simp at he
    | error other =>
      obtain rfl : other = e := by simpa using he
      exact hx
  · exact fun h => ⟨.error e, h, rfl⟩

namespace Token

theorem ofSource_ok {source : String} {tokens : List Token} (h : ofSource source = .ok tokens) :
    tokens = successes (scan source) := by
  unfold ofSource at h
  split at h
  · cases h
    rfl
  · cases h

theorem ofSource_error {source : String} {errors : List Diagnostic} (h : ofSource source = .error errors) :
    errors = failures (scan source) ∧ errors ≠ [] := by
  unfold ofSource at h
  split at h
  · cases h
  · rename_i hsome
    cases h
    exact ⟨rfl, hsome⟩

theorem ofSource_genuine {source : String} {tokens : List Token}
    (h : ofSource source = .ok tokens) : ∀ t ∈ tokens, t.Genuine := by
  intro t ht
  rw [ofSource_ok h, mem_successes] at ht
  exact Lexeme.genuine_of_mem_items (fun l hl => Lexeme.genuine_of_mem_cut hl) ht

theorem ofSource_ended {source : String} {tokens : List Token} (h : ofSource source = .ok tokens) :
    ∃ body last, tokens = body ++ [last] ∧ last.kind = .endOfInput := by
  obtain ⟨front, line, hitems⟩ := Lexeme.exists_items_eq 1 (Lexeme.ofText source.toList)
  refine ⟨successes front, ⟨.endOfInput, "", line⟩, ?_, rfl⟩
  rw [ofSource_ok h, scan, hitems]
  simp [successes]

end Token

end LoxLang
