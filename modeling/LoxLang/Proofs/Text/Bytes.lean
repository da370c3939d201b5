import Mathlib.Data.String.Basic

set_option autoImplicit false

namespace LoxLang

def encoded (text : List Char) : List UInt8 := text.flatMap String.utf8EncodeChar

def bytesOf (source : String) : List UInt8 := source.toByteArray.data.toList

def asChar (byte : UInt8) : Char := Char.ofNat byte.toNat

def byteSlice? (bytes : List UInt8) (start stop : Nat) : Option (List UInt8) :=
  if start ≤ stop ∧ stop ≤ bytes.length then some ((bytes.take stop).drop start) else none

/-- The text between two positions. It exists if they are in order and between characters of the source
text, which does not go on behind its end. -/
def slice? (source : String) (start stop : Nat) : Option String :=
  if start ≤ stop && String.Pos.Raw.isValid source ⟨start⟩ && String.Pos.Raw.isValid source ⟨stop⟩ then
    some (String.Pos.Raw.extract source ⟨start⟩ ⟨stop⟩)
  else none

@[simp]
theorem encoded_nil : encoded [] = [] := rfl

@[simp]
theorem encoded_cons (c : Char) (text : List Char) :
    encoded (c :: text) = String.utf8EncodeChar c ++ encoded text := rfl

@[simp]
theorem encoded_append (text more : List Char) : encoded (text ++ more) = encoded text ++ encoded more :=
  List.flatMap_append

theorem length_encoded (text : List Char) : (encoded text).length = String.utf8Len text := by
  induction text with
  | nil => rfl
  | cons c text ih =>
    rw [encoded_cons, List.length_append, ih, String.utf8Len_cons, String.length_utf8EncodeChar, Nat.add_comm]

theorem length_le_encoded (text : List Char) : text.length ≤ (encoded text).length := by
  induction text with
  | nil => rfl
  | cons c text ih =>
    have hone := Char.utf8Size_pos c
    rw [encoded_cons, List.length_append, String.length_utf8EncodeChar, List.length_cons]
    omega

theorem bytesOf_ofList (text : List Char) : bytesOf (String.ofList text) = encoded text := by
  rw [bytesOf, String.toByteArray_ofList, List.utf8Encode, List.data_toByteArray, encoded]

theorem bytesOf_inj {a b : String} : bytesOf a = bytesOf b ↔ a = b := by
  rw [bytesOf, bytesOf, Array.toList_inj, ← ByteArray.ext_iff, String.toByteArray_inj]

theorem isValid_encoded (text more : List Char) :
    String.Pos.Raw.isValid (String.ofList (text ++ more)) ⟨(encoded text).length⟩ = true := by
  refine String.Pos.Raw.isValid_eq_true_iff.mpr (String.Pos.Raw.isValid_iff_exists_append.mpr ?_)
  exact ⟨String.ofList text, String.ofList more, String.ofList_append,
    by rw [String.rawEndPos_ofList, length_encoded]⟩

theorem slice?_ofList (before word after : List Char) :
    slice? (String.ofList (before ++ word ++ after)) (encoded before).length
        (encoded (before ++ word)).length = some (String.ofList word) := by
  have hstart : String.Pos.Raw.isValid (String.ofList (before ++ word ++ after))
      ⟨(encoded before).length⟩ = true := by
    rw [List.append_assoc]
    exact isValid_encoded before (word ++ after)
  have hstop := isValid_encoded (before ++ word) after
  have hle : (encoded before).length ≤ (encoded (before ++ word)).length := by simp
  rw [slice?, hstart, hstop, decide_eq_true hle]
  rw [length_encoded, length_encoded, String.utf8Len_append, String.extract_of_valid]
  rfl

theorem encode_of_lt {c : Char} (h : c.toNat < 128) : String.utf8EncodeChar c = [UInt8.ofNat c.toNat] := by
  unfold String.utf8EncodeChar
  exact if_pos (Nat.le_of_lt_succ h)

theorem asChar_of_lt {c : Char} (h : c.toNat < 128) : asChar (UInt8.ofNat c.toNat) = c := by
  have hmod : c.toNat % 2 ^ 8 = c.toNat := Nat.mod_eq_of_lt (by omega)
  rw [asChar, UInt8.toNat_ofNat', hmod, Char.ofNat_toNat]

theorem le_of_mem_encode {c : Char} (h : 128 ≤ c.toNat) {byte : UInt8}
    (hbyte : byte ∈ String.utf8EncodeChar c) : 128 ≤ byte.toNat := by
  have hc : ¬c.val.toNat ≤ 127 := Nat.not_le_of_lt h
  unfold String.utf8EncodeChar at hbyte
  rw [if_neg hc] at hbyte
  -- The sequences of two, three and four bytes have the high bit set in each.
  split at hbyte <;> try split at hbyte
  all_goals
    simp only [List.mem_cons, List.not_mem_nil, or_false] at hbyte
    rcases hbyte with rfl | rfl | rfl | rfl <;> rw [UInt8.toNat_ofNat'] <;> omega

theorem toNat_asChar (byte : UInt8) : (asChar byte).toNat = byte.toNat := by
  have hbyte := byte.toNat_lt
  have hvalid : byte.toNat.isValidChar := .inl (by omega)
  rw [asChar, Char.ofNat, dif_pos hvalid]
  rfl

/-- All bytes of a character are seen as itself, or the character is larger than one byte, and they all
are seen as larger than that, too. -/
theorem asChar_of_mem {c : Char} {byte : UInt8} (h : byte ∈ String.utf8EncodeChar c) :
    asChar byte = c ∨ 128 ≤ c.toNat ∧ 128 ≤ (asChar byte).toNat := by
  by_cases hc : c.toNat < 128
  · rw [encode_of_lt hc, List.mem_singleton] at h
    exact .inl (h ▸ asChar_of_lt hc)
  · have hc : 128 ≤ c.toNat := Nat.le_of_not_lt hc
    exact .inr ⟨hc, toNat_asChar byte ▸ le_of_mem_encode hc h⟩

/-- The test answers the same for all characters of more than one byte. -/
def Uniform (test : Char → Bool) (answer : Bool) : Prop := ∀ c : Char, 128 ≤ c.toNat → test c = answer

theorem Uniform.test_byte {test : Char → Bool} {answer : Bool} (h : Uniform test answer) {c : Char}
    {byte : UInt8} (hbyte : byte ∈ String.utf8EncodeChar c) : test (asChar byte) = test c := by
  obtain hsame | ⟨hc, hchar⟩ := asChar_of_mem hbyte
  · rw [hsame]
  · rw [h _ hc, h _ hchar]

theorem Uniform.toNat_lt {test : Char → Bool} (h : Uniform test false) {c : Char} (hc : test c = true) :
    c.toNat < 128 := by
  by_contra hlarge
  rw [h c (Nat.le_of_not_lt hlarge)] at hc
  cases hc

theorem Uniform.takeWhile_encoded {test : Char → Bool} {answer : Bool} (h : Uniform test answer)
    (text : List Char) :
    (encoded text).takeWhile (fun byte => test (asChar byte)) = encoded (text.takeWhile test) := by
  induction text with
  | nil => rfl
  | cons c text ih =>
    cases htest : test c with
    | true =>
      have hall : ∀ byte ∈ String.utf8EncodeChar c, test (asChar byte) = true :=
        fun byte hbyte => (h.test_byte hbyte).trans htest
      rw [encoded_cons, List.takeWhile_append_of_pos hall, ih, List.takeWhile_cons_of_pos htest, encoded_cons]
    | false =>
      obtain ⟨byte, more, hbytes⟩ := List.exists_cons_of_ne_nil (String.utf8EncodeChar_ne_nil (c := c))
      have hfirst : test (asChar byte) = false := (h.test_byte (by simp [hbytes])).trans htest
      rw [encoded_cons, hbytes, List.cons_append, List.takeWhile_cons_of_neg (by simp [hfirst]),
        List.takeWhile_cons_of_neg (by simp [htest]), encoded_nil]

theorem Uniform.headD_encoded {test : Char → Bool} (h : Uniform test false) (hzero : test (asChar 0) = false)
    (text : List Char) : test (asChar ((encoded text).headD 0)) = text.head?.any test := by
  cases text with
  | nil => exact hzero
  | cons c text =>
    obtain ⟨byte, more, hbytes⟩ := List.exists_cons_of_ne_nil (String.utf8EncodeChar_ne_nil (c := c))
    rw [encoded_cons, hbytes, List.cons_append]
    exact h.test_byte (by simp [hbytes])

theorem uniform_equals {c : Char} (h : c.toNat < 128) : Uniform (fun d => decide (d = c)) false :=
  fun d hd => decide_eq_false fun hsame => by
    rw [hsame] at hd
    omega

theorem uniform_differs {c : Char} (h : c.toNat < 128) : Uniform (fun d => decide (d ≠ c)) true :=
  fun d hd => decide_eq_true fun hsame => by
    rw [hsame] at hd
    omega

theorem countP_encoded {test : Char → Bool} (h : Uniform test false) (text : List Char) :
    (encoded text).countP (fun byte => test (asChar byte)) = text.countP test := by
  induction text with
  | nil => rfl
  | cons c text ih =>
    rw [encoded_cons, List.countP_append, ih, List.countP_cons, Nat.add_comm]
    congr 1
    by_cases hc : c.toNat < 128
    · simp [encode_of_lt hc, asChar_of_lt hc, List.countP_cons]
    · have hc : test c = false := h c (Nat.le_of_not_lt hc)
      rw [List.countP_eq_zero.mpr fun byte hbyte => by simp [h.test_byte hbyte, hc], hc]
      rfl

end LoxLang
