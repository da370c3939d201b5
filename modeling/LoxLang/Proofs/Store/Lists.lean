import LoxLang.Proofs.Evaluation.Panics

set_option autoImplicit false

namespace LoxLang

namespace Number

def signedGrains (n : Number) : Int := if n.isNegative then -(n.grains : Int) else n.grains

def truncated (n : Number) : Int := n.signedGrains.tdiv unit

theorem truncated_eq (n : Number) : n.truncated = if n.isNegative then -(n.whole : Int) else n.whole := by
  unfold truncated signedGrains whole
  split
  · rw [Int.neg_tdiv, Int.ofNat_tdiv]
  · rw [Int.ofNat_tdiv]

theorem truncated_nonneg_iff (n : Number) : 0 ≤ n.truncated ↔ n.isNegative = false ∨ n.whole = 0 := by
  rw [truncated_eq]
  cases n.isNegative with
  | false => simp
  | true =>
    simp only [if_true, Bool.true_eq_false, false_or]
    omega

theorem truncated_of_nonneg {n : Number} (h : 0 ≤ n.truncated) : n.truncated = n.whole := by
  rw [truncated_eq] at h ⊢
  split at h
  · rw [if_pos ‹_›]
    omega
  · rw [if_neg ‹_›]

end Number

/-- The position in a list of the given length that a value is accepted as. -/
def Value.place (index : Value) (length : Nat) : Except RuntimeError Nat :=
  match index with
  | .number n =>
    if n.isFinite = true ∧ 0 ≤ n.truncated ∧ n.truncated < length then .ok n.truncated.toNat
    else .error (.indexOutOfRange n)
  | _ => .error .indexNotNumber

theorem Value.position_eq_place (index : Value) (length : Nat) :
    index.position length = index.place length := by
  cases index with
  | number n =>
    unfold position place
    by_cases hnonneg : 0 ≤ n.truncated
    · have hwhole := Number.truncated_of_nonneg hnonneg
      have hsign := n.truncated_nonneg_iff.mp hnonneg
      have hlt : n.truncated < length ↔ n.whole < length := by omega
      have htoNat : n.truncated.toNat = n.whole := by omega
      simp only [hlt, htoNat, hnonneg, true_and]
      cases hnegative : n.isNegative with
      | false => simp
      | true =>
        have hzero : n.whole = 0 := by simpa [hnegative] using hsign
        simp [hzero]
    · have hsign := hnonneg
      rw [Number.truncated_nonneg_iff] at hsign
      obtain ⟨hnegative, hwhole⟩ := not_or.mp hsign
      simp [hnonneg, hnegative, hwhole]
  | nil | boolean | string | native | function | classValue | object => rfl

namespace ArrayMethod

def onList (method : ArrayMethod) (self : Value) (list : List Value) (arguments : List Value) :
    Except RuntimeError (Value × List Value) :=
  match method, arguments with
  | .init, [] => .ok (self, [])
  | .append, [value] => .ok (.nil, list ++ [value])
  | .pop, [] =>
    match list.getLast? with
    | some value => .ok (value, list.dropLast)
    | none => .error .popFromEmpty
  | .get, [index] => do
    let i ← index.place list.length
    return (list.getD i .nil, list)
  | .set, [index, value] => do
    let i ← index.place list.length
    return (.nil, list.set i value)
  | .size, [] => .ok (.number (.ofNat list.length), list)
  | _, _ => .error (.wrongArity method.arity arguments.length)

theorem onList_wrongArity {method : ArrayMethod} {arguments : List Value}
    (h : method.arity ≠ arguments.length) (self : Value) (list : List Value) :
    method.onList self list arguments = .error (.wrongArity method.arity arguments.length) := by
  unfold onList
  split <;> first | rfl | exact absurd rfl h

/-- The operations on the elements of an object are those on their list. An initializer answers the
object. -/
theorem onList_eq {method : ArrayMethod} {arguments : List Value} (self : Value) (elements : Array Value)
    (h : method.arity = arguments.length) :
    method.onList self elements.toList arguments = (method.answer elements arguments).map fun answer =>
      (if method = .init then self else answer, (method.change arguments elements).toList) := by
  cases method with
  | init | size =>
    obtain rfl := List.length_eq_zero_iff.mp h.symm
    rfl
  | pop =>
    obtain rfl := List.length_eq_zero_iff.mp h.symm
    simp only [onList, answer, change, Array.getLast?_toList]
    cases elements.back? <;> simp [Except.map]
  | append =>
    obtain ⟨value, rfl⟩ := List.length_eq_one_iff.mp h.symm
    simp [onList, answer, change, Except.map]
  | get =>
    obtain ⟨index, rfl⟩ := List.length_eq_one_iff.mp h.symm
    simp only [onList, answer, change, Value.position_eq_place, Array.length_toList]
    cases index.place elements.size with
    | error cause => rfl
    | ok i => simp [Except.map, bind, Except.bind, pure, Except.pure]
  | set =>
    obtain ⟨index, value, rfl⟩ := List.length_eq_two.mp h.symm
    simp only [onList, answer, change, Value.position_eq_place, Array.length_toList]
    cases index.place elements.size with
    | error cause => rfl
    | ok i => simp [Except.map, bind, Except.bind, pure, Except.pure]

end ArrayMethod

abbrev Lists := ObjectId → List Value

/-- What a method answers on the list of one object, and all lists after it. A method that fails changes
none. -/
def Lists.apply (lists : Lists) (object : ObjectId) (method : ArrayMethod) (arguments : List Value) :
    Except RuntimeError Value × Lists :=
  match method.onList (.object object) (lists object) arguments with
  | .ok (answer, list) => (.ok answer, Function.update lists object list)
  | .error cause => (.error cause, lists)

namespace Store

def lists (s : Store) : Lists := fun object => (s.elements object).toList

theorem elements_modifyElements (s : Store) {object : ObjectId}
    (h : (s.object? object).isSome = true) (f : Array Value → Array Value) (id : ObjectId) :
    (s.modifyElements object f).elements id =
      if id = object then f (s.elements object) else s.elements id := by
  unfold elements modifyElements
  rw [object?_modifyObject]
  by_cases hid : id = object
  · subst hid
    obtain ⟨o, ho⟩ := Option.isSome_iff_exists.mp h
    simp [ho]
  · cases s.object? id <;> simp [hid]

theorem lists_modifyElements (s : Store) {object : ObjectId} (h : (s.object? object).isSome = true)
    (f : Array Value → Array Value) :
    (s.modifyElements object f).lists =
      Function.update s.lists object (f (s.elements object)).toList := by
  funext id
  by_cases hid : id = object
  · simp [lists, s.elements_modifyElements h, hid]
  · simp [lists, s.elements_modifyElements h, hid]

end Store

end LoxLang
