import Mathlib
import LoxLang.Evaluation

set_option autoImplicit false

namespace LoxLang

def Value.isData : Value → Bool
  | .nil | .boolean _ | .number _ | .string _ => true
  | .native _ | .function _ | .classValue _ | .object _ => false

theorem Literal.isData_value (value : Literal) : value.value.isData = true := by cases value <;> rfl

theorem isData_applyUnary {operator : Token} {v w : Value} (h : applyUnary operator v = .ok w) :
    w.isData = true := by
  unfold applyUnary at h
  split at h
  · split at h <;> cases h
    rfl
  · cases h
    rfl
  · cases h

theorem isData_applyBinary {operator : Token} {l r w : Value} (h : applyBinary operator l r = .ok w) :
    w.isData = true := by
  unfold applyBinary at h
  split at h
  · unfold addValues at h
    split at h <;> cases h <;> rfl
  · cases h
    rfl
  · cases h
    rfl
  · split at h
    · unfold applyToNumbers at h
      split at h <;> cases h <;> rfl
    · cases h

theorem isData_parseNumber {v w : Value} (h : parseNumber v = .ok w) : w.isData = true := by
  unfold parseNumber at h
  split at h
  · cases h
    rfl
  · split at h
    · cases h
      rfl
    · cases h
  · cases h

namespace ArrayMethod

variable {method : ArrayMethod} {arguments : List Value} {elements : Array Value} {v : Value}

theorem mem_of_answer (h : method.answer elements arguments = .ok v) :
    v ∈ elements ∨ v.isData = true := by
  unfold ArrayMethod.answer at h
  split at h
  · cases h
    exact .inr rfl
  · cases h
    exact .inr rfl
  · split at h
    · cases h
      rename_i i _
      by_cases hi : i < elements.size
      · exact .inl (by simp [Array.getD, hi])
      · exact .inr (by simp [Array.getD, hi, Value.isData])
    · cases h
  · split at h <;> cases h
    exact .inr rfl
  · cases h
    exact .inr rfl
  · split at h
    · cases h
      exact .inl (Array.mem_of_back? ‹_›)
    · cases h
  · cases h

theorem mem_change (h : v ∈ method.change arguments elements) : v ∈ elements ∨ v ∈ arguments := by
  unfold ArrayMethod.change at h
  split at h
  · simp at h
  · split at h
    · rcases Array.mem_or_eq_of_mem_setIfInBounds h with h | rfl
      · exact .inl h
      · exact .inr (by simp)
    · exact .inl h
  · rcases Array.mem_push.mp h with h | rfl
    · exact .inl h
    · exact .inr (by simp)
  · rw [Array.mem_def, Array.toList_pop] at h
    exact .inl (Array.mem_def.mpr (List.mem_of_mem_dropLast h))
  · exact .inl h

end ArrayMethod

end LoxLang
