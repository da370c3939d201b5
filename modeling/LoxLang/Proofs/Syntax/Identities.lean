import Mathlib
import LoxLang.Syntax.Reference

set_option autoImplicit false

namespace LoxLang

def identities (refs : List (ReferenceKind × Reference)) : List Nat :=
  refs.map fun r => r.2.id

@[simp] theorem identities_nil : identities [] = [] := rfl

@[simp] theorem identities_cons (r : ReferenceKind × Reference)
    (refs : List (ReferenceKind × Reference)) :
    identities (r :: refs) = r.2.id :: identities refs := rfl

@[simp] theorem identities_append (a b : List (ReferenceKind × Reference)) :
    identities (a ++ b) = identities a ++ identities b := List.map_append ..

/-- Identities that were drawn from `lo` on before `hi` was the next one. -/
structure Drawn (lo hi : Nat) (ids : List Nat) : Prop where
  le : lo ≤ hi
  nodup : ids.Nodup
  bounds : ∀ i ∈ ids, lo ≤ i ∧ i < hi

namespace Drawn

variable {lo mid hi : Nat} {ids more : List Nat}

theorem nil (h : lo ≤ hi) : Drawn lo hi [] := ⟨h, List.nodup_nil, by simp⟩

theorem single (lo : Nat) : Drawn lo (lo + 1) [lo] := ⟨by omega, by simp, by simp⟩

theorem append (a : Drawn lo mid ids) (b : Drawn mid hi more) : Drawn lo hi (ids ++ more) := by
  refine ⟨Nat.le_trans a.le b.le, ?_, ?_⟩
  · rw [List.nodup_append]
    refine ⟨a.nodup, b.nodup, ?_⟩
    intro i hi j hj heq
    have h₁ := (a.bounds i hi).2
    have h₂ := (b.bounds j hj).1
    omega
  · intro i hi
    have ha := a.le
    have hb := b.le
    rcases List.mem_append.mp hi with h | h
    · have := a.bounds i h
      omega
    · have := b.bounds i h
      omega

theorem perm (a : Drawn lo hi ids) (h : more.Perm ids) : Drawn lo hi more :=
  ⟨a.le, h.nodup_iff.mpr a.nodup, fun i hi => a.bounds i (h.mem_iff.mp hi)⟩

theorem widen (a : Drawn mid hi ids) (h : lo ≤ mid) : Drawn lo hi ids :=
  (nil h).append a

theorem extend (a : Drawn lo mid ids) (h : mid ≤ hi) : Drawn lo hi ids := by
  simpa using a.append (nil h)

/-- The reference of an assignment is drawn last and stands first. -/
theorem push (a : Drawn lo hi ids) : Drawn lo (hi + 1) (hi :: ids) := by
  refine ⟨Nat.le_succ_of_le a.le, ?_, ?_⟩
  · rw [List.nodup_cons]
    refine ⟨?_, a.nodup⟩
    intro h
    have := (a.bounds hi h).2
    omega
  · intro i hi
    have hle := a.le
    rcases List.mem_cons.mp hi with rfl | h
    · exact ⟨hle, by omega⟩
    · have := a.bounds i h
      omega

end Drawn

end LoxLang
