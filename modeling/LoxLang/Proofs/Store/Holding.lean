import LoxLang.Proofs.Store.Extension

set_option autoImplicit false

namespace LoxLang

def Object.Holds (o : Object) (v : Value) : Prop :=
  (∃ name, o.fields.get? name = some v) ∨ v ∈ o.elements

namespace Store

/-- The value is in the store. -/
inductive Holds (s : Store) : Value → Prop
  | binding {frame : FrameId} {name : String} {v : Value} : s.local? frame name = some v → Holds s v
  | field {id : ObjectId} {o : Object} {name : String} {v : Value} :
    s.object? id = some o → o.fields.get? name = some v → Holds s v
  | element {id : ObjectId} {o : Object} {v : Value} :
    s.object? id = some o → v ∈ o.elements → Holds s v

namespace Holds

variable {s : Store} {v : Value}

theorem of_addFrame {enclosing : Option FrameId} (h : (s.addFrame enclosing).2.Holds v) : s.Holds v := by
  cases h with
  | binding h => exact .binding (by rwa [local?_addFrame] at h)
  | field ho h => exact .field ho h
  | element ho h => exact .element ho h

theorem of_addFunction {f : Function} (h : (s.addFunction f).2.Holds v) : s.Holds v := by
  cases h with
  | binding h => exact .binding h
  | field ho h => exact .field ho h
  | element ho h => exact .element ho h

theorem of_addClass {c : Class} (h : (s.addClass c).2.Holds v) : s.Holds v := by
  cases h with
  | binding h => exact .binding h
  | field ho h => exact .field ho h
  | element ho h => exact .element ho h

theorem of_bind {frame : FrameId} {name : String} {value : Value}
    (h : (s.bind frame name value).Holds v) : s.Holds v ∨ v = value := by
  cases h with
  | binding h =>
    rw [local?_bind] at h
    split at h
    · exact .inr (Option.some.inj h).symm
    · exact .inl (.binding h)
  | field ho h => exact .inl (.field ho h)
  | element ho h => exact .inl (.element ho h)

theorem of_addObject {C : ClassId} (h : (s.addObject ⟨C, ∅, #[]⟩).2.Holds v) : s.Holds v := by
  cases h with
  | binding h => exact .binding h
  | field ho h =>
    rw [object?_addObject] at ho
    split at ho
    · cases ho
      simp at h
    · exact .field ho h
  | element ho h =>
    rw [object?_addObject] at ho
    split at ho
    · cases ho
      simp at h
    · exact .element ho h

theorem of_modifyObject {object : ObjectId} {g : Object → Object}
    (h : (s.modifyObject object g).Holds v) :
    s.Holds v ∨ ∃ o, s.object? object = some o ∧ (g o).Holds v := by
  cases h with
  | binding h => exact .inl (.binding h)
  | @field id o' name _ ho h =>
    rw [object?_modifyObject] at ho
    obtain ⟨o, hfound, rfl⟩ := Option.map_eq_some_iff.mp ho
    split at h
    · rename_i hid
      exact .inr ⟨o, hid ▸ hfound, .inl ⟨name, h⟩⟩
    · exact .inl (.field hfound h)
  | @element id o' _ ho h =>
    rw [object?_modifyObject] at ho
    obtain ⟨o, hfound, rfl⟩ := Option.map_eq_some_iff.mp ho
    split at h
    · rename_i hid
      exact .inr ⟨o, hid ▸ hfound, .inr h⟩
    · exact .inl (.element hfound h)

theorem of_read {name : String} {place : Except RuntimeError FrameId} (h : s.read name place = .ok v) :
    s.Holds v := by
  unfold Store.read at h
  split at h
  · cases h
  · split at h
    · cases h
      exact .binding ‹_›
    · cases h

theorem of_element {object : ObjectId} (h : v ∈ s.elements object) : s.Holds v := by
  unfold Store.elements at h
  split at h
  · exact .element ‹_› h
  · simp at h

theorem of_property {object : ObjectId} {name : String} (h : s.property object name = .ok (.field v)) :
    s.Holds v := by
  unfold Store.property at h
  split at h
  · cases h
    rename_i hfield
    obtain ⟨o, ho, hv⟩ := Option.bind_eq_some_iff.mp hfield
    exact .field ho hv
  · split at h <;> cases h

end Holds

end Store

theorem Object.Holds.held {s : Store} {id : ObjectId} {o : Object} {v : Value} (h : o.Holds v)
    (ho : s.object? id = some o) : s.Holds v := by
  rcases h with ⟨name, h⟩ | h
  · exact .field ho h
  · exact .element ho h

theorem Object.holds_insert {o : Object} {name : String} {value v : Value}
    (h : Object.Holds { o with fields := o.fields.insert name value } v) : o.Holds v ∨ v = value := by
  rcases h with ⟨other, h⟩ | h
  · rw [Dictionary.get?_insert] at h
    split at h
    · exact .inr (Option.some.inj h).symm
    · exact .inl (.inl ⟨other, h⟩)
  · exact .inl (.inr h)

end LoxLang
