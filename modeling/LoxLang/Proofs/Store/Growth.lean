import LoxLang.Proofs.Store.Access

set_option autoImplicit false

namespace LoxLang

structure Frame.Grows (f f' : Frame) : Prop where
  enclosing : f'.enclosing = f.enclosing
  bound : ∀ name, (f.bindings.get? name).isSome = true → (f'.bindings.get? name).isSome = true

theorem Frame.Grows.refl (f : Frame) : f.Grows f := ⟨rfl, fun _ h => h⟩

theorem Frame.grows_insert (f : Frame) (name : String) (value : Value) :
    f.Grows { f with bindings := f.bindings.insert name value } := by
  refine ⟨rfl, fun other h => ?_⟩
  rw [Dictionary.get?_insert]
  split
  · rfl
  · exact h

namespace Store

structure Grows (s s' : Store) : Prop where
  frames : ∀ id f, s.frame? id = some f → ∃ f', s'.frame? id = some f' ∧ f.Grows f'
  functions : ∀ id f, s.function? id = some f → s'.function? id = some f
  classes : ∀ id c, s.class? id = some c → s'.class? id = some c
  objects : ∀ id o, s.object? id = some o → ∃ o', s'.object? id = some o' ∧ o'.classId = o.classId

namespace Grows

variable {s s₁ s' : Store}

theorem refl (s : Store) : s.Grows s :=
  ⟨fun _ f h => ⟨f, h, .refl f⟩, fun _ _ h => h, fun _ _ h => h, fun _ o h => ⟨o, h, rfl⟩⟩

theorem trans (h : s.Grows s₁) (h' : s₁.Grows s') : s.Grows s' := by
  refine ⟨?_, fun id f hf => h'.functions id f (h.functions id f hf),
    fun id c hc => h'.classes id c (h.classes id c hc), ?_⟩
  · intro id f hf
    obtain ⟨f₁, hf₁, hg₁⟩ := h.frames id f hf
    obtain ⟨f', hf', hg'⟩ := h'.frames id f₁ hf₁
    exact ⟨f', hf', hg'.enclosing.trans hg₁.enclosing,
      fun name hn => hg'.bound name (hg₁.bound name hn)⟩
  · intro id o ho
    obtain ⟨o₁, ho₁, hc₁⟩ := h.objects id o ho
    obtain ⟨o', ho', hc'⟩ := h'.objects id o₁ ho₁
    exact ⟨o', ho', hc'.trans hc₁⟩

end Grows

variable (s : Store)

theorem index_ne_size_of_some {α : Type} {xs : Array α} {i : Nat} {x : α} (h : xs[i]? = some x) :
    i ≠ xs.size := by
  rintro rfl
  simp at h

theorem grows_bind (frame : FrameId) (name : String) (value : Value) :
    s.Grows (s.bind frame name value) := by
  refine ⟨?_, fun _ _ h => h, fun _ _ h => h, fun _ o h => ⟨o, h, rfl⟩⟩
  intro id f hf
  rw [frame?_bind, hf]
  refine ⟨_, rfl, ?_⟩
  split
  · exact f.grows_insert name value
  · exact .refl f

theorem grows_addFrame (enclosing : Option FrameId) : s.Grows (s.addFrame enclosing).2 := by
  refine ⟨?_, fun _ _ h => h, fun _ _ h => h, fun _ o h => ⟨o, h, rfl⟩⟩
  intro id f hf
  have hne : id ≠ ⟨s.frames.size⟩ := fun h => index_ne_size_of_some hf (by rw [h])
  exact ⟨f, by rw [frame?_addFrame, if_neg hne, hf], .refl f⟩

theorem grows_addFunction (f : Function) : s.Grows (s.addFunction f).2 := by
  refine ⟨fun _ f h => ⟨f, h, .refl f⟩, ?_, fun _ _ h => h, fun _ o h => ⟨o, h, rfl⟩⟩
  intro id g hg
  have hne : id ≠ ⟨s.functions.size⟩ := fun h => index_ne_size_of_some hg (by rw [h])
  rw [function?_addFunction, if_neg hne, hg]

theorem grows_addClass (c : Class) : s.Grows (s.addClass c).2 := by
  refine ⟨fun _ f h => ⟨f, h, .refl f⟩, fun _ _ h => h, ?_, fun _ o h => ⟨o, h, rfl⟩⟩
  intro id d hd
  have hne : id ≠ ⟨s.classes.size⟩ := fun h => index_ne_size_of_some hd (by rw [h])
  rw [class?_addClass, if_neg hne, hd]

theorem grows_addObject (o : Object) : s.Grows (s.addObject o).2 := by
  refine ⟨fun _ f h => ⟨f, h, .refl f⟩, fun _ _ h => h, fun _ _ h => h, ?_⟩
  intro id p hp
  have hne : id ≠ ⟨s.objects.size⟩ := fun h => index_ne_size_of_some hp (by rw [h])
  exact ⟨p, by rw [object?_addObject, if_neg hne, hp], rfl⟩

theorem grows_modifyObject (object : ObjectId) {g : Object → Object}
    (hg : ∀ o, (g o).classId = o.classId) : s.Grows (s.modifyObject object g) := by
  refine ⟨fun _ f h => ⟨f, h, .refl f⟩, fun _ _ h => h, fun _ _ h => h, ?_⟩
  intro id o ho
  rw [object?_modifyObject, ho]
  refine ⟨_, rfl, ?_⟩
  split
  · exact hg o
  · rfl

theorem grows_bindMethod (method : FunctionId) (object : ObjectId) :
    s.Grows (s.bindMethod method object).2 := by
  cases hf : s.function? method with
  | none => simpa [bindMethod, hf] using Grows.refl s
  | some f =>
    rw [bindMethod_eq hf]
    exact ((grows_addFrame s _).trans (grows_bind _ _ _ _)).trans (grows_addFunction _ _)

theorem grows_bindAll (frame : FrameId) (entries : List (Token × Value)) :
    s.Grows (entries.foldl (fun s entry => s.bind frame entry.1.lexeme entry.2) s) := by
  induction entries generalizing s with
  | nil => exact Grows.refl s
  | cons entry rest ih => exact (grows_bind s _ _ _).trans (ih _)

end Store

/-- All functions in the store that have a declaration satisfy a condition, which may depend on
whether they are initializers. -/
def Store.Stored (D : Declaration → Bool → Prop) (s : Store) : Prop :=
  ∀ id f d, s.function? id = some f → f.code = .declared d → D d f.initializes

namespace Store.Stored

variable {D : Declaration → Bool → Prop} {s : Store}

theorem of_functions {s' : Store} (h : s.Stored D) (hs : s'.functions = s.functions) :
    s'.Stored D := by
  intro id f d hf
  exact h id f d (by simpa [function?, hs] using hf)

theorem addFunction (h : s.Stored D) {f : Function} (hf : ∀ d, f.code = .declared d → D d f.initializes) :
    (s.addFunction f).2.Stored D := by
  intro id g d hg hd
  rw [function?_addFunction] at hg
  split at hg
  · cases hg
    exact hf d hd
  · exact h id g d hg hd

theorem bindMethod (h : s.Stored D) (method : FunctionId) (object : ObjectId) :
    (s.bindMethod method object).2.Stored D := by
  cases hf : s.function? method with
  | none => simpa [Store.bindMethod, hf] using h
  | some f =>
    rw [bindMethod_eq hf]
    exact addFunction (h.of_functions rfl) fun d hd => h method f d hf hd

theorem bindAll (h : s.Stored D) (frame : FrameId) (entries : List (Token × Value)) :
    (entries.foldl (fun s entry => s.bind frame entry.1.lexeme entry.2) s).Stored D := by
  induction entries generalizing s with
  | nil => exact h
  | cons entry rest ih => exact ih (h.of_functions rfl)

end Store.Stored

end LoxLang
