import Mathlib
import LoxLang.Store.Prelude

set_option autoImplicit false

namespace LoxLang

namespace Store

variable (s : Store)

theorem frame?_addFrame (enclosing : Option FrameId) (id : FrameId) :
    (s.addFrame enclosing).2.frame? id =
      if id = ⟨s.frames.size⟩ then some ⟨∅, enclosing⟩ else s.frame? id := by
  obtain ⟨i⟩ := id
  simp [addFrame, frame?, Array.getElem?_push]

theorem frame?_bind (frame id : FrameId) (name : String) (value : Value) :
    (s.bind frame name value).frame? id =
      (s.frame? id).map fun f =>
        if id = frame then { f with bindings := f.bindings.insert name value } else f := by
  obtain ⟨i⟩ := id
  obtain ⟨j⟩ := frame
  by_cases h : i = j
  · simp [bind, frame?, Array.getElem?_modify, h]
  · simp [bind, frame?, Array.getElem?_modify, h, Ne.symm h]

@[simp] theorem function?_addFrame (enclosing : Option FrameId) (id : FunctionId) :
    (s.addFrame enclosing).2.function? id = s.function? id := rfl

@[simp] theorem class?_addFrame (enclosing : Option FrameId) (id : ClassId) :
    (s.addFrame enclosing).2.class? id = s.class? id := rfl

@[simp] theorem object?_addFrame (enclosing : Option FrameId) (id : ObjectId) :
    (s.addFrame enclosing).2.object? id = s.object? id := rfl

@[simp] theorem function?_bind (frame : FrameId) (name : String) (value : Value) (id : FunctionId) :
    (s.bind frame name value).function? id = s.function? id := rfl

@[simp] theorem class?_bind (frame : FrameId) (name : String) (value : Value) (id : ClassId) :
    (s.bind frame name value).class? id = s.class? id := rfl

@[simp] theorem object?_bind (frame : FrameId) (name : String) (value : Value) (id : ObjectId) :
    (s.bind frame name value).object? id = s.object? id := rfl

theorem function?_addFunction (f : Function) (id : FunctionId) :
    (s.addFunction f).2.function? id =
      if id = ⟨s.functions.size⟩ then some f else s.function? id := by
  obtain ⟨i⟩ := id
  simp [addFunction, function?, Array.getElem?_push]

@[simp] theorem frame?_addFunction (f : Function) (id : FrameId) :
    (s.addFunction f).2.frame? id = s.frame? id := rfl

@[simp] theorem class?_addFunction (f : Function) (id : ClassId) :
    (s.addFunction f).2.class? id = s.class? id := rfl

@[simp] theorem object?_addFunction (f : Function) (id : ObjectId) :
    (s.addFunction f).2.object? id = s.object? id := rfl

theorem class?_addClass (c : Class) (id : ClassId) :
    (s.addClass c).2.class? id = if id = ⟨s.classes.size⟩ then some c else s.class? id := by
  obtain ⟨i⟩ := id
  simp [addClass, class?, Array.getElem?_push]

@[simp] theorem frame?_addClass (c : Class) (id : FrameId) :
    (s.addClass c).2.frame? id = s.frame? id := rfl

@[simp] theorem function?_addClass (c : Class) (id : FunctionId) :
    (s.addClass c).2.function? id = s.function? id := rfl

@[simp] theorem object?_addClass (c : Class) (id : ObjectId) :
    (s.addClass c).2.object? id = s.object? id := rfl

theorem object?_addObject (o : Object) (id : ObjectId) :
    (s.addObject o).2.object? id = if id = ⟨s.objects.size⟩ then some o else s.object? id := by
  obtain ⟨i⟩ := id
  simp [addObject, object?, Array.getElem?_push]

@[simp] theorem frame?_addObject (o : Object) (id : FrameId) :
    (s.addObject o).2.frame? id = s.frame? id := rfl

@[simp] theorem function?_addObject (o : Object) (id : FunctionId) :
    (s.addObject o).2.function? id = s.function? id := rfl

@[simp] theorem class?_addObject (o : Object) (id : ClassId) :
    (s.addObject o).2.class? id = s.class? id := rfl

theorem object?_modifyObject (object id : ObjectId) (g : Object → Object) :
    (s.modifyObject object g).object? id =
      (s.object? id).map fun o => if id = object then g o else o := by
  obtain ⟨i⟩ := id
  obtain ⟨j⟩ := object
  by_cases h : i = j
  · simp [modifyObject, object?, Array.getElem?_modify, h]
  · simp [modifyObject, object?, Array.getElem?_modify, h, Ne.symm h]

@[simp] theorem frame?_modifyObject (object : ObjectId) (g : Object → Object) (id : FrameId) :
    (s.modifyObject object g).frame? id = s.frame? id := rfl

@[simp] theorem function?_modifyObject (object : ObjectId) (g : Object → Object) (id : FunctionId) :
    (s.modifyObject object g).function? id = s.function? id := rfl

@[simp] theorem class?_modifyObject (object : ObjectId) (g : Object → Object) (id : ClassId) :
    (s.modifyObject object g).class? id = s.class? id := rfl

theorem frame?_isSome_iff (id : FrameId) :
    (s.frame? id).isSome = true ↔ id.index < s.frames.size := by
  simp [frame?]

variable {s} in
theorem bindMethod_eq {method : FunctionId} {object : ObjectId} {f : Function}
    (hf : s.function? method = some f) :
    s.bindMethod method object =
      (((s.addFrame (some f.closure)).2.bind ⟨s.frames.size⟩ "this" (.object object))).addFunction
        { f with closure := ⟨s.frames.size⟩ } := by
  simp [bindMethod, hf, addFrame]

end Store

end LoxLang
