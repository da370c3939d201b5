import LoxLang.Proofs.Store.Access
import LoxLang.Proofs.Store.Growth
import LoxLang.Proofs.Syntax.Relabeling

set_option autoImplicit false

namespace LoxLang

def Code.relabel (ρ : Relabeling) : Code → Code
  | .declared d => .declared (d.relabel ρ)
  | .array method => .array method

def Function.relabel (ρ : Relabeling) (f : Function) : Function := { f with code := f.code.relabel ρ }

def Store.relabel (ρ : Relabeling) (s : Store) : Store :=
  { s with functions := s.functions.map (Function.relabel ρ) }

section

variable {ρ : Relabeling}

@[simp] theorem Function.closure_relabel (f : Function) : (f.relabel ρ).closure = f.closure := rfl

@[simp] theorem Function.initializes_relabel (f : Function) :
    (f.relabel ρ).initializes = f.initializes := rfl

@[simp] theorem Function.name_relabel (f : Function) : (f.relabel ρ).name = f.name := by
  obtain ⟨code, closure, initializes⟩ := f
  cases code <;> simp [Function.relabel, Code.relabel, Function.name]

@[simp] theorem Function.arity_relabel (f : Function) : (f.relabel ρ).arity = f.arity := by
  obtain ⟨code, closure, initializes⟩ := f
  cases code <;> simp [Function.relabel, Code.relabel, Function.arity]

theorem Function.relabel_of_builtIn {f : Function} (h : ∀ d, f.code ≠ .declared d) :
    f.relabel ρ = f := by
  obtain ⟨code, closure, initializes⟩ := f
  cases code with
  | declared d => exact absurd rfl (h d)
  | array method => rfl

namespace Store

variable (s : Store)

@[simp] theorem local?_relabel (frame : FrameId) (name : String) :
    (s.relabel ρ).local? frame name = s.local? frame name := rfl

@[simp] theorem enclosing?_relabel (frame : FrameId) :
    (s.relabel ρ).enclosing? frame = s.enclosing? frame := rfl

theorem ancestor?_relabel (distance : Nat) (frame : FrameId) :
    (s.relabel ρ).ancestor? distance frame = s.ancestor? distance frame := by
  induction distance generalizing frame with
  | zero => rfl
  | succ distance ih => simp only [ancestor?, enclosing?_relabel, ih]

theorem binder?_relabel (name : String) (bound : Nat) (frame : FrameId) :
    (s.relabel ρ).binder? name bound frame = s.binder? name bound frame := by
  induction bound generalizing frame with
  | zero => rfl
  | succ bound ih => simp only [binder?, local?_relabel, enclosing?_relabel, ih]

@[simp] theorem holder_relabel (frame : FrameId) (name : String) :
    (s.relabel ρ).holder frame name = s.holder frame name := by
  simp only [holder, nearest?, binder?_relabel]
  rfl

@[simp] theorem holderAt_relabel (frame : FrameId) (distance : Nat) (name : String) :
    (s.relabel ρ).holderAt frame distance name = s.holderAt frame distance name := by
  simp only [holderAt, ancestor?_relabel, local?_relabel]
  rfl

theorem read_relabel (name : String) (holder : Except RuntimeError FrameId) :
    (s.relabel ρ).read name holder = s.read name holder := by
  cases holder <;> rfl

@[simp] theorem lookup_relabel (frame : FrameId) (name : String) :
    (s.relabel ρ).lookup frame name = s.lookup frame name := by
  rw [lookup, holder_relabel, read_relabel, lookup]

@[simp] theorem lookupAt_relabel (frame : FrameId) (distance : Nat) (name : String) :
    (s.relabel ρ).lookupAt frame distance name = s.lookupAt frame distance name := by
  rw [lookupAt, holderAt_relabel, read_relabel, lookupAt]

@[simp] theorem function?_relabel (id : FunctionId) :
    (s.relabel ρ).function? id = (s.function? id).map (Function.relabel ρ) :=
  Array.getElem?_map

@[simp] theorem functionName_relabel (id : FunctionId) :
    (s.relabel ρ).functionName id = s.functionName id := by
  rw [functionName, functionName, function?_relabel]
  cases s.function? id with
  | none => rfl
  | some f => exact f.name_relabel

@[simp] theorem functionArity_relabel (id : FunctionId) :
    (s.relabel ρ).functionArity id = s.functionArity id := by
  rw [functionArity, functionArity, function?_relabel]
  cases s.function? id with
  | none => rfl
  | some f => exact f.arity_relabel

@[simp] theorem className_relabel (id : ClassId) : (s.relabel ρ).className id = s.className id := rfl

theorem methodAmong?_relabel (name : String) (bound : Nat) (id : ClassId) :
    (s.relabel ρ).methodAmong? name bound id = s.methodAmong? name bound id := by
  have hclass : ∀ id, (s.relabel ρ).class? id = s.class? id := fun _ => rfl
  induction bound generalizing id with
  | zero => rfl
  | succ bound ih => simp only [methodAmong?, hclass, ih]

@[simp] theorem method?_relabel (id : ClassId) (name : String) :
    (s.relabel ρ).method? id name = s.method? id name :=
  s.methodAmong?_relabel name _ id

@[simp] theorem classArity_relabel (id : ClassId) : (s.relabel ρ).classArity id = s.classArity id := by
  simp only [classArity, method?_relabel, functionArity_relabel]

@[simp] theorem receiver?_relabel (frame : FrameId) :
    (s.relabel ρ).receiver? frame = s.receiver? frame := rfl

@[simp] theorem methodOf?_relabel (object : ObjectId) (name : String) :
    (s.relabel ρ).methodOf? object name = s.methodOf? object name := by
  have hclass : (s.relabel ρ).classOf? object = s.classOf? object := rfl
  simp only [methodOf?, hclass, method?_relabel]

@[simp] theorem property_relabel (object : ObjectId) (name : String) :
    (s.relabel ρ).property object name = s.property object name := by
  have hobject : (s.relabel ρ).object? object = s.object? object := rfl
  simp only [property, hobject, methodOf?_relabel]

@[simp] theorem elements_relabel (object : ObjectId) : (s.relabel ρ).elements object = s.elements object :=
  rfl

@[simp] theorem text_relabel (value : Value) : (s.relabel ρ).text value = s.text value := by
  cases value with
  | boolean b => cases b <;> rfl
  | function id => simp only [text, functionName_relabel]
  | _ => rfl

theorem addFunction_relabel (f : Function) :
    (s.relabel ρ).addFunction (f.relabel ρ) =
      ((s.addFunction f).1, (s.addFunction f).2.relabel ρ) := by
  simp [addFunction, relabel]

theorem bindMethod_relabel (method : FunctionId) (object : ObjectId) :
    (s.relabel ρ).bindMethod method object =
      ((s.bindMethod method object).1, (s.bindMethod method object).2.relabel ρ) := by
  have hfunction := s.function?_relabel (ρ := ρ) method
  cases hf : s.function? method with
  | none =>
    rw [hf] at hfunction
    simp only [bindMethod, hf, hfunction, Option.map_none]
  | some f =>
    rw [hf] at hfunction
    rw [bindMethod_eq hf, bindMethod_eq hfunction]
    exact addFunction_relabel ((s.addFrame (some f.closure)).2.bind ⟨s.frames.size⟩ "this"
      (.object object)) { f with closure := ⟨s.frames.size⟩ }

theorem bindAll_relabel (frame : FrameId) (parameters : List Token) (arguments : List Value) :
    ((parameters.map (Token.relabel ρ)).zip arguments).foldl
        (fun s (name, value) => s.bind frame name.lexeme value) (s.relabel ρ) =
      ((parameters.zip arguments).foldl
        (fun s (name, value) => s.bind frame name.lexeme value) s).relabel ρ := by
  induction parameters generalizing s arguments with
  | nil => rfl
  | cons name rest ih =>
    cases arguments with
    | nil => rfl
    | cons value more => exact ih (s.bind frame name.lexeme value) more

theorem relabel_of_builtIn (h : s.Stored fun _ _ => False) : s.relabel ρ = s := by
  have hfunctions : s.functions.map (Function.relabel ρ) = s.functions := by
    refine Array.ext (by simp) fun i hi hi' => ?_
    rw [Array.getElem_map]
    have hfound : s.function? ⟨i⟩ = some s.functions[i] := Array.getElem?_eq_getElem hi'
    exact Function.relabel_of_builtIn fun d hd => h _ _ d hfound hd
  rw [relabel, hfunctions]

end Store

end

end LoxLang
