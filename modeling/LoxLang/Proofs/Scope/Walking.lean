import LoxLang.Proofs.Scope.Marks
import Mathlib.Data.Nat.PSub

/-!
The static pass as a walk that keeps its surroundings in its state.

The walk counts the loops it is in, remembers the function and the class, and puts all of it back when it
leaves. Leaving a loop takes one from the count, and has no result where the count is zero. A statement leaves
the surroundings as they were, so there always is a result, and it is that of resolving.
-/

set_option autoImplicit false

namespace LoxLang

structure Walk extends Resolution where
  function : EnclosingFunction
  classBody : EnclosingClass
  /-- The loops around, up to the innermost function. -/
  loops : Nat
  initializing : Option String

namespace Walk

def start : Walk := ⟨.start, .outside, .outside, 0, none⟩

def on (w : Walk) (change : Resolution → Resolution) : Walk :=
  { w with toResolution := change w.toResolution }

def around (w : Walk) : Surroundings := ⟨w.function, w.classBody, decide (w.loops ≠ 0)⟩

def expression (w : Walk) (e : Expr) : Walk := w.on (e.resolve w.around w.initializing)

def expressionOption (w : Walk) : Option Expr → Walk
  | none => w
  | some e => w.expression e

def declareDefine (w : Walk) (name : Token) : Walk := w.on fun r => (r.declare name).define name

def openScope (w : Walk) : Walk := w.on Resolution.openScope
def closeScope (w : Walk) : Walk := w.on Resolution.closeScope

def enterLoop (w : Walk) : Walk := { w with loops := w.loops + 1 }

def leaveLoop (w : Walk) : Option Walk := do
  return { w with loops := ← w.loops.psub 1 }

def inInitializer (w : Walk) (globalName : Option String) : Walk := { w with initializing := globalName }
def inClass (w : Walk) (body : EnclosingClass) : Walk := { w with classBody := body }
def inFunction (w : Walk) (kind : EnclosingFunction) (loops : Nat) : Walk :=
  { w with function := kind, loops }

end Walk

mutual
def Stmt.walk : Stmt → Walk → Option Walk
  | .expression value, w | .print value, w => some (w.expression value)
  | .declareVar name none, w => some (w.declareDefine name)
  | .declareVar name (some value), w =>
    let w := w.on fun r => r.declare name
    let w := if w.scopes.isEmpty then w.inInitializer (some name.lexeme) else w
    some (((w.expression value).inInitializer none).on fun r => r.define name)
  | .block body, w => do
    return (← Stmt.walkAll body w.openScope).closeScope
  | .branch condition thenBranch (some elseBranch), w => do
    elseBranch.walk (← thenBranch.walk (w.expression condition))
  | .branch condition thenBranch none, w => thenBranch.walk (w.expression condition)
  | .loop (some initializer) condition increment body, w => do
    let w ← initializer.walk w.openScope
    let w ← body.walk (w.expression condition).enterLoop
    let w ← w.leaveLoop
    return (← Stmt.walkOption increment w).closeScope
  | .loop none condition increment body, w => do
    let w ← body.walk (w.expression condition).enterLoop
    Stmt.walkOption increment (← w.leaveLoop)
  | .declareFunction declaration, w => declaration.walk .function (w.declareDefine declaration.name)
  | .returnWith keyword value, w =>
    let w := w.on (Resolution.reportIf (w.function = .outside) keyword .returnAtTopLevel)
    let w := w.on
      (Resolution.reportIf (value.isSome && w.function = .initializer) keyword .returnFromInitializer)
    some (w.expressionOption value)
  | .breakLoop keyword, w =>
    some (w.on (Resolution.reportIf (w.loops = 0) keyword .breakOutsideLoop))
  | .continueLoop keyword, w =>
    some (w.on (Resolution.reportIf (w.loops = 0) keyword .continueOutsideLoop))
  | .declareClass name none methods, w => do
    let back := w.classBody
    let w := (w.inClass .base).declareDefine name
    let w := w.openScope.on fun r => r.defineName "this"
    let w ← Declaration.walkAll methods w
    return w.closeScope.inClass back
  | .declareClass name (some superclass) methods, w => do
    let back := w.classBody
    let w := (w.inClass .base).declareDefine name
    let w := w.on
      (Resolution.reportIf (superclass.name.lexeme = name.lexeme) superclass.name .inheritsFromItself)
    let w := (w.inClass .derived).on fun r => r.record superclass
    let w := w.openScope.on fun r => r.defineName "super"
    let w := w.openScope.on fun r => r.defineName "this"
    let w ← Declaration.walkAll methods w
    return w.closeScope.closeScope.inClass back

def Stmt.walkOption : Option Stmt → Walk → Option Walk
  | none, w => some w
  | some s, w => s.walk w

def Stmt.walkAll : List Stmt → Walk → Option Walk
  | [], w => some w
  | s :: rest, w => do Stmt.walkAll rest (← s.walk w)

def Declaration.walk (kind : EnclosingFunction) : Declaration → Walk → Option Walk
  | .mk _ parameters body, w => do
    let back := w.function
    let loops := w.loops
    let w := (w.inFunction kind 0).openScope.on fun r => r.declareParameters parameters
    let w ← Stmt.walkAll body w
    return w.closeScope.inFunction back loops

def Declaration.walkAll : List Declaration → Walk → Option Walk
  | [], w => some w
  | d :: rest, w => do Declaration.walkAll rest (← d.walk d.methodContext w)
end

/-- The hop counts of all references to local bindings, or all static errors, found by a walk. -/
def Program.walk (program : Program) : Option (Except (List Diagnostic) (List (ReferenceId × Nat))) := do
  let w ← Stmt.walkAll program .start
  return if w.reported.isEmpty then .ok w.hops else .error w.reported

namespace Walk

variable (w : Walk) (change next : Resolution → Resolution)

@[simp] theorem on_on : (w.on change).on next = w.on fun r => next (change r) := rfl

@[simp] theorem around_on : (w.on change).around = w.around := rfl

@[simp] theorem initializing_on : (w.on change).initializing = w.initializing := rfl

@[simp] theorem expression_on (e : Expr) :
    (w.on change).expression e = w.on fun r => e.resolve w.around w.initializing (change r) := rfl

theorem expressionOption_on (h : w.initializing = none) (e : Option Expr) :
    (w.on change).expressionOption e = w.on fun r => Expr.resolveOption w.around e (change r) := by
  cases e with
  | none => rfl
  | some e =>
    rw [expressionOption, expression_on, h]
    rfl

theorem leaveLoop_enterLoop : (w.enterLoop.on change).leaveLoop = some (w.on change) := rfl

theorem around_enterLoop : w.enterLoop.around = { w.around with inLoop := true } := by
  simp [enterLoop, around]

theorem initialize_eq {w : Walk} (name : Token) (value : Expr) (h : w.initializing = none) :
    (Stmt.declareVar name (some value)).walk w =
      some (w.on ((Stmt.declareVar name (some value)).resolve w.around)) := by
  have hglobal : (w.toResolution.declare name).scopes.isEmpty = w.scopes.isEmpty := by
    rcases Resolution.scopes_declare (r := w.toResolution) name with hscopes | hscopes
    · rw [hscopes]
    · rw [hscopes]
      cases w.scopes <;> rfl
  obtain ⟨r, kind, classBody, loops, initializing⟩ := w
  cases h
  dsimp only at hglobal
  rw [Stmt.walk]
  simp only [on, hglobal]
  rw [Stmt.resolve]
  cases r.scopes.isEmpty <;> rfl

end Walk

mutual
theorem Stmt.walk_eq (s : Stmt) (w : Walk) (h : w.initializing = none) :
    s.walk w = some (w.on (s.resolve w.around)) := by
  cases s with
  | expression value | print value =>
    rw [Stmt.walk, Walk.expression, h]
    rfl
  | declareVar name initializer =>
    cases initializer with
    | none => rfl
    | some value => exact Walk.initialize_eq name value h
  | block body =>
    rw [Stmt.walk, Stmt.walkAll_eq body w.openScope h]
    rfl
  | branch condition thenBranch elseBranch =>
    cases elseBranch with
    | none =>
      rw [Stmt.walk, Walk.expression, h, Stmt.walk_eq thenBranch (w.on _) h]
      rfl
    | some elseBranch =>
      rw [Stmt.walk, Walk.expression, h, Stmt.walk_eq thenBranch (w.on _) h]
      exact Stmt.walk_eq elseBranch ((w.on _).on _) h
  | loop initializer condition increment body =>
    cases initializer with
    | none =>
      rw [Stmt.walk, Walk.expression, h, Stmt.walk_eq body (w.on _).enterLoop h]
      simp only [Option.bind_eq_bind, Option.bind_some, Walk.leaveLoop_enterLoop, Walk.around_enterLoop, Walk.on_on]
      exact Stmt.walkOption_eq increment (w.on _) h
    | some initializer =>
      rw [Stmt.walk, Stmt.walk_eq initializer w.openScope h, Option.bind_eq_bind, Option.bind_some,
        Walk.openScope, Walk.on_on, Walk.expression_on, h, Stmt.walk_eq body (w.on _).enterLoop h]
      simp only [Option.bind_some, Walk.leaveLoop_enterLoop, Walk.around_enterLoop, Walk.on_on]
      rw [Stmt.walkOption_eq increment (w.on _) h]
      rfl
  | declareFunction declaration => exact Declaration.walk_eq .function declaration (w.declareDefine _) h
  | returnWith keyword value =>
    rw [Stmt.walk]
    simp only [Walk.on_on]
    rw [Walk.expressionOption_on _ _ h]
    rfl
  | breakLoop keyword | continueLoop keyword =>
    cases hloops : w.loops <;> simp [Stmt.walk, Stmt.resolve, Walk.around, hloops]
  | declareClass name superclass methods =>
    cases superclass with
    | none =>
      rw [Stmt.walk, Declaration.walkAll_eq methods]
      · rfl
      · exact h
    | some superclass =>
      rw [Stmt.walk, Declaration.walkAll_eq methods]
      · rfl
      · exact h

theorem Stmt.walkOption_eq (s : Option Stmt) (w : Walk) (h : w.initializing = none) :
    Stmt.walkOption s w = some (w.on (Stmt.resolveOption w.around s)) := by
  cases s with
  | none => rfl
  | some s =>
    rw [Stmt.walkOption, Stmt.walk_eq s w h]
    rfl

theorem Stmt.walkAll_eq (body : List Stmt) (w : Walk) (h : w.initializing = none) :
    Stmt.walkAll body w = some (w.on (Stmt.resolveList w.around body)) := by
  cases body with
  | nil => rfl
  | cons s rest =>
    rw [Stmt.walkAll, Stmt.walk_eq s w h]
    exact Stmt.walkAll_eq rest _ h

theorem Declaration.walk_eq (kind : EnclosingFunction) (d : Declaration) (w : Walk)
    (h : w.initializing = none) :
    d.walk kind w = some (w.on (d.resolve w.around kind)) := by
  obtain ⟨name, parameters, body⟩ := d
  rw [Declaration.walk, Stmt.walkAll_eq body]
  · rfl
  · exact h

theorem Declaration.walkAll_eq (ds : List Declaration) (w : Walk) (h : w.initializing = none) :
    Declaration.walkAll ds w = some (w.on (Declaration.resolveMethods w.around ds)) := by
  cases ds with
  | nil => rfl
  | cons d rest =>
    rw [Declaration.walkAll, Declaration.walk_eq d.methodContext d w h]
    exact Declaration.walkAll_eq rest _ h
end

theorem Program.walk_eq (program : Program) : program.walk = some program.resolve := by
  rw [Program.walk, Stmt.walkAll_eq program .start rfl]
  rfl

end LoxLang
