import LoxLang.Diagnostic
import LoxLang.Dictionary
import LoxLang.Syntax.Basic

/-!
Static scoping: how many scopes lie between a reference and its binding, and which programs are
refused before they run.

Blocks, `for` clauses, functions and classes open scopes. The global scope is none of them: a
reference that no open scope binds is left without a hop count. A name is in its scope from its
declaration on; it counts as defined once its initializer has been passed.
-/

set_option autoImplicit false

namespace LoxLang

inductive EnclosingFunction where
  | outside
  | function
  | initializer
  | method
  deriving DecidableEq, Repr

inductive EnclosingClass where
  | outside
  | base
  | derived
  deriving DecidableEq, Repr

/-- What surrounds a statement. Loops around a function do not surround its body. -/
structure Surroundings where
  function : EnclosingFunction
  classBody : EnclosingClass
  inLoop : Bool
  deriving DecidableEq, Repr

/-- Declared names; true for those that are defined. -/
abbrev Scope := Dictionary Bool

/-- Scopes open so far, the innermost first, with the hop counts found, the last one first, and the
errors in order. -/
structure Resolution where
  scopes : List Scope
  hops : List (ReferenceId × Nat)
  reported : List Diagnostic

namespace Resolution

def start : Resolution := ⟨[], [], []⟩

def report (r : Resolution) (token : Token) (cause : StaticError) : Resolution :=
  { r with reported := r.reported ++ [.static token cause] }

def reportIf (condition : Bool) (token : Token) (cause : StaticError) (r : Resolution) :
    Resolution :=
  if condition then r.report token cause else r

def openScope (r : Resolution) : Resolution := { r with scopes := ∅ :: r.scopes }

def closeScope (r : Resolution) : Resolution := { r with scopes := r.scopes.tail }

def declare (r : Resolution) (name : Token) : Resolution :=
  match r.scopes with
  | [] => r
  | scope :: outer =>
    if scope.contains name.lexeme then r.report name .alreadyDeclared
    else { r with scopes := scope.insert name.lexeme false :: outer }

def defineName (r : Resolution) (name : String) : Resolution :=
  match r.scopes with
  | [] => r
  | scope :: outer => { r with scopes := scope.insert name true :: outer }

def define (r : Resolution) (name : Token) : Resolution := r.defineName name.lexeme

def distance? (r : Resolution) (name : String) : Option Nat :=
  r.scopes.findIdx? fun scope => scope.contains name

def record (r : Resolution) (target : Reference) : Resolution :=
  match r.distance? target.name.lexeme with
  | some distance => { r with hops := (target.id, distance) :: r.hops }
  | none => r

/-- Whether reading a name here reads the variable that is being initialized. -/
def isBeingInitialized (r : Resolution) (globalName : Option String) (name : String) : Bool :=
  match r.scopes with
  | [] => decide (globalName = some name)
  | scope :: _ => decide (scope.get? name = some false)

end Resolution

mutual
/-- Resolves an expression; `globalName` is the global variable that it initializes, if any. -/
def Expr.resolve (around : Surroundings) (globalName : Option String) :
    Expr → Resolution → Resolution
  | .literal _, r => r
  | .grouping inner, r => inner.resolve around globalName r
  | .unary _ right, r => right.resolve around globalName r
  | .binary left _ right, r | .logical left _ right, r =>
    right.resolve around globalName (left.resolve around globalName r)
  | .conditional condition (some thenBranch) elseBranch, r =>
    elseBranch.resolve around globalName
      (thenBranch.resolve around globalName (condition.resolve around globalName r))
  | .conditional condition none elseBranch, r =>
    elseBranch.resolve around globalName (condition.resolve around globalName r)
  | .variable target, r =>
    (r.reportIf (r.isBeingInitialized globalName target.name.lexeme) target.name
      .readInOwnInitializer).record target
  | .assign target value, r => (value.resolve around globalName r).record target
  | .call callee _ arguments, r =>
    Expr.resolveList around globalName arguments (callee.resolve around globalName r)
  | .get object _, r => object.resolve around globalName r
  | .set object _ value, r =>
    object.resolve around globalName (value.resolve around globalName r)
  | .this keyword, r =>
    match around.classBody with
    | .outside => r.report keyword.name .thisOutsideClass
    | .base | .derived => r.record keyword
  | .super keyword _, r =>
    match around.classBody with
    | .outside => (r.report keyword.name .superOutsideClass).record keyword
    | .base => (r.report keyword.name .superWithoutSuperclass).record keyword
    | .derived => r.record keyword

def Expr.resolveList (around : Surroundings) (globalName : Option String) :
    List Expr → Resolution → Resolution
  | [], r => r
  | e :: rest, r => Expr.resolveList around globalName rest (e.resolve around globalName r)
end

def Expr.resolveOption (around : Surroundings) : Option Expr → Resolution → Resolution
  | none, r => r
  | some e, r => e.resolve around none r

def Resolution.declareParameters (r : Resolution) (parameters : List Token) : Resolution :=
  parameters.foldl (fun r name => (r.declare name).define name) r

def Declaration.methodContext (d : Declaration) : EnclosingFunction :=
  if d.name.lexeme = initializerName then .initializer else .method

mutual
def Stmt.resolve (around : Surroundings) : Stmt → Resolution → Resolution
  | .expression value, r | .print value, r => value.resolve around none r
  | .declareVar name none, r => (r.declare name).define name
  | .declareVar name (some value), r =>
    let globalName := if r.scopes.isEmpty then some name.lexeme else none
    (value.resolve around globalName (r.declare name)).define name
  | .block body, r => (Stmt.resolveList around body r.openScope).closeScope
  | .branch condition thenBranch (some elseBranch), r =>
    elseBranch.resolve around (thenBranch.resolve around (condition.resolve around none r))
  | .branch condition thenBranch none, r =>
    thenBranch.resolve around (condition.resolve around none r)
  | .loop (some initializer) condition increment body, r =>
    let r := initializer.resolve around r.openScope
    let r := body.resolve { around with inLoop := true } (condition.resolve around none r)
    (Stmt.resolveOption around increment r).closeScope
  | .loop none condition increment body, r =>
    let r := body.resolve { around with inLoop := true } (condition.resolve around none r)
    Stmt.resolveOption around increment r
  | .declareFunction declaration, r =>
    declaration.resolve around .function
      ((r.declare declaration.name).define declaration.name)
  | .returnWith keyword value, r =>
    let r := r.reportIf (around.function = .outside) keyword .returnAtTopLevel
    Expr.resolveOption around value
      (r.reportIf (value.isSome && around.function = .initializer) keyword .returnFromInitializer)
  | .breakLoop keyword, r => r.reportIf (!around.inLoop) keyword .breakOutsideLoop
  | .continueLoop keyword, r => r.reportIf (!around.inLoop) keyword .continueOutsideLoop
  | .declareClass name none methods, r =>
    let r := ((r.declare name).define name).openScope.defineName "this"
    (Declaration.resolveMethods { around with classBody := .base } methods r).closeScope
  | .declareClass name (some superclass) methods, r =>
    let r := (r.declare name).define name
    let r := r.reportIf (superclass.name.lexeme = name.lexeme) superclass.name .inheritsFromItself
    let r := (r.record superclass).openScope.defineName "super"
    let r := r.openScope.defineName "this"
    (Declaration.resolveMethods { around with classBody := .derived } methods r).closeScope.closeScope

def Stmt.resolveOption (around : Surroundings) : Option Stmt → Resolution → Resolution
  | none, r => r
  | some s, r => s.resolve around r

def Stmt.resolveList (around : Surroundings) : List Stmt → Resolution → Resolution
  | [], r => r
  | s :: rest, r => Stmt.resolveList around rest (s.resolve around r)

/-- Resolves a function in a scope of its own, which its parameters and its body share. -/
def Declaration.resolve (around : Surroundings) (kind : EnclosingFunction) :
    Declaration → Resolution → Resolution
  | .mk _ parameters body, r =>
    (Stmt.resolveList { around with function := kind, inLoop := false } body
      (r.openScope.declareParameters parameters)).closeScope

def Declaration.resolveMethods (around : Surroundings) :
    List Declaration → Resolution → Resolution
  | [], r => r
  | d :: rest, r =>
    Declaration.resolveMethods around rest (d.resolve around d.methodContext r)
end

def Surroundings.program : Surroundings := ⟨.outside, .outside, false⟩

/-- The hop counts of all references to local bindings, or all static errors. -/
def Program.resolve (program : Program) : Except (List Diagnostic) (List (ReferenceId × Nat)) :=
  let r := Stmt.resolveList .program program .start
  if r.reported.isEmpty then .ok r.hops else .error r.reported

end LoxLang
