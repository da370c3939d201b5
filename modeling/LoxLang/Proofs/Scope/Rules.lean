import LoxLang.Scope

/-!
The static rules, each said of a place in a tree.

The way from a place up to the root of the tree is a list of edges, the innermost first. It tells
everything that the rules ask for: the function and the class around the place, whether a loop body is
around it in the same function, and which names its scope has already. No rule looks at anything but
the node and this way, and nothing is passed along while a tree is gone through.
-/

set_option autoImplicit false

namespace LoxLang

/-- How a part of a tree stands to what it is part of, or to the part before it. -/
inductive Edge where
  | after (s : Stmt)
  | block
  | branch
  /-- In the clauses or the body of a `for` with a first clause. -/
  | clauses
  | loopBody
  | initializer (name : Token)
  | functionBody (d : Declaration)
  | methodBody (d : Declaration)
  | classBody (base : Option Reference)

namespace Edge

def isFunction : Edge → Bool
  | .functionBody _ | .methodBody _ => true
  | _ => false

def isLoopBody : Edge → Bool
  | .loopBody => true
  | _ => false

end Edge

def Stmt.declaredName? : Stmt → Option Token
  | .declareVar name _ => some name
  | .declareFunction d => some d.name
  | .declareClass name _ _ => some name
  | _ => none

/-- The way from a place up to the root. -/
abbrev Way := List Edge

namespace Way

def function? (way : Way) : Option Edge := way.find? Edge.isFunction

def class? : Way → Option (Option Reference)
  | [] => none
  | .classBody base :: _ => some base
  | _ :: outer => class? outer

/-- Whether a loop body is around the place in the same function. -/
def inLoop (way : Way) : Bool := (way.takeWhile fun edge => !edge.isFunction).any Edge.isLoopBody

/-- The names that the scope of the place has already. The global scope is none. -/
def names? : Way → Option (List String)
  | [] => none
  | .after s :: outer => (names? outer).map (s.declaredName?.map Token.lexeme).toList.append
  | .branch :: outer | .loopBody :: outer | .initializer _ :: outer => names? outer
  | .block :: _ | .clauses :: _ => some []
  | .functionBody d :: _ | .methodBody d :: _ => some (d.parameters.map Token.lexeme)
  | .classBody _ :: _ => some []

/-- The variable in whose initializer the place is. An initializer is an expression, and nothing in an
expression opens a scope. -/
def initialized? : Way → Option String
  | .initializer name :: _ => some name.lexeme
  | _ => none

end Way

inductive Node where
  | statement (s : Stmt)
  | expression (e : Expr)
  | parameter (name : Token) (earlier : List Token)

structure Position where
  node : Node
  way : Way

mutual
def Expr.parts : Expr → List Expr
  | .literal value => [.literal value]
  | .grouping inner => .grouping inner :: inner.parts
  | .unary operator right => .unary operator right :: right.parts
  | .binary left operator right => .binary left operator right :: (left.parts ++ right.parts)
  | .logical left operator right => .logical left operator right :: (left.parts ++ right.parts)
  | .conditional condition (some thenBranch) elseBranch =>
    .conditional condition (some thenBranch) elseBranch ::
      (condition.parts ++ thenBranch.parts ++ elseBranch.parts)
  | .conditional condition none elseBranch =>
    .conditional condition none elseBranch :: (condition.parts ++ elseBranch.parts)
  | .variable target => [.variable target]
  | .assign target value => .assign target value :: value.parts
  | .call callee paren arguments =>
    .call callee paren arguments :: (callee.parts ++ Expr.allParts arguments)
  | .get object name => .get object name :: object.parts
  | .set object name value => .set object name value :: (object.parts ++ value.parts)
  | .this keyword => [.this keyword]
  | .super keyword method => [.super keyword method]

def Expr.allParts : List Expr → List Expr
  | [] => []
  | e :: rest => e.parts ++ Expr.allParts rest
end

def placesOf (way : Way) (parts : List Expr) : List Position :=
  parts.map fun e => ⟨.expression e, way⟩

def Expr.places (e : Expr) (way : Way) : List Position := placesOf way e.parts

def Expr.optionPlaces (way : Way) : Option Expr → List Position
  | none => []
  | some e => e.places way

def parameterPlaces (way : Way) (earlier : List Token) : List Token → List Position
  | [] => []
  | name :: rest => ⟨.parameter name earlier, way⟩ :: parameterPlaces way (earlier ++ [name]) rest

mutual
def Stmt.places : Stmt → Way → List Position
  | .expression e, way => ⟨.statement (.expression e), way⟩ :: e.places way
  | .print e, way => ⟨.statement (.print e), way⟩ :: e.places way
  | .declareVar name e, way =>
    ⟨.statement (.declareVar name e), way⟩ :: Expr.optionPlaces (.initializer name :: way) e
  | .block body, way => ⟨.statement (.block body), way⟩ :: Stmt.listPlaces body (.block :: way)
  | .branch c t (some e), way =>
    ⟨.statement (.branch c t (some e)), way⟩ ::
      (c.places way ++ t.places (.branch :: way) ++ e.places (.branch :: way))
  | .branch c t none, way =>
    ⟨.statement (.branch c t none), way⟩ :: (c.places way ++ t.places (.branch :: way))
  | .loop (some i) c n b, way =>
    let inner := .after i :: .clauses :: way
    ⟨.statement (.loop (some i) c n b), way⟩ ::
      (i.places (.clauses :: way) ++ c.places inner ++ b.places (.loopBody :: inner) ++
        Stmt.optionPlaces n inner)
  | .loop none c n b, way =>
    ⟨.statement (.loop none c n b), way⟩ ::
      (c.places way ++ b.places (.loopBody :: way) ++ Stmt.optionPlaces n way)
  | .declareFunction d, way =>
    ⟨.statement (.declareFunction d), way⟩ :: d.places (.functionBody d :: way)
  | .returnWith keyword e, way =>
    ⟨.statement (.returnWith keyword e), way⟩ :: Expr.optionPlaces way e
  | .breakLoop keyword, way => [⟨.statement (.breakLoop keyword), way⟩]
  | .continueLoop keyword, way => [⟨.statement (.continueLoop keyword), way⟩]
  | .declareClass name base ds, way =>
    ⟨.statement (.declareClass name base ds), way⟩ ::
      Declaration.methodPlaces ds (.classBody base :: way)

def Stmt.optionPlaces : Option Stmt → Way → List Position
  | none, _ => []
  | some s, way => s.places way

def Stmt.listPlaces : List Stmt → Way → List Position
  | [], _ => []
  | s :: rest, way => s.places way ++ Stmt.listPlaces rest (.after s :: way)

def Declaration.places : Declaration → Way → List Position
  | .mk _ parameters body, way => parameterPlaces way [] parameters ++ Stmt.listPlaces body way

def Declaration.methodPlaces : List Declaration → Way → List Position
  | [], _ => []
  | d :: rest, way => d.places (.methodBody d :: way) ++ Declaration.methodPlaces rest way
end

def Program.places (program : Program) : List Position := Stmt.listPlaces program []

/-- The node breaks a static rule, which is a matter of the token. -/
inductive Position.Breaks : Position → Token → StaticError → Prop
  | returnAtTopLevel {keyword : Token} {e : Option Expr} {way : Way} :
    way.function? = none →
    Breaks ⟨.statement (.returnWith keyword e), way⟩ keyword .returnAtTopLevel
  /-- A `return` with a value whose nearest function is a method named `init`. -/
  | returnFromInitializer {keyword : Token} {e : Expr} {d : Declaration} {way : Way} :
    way.function? = some (.methodBody d) → d.name.lexeme = initializerName →
    Breaks ⟨.statement (.returnWith keyword (some e)), way⟩ keyword .returnFromInitializer
  /-- A `break` with no loop body around it in the same function. -/
  | breakOutsideLoop {keyword : Token} {way : Way} :
    way.inLoop = false → Breaks ⟨.statement (.breakLoop keyword), way⟩ keyword .breakOutsideLoop
  | continueOutsideLoop {keyword : Token} {way : Way} :
    way.inLoop = false →
    Breaks ⟨.statement (.continueLoop keyword), way⟩ keyword .continueOutsideLoop
  | thisOutsideClass {keyword : Reference} {way : Way} :
    way.class? = none → Breaks ⟨.expression (.this keyword), way⟩ keyword.name .thisOutsideClass
  | superOutsideClass {keyword : Reference} {method : Token} {way : Way} :
    way.class? = none →
    Breaks ⟨.expression (.super keyword method), way⟩ keyword.name .superOutsideClass
  /-- A `super` whose nearest class has no superclass. -/
  | superWithoutSuperclass {keyword : Reference} {method : Token} {way : Way} :
    way.class? = some none →
    Breaks ⟨.expression (.super keyword method), way⟩ keyword.name .superWithoutSuperclass
  /-- A second declaration of a name in one scope that is not the global one. -/
  | alreadyDeclared {s : Stmt} {name : Token} {names : List String} {way : Way} :
    s.declaredName? = some name → way.names? = some names → name.lexeme ∈ names →
    Breaks ⟨.statement s, way⟩ name .alreadyDeclared
  | parameterAlreadyDeclared {name : Token} {earlier : List Token} {way : Way} :
    name.lexeme ∈ earlier.map Token.lexeme →
    Breaks ⟨.parameter name earlier, way⟩ name .alreadyDeclared
  | readInOwnInitializer {target : Reference} {way : Way} :
    way.initialized? = some target.name.lexeme →
    Breaks ⟨.expression (.variable target), way⟩ target.name .readInOwnInitializer
  | inheritsFromItself {name : Token} {base : Reference} {ds : List Declaration} {way : Way} :
    base.name.lexeme = name.lexeme →
    Breaks ⟨.statement (.declareClass name (some base) ds), way⟩ base.name .inheritsFromItself

def Position.Lawful (place : Position) : Prop := ∀ token cause, ¬ place.Breaks token cause

end LoxLang
