import LoxLang.Diagnostic
import LoxLang.Syntax.Basic

/-!
Building syntax trees from tokens.

The grammar, from the loosest to the tightest construct:

    program     = declaration* EOF
    declaration = class | fun | var | statement
    class       = "class" NAME ("<" NAME)? "{" function* "}"
    fun         = "fun" function
    function    = NAME "(" (NAME ("," NAME)*)? ")" block
    var         = "var" NAME ("=" expression)? ";"
    statement   = expression ";" | for | if | print | return | while | break | continue | block
    for         = "for" "(" (var | expression ";" | ";") expression? ";" expression? ")" statement
    if          = "if" "(" expression ")" statement ("else" statement)?
    while       = "while" "(" expression ")" statement
    block       = "{" declaration* "}"
    expression  = (call ".")? NAME "=" expression | conditional
    conditional = level ("?" (":" conditional | conditional ":" conditional))?
    level       = "or" over "and" over equality over comparison over sum over product over unary
    unary       = ("!" | "-") unary | call
    call        = primary ("(" (expression ("," expression)*)? ")" | "." NAME)*
    primary     = NUMBER | STRING | "true" | "false" | "nil" | "this" | NAME
                | "(" expression ")" | "super" "." NAME

A malformed declaration is reported and skipped up to the next boundary, so one run reports every
independent error. Recursion is bounded by a depth that the token list always affords.
-/

set_option autoImplicit false

namespace LoxLang

namespace Parsing

structure State where
  rest : List Token
  beyond : Token
  nextId : ReferenceId
  reported : List Diagnostic

/-- What a production answers. Running out of depth is neither success nor an error. -/
inductive Reply (α : Type) where
  | parsed (value : α) (state : State)
  | failed (token : Token) (cause : SyntaxError) (state : State)
  | exhausted

end Parsing

/-- A production: it takes tokens off the front of the state. -/
def Parser (α : Type) : Type := Parsing.State → Parsing.Reply α

namespace Parsing

@[always_inline, inline]
def ret {α : Type} (value : α) : Parser α := fun s => .parsed value s

@[always_inline, inline]
def andThen {α β : Type} (p : Parser α) (f : α → Parser β) : Parser β := fun s =>
  match p s with
  | .parsed value s => f value s
  | .failed token cause s => .failed token cause s
  | .exhausted => .exhausted

instance : Monad Parser where
  pure := ret
  bind := andThen

def State.current (s : State) : Token := s.rest.headD s.beyond

def current : Parser Token := fun s => .parsed s.current s

def atEnd : Parser Bool := fun s => .parsed (decide (s.current.kind = .endOfInput)) s

def check (kind : Kind) : Parser Bool := fun s => .parsed (decide (s.current.kind = kind)) s

def advance : Parser Token := fun s =>
  if s.current.kind = .endOfInput then .parsed s.current s
  else .parsed s.current { s with rest := s.rest.tail }

def accept (kind : Kind) : Parser (Option Token) := fun s =>
  if s.current.kind = kind then .parsed (some s.current) { s with rest := s.rest.tail }
  else .parsed none s

def failHere {α : Type} (cause : SyntaxError) : Parser α := fun s =>
  .failed s.current cause s

def expect (kind : Kind) (what : Expectation) : Parser Token := fun s =>
  if s.current.kind = kind then .parsed s.current { s with rest := s.rest.tail }
  else .failed s.current (.expected what) s

def outOfDepth {α : Type} : Parser α := fun _ => .exhausted

/-- Reports an error without giving up the production. -/
def note (token : Token) (cause : SyntaxError) : Parser Unit := fun s =>
  .parsed () { s with reported := s.reported ++ [.grammatical token cause] }

def reference (name : Token) : Parser Reference := fun s =>
  .parsed ⟨s.nextId, name⟩ { s with nextId := s.nextId + 1 }

/-- One precedence level of left-associative operators. -/
structure Level where
  operators : List Kind
  node : Expr → Token → Expr → Expr

def levels : List Level :=
  [⟨[.keyword .orWord], .logical⟩,
   ⟨[.keyword .andWord], .logical⟩,
   ⟨[.mark .bangEqual, .mark .equalEqual], .binary⟩,
   ⟨[.mark .greater, .mark .greaterEqual, .mark .less, .mark .lessEqual], .binary⟩,
   ⟨[.mark .minus, .mark .plus], .binary⟩,
   ⟨[.mark .star, .mark .slash], .binary⟩]

mutual
def expression : Nat → Parser Expr
  | 0 => outOfDepth
  | depth + 1 => do
    let target ← conditional depth
    match ← accept (.mark .equal) with
    | none => return target
    | some equals =>
      let value ← expression depth
      match target with
      | .variable target => return .assign (← reference target.name) value
      | .get object name => return .set object name value
      | other =>
        note equals .invalidAssignmentTarget
        return other

def conditional : Nat → Parser Expr
  | 0 => outOfDepth
  | depth + 1 => do
    let condition ← level depth levels
    match ← accept (.mark .question) with
    | none => return condition
    | some _ =>
      match ← accept (.mark .colon) with
      | some _ => return .conditional condition none (← conditional depth)
      | none =>
        let thenBranch ← conditional depth
        let _ ← expect (.mark .colon) .elseBranch
        return .conditional condition (some thenBranch) (← conditional depth)

def level : Nat → List Level → Parser Expr
  | 0, _ => outOfDepth
  | depth + 1, [] => unary depth
  | depth + 1, l :: tighter => do
    let left ← level depth tighter
    levelRest depth l tighter left

def levelRest : Nat → Level → List Level → Expr → Parser Expr
  | 0, _, _, _ => outOfDepth
  | depth + 1, l, tighter, left => do
    if l.operators.contains (← current).kind then
      let operator ← advance
      let right ← level depth tighter
      levelRest depth l tighter (l.node left operator right)
    else return left

def unary : Nat → Parser Expr
  | 0 => outOfDepth
  | depth + 1 => do
    if [Kind.mark .bang, Kind.mark .minus].contains (← current).kind then
      let operator ← advance
      return .unary operator (← unary depth)
    else
      let callee ← primary depth
      callRest depth callee

def callRest : Nat → Expr → Parser Expr
  | 0, _ => outOfDepth
  | depth + 1, callee => do
    match ← accept (.mark .leftParen) with
    | some _ =>
      let arguments ← if ← check (.mark .rightParen) then pure [] else arguments depth 0
      let paren ← expect (.mark .rightParen) .argumentListEnd
      callRest depth (.call callee paren arguments)
    | none =>
      match ← accept (.mark .dot) with
      | some _ =>
        let name ← expect .identifier .propertyName
        callRest depth (.get callee name)
      | none => return callee

def arguments : Nat → Nat → Parser (List Expr)
  | 0, _ => outOfDepth
  | depth + 1, count => do
    if argumentLimit ≤ count then note (← current) .tooManyArguments
    let first ← expression depth
    match ← accept (.mark .comma) with
    | some _ => return first :: (← arguments depth (count + 1))
    | none => return [first]

def primary : Nat → Parser Expr
  | 0 => outOfDepth
  | depth + 1 => do
    match (← current).kind with
    | .keyword .falseWord =>
      let _ ← advance
      return .literal (.boolean false)
    | .keyword .trueWord =>
      let _ ← advance
      return .literal (.boolean true)
    | .keyword .nilWord =>
      let _ ← advance
      return .literal .nil
    | .number value =>
      let _ ← advance
      return .literal (.number value)
    | .string contents =>
      let _ ← advance
      return .literal (.string contents)
    | .keyword .thisWord => return .this (← reference (← advance))
    | .keyword .superWord =>
      let keyword ← advance
      let _ ← expect (.mark .dot) .superMethodDot
      let method ← expect .identifier .superMethodName
      return .super (← reference keyword) method
    | .identifier => return .variable (← reference (← advance))
    | .mark .leftParen =>
      let _ ← advance
      let inner ← expression depth
      let _ ← expect (.mark .rightParen) .groupEnd
      return .grouping inner
    | _ => failHere (.expected .expression)
end

def parameters : Nat → Nat → Parser (List Token)
  | 0, _ => outOfDepth
  | depth + 1, count => do
    if argumentLimit ≤ count then note (← current) .tooManyParameters
    let first ← expect .identifier .parameterName
    match ← accept (.mark .comma) with
    | some _ => return first :: (← parameters depth (count + 1))
    | none => return [first]

def variableDeclaration (depth : Nat) : Parser Stmt := do
  let name ← expect .identifier .variableName
  let initializer ←
    match ← accept (.mark .equal) with
    | some _ => pure (some (← expression depth))
    | none => pure none
  let _ ← expect (.mark .semicolon) .variableEnd
  return .declareVar name initializer

def expressionStatement (depth : Nat) : Parser Stmt := do
  let value ← expression depth
  let _ ← expect (.mark .semicolon) .expressionEnd
  return .expression value

def printStatement (depth : Nat) : Parser Stmt := do
  let value ← expression depth
  let _ ← expect (.mark .semicolon) .printEnd
  return .print value

def returnStatement (depth : Nat) (keyword : Token) : Parser Stmt := do
  let value ← if ← check (.mark .semicolon) then pure none else some <$> expression depth
  let _ ← expect (.mark .semicolon) .returnEnd
  return .returnWith keyword value

def forInitializer (depth : Nat) : Parser (Option Stmt) := do
  match ← accept (.mark .semicolon) with
  | some _ => return none
  | none =>
    match ← accept (.keyword .varWord) with
    | some _ => return some (← variableDeclaration depth)
    | none => return some (← expressionStatement depth)

def resumesAt : Kind → Bool
  | .keyword .classWord | .keyword .funWord | .keyword .varWord | .keyword .forWord
  | .keyword .ifWord | .keyword .whileWord | .keyword .printWord | .keyword .returnWord
  | .keyword .breakWord | .keyword .continueWord => true
  | _ => false

/-- Skips to the token after a semicolon, to a keyword that starts a statement, or to the end. -/
def boundaryAfter : Token → List Token → List Token
  | _, [] => []
  | skipped, token :: rest =>
    if token.kind = .endOfInput || skipped.kind = .mark .semicolon || resumesAt token.kind then
      token :: rest
    else boundaryAfter token rest

/-- Skips the token at which a declaration failed, and then to the next boundary. -/
def skipToBoundary : List Token → List Token
  | [] => []
  | token :: rest => if token.kind = .endOfInput then token :: rest else boundaryAfter token rest

/-- Runs a production; if it fails, reports the error and skips to the next boundary. -/
def recover {α : Type} (p : Parser α) : Parser (Option α) := fun s =>
  match p s with
  | .parsed value s => .parsed (some value) s
  | .failed token cause s =>
    .parsed none
      { s with
        rest := skipToBoundary s.rest
        reported := s.reported ++ [.grammatical token cause] }
  | .exhausted => .exhausted

mutual
def declaration : Nat → Parser (Option Stmt)
  | 0 => outOfDepth
  | depth + 1 => recover do
    match (← current).kind with
    | .keyword .classWord =>
      let _ ← advance
      classDeclaration depth
    | .keyword .funWord =>
      let _ ← advance
      return .declareFunction (← function depth .function)
    | .keyword .varWord =>
      let _ ← advance
      variableDeclaration depth
    | _ => statement depth

def classDeclaration : Nat → Parser Stmt
  | 0 => outOfDepth
  | depth + 1 => do
    let name ← expect .identifier .className
    let superclass ←
      match ← accept (.mark .less) with
      | some _ => pure (some (← reference (← expect .identifier .superclassName)))
      | none => pure none
    let _ ← expect (.mark .leftBrace) .classBody
    let methods ← methods depth
    let _ ← expect (.mark .rightBrace) .classEnd
    return .declareClass name superclass methods

def methods : Nat → Parser (List Declaration)
  | 0 => outOfDepth
  | depth + 1 => do
    if (← check (.mark .rightBrace)) || (← atEnd) then return []
    else
      let first ← function depth .method
      return first :: (← methods depth)

def function : Nat → FunctionKind → Parser Declaration
  | 0, _ => outOfDepth
  | depth + 1, kind => do
    let name ← expect .identifier (.functionName kind)
    let _ ← expect (.mark .leftParen) (.parameterList kind)
    let parameters ← if ← check (.mark .rightParen) then pure [] else parameters depth 0
    let _ ← expect (.mark .rightParen) .parameterListEnd
    let _ ← expect (.mark .leftBrace) (.functionBody kind)
    return .mk name parameters (← block depth)

def block : Nat → Parser (List Stmt)
  | 0 => outOfDepth
  | depth + 1 => do
    let body ← declarations depth
    let _ ← expect (.mark .rightBrace) .blockEnd
    return body

/-- Declarations up to a closing brace or the end; those that failed are left out. -/
def declarations : Nat → Parser (List Stmt)
  | 0 => outOfDepth
  | depth + 1 => do
    if (← check (.mark .rightBrace)) || (← atEnd) then return []
    else
      let first ← declaration depth
      return first.toList ++ (← declarations depth)

def statement : Nat → Parser Stmt
  | 0 => outOfDepth
  | depth + 1 => do
    match (← current).kind with
    | .keyword .forWord =>
      let _ ← advance
      let _ ← expect (.mark .leftParen) .forClauses
      let initializer ← forInitializer depth
      let condition ←
        if ← check (.mark .semicolon) then pure (.literal (.boolean true)) else expression depth
      let _ ← expect (.mark .semicolon) .loopConditionEnd
      let increment ←
        if ← check (.mark .rightParen) then pure none else some <$> expression depth
      let _ ← expect (.mark .rightParen) .forClausesEnd
      return .loop initializer condition (increment.map .expression) (← statement depth)
    | .keyword .ifWord =>
      let _ ← advance
      let _ ← expect (.mark .leftParen) .ifCondition
      let condition ← expression depth
      let _ ← expect (.mark .rightParen) .ifConditionEnd
      let thenBranch ← statement depth
      match ← accept (.keyword .elseWord) with
      | some _ => return .branch condition thenBranch (some (← statement depth))
      | none => return .branch condition thenBranch none
    | .keyword .whileWord =>
      let _ ← advance
      let _ ← expect (.mark .leftParen) .whileCondition
      let condition ← expression depth
      let _ ← expect (.mark .rightParen) .whileConditionEnd
      return .loop none condition none (← statement depth)
    | .keyword .returnWord => returnStatement depth (← advance)
    | .keyword .breakWord =>
      let keyword ← advance
      let _ ← expect (.mark .semicolon) .breakEnd
      return .breakLoop keyword
    | .keyword .continueWord =>
      let keyword ← advance
      let _ ← expect (.mark .semicolon) .continueEnd
      return .continueLoop keyword
    | .mark .leftBrace =>
      let _ ← advance
      return .block (← block depth)
    | .keyword .printWord =>
      let _ ← advance
      printStatement depth
    | _ => expressionStatement depth
end

def program : Nat → Parser (List Stmt)
  | 0 => outOfDepth
  | depth + 1 => do
    if ← atEnd then return []
    else
      let first ← declaration depth
      return first.toList ++ (← program depth)

def wholeExpression (depth : Nat) : Parser Expr := do
  let value ← expression depth
  if ← atEnd then return value else failHere (.expected .endOfExpression)

def missingEnd : Token := ⟨.endOfInput, "", 0⟩

/-- The state before the first token. A list that does not end with the end of the input keeps
showing its last token. -/
def State.start (nextId : ReferenceId) (tokens : List Token) : State :=
  ⟨tokens, tokens.getLastD missingEnd, nextId, []⟩

/-- A depth that no production exceeds: fewer than 32 of them are entered before a token is taken. -/
def depthFor (tokens : List Token) : Nat := 32 * (tokens.length + 2)

def outcome {α : Type} (nextId : ReferenceId) :
    Reply α → Except (List Diagnostic) α × ReferenceId
  | .parsed value s => (if s.reported.isEmpty then .ok value else .error s.reported, s.nextId)
  | .failed token cause s => (.error (s.reported ++ [.grammatical token cause]), s.nextId)
  | .exhausted => (.error [], nextId)

end Parsing

/-- The statements of a program, or all syntax errors, and the next free identity. Identities are
used up by programs with errors as well. -/
def Program.ofTokens (nextId : ReferenceId) (tokens : List Token) :
    Except (List Diagnostic) Program × ReferenceId :=
  Parsing.outcome nextId
    (Parsing.program (Parsing.depthFor tokens) (Parsing.State.start nextId tokens))

def Expr.ofTokens (nextId : ReferenceId) (tokens : List Token) :
    Except (List Diagnostic) Expr × ReferenceId :=
  Parsing.outcome nextId
    (Parsing.wholeExpression (Parsing.depthFor tokens) (Parsing.State.start nextId tokens))

end LoxLang
