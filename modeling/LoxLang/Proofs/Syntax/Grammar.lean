import Mathlib
import LoxLang.Diagnostic
import LoxLang.Syntax.Reference

set_option autoImplicit false

namespace LoxLang

/-- The levels of binary operators, the loosest first. -/
inductive Tier where
  | disjunction
  | conjunction
  | equality
  | comparison
  | sum
  | product
  deriving DecidableEq, Repr

namespace Tier

def operators : Tier → List Kind
  | .disjunction => [.keyword .orWord]
  | .conjunction => [.keyword .andWord]
  | .equality => [.mark .bangEqual, .mark .equalEqual]
  | .comparison => [.mark .greater, .mark .greaterEqual, .mark .less, .mark .lessEqual]
  | .sum => [.mark .minus, .mark .plus]
  | .product => [.mark .star, .mark .slash]

def node : Tier → Expr → Token → Expr → Expr
  | .disjunction | .conjunction => .logical
  | .equality | .comparison | .sum | .product => .binary

end Tier

/-- A nonterminal of the grammar with a tree for it. -/
inductive Phrase where
  | declarations (body : List Stmt)
  | declaration (s : Stmt)
  | variable (s : Stmt)
  | statement (s : Stmt)
  | expressionStatement (s : Stmt)
  | initializer (s : Option Stmt)
  | block (body : List Stmt)
  | methods (ds : List Declaration)
  | function (d : Declaration)
  | parameterList (names : List Token)
  | parameters (names : List Token)
  | optional (e : Option Expr)
  | expression (e : Expr)
  | conditional (e : Expr)
  | operation (tier : Tier) (e : Expr)
  | unary (e : Expr)
  | call (e : Expr)
  | argumentList (es : List Expr)
  | arguments (es : List Expr)
  | primary (e : Expr)

def Tier.operand : Tier → Expr → Phrase
  | .disjunction => .operation .conjunction
  | .conjunction => .operation .equality
  | .equality => .operation .comparison
  | .comparison => .operation .sum
  | .sum => .operation .product
  | .product => .unary

/-- The rules. Binary operators and calls associate to the left, prefix operators, conditionals and
assignments to the right; a `for` is a loop with the clauses it has, and without a condition it goes
on for ever. -/
inductive Derives : Phrase → List Token → Prop
  | noDeclarations : Derives (.declarations []) []
  | declarations {s : Stmt} {rest : List Stmt} {u v : List Token} :
    Derives (.declaration s) u → Derives (.declarations rest) v →
    Derives (.declarations (s :: rest)) (u ++ v)
  | baseClass {word name left right : Token} {ds : List Declaration} {w : List Token} :
    word.kind = .keyword .classWord → name.kind = .identifier → left.kind = .mark .leftBrace →
    Derives (.methods ds) w → right.kind = .mark .rightBrace →
    Derives (.declaration (.declareClass name none ds)) (word :: name :: left :: (w ++ [right]))
  | derivedClass {word name less base left right : Token} {id : ReferenceId}
      {ds : List Declaration} {w : List Token} :
    word.kind = .keyword .classWord → name.kind = .identifier → less.kind = .mark .less →
    base.kind = .identifier → left.kind = .mark .leftBrace → Derives (.methods ds) w →
    right.kind = .mark .rightBrace →
    Derives (.declaration (.declareClass name (some ⟨id, base⟩) ds))
      (word :: name :: less :: base :: left :: (w ++ [right]))
  | functionDeclaration {word : Token} {d : Declaration} {w : List Token} :
    word.kind = .keyword .funWord → Derives (.function d) w →
    Derives (.declaration (.declareFunction d)) (word :: w)
  | variableDeclaration {s : Stmt} {w : List Token} :
    Derives (.variable s) w → Derives (.declaration s) w
  | statementDeclaration {s : Stmt} {w : List Token} :
    Derives (.statement s) w → Derives (.declaration s) w
  | unsetVariable {word name semicolon : Token} :
    word.kind = .keyword .varWord → name.kind = .identifier → semicolon.kind = .mark .semicolon →
    Derives (.variable (.declareVar name none)) [word, name, semicolon]
  | setVariable {word name equal semicolon : Token} {e : Expr} {w : List Token} :
    word.kind = .keyword .varWord → name.kind = .identifier → equal.kind = .mark .equal →
    Derives (.expression e) w → semicolon.kind = .mark .semicolon →
    Derives (.variable (.declareVar name (some e))) (word :: name :: equal :: (w ++ [semicolon]))
  | ofExpression {s : Stmt} {w : List Token} :
    Derives (.expressionStatement s) w → Derives (.statement s) w
  | forLoop {word left semicolon right : Token} {i : Option Stmt} {c n : Option Expr} {b : Stmt}
      {u v w x : List Token} :
    word.kind = .keyword .forWord → left.kind = .mark .leftParen → Derives (.initializer i) u →
    Derives (.optional c) v → semicolon.kind = .mark .semicolon → Derives (.optional n) w →
    right.kind = .mark .rightParen → Derives (.statement b) x →
    Derives (.statement (.loop i (c.getD (.literal (.boolean true))) (n.map .expression) b))
      (word :: left :: (u ++ (v ++ semicolon :: (w ++ right :: x))))
  | ifAlone {word left right : Token} {c : Expr} {t : Stmt} {u v : List Token} :
    word.kind = .keyword .ifWord → left.kind = .mark .leftParen → Derives (.expression c) u →
    right.kind = .mark .rightParen → Derives (.statement t) v →
    Derives (.statement (.branch c t none)) (word :: left :: (u ++ right :: v))
  | ifElse {word left right other : Token} {c : Expr} {t e : Stmt} {u v w : List Token} :
    word.kind = .keyword .ifWord → left.kind = .mark .leftParen → Derives (.expression c) u →
    right.kind = .mark .rightParen → Derives (.statement t) v → other.kind = .keyword .elseWord →
    Derives (.statement e) w →
    Derives (.statement (.branch c t (some e))) (word :: left :: (u ++ right :: (v ++ other :: w)))
  | whileLoop {word left right : Token} {c : Expr} {b : Stmt} {u v : List Token} :
    word.kind = .keyword .whileWord → left.kind = .mark .leftParen → Derives (.expression c) u →
    right.kind = .mark .rightParen → Derives (.statement b) v →
    Derives (.statement (.loop none c none b)) (word :: left :: (u ++ right :: v))
  | print {word semicolon : Token} {e : Expr} {w : List Token} :
    word.kind = .keyword .printWord → Derives (.expression e) w →
    semicolon.kind = .mark .semicolon →
    Derives (.statement (.print e)) (word :: (w ++ [semicolon]))
  | returnWith {word semicolon : Token} {e : Option Expr} {w : List Token} :
    word.kind = .keyword .returnWord → Derives (.optional e) w →
    semicolon.kind = .mark .semicolon →
    Derives (.statement (.returnWith word e)) (word :: (w ++ [semicolon]))
  | breakLoop {word semicolon : Token} :
    word.kind = .keyword .breakWord → semicolon.kind = .mark .semicolon →
    Derives (.statement (.breakLoop word)) [word, semicolon]
  | continueLoop {word semicolon : Token} :
    word.kind = .keyword .continueWord → semicolon.kind = .mark .semicolon →
    Derives (.statement (.continueLoop word)) [word, semicolon]
  | ofBlock {body : List Stmt} {w : List Token} :
    Derives (.block body) w → Derives (.statement (.block body)) w
  | expressionStatement {semicolon : Token} {e : Expr} {w : List Token} :
    Derives (.expression e) w → semicolon.kind = .mark .semicolon →
    Derives (.expressionStatement (.expression e)) (w ++ [semicolon])
  | noInitializer {semicolon : Token} :
    semicolon.kind = .mark .semicolon → Derives (.initializer none) [semicolon]
  | variableInitializer {s : Stmt} {w : List Token} :
    Derives (.variable s) w → Derives (.initializer (some s)) w
  | expressionInitializer {s : Stmt} {w : List Token} :
    Derives (.expressionStatement s) w → Derives (.initializer (some s)) w
  | block {left right : Token} {body : List Stmt} {w : List Token} :
    left.kind = .mark .leftBrace → Derives (.declarations body) w →
    right.kind = .mark .rightBrace → Derives (.block body) (left :: (w ++ [right]))
  | noMethods : Derives (.methods []) []
  | methods {d : Declaration} {rest : List Declaration} {u v : List Token} :
    Derives (.function d) u → Derives (.methods rest) v →
    Derives (.methods (d :: rest)) (u ++ v)
  | function {name left right : Token} {names : List Token} {body : List Stmt}
      {u v : List Token} :
    name.kind = .identifier → left.kind = .mark .leftParen → Derives (.parameterList names) u →
    right.kind = .mark .rightParen → Derives (.block body) v →
    Derives (.function (.mk name names body)) (name :: left :: (u ++ right :: v))
  | noParameters : Derives (.parameterList []) []
  | parameters {names w : List Token} :
    Derives (.parameters names) w → Derives (.parameterList names) w
  | lastParameter {name : Token} :
    name.kind = .identifier → Derives (.parameters [name]) [name]
  | parameter {name comma : Token} {names w : List Token} :
    name.kind = .identifier → comma.kind = .mark .comma → Derives (.parameters names) w →
    Derives (.parameters (name :: names)) (name :: comma :: w)
  | absent : Derives (.optional none) []
  | present {e : Expr} {w : List Token} :
    Derives (.expression e) w → Derives (.optional (some e)) w
  | ofConditional {e : Expr} {w : List Token} :
    Derives (.conditional e) w → Derives (.expression e) w
  | assignVariable {name equal : Token} {id : ReferenceId} {e : Expr} {w : List Token} :
    name.kind = .identifier → equal.kind = .mark .equal → Derives (.expression e) w →
    Derives (.expression (.assign ⟨id, name⟩ e)) (name :: equal :: w)
  | assignProperty {dot name equal : Token} {o e : Expr} {u w : List Token} :
    Derives (.call o) u → dot.kind = .mark .dot → name.kind = .identifier →
    equal.kind = .mark .equal → Derives (.expression e) w →
    Derives (.expression (.set o name e)) (u ++ dot :: name :: equal :: w)
  | ofOperation {e : Expr} {w : List Token} :
    Derives (.operation .disjunction e) w → Derives (.conditional e) w
  | shortConditional {question colon : Token} {c e : Expr} {u v : List Token} :
    Derives (.operation .disjunction c) u → question.kind = .mark .question →
    colon.kind = .mark .colon → Derives (.conditional e) v →
    Derives (.conditional (.conditional c none e)) (u ++ question :: colon :: v)
  | fullConditional {question colon : Token} {c t e : Expr} {u v w : List Token} :
    Derives (.operation .disjunction c) u → question.kind = .mark .question →
    Derives (.conditional t) v → colon.kind = .mark .colon → Derives (.conditional e) w →
    Derives (.conditional (.conditional c (some t) e)) (u ++ question :: (v ++ colon :: w))
  | ofOperand {tier : Tier} {e : Expr} {w : List Token} :
    Derives (tier.operand e) w → Derives (.operation tier e) w
  | operation {tier : Tier} {operator : Token} {l r : Expr} {u v : List Token} :
    Derives (.operation tier l) u → operator.kind ∈ tier.operators → Derives (tier.operand r) v →
    Derives (.operation tier (tier.node l operator r)) (u ++ operator :: v)
  | signed {operator : Token} {e : Expr} {w : List Token} :
    operator.kind ∈ [Kind.mark .bang, Kind.mark .minus] → Derives (.unary e) w →
    Derives (.unary (.unary operator e)) (operator :: w)
  | ofCall {e : Expr} {w : List Token} : Derives (.call e) w → Derives (.unary e) w
  | ofPrimary {e : Expr} {w : List Token} : Derives (.primary e) w → Derives (.call e) w
  | call {left right : Token} {f : Expr} {es : List Expr} {u v : List Token} :
    Derives (.call f) u → left.kind = .mark .leftParen → Derives (.argumentList es) v →
    right.kind = .mark .rightParen →
    Derives (.call (.call f right es)) (u ++ left :: (v ++ [right]))
  | get {dot name : Token} {o : Expr} {u : List Token} :
    Derives (.call o) u → dot.kind = .mark .dot → name.kind = .identifier →
    Derives (.call (.get o name)) (u ++ [dot, name])
  | noArguments : Derives (.argumentList []) []
  | arguments {es : List Expr} {w : List Token} :
    Derives (.arguments es) w → Derives (.argumentList es) w
  | lastArgument {e : Expr} {w : List Token} :
    Derives (.expression e) w → Derives (.arguments [e]) w
  | argument {comma : Token} {e : Expr} {es : List Expr} {u v : List Token} :
    Derives (.expression e) u → comma.kind = .mark .comma → Derives (.arguments es) v →
    Derives (.arguments (e :: es)) (u ++ comma :: v)
  | falseLiteral {t : Token} :
    t.kind = .keyword .falseWord → Derives (.primary (.literal (.boolean false))) [t]
  | trueLiteral {t : Token} :
    t.kind = .keyword .trueWord → Derives (.primary (.literal (.boolean true))) [t]
  | nilLiteral {t : Token} :
    t.kind = .keyword .nilWord → Derives (.primary (.literal .nil)) [t]
  | number {t : Token} {value : Number} :
    t.kind = .number value → Derives (.primary (.literal (.number value))) [t]
  | string {t : Token} {contents : String} :
    t.kind = .string contents → Derives (.primary (.literal (.string contents))) [t]
  | receiver {t : Token} {id : ReferenceId} :
    t.kind = .keyword .thisWord → Derives (.primary (.this ⟨id, t⟩)) [t]
  | named {t : Token} {id : ReferenceId} :
    t.kind = .identifier → Derives (.primary (.variable ⟨id, t⟩)) [t]
  | superMethod {t dot method : Token} {id : ReferenceId} :
    t.kind = .keyword .superWord → dot.kind = .mark .dot → method.kind = .identifier →
    Derives (.primary (.super ⟨id, t⟩ method)) [t, dot, method]
  | grouping {left right : Token} {e : Expr} {w : List Token} :
    left.kind = .mark .leftParen → Derives (.expression e) w → right.kind = .mark .rightParen →
    Derives (.primary (.grouping e)) (left :: (w ++ [right]))

mutual
def Expr.WithinLimits : Expr → Prop
  | .literal _ | .variable _ | .this _ | .super _ _ => True
  | .grouping e | .unary _ e | .assign _ e | .get e _ => e.WithinLimits
  | .binary l _ r | .logical l _ r => l.WithinLimits ∧ r.WithinLimits
  | .conditional c (some t) e => c.WithinLimits ∧ t.WithinLimits ∧ e.WithinLimits
  | .conditional c none e => c.WithinLimits ∧ e.WithinLimits
  | .call f _ es => f.WithinLimits ∧ es.length ≤ argumentLimit ∧ Expr.AllWithinLimits es
  | .set o _ e => o.WithinLimits ∧ e.WithinLimits

def Expr.AllWithinLimits : List Expr → Prop
  | [] => True
  | e :: rest => e.WithinLimits ∧ Expr.AllWithinLimits rest
end

def Expr.OptionWithinLimits : Option Expr → Prop
  | none => True
  | some e => e.WithinLimits

mutual
def Stmt.WithinLimits : Stmt → Prop
  | .expression e | .print e => e.WithinLimits
  | .declareVar _ e | .returnWith _ e => Expr.OptionWithinLimits e
  | .block body => Stmt.AllWithinLimits body
  | .branch c t (some e) => c.WithinLimits ∧ t.WithinLimits ∧ e.WithinLimits
  | .branch c t none => c.WithinLimits ∧ t.WithinLimits
  | .loop (some i) c n b =>
    i.WithinLimits ∧ c.WithinLimits ∧ Stmt.OptionWithinLimits n ∧ b.WithinLimits
  | .loop none c n b => c.WithinLimits ∧ Stmt.OptionWithinLimits n ∧ b.WithinLimits
  | .declareFunction d => d.WithinLimits
  | .breakLoop _ | .continueLoop _ => True
  | .declareClass _ _ ds => Declaration.AllWithinLimits ds

def Stmt.OptionWithinLimits : Option Stmt → Prop
  | none => True
  | some s => s.WithinLimits

def Stmt.AllWithinLimits : List Stmt → Prop
  | [] => True
  | s :: rest => s.WithinLimits ∧ Stmt.AllWithinLimits rest

def Declaration.WithinLimits : Declaration → Prop
  | .mk _ names body => names.length ≤ argumentLimit ∧ Stmt.AllWithinLimits body

def Declaration.AllWithinLimits : List Declaration → Prop
  | [] => True
  | d :: rest => d.WithinLimits ∧ Declaration.AllWithinLimits rest
end

/-- Whether an `else` right after the statement could still belong to it. -/
def Stmt.endsOpen : Stmt → Bool
  | .branch _ _ none => true
  | .branch _ _ (some e) => e.endsOpen
  | .loop _ _ _ b => b.endsOpen
  | _ => false

mutual
/-- No `else` has a nearer `if` that it could belong to. -/
def Stmt.NearestElse : Stmt → Prop
  | .block body => Stmt.AllNearestElse body
  | .branch _ t (some e) => t.NearestElse ∧ t.endsOpen = false ∧ e.NearestElse
  | .branch _ t none => t.NearestElse
  | .loop _ _ _ b => b.NearestElse
  | .declareFunction d => d.NearestElse
  | .declareClass _ _ ds => Declaration.AllNearestElse ds
  | .expression _ | .print _ | .declareVar _ _ | .returnWith _ _ | .breakLoop _
  | .continueLoop _ => True

def Stmt.AllNearestElse : List Stmt → Prop
  | [] => True
  | s :: rest => s.NearestElse ∧ Stmt.AllNearestElse rest

def Declaration.NearestElse : Declaration → Prop
  | .mk _ _ body => Stmt.AllNearestElse body

def Declaration.AllNearestElse : List Declaration → Prop
  | [] => True
  | d :: rest => d.NearestElse ∧ Declaration.AllNearestElse rest
end

namespace Phrase

def WithinLimits : Phrase → Prop
  | .declarations body | .block body => Stmt.AllWithinLimits body
  | .declaration s | .variable s | .statement s | .expressionStatement s
  | .initializer (some s) => s.WithinLimits
  | .initializer none => True
  | .methods ds => Declaration.AllWithinLimits ds
  | .function d => d.WithinLimits
  | .parameterList names | .parameters names => names.length ≤ argumentLimit
  | .optional e => Expr.OptionWithinLimits e
  | .expression e | .conditional e | .operation _ e | .unary e | .call e | .primary e =>
    e.WithinLimits
  | .argumentList es | .arguments es => es.length ≤ argumentLimit ∧ Expr.AllWithinLimits es

def NearestElse : Phrase → Prop
  | .declarations body | .block body => Stmt.AllNearestElse body
  | .declaration s | .variable s | .statement s | .expressionStatement s
  | .initializer (some s) => s.NearestElse
  | .methods ds => Declaration.AllNearestElse ds
  | .function d => d.NearestElse
  | _ => True

def references : Phrase → List (ReferenceKind × Reference)
  | .declarations body | .block body => Stmt.listReferences body
  | .declaration s | .variable s | .statement s | .expressionStatement s
  | .initializer (some s) => s.references
  | .methods ds => Declaration.listReferences ds
  | .function d => d.references
  | .initializer none | .parameterList _ | .parameters _ => []
  | .optional e => Expr.optionReferences e
  | .expression e | .conditional e | .operation _ e | .unary e | .call e | .primary e =>
    e.references
  | .argumentList es | .arguments es => Expr.listReferences es

end Phrase

def Reference.anonymous (r : Reference) : Reference := { r with id := 0 }

mutual
def Expr.anonymous : Expr → Expr
  | .literal value => .literal value
  | .grouping e => .grouping e.anonymous
  | .unary o e => .unary o e.anonymous
  | .binary l o r => .binary l.anonymous o r.anonymous
  | .logical l o r => .logical l.anonymous o r.anonymous
  | .conditional c (some t) e => .conditional c.anonymous (some t.anonymous) e.anonymous
  | .conditional c none e => .conditional c.anonymous none e.anonymous
  | .variable r => .variable r.anonymous
  | .assign r e => .assign r.anonymous e.anonymous
  | .call f paren es => .call f.anonymous paren (Expr.allAnonymous es)
  | .get o name => .get o.anonymous name
  | .set o name e => .set o.anonymous name e.anonymous
  | .this r => .this r.anonymous
  | .super r method => .super r.anonymous method

def Expr.allAnonymous : List Expr → List Expr
  | [] => []
  | e :: rest => e.anonymous :: Expr.allAnonymous rest
end

mutual
def Stmt.anonymous : Stmt → Stmt
  | .expression e => .expression e.anonymous
  | .print e => .print e.anonymous
  | .declareVar name e => .declareVar name (e.map Expr.anonymous)
  | .block body => .block (Stmt.allAnonymous body)
  | .branch c t (some e) => .branch c.anonymous t.anonymous (some e.anonymous)
  | .branch c t none => .branch c.anonymous t.anonymous none
  | .loop (some i) c n b =>
    .loop (some i.anonymous) c.anonymous (Stmt.optionAnonymous n) b.anonymous
  | .loop none c n b => .loop none c.anonymous (Stmt.optionAnonymous n) b.anonymous
  | .declareFunction d => .declareFunction d.anonymous
  | .returnWith word e => .returnWith word (e.map Expr.anonymous)
  | .breakLoop word => .breakLoop word
  | .continueLoop word => .continueLoop word
  | .declareClass name base ds =>
    .declareClass name (base.map Reference.anonymous) (Declaration.allAnonymous ds)

def Stmt.optionAnonymous : Option Stmt → Option Stmt
  | none => none
  | some s => some s.anonymous

def Stmt.allAnonymous : List Stmt → List Stmt
  | [] => []
  | s :: rest => s.anonymous :: Stmt.allAnonymous rest

def Declaration.anonymous : Declaration → Declaration
  | .mk name names body => .mk name names (Stmt.allAnonymous body)

def Declaration.allAnonymous : List Declaration → List Declaration
  | [] => []
  | d :: rest => d.anonymous :: Declaration.allAnonymous rest
end

end LoxLang
