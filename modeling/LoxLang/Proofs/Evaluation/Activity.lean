import LoxLang.Proofs.Scope.Context
import LoxLang.Proofs.Session.History

/-!
The activities that a run consists of.

An activity is one call of a function of the evaluator. It enters others to have its parts evaluated;
entering the body of a function is told apart from the rest, because there another lexical context
begins.
-/

set_option autoImplicit false

namespace LoxLang

/-- What a function of the evaluator is called for. -/
inductive Task where
  | evaluate (e : Expr)
  | evaluateAll (es : List Expr)
  | call (line : Nat) (callee : Value) (arguments : List Value)
  | invoke (line : Nat) (id : FunctionId) (arguments : List Value)
  | construct (line : Nat) (id : ClassId) (arguments : List Value)
  | render (line : Nat) (value : Value)
  | execute (s : Stmt)
  | executeAll (body : List Stmt)
  | iterate (condition : Expr) (increment : Option Stmt) (body : Stmt)

structure Activity where
  fuel : Nat
  task : Task
  machine : Machine

namespace Machine

def inner (m : Machine) : Machine :=
  { m with
    store := (m.store.addFrame (some m.cursor)).2
    cursor := ⟨m.store.frames.size⟩ }

def deeper (m : Machine) : Machine := { m with calls := m.calls + 1 }

end Machine

namespace Activity

/-- The first activity enters the second one, with the change of the lexical context on the way. What
was evaluated before on behalf of the first one is given by the equations. -/
inductive Enters : Activity → (Context → Context) → Activity → Prop
  | grouping {fuel : Nat} {m : Machine} {e : Expr} :
    Enters ⟨fuel + 1, .evaluate (.grouping e), m⟩ id ⟨fuel, .evaluate e, m⟩
  | unary {fuel : Nat} {m : Machine} {operator : Token} {e : Expr} :
    Enters ⟨fuel + 1, .evaluate (.unary operator e), m⟩ id ⟨fuel, .evaluate e, m⟩
  | binaryLeft {fuel : Nat} {m : Machine} {l r : Expr} {operator : Token} :
    Enters ⟨fuel + 1, .evaluate (.binary l operator r), m⟩ id ⟨fuel, .evaluate l, m⟩
  | binaryRight {fuel : Nat} {m m₁ : Machine} {l r : Expr} {operator : Token} {v : Value} :
    LoxLang.evaluate fuel l m = .answer v m₁ →
    Enters ⟨fuel + 1, .evaluate (.binary l operator r), m⟩ id ⟨fuel, .evaluate r, m₁⟩
  | logicalLeft {fuel : Nat} {m : Machine} {l r : Expr} {operator : Token} :
    Enters ⟨fuel + 1, .evaluate (.logical l operator r), m⟩ id ⟨fuel, .evaluate l, m⟩
  | logicalRight {fuel : Nat} {m m₁ : Machine} {l r : Expr} {operator : Token} {v : Value} :
    LoxLang.evaluate fuel l m = .answer v m₁ → decidedByLeft operator v = false →
    Enters ⟨fuel + 1, .evaluate (.logical l operator r), m⟩ id ⟨fuel, .evaluate r, m₁⟩
  | condition {fuel : Nat} {m : Machine} {c e : Expr} {t : Option Expr} :
    Enters ⟨fuel + 1, .evaluate (.conditional c t e), m⟩ id ⟨fuel, .evaluate c, m⟩
  | conditionalThen {fuel : Nat} {m m₁ : Machine} {c t e : Expr} {v : Value} :
    LoxLang.evaluate fuel c m = .answer v m₁ → v.truthy = true →
    Enters ⟨fuel + 1, .evaluate (.conditional c (some t) e), m⟩ id ⟨fuel, .evaluate t, m₁⟩
  | conditionalElse {fuel : Nat} {m m₁ : Machine} {c e : Expr} {t : Option Expr} {v : Value} :
    LoxLang.evaluate fuel c m = .answer v m₁ → v.truthy = false →
    Enters ⟨fuel + 1, .evaluate (.conditional c t e), m⟩ id ⟨fuel, .evaluate e, m₁⟩
  | assigned {fuel : Nat} {m : Machine} {target : Reference} {e : Expr} :
    Enters ⟨fuel + 1, .evaluate (.assign target e), m⟩ id ⟨fuel, .evaluate e, m⟩
  | callee {fuel : Nat} {m : Machine} {f : Expr} {paren : Token} {es : List Expr} :
    Enters ⟨fuel + 1, .evaluate (.call f paren es), m⟩ id ⟨fuel, .evaluate f, m⟩
  | arguments {fuel : Nat} {m m₁ : Machine} {f : Expr} {paren : Token} {es : List Expr} {v : Value} :
    LoxLang.evaluate fuel f m = .answer v m₁ →
    Enters ⟨fuel + 1, .evaluate (.call f paren es), m⟩ id ⟨fuel, .evaluateAll es, m₁⟩
  | call {fuel : Nat} {m m₁ m₂ : Machine} {f : Expr} {paren : Token} {es : List Expr} {v : Value}
      {vs : List Value} :
    LoxLang.evaluate fuel f m = .answer v m₁ → LoxLang.evaluateAll fuel es m₁ = .answer vs m₂ →
    Enters ⟨fuel + 1, .evaluate (.call f paren es), m⟩ id ⟨fuel, .call paren.line v vs, m₂⟩
  | gotten {fuel : Nat} {m : Machine} {o : Expr} {name : Token} :
    Enters ⟨fuel + 1, .evaluate (.get o name), m⟩ id ⟨fuel, .evaluate o, m⟩
  | changed {fuel : Nat} {m : Machine} {o e : Expr} {name : Token} :
    Enters ⟨fuel + 1, .evaluate (.set o name e), m⟩ id ⟨fuel, .evaluate o, m⟩
  | newValue {fuel : Nat} {m m₁ : Machine} {o e : Expr} {name : Token} {object : ObjectId} :
    LoxLang.evaluate fuel o m = .answer (.object object) m₁ →
    Enters ⟨fuel + 1, .evaluate (.set o name e), m⟩ id ⟨fuel, .evaluate e, m₁⟩
  | first {fuel : Nat} {m : Machine} {e : Expr} {rest : List Expr} :
    Enters ⟨fuel + 1, .evaluateAll (e :: rest), m⟩ id ⟨fuel, .evaluate e, m⟩
  | others {fuel : Nat} {m m₁ : Machine} {e : Expr} {rest : List Expr} {v : Value} :
    LoxLang.evaluate fuel e m = .answer v m₁ →
    Enters ⟨fuel + 1, .evaluateAll (e :: rest), m⟩ id ⟨fuel, .evaluateAll rest, m₁⟩
  | function {fuel line : Nat} {m : Machine} {f : FunctionId} {vs : List Value} :
    m.store.functionArity f = vs.length → m.calls < callLimit →
    Enters ⟨fuel + 1, .call line (.function f) vs, m⟩ id ⟨fuel, .invoke line f vs, m.deeper⟩
  | classCall {fuel line : Nat} {m : Machine} {c : ClassId} {vs : List Value} :
    m.store.classArity c = vs.length → m.calls < callLimit →
    Enters ⟨fuel + 1, .call line (.classValue c) vs, m⟩ id ⟨fuel, .construct line c vs, m.deeper⟩
  | initializer {fuel line : Nat} {m m₁ m₂ : Machine} {c : ClassId} {vs : List Value}
      {object : ObjectId} {method bound : FunctionId} :
    Eval.update (fun s => s.addObject ⟨c, ∅, #[]⟩) m = .answer object m₁ →
    m₁.store.method? c initializerName = some method →
    Eval.bindMethod method object m₁ = .answer bound m₂ →
    Enters ⟨fuel + 1, .construct line c vs, m⟩ id ⟨fuel, .invoke line bound vs, m₂⟩
  | text {fuel line : Nat} {m m₁ : Machine} {object : ObjectId} {method bound : FunctionId} :
    m.store.methodOf? object toStringName = some method → m.store.functionArity method = 0 →
    Eval.bindMethod method object m = .answer bound m₁ → m₁.calls < callLimit →
    Enters ⟨fuel + 1, .render line (.object object), m⟩ id ⟨fuel, .invoke line bound [], m₁.deeper⟩
  | textOf {fuel line : Nat} {m m₁ m₂ : Machine} {object : ObjectId} {method bound : FunctionId}
      {v : Value} :
    m.store.methodOf? object toStringName = some method → m.store.functionArity method = 0 →
    Eval.bindMethod method object m = .answer bound m₁ → m₁.calls < callLimit →
    LoxLang.invoke fuel line bound [] m₁.deeper = .answer v m₂ →
    Enters ⟨fuel + 1, .render line (.object object), m⟩ id ⟨fuel, .render line v, m₂⟩
  | expression {fuel : Nat} {m : Machine} {e : Expr} :
    Enters ⟨fuel + 1, .execute (.expression e), m⟩ id ⟨fuel, .evaluate e, m⟩
  | printed {fuel : Nat} {m : Machine} {e : Expr} :
    Enters ⟨fuel + 1, .execute (.print e), m⟩ id ⟨fuel, .evaluate e, m⟩
  | print {fuel : Nat} {m m₁ : Machine} {e : Expr} {v : Value} :
    LoxLang.evaluate fuel e m = .answer v m₁ →
    Enters ⟨fuel + 1, .execute (.print e), m⟩ id ⟨fuel, .render e.line v, m₁⟩
  | declareVar {fuel : Nat} {m : Machine} {name : Token} {e : Expr} :
    Enters ⟨fuel + 1, .execute (.declareVar name (some e)), m⟩ (.initializing name)
      ⟨fuel, .evaluate e, m⟩
  | block {fuel : Nat} {m : Machine} {body : List Stmt} :
    Enters ⟨fuel + 1, .execute (.block body), m⟩ (.within ∅ m.inner.cursor)
      ⟨fuel, .executeAll body, m.inner⟩
  | branchCondition {fuel : Nat} {m : Machine} {c : Expr} {t : Stmt} {e : Option Stmt} :
    Enters ⟨fuel + 1, .execute (.branch c t e), m⟩ id ⟨fuel, .evaluate c, m⟩
  | branchThen {fuel : Nat} {m m₁ : Machine} {c : Expr} {t : Stmt} {e : Option Stmt} {v : Value} :
    LoxLang.evaluate fuel c m = .answer v m₁ → v.truthy = true →
    Enters ⟨fuel + 1, .execute (.branch c t e), m⟩ id ⟨fuel, .execute t, m₁⟩
  | branchElse {fuel : Nat} {m m₁ : Machine} {c : Expr} {t e : Stmt} {v : Value} :
    LoxLang.evaluate fuel c m = .answer v m₁ → v.truthy = false →
    Enters ⟨fuel + 1, .execute (.branch c t (some e)), m⟩ id ⟨fuel, .execute e, m₁⟩
  | loopStart {fuel : Nat} {m : Machine} {i b : Stmt} {c : Expr} {n : Option Stmt} :
    Enters ⟨fuel + 1, .execute (.loop (some i) c n b), m⟩ (.within ∅ m.inner.cursor)
      ⟨fuel, .execute i, m.inner⟩
  | started {fuel : Nat} {m m₁ : Machine} {i b : Stmt} {c : Expr} {n : Option Stmt} {ending : Ending} :
    LoxLang.execute fuel i m.inner = .answer ending m₁ →
    Enters ⟨fuel + 1, .execute (.loop (some i) c n b), m⟩
      (fun K => (K.within ∅ m.inner.cursor).past i) ⟨fuel, .iterate c n b, m₁⟩
  | loop {fuel : Nat} {m : Machine} {b : Stmt} {c : Expr} {n : Option Stmt} :
    Enters ⟨fuel + 1, .execute (.loop none c n b), m⟩ id ⟨fuel, .iterate c n b, m⟩
  | returned {fuel : Nat} {m : Machine} {word : Token} {e : Expr} :
    Enters ⟨fuel + 1, .execute (.returnWith word (some e)), m⟩ id ⟨fuel, .evaluate e, m⟩
  | head {fuel : Nat} {m : Machine} {s : Stmt} {rest : List Stmt} :
    Enters ⟨fuel + 1, .executeAll (s :: rest), m⟩ id ⟨fuel, .execute s, m⟩
  | tail {fuel : Nat} {m m₁ : Machine} {s : Stmt} {rest : List Stmt} :
    LoxLang.execute fuel s m = .answer .normal m₁ →
    Enters ⟨fuel + 1, .executeAll (s :: rest), m⟩ (.past s) ⟨fuel, .executeAll rest, m₁⟩
  | loopCondition {fuel : Nat} {m : Machine} {c : Expr} {n : Option Stmt} {b : Stmt} :
    Enters ⟨fuel + 1, .iterate c n b, m⟩ id ⟨fuel, .evaluate c, m⟩
  | body {fuel : Nat} {m m₁ : Machine} {c : Expr} {n : Option Stmt} {b : Stmt} {v : Value} :
    LoxLang.evaluate fuel c m = .answer v m₁ → v.truthy = true →
    Enters ⟨fuel + 1, .iterate c n b, m⟩ id ⟨fuel, .execute b, m₁⟩
  | increment {fuel : Nat} {m m₁ m₂ : Machine} {c : Expr} {n b : Stmt} {v : Value} {ending : Ending} :
    LoxLang.evaluate fuel c m = .answer v m₁ → v.truthy = true →
    LoxLang.execute fuel b m₁ = .answer ending m₂ → ending = .normal ∨ ending = .continued →
    Enters ⟨fuel + 1, .iterate c (some n) b, m⟩ id ⟨fuel, .execute n, m₂⟩
  | again {fuel : Nat} {m m₁ m₂ : Machine} {c : Expr} {b : Stmt} {v : Value} {ending : Ending} :
    LoxLang.evaluate fuel c m = .answer v m₁ → v.truthy = true →
    LoxLang.execute fuel b m₁ = .answer ending m₂ → ending = .normal ∨ ending = .continued →
    Enters ⟨fuel + 1, .iterate c none b, m⟩ id ⟨fuel, .iterate c none b, m₂⟩
  | incremented {fuel : Nat} {m m₁ m₂ m₃ : Machine} {c : Expr} {n b : Stmt} {v : Value}
      {ending dropped : Ending} :
    LoxLang.evaluate fuel c m = .answer v m₁ → v.truthy = true →
    LoxLang.execute fuel b m₁ = .answer ending m₂ → ending = .normal ∨ ending = .continued →
    LoxLang.execute fuel n m₂ = .answer dropped m₃ →
    Enters ⟨fuel + 1, .iterate c (some n) b, m⟩ id ⟨fuel, .iterate c (some n) b, m₃⟩

/-- The first activity runs a function, and the second one is its body in the given environment. -/
inductive Invokes : Activity → FunctionId → Declaration → FrameId → Activity → Prop
  | body {fuel line : Nat} {m m₁ : Machine} {id : FunctionId} {vs : List Value} {f : Function}
      {d : Declaration} {frame : FrameId} :
    m.store.function? id = some f → f.code = .declared d →
    Eval.parameterFrame f.closure d.parameters vs m = .answer frame m₁ →
    Invokes ⟨fuel + 1, .invoke line id vs, m⟩ id d frame
      ⟨fuel, .executeAll d.body, { m₁ with cursor := frame }⟩

end Activity

inductive Program.Begins (fuel : Nat) : Program → Machine → Activity → Prop
  | statement {m : Machine} {s : Stmt} {rest : Program} :
    Begins fuel (s :: rest) m ⟨fuel, .execute s, m⟩
  | next {m m₁ : Machine} {s : Stmt} {rest : Program} {ending : Ending} {a : Activity} :
    execute fuel s m = .answer ending m₁ → Begins fuel rest m₁ a → Begins fuel (s :: rest) m a

def Performance.echoed? (p : Performance) : Option Expr :=
  match p.interactive, p.program with
  | true, [.expression e] => some e
  | _, _ => none

inductive Performance.Begins (p : Performance) : Activity → Prop
  | statements {a : Activity} :
    p.echoed? = none → p.program.Begins p.fuel p.machine a → Begins p a
  | echoed {e : Expr} :
    p.echoed? = some e → Begins p ⟨p.fuel, .evaluate e, p.machine⟩
  | echo {m : Machine} {e : Expr} {v : Value} :
    p.echoed? = some e → evaluate p.fuel e p.machine = .answer v m →
    Begins p ⟨p.fuel, .render e.line v, m⟩

/-- The activities entered from the given ones, in any number of steps. -/
inductive Activity.Visited (root : Activity → Prop) : Activity → Prop
  | root {a : Activity} : root a → Visited root a
  | part {a b : Activity} {change : Context → Context} :
    Visited root a → a.Enters change b → Visited root b
  | body {a b : Activity} {id : FunctionId} {d : Declaration} {frame : FrameId} :
    Visited root a → a.Invokes id d frame b → Visited root b

end LoxLang
