import LoxLang.Proofs.Syntax.Proper

set_option autoImplicit false

namespace LoxLang

def Stmt.isSimple : Stmt → Bool
  | .expression _ | .print _ | .declareVar _ _ | .returnWith _ _ | .breakLoop _ | .continueLoop _ => true
  | .block _ | .branch _ _ _ | .loop _ _ _ _ | .declareFunction _ | .declareClass _ _ _ => false

theorem Stmt.isSimple_of_isClause {s : Stmt} (h : s.isClause = true) : s.isSimple = true := by
  cases s <;> first | rfl | cases h

mutual
/-- The second statement is the first one with more braces, perhaps around the statement itself. -/
inductive Stmt.Braced : Stmt → Stmt → Prop
  | bare {s s' : Stmt} : Stmt.BracedWithin s s' → Stmt.Braced s s'
  | braces {s s' : Stmt} : s.declares = false → Stmt.BracedWithin s s' → Stmt.Braced s (.block [s'])

/-- The second statement is the first one with more braces in it. -/
inductive Stmt.BracedWithin : Stmt → Stmt → Prop
  | simple {s : Stmt} : s.isSimple = true → Stmt.BracedWithin s s
  | block {body body' : List Stmt} : Stmt.AllBraced body body' →
    Stmt.BracedWithin (.block body) (.block body')
  | ifAlone {c : Expr} {t t' : Stmt} : Stmt.Braced t t' →
    Stmt.BracedWithin (.branch c t none) (.branch c t' none)
  | ifElse {c : Expr} {t t' e e' : Stmt} : Stmt.Braced t t' → Stmt.Braced e e' →
    Stmt.BracedWithin (.branch c t (some e)) (.branch c t' (some e'))
  | loop {i : Option Stmt} {c : Expr} {n : Option Stmt} {b b' : Stmt} : Stmt.Braced b b' →
    Stmt.BracedWithin (.loop i c n b) (.loop i c n b')
  | function {d d' : Declaration} : Declaration.Braced d d' →
    Stmt.BracedWithin (.declareFunction d) (.declareFunction d')
  | classBody {name : Token} {base : Option Reference} {ds ds' : List Declaration} :
    Declaration.AllBraced ds ds' →
    Stmt.BracedWithin (.declareClass name base ds) (.declareClass name base ds')

inductive Stmt.AllBraced : List Stmt → List Stmt → Prop
  | nil : Stmt.AllBraced [] []
  | cons {s s' : Stmt} {rest rest' : List Stmt} : Stmt.Braced s s' → Stmt.AllBraced rest rest' →
    Stmt.AllBraced (s :: rest) (s' :: rest')

inductive Declaration.Braced : Declaration → Declaration → Prop
  | mk {name : Token} {parameters : List Token} {body body' : List Stmt} : Stmt.AllBraced body body' →
    Declaration.Braced (.mk name parameters body) (.mk name parameters body')

inductive Declaration.AllBraced : List Declaration → List Declaration → Prop
  | nil : Declaration.AllBraced [] []
  | cons {d d' : Declaration} {rest rest' : List Declaration} : Declaration.Braced d d' →
    Declaration.AllBraced rest rest' → Declaration.AllBraced (d :: rest) (d' :: rest')
end

mutual
theorem Stmt.bracedWithin_refl : ∀ s : Stmt, s.BracedWithin s
  | .expression _ | .print _ | .declareVar _ _ | .returnWith _ _ | .breakLoop _ | .continueLoop _ =>
    .simple rfl
  | .block body => .block (Stmt.allBraced_refl body)
  | .branch _ t none => .ifAlone (.bare (Stmt.bracedWithin_refl t))
  | .branch _ t (some e) => .ifElse (.bare (Stmt.bracedWithin_refl t)) (.bare (Stmt.bracedWithin_refl e))
  | .loop _ _ _ b => .loop (.bare (Stmt.bracedWithin_refl b))
  | .declareFunction d => .function (Declaration.braced_refl d)
  | .declareClass _ _ ds => .classBody (Declaration.allBraced_refl ds)

theorem Stmt.allBraced_refl : ∀ body : List Stmt, Stmt.AllBraced body body
  | [] => .nil
  | s :: rest => .cons (.bare (Stmt.bracedWithin_refl s)) (Stmt.allBraced_refl rest)

theorem Declaration.braced_refl : ∀ d : Declaration, d.Braced d
  | .mk _ _ body => .mk (Stmt.allBraced_refl body)

theorem Declaration.allBraced_refl : ∀ ds : List Declaration, Declaration.AllBraced ds ds
  | [] => .nil
  | d :: rest => .cons (Declaration.braced_refl d) (Declaration.allBraced_refl rest)
end

theorem Stmt.braced_block {s : Stmt} (h : s.declares = false) : s.Braced (.block [s]) :=
  .braces h (Stmt.bracedWithin_refl s)

end LoxLang
