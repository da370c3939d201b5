import LoxLang.Proofs.Syntax.Relabeling
import LoxLang.Syntax.Parsing

/-!
Parsing does not look at lines or identities.

With other line numbers on the tokens and a later identity to draw next every production takes the same
course: it answers the same tree with those line numbers and identities in it, and reports the same errors
at tokens that have the line numbers.
-/

set_option autoImplicit false

namespace LoxLang

namespace Parsing

def State.relabel (ρ : Relabeling) (s : State) : State where
  rest := s.rest.map (Token.relabel ρ)
  beyond := s.beyond.relabel ρ
  nextId := ρ.identity s.nextId
  reported := s.reported.map (Diagnostic.relabel ρ)

def Reply.relabel {α β : Type} (ρ : Relabeling) (f : α → β) : Reply α → Reply β
  | .parsed value s => .parsed (f value) (s.relabel ρ)
  | .failed token cause s => .failed (token.relabel ρ) cause (s.relabel ρ)
  | .exhausted => .exhausted

/-- With other line numbers and identities the second production does what the first one does without
them. -/
def Blind {α β : Type} (φ : Nat → Nat) (k : Nat) (f : α → β) (p : Parser α) (q : Parser β) : Prop :=
  ∀ s : State, q (s.relabel (.shifted φ k)) = (p s).relabel (.shifted φ k) f

variable {φ : Nat → Nat} {k : Nat}

theorem State.current_relabel (ρ : Relabeling) (s : State) :
    (s.relabel ρ).current = s.current.relabel ρ := by
  obtain ⟨rest, beyond, nextId, reported⟩ := s
  cases rest <;> rfl

namespace Blind

variable {α β α' β' : Type} {f : α → α'} {g : β → β'}

theorem ret {v : α} {w : α'} (h : w = f v) : Blind φ k f (pure v) (pure w) := by
  subst h
  exact fun _ => rfl

theorem bind {p : Parser α} {p' : Parser α'} {q : α → Parser β} {q' : α' → Parser β'}
    (hp : Blind φ k f p p') (hq : ∀ v, Blind φ k g (q v) (q' (f v))) : Blind φ k g (p >>= q) (p' >>= q') := by
  intro s
  change andThen p' q' _ = (andThen p q s).relabel _ g
  rw [andThen, andThen, hp s]
  cases p s with
  | parsed v s₁ => exact hq v s₁
  | failed t cause s₁ => rfl
  | exhausted => rfl

theorem map {h : α → β} {h' : α' → β'} {p : Parser α} {p' : Parser α'} (hp : Blind φ k f p p')
    (hsame : ∀ v, h' (f v) = g (h v)) : Blind φ k g (h <$> p) (h' <$> p') :=
  bind hp fun v => ret (hsame v)

theorem current : Blind φ k (Token.relabel (.shifted φ k)) current current := by
  intro s
  simp only [Parsing.current, State.current_relabel]
  rfl

theorem check {kind : Kind} : Blind φ k id (check kind) (check kind) := by
  intro s
  simp only [Parsing.check, State.current_relabel, Token.kind_relabel]
  rfl

theorem atEnd : Blind φ k id atEnd atEnd := check

theorem advance : Blind φ k (Token.relabel (.shifted φ k)) advance advance := by
  intro s
  simp only [Parsing.advance, State.current_relabel, Token.kind_relabel]
  split
  · rfl
  · simp [Reply.relabel, State.relabel, List.map_tail]

theorem accept {kind : Kind} :
    Blind φ k (Option.map (Token.relabel (.shifted φ k))) (accept kind) (accept kind) := by
  intro s
  simp only [Parsing.accept, State.current_relabel, Token.kind_relabel]
  split
  · simp [Reply.relabel, State.relabel, List.map_tail]
  · rfl

theorem expect {kind : Kind} {what : Expectation} :
    Blind φ k (Token.relabel (.shifted φ k)) (expect kind what) (expect kind what) := by
  intro s
  simp only [Parsing.expect, State.current_relabel, Token.kind_relabel]
  split
  · simp [Reply.relabel, State.relabel, List.map_tail]
  · rfl

theorem failHere {cause : SyntaxError} : Blind φ k f (failHere cause) (failHere cause) := by
  intro s
  simp only [Parsing.failHere, State.current_relabel]
  rfl

theorem outOfDepth : Blind φ k f outOfDepth outOfDepth := fun _ => rfl

theorem note {t : Token} {cause : SyntaxError} :
    Blind φ k id (note t cause) (note (t.relabel (.shifted φ k)) cause) := by
  intro s
  simp [Parsing.note, Reply.relabel, State.relabel, Diagnostic.relabel]

theorem reference {name : Token} : Blind φ k (Reference.relabel (.shifted φ k)) (reference name)
    (reference (name.relabel (.shifted φ k))) := by
  intro s
  simp [Parsing.reference, Reply.relabel, State.relabel, Relabeling.shifted, Reference.relabel,
    Nat.add_right_comm]

theorem choice {flag : Bool} {p q : Parser α} {p' q' : Parser α'} (hp : Blind φ k f p p')
    (hq : Blind φ k f q q') : Blind φ k f (if flag then p else q) (if flag then p' else q') := by
  cases flag
  · exact hq
  · exact hp

theorem noted {condition : Prop} [Decidable condition] {cause : SyntaxError} {p : Parser α}
    {p' : Parser α'} (hp : Blind φ k f p p') :
    Blind φ k f
      (do if condition then Parsing.note (← Parsing.current) cause
          p)
      (do if condition then Parsing.note (← Parsing.current) cause
          p') := by
  split
  · exact .bind .current fun _ => .bind .note fun _ => hp
  · exact hp

end Blind

theorem boundaryAfter_relabel (ρ : Relabeling) (skipped : Token) (rest : List Token) :
    boundaryAfter (skipped.relabel ρ) (rest.map (Token.relabel ρ)) =
      (boundaryAfter skipped rest).map (Token.relabel ρ) := by
  induction rest generalizing skipped with
  | nil => rfl
  | cons t rest ih =>
    rw [List.map_cons, boundaryAfter, boundaryAfter, apply_ite (List.map (Token.relabel ρ)), ih]
    rfl

theorem skipToBoundary_relabel (ρ : Relabeling) (rest : List Token) :
    skipToBoundary (rest.map (Token.relabel ρ)) = (skipToBoundary rest).map (Token.relabel ρ) := by
  cases rest with
  | nil => rfl
  | cons t rest =>
    rw [List.map_cons, skipToBoundary, skipToBoundary, apply_ite (List.map (Token.relabel ρ)),
      boundaryAfter_relabel]
    rfl

theorem Blind.recover {α α' : Type} {f : α → α'} {p : Parser α} {p' : Parser α'}
    (h : Blind φ k f p p') : Blind φ k (Option.map f) (recover p) (recover p') := by
  intro s
  rw [Parsing.recover, Parsing.recover, h s]
  cases p s with
  | parsed v s₁ => rfl
  | failed t cause s₁ =>
    simp [Reply.relabel, State.relabel, Diagnostic.relabel, skipToBoundary_relabel]
  | exhausted => rfl

def Level.Keeps (l : Level) : Prop :=
  ∀ (ρ : Relabeling) (left right : Expr) (operator : Token),
    l.node (left.relabel ρ) (operator.relabel ρ) (right.relabel ρ) =
      (l.node left operator right).relabel ρ

theorem levels_keep : ∀ l ∈ levels, l.Keeps := by
  intro l hl
  simp only [levels, List.mem_cons, List.not_mem_nil, or_false] at hl
  rcases hl with rfl | rfl | rfl | rfl | rfl | rfl <;> exact fun _ _ _ _ => rfl

structure ExpressionsBlind (φ : Nat → Nat) (k depth : Nat) : Prop where
  expression : Blind φ k (Expr.relabel (.shifted φ k)) (expression depth) (expression depth)
  conditional : Blind φ k (Expr.relabel (.shifted φ k)) (conditional depth) (conditional depth)
  level : ∀ ls, (∀ l ∈ ls, l.Keeps) →
    Blind φ k (Expr.relabel (.shifted φ k)) (level depth ls) (level depth ls)
  levelRest : ∀ l ls left, l.Keeps → (∀ l ∈ ls, l.Keeps) →
    Blind φ k (Expr.relabel (.shifted φ k)) (levelRest depth l ls left)
      (levelRest depth l ls (left.relabel (.shifted φ k)))
  unary : Blind φ k (Expr.relabel (.shifted φ k)) (unary depth) (unary depth)
  callRest : ∀ callee, Blind φ k (Expr.relabel (.shifted φ k)) (callRest depth callee)
    (callRest depth (callee.relabel (.shifted φ k)))
  arguments : ∀ count, Blind φ k (Expr.relabelAll (.shifted φ k)) (arguments depth count)
    (arguments depth count)
  primary : Blind φ k (Expr.relabel (.shifted φ k)) (primary depth) (primary depth)

variable {depth : Nat}

theorem blind_expression (ih : ExpressionsBlind φ k depth) :
    Blind φ k (Expr.relabel (.shifted φ k)) (expression (depth + 1)) (expression (depth + 1)) := by
  rw [expression]
  refine .bind ih.conditional fun target => .bind .accept fun equals => ?_
  cases equals with
  | none => exact .ret rfl
  | some equals =>
    refine .bind ih.expression fun value => ?_
    have hother : Blind φ k (Expr.relabel (.shifted φ k))
        (do note equals .invalidAssignmentTarget; return target)
        (do
          note (equals.relabel (.shifted φ k)) .invalidAssignmentTarget
          return target.relabel (.shifted φ k)) := .bind .note fun _ => .ret rfl
    cases target with
    | «variable» target => exact .bind .reference fun _ => .ret rfl
    | get object name => exact .ret rfl
    | conditional c t e => cases t <;> exact hother
    | _ => exact hother

theorem blind_conditional (ih : ExpressionsBlind φ k depth) :
    Blind φ k (Expr.relabel (.shifted φ k)) (conditional (depth + 1)) (conditional (depth + 1)) := by
  rw [conditional]
  refine .bind (ih.level levels levels_keep) fun condition => .bind .accept fun question => ?_
  cases question with
  | none => exact .ret rfl
  | some question =>
    refine .bind .accept fun colon => ?_
    cases colon with
    | some colon => exact .bind ih.conditional fun _ => .ret rfl
    | none =>
      refine .bind ih.conditional fun _ => .bind .expect fun _ => ?_
      exact .bind ih.conditional fun _ => .ret rfl

theorem blind_level (ih : ExpressionsBlind φ k depth) (ls : List Level) (hls : ∀ l ∈ ls, l.Keeps) :
    Blind φ k (Expr.relabel (.shifted φ k)) (level (depth + 1) ls) (level (depth + 1) ls) := by
  cases ls with
  | nil =>
    rw [level]
    exact ih.unary
  | cons l tighter =>
    obtain ⟨hl, htighter⟩ := List.forall_mem_cons.mp hls
    rw [level]
    exact .bind (ih.level tighter htighter) fun left => ih.levelRest l tighter left hl htighter

theorem blind_levelRest (ih : ExpressionsBlind φ k depth) (l : Level) (ls : List Level) (left : Expr)
    (hl : l.Keeps) (hls : ∀ l ∈ ls, l.Keeps) :
    Blind φ k (Expr.relabel (.shifted φ k)) (levelRest (depth + 1) l ls left)
      (levelRest (depth + 1) l ls (left.relabel (.shifted φ k))) := by
  rw [levelRest, levelRest]
  refine .bind .current fun t => .choice ?_ (.ret rfl)
  refine .bind .advance fun operator => .bind (ih.level ls hls) fun right => ?_
  rw [hl]
  exact ih.levelRest l ls _ hl hls

theorem blind_unary (ih : ExpressionsBlind φ k depth) :
    Blind φ k (Expr.relabel (.shifted φ k)) (unary (depth + 1)) (unary (depth + 1)) := by
  rw [unary]
  refine .bind .current fun t => .choice ?_ (.bind ih.primary fun callee => ih.callRest callee)
  exact .bind .advance fun operator => .bind ih.unary fun _ => .ret rfl

theorem blind_callRest (ih : ExpressionsBlind φ k depth) (callee : Expr) :
    Blind φ k (Expr.relabel (.shifted φ k)) (callRest (depth + 1) callee)
      (callRest (depth + 1) (callee.relabel (.shifted φ k))) := by
  rw [callRest, callRest]
  refine .bind .accept fun left => ?_
  cases left with
  | some left =>
    have hrest : ∀ es : List Expr, Blind φ k (Expr.relabel (.shifted φ k))
        (do
          let paren ← expect (.mark .rightParen) .argumentListEnd
          callRest depth (.call callee paren es))
        (do
          let paren ← expect (.mark .rightParen) .argumentListEnd
          callRest depth (.call (callee.relabel (.shifted φ k)) paren
            (Expr.relabelAll (.shifted φ k) es))) :=
      fun es => .bind .expect fun paren => ih.callRest (.call callee paren es)
    refine .bind .check fun closed => .choice ?_ ?_
    · exact .bind (.ret rfl) hrest
    · exact .bind (ih.arguments 0) hrest
  | none =>
    refine .bind .accept fun dot => ?_
    cases dot with
    | some dot => exact .bind .expect fun name => ih.callRest (.get callee name)
    | none => exact .ret rfl

theorem blind_arguments (ih : ExpressionsBlind φ k depth) (count : Nat) :
    Blind φ k (Expr.relabelAll (.shifted φ k)) (arguments (depth + 1) count)
      (arguments (depth + 1) count) := by
  rw [arguments]
  refine .noted (.bind ih.expression fun first => .bind .accept fun comma => ?_)
  cases comma with
  | some comma => exact .bind (ih.arguments (count + 1)) fun _ => .ret rfl
  | none => exact .ret rfl

theorem Blind.literal {value : Literal} : Blind φ k (Expr.relabel (.shifted φ k))
    (do let _ ← Parsing.advance; return .literal value)
    (do let _ ← Parsing.advance; return .literal value) := .bind .advance fun _ => .ret rfl

theorem blind_primary (ih : ExpressionsBlind φ k depth) :
    Blind φ k (Expr.relabel (.shifted φ k)) (primary (depth + 1)) (primary (depth + 1)) := by
  rw [primary]
  refine .bind .current fun t => ?_
  simp only [Token.kind_relabel]
  cases t.kind with
  | number value => exact .literal
  | string contents => exact .literal
  | identifier => exact .bind .advance fun _ => .bind .reference fun _ => .ret rfl
  | endOfInput => exact .failHere
  | keyword word =>
    cases word with
    | falseWord | trueWord | nilWord => exact .literal
    | thisWord => exact .bind .advance fun _ => .bind .reference fun _ => .ret rfl
    | superWord =>
      refine .bind .advance fun keyword => .bind .expect fun _ => .bind .expect fun method => ?_
      exact .bind .reference fun _ => .ret rfl
    | _ => exact .failHere
  | mark m =>
    cases m with
    | leftParen =>
      refine .bind .advance fun _ => .bind ih.expression fun inner => .bind .expect fun _ => ?_
      exact .ret rfl
    | _ => exact .failHere

theorem expressionsBlind (φ : Nat → Nat) (k depth : Nat) : ExpressionsBlind φ k depth := by
  induction depth with
  | zero =>
    exact ⟨.outOfDepth, .outOfDepth, fun _ _ => .outOfDepth, fun _ _ _ _ _ => .outOfDepth, .outOfDepth,
      fun _ => .outOfDepth, fun _ => .outOfDepth, .outOfDepth⟩
  | succ depth ih =>
    exact ⟨blind_expression ih, blind_conditional ih, blind_level ih, blind_levelRest ih,
      blind_unary ih, blind_callRest ih, blind_arguments ih, blind_primary ih⟩

theorem blind_parameters (depth count : Nat) :
    Blind φ k (List.map (Token.relabel (.shifted φ k))) (parameters depth count)
      (parameters depth count) := by
  induction depth generalizing count with
  | zero => exact .outOfDepth
  | succ depth ih =>
    rw [parameters]
    refine .noted (.bind .expect fun first => .bind .accept fun comma => ?_)
    cases comma with
    | some comma => exact .bind (ih (count + 1)) fun _ => .ret rfl
    | none => exact .ret rfl

theorem blind_variableDeclaration (depth : Nat) :
    Blind φ k (Stmt.relabel (.shifted φ k)) (variableDeclaration depth) (variableDeclaration depth) := by
  rw [variableDeclaration]
  refine .bind .expect fun name => .bind .accept fun equal => ?_
  cases equal with
  | some equal =>
    refine .bind (expressionsBlind φ k depth).expression fun e => ?_
    exact .bind (.ret rfl) fun _ : Option Expr => .bind .expect fun _ => .ret rfl
  | none => exact .bind (.ret rfl) fun _ : Option Expr => .bind .expect fun _ => .ret rfl

theorem blind_expressionStatement (depth : Nat) :
    Blind φ k (Stmt.relabel (.shifted φ k)) (expressionStatement depth) (expressionStatement depth) :=
  .bind (expressionsBlind φ k depth).expression fun _ => .bind .expect fun _ => .ret rfl

theorem blind_printStatement (depth : Nat) :
    Blind φ k (Stmt.relabel (.shifted φ k)) (printStatement depth) (printStatement depth) :=
  .bind (expressionsBlind φ k depth).expression fun _ => .bind .expect fun _ => .ret rfl

theorem Blind.unless {β β' : Type} {g : β → β'} {kind : Kind} {q : Option Expr → Parser β}
    {q' : Option Expr → Parser β'}
    (hq : ∀ e : Option Expr, Blind φ k g (q e) (q' (e.map (Expr.relabel (.shifted φ k))))) :
    Blind φ k g
      (do if ← Parsing.check kind then q (← pure none) else q (← some <$> expression depth))
      (do if ← Parsing.check kind then q' (← pure none) else q' (← some <$> expression depth)) := by
  refine .bind .check fun absent => .choice (.bind (.ret rfl) hq) ?_
  exact .bind (.map (expressionsBlind φ k depth).expression fun _ => rfl) hq

theorem blind_returnStatement (depth : Nat) (keyword : Token) :
    Blind φ k (Stmt.relabel (.shifted φ k)) (returnStatement depth keyword)
      (returnStatement depth (keyword.relabel (.shifted φ k))) :=
  .unless fun _ => .bind .expect fun _ => .ret rfl

theorem blind_forInitializer (depth : Nat) :
    Blind φ k (Option.map (Stmt.relabel (.shifted φ k))) (forInitializer depth) (forInitializer depth) := by
  rw [forInitializer]
  refine .bind .accept fun semicolon => ?_
  cases semicolon with
  | some semicolon => exact .ret rfl
  | none =>
    refine .bind .accept fun word => ?_
    cases word with
    | some word => exact .bind (blind_variableDeclaration depth) fun _ => .ret rfl
    | none => exact .bind (blind_expressionStatement depth) fun _ => .ret rfl

structure StatementsBlind (φ : Nat → Nat) (k depth : Nat) : Prop where
  declaration : Blind φ k (Option.map (Stmt.relabel (.shifted φ k))) (declaration depth)
    (declaration depth)
  classDeclaration : Blind φ k (Stmt.relabel (.shifted φ k)) (classDeclaration depth)
    (classDeclaration depth)
  methods : Blind φ k (Declaration.relabelAll (.shifted φ k)) (methods depth) (methods depth)
  function : ∀ kind, Blind φ k (Declaration.relabel (.shifted φ k)) (function depth kind)
    (function depth kind)
  block : Blind φ k (Stmt.relabelAll (.shifted φ k)) (block depth) (block depth)
  declarations : Blind φ k (Stmt.relabelAll (.shifted φ k)) (declarations depth) (declarations depth)
  statement : Blind φ k (Stmt.relabel (.shifted φ k)) (statement depth) (statement depth)

theorem blind_declaration (ih : StatementsBlind φ k depth) :
    Blind φ k (Option.map (Stmt.relabel (.shifted φ k))) (declaration (depth + 1))
      (declaration (depth + 1)) := by
  rw [declaration]
  refine .recover (.bind .current fun t => ?_)
  simp only [Token.kind_relabel]
  cases t.kind with
  | keyword word =>
    cases word with
    | classWord => exact .bind .advance fun _ => ih.classDeclaration
    | funWord => exact .bind .advance fun _ => .bind (ih.function .function) fun _ => .ret rfl
    | varWord => exact .bind .advance fun _ => blind_variableDeclaration depth
    | _ => exact ih.statement
  | _ => exact ih.statement

theorem blind_classDeclaration (ih : StatementsBlind φ k depth) :
    Blind φ k (Stmt.relabel (.shifted φ k)) (classDeclaration (depth + 1))
      (classDeclaration (depth + 1)) := by
  rw [classDeclaration]
  refine .bind .expect fun name => .bind .accept fun less => ?_
  have hbody : ∀ base : Option Reference, Blind φ k (Stmt.relabel (.shifted φ k))
      (do
        let _ ← expect (.mark .leftBrace) .classBody
        let methods ← methods depth
        let _ ← expect (.mark .rightBrace) .classEnd
        return .declareClass name base methods)
      (do
        let _ ← expect (.mark .leftBrace) .classBody
        let methods ← methods depth
        let _ ← expect (.mark .rightBrace) .classEnd
        return .declareClass (name.relabel (.shifted φ k))
          (base.map (Reference.relabel (.shifted φ k))) methods) := fun base =>
    .bind .expect fun _ => .bind ih.methods fun _ => .bind .expect fun _ => .ret rfl
  cases less with
  | some less =>
    refine .bind .expect fun base => .bind .reference fun _ => ?_
    exact .bind (.ret rfl) hbody
  | none => exact .bind (.ret rfl) hbody

theorem blind_methods (ih : StatementsBlind φ k depth) :
    Blind φ k (Declaration.relabelAll (.shifted φ k)) (methods (depth + 1)) (methods (depth + 1)) := by
  rw [methods]
  refine .bind .check fun closed => .bind .atEnd fun ended => .choice (.ret rfl) ?_
  exact .bind (ih.function .method) fun _ => .bind ih.methods fun _ => .ret rfl

theorem blind_function (ih : StatementsBlind φ k depth) (kind : FunctionKind) :
    Blind φ k (Declaration.relabel (.shifted φ k)) (function (depth + 1) kind)
      (function (depth + 1) kind) := by
  rw [function]
  refine .bind .expect fun name => .bind .expect fun _ => ?_
  have hbody : ∀ names : List Token, Blind φ k (Declaration.relabel (.shifted φ k))
      (do
        let _ ← expect (.mark .rightParen) .parameterListEnd
        let _ ← expect (.mark .leftBrace) (.functionBody kind)
        return .mk name names (← block depth))
      (do
        let _ ← expect (.mark .rightParen) .parameterListEnd
        let _ ← expect (.mark .leftBrace) (.functionBody kind)
        return .mk (name.relabel (.shifted φ k)) (names.map (Token.relabel (.shifted φ k)))
          (← block depth)) := fun names =>
    .bind .expect fun _ => .bind .expect fun _ => .bind ih.block fun _ => .ret rfl
  refine .bind .check fun absent => .choice ?_ ?_
  · exact .bind (.ret rfl) hbody
  · exact .bind (blind_parameters depth 0) hbody

theorem blind_block (ih : StatementsBlind φ k depth) :
    Blind φ k (Stmt.relabelAll (.shifted φ k)) (block (depth + 1)) (block (depth + 1)) := by
  rw [block]
  exact .bind ih.declarations fun _ => .bind .expect fun _ => .ret rfl

theorem relabelAll_toList (ρ : Relabeling) (first : Option Stmt) (rest : List Stmt) :
    (first.map (Stmt.relabel ρ)).toList ++ Stmt.relabelAll ρ rest =
      Stmt.relabelAll ρ (first.toList ++ rest) := by
  cases first <;> rfl

theorem blind_declarations (ih : StatementsBlind φ k depth) :
    Blind φ k (Stmt.relabelAll (.shifted φ k)) (declarations (depth + 1)) (declarations (depth + 1)) := by
  rw [declarations]
  refine .bind .check fun closed => .bind .atEnd fun ended => .choice (.ret rfl) ?_
  exact .bind ih.declaration fun first => .bind ih.declarations fun rest =>
    .ret (relabelAll_toList _ first rest)

theorem blind_statement (ih : StatementsBlind φ k depth) :
    Blind φ k (Stmt.relabel (.shifted φ k)) (statement (depth + 1)) (statement (depth + 1)) := by
  have hexpression := (expressionsBlind φ k depth).expression
  have hplain := blind_expressionStatement (φ := φ) (k := k) depth
  rw [statement]
  refine .bind .current fun t => ?_
  simp only [Token.kind_relabel]
  cases t.kind with
  | keyword word =>
    cases word with
    | forWord =>
      refine .bind .advance fun _ => .bind .expect fun _ => ?_
      refine .bind (blind_forInitializer depth) fun initializer => ?_
      have hrest : ∀ condition : Expr, Blind φ k (Stmt.relabel (.shifted φ k))
          (do
            let _ ← expect (.mark .semicolon) .loopConditionEnd
            let increment ←
              if ← check (.mark .rightParen) then pure none else some <$> expression depth
            let _ ← expect (.mark .rightParen) .forClausesEnd
            return .loop initializer condition (increment.map .expression) (← statement depth))
          (do
            let _ ← expect (.mark .semicolon) .loopConditionEnd
            let increment ←
              if ← check (.mark .rightParen) then pure none else some <$> expression depth
            let _ ← expect (.mark .rightParen) .forClausesEnd
            return .loop (initializer.map (Stmt.relabel (.shifted φ k)))
              (condition.relabel (.shifted φ k)) (increment.map .expression) (← statement depth)) := by
        refine fun condition => .bind .expect fun _ => .unless fun increment => ?_
        refine .bind .expect fun _ => .bind ih.statement fun body => .ret ?_
        cases initializer <;> cases increment <;> rfl
      refine .bind .check fun absent => .choice ?_ (.bind hexpression hrest)
      exact .bind (.ret rfl) hrest
    | ifWord =>
      refine .bind .advance fun _ => .bind .expect fun _ => .bind hexpression fun condition => ?_
      refine .bind .expect fun _ => .bind ih.statement fun branch => .bind .accept fun other => ?_
      cases other with
      | some other => exact .bind ih.statement fun _ => .ret rfl
      | none => exact .ret rfl
    | whileWord =>
      refine .bind .advance fun _ => .bind .expect fun _ => .bind hexpression fun condition => ?_
      exact .bind .expect fun _ => .bind ih.statement fun _ => .ret rfl
    | returnWord => exact .bind .advance fun keyword => blind_returnStatement depth keyword
    | breakWord | continueWord => exact .bind .advance fun _ => .bind .expect fun _ => .ret rfl
    | printWord => exact .bind .advance fun _ => blind_printStatement depth
    | _ => exact hplain
  | mark m =>
    cases m with
    | leftBrace => exact .bind .advance fun _ => .bind ih.block fun _ => .ret rfl
    | _ => exact hplain
  | _ => exact hplain

theorem statementsBlind (φ : Nat → Nat) (k depth : Nat) : StatementsBlind φ k depth := by
  induction depth with
  | zero =>
    exact ⟨.outOfDepth, .outOfDepth, .outOfDepth, fun _ => .outOfDepth, .outOfDepth, .outOfDepth,
      .outOfDepth⟩
  | succ depth ih =>
    exact ⟨blind_declaration ih, blind_classDeclaration ih, blind_methods ih, blind_function ih,
      blind_block ih, blind_declarations ih, blind_statement ih⟩

theorem blind_program (depth : Nat) :
    Blind φ k (Stmt.relabelAll (.shifted φ k)) (program depth) (program depth) := by
  induction depth with
  | zero => exact .outOfDepth
  | succ depth ih =>
    rw [program]
    refine .bind .atEnd fun ended => .choice (.ret rfl) ?_
    exact .bind (statementsBlind φ k depth).declaration fun first => .bind ih fun rest =>
      .ret (relabelAll_toList _ first rest)

/-- Where there are no tokens, the end of the input stands on line 0. -/
theorem State.start_relabel (n : ReferenceId) (tokens : List Token) (hzero : tokens = [] → φ 0 = 0) :
    State.start (n + k) (tokens.map (Token.relabel (.shifted φ k))) =
      (State.start n tokens).relabel (.shifted φ k) := by
  have hbeyond : (tokens.map (Token.relabel (.shifted φ k))).getLastD missingEnd =
      (tokens.getLastD missingEnd).relabel (.shifted φ k) := by
    cases tokens with
    | nil => simp [missingEnd, Token.relabel, Relabeling.shifted, hzero rfl]
    | cons t rest =>
      rw [List.getLastD_eq_getLast?, List.getLastD_eq_getLast?, List.getLast?_map]
      simp [List.getLast?_cons]
  rw [State.start, State.start, hbeyond]
  rfl

end Parsing

def relabelResult (ρ : Relabeling) :
    Except (List Diagnostic) Program × ReferenceId → Except (List Diagnostic) Program × ReferenceId
  | (.ok P, next) => (.ok (Stmt.relabelAll ρ P), ρ.identity next)
  | (.error errors, next) => (.error (errors.map (Diagnostic.relabel ρ)), ρ.identity next)

/-- A program is parsed in the same way whatever lines its tokens stand on and whatever identities come
next. -/
theorem Program.ofTokens_shifted {φ : Nat → Nat} (n k : ReferenceId) (tokens : List Token)
    (hzero : tokens = [] → φ 0 = 0) :
    Program.ofTokens (n + k) (tokens.map (Token.relabel (.shifted φ k))) =
      relabelResult (.shifted φ k) (Program.ofTokens n tokens) := by
  have hdepth : Parsing.depthFor (tokens.map (Token.relabel (.shifted φ k))) =
      Parsing.depthFor tokens := by
    simp [Parsing.depthFor]
  rw [Program.ofTokens, Program.ofTokens, hdepth, Parsing.State.start_relabel n tokens hzero,
    Parsing.blind_program]
  cases Parsing.program (Parsing.depthFor tokens) (Parsing.State.start n tokens) with
  | parsed P s =>
    simp only [Parsing.Reply.relabel, Parsing.outcome, Parsing.State.relabel, List.isEmpty_map]
    cases s.reported.isEmpty <;> rfl
  | failed t cause s =>
    simp [Parsing.Reply.relabel, Parsing.outcome, Parsing.State.relabel, relabelResult,
      Diagnostic.relabel]
  | exhausted => rfl

theorem Program.ofTokens_relabel {φ : Nat → Nat} (n : ReferenceId) (tokens : List Token)
    (hzero : tokens = [] → φ 0 = 0) :
    Program.ofTokens n (tokens.map (Token.relabel (.ofLines φ))) =
      relabelResult (.ofLines φ) (Program.ofTokens n tokens) :=
  ofTokens_shifted n 0 tokens hzero

theorem Program.ofTokens_later (n : ReferenceId) (tokens : List Token) :
    Program.ofTokens n tokens = relabelResult (.shifted id n) (Program.ofTokens 0 tokens) := by
  have h := Program.ofTokens_shifted (φ := id) 0 n tokens fun _ => rfl
  have hsame : tokens.map (Token.relabel (.shifted id n)) = tokens := List.map_id _
  rwa [Nat.zero_add, hsame] at h

theorem Diagnostic.map_relabel_shifted (k : Nat) (errors : List Diagnostic) :
    errors.map (Diagnostic.relabel (.shifted id k)) = errors := by
  have hsame : ∀ d : Diagnostic, d.relabel (.shifted id k) = d := fun d => by cases d <;> rfl
  rw [funext hsame, List.map_id']

end LoxLang
