import LoxLang.Proofs.Syntax.Ending

/-!
Parsing depends on nothing behind the end of the input, and on no depth that is enough.

Two states agree if they show the same tokens up to the first end of the input. From states that agree a
production takes the same course with every depth that is not used up: it answers the same and leaves
states that agree. The tokens it takes are from before the end of the input, whatever the depth.
-/

set_option autoImplicit false

namespace LoxLang

namespace Parsing

/-- The states differ at most in what stands behind the first end of the input. -/
structure State.Agrees (s s' : State) : Prop where
  seen : (∃ w e rest rest', (∀ t ∈ w, t.kind ≠ .endOfInput) ∧ e.kind = .endOfInput ∧
      s.rest = w ++ e :: rest ∧ s'.rest = w ++ e :: rest') ∨
    s.rest = [] ∧ s'.rest = [] ∧ s'.beyond = s.beyond ∧ s.beyond.kind = .endOfInput
  nextId : s'.nextId = s.nextId
  reported : s'.reported = s.reported

namespace State

variable {s s' : State}

theorem Agrees.current_eq (h : s.Agrees s') : s'.current = s.current := by
  rcases h.seen with ⟨w, e, rest, rest', -, -, hrest, hrest'⟩ | ⟨hrest, hrest', hbeyond, -⟩
  · cases w <;> simp [State.current, hrest, hrest']
  · simp [State.current, hrest, hrest', hbeyond]

theorem Agrees.closed (h : s.Agrees s') : s.Closed := by
  rcases h.seen with ⟨w, e, rest, rest', -, he, hrest, -⟩ | ⟨hrest, -, -, he⟩
  · exact .inl ⟨e, by simp [hrest], he⟩
  · exact .inr ⟨hrest, he⟩

theorem Closed.agrees (h : s.Closed) : s.Agrees s := by
  refine ⟨?_, rfl, rfl⟩
  rcases h with ⟨t, ht, hkind⟩ | ⟨hrest, hkind⟩
  · have hsome : (s.rest.find? fun t => t.kind = .endOfInput).isSome :=
      List.find?_isSome.mpr ⟨t, ht, decide_eq_true hkind⟩
    obtain ⟨e, hfind⟩ := Option.isSome_iff_exists.mp hsome
    obtain ⟨he, w, rest, hrest, hunder⟩ := List.find?_eq_some_iff_append.mp hfind
    exact .inl ⟨w, e, rest, rest, by simpa using hunder, by simpa using he, hrest, hrest⟩
  · exact .inr ⟨hrest, hrest, rfl, hkind⟩

theorem Agrees.tail (h : s.Agrees s') (hk : s.current.kind ≠ .endOfInput) :
    Agrees { s with rest := s.rest.tail } { s' with rest := s'.rest.tail } := by
  refine ⟨?_, h.nextId, h.reported⟩
  rcases h.seen with ⟨w, e, rest, rest', hunder, he, hrest, hrest'⟩ | ⟨hrest, -, -, he⟩
  · cases w with
    | nil => simp [State.current, hrest, he] at hk
    | cons t w =>
      exact .inl ⟨w, e, rest, rest', fun t ht => hunder t (List.mem_cons_of_mem _ ht), he,
        by simp [hrest], by simp [hrest']⟩
  · simp [State.current, hrest, he] at hk

end State

theorem boundaryAfter_append (skipped : Token) {e : Token} (he : e.kind = .endOfInput)
    (w : List Token) (hunder : ∀ t ∈ w, t.kind ≠ .endOfInput) :
    ∃ u, (∀ t ∈ u, t.kind ≠ .endOfInput) ∧
      ∀ rest, boundaryAfter skipped (w ++ e :: rest) = u ++ e :: rest := by
  induction w generalizing skipped with
  | nil => exact ⟨[], by simp, fun rest => by simp [boundaryAfter, he]⟩
  | cons t w ih =>
    obtain ⟨u, hu, hskip⟩ := ih t fun t ht => hunder t (List.mem_cons_of_mem _ ht)
    simp only [List.cons_append, boundaryAfter]
    split
    · exact ⟨t :: w, hunder, fun _ => rfl⟩
    · exact ⟨u, hu, hskip⟩

theorem State.Agrees.skip {s s' : State} (h : s.Agrees s') (d : Diagnostic) :
    Agrees { s with rest := skipToBoundary s.rest, reported := s.reported ++ [d] }
      { s' with rest := skipToBoundary s'.rest, reported := s'.reported ++ [d] } := by
  refine ⟨?_, h.nextId, congrArg (· ++ [d]) h.reported⟩
  rcases h.seen with ⟨w, e, rest, rest', hunder, he, hrest, hrest'⟩ | ⟨hrest, hrest', hbeyond, he⟩
  · refine .inl ?_
    cases w with
    | nil => exact ⟨[], e, rest, rest', by simp, he, by simp [hrest, skipToBoundary, he],
        by simp [hrest', skipToBoundary, he]⟩
    | cons t w =>
      obtain ⟨ht, hunder⟩ := List.forall_mem_cons.mp hunder
      obtain ⟨u, hu, hskip⟩ := boundaryAfter_append t he w hunder
      exact ⟨u, e, rest, rest', hu, he, by simp [hrest, skipToBoundary, ht, hskip],
        by simp [hrest', skipToBoundary, ht, hskip]⟩
  · exact .inr ⟨by simp [hrest, skipToBoundary], by simp [hrest', skipToBoundary], hbeyond, he⟩

/-- Unless its depth is used up, the first production takes tokens from before the end of the input only,
and from a state that agrees the second one does the same. -/
def Steady {α : Type} (p q : Parser α) : Prop :=
  ∀ s s' : State, s.Agrees s' →
    match p s with
    | .parsed v s₁ => s.Nears s₁ ∧ ∃ s₁', q s' = .parsed v s₁' ∧ s₁.Agrees s₁'
    | .failed token cause s₁ => s.Nears s₁ ∧ ∃ s₁', q s' = .failed token cause s₁' ∧ s₁.Agrees s₁'
    | .exhausted => True

namespace Steady

variable {α β : Type} {p q : Parser α} {f g : α → Parser β}

theorem ret {v : α} : Steady (pure v) (pure v) := fun s s' h => ⟨.refl s, s', rfl, h⟩

theorem outOfDepth : Steady outOfDepth q := fun _ _ _ => trivial

theorem bind (hp : Steady p q) (hf : ∀ v, Steady (f v) (g v)) : Steady (p >>= f) (q >>= g) := by
  intro s s' hs
  have hp := hp s s' hs
  change match andThen p f s with | .parsed _ _ => _ | .failed _ _ _ => _ | .exhausted => _
  rw [andThen]
  cases hv : p s with
  | exhausted => trivial
  | failed token cause s₁ =>
    rw [hv] at hp
    obtain ⟨hnears, s₁', hq, hs₁⟩ := hp
    exact ⟨hnears, s₁', by simp [Bind.bind, andThen, hq], hs₁⟩
  | parsed v s₁ =>
    rw [hv] at hp
    obtain ⟨hnears, s₁', hq, hs₁⟩ := hp
    have hrest : (q >>= g) s' = g v s₁' := by simp [Bind.bind, andThen, hq]
    have hf := hf v s₁ s₁' hs₁
    rw [hrest]
    dsimp only
    split at hf
    · exact ⟨hnears.trans hf.1, hf.2⟩
    · exact ⟨hnears.trans hf.1, hf.2⟩
    · trivial

theorem map {h : α → β} (hp : Steady p q) : Steady (h <$> p) (h <$> q) := bind hp fun _ => ret

theorem current : Steady current current := fun s s' h =>
  ⟨.refl s, s', by rw [Parsing.current, h.current_eq], h⟩

theorem check {kind : Kind} : Steady (check kind) (check kind) := fun s s' h =>
  ⟨.refl s, s', by rw [Parsing.check, h.current_eq], h⟩

theorem atEnd : Steady atEnd atEnd := check

theorem failHere {cause : SyntaxError} : Steady (failHere cause : Parser α) (failHere cause) :=
  fun s s' h => ⟨.refl s, s', by rw [Parsing.failHere, h.current_eq], h⟩

theorem advance : Steady advance advance := by
  intro s s' h
  unfold Parsing.advance
  rw [h.current_eq]
  split_ifs with hk
  · exact ⟨.refl s, s', rfl, h⟩
  · exact ⟨(h.closed.nears_tail hk).1, _, rfl, h.tail hk⟩

theorem accept {kind : Kind} (hkind : kind ≠ .endOfInput) : Steady (accept kind) (accept kind) := by
  intro s s' h
  unfold Parsing.accept
  rw [h.current_eq]
  split_ifs with hk
  · exact ⟨(h.closed.nears_tail (hk ▸ hkind)).1, _, rfl, h.tail (hk ▸ hkind)⟩
  · exact ⟨.refl s, s', rfl, h⟩

theorem expect {kind : Kind} {what : Expectation} (hkind : kind ≠ .endOfInput) :
    Steady (expect kind what) (expect kind what) := by
  intro s s' h
  unfold Parsing.expect
  rw [h.current_eq]
  split_ifs with hk
  · exact ⟨(h.closed.nears_tail (hk ▸ hkind)).1, _, rfl, h.tail (hk ▸ hkind)⟩
  · exact ⟨.refl s, s', rfl, h⟩

theorem note {t : Token} {cause : SyntaxError} : Steady (note t cause) (note t cause) := fun s s' h =>
  ⟨⟨⟨[], rfl, by simp⟩, rfl, [(t, cause)], rfl⟩, _, rfl, h.seen, h.nextId,
    congrArg (· ++ [Diagnostic.grammatical t cause]) h.reported⟩

theorem reference {name : Token} : Steady (reference name) (reference name) := by
  intro s s' h
  rw [Parsing.reference, ← h.nextId]
  exact ⟨⟨⟨[], rfl, by simp⟩, rfl, [], by simp⟩, _, rfl, h.seen, rfl, h.reported⟩

theorem choice {flag : Bool} {p q p' q' : Parser α} (hp : Steady p p') (hq : Steady q q') :
    Steady (if flag then p else q) (if flag then p' else q') := by
  cases flag
  · exact hq
  · exact hp

theorem noted {condition : Prop} [Decidable condition] {cause : SyntaxError} (hp : Steady p q) :
    Steady
      (do if condition then Parsing.note (← Parsing.current) cause
          p)
      (do if condition then Parsing.note (← Parsing.current) cause
          q) := by
  split
  · exact .bind .current fun _ => .bind .note fun _ => hp
  · exact hp

theorem recover (h : Steady p q) : Steady (recover p) (recover q) := by
  intro s s' hs
  have h := h s s' hs
  unfold Parsing.recover
  cases hp : p s with
  | exhausted => trivial
  | parsed v s₁ =>
    rw [hp] at h
    obtain ⟨hnears, s₁', hq, hs₁⟩ := h
    exact ⟨hnears, s₁', by rw [hq], hs₁⟩
  | failed token cause s₁ =>
    rw [hp] at h
    obtain ⟨hnears, s₁', hq, hs₁⟩ := h
    exact ⟨hnears.trans (s₁.nears_skip token cause).1, _, by rw [hq], hs₁.skip _⟩

end Steady

theorem Steady.unless {α β : Type} {p q : Parser α} {f g : α → Parser β} {kind : Kind} {v : α}
    (hp : Steady p q) (hf : ∀ v, Steady (f v) (g v)) :
    Steady (do if ← Parsing.check kind then f (← pure v) else f (← p))
      (do if ← Parsing.check kind then g (← pure v) else g (← q)) :=
  .bind .check fun _ => .choice (.bind .ret hf) (.bind hp hf)

structure ExpressionsSteady (d d' : Nat) : Prop where
  expression : Steady (expression d) (expression d')
  conditional : Steady (conditional d) (conditional d')
  level : ∀ ls, Steady (level d ls) (level d' ls)
  levelRest : ∀ l ls left, Steady (levelRest d l ls left) (levelRest d' l ls left)
  unary : Steady (unary d) (unary d')
  callRest : ∀ callee, Steady (callRest d callee) (callRest d' callee)
  arguments : ∀ count, Steady (arguments d count) (arguments d' count)
  primary : Steady (primary d) (primary d')

variable {d d' : Nat}

theorem steady_expression (ih : ExpressionsSteady d d') :
    Steady (expression (d + 1)) (expression (d' + 1)) := by
  rw [expression, expression]
  refine .bind ih.conditional fun target => .bind (.accept (by simp)) fun equals => ?_
  cases equals with
  | none => exact .ret
  | some equals =>
    refine .bind ih.expression fun value => ?_
    have hother : Steady (do note equals .invalidAssignmentTarget; return target)
        (do note equals .invalidAssignmentTarget; return target) := .bind .note fun _ => .ret
    cases target with
    | «variable» target => exact .bind .reference fun _ => .ret
    | get object name => exact .ret
    | conditional c t e => cases t <;> exact hother
    | _ => exact hother

theorem steady_conditional (ih : ExpressionsSteady d d') :
    Steady (conditional (d + 1)) (conditional (d' + 1)) := by
  rw [conditional, conditional]
  refine .bind (ih.level levels) fun condition => .bind (.accept (by simp)) fun question => ?_
  cases question with
  | none => exact .ret
  | some question =>
    refine .bind (.accept (by simp)) fun colon => ?_
    cases colon with
    | some colon => exact .bind ih.conditional fun _ => .ret
    | none =>
      refine .bind ih.conditional fun _ => .bind (.expect (by simp)) fun _ => ?_
      exact .bind ih.conditional fun _ => .ret

theorem steady_level (ih : ExpressionsSteady d d') (ls : List Level) :
    Steady (level (d + 1) ls) (level (d' + 1) ls) := by
  cases ls with
  | nil =>
    rw [level, level]
    exact ih.unary
  | cons l tighter =>
    rw [level, level]
    exact .bind (ih.level tighter) fun left => ih.levelRest l tighter left

theorem steady_levelRest (ih : ExpressionsSteady d d') (l : Level) (ls : List Level) (left : Expr) :
    Steady (levelRest (d + 1) l ls left) (levelRest (d' + 1) l ls left) := by
  rw [levelRest, levelRest]
  refine .bind .current fun t => .choice (.bind .advance fun operator => ?_) .ret
  exact .bind (ih.level ls) fun right => ih.levelRest l ls _

theorem steady_unary (ih : ExpressionsSteady d d') : Steady (unary (d + 1)) (unary (d' + 1)) := by
  rw [unary, unary]
  refine .bind .current fun t => .choice (.bind .advance fun operator => ?_) ?_
  · exact .bind ih.unary fun _ => .ret
  · exact .bind ih.primary fun callee => ih.callRest callee

theorem steady_callRest (ih : ExpressionsSteady d d') (callee : Expr) :
    Steady (callRest (d + 1) callee) (callRest (d' + 1) callee) := by
  rw [callRest, callRest]
  refine .bind (.accept (by simp)) fun left => ?_
  cases left with
  | some left =>
    exact .unless (ih.arguments 0) fun es => .bind (.expect (by simp)) fun paren => ih.callRest _
  | none =>
    refine .bind (.accept (by simp)) fun dot => ?_
    cases dot with
    | some dot => exact .bind (.expect (by simp)) fun name => ih.callRest _
    | none => exact .ret

theorem steady_arguments (ih : ExpressionsSteady d d') (count : Nat) :
    Steady (arguments (d + 1) count) (arguments (d' + 1) count) := by
  rw [arguments, arguments]
  refine .noted (.bind ih.expression fun first => .bind (.accept (by simp)) fun comma => ?_)
  cases comma with
  | some comma => exact .bind (ih.arguments (count + 1)) fun _ => .ret
  | none => exact .ret

theorem steady_primary (ih : ExpressionsSteady d d') : Steady (primary (d + 1)) (primary (d' + 1)) := by
  rw [primary, primary]
  refine .bind .current fun t => ?_
  cases t.kind with
  | number value => exact .bind .advance fun _ => .ret
  | string contents => exact .bind .advance fun _ => .ret
  | identifier => exact .bind .advance fun _ => .bind .reference fun _ => .ret
  | endOfInput => exact .failHere
  | keyword word =>
    cases word with
    | falseWord | trueWord | nilWord => exact .bind .advance fun _ => .ret
    | thisWord => exact .bind .advance fun _ => .bind .reference fun _ => .ret
    | superWord =>
      refine .bind .advance fun keyword => .bind (.expect (by simp)) fun _ => ?_
      exact .bind (.expect (by simp)) fun method => .bind .reference fun _ => .ret
    | _ => exact .failHere
  | mark m =>
    cases m with
    | leftParen =>
      refine .bind .advance fun _ => .bind ih.expression fun inner => ?_
      exact .bind (.expect (by simp)) fun _ => .ret
    | _ => exact .failHere

theorem expressionsSteady (h : d ≤ d') : ExpressionsSteady d d' := by
  induction d generalizing d' with
  | zero =>
    exact ⟨.outOfDepth, .outOfDepth, fun _ => .outOfDepth, fun _ _ _ => .outOfDepth, .outOfDepth,
      fun _ => .outOfDepth, fun _ => .outOfDepth, .outOfDepth⟩
  | succ d ih =>
    obtain ⟨d', rfl⟩ : ∃ c, d' = c + 1 := ⟨d' - 1, by omega⟩
    have ih := ih (Nat.le_of_succ_le_succ h)
    exact ⟨steady_expression ih, steady_conditional ih, steady_level ih, steady_levelRest ih,
      steady_unary ih, steady_callRest ih, steady_arguments ih, steady_primary ih⟩

theorem steady_parameters (h : d ≤ d') (count : Nat) :
    Steady (parameters d count) (parameters d' count) := by
  induction d generalizing d' count with
  | zero => exact .outOfDepth
  | succ d ih =>
    obtain ⟨d', rfl⟩ : ∃ c, d' = c + 1 := ⟨d' - 1, by omega⟩
    rw [parameters, parameters]
    refine .noted (.bind (.expect (by simp)) fun first => .bind (.accept (by simp)) fun comma => ?_)
    cases comma with
    | some comma => exact .bind (ih (Nat.le_of_succ_le_succ h) (count + 1)) fun _ => .ret
    | none => exact .ret

theorem steady_variableDeclaration (h : d ≤ d') :
    Steady (variableDeclaration d) (variableDeclaration d') := by
  rw [variableDeclaration, variableDeclaration]
  refine .bind (.expect (by simp)) fun name => .bind (.accept (by simp)) fun equal => ?_
  have hend : ∀ e : Option Expr, Steady
      (do let _ ← expect (.mark .semicolon) .variableEnd; return Stmt.declareVar name e)
      (do let _ ← expect (.mark .semicolon) .variableEnd; return Stmt.declareVar name e) :=
    fun _ => .bind (.expect (by simp)) fun _ => .ret
  cases equal with
  | some equal => exact .bind (expressionsSteady h).expression fun e => .bind .ret hend
  | none => exact .bind .ret hend

theorem steady_expressionStatement (h : d ≤ d') :
    Steady (expressionStatement d) (expressionStatement d') :=
  .bind (expressionsSteady h).expression fun _ => .bind (.expect (by simp)) fun _ => .ret

theorem steady_printStatement (h : d ≤ d') : Steady (printStatement d) (printStatement d') :=
  .bind (expressionsSteady h).expression fun _ => .bind (.expect (by simp)) fun _ => .ret

theorem steady_returnStatement (h : d ≤ d') (keyword : Token) :
    Steady (returnStatement d keyword) (returnStatement d' keyword) :=
  .unless (.map (expressionsSteady h).expression) fun _ => .bind (.expect (by simp)) fun _ => .ret

theorem steady_forInitializer (h : d ≤ d') : Steady (forInitializer d) (forInitializer d') := by
  rw [forInitializer, forInitializer]
  refine .bind (.accept (by simp)) fun semicolon => ?_
  cases semicolon with
  | some semicolon => exact .ret
  | none =>
    refine .bind (.accept (by simp)) fun word => ?_
    cases word with
    | some word => exact .bind (steady_variableDeclaration h) fun _ => .ret
    | none => exact .bind (steady_expressionStatement h) fun _ => .ret

structure StatementsSteady (d d' : Nat) : Prop where
  declaration : Steady (declaration d) (declaration d')
  classDeclaration : Steady (classDeclaration d) (classDeclaration d')
  methods : Steady (methods d) (methods d')
  function : ∀ kind, Steady (function d kind) (function d' kind)
  block : Steady (block d) (block d')
  declarations : Steady (declarations d) (declarations d')
  statement : Steady (statement d) (statement d')

theorem declaration_recovers : ∃ p : Nat → Parser Stmt, (∀ d, declaration (d + 1) = recover (p d)) ∧
    ∀ {d d'}, d ≤ d' → StatementsSteady d d' → Steady (p d) (p d') := by
  refine ⟨_, fun d => by rw [declaration], fun {d d'} h ih => .bind .current fun t => ?_⟩
  cases t.kind with
  | keyword word =>
    cases word with
    | classWord => exact .bind .advance fun _ => ih.classDeclaration
    | funWord => exact .bind .advance fun _ => .bind (ih.function .function) fun _ => .ret
    | varWord => exact .bind .advance fun _ => steady_variableDeclaration h
    | _ => exact ih.statement
  | _ => exact ih.statement

theorem steady_declaration (h : d ≤ d') (ih : StatementsSteady d d') :
    Steady (declaration (d + 1)) (declaration (d' + 1)) := by
  obtain ⟨p, hp, hsteady⟩ := declaration_recovers
  rw [hp, hp]
  exact .recover (hsteady h ih)

theorem steady_classDeclaration (ih : StatementsSteady d d') :
    Steady (classDeclaration (d + 1)) (classDeclaration (d' + 1)) := by
  rw [classDeclaration, classDeclaration]
  refine .bind (.expect (by simp)) fun name => .bind (.accept (by simp)) fun less => ?_
  have hbody : ∀ base : Option Reference, Steady
      (do
        let _ ← expect (.mark .leftBrace) .classBody
        let methods ← methods d
        let _ ← expect (.mark .rightBrace) .classEnd
        return Stmt.declareClass name base methods)
      (do
        let _ ← expect (.mark .leftBrace) .classBody
        let methods ← methods d'
        let _ ← expect (.mark .rightBrace) .classEnd
        return Stmt.declareClass name base methods) := fun base =>
    .bind (.expect (by simp)) fun _ => .bind ih.methods fun _ => .bind (.expect (by simp)) fun _ => .ret
  cases less with
  | some less =>
    refine .bind (.expect (by simp)) fun base => .bind .reference fun _ => ?_
    exact .bind .ret hbody
  | none => exact .bind .ret hbody

theorem Steady.untilBrace {α : Type} {p q : Parser (List α)} (h : Steady p q) :
    Steady (do if (← Parsing.check (.mark .rightBrace)) || (← Parsing.atEnd) then return [] else p)
      (do if (← Parsing.check (.mark .rightBrace)) || (← Parsing.atEnd) then return [] else q) :=
  .bind .check fun _ => .bind .atEnd fun _ => .choice .ret h

theorem steady_methods (ih : StatementsSteady d d') : Steady (methods (d + 1)) (methods (d' + 1)) := by
  rw [methods, methods]
  exact .untilBrace (.bind (ih.function .method) fun _ => .bind ih.methods fun _ => .ret)

theorem steady_function (h : d ≤ d') (ih : StatementsSteady d d') (kind : FunctionKind) :
    Steady (function (d + 1) kind) (function (d' + 1) kind) := by
  rw [function, function]
  refine .bind (.expect (by simp)) fun name => .bind (.expect (by simp)) fun _ => ?_
  refine .unless (steady_parameters h 0) fun names => .bind (.expect (by simp)) fun _ => ?_
  exact .bind (.expect (by simp)) fun _ => .bind ih.block fun _ => .ret

theorem steady_block (ih : StatementsSteady d d') : Steady (block (d + 1)) (block (d' + 1)) := by
  rw [block, block]
  exact .bind ih.declarations fun _ => .bind (.expect (by simp)) fun _ => .ret

theorem steady_declarations (ih : StatementsSteady d d') :
    Steady (declarations (d + 1)) (declarations (d' + 1)) := by
  rw [declarations, declarations]
  exact .untilBrace (.bind ih.declaration fun _ => .bind ih.declarations fun _ => .ret)

theorem steady_statement (h : d ≤ d') (ih : StatementsSteady d d') :
    Steady (statement (d + 1)) (statement (d' + 1)) := by
  have hexpression := (expressionsSteady h).expression
  have hplain := steady_expressionStatement h
  rw [statement, statement]
  refine .bind .current fun t => ?_
  cases t.kind with
  | keyword word =>
    cases word with
    | forWord =>
      refine .bind .advance fun _ => .bind (.expect (by simp)) fun _ => ?_
      refine .bind (steady_forInitializer h) fun initializer => .unless hexpression fun condition => ?_
      refine .bind (.expect (by simp)) fun _ => .unless (.map hexpression) fun increment => ?_
      exact .bind (.expect (by simp)) fun _ => .bind ih.statement fun _ => .ret
    | ifWord =>
      refine .bind .advance fun _ => .bind (.expect (by simp)) fun _ => ?_
      refine .bind hexpression fun condition => .bind (.expect (by simp)) fun _ => ?_
      refine .bind ih.statement fun branch => .bind (.accept (by simp)) fun other => ?_
      cases other with
      | some other => exact .bind ih.statement fun _ => .ret
      | none => exact .ret
    | whileWord =>
      refine .bind .advance fun _ => .bind (.expect (by simp)) fun _ => ?_
      refine .bind hexpression fun condition => .bind (.expect (by simp)) fun _ => ?_
      exact .bind ih.statement fun _ => .ret
    | returnWord => exact .bind .advance fun keyword => steady_returnStatement h keyword
    | breakWord | continueWord =>
      exact .bind .advance fun _ => .bind (.expect (by simp)) fun _ => .ret
    | printWord => exact .bind .advance fun _ => steady_printStatement h
    | _ => exact hplain
  | mark m =>
    cases m with
    | leftBrace => exact .bind .advance fun _ => .bind ih.block fun _ => .ret
    | _ => exact hplain
  | _ => exact hplain

theorem statementsSteady (h : d ≤ d') : StatementsSteady d d' := by
  induction d generalizing d' with
  | zero =>
    exact ⟨.outOfDepth, .outOfDepth, .outOfDepth, fun _ => .outOfDepth, .outOfDepth, .outOfDepth,
      .outOfDepth⟩
  | succ d ih =>
    obtain ⟨d', rfl⟩ : ∃ c, d' = c + 1 := ⟨d' - 1, by omega⟩
    have hle := Nat.le_of_succ_le_succ h
    have ih := ih hle
    exact ⟨steady_declaration hle ih, steady_classDeclaration ih, steady_methods ih,
      steady_function hle ih, steady_block ih, steady_declarations ih, steady_statement hle ih⟩

theorem steady_program (h : d ≤ d') : Steady (program d) (program d') := by
  induction d generalizing d' with
  | zero => exact .outOfDepth
  | succ d ih =>
    obtain ⟨d', rfl⟩ : ∃ c, d' = c + 1 := ⟨d' - 1, by omega⟩
    have hle := Nat.le_of_succ_le_succ h
    rw [program, program]
    refine .bind .atEnd fun _ => .choice .ret ?_
    exact .bind (statementsSteady hle).declaration fun _ => .bind (ih hle) fun _ => .ret

theorem steady_wholeExpression (h : d ≤ d') : Steady (wholeExpression d) (wholeExpression d') :=
  .bind (expressionsSteady h).expression fun _ => .bind .atEnd fun _ => .choice .ret .failHere

def Reply.left {α : Type} : Reply α → Option State
  | .parsed _ s => some s
  | .failed _ _ s => some s
  | .exhausted => none

variable {s s' : State}

theorem State.Agrees.ahead_eq (h : s.Agrees s') : s'.ahead = s.ahead := by
  unfold State.ahead
  rcases h.seen with ⟨w, e, rest, rest', hunder, he, hrest, hrest'⟩ | ⟨hrest, hrest', -⟩
  · rw [hrest, hrest', List.takeWhile_append_of_pos (by simpa using hunder),
      List.takeWhile_append_of_pos (by simpa using hunder)]
    simp [he]
  · rw [hrest, hrest']

theorem State.Agrees.eq_of_nears {s₁ s₁' : State} (h : s₁.Agrees s₁') (hs₁ : s.Nears s₁)
    (hs₁' : s.Nears s₁') : s₁' = s₁ := by
  have hahead := h.ahead_eq
  obtain ⟨⟨w, hw, hunder⟩, hbeyond, -⟩ := hs₁
  obtain ⟨⟨w', hw', hunder'⟩, hbeyond', -⟩ := hs₁'
  have hlength : ∀ {u : List Token} {t : State}, s.rest = u ++ t.rest →
      (∀ a ∈ u, a.kind ≠ .endOfInput) → s.ahead = u.length + t.ahead := by
    intro u t hu hfree
    unfold State.ahead
    rw [hu, List.takeWhile_append_of_pos (by simpa using hfree), List.length_append]
  have hsame : w'.length = w.length := by
    have hone := hlength hw hunder
    have htwo := hlength hw' hunder'
    omega
  have hrest := (List.append_inj (hw'.symm.trans hw) hsame).2
  obtain ⟨rest, beyond, nextId, reported⟩ := s₁
  obtain ⟨rest', beyond', nextId', reported'⟩ := s₁'
  obtain rfl : rest' = rest := hrest
  obtain rfl : nextId' = nextId := h.nextId
  obtain rfl : reported' = reported := h.reported
  obtain rfl : beyond' = beyond := hbeyond'.trans hbeyond.symm
  rfl

theorem Ends.not_exhausted {α : Type} {p : Parser α} {b : Nat} (h : Ends p s b) (hs : s.Closed) :
    p s ≠ .exhausted := by
  intro hp
  have h := h hs
  rwa [hp] at h

namespace Steady

variable {α : Type} {p q : Parser α}

theorem nears (h : Steady p p) (hs : s.Closed) (hleft : (p s).left = some s') : s.Nears s' := by
  have h := h s s hs.agrees
  cases hp : p s with
  | parsed v s₁ =>
    rw [hp] at h hleft
    cases hleft
    exact h.1
  | failed token cause s₁ =>
    rw [hp] at h hleft
    cases hleft
    exact h.1
  | exhausted =>
    rw [hp] at hleft
    cases hleft

theorem same (h : Steady p q) (hq : Steady q q) (hs : s.Closed) (hp : p s ≠ .exhausted) :
    q s = p s := by
  have h := h s s hs.agrees
  cases hreply : p s with
  | parsed v s₁ =>
    rw [hreply] at h
    obtain ⟨hnears, s₁', hq', hagrees⟩ := h
    rw [hq', hagrees.eq_of_nears hnears (hq.nears hs (by rw [hq']; rfl))]
  | failed token cause s₁ =>
    rw [hreply] at h
    obtain ⟨hnears, s₁', hq', hagrees⟩ := h
    rw [hq', hagrees.eq_of_nears hnears (hq.nears hs (by rw [hq']; rfl))]
  | exhausted => exact absurd hreply hp

theorem outcome (h : Steady p q) (hs : s.Agrees s') (hp : p s ≠ .exhausted) (n : ReferenceId) :
    outcome n (q s') = outcome n (p s) := by
  have h := h s s' hs
  cases hreply : p s with
  | parsed v s₁ =>
    rw [hreply] at h
    obtain ⟨-, s₁', hq, hagrees⟩ := h
    rw [hq, Parsing.outcome, Parsing.outcome, hagrees.reported, hagrees.nextId]
  | failed token cause s₁ =>
    rw [hreply] at h
    obtain ⟨-, s₁', hq, hagrees⟩ := h
    rw [hq, Parsing.outcome, Parsing.outcome, hagrees.reported, hagrees.nextId]
  | exhausted => exact absurd hreply hp

end Steady

/-- The depth for the tokens is one that no entry uses up. -/
theorem depthFor_suffices (n : ReferenceId) (tokens : List Token) :
    16 * (State.start n tokens).ahead + 14 ≤ depthFor tokens := by
  have hahead := State.start_ahead n tokens
  unfold depthFor
  omega

end Parsing

end LoxLang
