import LoxLang.Proofs.Evaluation.Preservation
import LoxLang.Proofs.Store.Renaming

/-!
Running a tree with other lines and other identities.

If every reference finds under its new identity the hop count that it finds under its old one, the run is
the same: step by step the two machines differ in the code of the functions and in the table of hop counts
only, and what fails fails for the same cause, on the new line.
-/

set_option autoImplicit false

namespace LoxLang

mutual
def Stmt.printed : Stmt → List Expr
  | .print e => [e]
  | .block body => Stmt.allPrinted body
  | .branch _ t (some e) => t.printed ++ e.printed
  | .branch _ t none => t.printed
  | .loop (some i) _ n b => i.printed ++ (Stmt.optionPrinted n ++ b.printed)
  | .loop none _ n b => Stmt.optionPrinted n ++ b.printed
  | .declareFunction d => d.printed
  | .declareClass _ _ ds => Declaration.allPrinted ds
  | .expression _ | .declareVar _ _ | .returnWith _ _ | .breakLoop _ | .continueLoop _ => []

def Stmt.optionPrinted : Option Stmt → List Expr
  | none => []
  | some s => s.printed

def Stmt.allPrinted : List Stmt → List Expr
  | [] => []
  | s :: rest => s.printed ++ Stmt.allPrinted rest

def Declaration.printed : Declaration → List Expr
  | .mk _ _ body => Stmt.allPrinted body

def Declaration.allPrinted : List Declaration → List Expr
  | [] => []
  | d :: rest => d.printed ++ Declaration.allPrinted rest
end

/-- A relabeling with the hop counts under the new identities, and the references that are there. -/
structure Recast where
  relabeling : Relabeling
  hops : HopTable
  references : List ReferenceId

namespace Recast

variable (T : Recast)

/-- The references find the same under their new identities. -/
def Carries (table : HopTable) : Prop :=
  ∀ i ∈ T.references, T.hops[T.relabeling.identity i]? = table[i]?

/-- The relabeling takes the lines that printing these expressions blames to the lines that printing the
relabeled ones does. The line of a literal is 0 in both. -/
def Places (es : List Expr) : Prop := ∀ e ∈ es, (e.relabel T.relabeling).line = T.relabeling.line e.line

structure Covers (d : Declaration) (initializes : Bool) : Prop where
  references : ∀ i ∈ identities d.references, i ∈ T.references
  printed : T.Places d.printed

variable {T}

theorem Places.left {es more : List Expr} (h : T.Places (es ++ more)) : T.Places es :=
  fun e he => h e (List.mem_append_left _ he)

theorem Places.right {es more : List Expr} (h : T.Places (es ++ more)) : T.Places more :=
  fun e he => h e (List.mem_append_right _ he)

theorem places_of_zero {es : List Expr} (hzero : ∀ e ∈ es, e.line = 0 → T.relabeling.line 0 = 0) :
    T.Places es :=
  fun e he => e.line_relabel T.relabeling (hzero e he)

end Recast

def Machine.recast (T : Recast) (m : Machine) : Machine :=
  { m with store := m.store.relabel T.relabeling, hops := T.hops }

def Fault.relabel (ρ : Relabeling) : Fault → Fault
  | .runtime line cause => .runtime (ρ.line line) cause
  | .io cause => .io cause

def Outcome.recast {α : Type} (T : Recast) : Outcome α → Outcome α
  | .answer value m => .answer value (m.recast T)
  | .fault f m => .fault (f.relabel T.relabeling) (m.recast T)
  | .exhausted => .exhausted

section

variable {T : Recast} {m : Machine}

@[simp] theorem Machine.store_recast : (m.recast T).store = m.store.relabel T.relabeling := rfl
@[simp] theorem Machine.hops_recast : (m.recast T).hops = T.hops := rfl
@[simp] theorem Machine.cursor_recast : (m.recast T).cursor = m.cursor := rfl

namespace Eval

/-- The second computation does on the recast machine what the first one does on the machine. -/
structure Follows (T : Recast) {α : Type} (act act' : Eval α) (m : Machine) : Prop where
  keeps : act.Keeps T.Covers m
  same : m.store.Stored T.Covers → T.Carries m.hops → act' (m.recast T) = (act m).recast T

namespace Follows

variable {α β : Type}

theorem ret (v : α) : Follows T (pure v) (pure v) m := ⟨.ret, fun _ _ => rfl⟩

theorem outOfFuel : Follows T (outOfFuel : Eval α) outOfFuel m := ⟨.outOfFuel, fun _ _ => rfl⟩

theorem fail {line : Nat} {cause : RuntimeError} :
    Follows T (fail line cause : Eval α) (fail (T.relabeling.line line) cause) m :=
  ⟨.fail, fun _ _ => rfl⟩

theorem ofExcept {line : Nat} {x : Except RuntimeError α} :
    Follows T (ofExcept line x) (ofExcept (T.relabeling.line line) x) m := by
  cases x with
  | ok v => exact ret v
  | error cause => exact fail

theorem assuming {act act' : Eval α} (h : m.store.Stored T.Covers → Follows T act act' m) :
    Follows T act act' m :=
  ⟨.assuming fun hs => (h hs).keeps, fun hs hc => (h hs).same hs hc⟩

theorem carrying {act act' : Eval α} (hkeeps : act.Keeps T.Covers m)
    (h : T.Carries m.hops → Follows T act act' m) : Follows T act act' m :=
  ⟨hkeeps, fun hs hc => (h hc).same hs hc⟩

theorem bind {act act' : Eval α} {next next' : α → Eval β} (h : Follows T act act' m)
    (hnext : ∀ v m', act m = .answer v m' → Follows T (next v) (next' v) m') :
    Follows T (act >>= next) (act' >>= next') m := by
  refine ⟨h.keeps.bind fun v m' hv _ => (hnext v m' hv).keeps, fun hs hc => ?_⟩
  have hsame := h.same hs hc
  cases hv : act m with
  | answer v m' =>
    rw [hv] at hsame
    have hm := (h.keeps hs).answer hv
    have hrest := (hnext v m' hv).same hm.stored (hm.hops ▸ hc)
    rw [bind_of_answer hv, bind_of_answer hsame, hrest]
  | fault fault m' =>
    rw [hv] at hsame
    simp only [Bind.bind, andThen, hv, hsame, Outcome.recast]
  | exhausted =>
    rw [hv] at hsame
    simp only [Bind.bind, andThen, hv, hsame, Outcome.recast]

theorem view {f : Machine → α} (h : f (m.recast T) = f m) : Follows T (view f) (view f) m :=
  ⟨.viewThen .ret, fun _ _ => congrArg (Outcome.answer · (m.recast T)) h⟩

theorem viewThen {f : Machine → α} {next next' : α → Eval β}
    (h : Follows T (next (f m)) (next' (f (m.recast T))) m) :
    Follows T (Eval.view f >>= next) (Eval.view f >>= next') m :=
  ⟨.viewThen h.keeps, h.same⟩

theorem update {f f' : Store → α × Store} (hgrows : m.store.Grows (f m.store).2)
    (hstored : m.store.Stored T.Covers → (f m.store).2.Stored T.Covers)
    (h : f' (m.store.relabel T.relabeling) = ((f m.store).1, (f m.store).2.relabel T.relabeling)) :
    Follows T (update f) (update f') m := by
  refine ⟨.update hgrows hstored, fun _ _ => ?_⟩
  unfold Eval.update
  rw [Machine.store_recast, h]
  rfl

theorem within {act act' : Eval α} {frame : FrameId}
    (h : Follows T act act' { m with cursor := frame }) :
    Follows T (within frame act) (within frame act') m := by
  refine ⟨.within h.keeps, fun hs hc => ?_⟩
  have hsame := h.same hs hc
  change act' { m.recast T with cursor := frame } = _ at hsame
  unfold Eval.within
  simp only [hsame]
  cases act { m with cursor := frame } <;> rfl

theorem deeper {act act' : Eval α} {line : Nat}
    (h : Follows T act act' { m with calls := m.calls + 1 }) :
    Follows T (deeper line act) (deeper (T.relabeling.line line) act') m := by
  refine ⟨.deeper fun _ => h.keeps, fun hs hc => ?_⟩
  have hsame := h.same hs hc
  change act' { m.recast T with calls := m.calls + 1 } = _ at hsame
  unfold Eval.deeper
  have hcalls : (m.recast T).calls = m.calls := rfl
  simp only [hcalls, hsame]
  split
  · rfl
  · cases act { m with calls := m.calls + 1 } <;> rfl

theorem emit (line : String) : Follows T (emit line) (emit line) m := by
  refine ⟨.emit, fun _ _ => ?_⟩
  unfold Eval.emit
  have hsink : (m.recast T).sink = m.sink := rfl
  rw [hsink]
  cases m.sink.accept line <;> rfl

theorem readClock : Follows T readClock readClock m := ⟨.readClock, fun _ _ => rfl⟩

theorem takeLine : Follows T takeLine takeLine m := ⟨.takeLine, fun _ _ => rfl⟩

end Follows

theorem follows_requireArity (line arity given : Nat) :
    Follows T (requireArity line arity given) (requireArity (T.relabeling.line line) arity given) m := by
  unfold requireArity
  split
  · exact .ret ()
  · exact .fail

theorem follows_lookUp {target : Reference} (hid : target.id ∈ T.references) :
    Follows T (lookUp target) (lookUp (target.relabel T.relabeling)) m := by
  refine ⟨.of_quiet (quiet_lookUp target), fun _ hc => ?_⟩
  have hfound : (m.recast T).hops[(target.relabel T.relabeling).id]? = m.hops[target.id]? := hc _ hid
  unfold lookUp
  rw [hfound]
  simp only [Machine.store_recast, Machine.cursor_recast, Reference.name_relabel, Token.lexeme_relabel,
    Token.line_relabel]
  cases m.hops[target.id]? with
  | some distance =>
    dsimp only
    rw [Store.lookupAt_relabel]
    cases m.store.lookupAt m.cursor distance target.name.lexeme <;> rfl
  | none =>
    dsimp only
    rw [Store.lookup_relabel]
    cases m.store.lookup Store.globals target.name.lexeme <;> rfl

theorem follows_bindIn (frame : FrameId) (name : String) (value : Value) :
    Follows T (bindIn frame name value) (bindIn frame name value) m :=
  .update (m.store.grows_bind frame name value) (fun h => h.of_functions rfl) rfl

theorem follows_define (name : String) (value : Value) :
    Follows T (define name value) (define name value) m := by
  unfold define
  exact .viewThen (follows_bindIn m.cursor name value)

theorem follows_assign {target : Reference} (hid : target.id ∈ T.references) (value : Value) :
    Follows T (assign target value) (assign (target.relabel T.relabeling) value) m := by
  refine .carrying (keeps_assign target value) fun hc => ?_
  have hfound : (m.recast T).hops[(target.relabel T.relabeling).id]? = m.hops[target.id]? := hc _ hid
  unfold assign
  refine .viewThen (.viewThen ?_)
  rw [hfound]
  cases m.hops[target.id]? with
  | some distance =>
    refine .viewThen ?_
    simp only [Machine.store_recast, Store.holderAt_relabel]
    exact .bind .ofExcept fun frame m' _ => follows_bindIn frame _ value
  | none =>
    refine .viewThen ?_
    simp only [Machine.store_recast, Store.holder_relabel]
    exact .bind .ofExcept fun frame m' _ => follows_bindIn frame _ value

theorem follows_newFrame (enclosing : FrameId) : Follows T (newFrame enclosing) (newFrame enclosing) m :=
  .update (m.store.grows_addFrame _) (fun h => h.of_functions rfl) rfl

theorem follows_innerFrame : Follows T innerFrame innerFrame m := by
  unfold innerFrame
  exact .viewThen (follows_newFrame m.cursor)

theorem follows_bindMethod (method : FunctionId) (object : ObjectId) :
    Follows T (bindMethod method object) (bindMethod method object) m :=
  .update (m.store.grows_bindMethod method object) (fun h => h.bindMethod method object)
    (m.store.bindMethod_relabel method object)

theorem follows_runNative (line : Nat) (function : Native) (arguments : List Value) :
    Follows T (runNative line function arguments)
      (runNative (T.relabeling.line line) function arguments) m := by
  unfold runNative
  split
  · exact .bind .readClock fun _ _ _ => .ret _
  · refine .bind .takeLine fun v _ _ => ?_
    split
    · exact .ret _
    · exact .ret _
    · exact .fail
  · exact .ofExcept
  · exact .fail

theorem follows_runArrayMethod (line : Nat) (f : Function) (method : ArrayMethod)
    (arguments : List Value) :
    Follows T (runArrayMethod line f method arguments)
      (runArrayMethod (T.relabeling.line line) (f.relabel T.relabeling) method arguments) m := by
  unfold runArrayMethod
  refine .viewThen ?_
  simp only [Machine.store_recast, Function.closure_relabel, Store.receiver?_relabel,
    Function.initializes_relabel]
  cases m.store.receiver? f.closure with
  | none => exact .fail
  | some this =>
    refine .viewThen (.bind .ofExcept fun _ m' _ => .bind ?_ fun _ _ _ => .ret _)
    exact .update (m'.store.grows_modifyObject _ fun _ => rfl) (fun h => h.of_functions rfl) rfl

theorem follows_parameterFrame (closure : FrameId) (parameters : List Token) (arguments : List Value) :
    Follows T (parameterFrame closure parameters arguments)
      (parameterFrame closure (parameters.map (Token.relabel T.relabeling)) arguments) m := by
  unfold parameterFrame
  refine .bind (follows_newFrame closure) fun frame m' _ => .bind ?_ fun _ _ _ => .ret frame
  exact .update (m'.store.grows_bindAll frame _) (fun h => h.bindAll frame _)
    (congrArg (Prod.mk ()) (m'.store.bindAll_relabel frame parameters arguments))

theorem follows_answerOf (line : Nat) (f : Function) (ending : Ending) :
    Follows T (answerOf line f ending)
      (answerOf (T.relabeling.line line) (f.relabel T.relabeling) ending) m := by
  refine ⟨.of_quiet (quiet_answerOf line f ending), fun _ _ => ?_⟩
  unfold answerOf
  simp only [Function.initializes_relabel, Function.closure_relabel, Machine.store_recast,
    Store.lookupAt_relabel]
  split
  · cases m.store.lookupAt f.closure 0 "this" <;> rfl
  · cases ending <;> rfl

theorem follows_property (object : Value) (name : Token) :
    Follows T (property object name) (property object (name.relabel T.relabeling)) m := by
  unfold property
  split
  · refine .viewThen ?_
    simp only [Machine.store_recast, Store.property_relabel]
    refine .bind .ofExcept fun p _ _ => ?_
    cases p with
    | field value => exact .ret value
    | method method => exact .bind (follows_bindMethod _ _) fun _ _ _ => .ret _
  · exact .fail

theorem follows_superMethod {keyword : Reference} (hid : keyword.id ∈ T.references) (method : Token) :
    Follows T (superMethod keyword method)
      (superMethod (keyword.relabel T.relabeling) (method.relabel T.relabeling)) m := by
  refine .carrying (keeps_superMethod keyword method) fun hc => ?_
  have hfound : (m.recast T).hops[(keyword.relabel T.relabeling).id]? = m.hops[keyword.id]? := hc _ hid
  unfold superMethod
  refine .viewThen ?_
  rw [hfound]
  cases m.hops[keyword.id]? with
  | none => exact .fail
  | some distance =>
    refine .viewThen (.viewThen ?_)
    simp only [Machine.store_recast, Store.lookupAt_relabel, Store.method?_relabel]
    refine .bind .ofExcept fun v m' _ => ?_
    cases v with
    | classValue superclass =>
      refine .bind .ofExcept fun v m' _ => ?_
      cases v with
      | object this =>
        cases hmethod : m.store.method? superclass method.lexeme with
        | some function =>
          simp only [Token.lexeme_relabel, hmethod]
          exact .bind (follows_bindMethod _ _) fun _ _ _ => .ret _
        | none =>
          simp only [Token.lexeme_relabel, hmethod]
          exact .fail
      | _ => exact .fail
    | _ => exact .fail

theorem follows_superclassOf {base : Option Reference}
    (hids : ∀ r, base = some r → r.id ∈ T.references) :
    Follows T (superclassOf base) (superclassOf (base.map (Reference.relabel T.relabeling))) m := by
  cases base with
  | none => exact .ret _
  | some target =>
    refine .bind (follows_lookUp (hids target rfl)) fun v m' _ => ?_
    cases v with
    | classValue id => exact .ret _
    | _ => exact .fail

theorem follows_methodFrame (base : Option ClassId) :
    Follows T (methodFrame base) (methodFrame base) m := by
  cases base with
  | none => exact .view rfl
  | some id =>
    exact .bind follows_innerFrame fun frame m' _ => .bind (follows_bindIn frame _ _) fun _ _ _ => .ret _

theorem follows_addFunction {d : Declaration} (hd : T.Covers d true)
    (closure : FrameId) (initializes : Bool) :
    Follows T (update fun s => s.addFunction ⟨.declared d, closure, initializes⟩)
      (update fun s => s.addFunction ⟨.declared (d.relabel T.relabeling), closure, initializes⟩) m := by
  refine .update (m.store.grows_addFunction _) (fun h => h.addFunction ?_)
    (m.store.addFunction_relabel ⟨.declared d, closure, initializes⟩)
  rintro _ ⟨⟩
  exact ⟨hd.references, hd.printed⟩

theorem follows_makeMethods (closure : FrameId) (ds : List Declaration)
    (methods : Dictionary FunctionId)
    (hids : ∀ i ∈ identities (Declaration.listReferences ds), i ∈ T.references)
    (hprinted : T.Places (Declaration.allPrinted ds)) :
    Follows T (makeMethods closure ds methods)
      (makeMethods closure (Declaration.relabelAll T.relabeling ds) methods) m := by
  induction ds generalizing methods m with
  | nil => exact .ret methods
  | cons d rest ih =>
    simp only [Declaration.listReferences, identities_append, List.mem_append] at hids
    simp only [makeMethods, Declaration.relabelAll, Declaration.name_relabel, Token.lexeme_relabel]
    have hd : T.Covers d true := ⟨fun i hi => hids i (.inl hi), hprinted.left⟩
    exact .bind (follows_addFunction hd closure _) fun id m' _ =>
      ih _ (fun i hi => hids i (.inr hi)) hprinted.right

theorem follows_declareClass (name : Token) {base : Option Reference} {ds : List Declaration}
    (hbase : ∀ r, base = some r → r.id ∈ T.references)
    (hds : ∀ i ∈ identities (Declaration.listReferences ds), i ∈ T.references)
    (hprinted : T.Places (Declaration.allPrinted ds)) :
    Follows T (declareClass name base ds)
      (declareClass (name.relabel T.relabeling) (base.map (Reference.relabel T.relabeling))
        (Declaration.relabelAll T.relabeling ds)) m := by
  unfold declareClass
  refine .bind (follows_superclassOf hbase) fun superclass m₁ _ => ?_
  refine .bind (follows_define _ _) fun _ m₂ _ => ?_
  refine .bind (follows_methodFrame superclass) fun closure m₃ _ => ?_
  refine .bind (follows_makeMethods closure ds ∅ hds hprinted) fun methods m₄ _ => ?_
  refine .bind (.update (m₄.store.grows_addClass _) (fun h => h.of_functions rfl) rfl) fun id m₅ _ => ?_
  refine .viewThen ?_
  simp only [Machine.store_recast, Machine.cursor_recast, Store.holder_relabel, Token.lexeme_relabel]
  exact .bind .ofExcept fun frame m' _ => follows_bindIn frame _ _

end Eval

/-- All evaluation with the given fuel follows, given that the references in the code that runs are
among those that find the same, and that the expressions it prints are placed. -/
structure Mirrors (T : Recast) (fuel : Nat) : Prop where
  evaluate : ∀ e m, (∀ i ∈ identities e.references, i ∈ T.references) →
    Eval.Follows T (evaluate fuel e) (evaluate fuel (e.relabel T.relabeling)) m
  evaluateAll : ∀ es m, (∀ i ∈ identities (Expr.listReferences es), i ∈ T.references) →
    Eval.Follows T (evaluateAll fuel es) (evaluateAll fuel (Expr.relabelAll T.relabeling es)) m
  call : ∀ line callee arguments m, Eval.Follows T (call fuel line callee arguments)
    (call fuel (T.relabeling.line line) callee arguments) m
  invoke : ∀ line id arguments m, Eval.Follows T (invoke fuel line id arguments)
    (invoke fuel (T.relabeling.line line) id arguments) m
  construct : ∀ line id arguments m, Eval.Follows T (construct fuel line id arguments)
    (construct fuel (T.relabeling.line line) id arguments) m
  render : ∀ line value m, Eval.Follows T (render fuel line value)
    (render fuel (T.relabeling.line line) value) m
  execute : ∀ s m, (∀ i ∈ identities s.references, i ∈ T.references) → T.Places s.printed →
    Eval.Follows T (execute fuel s) (execute fuel (s.relabel T.relabeling)) m
  executeAll : ∀ body m, (∀ i ∈ identities (Stmt.listReferences body), i ∈ T.references) →
    T.Places (Stmt.allPrinted body) →
    Eval.Follows T (executeAll fuel body) (executeAll fuel (Stmt.relabelAll T.relabeling body)) m
  iterate : ∀ c n b m, (∀ i ∈ identities c.references, i ∈ T.references) →
    (∀ i ∈ identities (Stmt.optionReferences n), i ∈ T.references) →
    (∀ i ∈ identities b.references, i ∈ T.references) →
    T.Places (Stmt.optionPrinted n ++ b.printed) →
    Eval.Follows T (iterate fuel c n b) (iterate fuel (c.relabel T.relabeling)
      (Stmt.relabelOption T.relabeling n) (b.relabel T.relabeling)) m

variable {fuel : Nat}

theorem Mirrors.evaluate_succ (ih : Mirrors T fuel) (e : Expr) (m : Machine)
    (hids : ∀ i ∈ identities e.references, i ∈ T.references) :
    Eval.Follows T (LoxLang.evaluate (fuel + 1) e)
      (LoxLang.evaluate (fuel + 1) (e.relabel T.relabeling)) m := by
  cases e with
  | literal value =>
    rw [Expr.relabel, LoxLang.evaluate]
    exact .ret value.value
  | grouping inner =>
    rw [Expr.relabel, LoxLang.evaluate, LoxLang.evaluate]
    exact ih.evaluate inner m hids
  | unary operator right =>
    rw [Expr.relabel, LoxLang.evaluate, LoxLang.evaluate]
    exact .bind (ih.evaluate right m hids) fun _ _ _ => .ofExcept
  | binary left operator right =>
    simp only [Expr.references, identities_append, List.mem_append] at hids
    rw [Expr.relabel, LoxLang.evaluate, LoxLang.evaluate]
    refine .bind (ih.evaluate left m fun i hi => hids i (.inl hi)) fun _ m₁ _ => ?_
    exact .bind (ih.evaluate right m₁ fun i hi => hids i (.inr hi)) fun _ _ _ => .ofExcept
  | logical left operator right =>
    simp only [Expr.references, identities_append, List.mem_append] at hids
    rw [Expr.relabel, LoxLang.evaluate, LoxLang.evaluate]
    refine .bind (ih.evaluate left m fun i hi => hids i (.inl hi)) fun v m₁ _ => ?_
    have hdecided : decidedByLeft (operator.relabel T.relabeling) v = decidedByLeft operator v := rfl
    rw [hdecided]
    split
    · exact .ret v
    · exact ih.evaluate right m₁ fun i hi => hids i (.inr hi)
  | conditional condition thenBranch elseBranch =>
    cases thenBranch with
    | none =>
      simp only [Expr.references, identities_append, List.mem_append] at hids
      rw [Expr.relabel, LoxLang.evaluate, LoxLang.evaluate]
      refine .bind (ih.evaluate condition m fun i hi => hids i (.inl hi)) fun v m₁ _ => ?_
      split
      · exact .ret v
      · exact ih.evaluate elseBranch m₁ fun i hi => hids i (.inr hi)
    | some thenBranch =>
      simp only [Expr.references, identities_append, List.mem_append] at hids
      rw [Expr.relabel, LoxLang.evaluate, LoxLang.evaluate]
      refine .bind (ih.evaluate condition m fun i hi => hids i (.inl (.inl hi))) fun v m₁ _ => ?_
      split
      · exact ih.evaluate thenBranch m₁ fun i hi => hids i (.inl (.inr hi))
      · exact ih.evaluate elseBranch m₁ fun i hi => hids i (.inr hi)
  | «variable» target =>
    rw [Expr.relabel, LoxLang.evaluate, LoxLang.evaluate]
    exact Eval.follows_lookUp (hids _ (by simp [Expr.references]))
  | assign target value =>
    simp only [Expr.references, identities_cons, List.mem_cons] at hids
    rw [Expr.relabel, LoxLang.evaluate, LoxLang.evaluate]
    refine .bind (ih.evaluate value m fun i hi => hids i (.inr hi)) fun v m₁ _ => ?_
    exact .bind (Eval.follows_assign (hids _ (.inl rfl)) v) fun _ _ _ => .ret v
  | call callee paren arguments =>
    simp only [Expr.references, identities_append, List.mem_append] at hids
    rw [Expr.relabel, LoxLang.evaluate, LoxLang.evaluate]
    refine .bind (ih.evaluate callee m fun i hi => hids i (.inl hi)) fun v m₁ _ => ?_
    refine .bind (ih.evaluateAll arguments m₁ fun i hi => hids i (.inr hi)) fun vs m₂ _ => ?_
    exact ih.call paren.line v vs m₂
  | get object name =>
    rw [Expr.relabel, LoxLang.evaluate, LoxLang.evaluate]
    exact .bind (ih.evaluate object m hids) fun v _ _ => Eval.follows_property v name
  | set object name value =>
    simp only [Expr.references, identities_append, List.mem_append] at hids
    rw [Expr.relabel, LoxLang.evaluate, LoxLang.evaluate]
    refine .bind (ih.evaluate object m fun i hi => hids i (.inl hi)) fun v m₁ _ => ?_
    cases v with
    | object id =>
      refine .bind (ih.evaluate value m₁ fun i hi => hids i (.inr hi)) fun v m₂ _ => ?_
      refine .bind (.update ?_ (fun h => h.of_functions rfl) rfl) fun _ _ _ => .ret v
      exact m₂.store.grows_modifyObject _ fun _ => rfl
    | _ => exact .fail
  | this keyword =>
    rw [Expr.relabel, LoxLang.evaluate, LoxLang.evaluate]
    exact Eval.follows_lookUp (hids _ (by simp [Expr.references]))
  | super keyword method =>
    rw [Expr.relabel, LoxLang.evaluate, LoxLang.evaluate]
    exact Eval.follows_superMethod (hids _ (by simp [Expr.references])) method

theorem Mirrors.evaluateAll_succ (ih : Mirrors T fuel) (es : List Expr) (m : Machine)
    (hids : ∀ i ∈ identities (Expr.listReferences es), i ∈ T.references) :
    Eval.Follows T (LoxLang.evaluateAll (fuel + 1) es)
      (LoxLang.evaluateAll (fuel + 1) (Expr.relabelAll T.relabeling es)) m := by
  cases es with
  | nil =>
    rw [Expr.relabelAll, LoxLang.evaluateAll]
    exact .ret []
  | cons e rest =>
    simp only [Expr.listReferences, identities_append, List.mem_append] at hids
    rw [Expr.relabelAll, LoxLang.evaluateAll, LoxLang.evaluateAll]
    refine .bind (ih.evaluate e m fun i hi => hids i (.inl hi)) fun v m₁ _ => ?_
    exact .bind (ih.evaluateAll rest m₁ fun i hi => hids i (.inr hi)) fun _ _ _ => .ret _

theorem Mirrors.call_succ (ih : Mirrors T fuel) (line : Nat) (callee : Value) (arguments : List Value)
    (m : Machine) :
    Eval.Follows T (LoxLang.call (fuel + 1) line callee arguments)
      (LoxLang.call (fuel + 1) (T.relabeling.line line) callee arguments) m := by
  cases callee with
  | native function =>
    rw [LoxLang.call, LoxLang.call]
    refine .bind (Eval.follows_requireArity line _ _) fun _ m₁ _ => ?_
    exact .deeper (Eval.follows_runNative line function arguments)
  | function id =>
    rw [LoxLang.call, LoxLang.call]
    refine .viewThen ?_
    rw [Machine.store_recast, Store.functionArity_relabel]
    refine .bind (Eval.follows_requireArity line _ _) fun _ m₁ _ => ?_
    exact .deeper (ih.invoke line id arguments _)
  | classValue id =>
    rw [LoxLang.call, LoxLang.call]
    refine .viewThen ?_
    rw [Machine.store_recast, Store.classArity_relabel]
    refine .bind (Eval.follows_requireArity line _ _) fun _ m₁ _ => ?_
    exact .deeper (ih.construct line id arguments _)
  | _ =>
    rw [LoxLang.call, LoxLang.call]
    · exact .fail
    all_goals simp

theorem Mirrors.invoke_succ (ih : Mirrors T fuel) (line : Nat) (id : FunctionId)
    (arguments : List Value) (m : Machine) :
    Eval.Follows T (LoxLang.invoke (fuel + 1) line id arguments)
      (LoxLang.invoke (fuel + 1) (T.relabeling.line line) id arguments) m := by
  rw [LoxLang.invoke, LoxLang.invoke]
  refine .viewThen (.assuming fun hs => ?_)
  rw [Machine.store_recast, Store.function?_relabel]
  cases hf : m.store.function? id with
  | none => exact .fail
  | some f =>
    obtain ⟨code, closure, initializes⟩ := f
    cases code with
    | array method => exact Eval.follows_runArrayMethod line _ method arguments
    | declared d =>
      have hids : ∀ i ∈ identities (Stmt.listReferences d.body), i ∈ T.references := by
        have hd := (hs id _ d hf rfl).references
        cases d
        exact hd
      have hprinted : T.Places (Stmt.allPrinted d.body) := by
        have hd := (hs id _ d hf rfl).printed
        cases d
        exact hd
      simp only [Option.map_some, Function.relabel, Code.relabel, Declaration.parameters_relabel,
        Declaration.body_relabel]
      refine .bind (Eval.follows_parameterFrame closure d.parameters arguments) fun frame m₁ _ => ?_
      refine .bind (.within (ih.executeAll d.body _ hids hprinted)) fun ending m₂ _ => ?_
      exact Eval.follows_answerOf line ⟨.declared d, closure, initializes⟩ ending

theorem Mirrors.construct_succ (ih : Mirrors T fuel) (line : Nat) (id : ClassId)
    (arguments : List Value) (m : Machine) :
    Eval.Follows T (LoxLang.construct (fuel + 1) line id arguments)
      (LoxLang.construct (fuel + 1) (T.relabeling.line line) id arguments) m := by
  rw [LoxLang.construct, LoxLang.construct]
  refine .bind (.update (m.store.grows_addObject _) (fun h => h.of_functions rfl) rfl) ?_
  intro object m₁ _
  refine .viewThen ?_
  rw [Machine.store_recast, Store.method?_relabel]
  cases m₁.store.method? id initializerName with
  | none => exact .ret _
  | some method =>
    refine .bind (Eval.follows_bindMethod method object) fun bound m₂ _ => ?_
    exact .bind (ih.invoke line bound arguments m₂) fun _ _ _ => .ret _

theorem Mirrors.render_succ (ih : Mirrors T fuel) (line : Nat) (value : Value) (m : Machine) :
    Eval.Follows T (LoxLang.render (fuel + 1) line value)
      (LoxLang.render (fuel + 1) (T.relabeling.line line) value) m := by
  cases value with
  | object object =>
    rw [LoxLang.render, LoxLang.render]
    refine .viewThen ?_
    rw [Machine.store_recast, Store.methodOf?_relabel, Store.text_relabel]
    cases m.store.methodOf? object toStringName with
    | none => exact .ret _
    | some method =>
      simp only [Store.functionArity_relabel]
      split
      · refine .bind (Eval.follows_bindMethod method object) fun bound m₁ _ => .deeper ?_
        exact .bind (ih.invoke line bound [] _) fun answer m₂ _ => ih.render line answer m₂
      · exact .ret _
  | _ =>
    rw [LoxLang.render, LoxLang.render]
    · refine .viewThen ?_
      rw [Machine.store_recast, Store.text_relabel]
      exact .ret _
    all_goals simp

theorem Mirrors.execute_succ (ih : Mirrors T fuel) (s : Stmt) (m : Machine)
    (hids : ∀ i ∈ identities s.references, i ∈ T.references) (hprinted : T.Places s.printed) :
    Eval.Follows T (LoxLang.execute (fuel + 1) s)
      (LoxLang.execute (fuel + 1) (s.relabel T.relabeling)) m := by
  cases s with
  | expression value =>
    rw [Stmt.relabel, LoxLang.execute, LoxLang.execute]
    exact .bind (ih.evaluate value m hids) fun _ _ _ => .ret _
  | print value =>
    -- The line of what is printed is the only one that is no line of a token.
    rw [Stmt.relabel, LoxLang.execute, LoxLang.execute, hprinted value (by simp [Stmt.printed])]
    refine .bind (ih.evaluate value m hids) fun answer m₁ _ => ?_
    refine .bind (ih.render value.line answer m₁) fun text _ _ => ?_
    exact .bind (.emit text) fun _ _ _ => .ret _
  | declareVar name initializer =>
    cases initializer with
    | none =>
      rw [Stmt.relabel, Option.map_none, LoxLang.execute, LoxLang.execute]
      exact .bind (.ret Value.nil) fun v _ _ => .bind (Eval.follows_define _ v) fun _ _ _ => .ret _
    | some value =>
      rw [Stmt.relabel, Option.map_some, LoxLang.execute, LoxLang.execute]
      exact .bind (ih.evaluate value m hids) fun v _ _ =>
        .bind (Eval.follows_define _ v) fun _ _ _ => .ret _
  | block body =>
    rw [Stmt.relabel, LoxLang.execute, LoxLang.execute]
    exact .bind Eval.follows_innerFrame fun frame _ _ => .within (ih.executeAll body _ hids hprinted)
  | branch condition thenBranch elseBranch =>
    cases elseBranch with
    | none =>
      simp only [Stmt.references, identities_append, List.mem_append] at hids
      rw [Stmt.relabel, LoxLang.execute, LoxLang.execute]
      refine .bind (ih.evaluate condition m fun i hi => hids i (.inl hi)) fun v m₁ _ => ?_
      split
      · exact ih.execute thenBranch m₁ (fun i hi => hids i (.inr hi)) hprinted
      · exact .ret _
    | some elseBranch =>
      simp only [Stmt.references, identities_append, List.mem_append] at hids
      rw [Stmt.relabel, LoxLang.execute, LoxLang.execute]
      refine .bind (ih.evaluate condition m fun i hi => hids i (.inl (.inl hi))) fun v m₁ _ => ?_
      split
      · exact ih.execute thenBranch m₁ (fun i hi => hids i (.inl (.inr hi))) hprinted.left
      · exact ih.execute elseBranch m₁ (fun i hi => hids i (.inr hi)) hprinted.right
  | loop initializer condition increment body =>
    cases initializer with
    | none =>
      simp only [Stmt.references, identities_append, List.mem_append] at hids
      rw [Stmt.relabel, LoxLang.execute, LoxLang.execute]
      exact ih.iterate condition increment body m (fun i hi => hids i (.inl (.inl hi)))
        (fun i hi => hids i (.inl (.inr hi))) (fun i hi => hids i (.inr hi)) hprinted
    | some initializer =>
      simp only [Stmt.references, identities_append, List.mem_append] at hids
      rw [Stmt.relabel, LoxLang.execute, LoxLang.execute]
      refine .bind Eval.follows_innerFrame fun frame m₁ _ => .within ?_
      have hinitializer := fun i hi => hids i (.inl (.inl (.inl hi)))
      refine .bind (ih.execute initializer _ hinitializer hprinted.left) fun _ m₂ _ => ?_
      exact ih.iterate condition increment body m₂ (fun i hi => hids i (.inl (.inl (.inr hi))))
        (fun i hi => hids i (.inl (.inr hi))) (fun i hi => hids i (.inr hi)) hprinted.right
  | declareFunction d =>
    rw [Stmt.relabel, LoxLang.execute, LoxLang.execute]
    refine .viewThen (.bind (Eval.follows_addFunction ⟨hids, hprinted⟩ m.cursor false) fun id m₁ _ => ?_)
    rw [Declaration.name_relabel]
    exact .bind (Eval.follows_define _ _) fun _ _ _ => .ret _
  | returnWith keyword value =>
    cases value with
    | none =>
      rw [Stmt.relabel, Option.map_none, LoxLang.execute, LoxLang.execute]
      exact .ret _
    | some value =>
      rw [Stmt.relabel, Option.map_some, LoxLang.execute, LoxLang.execute]
      exact .bind (ih.evaluate value m hids) fun v _ _ => .ret _
  | breakLoop | continueLoop =>
    rw [Stmt.relabel, LoxLang.execute, LoxLang.execute]
    exact .ret _
  | declareClass name base ds =>
    simp only [Stmt.references, identities_append, List.mem_append] at hids
    rw [Stmt.relabel, LoxLang.execute, LoxLang.execute]
    have hds := fun i hi => hids i (.inr hi)
    refine .bind (Eval.follows_declareClass name ?_ hds hprinted) fun _ _ _ => .ret _
    rintro r rfl
    exact hids _ (.inl (by simp))

theorem Mirrors.executeAll_succ (ih : Mirrors T fuel) (body : List Stmt) (m : Machine)
    (hids : ∀ i ∈ identities (Stmt.listReferences body), i ∈ T.references)
    (hprinted : T.Places (Stmt.allPrinted body)) :
    Eval.Follows T (LoxLang.executeAll (fuel + 1) body)
      (LoxLang.executeAll (fuel + 1) (Stmt.relabelAll T.relabeling body)) m := by
  cases body with
  | nil =>
    rw [Stmt.relabelAll, LoxLang.executeAll]
    exact .ret _
  | cons s rest =>
    simp only [Stmt.listReferences, identities_append, List.mem_append] at hids
    rw [Stmt.relabelAll, LoxLang.executeAll, LoxLang.executeAll]
    refine .bind (ih.execute s m (fun i hi => hids i (.inl hi)) hprinted.left) fun ending m₁ _ => ?_
    cases ending with
    | normal => exact ih.executeAll rest m₁ (fun i hi => hids i (.inr hi)) hprinted.right
    | _ => exact .ret _

theorem Mirrors.iterate_succ (ih : Mirrors T fuel) (c : Expr) (n : Option Stmt) (b : Stmt) (m : Machine)
    (hc : ∀ i ∈ identities c.references, i ∈ T.references)
    (hn : ∀ i ∈ identities (Stmt.optionReferences n), i ∈ T.references)
    (hb : ∀ i ∈ identities b.references, i ∈ T.references)
    (hprinted : T.Places (Stmt.optionPrinted n ++ b.printed)) :
    Eval.Follows T (LoxLang.iterate (fuel + 1) c n b)
      (LoxLang.iterate (fuel + 1) (c.relabel T.relabeling) (Stmt.relabelOption T.relabeling n)
        (b.relabel T.relabeling)) m := by
  cases n with
  | none =>
    rw [Stmt.relabelOption, LoxLang.iterate, LoxLang.iterate]
    refine .bind (ih.evaluate c m hc) fun v m₁ _ => ?_
    split
    · refine .bind (ih.execute b m₁ hb hprinted.right) fun ending m₂ _ => ?_
      cases ending with
      | normal | continued => exact ih.iterate c none b m₂ hc hn hb hprinted
      | broke | returned => exact .ret _
    · exact .ret _
  | some n =>
    rw [Stmt.relabelOption, LoxLang.iterate, LoxLang.iterate]
    rw [Stmt.optionReferences_some] at hn
    refine .bind (ih.evaluate c m hc) fun v m₁ _ => ?_
    split
    · refine .bind (ih.execute b m₁ hb hprinted.right) fun ending m₂ _ => ?_
      cases ending with
      | normal | continued =>
        refine .bind (ih.execute n m₂ hn hprinted.left) fun _ m₃ _ => ?_
        exact ih.iterate c (some n) b m₃ hc (by rwa [Stmt.optionReferences_some]) hb hprinted
      | broke | returned => exact .ret _
    · exact .ret _

theorem mirrors (T : Recast) (fuel : Nat) : Mirrors T fuel := by
  induction fuel with
  | zero =>
    constructor <;> intros <;>
      simp only [LoxLang.evaluate, LoxLang.evaluateAll, LoxLang.call, LoxLang.invoke,
        LoxLang.construct, LoxLang.render, LoxLang.execute, LoxLang.executeAll, LoxLang.iterate] <;>
      exact .outOfFuel
  | succ fuel ih =>
    exact
      { evaluate := ih.evaluate_succ
        evaluateAll := ih.evaluateAll_succ
        call := ih.call_succ
        invoke := ih.invoke_succ
        construct := ih.construct_succ
        render := ih.render_succ
        execute := ih.execute_succ
        executeAll := ih.executeAll_succ
        iterate := ih.iterate_succ }

end

end LoxLang
