import LoxLang.Proofs.Evaluation.Ensures
import LoxLang.Proofs.Store.Growth

/-!
What every computation keeps, on every way out: the current environment, the hop counts, the number
of calls in progress, and all that a store never loses.

The functions in the store keep a condition as well, if the declarations in the code that runs satisfy
it.
-/

set_option autoImplicit false

namespace LoxLang

mutual
/-- The functions that running the statement itself can make, and whether they are initializers.
Those made by running their bodies are left out. -/
def Stmt.declared : Stmt → List (Declaration × Bool)
  | .block body => Stmt.allDeclared body
  | .branch _ t (some e) => t.declared ++ e.declared
  | .branch _ t none => t.declared
  | .loop (some i) _ n b => i.declared ++ (Stmt.optionDeclared n ++ b.declared)
  | .loop none _ n b => Stmt.optionDeclared n ++ b.declared
  | .declareFunction d => [(d, false)]
  | .declareClass _ _ ds => ds.map fun d => (d, decide (d.name.lexeme = initializerName))
  | .expression _ | .print _ | .declareVar _ _ | .returnWith _ _ | .breakLoop _
  | .continueLoop _ => []

def Stmt.optionDeclared : Option Stmt → List (Declaration × Bool)
  | none => []
  | some s => s.declared

def Stmt.allDeclared : List Stmt → List (Declaration × Bool)
  | [] => []
  | s :: rest => s.declared ++ Stmt.allDeclared rest
end

def AllSatisfy (D : Declaration → Bool → Prop) (ds : List (Declaration × Bool)) : Prop :=
  ∀ d i, (d, i) ∈ ds → D d i

theorem AllSatisfy.left {D : Declaration → Bool → Prop} {ds es : List (Declaration × Bool)}
    (h : AllSatisfy D (ds ++ es)) : AllSatisfy D ds :=
  fun d i hd => h d i (List.mem_append_left _ hd)

theorem AllSatisfy.right {D : Declaration → Bool → Prop} {ds es : List (Declaration × Bool)}
    (h : AllSatisfy D (ds ++ es)) : AllSatisfy D es :=
  fun d i hd => h d i (List.mem_append_right _ hd)

theorem AllSatisfy.append {D : Declaration → Bool → Prop} {ds es : List (Declaration × Bool)}
    (h : AllSatisfy D ds) (h' : AllSatisfy D es) : AllSatisfy D (ds ++ es) := by
  intro d i hd
  rcases List.mem_append.mp hd with hd | hd
  · exact h d i hd
  · exact h' d i hd

/-- A condition on functions that also holds of the functions their bodies make. -/
def Hereditary (D : Declaration → Bool → Prop) : Prop :=
  ∀ d i, D d i → AllSatisfy D (Stmt.allDeclared d.body)

structure Kept (D : Declaration → Bool → Prop) (m m' : Machine) : Prop where
  cursor : m'.cursor = m.cursor
  hops : m'.hops = m.hops
  calls : m'.calls = m.calls
  grows : m.store.Grows m'.store
  stored : m'.store.Stored D

section Keeping

variable {D : Declaration → Bool → Prop} {m m₁ m' : Machine}

theorem Kept.refl (h : m.store.Stored D) : Kept D m m := ⟨rfl, rfl, rfl, .refl _, h⟩

theorem Kept.trans (h : Kept D m m₁) (h' : Kept D m₁ m') : Kept D m m' :=
  ⟨h'.cursor.trans h.cursor, h'.hops.trans h.hops, h'.calls.trans h.calls, h.grows.trans h'.grows,
    h'.stored⟩

namespace Eval

/-- The computation keeps what is to be kept. -/
def Keeps (D : Declaration → Bool → Prop) {α : Type} (act : Eval α) (m : Machine) : Prop :=
  m.store.Stored D → act.Ensures m (fun _ m' => Kept D m m') fun _ m' => Kept D m m'

def Quiet {α : Type} (act : Eval α) (m : Machine) : Prop :=
  act.Ensures m (fun _ m' => m' = m) fun _ m' => m' = m

namespace Quiet

variable {α β : Type}

theorem ret (v : α) : (pure v : Eval α).Quiet m := rfl

theorem fail {line : Nat} {cause : RuntimeError} : (fail line cause : Eval α).Quiet m := rfl

theorem ofExcept {line : Nat} {x : Except RuntimeError α} : (ofExcept line x).Quiet m :=
  Ensures.ofExcept (fun _ _ => rfl) fun _ _ => rfl

theorem bind {act : Eval α} {next : α → Eval β} (h : act.Quiet m) (hnext : ∀ v, (next v).Quiet m) :
    (act >>= next).Quiet m := by
  refine Ensures.bind h fun v m' _ hm => ?_
  subst hm
  exact hnext v

end Quiet

theorem quiet_requireArity (line arity given : Nat) : (requireArity line arity given).Quiet m := by
  unfold requireArity
  split
  · exact Quiet.ret _
  · exact Quiet.fail

theorem quiet_lookUp (target : Reference) : (lookUp target).Quiet m := by
  cases h : m.hops[target.id]? with
  | none =>
    have hquiet : (Eval.ofExcept target.name.line
        (m.store.lookup Store.globals target.name.lexeme)).Quiet m := Quiet.ofExcept
    refine Ensures.of_eq ?_ hquiet
    simp [lookUp, h]
  | some distance =>
    have hquiet : (Eval.ofExcept target.name.line
        (m.store.lookupAt m.cursor distance target.name.lexeme)).Quiet m := Quiet.ofExcept
    refine Ensures.of_eq ?_ hquiet
    simp [lookUp, h]

theorem quiet_superclassOf (base : Option Reference) : (superclassOf base).Quiet m := by
  unfold superclassOf
  cases base with
  | none => exact Quiet.ret _
  | some target =>
    refine Quiet.bind (quiet_lookUp target) fun v => ?_
    cases v <;> first | exact Quiet.ret _ | exact Quiet.fail

theorem quiet_answerOf (line : Nat) (f : Function) (ending : Ending) :
    (answerOf line f ending).Quiet m := by
  cases h : f.initializes with
  | true =>
    have hquiet : (Eval.ofExcept line (m.store.lookupAt f.closure 0 "this")).Quiet m :=
      Quiet.ofExcept
    refine Ensures.of_eq ?_ hquiet
    simp [answerOf, h]
  | false =>
    cases ending with
    | returned value =>
      refine Ensures.of_eq ?_ (Quiet.ret value)
      simp [answerOf, h, pure, Eval.ret]
    | _ =>
      refine Ensures.of_eq ?_ (Quiet.ret Value.nil)
      simp [answerOf, h, pure, Eval.ret]

namespace Keeps

variable {α β : Type}

theorem of_quiet {act : Eval α} (h : act.Quiet m) : act.Keeps D m := by
  intro hs
  refine Ensures.imp h ?_ ?_
  · rintro _ _ rfl
    exact .refl hs
  · rintro _ _ rfl
    exact .refl hs

theorem assuming {act : Eval α} (h : m.store.Stored D → act.Keeps D m) : act.Keeps D m :=
  fun hs => h hs hs

theorem ret {v : α} : (pure v : Eval α).Keeps D m := of_quiet (Quiet.ret v)

theorem fail {line : Nat} {cause : RuntimeError} : (fail line cause : Eval α).Keeps D m :=
  of_quiet Quiet.fail

theorem ofExcept {line : Nat} {x : Except RuntimeError α} : (ofExcept line x).Keeps D m :=
  of_quiet Quiet.ofExcept

theorem outOfFuel : (outOfFuel : Eval α).Keeps D m := fun _ => trivial

theorem bind {act : Eval α} {next : α → Eval β} (h : act.Keeps D m)
    (hnext : ∀ v m', act m = .answer v m' → Kept D m m' → (next v).Keeps D m') :
    (act >>= next).Keeps D m := by
  intro hs
  refine Ensures.bind (h hs) fun v m' hv hm => ?_
  exact (hnext v m' hv hm hm.stored).imp (fun _ _ h' => hm.trans h') fun _ _ h' => hm.trans h'

theorem viewThen {next : α → Eval β} {f : Machine → α} (h : (next (f m)).Keeps D m) :
    (view f >>= next).Keeps D m := h

theorem update {f : Store → α × Store} (hgrows : m.store.Grows (f m.store).2)
    (hstored : m.store.Stored D → (f m.store).2.Stored D) : (update f).Keeps D m :=
  fun hs => ⟨rfl, rfl, rfl, hgrows, hstored hs⟩

theorem within {act : Eval α} {frame : FrameId} (h : act.Keeps D { m with cursor := frame }) :
    (within frame act).Keeps D m := by
  intro hs
  refine Ensures.within ((h hs).imp ?_ ?_)
  · exact fun _ m' h' => ⟨rfl, h'.hops, h'.calls, h'.grows, h'.stored⟩
  · exact fun _ m' h' => ⟨rfl, h'.hops, h'.calls, h'.grows, h'.stored⟩

theorem deeper {act : Eval α} {line : Nat}
    (h : m.calls < callLimit → act.Keeps D { m with calls := m.calls + 1 }) :
    (deeper line act).Keeps D m := by
  intro hs
  refine Ensures.deeper (fun _ => .refl hs) fun hc => (h hc hs).imp ?_ ?_
  · exact fun _ m' h' => ⟨h'.cursor, h'.hops, by simp [h'.calls], h'.grows, h'.stored⟩
  · exact fun _ m' h' => ⟨h'.cursor, h'.hops, by simp [h'.calls], h'.grows, h'.stored⟩

theorem emit {line : String} : (emit line).Keeps D m :=
  fun hs => Ensures.emit (fun _ _ => ⟨rfl, rfl, rfl, .refl _, hs⟩) fun _ _ => .refl hs

theorem readClock : Eval.readClock.Keeps D m := fun hs => ⟨rfl, rfl, rfl, .refl _, hs⟩

theorem takeLine : Eval.takeLine.Keeps D m := fun hs => ⟨rfl, rfl, rfl, .refl _, hs⟩

end Keeps

theorem keeps_bindIn (frame : FrameId) (name : String) (value : Value) :
    (bindIn frame name value).Keeps D m :=
  Keeps.update (m.store.grows_bind frame name value) fun h => h.of_functions rfl

theorem keeps_assign (target : Reference) (value : Value) : (assign target value).Keeps D m := by
  unfold assign
  refine Keeps.viewThen (Keeps.viewThen ?_)
  split <;>
    exact Keeps.viewThen (Keeps.bind Keeps.ofExcept fun _ _ _ _ => keeps_bindIn _ _ _)

theorem keeps_define (name : String) (value : Value) : (define name value).Keeps D m := by
  unfold define
  exact Keeps.viewThen (keeps_bindIn _ _ _)

theorem keeps_newFrame (enclosing : FrameId) : (newFrame enclosing).Keeps D m :=
  Keeps.update (m.store.grows_addFrame _) fun h => h.of_functions rfl

theorem keeps_innerFrame : innerFrame.Keeps D m := by
  unfold innerFrame
  exact Keeps.viewThen (keeps_newFrame _)

theorem keeps_bindMethod (method : FunctionId) (object : ObjectId) :
    (bindMethod method object).Keeps D m :=
  Keeps.update (m.store.grows_bindMethod method object) fun h => h.bindMethod method object

theorem keeps_runNative (line : Nat) (function : Native) (arguments : List Value) :
    (runNative line function arguments).Keeps D m := by
  unfold runNative
  split
  · exact Keeps.bind Keeps.readClock fun _ _ _ _ => Keeps.ret
  · refine Keeps.bind Keeps.takeLine fun v _ _ _ => ?_
    split
    · exact Keeps.ret
    · exact Keeps.ret
    · exact Keeps.fail
  · exact Keeps.ofExcept
  · exact Keeps.fail

theorem keeps_runArrayMethod (line : Nat) (f : Function) (method : ArrayMethod)
    (arguments : List Value) : (runArrayMethod line f method arguments).Keeps D m := by
  unfold runArrayMethod
  refine Keeps.viewThen ?_
  split
  · exact Keeps.fail
  · refine Keeps.viewThen (Keeps.bind Keeps.ofExcept fun _ m' _ _ => Keeps.bind ?_ fun _ _ _ _ => Keeps.ret)
    refine Keeps.update ?_ fun h => h.of_functions rfl
    exact m'.store.grows_modifyObject _ fun _ => rfl

theorem keeps_parameterFrame (closure : FrameId) (parameters : List Token)
    (arguments : List Value) : (parameterFrame closure parameters arguments).Keeps D m := by
  unfold parameterFrame
  refine Keeps.bind (keeps_newFrame closure) fun frame m' _ _ => ?_
  refine Keeps.bind ?_ fun _ _ _ _ => Keeps.ret
  exact Keeps.update (m'.store.grows_bindAll frame _) fun h => h.bindAll frame _

theorem keeps_superMethod (keyword : Reference) (method : Token) :
    (superMethod keyword method).Keeps D m := by
  unfold superMethod
  refine Keeps.viewThen ?_
  split
  · exact Keeps.fail
  · refine Keeps.viewThen (Keeps.viewThen (Keeps.bind Keeps.ofExcept fun _ _ _ _ => ?_))
    split
    · refine Keeps.bind Keeps.ofExcept fun _ _ _ _ => ?_
      split
      · split
        · exact Keeps.bind (keeps_bindMethod _ _) fun _ _ _ _ => Keeps.ret
        · exact Keeps.fail
      · exact Keeps.fail
    · exact Keeps.fail

theorem keeps_property (object : Value) (name : Token) : (property object name).Keeps D m := by
  unfold property
  split
  · refine Keeps.viewThen (Keeps.bind Keeps.ofExcept fun _ _ _ _ => ?_)
    split
    · exact Keeps.ret
    · exact Keeps.bind (keeps_bindMethod _ _) fun _ _ _ _ => Keeps.ret
  · exact Keeps.fail

theorem keeps_methodFrame (superclass : Option ClassId) : (methodFrame superclass).Keeps D m := by
  unfold methodFrame
  cases superclass with
  | none => exact Keeps.of_quiet rfl
  | some id =>
    refine Keeps.bind keeps_innerFrame fun _ _ _ _ => ?_
    exact Keeps.bind (keeps_bindIn _ _ _) fun _ _ _ _ => Keeps.ret

theorem keeps_makeMethods (closure : FrameId) (ds : List Declaration)
    (methods : Dictionary FunctionId)
    (hds : ∀ d ∈ ds, D d (decide (d.name.lexeme = initializerName))) :
    (makeMethods closure ds methods).Keeps D m := by
  induction ds generalizing methods m with
  | nil => exact Keeps.ret
  | cons d rest ih =>
    unfold makeMethods
    refine Keeps.bind ?_ fun _ _ _ _ => ih _ fun e he => hds e (by simp [he])
    refine Keeps.update (m.store.grows_addFunction _) fun h => h.addFunction ?_
    rintro _ ⟨⟩
    exact hds d (by simp)

theorem keeps_declareClass (name : Token) (base : Option Reference) (ds : List Declaration)
    (hds : ∀ d ∈ ds, D d (decide (d.name.lexeme = initializerName))) :
    (declareClass name base ds).Keeps D m := by
  unfold declareClass
  refine Keeps.bind (Keeps.of_quiet (quiet_superclassOf base)) fun _ _ _ _ => ?_
  refine Keeps.bind (keeps_define _ _) fun _ _ _ _ => ?_
  refine Keeps.bind (keeps_methodFrame _) fun _ _ _ _ => ?_
  refine Keeps.bind (keeps_makeMethods _ _ _ hds) fun _ m₄ _ _ => ?_
  refine Keeps.bind (Keeps.update (m₄.store.grows_addClass _) fun h => h.of_functions rfl) ?_
  intro _ _ _ _
  exact Keeps.viewThen (Keeps.bind Keeps.ofExcept fun _ _ _ _ => keeps_bindIn _ _ _)

end Eval

/-- All evaluation with the given fuel keeps what is to be kept. -/
structure Preserves (D : Declaration → Bool → Prop) (fuel : Nat) : Prop where
  evaluate : ∀ e m, (evaluate fuel e).Keeps D m
  evaluateAll : ∀ es m, (evaluateAll fuel es).Keeps D m
  call : ∀ line callee arguments m, (call fuel line callee arguments).Keeps D m
  invoke : ∀ line id arguments m, (invoke fuel line id arguments).Keeps D m
  construct : ∀ line id arguments m, (construct fuel line id arguments).Keeps D m
  render : ∀ line value m, (render fuel line value).Keeps D m
  execute : ∀ s m, AllSatisfy D s.declared → (execute fuel s).Keeps D m
  executeAll : ∀ body m, AllSatisfy D (Stmt.allDeclared body) → (executeAll fuel body).Keeps D m
  iterate : ∀ c n b m, AllSatisfy D (Stmt.optionDeclared n ++ b.declared) → (iterate fuel c n b).Keeps D m

variable {fuel : Nat}

theorem Preserves.evaluate_succ (ih : Preserves D fuel) (e : Expr) (m : Machine) :
    (LoxLang.evaluate (fuel + 1) e).Keeps D m := by
  cases e with
  | literal value =>
    rw [LoxLang.evaluate]
    exact .ret
  | grouping inner =>
    rw [LoxLang.evaluate]
    exact ih.evaluate inner m
  | unary operator right =>
    rw [LoxLang.evaluate]
    exact .bind (ih.evaluate right m) fun _ _ _ _ => .ofExcept
  | binary left operator right =>
    rw [LoxLang.evaluate]
    refine .bind (ih.evaluate left m) fun _ m₁ _ _ => ?_
    exact .bind (ih.evaluate right m₁) fun _ _ _ _ => .ofExcept
  | logical left operator right =>
    rw [LoxLang.evaluate]
    refine .bind (ih.evaluate left m) fun _ m₁ _ _ => ?_
    split
    · exact .ret
    · exact ih.evaluate right m₁
  | conditional condition thenBranch elseBranch =>
    rw [LoxLang.evaluate]
    refine .bind (ih.evaluate condition m) fun _ m₁ _ _ => ?_
    split
    · cases thenBranch with
      | some thenBranch => exact ih.evaluate thenBranch m₁
      | none => exact .ret
    · exact ih.evaluate elseBranch m₁
  | «variable» target =>
    rw [LoxLang.evaluate]
    exact .of_quiet (Eval.quiet_lookUp target)
  | assign target value =>
    rw [LoxLang.evaluate]
    refine .bind (ih.evaluate value m) fun _ _ _ _ => ?_
    exact .bind (Eval.keeps_assign _ _) fun _ _ _ _ => .ret
  | call callee paren arguments =>
    rw [LoxLang.evaluate]
    refine .bind (ih.evaluate callee m) fun _ m₁ _ _ => ?_
    exact .bind (ih.evaluateAll arguments m₁) fun _ m₂ _ _ => ih.call _ _ _ m₂
  | get object name =>
    rw [LoxLang.evaluate]
    exact .bind (ih.evaluate object m) fun _ _ _ _ => Eval.keeps_property _ _
  | set object name value =>
    rw [LoxLang.evaluate]
    refine .bind (ih.evaluate object m) fun v m₁ _ _ => ?_
    split
    · refine .bind (ih.evaluate value m₁) fun _ m₂ _ _ => ?_
      refine .bind (Eval.Keeps.update (m₂.store.grows_modifyObject _ fun _ => rfl)
        fun h => h.of_functions rfl) fun _ _ _ _ => .ret
    · exact .fail
  | this keyword =>
    rw [LoxLang.evaluate]
    exact .of_quiet (Eval.quiet_lookUp keyword)
  | super keyword method =>
    rw [LoxLang.evaluate]
    exact Eval.keeps_superMethod keyword method

theorem Preserves.evaluateAll_succ (ih : Preserves D fuel) (es : List Expr) (m : Machine) :
    (LoxLang.evaluateAll (fuel + 1) es).Keeps D m := by
  cases es with
  | nil =>
    rw [LoxLang.evaluateAll]
    exact .ret
  | cons e rest =>
    rw [LoxLang.evaluateAll]
    refine .bind (ih.evaluate e m) fun _ m₁ _ _ => ?_
    exact .bind (ih.evaluateAll rest m₁) fun _ _ _ _ => .ret

theorem Preserves.call_succ (ih : Preserves D fuel) (line : Nat) (callee : Value)
    (arguments : List Value) (m : Machine) :
    (LoxLang.call (fuel + 1) line callee arguments).Keeps D m := by
  have arity : ∀ n k : Nat, (Eval.requireArity line n k).Keeps D m :=
    fun n k => .of_quiet (Eval.quiet_requireArity line n k)
  cases callee with
  | native function =>
    rw [LoxLang.call]
    exact .bind (arity _ _) fun _ _ _ _ => .deeper fun _ => Eval.keeps_runNative _ _ _
  | function id =>
    rw [LoxLang.call]
    refine .viewThen (.bind (arity _ _) fun _ m₁ _ _ => ?_)
    exact .deeper fun _ => ih.invoke line id arguments _
  | classValue id =>
    rw [LoxLang.call]
    refine .viewThen (.bind (arity _ _) fun _ m₁ _ _ => ?_)
    exact .deeper fun _ => ih.construct line id arguments _
  | _ =>
    rw [LoxLang.call]
    · exact .fail
    all_goals simp

theorem Preserves.invoke_succ (hD : Hereditary D) (ih : Preserves D fuel) (line : Nat)
    (id : FunctionId) (arguments : List Value) (m : Machine) :
    (LoxLang.invoke (fuel + 1) line id arguments).Keeps D m := by
  rw [LoxLang.invoke]
  refine .viewThen (.assuming fun hs => ?_)
  split
  · exact .fail
  · rename_i f hf
    split
    · exact Eval.keeps_runArrayMethod _ _ _ _
    · rename_i d hc
      have hd : AllSatisfy D (Stmt.allDeclared d.body) := hD d _ (hs id f d hf hc)
      refine .bind (Eval.keeps_parameterFrame _ _ _) fun frame m₁ _ _ => ?_
      refine .bind (.within (ih.executeAll d.body _ hd)) fun ending _ _ _ => ?_
      exact .of_quiet (Eval.quiet_answerOf line f ending)

theorem Preserves.construct_succ (ih : Preserves D fuel) (line : Nat) (id : ClassId)
    (arguments : List Value) (m : Machine) :
    (LoxLang.construct (fuel + 1) line id arguments).Keeps D m := by
  rw [LoxLang.construct]
  refine .bind (Eval.Keeps.update (m.store.grows_addObject _) fun h => h.of_functions rfl) ?_
  intro object m₁ _ _
  refine .viewThen ?_
  split
  · exact .ret
  · refine .bind (Eval.keeps_bindMethod _ _) fun bound m₂ _ _ => ?_
    exact .bind (ih.invoke line bound arguments m₂) fun _ _ _ _ => .ret

theorem Preserves.render_succ (ih : Preserves D fuel) (line : Nat) (value : Value) (m : Machine) :
    (LoxLang.render (fuel + 1) line value).Keeps D m := by
  cases value with
  | object object =>
    rw [LoxLang.render]
    refine .viewThen ?_
    split
    · exact .ret
    · split
      · refine .bind (Eval.keeps_bindMethod _ _) fun bound m₁ _ _ => .deeper fun _ => ?_
        exact .bind (ih.invoke line bound [] _) fun answer m₂ _ _ => ih.render line answer m₂
      · exact .ret
  | _ =>
    rw [LoxLang.render]
    · exact .viewThen .ret
    · simp

theorem Preserves.execute_succ (ih : Preserves D fuel) (s : Stmt) (m : Machine)
    (hs : AllSatisfy D s.declared) : (LoxLang.execute (fuel + 1) s).Keeps D m := by
  cases s with
  | expression value =>
    rw [LoxLang.execute]
    exact .bind (ih.evaluate value m) fun _ _ _ _ => .ret
  | print value =>
    rw [LoxLang.execute]
    refine .bind (ih.evaluate value m) fun answer m₁ _ _ => ?_
    refine .bind (ih.render _ answer m₁) fun _ _ _ _ => ?_
    exact .bind .emit fun _ _ _ _ => .ret
  | declareVar name initializer =>
    cases initializer with
    | none =>
      rw [LoxLang.execute]
      exact .bind .ret fun _ _ _ _ => .bind (Eval.keeps_define _ _) fun _ _ _ _ => .ret
    | some value =>
      rw [LoxLang.execute]
      refine .bind (ih.evaluate value m) fun _ _ _ _ => ?_
      exact .bind (Eval.keeps_define _ _) fun _ _ _ _ => .ret
  | block body =>
    rw [LoxLang.execute]
    exact .bind Eval.keeps_innerFrame fun frame m₁ _ _ => .within (ih.executeAll body _ hs)
  | branch condition thenBranch elseBranch =>
    cases elseBranch with
    | none =>
      rw [LoxLang.execute]
      refine .bind (ih.evaluate condition m) fun _ m₁ _ _ => ?_
      split
      · exact ih.execute thenBranch m₁ hs
      · exact .ret
    | some elseBranch =>
      rw [LoxLang.execute]
      refine .bind (ih.evaluate condition m) fun _ m₁ _ _ => ?_
      split
      · exact ih.execute thenBranch m₁ hs.left
      · exact ih.execute elseBranch m₁ hs.right
  | loop initializer condition increment body =>
    cases initializer with
    | none =>
      rw [LoxLang.execute]
      exact ih.iterate condition increment body m hs
    | some initializer =>
      rw [LoxLang.execute]
      refine .bind Eval.keeps_innerFrame fun frame m₁ _ _ => .within ?_
      refine .bind (ih.execute initializer _ hs.left) fun _ m₂ _ _ => ?_
      exact ih.iterate condition increment body m₂ hs.right
  | declareFunction d =>
    rw [LoxLang.execute]
    refine .viewThen (.bind (.update (m.store.grows_addFunction _) fun h => h.addFunction ?_) ?_)
    · rintro _ ⟨⟩
      exact hs d false (by simp [Stmt.declared])
    · exact fun _ _ _ _ => .bind (Eval.keeps_define _ _) fun _ _ _ _ => .ret
  | returnWith keyword value =>
    cases value with
    | none =>
      rw [LoxLang.execute]
      exact .ret
    | some value =>
      rw [LoxLang.execute]
      exact .bind (ih.evaluate value m) fun _ _ _ _ => .ret
  | breakLoop | continueLoop =>
    rw [LoxLang.execute]
    exact .ret
  | declareClass name base ds =>
    rw [LoxLang.execute]
    refine .bind (Eval.keeps_declareClass name base ds ?_) fun _ _ _ _ => .ret
    exact fun d hd => hs d _ (List.mem_map.mpr ⟨d, hd, rfl⟩)

theorem Preserves.executeAll_succ (ih : Preserves D fuel) (body : List Stmt) (m : Machine)
    (hs : AllSatisfy D (Stmt.allDeclared body)) :
    (LoxLang.executeAll (fuel + 1) body).Keeps D m := by
  cases body with
  | nil =>
    rw [LoxLang.executeAll]
    exact .ret
  | cons s rest =>
    rw [LoxLang.executeAll]
    refine .bind (ih.execute s m hs.left) fun ending m₁ _ _ => ?_
    cases ending with
    | normal => exact ih.executeAll rest m₁ hs.right
    | _ => exact .ret

theorem Preserves.iterate_succ (ih : Preserves D fuel) (c : Expr) (n : Option Stmt) (b : Stmt)
    (m : Machine) (hs : AllSatisfy D (Stmt.optionDeclared n ++ b.declared)) :
    (LoxLang.iterate (fuel + 1) c n b).Keeps D m := by
  cases n with
  | none =>
    rw [LoxLang.iterate]
    refine .bind (ih.evaluate c m) fun _ m₁ _ _ => ?_
    split
    · refine .bind (ih.execute b m₁ hs.right) fun ending m₂ _ _ => ?_
      cases ending with
      | normal | continued => exact ih.iterate c none b m₂ hs
      | broke | returned => exact .ret
    · exact .ret
  | some n =>
    rw [LoxLang.iterate]
    have again : ∀ m₂, (LoxLang.execute fuel n >>= fun _ =>
        LoxLang.iterate fuel c (some n) b).Keeps D m₂ :=
      fun m₂ => .bind (ih.execute n m₂ hs.left) fun _ m₃ _ _ => ih.iterate c (some n) b m₃ hs
    refine .bind (ih.evaluate c m) fun _ m₁ _ _ => ?_
    split
    · refine .bind (ih.execute b m₁ hs.right) fun ending m₂ _ _ => ?_
      cases ending with
      | normal | continued => exact again m₂
      | broke | returned => exact .ret
    · exact .ret

theorem preserves (hD : Hereditary D) (fuel : Nat) : Preserves D fuel := by
  induction fuel with
  | zero =>
    constructor <;> intros <;>
      simp only [LoxLang.evaluate, LoxLang.evaluateAll, LoxLang.call, LoxLang.invoke,
        LoxLang.construct, LoxLang.render, LoxLang.execute, LoxLang.executeAll, LoxLang.iterate] <;>
      exact .outOfFuel
  | succ fuel ih =>
    exact
      { evaluate := ih.evaluate_succ
        evaluateAll := ih.evaluateAll_succ
        call := ih.call_succ
        invoke := ih.invoke_succ hD
        construct := ih.construct_succ
        render := ih.render_succ
        execute := ih.execute_succ
        executeAll := ih.executeAll_succ
        iterate := ih.iterate_succ }

def AnyFunction (_ : Declaration) (_ : Bool) : Prop := True

theorem preserves_any (fuel : Nat) : Preserves AnyFunction fuel :=
  preserves (fun _ _ _ _ _ _ => trivial) fuel

theorem stored_any (s : Store) : s.Stored AnyFunction := fun _ _ _ _ _ => trivial

theorem evaluate_kept {e : Expr} {v : Value} (h : evaluate fuel e m = .answer v m') :
    Kept AnyFunction m m' :=
  ((preserves_any fuel).evaluate e m (stored_any _)).answer h

theorem evaluateAll_kept {es : List Expr} {vs : List Value}
    (h : evaluateAll fuel es m = .answer vs m') : Kept AnyFunction m m' :=
  ((preserves_any fuel).evaluateAll es m (stored_any _)).answer h

theorem execute_kept {s : Stmt} {ending : Ending} (h : execute fuel s m = .answer ending m') :
    Kept AnyFunction m m' :=
  ((preserves_any fuel).execute s m (fun _ _ _ => trivial) (stored_any _)).answer h

theorem executeAll_kept {body : List Stmt} {ending : Ending}
    (h : executeAll fuel body m = .answer ending m') : Kept AnyFunction m m' :=
  ((preserves_any fuel).executeAll body m (fun _ _ _ => trivial) (stored_any _)).answer h

end Keeping

end LoxLang
