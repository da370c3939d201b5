import LoxLang.Proofs.Session.Environments

set_option autoImplicit false

namespace LoxLang

/-- The place is in the initializer of a variable, and all other names in the open scopes are defined. -/
def Context.Initializes (K : Context) (name : Token) : Prop :=
  ∃ K₀ : Context, AllDefined K₀.scopes ∧ K = K₀.initializing name

def Task.isStatement : Task → Bool
  | .execute _ | .executeAll _ | .iterate _ _ _ => true
  | _ => false

/-- All names in the open scopes are defined, but for a variable in its own initializer. -/
def Activity.Initialized (a : Activity) (K : Context) : Prop :=
  AllDefined K.scopes ∨ a.task.isStatement = false ∧ ∃ name, K.Initializes name

theorem AllDefined.inClass {K : Context} (h : AllDefined K.scopes) (name : Token)
    (base : Option Reference) (frame : FrameId) : AllDefined (K.inClass name base frame).scopes := by
  cases base with
  | none => exact h.mark _
  | some _ => exact (h.mark _).oneName "super"

namespace Activity

variable {a b : Activity} {K : Context}

theorem Initialized.statement (h : a.Initialized K) (ha : a.task.isStatement = true) :
    AllDefined K.scopes := by
  rcases h with h | ⟨hnot, -⟩
  · exact h
  · rw [ha] at hnot
    cases hnot

theorem Initialized.part {change : Context → Context} (h : a.Initialized K) (henters : a.Enters change b) :
    b.Initialized (change K) := by
  cases henters with
  | expression | printed | print | branchCondition | branchThen | branchElse | loop | returned | head
  | loopCondition | body | increment | again | incremented => exact .inl (h.statement rfl)
  | @declareVar _ _ name => exact .inr ⟨rfl, name, K, h.statement rfl, rfl⟩
  | block | loopStart => exact .inl ((h.statement rfl).push (by simp))
  | @started _ _ _ i => exact .inl (((h.statement rfl).push (by simp)).stmt i)
  | @tail _ _ _ s => exact .inl ((h.statement rfl).stmt s)
  | _ => exact h.imp id fun ⟨_, hinit⟩ => ⟨rfl, hinit⟩

end Activity

mutual
theorem Activity.Stands.initialized {root : Activity → Prop} :
    ∀ {a : Activity} {K : Context}, a.Stands root K → a.Initialized K
  | _, _, .top _ => .inl fun scope hscope => by simp [Context.top] at hscope
  | _, _, @Activity.Stands.part _ _ _ _ _ h henters => h.initialized.part henters
  | _, _, .body _ _ hcloses => .inl (hcloses.allDefined.parameters _)

theorem Closes.allDefined {root : Activity → Prop} :
    ∀ {id : FunctionId} {s : Store} {K : Context}, Closes root id s K → AllDefined K.scopes
  | _, _, _, .function h _ _ => (h.initialized.statement rfl).mark _
  | _, _, _, .method h _ _ _ _ _ => h.allDefined.oneName "this"

theorem Forms.allDefined {root : Activity → Prop} :
    ∀ {C : ClassId} {s : Store} {K : Context}, Forms root C s K → AllDefined K.scopes
  | _, _, _, .declaration h _ _ => (h.initialized.statement rfl).inClass _ _ _
end

theorem Activity.Initialized.undefined {a : Activity} {K : Context} {name : String} {d : Nat} {scope : Scope}
    (h : a.Initialized K) (hscope : K.scopes[d]? = some scope) (hname : scope.get? name = some false) :
    d = 0 ∧ ∃ token : Token, token.lexeme = name ∧ K.Initializes token := by
  rcases h with h | ⟨-, token, K₀, hK₀, rfl⟩
  · exact absurd hname (h scope (List.mem_of_getElem? hscope) name)
  · simp only [Context.initializing] at hscope
    cases hscopes : K₀.scopes with
    | nil => simp [hscopes, markName] at hscope
    | cons first outer =>
      rw [hscopes] at hK₀
      simp only [hscopes, markName] at hscope
      cases d with
      | zero =>
        obtain rfl : first.insert token.lexeme false = scope := by simpa using hscope
        rw [Dictionary.get?_insert] at hname
        split at hname
        · rename_i hsame
          exact ⟨rfl, token, hsame, K₀, hscopes ▸ hK₀, rfl⟩
        · exact absurd hname (hK₀ first List.mem_cons_self name)
      | succ d =>
        have hmem : scope ∈ outer := List.mem_of_getElem? (by simpa using hscope)
        exact absurd hname (hK₀ scope (List.mem_cons_of_mem _ hmem) name)

namespace Activity

/-- A recorded assignment gives the variable its value, unless it stands in the initializer of that
variable. -/
theorem Refers.assigns {E : Setting} {a : Activity} {K : Context} {target : Reference} {m : Machine}
    {d : Nat} (h : a.Refers .assign target m) (ha : a.Sits E K)
    (hd : m.hops[target.id]? = some d) :
    ∃ frame, Leads K .assign target m d frame ∧
      ((m.store.local? frame target.name.lexeme).isSome = true ∧
          (∀ v, Eval.assign target v m =
            .answer () { m with store := m.store.bind frame target.name.lexeme v }) ∨
        d = 0 ∧ ∃ name : Token, name.lexeme = target.name.lexeme ∧ K.Initializes name) := by
  obtain ⟨frame, hleads⟩ := h.leads ha hd
  obtain ⟨hstep, -⟩ := h.step ha
  have hfits : K.Matches E.root m.store m.cursor := hstep.cursor ▸ ha.fits.extend hstep.later
  obtain ⟨scope, other, hscope, hother, -⟩ := hfits.found hleads.distance
  obtain rfl : frame = other := Option.some.inj (hleads.activation.symm.trans hother)
  have hcontains := contains_of_distanceIn hleads.distance hscope
  unfold Dictionary.contains at hcontains
  refine ⟨frame, hleads, ?_⟩
  -- The scope that was found has the name: bound since it was defined, or else under initialization.
  cases hget : scope.get? target.name.lexeme with
  | none => simp [hget] at hcontains
  | some defined =>
    cases defined with
    | false => exact .inr (ha.stands.initialized.undefined hscope hget)
    | true =>
      have hbound := hfits.bound d scope frame hscope hother _ hget
      refine .inl ⟨hbound, fun v => ?_⟩
      have hholder : m.store.holderAt m.cursor d target.name.lexeme = .ok frame := by
        simp [Store.holderAt, hleads.arrives, hbound]
      have hview : Eval.view Machine.cursor m = .answer m.cursor m := rfl
      have hview' : Eval.view Machine.hops m = .answer m.hops m := rfl
      unfold Eval.assign
      rw [Eval.bind_of_answer hview, Eval.bind_of_answer hview', hd]
      change (Eval.ofExcept _ (m.store.holderAt m.cursor d target.name.lexeme) >>= _) m = _
      rw [hholder]
      rfl

end Activity

namespace Session

variable {s : Session} {history : List Performance} {p : Performance}

/-- In a session that any runs led to, whenever an accepted program evaluates an assignment with a recorded
hop count and has computed its value, that many links lead to the environment of the scope in which the name
was found, the name is bound there and the assignment succeeds; or else the assignment stands in the
initializer of just that variable. -/
theorem assignments_succeed (hs : s.After history) {interactive : Bool} {fuel : Nat} {source : String}
    (hp : s.performance? interactive fuel source = some p) {a : Activity} (ha : a.Visited p.Begins) :
    ∃ K, a.Stands (Setting.of (p :: history)).root K ∧
      ∀ target m d, a.Refers .assign target m → m.hops[target.id]? = some d →
        ∃ frame, Activity.Leads K .assign target m d frame ∧
          ((m.store.local? frame target.name.lexeme).isSome = true ∧
              (∀ v, Eval.assign target v m =
                .answer () { m with store := m.store.bind frame target.name.lexeme v }) ∨
            d = 0 ∧ ∃ name : Token, name.lexeme = target.name.lexeme ∧ K.Initializes name) := by
  obtain ⟨K, hsits⟩ := visited_sits hs hp ha
  exact ⟨K, hsits.stands, fun target m d hrefers hd => hrefers.assigns hsits hd⟩

/-- A variable of a block is assigned in the block. -/
theorem assignments_succeed_block :
    ∃ (p : Performance) (a : Activity) (m : Machine) (K : Context) (frame : FrameId),
      (start .unlimited [] (.ticking 0)).performance? false 6 "{ var a; a = nil; }" = some p ∧
      a.Visited p.Begins ∧ a.Stands (Setting.of [p]).root K ∧
      a.Refers .assign ⟨1, ⟨.identifier, "a", 1⟩⟩ m ∧ m.hops[1]? = some 0 ∧
      Activity.Leads K .assign ⟨1, ⟨.identifier, "a", 1⟩⟩ m 0 frame := by
  let name : Token := ⟨.identifier, "a", 1⟩
  let write : Stmt := .expression (.assign ⟨1, name⟩ (.literal .nil))
  have haccepts : (start .unlimited [] (.ticking 0)).accepts "{ var a; a = nil; }"
      [.block [.declareVar name none, write]] := by
    show _ = _
    cbv
  obtain ⟨m, hm⟩ : ∃ m, ((start .unlimited [] (.ticking 0)).prepare "{ var a; a = nil; }").2.machine = m := ⟨_, rfl⟩
  have hhops : m.hops[1]? = some 0 := by
    rw [← hm]
    cbv
  let p : Performance := ⟨false, 6, [.block [.declareVar name none, write]], m⟩
  have hp : (start .unlimited [] (.ticking 0)).performance? false 6 "{ var a; a = nil; }" = some p := by
    rw [performance?_of_accepts haccepts, hm]
  let m₁ : Machine :=
    { m.inner with store := m.inner.store.bind m.inner.cursor "a" .nil }
  have hdeclared : execute 4 (.declareVar name none) m.inner = .answer .normal m₁ := by
    rw [execute]
    rfl
  have hblock : Activity.Visited p.Begins ⟨6, .execute (.block [.declareVar name none, write]), m⟩ :=
    .root (.statements rfl .statement)
  have hwrite : Activity.Visited p.Begins ⟨2, .evaluate (.assign ⟨1, name⟩ (.literal .nil)), m₁⟩ :=
    (((hblock.part .block).part (.tail hdeclared)).part .head).part .expression
  have hrefers : Activity.Refers ⟨2, .evaluate (.assign ⟨1, name⟩ (.literal .nil)), m₁⟩ .assign ⟨1, name⟩
      m₁ := .assign (v := .nil) (by rw [evaluate]; rfl)
  obtain ⟨K, hstands, hassigns⟩ := assignments_succeed (.start .unlimited [] (.ticking 0)) hp hwrite
  obtain ⟨frame, hframe, -⟩ := hassigns ⟨1, name⟩ m₁ 0 hrefers hhops
  exact ⟨p, _, m₁, K, frame, hp, hwrite, hstands, hrefers, hhops, hframe⟩

/-- The value of a variable can assign to the variable: that is accepted, the recorded link leads to the
environment in which the name is not bound yet, and the assignment fails. -/
theorem assignment_in_initializer_fails :
    ∃ (p : Performance) (a : Activity) (m : Machine) (frame : FrameId),
      (start .unlimited [] (.ticking 0)).performance? false 6 "{ var x = x = nil; }" = some p ∧
      a.Visited p.Begins ∧ a.Refers .assign ⟨1, ⟨.identifier, "x", 1⟩⟩ m ∧ m.hops[1]? = some 0 ∧
      m.store.ancestor? 0 m.cursor = some frame ∧ m.store.local? frame "x" = none ∧
      ∃ m', p.act p.machine = .fault (.runtime 1 (.undefinedVariable "x")) m' := by
  let name : Token := ⟨.identifier, "x", 1⟩
  let value : Expr := .assign ⟨1, name⟩ (.literal .nil)
  have haccepts : (start .unlimited [] (.ticking 0)).accepts "{ var x = x = nil; }"
      [.block [.declareVar name (some value)]] := by
    show _ = _
    cbv
  obtain ⟨m, hm⟩ : ∃ m, ((start .unlimited [] (.ticking 0)).prepare "{ var x = x = nil; }").2.machine = m :=
    ⟨_, rfl⟩
  have hhops : m.inner.hops[1]? = some 0 := by
    rw [← hm]
    cbv
  let p : Performance := ⟨false, 6, [.block [.declareVar name (some value)]], m⟩
  have hp : (start .unlimited [] (.ticking 0)).performance? false 6 "{ var x = x = nil; }" = some p := by
    rw [performance?_of_accepts haccepts, hm]
  have hblock : Activity.Visited p.Begins ⟨6, .execute (.block [.declareVar name (some value)]), m⟩ :=
    .root (.statements rfl .statement)
  have hwrite : Activity.Visited p.Begins ⟨3, .evaluate value, m.inner⟩ :=
    ((hblock.part .block).part .head).part .declareVar
  have hvalue : evaluate 2 (.literal .nil) m.inner = .answer .nil m.inner := by
    rw [evaluate]
    rfl
  have hunbound : m.inner.store.local? m.inner.cursor "x" = none := by
    change (m.store.addFrame (some m.cursor)).2.local? ⟨m.store.frames.size⟩ "x" = none
    rw [Store.local?_addFrame]
    simp [Store.local?, Store.frame?]
  have hfails : evaluate 3 value m.inner = .fault (.runtime 1 (.undefinedVariable "x")) m.inner := by
    rw [evaluate, Eval.bind_of_answer hvalue]
    simp [Bind.bind, Eval.andThen, Eval.assign, Eval.view, hhops, Store.holderAt, Store.ancestor?, hunbound,
      Eval.ofExcept, Eval.fail, name]
  have hdeclare : execute 4 (.declareVar name (some value)) m.inner =
      .fault (.runtime 1 (.undefinedVariable "x")) m.inner := by
    simp [execute, Bind.bind, Eval.andThen, hfails]
  have hbody : execute 6 (.block [.declareVar name (some value)]) m =
      .fault (.runtime 1 (.undefinedVariable "x")) { m.inner with cursor := m.cursor } := by
    have hinner : Eval.innerFrame m = .answer m.inner.cursor { m.inner with cursor := m.cursor } := rfl
    have hall : executeAll 5 [.declareVar name (some value)] m.inner =
        .fault (.runtime 1 (.undefinedVariable "x")) m.inner := by
      simp [executeAll, Bind.bind, Eval.andThen, hdeclare]
    rw [execute, Eval.bind_of_answer hinner]
    unfold Eval.within
    dsimp only
    erw [hall]
  refine ⟨p, _, m.inner, m.inner.cursor, hp, hwrite, .assign hvalue, hhops, rfl, hunbound,
    { m.inner with cursor := m.cursor }, ?_⟩
  change Eval.runStatements 6 [.block [.declareVar name (some value)]] m = _
  simp [Eval.runStatements, Bind.bind, Eval.andThen, hbody]

end Session

end LoxLang
