import LoxLang.Proofs.Evaluation.Bracing
import LoxLang.Proofs.Session.Settled

set_option autoImplicit false

namespace LoxLang

theorem Setting.Answers.records {E : Setting} {table : HopTable} {lookups : List Lookup}
    (h : E.Answers table) (hknown : E.Knows lookups) : Records table lookups :=
  fun l hl => ⟨(h l (hknown l hl)).1, (h l (hknown l hl)).2.1, (h l (hknown l hl)).2.2⟩

namespace StorePair

def twice (s : Store) : StorePair := ⟨s, s, fun a => a⟩

variable {E : Setting} {T : Tables} {s : Store} {K : Context} {cursor : FrameId}

theorem linked_chain {trail : List FrameId} (h : s.Chain cursor trail) :
    (twice s).Linked (.uniform trail.length) cursor cursor := by
  induction trail generalizing cursor with
  | nil => exact ⟨h, h⟩
  | cons frame outer ih =>
    obtain ⟨rfl, enclosing, henclosing, houter⟩ := h
    exact ⟨rfl, enclosing, enclosing, henclosing, henclosing, ih houter⟩

theorem linked_matches (h : K.Matches E.root s cursor) :
    (twice s).Linked (.uniform K.scopes.length) cursor cursor := by
  rw [h.length]
  exact linked_chain h.chained

theorem shifts_self (hfirst : E.Answers T.first) (hsecond : E.Answers T.second) {d : Declaration}
    (hd : d.Proper) {scopes : List Scope} (hknown : E.Knows (d.lookups scopes)) :
    d.Shifts T (.uniform scopes.length) d :=
  (Declaration.braced_refl d).rewritten.shifts hd (.uniform scopes) (hfirst.records hknown)
    (hsecond.records hknown)

theorem Plain.code {root : Activity → Prop} {id : FunctionId} {f : Function} (h : s.Plain root id)
    (hf : s.function? id = some f) : ∃ d, f.code = .declared d := by
  obtain ⟨fuel, d, m, -, rfl, hlater⟩ := h
  have hmade := hlater.grows.functions _ _ ((Store.function?_addFunction _ _ _).trans (if_pos rfl))
  obtain rfl := Option.some.inj (hmade.symm.trans hf)
  exact ⟨d, rfl⟩

theorem ready_of_callable (hs : E.Sound s) (hfirst : E.Answers T.first) (hsecond : E.Answers T.second)
    {id : FunctionId} {f : Function} (h : E.Callable s id f) : (twice s).Ready T id := by
  refine ⟨f, f, h.found, h.found, ?_⟩
  obtain ⟨code, closure, initializes⟩ := f
  cases code with
  | declared d =>
    obtain ⟨K, -, hready⟩ := h.ready d rfl
    exact ⟨.declared (linked_matches hready.fits) (shifts_self hfirst hsecond hready.proper hready.known),
      hready.fits.chained.frame? hs.globals, rfl⟩
  | array method =>
    rcases h.origin with hplain | ⟨C, name, object, hbound⟩
    · obtain ⟨d, hd⟩ := Plain.code hplain h.found
      cases hd
    · exact ⟨.array, Store.frame?_of_local? hbound.this, rfl⟩

theorem unbound_of_unbound (hfirst : E.Answers T.first) (hsecond : E.Answers T.second) {C : ClassId}
    {name : String} {method : FunctionId} {f : Function} (hf : s.function? method = some f)
    (h : E.Unbound s C name f) : (twice s).Unbound T method := by
  refine ⟨f, f, hf, hf, ?_⟩
  obtain ⟨code, closure, initializes⟩ := f
  cases code with
  | declared d =>
    obtain ⟨K, -, hbindable⟩ := h.ready d rfl
    exact .declared (linked_matches hbindable.fits)
      (shifts_self hfirst hsecond hbindable.proper hbindable.known)
  | array method => exact .array

theorem sound_twice (hs : E.Sound s) (houtermost : s.enclosing? Store.globals = none)
    (hfirst : E.Answers T.first) (hsecond : E.Answers T.second) : (twice s).Sound T where
  there := fun _ ha => ha
  bindings := fun _ _ _ => rfl
  distinct := fun _ _ _ _ h => h
  globals := ⟨hs.globals, rfl⟩
  outermost := houtermost
  outermost' := houtermost
  functions := rfl
  classes := rfl
  objects := rfl
  held := fun v hv => by
    have hfine := hs.held v hv
    cases v with
    | function id =>
      obtain ⟨f, hf⟩ := hfine
      exact ready_of_callable hs hfirst hsecond hf
    | _ => trivial
  methods := fun C c name id hc hid => by
    obtain ⟨f, hf, hunbound⟩ := (hs.classes C c hc).methods name id hid
    exact unbound_of_unbound hfirst hsecond hf hunbound

end StorePair

theorem Eval.tracks_runStatements {T : Tables} {dir : Direction} {fuel fuel' : Nat}
    (hfuel : dir.Suffices T.rate fuel fuel') {K : Layers} {P P' : Program} (h : Stmt.AllShift T K P P')
    {g : FrameId → FrameId} {m m' : Machine} :
    Tracks T dir K (runStatements fuel P) (runStatements fuel' P') (fun _ _ _ => True) g m m' := by
  induction P generalizing P' g m m' with
  | nil =>
    cases h
    exact .ret trivial
  | cons s rest ih =>
    cases h with
    | cons hs hrest => exact .bind ((parallel T hfuel).execute hs) fun _ _ g₁ m₁ m₁' _ _ => ih hrest

theorem Program.resolve_rewritten {loops : Bool} {P P' : Program} (h : Stmt.AllRewritten loops P P')
    (hP : Stmt.AllProper P) (errors : List Diagnostic) :
    P'.resolve = .error errors ↔ P.resolve = .error errors := by
  simp only [Program.resolve, Program.reported_rewritten h hP]
  split <;> simp

theorem Program.Numbered.rewritten {lo hi : ReferenceId} {loops : Bool} {P P' : Program}
    (h : P.Numbered lo hi) (hP : Stmt.AllRewritten loops P P') : P'.Numbered lo hi where
  proper := hP.proper h.proper
  spelled := fun r hr => h.spelled r (hP.references.mem_iff.mp hr)
  drawn := h.drawn.perm (hP.references.map _)

def rewritingRate (loops : Bool) : Nat := if loops then 7 else 3

theorem Tables.rate_eq (T : Tables) : T.rate = rewritingRate T.loops := by
  unfold rate extra rewritingRate
  split <;> rfl

namespace Session

/-- Sessions that runs and globals defined from outside lead to. A value defined from outside is data, a
built-in function or a value that the session has. -/
inductive Hosted : List Performance → Session → Prop
  | start (sink : Sink) (input : Input) (clock : Clock) : Hosted [] (start sink input clock)
  | run {history : List Performance} {s s' : Session} {interactive : Bool} {fuel : Nat}
      {source : String} {errors : List Diagnostic} :
    Hosted history s → s.runAs interactive fuel source = some (errors, s') →
    Hosted ((s.performance? interactive fuel source).toList ++ history) s'
  | defineGlobal {history : List Performance} {s : Session} {name : String} {value : Value} :
    Hosted history s → ¬ isReserved name →
    value.isData = true ∨ (∃ function, value = .native function) ∨ s.machine.store.Holds value →
    Hosted history (s.defineGlobal name value)
  | facing {history : List Performance} {s : Session} (sink : Sink) (input : Input)
      (clock : Clock) :
    Hosted history s → Hosted history (s.facing sink input clock)

variable {history : List Performance} {s : Session} {source : String}

theorem Settled.defineGlobal (hs : s.Settled history) {name : String} (hname : ¬ isReserved name)
    {value : Value} (hvalue : (Setting.of history).Fine s.machine.store value) :
    (s.defineGlobal name value).Settled history :=
  ⟨⟨hs.rest.cursor, hs.rest.calls⟩,
    hs.sound.bind (Store.extends_bind _ _ _ _ fun h => absurd h hname) hvalue, hs.answers, hs.drawn,
    hs.unused⟩

theorem Hosted.settled (hs : s.Hosted history) : s.Settled history := by
  induction hs with
  | start sink input clock => exact settled_start sink input clock
  | run hs h ih => exact ih.run h
  | defineGlobal hs hname hvalue ih =>
    refine ih.defineGlobal hname ?_
    rcases hvalue with hdata | ⟨function, rfl⟩ | hheld
    · exact .of_isData hdata
    · trivial
    · exact ih.sound.held _ hheld
  | facing sink input clock hs ih => exact ih.facing sink input clock

theorem Hosted.outermost (hs : s.Hosted history) :
    s.machine.store.enclosing? Store.globals = none := by
  have hgrows : Store.start.Grows s.machine.store := by
    induction hs with
    | start sink input clock => exact .refl _
    | run hs h ih => exact ih.trans (runAs_grows h)
    | defineGlobal hs hname hvalue ih => exact ih.trans (Store.grows_bind _ _ _ _)
    | facing sink input clock hs ih => exact ih
  exact hgrows.outermost rfl rfl

def runTree (fuel : Nat) (s : Session) (nextId : ReferenceId) (P : Program) :
    Option (List Diagnostic × Session) :=
  match P.resolve with
  | .error errors => some (errors, { s with nextId })
  | .ok hops => perform ⟨s.machine.recordHops hops, nextId⟩ (Eval.runStatements fuel P)

theorem run_eq_runTree {tokens : List Token} {P : Program} {nextId : ReferenceId}
    (htokens : Token.ofSource source = .ok tokens)
    (hP : Program.ofTokens s.nextId tokens = (.ok P, nextId)) (fuel : Nat) :
    s.run fuel source = s.runTree fuel nextId P := by
  simp only [run, prepare, htokens, hP, runTree]
  cases P.resolve <;> rfl

/-- Both runs ended in the same way, with the same printed and read, and left the same globals. -/
structure SameOutcome (a b : List Diagnostic × Session) : Prop where
  reported : b.1 = a.1
  printed : b.2.machine.sink = a.2.machine.sink
  unread : b.2.machine.input = a.2.machine.input
  clock : b.2.machine.clock = a.2.machine.clock
  globals : ∀ name, b.2.global? name = a.2.global? name

theorem SameOutcome.of_beside {T : Tables} {g : FrameId → FrameId} {m m' : Machine}
    (h : m.Beside T g m') (errors : List Diagnostic) (nextId : ReferenceId) :
    SameOutcome (errors, ⟨m, nextId⟩) (errors, ⟨m', nextId⟩) :=
  ⟨rfl, h.sink, h.input, h.clock, fun name => h.sound.local?_eq h.sound.globals name⟩

/-- Either one of the runs is out of fuel, or both have the same outcome. -/
def Abreast (dir : Direction) (a b : Option (List Diagnostic × Session)) : Prop :=
  dir = .forward ∧ a = none ∨ dir = .backward ∧ b = none ∨
    ∃ x y, a = some x ∧ b = some y ∧ SameOutcome x y

theorem abreast_perform {T : Tables} {dir : Direction} {K : Layers} {W : StorePair} {cursor : FrameId}
    {Q : StorePair → Unit → Unit → Prop} {act act' : Eval Unit} {m m' : Machine}
    (h : Outcome.Tracks T dir K W cursor Q (act m) (act' m')) (nextId : ReferenceId) :
    Abreast dir (perform ⟨m, nextId⟩ act) (perform ⟨m', nextId⟩ act') := by
  unfold perform Machine.perform
  generalize act m = o at h ⊢
  generalize act' m' = o' at h ⊢
  cases h with
  | answer _ hm => exact .inr (.inr ⟨_, _, rfl, rfl, .of_beside hm.toBeside [] nextId⟩)
  | @fault fault m₁ m₁' g hm =>
    have hrest : m₁.atRest.Beside T g m₁'.atRest :=
      (hm.moved Store.globals Store.globals).counting fun _ => 0
    exact .inr (.inr ⟨_, _, rfl, rfl, .of_beside hrest [fault.diagnostic] nextId⟩)
  | first hdir => exact .inl ⟨hdir, rfl⟩
  | second hdir => exact .inr (.inl ⟨hdir, rfl⟩)

theorem abreast_runTree (hs : s.Hosted history) {P P' : Program} {nextId : ReferenceId}
    (hnumbered : P.Numbered s.nextId nextId) {loops : Bool} (h : Stmt.AllRewritten loops P P')
    {dir : Direction} {fuel fuel' : Nat} (hfuel : dir.Suffices (rewritingRate loops) fuel fuel') :
    Abreast dir (s.runTree fuel nextId P) (s.runTree fuel' nextId P') := by
  have hsettled := hs.settled
  have hnumbered' := hnumbered.rewritten h
  unfold runTree
  cases hP : P.resolve with
  | error errors =>
    rw [(Program.resolve_rewritten h hnumbered.proper errors).mpr hP]
    exact .inr (.inr ⟨_, _, rfl, rfl, rfl, rfl, rfl, rfl, fun _ => rfl⟩)
  | ok hops =>
    cases hP' : P'.resolve with
    | error errors =>
      rw [(Program.resolve_rewritten h hnumbered.proper errors).mp hP'] at hP
      cases hP
    | ok hops' =>
      let T : Tables := ⟨(s.machine.recordHops hops).hops, (s.machine.recordHops hops').hops, loops⟩
      -- What earlier programs recorded is there in both tables.
      have hfirst : (Setting.of history).Answers T.first := fun l hl =>
        ⟨(hnumbered.kept hP s.machine (.inl (hsettled.drawn l hl))).trans (hsettled.answers l hl).1,
          (hsettled.answers l hl).2⟩
      have hsecond : (Setting.of history).Answers T.second := fun l hl =>
        ⟨(hnumbered'.kept hP' s.machine (.inl (hsettled.drawn l hl))).trans (hsettled.answers l hl).1,
          (hsettled.answers l hl).2⟩
      have hstart : Machine.At T .top (fun a => a) (s.machine.recordHops hops)
          (s.machine.recordHops hops') :=
        ⟨⟨StorePair.sound_twice hsettled.sound hs.outermost hfirst hsecond, rfl, rfl, rfl, rfl, rfl, rfl⟩,
          hsettled.rest.cursor, hsettled.rest.cursor⟩
      have hshift : Stmt.AllShift T .top P P' :=
        h.shifts hnumbered.proper Layers.open_top .top (hnumbered.records hP hsettled.unused)
          (hnumbered'.records hP' hsettled.unused)
      exact abreast_perform (Eval.tracks_runStatements (T.rate_eq ▸ hfuel) hshift hstart) nextId

/-- A rewritten program has the errors and the outcome of the program, and one of the two runs ends only
when the other one does. -/
theorem rewriting_changes_nothing (hs : s.Hosted history) {tokens : List Token} {P P' : Program}
    {nextId : ReferenceId} (htokens : Token.ofSource source = .ok tokens)
    (hP : Program.ofTokens s.nextId tokens = (.ok P, nextId)) {loops : Bool}
    (h : Stmt.AllRewritten loops P P') :
    (∀ errors, P'.resolve = .error errors ↔ P.resolve = .error errors) ∧
      (∀ fuel a, s.run fuel source = some a →
        ∃ b, s.runTree (rewritingRate loops * fuel) nextId P' = some b ∧ SameOutcome a b) ∧
      ∀ fuel b, s.runTree fuel nextId P' = some b → ∃ a, s.run fuel source = some a ∧ SameOutcome a b := by
  have hnumbered := numbered_of_tokens htokens hP
  refine ⟨Program.resolve_rewritten h hnumbered.proper, fun fuel a ha => ?_, fun fuel b hb => ?_⟩
  · rw [run_eq_runTree htokens hP] at ha
    have habreast : Abreast .forward (s.runTree fuel nextId P)
        (s.runTree (rewritingRate loops * fuel) nextId P') :=
      abreast_runTree hs hnumbered h (Nat.le_refl (rewritingRate loops * fuel))
    obtain ⟨-, hnone⟩ | ⟨hdir, -⟩ | ⟨x, y, hx, hy, hsame⟩ := habreast
    · rw [hnone] at ha
      cases ha
    · cases hdir
    · obtain rfl := Option.some.inj (ha.symm.trans hx)
      exact ⟨y, hy, hsame⟩
  · rw [run_eq_runTree htokens hP]
    have habreast : Abreast .backward (s.runTree fuel nextId P) (s.runTree fuel nextId P') :=
      abreast_runTree hs hnumbered h (Nat.le_refl fuel)
    obtain ⟨hdir, -⟩ | ⟨-, hnone⟩ | ⟨x, y, hx, hy, hsame⟩ := habreast
    · cases hdir
    · rw [hnone] at hb
      cases hb
    · obtain rfl := Option.some.inj (hb.symm.trans hy)
      exact ⟨x, hx, hsame⟩

/-- Braces around statements that declare nothing change neither what is reported of a program nor how it
runs: what it prints and reads, how it ends, if it ends at all, and the globals it leaves. -/
theorem braces_change_nothing (hs : s.Hosted history) {tokens : List Token} {P P' : Program}
    {nextId : ReferenceId} (htokens : Token.ofSource source = .ok tokens)
    (hP : Program.ofTokens s.nextId tokens = (.ok P, nextId)) (h : Stmt.AllBraced P P') :
    (∀ errors, P'.resolve = .error errors ↔ P.resolve = .error errors) ∧
      (∀ fuel a, s.run fuel source = some a →
        ∃ b, s.runTree (3 * fuel) nextId P' = some b ∧ SameOutcome a b) ∧
      ∀ fuel b, s.runTree fuel nextId P' = some b → ∃ a, s.run fuel source = some a ∧ SameOutcome a b := by
  have hrewritten : Stmt.AllRewritten false P P' := h.rewritten
  exact rewriting_changes_nothing hs htokens hP hrewritten

/-- Braces around a block, and around a statement in it that reads a variable of the block. -/
theorem braces_change_nothing_twice :
    let name : Token := ⟨.identifier, "a", 1⟩
    let declared : Stmt := .declareVar name none
    let printed : Stmt := .print (.variable ⟨0, name⟩)
    ∃ tokens a b, Token.ofSource "{ var a; print a; }" = .ok tokens ∧
      Program.ofTokens 0 tokens = (.ok [.block [declared, printed]], 1) ∧
      (start .unlimited [] (.ticking 0)).run 6 "{ var a; print a; }" = some a ∧ a.1 = [] ∧
      a.2.machine.sink.text = "nil\n" ∧
      (start .unlimited [] (.ticking 0)).runTree 18 1 [.block [.block [declared, .block [printed]]]] = some b ∧
      SameOutcome a b := by
  intro name declared printed
  have haccepts : (start .unlimited [] (.ticking 0)).accepts "{ var a; print a; }"
      [.block [declared, printed]] := by
    show _ = _
    cbv
  have hnext : ((start .unlimited [] (.ticking 0)).prepare "{ var a; print a; }").2.nextId = 1 := by cbv
  obtain ⟨tokens, -, htokens, hP, -, -⟩ := prepare_ok (prepare_of_accepts haccepts)
  rw [hnext] at hP
  have hrun : ((start .unlimited [] (.ticking 0)).runTree 6 1 [.block [declared, printed]]).map
      (fun r => (r.1, r.2.machine.sink.text)) = some ([], "nil\n") := by
    cbv
  rw [← run_eq_runTree htokens hP] at hrun
  obtain ⟨a, ha, hresult⟩ := Option.map_eq_some_iff.mp hrun
  obtain ⟨herrors, htext⟩ := Prod.mk.inj hresult
  have hprinted : printed.Braced (.block [printed]) := Stmt.braced_block rfl
  have hbody : Stmt.AllBraced [declared, printed] [declared, .block [printed]] :=
    .cons (.bare (Stmt.bracedWithin_refl declared)) (.cons hprinted .nil)
  have hbraced : Stmt.AllBraced [.block [declared, printed]]
      [.block [.block [declared, .block [printed]]]] :=
    .cons (.braces rfl (.block hbody)) .nil
  obtain ⟨-, hforward, -⟩ := braces_change_nothing (.start .unlimited [] (.ticking 0)) htokens hP hbraced
  obtain ⟨b, hb, hsame⟩ := hforward 6 a ha
  exact ⟨tokens, a, b, htokens, hP, ha, herrors, htext, hb, hsame⟩

end Session

end LoxLang
