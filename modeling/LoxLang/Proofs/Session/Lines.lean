import LoxLang.Proofs.Evaluation.Blaming
import LoxLang.Proofs.Scope.Renaming
import LoxLang.Proofs.Session.Environments
import LoxLang.Proofs.Syntax.Blindness
import LoxLang.Proofs.Token.Joining

/-!
The lines of what is reported.

No stage computes with line numbers, they only pass them on: with other numbers on the tokens the same is
reported with these other numbers. So whatever keeps the lines of a text keeps the lines of all that is
reported of it. One line does not come from a token: that of a literal.
-/

set_option autoImplicit false

namespace LoxLang

/-- The object has a method `toString` that answers the object. -/
structure Machine.ShowsItself (m : Machine) (object : ObjectId) (method : FunctionId) (closure : FrameId) :
    Prop where
  found : m.store.methodOf? object toStringName = some method
  code : ∃ name word keyword, m.store.function? method =
      some ⟨.declared (.mk name [] [.returnWith word (some (.this keyword))]), closure, false⟩ ∧
    keyword.name.lexeme = "this" ∧ m.hops[keyword.id]? = some 1

namespace Machine.ShowsItself

variable {m : Machine} {object : ObjectId} {method : FunctionId} {closure : FrameId}

theorem invoke (h : m.ShowsItself object method closure) (fuel line : Nat) :
    ∃ bound m₁ m₂, Eval.bindMethod method object m = .answer bound m₁ ∧ m₁.calls = m.calls ∧
      LoxLang.invoke (fuel + 4) line bound [] m₁.deeper = .answer (.object object) m₂ ∧
      m₂.calls = m.calls + 1 ∧ m₂.ShowsItself object method closure := by
  obtain ⟨hfound, name, word, keyword, hf, hthis, hhops⟩ := h
  let inner : FrameId := ⟨m.store.frames.size⟩
  let code : Code := .declared (.mk name [] [.returnWith word (some (.this keyword))])
  let s₁ := (m.store.addFrame (some closure)).2.bind inner "this" (.object object)
  let s₂ := (s₁.addFunction ⟨code, inner, false⟩).2
  let s₃ := (s₂.addFrame (some inner)).2
  let frame : FrameId := ⟨s₂.frames.size⟩
  let m₁ : Machine := { m with store := s₂ }
  let m₂ : Machine := { m₁.deeper with store := s₃ }
  have hbind : Eval.bindMethod method object m = .answer ⟨m.store.functions.size⟩ m₁ := by
    have hstore : m.store.bindMethod method object = _ := Store.bindMethod_eq hf
    simp only [Eval.bindMethod, Eval.update, hstore]
    rfl
  have hbound : m₁.deeper.store.function? ⟨m.store.functions.size⟩ = some ⟨code, inner, false⟩ := by
    change (s₁.addFunction _).2.function? _ = _
    rw [Store.function?_addFunction]
    exact if_pos rfl
  have hlookup : s₃.lookupAt frame 1 "this" = .ok (.object object) := by
    have hup : s₃.ancestor? 1 frame = some inner := by
      simp only [Store.ancestor?, s₃, Store.enclosing?_addFrame, frame, if_pos]
    have hlocal : s₃.local? inner "this" = some (.object object) := by
      simp only [s₃, Store.local?_addFrame]
      change s₁.local? inner "this" = _
      simp only [s₁, Store.local?_bind, inner, Store.frame?_addFrame]
      simp
    simp [Store.lookupAt, Store.holderAt, hup, hlocal, Store.read]
  have hread : evaluate (fuel + 1) (.this keyword) { m₂ with cursor := frame } =
      .answer (.object object) { m₂ with cursor := frame } := by
    have hfound : ({ m₂ with cursor := frame } : Machine).hops[keyword.id]? = some 1 := hhops
    rw [evaluate, Eval.lookUp_of_some hfound, hthis]
    change Eval.ofExcept _ (s₃.lookupAt frame 1 "this") _ = _
    rw [hlookup]
    rfl
  have hreturn : execute (fuel + 2) (.returnWith word (some (.this keyword))) { m₂ with cursor := frame } =
      .answer (.returned (.object object)) { m₂ with cursor := frame } := by
    rw [execute, Eval.bind_of_answer hread]
    rfl
  have hbody : executeAll (fuel + 3) [.returnWith word (some (.this keyword))]
      { m₂ with cursor := frame } = .answer (.returned (.object object)) { m₂ with cursor := frame } := by
    rw [executeAll, Eval.bind_of_answer hreturn]
    rfl
  have hinvoke : LoxLang.invoke (fuel + 4) line ⟨m.store.functions.size⟩ [] m₁.deeper =
      .answer (.object object) m₂ := by
    have hview : Eval.view Machine.store m₁.deeper = .answer m₁.deeper.store m₁.deeper := rfl
    have hframe : Eval.parameterFrame inner [] [] m₁.deeper = .answer frame m₂ := rfl
    have hwithin := Eval.within_of_answer (m := m₂) hbody
    rw [LoxLang.invoke, Eval.bind_of_answer hview, hbound]
    change (Eval.parameterFrame inner [] [] >>= _) m₁.deeper = _
    rw [Eval.bind_of_answer hframe]
    exact (Eval.bind_of_answer hwithin).trans rfl
  have hclasses : s₃.classes = m.store.classes := rfl
  have hobjects : s₃.objects = m.store.objects := rfl
  have hfound₂ : s₃.methodOf? object toStringName = some method :=
    (Store.methodOf?_of_classes hclasses hobjects _ _).trans hfound
  refine ⟨_, m₁, m₂, hbind, rfl, hinvoke, rfl, hfound₂, name, word, keyword, ?_, hthis, hhops⟩
  have hgrows := m.store.grows_bindMethod method object
  rw [Store.bindMethod_eq hf] at hgrows
  exact hgrows.functions method _ hf

theorem render_eq (h : m.ShowsItself object method closure) (fuel line : Nat) {bound : FunctionId}
    {m₁ : Machine} (hbind : Eval.bindMethod method object m = .answer bound m₁) :
    LoxLang.render (fuel + 1) line (.object object) m =
      Eval.deeper line (LoxLang.invoke fuel line bound [] >>= LoxLang.render fuel line) m₁ := by
  have harity : m.store.functionArity method = 0 := by
    obtain ⟨name, word, keyword, hf, -, -⟩ := h.code
    simp [Store.functionArity, hf, Function.arity, Declaration.parameters]
  have hview : Eval.view Machine.store m = .answer m.store m := rfl
  rw [LoxLang.render, Eval.bind_of_answer hview]
  simp only [h.found, harity, if_true]
  rw [Eval.bind_of_answer hbind]

/-- Printing the object takes more calls than may be in progress, and fails on the line of the print. -/
theorem render (h : m.ShowsItself object method closure) (line : Nat) {left fuel : Nat}
    (hleft : m.calls + left = callLimit) (hfuel : left ≤ fuel) :
    ∃ m', LoxLang.render (fuel + 5) line (.object object) m = .fault (.runtime line .stackOverflow) m' := by
  induction left generalizing m fuel with
  | zero =>
    obtain ⟨bound, m₁, -, hbind, hcalls, -, -, -⟩ := h.invoke fuel line
    have hfull : callLimit ≤ m₁.calls := by omega
    refine ⟨m₁, ?_⟩
    rw [h.render_eq (fuel + 4) line hbind, Eval.deeper, if_pos hfull]
  | succ left ih =>
    obtain ⟨fuel, rfl⟩ : ∃ more, fuel = more + 1 := ⟨fuel - 1, by omega⟩
    obtain ⟨bound, m₁, m₂, hbind, hcalls, hinvoke, hcalls₂, hshows⟩ := h.invoke (fuel + 1) line
    obtain ⟨m', hfault⟩ : ∃ m', LoxLang.render (fuel + 5) line (.object object) m₂ =
        .fault (.runtime line .stackOverflow) m' := ih hshows (by omega) (by omega)
    have hroom : ¬callLimit ≤ m₁.calls := by omega
    refine ⟨{ m' with calls := m'.calls - 1 }, ?_⟩
    have hbody : (LoxLang.invoke (fuel + 5) line bound [] >>= LoxLang.render (fuel + 5) line)
        { m₁ with calls := m₁.calls + 1 } = .fault (.runtime line .stackOverflow) m' :=
      (Eval.bind_of_answer hinvoke).trans hfault
    rw [h.render_eq (fuel + 5) line hbind, Eval.deeper, if_neg hroom, hbody]

end Machine.ShowsItself

namespace Session

variable {sink : Sink} {input : Input} {clock : Clock} {fuel : Nat} {source : String} {P : Program} {s' : Session}
  {errors : List Diagnostic} {φ : Nat → Nat}

theorem fixed_of_map {α : Type} {f : α → α} {xs : List α} (h : xs.map f = xs) : ∀ x ∈ xs, f x = x :=
  List.map_inj_left.mp (h.trans (List.map_id xs).symm)

/-- The numbers of the lines of a text stay. -/
def KeepsLines (φ : Nat → Nat) (source : String) : Prop :=
  ∀ line, 1 ≤ line → line ≤ Token.linesOf source → φ line = line

theorem KeepsLines.tokens (hφ : KeepsLines φ source) {tokens : List Token}
    (h : Token.ofSource source = .ok tokens) : tokens.map (Token.relabel (.ofLines φ)) = tokens := by
  refine (List.map_congr_left fun t ht => ?_).trans (List.map_id tokens)
  obtain ⟨hlow, hhigh⟩ := Token.line_le h t ht
  simp [Token.relabel, Relabeling.ofLines, hφ t.line hlow hhigh]

theorem KeepsLines.lexical (hφ : KeepsLines φ source) (h : Token.ofSource source = .error errors) :
    ∀ d ∈ errors, d.relabel (.ofLines φ) = d := by
  intro d hd
  have hitem := mem_failures.mp ((Token.ofSource_error h).1 ▸ hd)
  obtain ⟨n, hlow, hhigh, ⟨_, ⟨⟩, -⟩ | ⟨cause, ⟨⟩⟩⟩ := Token.standsOn_of_mem_scan hitem
  simp [Diagnostic.relabel, Relabeling.ofLines, hφ n hlow hhigh]

theorem KeepsLines.parsed (hφ : KeepsLines φ source) {tokens : List Token} {n : ReferenceId}
    (h : Token.ofSource source = .ok tokens) :
    relabelResult (.ofLines φ) (Program.ofTokens n tokens) = Program.ofTokens n tokens := by
  have hnil : tokens ≠ [] := by
    obtain ⟨front, last, rfl, -⟩ := Token.ofSource_front h
    simp
  have hblind := Program.ofTokens_relabel (φ := φ) n tokens fun hempty => absurd hempty hnil
  rw [hφ.tokens h] at hblind
  exact hblind.symm

theorem KeepsLines.built (hφ : KeepsLines φ source) {tokens : List Token} {n next : ReferenceId}
    (h : Token.ofSource source = .ok tokens) (htree : Program.ofTokens n tokens = (.ok P, next)) :
    Stmt.relabelAll (.ofLines φ) P = P := by
  have hparsed := hφ.parsed (n := n) h
  rw [htree] at hparsed
  simp only [relabelResult, Prod.mk.injEq, Except.ok.injEq] at hparsed
  exact hparsed.1

theorem KeepsLines.prepared (hφ : KeepsLines φ source) {s : Session}
    (h : s.prepare source = (.error errors, s')) : ∀ d ∈ errors, d.relabel (.ofLines φ) = d := by
  -- Stage by stage: with the lines changed each stage reports the same with the lines changed, and the
  -- tokens are the same.
  obtain ⟨-, hlexical | ⟨tokens, htokens, hgrammatical | ⟨P, htree, hstatic⟩⟩⟩ := prepare_error h
  · exact hφ.lexical hlexical
  · have hparsed := hφ.parsed (n := s.nextId) htokens
    rw [hgrammatical] at hparsed
    simp only [relabelResult, Prod.mk.injEq, Except.error.injEq] at hparsed
    exact fixed_of_map hparsed.1
  · have hresolved := Program.resolve_relabelAll_eq (.ofLines φ) P
    rw [hφ.built htokens htree, hstatic] at hresolved
    exact fixed_of_map (Except.error.inj hresolved).symm

theorem KeepsLines.tree (hφ : KeepsLines φ source) {s : Session} (h : s.prepare source = (.ok P, s')) :
    Stmt.relabelAll (.ofLines φ) P = P := by
  obtain ⟨tokens, hops, htokens, htree, -, -⟩ := prepare_ok h
  exact hφ.built htokens htree

/-- While an accepted program runs, everything fails on a line of its text, or while something is shown on
line 0. -/
theorem KeepsLines.performed (hφ : KeepsLines φ source) {s : Session} {history : List Performance}
    (hs : s.After history) (hstored : s.machine.store.Stored (Declaration.FixedBy φ)) {p : Performance}
    (hp : s.performance? false fuel source = some p) {line : Nat} {cause : RuntimeError} {m' : Machine}
    (hfault : p.act p.machine = .fault (.runtime line cause) m') :
    φ line = line ∨ line = 0 ∧ cause = .stackOverflow ∧
      ∃ print : Activity, print.Visited p.Begins ∧ print.Overflows := by
  obtain ⟨s₁, hprepare, hm⟩ := performance?_some hp
  have hinteractive : p.interactive = false := by
    unfold performance? at hp
    split at hp <;> cases hp
    rfl
  have htree := hφ.tree hprepare
  obtain ⟨_, hops, -, -, -, hrecorded⟩ := prepare_ok hprepare
  have hstored : p.machine.store.Stored (Declaration.FixedBy φ) := by
    rw [← hm, hrecorded]
    exact hstored
  have hsatisfies : ∀ b : Activity, b.Visited p.Begins → b.Satisfies (Declaration.FixedBy φ) := fun b hb =>
    hb.satisfies Declaration.hereditary_fixed fun c hc =>
      hc.satisfies Declaration.hereditary_fixed hstored (Stmt.allDeclared_fixed htree)
  have hact : p.act = Eval.runStatements p.fuel p.program := by simp [Performance.act, hinteractive]
  rw [hact] at hfault
  obtain ⟨a, m₁, hbegins, ha⟩ := Program.exists_fault hfault
  have hroot : a.Visited p.Begins :=
    .root (.statements (by simp [Performance.echoed?, hinteractive]) hbegins)
  exact hroot.fault_line (fun b hb => visited_sits hs hp hb) (fun b hb => (hsatisfies b hb).stored)
    (hbegins.fixed htree) ha

theorem line_of_relabel {d : Diagnostic} {line : Nat} (h : d.relabel (.ofLines φ) = d)
    (hline : d.line? = some line) : φ line = line := by
  cases d with
  | lexical n cause | runtime n cause =>
    obtain rfl : n = line := by simpa [Diagnostic.line?] using hline
    simpa [Diagnostic.relabel, Relabeling.ofLines] using h
  | grammatical t cause | static t cause =>
    obtain rfl : t.line = line := by simpa [Diagnostic.line?] using hline
    have htoken : t.relabel (.ofLines φ) = t := by simpa [Diagnostic.relabel] using h
    exact congrArg Token.line htoken
  | io cause | encoding cause => simp [Diagnostic.line?] at hline

/-- Whatever running a source text in a new session reports with a line, the line is one of the text. The
exception is that there are too many calls on line 0: this is reported while a `print` statement is executed
whose expression has the line of a literal, by a call of `toString` that is refused for what it shows. -/
theorem diagnostics_placed (h : (start sink input clock).run fuel source = some (errors, s')) :
    ∀ d ∈ errors, ∀ line, d.line? = some line →
      1 ≤ line ∧ line ≤ 1 + Lexeme.newlines source.toList ∨
        d = .runtime 0 .stackOverflow ∧
          ∃ p, (start sink input clock).performance? false fuel source = some p ∧
            ∃ print : Activity, print.Visited p.Begins ∧ print.Overflows := by
  intro d hd line hline
  -- Lines beyond the text are changed to its last one, and line 0 to its first one.
  let φ (n : Nat) : Nat := max 1 (min n (Token.linesOf source))
  have hkeeps : KeepsLines φ source := by
    intro n hlow hhigh
    simp only [φ]
    omega
  have hplaced : ∀ n, φ n = n → 1 ≤ n ∧ n ≤ 1 + Lexeme.newlines source.toList := by
    intro n hn
    have hlines : Token.linesOf source = 1 + Lexeme.newlines source.toList := Nat.add_comm _ _
    simp only [φ] at hn
    omega
  have hstored : (start sink input clock).machine.store.Stored (Declaration.FixedBy φ) :=
    Store.stored_start _
  have hrun : (start sink input clock).runAs false fuel source = some (errors, s') := h
  rcases runAs_some hrun with ⟨-, hrefused⟩ | ⟨p, s₁, hp, -, hm, hperform⟩
  · exact .inl (hplaced line (line_of_relabel (hkeeps.prepared hrefused d hd) hline))
  · obtain ⟨-, ⟨-, rfl⟩ | ⟨fault, after, hfault, -, rfl⟩⟩ := perform_some hperform
    · simp at hd
    obtain rfl := List.mem_singleton.mp hd
    cases fault with
    | io cause => simp [Fault.diagnostic, Diagnostic.line?] at hline
    | runtime n cause =>
      obtain rfl : n = line := by simpa [Fault.diagnostic, Diagnostic.line?] using hline
      rw [hm] at hfault
      rcases hkeeps.performed (.start sink input clock) hstored hp hfault with hn | ⟨rfl, rfl, hprint⟩
      · exact .inl (hplaced n hn)
      · exact .inr ⟨rfl, p, hp, hprint⟩

/-- A name that nothing binds, on the second line. -/
theorem diagnostics_placed_second :
    ∃ s', (start .unlimited [] (.ticking 0)).run 3 "\nb;" = some ([.runtime 2 (.undefinedVariable "b")], s') ∧
      (1 ≤ 2 ∧ 2 ≤ 1 + Lexeme.newlines "\nb;".toList ∨
        Diagnostic.runtime 2 (.undefinedVariable "b") = .runtime 0 .stackOverflow ∧
          ∃ p, (start .unlimited [] (.ticking 0)).performance? false 3 "\nb;" = some p ∧
            ∃ print : Activity, print.Visited p.Begins ∧ print.Overflows) := by
  have hrun : ((start .unlimited [] (.ticking 0)).run 3 "\nb;").map Prod.fst =
      some [.runtime 2 (.undefinedVariable "b")] := by
    cbv
  obtain ⟨⟨errors, s'⟩, h, rfl⟩ := Option.map_eq_some_iff.mp hrun
  exact ⟨s', h, diagnostics_placed h _ (List.mem_singleton.mpr rfl) 2 rfl⟩

def showingItself : Declaration :=
  .mk ⟨.identifier, "toString", 1⟩ []
    [.returnWith ⟨.keyword .returnWord, "return", 1⟩ (some (.this ⟨0, ⟨.keyword .thisWord, "this", 1⟩⟩))]

def madeByLiteral : Expr :=
  .conditional (.literal (.boolean true))
    (some (.call (.variable ⟨1, ⟨.identifier, "A", 1⟩⟩) ⟨.mark .rightParen, ")", 1⟩ [])) (.literal .nil)

theorem madeByLiteral_showsItself (fuel : Nat) :
    ∃ m₁ m₂, execute (fuel + 5) (.declareClass ⟨.identifier, "A", 1⟩ none [showingItself])
        ((Machine.start .unlimited [] (.ticking 0)).recordHops [(0, 1)]) = .answer .normal m₁ ∧
      evaluate (fuel + 4) madeByLiteral m₁ = .answer (.object ⟨0⟩) m₂ ∧ m₂.calls = 0 ∧
      m₂.ShowsItself ⟨0⟩ ⟨6⟩ ⟨0⟩ := by
  have hreached :
      ((execute (fuel + 5) (.declareClass ⟨.identifier, "A", 1⟩ none [showingItself])
          ((Machine.start .unlimited [] (.ticking 0)).recordHops [(0, 1)])).answer?.bind fun declared =>
        (evaluate (fuel + 4) madeByLiteral declared.2).answer?.map fun made =>
          (declared.1, made.1, made.2.calls, made.2.store.methodOf? ⟨0⟩ toStringName,
            made.2.store.function? ⟨6⟩, made.2.hops[0]?)) =
      some (.normal, .object ⟨0⟩, 0, some ⟨6⟩, some ⟨.declared showingItself, ⟨0⟩, false⟩, some 1) := by
    cbv
  obtain ⟨⟨ending, m₁⟩, hclass, hmade⟩ := Option.bind_eq_some_iff.mp hreached
  obtain ⟨⟨v, m₂⟩, hmade, hfacts⟩ := Option.map_eq_some_iff.mp hmade
  simp only [Prod.mk.injEq] at hfacts
  obtain ⟨rfl, rfl, hcalls, hfound, hf, hhops⟩ := hfacts
  exact ⟨m₁, m₂, Outcome.answer?_eq_some.mp hclass, Outcome.answer?_eq_some.mp hmade, hcalls, hfound,
    _, _, _, hf, rfl, hhops⟩

/-- Printing an object that shows itself fails for want of calls, and where a literal decides what is
printed, this is reported on line 0. -/
theorem literal_blamed :
    ∃ s', (start .unlimited [] (.ticking 0)).run 300
        "class A { toString() { return this; } } print true ? A() : nil;" =
      some ([.runtime 0 .stackOverflow], s') := by
  have haccepts : (start .unlimited [] (.ticking 0)).accepts
      "class A { toString() { return this; } } print true ? A() : nil;"
      [.declareClass ⟨.identifier, "A", 1⟩ none [showingItself], .print madeByLiteral] := by
    show _ = _
    cbv
  have hhops : Program.resolve
      [.declareClass ⟨.identifier, "A", 1⟩ none [showingItself], .print madeByLiteral] = .ok [(0, 1)] := by
    cbv
  obtain ⟨s₁, hprepare⟩ : ∃ s₁, _ = ((_, s₁) : _ × Session) := ⟨_, prepare_of_accepts haccepts⟩
  obtain ⟨_, hops, -, -, hresolve, hm⟩ := prepare_ok hprepare
  obtain rfl : [(0, 1)] = hops := Except.ok.inj (hhops.symm.trans hresolve)
  obtain ⟨m₁, m₂, hclass, hmade, hcalls, hshows⟩ := madeByLiteral_showsItself 295
  have hleft : m₂.calls + callLimit = callLimit := by rw [hcalls, Nat.zero_add]
  obtain ⟨m₃, hrender⟩ := hshows.render 0 hleft (show callLimit ≤ 294 by decide)
  have hprint : execute 300 (.print madeByLiteral) m₁ = .fault (.runtime 0 .stackOverflow) m₃ := by
    have hshown : render 299 madeByLiteral.line (.object ⟨0⟩) m₂ = .fault (.runtime 0 .stackOverflow) m₃ :=
      hrender
    rw [execute, Eval.bind_of_answer hmade]
    simp [Bind.bind, Eval.andThen, hshown]
  have hrun : Eval.runStatements 300
      [.declareClass ⟨.identifier, "A", 1⟩ none [showingItself], .print madeByLiteral] s₁.machine =
        .fault (.runtime 0 .stackOverflow) m₃ := by
    have hrest : Eval.runStatements 300 [.print madeByLiteral] m₁ =
        .fault (.runtime 0 .stackOverflow) m₃ := by
      simp [Eval.runStatements, Bind.bind, Eval.andThen, hprint]
    rw [hm]
    exact (Eval.bind_of_answer hclass).trans hrest
  refine ⟨{ s₁ with machine := m₃.atRest }, ?_⟩
  unfold run
  rw [hprepare]
  simp [perform, Machine.perform, hrun, Fault.diagnostic]

end Session

end LoxLang
