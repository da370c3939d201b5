import LoxLang.Proofs.Evaluation.Termination
import LoxLang.Proofs.Session.History

set_option autoImplicit false

namespace LoxLang

namespace Eval

variable {bound fuel : Nat}

theorem halts_runStatements (program : Program) (m : Machine) (hfree : program.LoopFree)
    (hw : Stmt.weightAll program ≤ bound) (h : m.Fuelled bound bound fuel) :
    (runStatements fuel program).Halts m := by
  induction program generalizing m with
  | nil => exact Prompt.ret _ m
  | cons s rest ih =>
    simp only [Stmt.weightAll] at hw
    rw [runStatements]
    have hs : s.weight ≤ bound := by omega
    have hexecute := (terminates bound fuel).execute s m hfree.1 hs (h.lighter hs)
    have hkeeps := (preserves (Declaration.hereditary_bounded bound) fuel).execute s m
      (s.declared_bounded hfree.1 hs)
    refine hexecute.then hkeeps h.stored fun _ m₁ hm => ?_
    exact ih m₁ hfree.2 (by omega) (h.next hm (Nat.le_refl _))

theorem halts_echo (value : Expr) (m : Machine) (h : m.Fuelled bound value.weight fuel) :
    (echo fuel value).Halts m := by
  unfold echo
  have hvalue := (terminates bound fuel).evaluate value m h
  have hkeeps := (preserves (Declaration.hereditary_bounded bound) fuel).evaluate value m
  refine hvalue.then hkeeps h.stored fun answer m₁ hm => ?_
  have hrender := (terminates bound fuel).render value.line answer m₁ (h.next hm (by omega))
  exact hrender.bind fun _ m₂ _ => prompt_emit _ m₂

theorem halts_responseTo (program : Program) (m : Machine) (hfree : program.LoopFree)
    (hw : Stmt.weightAll program ≤ bound) (h : m.Fuelled bound bound fuel) :
    (Session.responseTo fuel program).Halts m := by
  unfold Session.responseTo
  split
  · simp only [Stmt.weightAll, Stmt.weight] at hw
    exact halts_echo _ m (h.lighter (by omega))
  · exact halts_runStatements program m hfree hw h

theorem halts_act (p : Performance) (m : Machine) (hfree : Program.LoopFree p.program)
    (hw : Stmt.weightAll p.program ≤ bound) (h : m.Fuelled bound bound p.fuel) :
    p.act.Halts m := by
  unfold Performance.act
  split
  · exact halts_responseTo p.program m hfree hw h
  · exact halts_runStatements p.program m hfree hw h

end Eval

namespace Session

variable {s : Session}

theorem exists_bound {source : String} {bound : Nat}
    (hsource : ∀ P, s.accepts source P → Program.LoopFree P)
    (hstored : s.machine.store.Stored (Declaration.Bounded bound)) :
    ∃ more, s.machine.store.Stored (Declaration.Bounded more) ∧
      ∀ P, s.accepts source P → P.LoopFree ∧ Stmt.weightAll P ≤ more := by
  cases hP : (s.prepare source).1 with
  | error errors =>
    refine ⟨bound, hstored, fun P h => ?_⟩
    rw [accepts, hP] at h
    cases h
  | ok P =>
    refine ⟨max bound (Stmt.weightAll P), fun id f d hf hc => ?_, fun Q h => ?_⟩
    · exact (hstored id f d hf hc).mono (Nat.le_max_left _ _)
    · obtain rfl : P = Q := by
        rw [accepts, hP] at h
        exact Except.ok.inj h
      exact ⟨hsource P h, Nat.le_max_right _ _⟩

theorem After.bounded {history : List Performance} (hs : s.After history)
    (hfree : ∀ p ∈ history, Program.LoopFree p.program) :
    s.AtRest ∧ ∃ bound, s.machine.store.Stored (Declaration.Bounded bound) := by
  induction hs with
  | start sink input clock => exact ⟨atRest_start _ _ _, 0, Store.stored_start _⟩
  | @run history s s' interactive fuel source errors hs h ih =>
    obtain ⟨hrest, bound, hstored⟩ := ih fun p hp => hfree p (List.mem_append_right _ hp)
    have hsource : ∀ P, s.accepts source P → Program.LoopFree P := by
      intro P hP
      refine hfree ⟨interactive, fuel, P, (s.prepare source).2.machine⟩ (List.mem_append_left _ ?_)
      simp [performance?_of_accepts hP]
    obtain ⟨more, hstored, hP⟩ := exists_bound hsource hstored
    have hkept := runAs_keeps (Declaration.hereditary_bounded more)
      (fun P h => Stmt.allDeclared_bounded P (hP P h).1 (hP P h).2) hstored hrest h
    exact ⟨hkept.2, more, hkept.1⟩
  | facing sink input clock hs ih =>
    obtain ⟨hrest, bound, hstored⟩ := ih hfree
    exact ⟨⟨hrest.cursor, hrest.calls⟩, bound, hstored⟩

theorem prepare_facing (sink : Sink) (input : Input) (clock : Clock) (source : String) :
    (s.facing sink input clock).prepare source =
      ((s.prepare source).1, (s.prepare source).2.facing sink input clock) := by
  obtain ⟨result, hops, next, h⟩ := prepare_eq s.nextId source
  have hs : s.prepare source = (result, ⟨s.machine.recordHops hops, next⟩) := h s.machine
  rw [facing, h, hs]
  rfl

theorem perform_isSome {act : Eval Unit} (h : act.Halts s.machine) :
    (s.perform act).isSome = true := by
  unfold perform Machine.perform
  cases ha : act s.machine with
  | answer v m => rfl
  | fault f m => rfl
  | exhausted => exact absurd ha h

/-- Only loops can keep a program from ending. After programs without loops, every further one ends,
in success or with an error, whatever it reads. -/
theorem ends_of_loopFree {history : List Performance} (hs : s.After history)
    (hfree : ∀ p ∈ history, Program.LoopFree p.program) (source : String)
    (hsource : ∀ P, s.accepts source P → Program.LoopFree P) :
    ∃ enough, ∀ fuel, enough ≤ fuel →
      ∀ (sink : Sink) (input : Input) (clock : Clock) (interactive : Bool),
        ((s.facing sink input clock).runAs interactive fuel source).isSome = true := by
  obtain ⟨hrest, bound, hstored⟩ := hs.bounded hfree
  obtain ⟨more, hstored, hP⟩ := exists_bound hsource hstored
  refine ⟨more + callFuel more callLimit, fun fuel henough sink input clock interactive => ?_⟩
  rw [runAs_eq]
  split
  · rfl
  · rename_i P s₁ h
    have haccepts : s.accepts source P := by
      simpa [accepts, prepare_facing] using congrArg Prod.fst h
    obtain ⟨hlight, hw⟩ := hP P haccepts
    obtain ⟨_, _, -, -, -, hm⟩ := prepare_ok h
    have hcalls : s₁.machine.callsLeft = callLimit := by
      rw [hm]
      exact congrArg (callLimit - ·) hrest.calls
    have hfuelled : s₁.machine.Fuelled more more fuel :=
      ⟨by rw [hm]; exact hstored, by rw [hcalls]; exact henough⟩
    exact perform_isSome (Eval.halts_act _ _ hlight hw hfuelled)

/-- A function that calls itself and nothing else, and a call of it. -/
theorem endless_call_ends :
    ∃ P, (start .unlimited [] (.ticking 0)).accepts "fun f() { f(); } f();" P ∧ Program.LoopFree P ∧
      ∃ enough, ∀ fuel, enough ≤ fuel →
        ∀ (sink : Sink) (input : Input) (clock : Clock) (interactive : Bool),
          (((start .unlimited [] (.ticking 0)).facing sink input clock).runAs interactive fuel
            "fun f() { f(); } f();").isSome = true := by
  let f : Token := ⟨.identifier, "f", 1⟩
  let paren : Token := ⟨.mark .rightParen, ")", 1⟩
  let called (id : ReferenceId) : Stmt := .expression (.call (.variable ⟨id, f⟩) paren [])
  have haccepts : (start .unlimited [] (.ticking 0)).accepts "fun f() { f(); } f();"
      [.declareFunction (.mk f [] [called 0]), called 1] := by
    show _ = _
    cbv
  have hfree : Program.LoopFree [.declareFunction (.mk f [] [called 0]), called 1] := by
    simp [Program.LoopFree, Stmt.AllLoopFree, Stmt.LoopFree, Declaration.LoopFree, called]
  refine ⟨_, haccepts, hfree, ends_of_loopFree (.start .unlimited [] (.ticking 0)) ?_ _ fun P h => ?_⟩
  · simp
  · rw [accepts, haccepts] at h
    exact Except.ok.inj h ▸ hfree

end Session

end LoxLang
