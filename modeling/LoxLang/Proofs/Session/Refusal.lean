import LoxLang.Proofs.Scope.Judgement
import LoxLang.Proofs.Session.Accepted
import LoxLang.Proofs.Syntax.Ending
import LoxLang.Proofs.Token.Joining

set_option autoImplicit false

namespace LoxLang

/-- Where a diagnostic arises on the way from bytes to the end of a run. -/
inductive Stage where
  | decoding
  | scanning
  | parsing
  | resolving
  | running
  deriving DecidableEq, Repr

def Diagnostic.stage : Diagnostic → Stage
  | .encoding _ => .decoding
  | .lexical _ _ => .scanning
  | .grammatical _ _ => .parsing
  | .static _ _ => .resolving
  | .runtime _ _ | .io _ => .running

theorem Fault.stage_diagnostic (f : Fault) : f.diagnostic.stage = .running := by
  cases f <;> rfl

theorem Token.ofSource_reports {source : String} {errors : List Diagnostic}
    (h : Token.ofSource source = .error errors) :
    errors ≠ [] ∧ ∀ d ∈ errors, d.stage = .scanning := by
  obtain ⟨rfl, hsome⟩ := Token.ofSource_error h
  refine ⟨hsome, fun d hd => ?_⟩
  obtain ⟨n, -, -, ⟨_, ⟨⟩, -⟩ | ⟨cause, ⟨⟩⟩⟩ := Token.standsOn_of_mem_scan (mem_failures.mp hd)
  rfl

theorem Program.ofTokens_stage {source : String} {tokens : List Token} {n : ReferenceId}
    {errors : List Diagnostic} (htokens : Token.ofSource source = .ok tokens)
    (h : (Program.ofTokens n tokens).1 = .error errors) :
    errors ≠ [] ∧ ∀ d ∈ errors, d.stage = .parsing := by
  obtain ⟨body, last, rfl, hlast⟩ := Token.ofSource_ended htokens
  obtain ⟨hsome, hreports⟩ := Program.ofTokens_reports (.inr ⟨last, by simp, hlast⟩) h
  refine ⟨hsome, fun d hd => ?_⟩
  obtain ⟨token, cause, rfl⟩ := hreports d hd
  rfl

theorem Program.resolve_stage {P : Program} {errors : List Diagnostic} (hp : Stmt.AllProper P)
    (h : P.resolve = .error errors) : errors ≠ [] ∧ ∀ d ∈ errors, d.stage = .resolving := by
  obtain ⟨hsome, rfl⟩ := Program.resolve_error h
  refine ⟨hsome, fun d hd => ?_⟩
  rcases (Program.judged hp).reports d hd with hd | ⟨token, cause, rfl, -⟩
  · simp [Resolution.start] at hd
  · rfl

namespace Session

def refusedBy? (s : Session) (source : String) : Option Stage :=
  match Token.ofSource source with
  | .error _ => some .scanning
  | .ok tokens =>
    match (Program.ofTokens s.nextId tokens).1 with
    | .error _ => some .parsing
    | .ok program =>
      match program.resolve with
      | .error _ => some .resolving
      | .ok _ => none

variable {s : Session} {source : String}

/-- Source text is refused with errors of the first stage that finds one, or accepted. -/
theorem prepare_stages (s : Session) (source : String) :
    (∃ stage ∈ [Stage.scanning, .parsing, .resolving], s.refusedBy? source = some stage ∧
      ∃ errors s', s.prepare source = (.error errors, s') ∧ errors ≠ [] ∧ ∀ d ∈ errors, d.stage = stage) ∨
    s.refusedBy? source = none ∧ ∃ P, s.accepts source P := by
  unfold refusedBy? accepts prepare
  cases htokens : Token.ofSource source with
  | error errors => exact .inl ⟨.scanning, by simp, rfl, errors, s, rfl, Token.ofSource_reports htokens⟩
  | ok tokens =>
    dsimp only
    cases htree : Program.ofTokens s.nextId tokens with
    | mk result nextId =>
      cases result with
      | error errors =>
        have hstage := Program.ofTokens_stage htokens (congrArg Prod.fst htree)
        exact .inl ⟨.parsing, by simp, rfl, errors, _, rfl, hstage⟩
      | ok P =>
        dsimp only
        cases hresolve : P.resolve with
        | error errors =>
          have hstage := Program.resolve_stage (numbered_of_tokens htokens htree).proper hresolve
          exact .inl ⟨.resolving, by simp, rfl, errors, _, rfl, hstage⟩
        | ok hops => exact .inr ⟨rfl, P, rfl⟩

theorem perform_reports {s' : Session} {act : Eval Unit} {errors : List Diagnostic}
    (h : s.perform act = some (errors, s')) :
    errors = [] ∨ ∃ d, errors = [d] ∧ d.stage = .running := by
  obtain ⟨-, ⟨-, rfl⟩ | ⟨fault, after, -, -, rfl⟩⟩ := perform_some h
  · exact .inl rfl
  · exact .inr ⟨_, rfl, fault.stage_diagnostic⟩

/-- Refused source text leaves the machine as it is: all that is stored, the hop counts, what was printed
and what is left to read. All reported errors are of the first stage that finds one. Any other source text
is run, on a machine that differs in the recorded hop counts only, and reports nothing or one failure of
the run. -/
theorem refusal_changes_nothing (s : Session) (interactive : Bool) (fuel : Nat) (source : String) :
    match s.refusedBy? source with
    | some stage => stage ∈ [Stage.scanning, .parsing, .resolving] ∧
      ∃ errors s', s.runAs interactive fuel source = some (errors, s') ∧ errors ≠ [] ∧
        (∀ d ∈ errors, d.stage = stage) ∧ s'.machine = s.machine
    | none => ∃ p hops n, s.performance? interactive fuel source = some p ∧
      p.program.resolve = .ok hops ∧ p.machine = s.machine.recordHops hops ∧
      s.runAs interactive fuel source = perform ⟨p.machine, n⟩ p.act ∧
      ∀ errors s', s.runAs interactive fuel source = some (errors, s') →
        errors = [] ∨ ∃ d, errors = [d] ∧ d.stage = .running := by
  rw [runAs_eq]
  obtain ⟨stage, hstage, hrefused, errors, s', hp, hsome, hall⟩ | ⟨haccepted, P, hP⟩ :=
    s.prepare_stages source
  · rw [hrefused, hp]
    exact ⟨hstage, errors, s', rfl, hsome, hall, (prepare_error hp).1⟩
  · have hp := prepare_of_accepts hP
    obtain ⟨tokens, hops, -, -, hresolve, hm⟩ := prepare_ok hp
    have hperformance : s.performance? interactive fuel source = some _ := performance?_of_accepts hP
    rw [haccepted, hp]
    exact ⟨_, hops, _, hperformance, hresolve, hm, rfl, fun errors s' h => perform_reports h⟩

/-- A statement without its end is refused by the parser; a variable that is not there fails the run. -/
theorem refusal_changes_nothing_print :
    (∃ errors s', (start .unlimited [] (.ticking 0)).runAs false 3 "print" = some (errors, s') ∧ errors ≠ [] ∧
      (∀ d ∈ errors, d.stage = .parsing) ∧ s'.machine = (start .unlimited [] (.ticking 0)).machine) ∧
    ∃ errors s', (start .unlimited [] (.ticking 0)).runAs false 3 "print a;" = some (errors, s') ∧
      ∃ d, errors = [d] ∧ d.stage = .running := by
  constructor
  · have hrefused : (start .unlimited [] (.ticking 0)).refusedBy? "print" = some .parsing := by cbv
    have h := refusal_changes_nothing (start .unlimited [] (.ticking 0)) false 3 "print"
    rw [hrefused] at h
    exact h.2
  · have haccepted : (start .unlimited [] (.ticking 0)).refusedBy? "print a;" = none := by cbv
    have h := refusal_changes_nothing (start .unlimited [] (.ticking 0)) false 3 "print a;"
    rw [haccepted] at h
    obtain ⟨p, hops, n, -, -, -, -, hreports⟩ := h
    have hfails : ((start .unlimited [] (.ticking 0)).runAs false 3 "print a;").map (fun r => r.1.isEmpty) =
        some false := by cbv
    obtain ⟨⟨errors, s'⟩, hrun, hsome⟩ := Option.map_eq_some_iff.mp hfails
    rcases hreports errors s' hrun with rfl | hone
    · cases hsome
    · exact ⟨errors, s', hrun, hone⟩

end Session

end LoxLang
