import LoxLang.Proofs.Evaluation.Panics
import LoxLang.Proofs.Scope.Walking
import LoxLang.Proofs.Session.Environments
import LoxLang.Proofs.Token.Bytewise

set_option autoImplicit false

namespace LoxLang

namespace Session

variable {s : Session} {history : List Performance}

/-- Takes source text to statements with recorded hop counts. It is scanned by positions in its bytes and
resolved with a counter of loops. -/
def prepare? (s : Session) (source : String) : Option (Except (List Diagnostic) Program × Session) := do
  let items ← Token.scanBytes source
  match failures items with
  | [] =>
    match Program.ofTokens s.nextId (successes items) with
    | (.error errors, nextId) => return (.error errors, { s with nextId })
    | (.ok program, nextId) =>
      match ← program.walk with
      | .error errors => return (.error errors, { s with nextId })
      | .ok hops => return (.ok program, ⟨s.machine.recordHops hops, nextId⟩)
  | errors => return (.error errors, s)

theorem prepare?_eq (s : Session) (source : String) : s.prepare? source = some (s.prepare source) := by
  rw [prepare?, prepare, Token.scanBytes_eq, Token.ofSource, Option.bind_eq_bind, Option.bind_some]
  cases failures (Token.scan source) with
  | cons => rfl
  | nil =>
    dsimp only
    generalize Program.ofTokens s.nextId (successes (Token.scan source)) = parsed
    obtain ⟨errors | program, nextId⟩ := parsed
    · rfl
    · dsimp only
      rw [Program.walk_eq, Option.bind_eq_bind, Option.bind_some]
      cases program.resolve <;> rfl

/-- No source text and no input makes a session panic. In a session that any runs led to, source text is
prepared with every position in bounds and on the boundary of a character, and nothing is taken from a
counter at zero. When it is accepted, all that is evaluated for it, for however long it runs, has the
arguments and elements that it takes by position and the environments that `super` counts on. -/
theorem never_panics (hs : s.After history) (interactive : Bool) (fuel : Nat) (source : String) :
    s.prepare? source = some (s.prepare source) ∧
      ∀ p, s.performance? interactive fuel source = some p →
        ∀ a : Activity, a.Visited p.Begins → a.PanicFree := by
  refine ⟨s.prepare?_eq source, fun p hp a ha => ?_⟩
  obtain ⟨K, hsits⟩ := visited_sits hs hp ha
  exact hsits.panicFree

/-- A text is read as a number, by the position of the argument. -/
theorem never_panics_parseNumber :
    ∃ (p : Performance) (m : Machine),
      (start .unlimited [] (.ticking 0)).performance? false 4 "parseNumber(\"1\");" = some p ∧
      Activity.Visited p.Begins ⟨2, .call 1 (.native .parseNumber) [.string "1"], m⟩ ∧
      Checked.call 1 1 (.native .parseNumber) [.string "1"] m =
        some (call 2 1 (.native .parseNumber) [.string "1"] m) := by
  let name : Token := ⟨.identifier, "parseNumber", 1⟩
  let paren : Token := ⟨.mark .rightParen, ")", 1⟩
  let invocation : Expr := .call (.variable ⟨0, name⟩) paren [.literal (.string "1")]
  let m := ((start .unlimited [] (.ticking 0)).prepare "parseNumber(\"1\");").2.machine
  have haccepts : (start .unlimited [] (.ticking 0)).accepts "parseNumber(\"1\");" [.expression invocation] := by
    show _ = _
    cbv
  let p : Performance := ⟨false, 4, [.expression invocation], m⟩
  have hp : (start .unlimited [] (.ticking 0)).performance? false 4 "parseNumber(\"1\");" = some p :=
    performance?_of_accepts haccepts
  have hcallee : evaluate 2 (.variable ⟨0, name⟩) m = .answer (.native .parseNumber) m := by
    have hhops : m.hops[0]? = none := by
      show ((start .unlimited [] (.ticking 0)).prepare "parseNumber(\"1\");").2.machine.hops[0]? = none
      cbv
    have hglobal : m.store.lookup Store.globals "parseNumber" = .ok (.native .parseNumber) := by
      show ((start .unlimited [] (.ticking 0)).prepare "parseNumber(\"1\");").2.machine.store.lookup _ _ = _
      cbv
    rw [evaluate, Eval.lookUp_of_none hhops, hglobal]
    rfl
  have harguments : evaluateAll 2 [.literal (.string "1")] m = .answer [.string "1"] m := by
    rw [evaluateAll, evaluate, evaluateAll]
    rfl
  have hroot : Activity.Visited p.Begins ⟨4, .execute (.expression invocation), m⟩ :=
    .root (.statements rfl .statement)
  have hcall := (hroot.part .expression).part (.call hcallee harguments)
  exact ⟨p, m, hp, hcall, (never_panics (.start .unlimited [] (.ticking 0)) false 4 _).2 p hp _ hcall⟩

end Session

end LoxLang
