import LoxLang.Proofs.Session.Balance
import LoxLang.Proofs.Syntax.Printing
import LoxLang.Proofs.Token.Joining
import LoxLang.Proofs.Token.Lexical

set_option autoImplicit false

namespace LoxLang

namespace Token

open Lexeme

def printWord : Token := ⟨.keyword .printWord, "print", 1⟩

theorem scan_print (source : String) : scan ("print " ++ source) = .ok printWord :: scan source := by
  have htext : ("print " ++ source).toList = 'p' :: (['r', 'i', 'n', 't'] ++ ' ' :: source.toList) := by
    simp
  have hword : split 'p' (['r', 'i', 'n', 't'] ++ ' ' :: source.toList) =
      (⟨.token (.keyword .printWord), ['p', 'r', 'i', 'n', 't']⟩, ' ' :: source.toList) := by
    rw [split_word (by decide), takeWhile_append_stop (by decide), dropWhile_append_stop (by decide)]
    rfl
  rw [scan, htext, ofText_cons, hword, ofText_cons]
  rfl

theorem ofSource_print {source : String} {tokens : List Token} (h : ofSource source = .ok tokens) :
    ofSource ("print " ++ source) = .ok (printWord :: tokens) := by
  obtain ⟨hnone, rfl⟩ := ofSource_eq_ok.mp h
  rw [ofSource_eq_ok, scan_print]
  exact ⟨hnone, rfl⟩

end Token

namespace Session

variable {s : Session} {line : String} {value : Expr}

/-- The word `print` in front of a lone expression makes a program of it that leads to the same machine and
the same supply of identities. -/
theorem prepare_print (h : s.accepts line [.expression value]) :
    s.prepare ("print " ++ line) = (.ok [.print value], (s.prepare line).2) := by
  have hprepare := prepare_of_accepts h
  obtain ⟨tokens, hops, htokens, hprogram, hresolve, hm⟩ := prepare_ok hprepare
  obtain ⟨front, last, rfl, hlast, honly⟩ := Token.ofSource_front htokens
  have hword : Token.printWord.kind = .keyword .printWord := rfl
  have hprint := Program.ofTokens_print hword hlast honly hprogram
  have hsame : Program.resolve [.print value] = .ok hops := hresolve
  rw [prepare, Token.ofSource_print htokens]
  simp only [hprint, hsame]
  rw [← hm]

end Session

theorem Eval.runStatements_print (fuel : Nat) (value : Expr) :
    Eval.runStatements (fuel + 1) [.print value] = Eval.echo fuel value := by
  rw [runStatements, execute_print, bind_assoc]
  exact bind_ret (echo fuel value)

theorem Eval.machine_of_emit_fault {text : String} {m m' : Machine} {fault : Fault}
    (h : emit text m = .fault fault m') : m' = m := by
  unfold emit at h
  split at h
  · cases h
  · exact (Outcome.fault.inj h).2.symm

namespace Machine

/-- Shows the value of an expression in two steps. A fault on the way to its text brings the machine to
rest; a fault in writing the line leaves the machine as it is. -/
def showValue (fuel : Nat) (m : Machine) (value : Expr) : Option (List Diagnostic × Machine) :=
  let text : Eval String := do
    let answer ← evaluate fuel value
    render fuel value.line answer
  match text m with
  | .fault fault after => some ([fault.diagnostic], after.atRest)
  | .exhausted => none
  | .answer text after =>
    match Eval.emit text after with
    | .answer _ after => some ([], after)
    | .fault fault after => some ([fault.diagnostic], after)
    | .exhausted => none

/-- From a machine at rest both steps together are the echo: no text is reached but with the machine at
rest. -/
theorem showValue_eq (fuel : Nat) {m : Machine} (hcursor : m.cursor = Store.globals) (hcalls : m.calls = 0)
    (value : Expr) : m.showValue fuel value = m.perform (Eval.echo fuel value) := by
  unfold showValue perform Eval.echo
  simp only [Bind.bind, Eval.andThen]
  cases hvalue : evaluate fuel value m with
  | exhausted => rfl
  | fault fault m₁ => rfl
  | answer answer m₁ =>
    dsimp only
    cases htext : render fuel value.line answer m₁ with
    | exhausted => rfl
    | fault fault m₂ => rfl
    | answer text m₂ =>
      dsimp only
      cases hemit : Eval.emit text m₂ with
      | exhausted => rfl
      | answer v m₃ => rfl
      | fault fault m₃ =>
        have hkept : Kept AnyFunction m m₂ :=
          (evaluate_kept hvalue).trans (((preserves_any fuel).render _ _ _ (stored_any _)).answer htext)
        obtain rfl : m₃ = m₂ := Eval.machine_of_emit_fault hemit
        simp only [atRest, ← hcursor, ← hcalls, ← hkept.cursor, ← hkept.calls]

end Machine

namespace Session

def respondInSteps (fuel : Nat) (s : Session) (line : String) : Option (List Diagnostic × Session) :=
  match s.prepare line with
  | (.error errors, s) => some (errors, s)
  | (.ok program, s) =>
    match program with
    | [.expression value] =>
      (s.machine.showValue fuel value).map fun (errors, machine) => (errors, { s with machine })
    | program => s.perform (Eval.runStatements fuel program)

theorem respondInSteps_eq {s : Session} (h : s.AtRest) (fuel : Nat) (line : String) :
    s.respondInSteps fuel line = s.respond fuel line := by
  unfold respondInSteps respond
  cases hprepare : s.prepare line with
  | mk result s₁ =>
    cases result with
    | error errors => rfl
    | ok program =>
      obtain ⟨_, _, -, -, -, hm⟩ := prepare_ok hprepare
      have hcursor : s₁.machine.cursor = Store.globals := by rw [hm]; exact h.cursor
      have hcalls : s₁.machine.calls = 0 := by rw [hm]; exact h.calls
      dsimp only
      split
      · rw [Machine.showValue_eq fuel hcursor hcalls]
        rfl
      · rw [responseTo]
        assumption

/-- A line that is a lone expression does what it does as a program with the word `print` in front: it
prints the same, ends with the same fault or none, and leaves the same session; if one of them goes on for
ever, so does the other. Every other line, be it refused, does what it does as a program. Between the steps
of a session it is all the same whether a fault in writing brings the machine to rest. -/
theorem echo_is_print (s : Session) (line : String) (fuel : Nat) :
    (∀ value, s.accepts line [.expression value] →
      s.respond fuel line = s.run (fuel + 1) ("print " ++ line) ∧
      ∀ result, (∃ fuel, s.respond fuel line = some result) ↔
        ∃ fuel, s.run fuel ("print " ++ line) = some result) ∧
    ((∀ value, ¬s.accepts line [.expression value]) → s.respond fuel line = s.run fuel line) ∧
    (s.Reachable → s.respondInSteps fuel line = s.respond fuel line) := by
  refine ⟨fun value hvalue => ?_, fun hother => ?_, fun hs => respondInSteps_eq hs.atRest fuel line⟩
  -- Printing takes one step more than the echo, so the fuel is shifted by one.
  · have hsame : ∀ fuel, s.respond fuel line = s.run (fuel + 1) ("print " ++ line) := by
      intro fuel
      rw [run, prepare_print hvalue, respond, prepare_of_accepts hvalue]
      simp only [responseTo, Eval.runStatements_print]
    refine ⟨hsame fuel, fun result => ⟨?_, ?_⟩⟩
    · rintro ⟨fuel, h⟩
      exact ⟨fuel + 1, hsame fuel ▸ h⟩
    · rintro ⟨fuel, h⟩
      cases fuel with
      | zero =>
        rw [run, prepare_print hvalue] at h
        simp [perform, Machine.perform, Eval.runStatements, execute, Bind.bind, Eval.andThen, Eval.outOfFuel] at h
      | succ fuel => exact ⟨fuel, (hsame fuel).trans h⟩
  · unfold respond run
    cases hprepare : s.prepare line with
    | mk result s₁ =>
      cases result with
      | error errors => rfl
      | ok program =>
        dsimp only
        unfold responseTo
        split
        · exact absurd (congrArg Prod.fst hprepare) (hother _)
        · rfl

/-- With no room left for a line, the echo of `nil;` fails as the print statement does. The line `var a;` is
no lone expression. -/
theorem echo_is_print_unwritten :
    let s := start (.limited 0) [] (.ticking 0)
    s.accepts "nil;" [.expression (.literal .nil)] ∧
      s.respond 1 "nil;" = s.run 2 ("print " ++ "nil;") ∧
      (s.respond 1 "nil;").map Prod.fst = some [.io ⟨"sink full"⟩] ∧
      s.respondInSteps 1 "nil;" = s.respond 1 "nil;" ∧
      s.respond 1 "var a;" = s.run 1 "var a;" := by
  intro s
  have haccepts : s.accepts "nil;" [.expression (.literal .nil)] := by
    show _ = _
    cbv
  have hother : s.accepts "var a;" [.declareVar ⟨.identifier, "a", 1⟩ none] := by
    show _ = _
    cbv
  obtain ⟨hecho, -, hsteps⟩ := echo_is_print s "nil;" 1
  refine ⟨haccepts, (hecho _ haccepts).1, ?_, hsteps (.start _ _ _), ?_⟩
  · show ((start (.limited 0) [] (.ticking 0)).respond 1 "nil;").map Prod.fst = _
    cbv
  · refine (echo_is_print s "var a;" 1).2.1 fun value hvalue => ?_
    cases hother.symm.trans hvalue

end Session

end LoxLang
