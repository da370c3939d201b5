import LoxLang.Proofs.Syntax.FirstTokens
import LoxLang.Proofs.Syntax.StatementSoundness
import LoxLang.Proofs.Syntax.Stopping

set_option autoImplicit false

namespace LoxLang

namespace Parsing

variable {s s' : State} {depth : Nat}

theorem State.Nears.reported_le (h : s.Nears s') : s.reported.length ≤ s'.reported.length := by
  obtain ⟨errors, herrors⟩ := h.reported
  rw [herrors, List.length_append]
  exact Nat.le_add_right _ _

theorem declaration_reports (hs : s.Closed) (h : declaration depth s = .parsed none s') :
    s.reported.length < s'.reported.length := by
  cases depth with
  | zero => cases h
  | succ depth =>
    obtain ⟨p, hp, hsteady⟩ := declaration_recovers
    rw [hp] at h
    unfold recover at h
    cases hreply : p depth s with
    | exhausted => simp [hreply] at h
    | parsed v s₁ => simp [hreply] at h
    | failed token cause s₁ =>
      have hnears : s.Nears s₁ :=
        (hsteady (Nat.le_refl _) (statementsSteady (Nat.le_refl _))).nears hs (by rw [hreply]; rfl)
      rw [hreply] at h
      cases h
      simpa using Nat.lt_succ_of_le hnears.reported_le

theorem declaration_nears {v : Option Stmt} (hs : s.Closed) (h : declaration depth s = .parsed v s') :
    s.Nears s' :=
  (statementsSteady (Nat.le_refl _)).declaration.nears hs (by rw [h]; rfl)

theorem program_at_end (hend : s.current.kind = .endOfInput) :
    program (depth + 1) s = .parsed [] s := by
  simp [program, atEnd, hend, Bind.bind, andThen, Pure.pure, ret]

theorem program_before_end (hmore : s.current.kind ≠ .endOfInput) :
    program (depth + 1) s =
      (do
        let first ← declaration depth
        return first.toList ++ (← program depth) : Parser (List Stmt)) s := by
  simp [program, atEnd, hmore, Bind.bind, andThen]

theorem program_split {P : List Stmt} (hmore : s.current.kind ≠ .endOfInput)
    (h : program (depth + 1) s = .parsed P s') :
    ∃ first s₁ rest, declaration depth s = .parsed first s₁ ∧ program depth s₁ = .parsed rest s' ∧
      P = first.toList ++ rest := by
  rw [program_before_end hmore] at h
  simp only [Bind.bind, andThen, Pure.pure, ret] at h
  cases hfirst : declaration depth s with
  | exhausted => simp [hfirst] at h
  | failed token cause s₁ => simp [hfirst] at h
  | parsed first s₁ =>
    rw [hfirst] at h
    cases hrest : program depth s₁ with
    | exhausted => simp [hrest] at h
    | failed token cause s₂ => simp [hrest] at h
    | parsed rest s₂ =>
      simp only [hrest, Reply.parsed.injEq] at h
      obtain ⟨rfl, rfl⟩ := h
      exact ⟨first, s₁, rest, rfl, hrest, rfl⟩

theorem program_nothing (hs : s.Closed) (h : program depth s = .parsed [] s')
    (hsilent : s'.reported = []) : s.current.kind = .endOfInput ∧ s' = s := by
  cases depth with
  | zero => cases h
  | succ depth =>
    by_cases hend : s.current.kind = .endOfInput
    · rw [program_at_end hend] at h
      cases h
      exact ⟨hend, rfl⟩
    · obtain ⟨first, s₁, rest, hfirst, hrest, hempty⟩ := program_split hend h
      obtain ⟨hnone, -⟩ := List.append_eq_nil_iff.mp hempty.symm
      have hs₁ : s₁.Closed := (declaration_nears hs hfirst).closed hs
      have hnears : s₁.Nears s' := (steady_program (Nat.le_refl _)).nears hs₁ (by rw [hrest]; rfl)
      have hreports : s.reported.length < s₁.reported.length := by
        cases first with
        | none => exact declaration_reports hs hfirst
        | some x => cases hnone
      have hle := hnears.reported_le
      rw [hsilent, List.length_nil] at hle
      -- A first declaration that answered nothing would have reported an error.
      omega

theorem program_single {x : Stmt} (hs : s.Closed) (h : program (depth + 1) s = .parsed [x] s')
    (hsilent : s'.reported = []) :
    declaration depth s = .parsed (some x) s' ∧ s'.current.kind = .endOfInput := by
  by_cases hend : s.current.kind = .endOfInput
  · rw [program_at_end hend] at h
    cases h
  · obtain ⟨first, s₁, rest, hfirst, hrest, hlist⟩ := program_split hend h
    have hs₁ : s₁.Closed := (declaration_nears hs hfirst).closed hs
    have hnears : s₁.Nears s' := (steady_program (Nat.le_refl _)).nears hs₁ (by rw [hrest]; rfl)
    cases first with
    | none =>
      have hreports := declaration_reports hs hfirst
      have hle := hnears.reported_le
      rw [hsilent, List.length_nil] at hle
      omega
    | some y =>
      obtain ⟨rfl, rfl⟩ := List.cons.inj hlist
      obtain ⟨hlast, rfl⟩ := program_nothing hs₁ hrest hsilent
      exact ⟨hfirst, hlast⟩

theorem parsed_of_outcome {α : Type} {r : Reply α} {v : α} {n next : ReferenceId}
    (h : outcome n r = (.ok v, next)) : ∃ s, r = .parsed v s ∧ s.reported = [] ∧ next = s.nextId := by
  cases r with
  | exhausted => cases h
  | failed token cause s => cases h
  | parsed w s =>
    obtain ⟨hresult, hnext⟩ := Prod.mk.inj h
    split at hresult
    · rename_i hempty
      obtain rfl := Except.ok.inj hresult
      exact ⟨s, rfl, List.isEmpty_iff.mp hempty, hnext.symm⟩
    · cases hresult

theorem declaration_of_statement (hopens : s.current.kind.opensStatement = true) :
    declaration (depth + 1) s = recover (statement depth) s := by
  rw [declaration]
  simp only [recover, Bind.bind, andThen, current]
  cases hk : s.current.kind with
  | keyword word => cases word <;> first | rfl | (rw [hk] at hopens; exact absurd hopens (by decide))
  | _ => rfl

theorem statement_of_expression (hopens : s.current.kind.opensExpression = true) :
    statement (depth + 1) s = expressionStatement depth s := by
  rw [statement]
  simp only [Bind.bind, andThen, current]
  cases hk : s.current.kind with
  | keyword word => cases word <;> first | rfl | (rw [hk] at hopens; exact absurd hopens (by decide))
  | mark m => cases m <;> first | rfl | (rw [hk] at hopens; exact absurd hopens (by decide))
  | _ => rfl

theorem statement_of_print (hprint : s.current.kind = .keyword .printWord) :
    statement (depth + 1) s = printStatement depth { s with rest := s.rest.tail } := by
  rw [statement]
  simp [Bind.bind, andThen, current, advance, hprint]

theorem expressionStatement_parts {e : Expr} (h : expressionStatement depth s = .parsed (.expression e) s') :
    ∃ s₁, expression depth s = .parsed e s₁ ∧ s₁.current.kind = .mark .semicolon ∧
      s' = { s₁ with rest := s₁.rest.tail } := by
  unfold expressionStatement at h
  simp only [Bind.bind, andThen, Pure.pure, ret] at h
  cases hvalue : expression depth s with
  | exhausted => simp [hvalue] at h
  | failed token cause s₁ => simp [hvalue] at h
  | parsed v s₁ =>
    by_cases hk : s₁.current.kind = .mark .semicolon
    · simp only [hvalue, expect, hk, if_true, Reply.parsed.injEq, Stmt.expression.injEq] at h
      obtain ⟨rfl, rfl⟩ := h
      exact ⟨s₁, rfl, hk, rfl⟩
    · simp [hvalue, expect, hk] at h

/-- What an expression statement makes of the tokens, a print statement makes of them, at any greater
depth. -/
theorem printStatement_of_expressionStatement {more : Nat} {e : Expr} (hs : s.Closed) (hle : depth ≤ more)
    (h : expressionStatement depth s = .parsed (.expression e) s') :
    printStatement more s = .parsed (.print e) s' := by
  obtain ⟨s₁, hvalue, hk, rfl⟩ := expressionStatement_parts h
  have hsame : expression more s = expression depth s :=
    (expressionsSteady hle).expression.same (expressionsSteady (Nat.le_refl _)).expression hs (by simp [hvalue])
  simp [printStatement, Bind.bind, andThen, Pure.pure, ret, expect, hsame, hvalue, hk]

theorem program_expression {e : Expr} (hs : s.Closed) (hopens : s.current.kind.opensExpression = true)
    (h : program depth s = .parsed [.expression e] s') (hsilent : s'.reported = []) :
    ∃ d, depth = d + 3 ∧ expressionStatement d s = .parsed (.expression e) s' ∧
      s'.current.kind = .endOfInput := by
  match depth with
  | 0 => cases h
  | 1 => cases (program_single hs h hsilent).1
  | 2 =>
    have hfirst := (program_single hs h hsilent).1
    rw [declaration_of_statement (Kind.opensStatement_of_opensExpression hopens)] at hfirst
    cases hfirst
  | d + 3 =>
    obtain ⟨hfirst, hlast⟩ := program_single hs h hsilent
    rw [declaration_of_statement (Kind.opensStatement_of_opensExpression hopens)] at hfirst
    simp only [recover, statement_of_expression hopens] at hfirst
    cases hvalue : expressionStatement d s with
    | exhausted => simp [hvalue] at hfirst
    | failed token cause s₁ => simp [hvalue] at hfirst
    | parsed v s₁ =>
      simp only [hvalue, Reply.parsed.injEq, Option.some.injEq] at hfirst
      obtain ⟨rfl, rfl⟩ := hfirst
      exact ⟨d, rfl, hvalue, hlast⟩

theorem program_print {word : Token} {e : Expr} {more : Nat} (hs : s.Closed) (hsilent : s'.reported = [])
    (hopens : s.current.kind.opensExpression = true) (hword : word.kind = .keyword .printWord)
    (hle : depth ≤ more) (h : program depth s = .parsed [.expression e] s') :
    program (more + 1) { s with rest := word :: s.rest } = .parsed [.print e] s' := by
  obtain ⟨d, rfl, hvalue, hlast⟩ := program_expression hs hopens h hsilent
  obtain ⟨k, rfl⟩ := Nat.exists_eq_add_of_le' hle
  let w : State := { s with rest := word :: s.rest }
  have hcurrent : w.current.kind = .keyword .printWord := hword
  have hmore : w.current.kind ≠ .endOfInput := by rw [hcurrent]; exact Kind.noConfusion
  -- Behind the word the state is `s`.
  have hprint : printStatement (k + d + 1) { w with rest := w.rest.tail } = .parsed (.print e) s' :=
    printStatement_of_expressionStatement hs (by omega) hvalue
  have hfirst : declaration (k + d + 3) w = .parsed (some (.print e)) s' := by
    rw [declaration_of_statement (by rw [hcurrent]; rfl)]
    simp only [recover, statement_of_print hcurrent, hprint]
  rw [show k + (d + 3) + 1 = k + d + 3 + 1 from rfl, program_before_end hmore]
  simp [Bind.bind, andThen, Pure.pure, ret, hfirst, program_at_end hlast]

end Parsing

/-- Where tokens are a program of one expression, they are with the word in front the program that prints
it. -/
theorem Program.ofTokens_print {word : Token} {front : List Token} {last : Token} {n next : ReferenceId}
    {e : Expr} (hword : word.kind = .keyword .printWord) (hlast : last.kind = .endOfInput)
    (honly : ∀ t ∈ front, t.kind ≠ .endOfInput)
    (h : Program.ofTokens n (front ++ [last]) = (.ok [.expression e], next)) :
    Program.ofTokens n (word :: (front ++ [last])) = (.ok [.print e], next) := by
  have hfirst : ∃ first rest, front = first :: rest ∧ first.kind.opensExpression = true := by
    cases (Program.ofTokens_sound hlast honly h).derives with
    | declarations hone hnone =>
      cases hnone
      cases hone with
      | variableDeclaration hvariable => cases hvariable
      | statementDeclaration hstatement =>
        cases hstatement with
        | ofExpression hexpression =>
          rw [List.append_nil]
          exact hexpression.beginsWell
  obtain ⟨first, rest, rfl, hopens⟩ := hfirst
  let s := Parsing.State.start n (first :: rest ++ [last])
  have hs : s.Closed := .inl ⟨last, by simp [s, Parsing.State.start], hlast⟩
  obtain ⟨s', hreply, hsilent, rfl⟩ := Parsing.parsed_of_outcome h
  have hprint := Parsing.program_print hs hsilent hopens hword (Nat.le_add_right _ 31) hreply
  have hstart : Parsing.State.start n (word :: (first :: rest ++ [last])) =
      { s with rest := word :: s.rest } := by
    simp [s, Parsing.State.start, List.getLastD]
  rw [Program.ofTokens, hstart]
  exact (congrArg (Parsing.outcome n) hprint).trans (by rw [Parsing.outcome, hsilent]; rfl)

end LoxLang
