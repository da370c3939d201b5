import LoxLang.Proofs.Syntax.Steadiness

set_option autoImplicit false

namespace LoxLang

namespace Parsing

def statementKeywords : List Keyword :=
  [.classWord, .funWord, .varWord, .forWord, .ifWord, .whileWord, .printWord, .returnWord, .breakWord,
    .continueWord]

theorem resumesAt_iff (kind : Kind) :
    resumesAt kind = true ↔ ∃ word ∈ statementKeywords, kind = .keyword word := by
  cases kind with
  | keyword word => cases word <;> simp [resumesAt, statementKeywords]
  | _ => simp [resumesAt]

/-- Between what was taken and what is left lies the end of the input, the place after a semicolon or the
place before a keyword that starts a statement. -/
def Boundary (taken left : List Token) : Prop :=
  (left.headD missingEnd).kind = .endOfInput ∨
    (∃ before semicolon, taken = before ++ [semicolon] ∧ semicolon.kind = .mark .semicolon) ∨
    ∃ word ∈ statementKeywords, (left.headD missingEnd).kind = .keyword word

theorem Boundary.append {w left : List Token} (h : Boundary w left) (u : List Token) :
    Boundary (u ++ w) left :=
  h.imp_right (Or.imp_left fun ⟨before, semicolon, hw, hk⟩ =>
    ⟨u ++ before, semicolon, by rw [hw, List.append_assoc], hk⟩)

theorem boundaryAfter_boundary (skipped : Token) (rest : List Token) :
    ∃ w, rest = w ++ boundaryAfter skipped rest ∧ (∀ t ∈ w, t.kind ≠ .endOfInput) ∧
      Boundary (skipped :: w) (boundaryAfter skipped rest) := by
  induction rest generalizing skipped with
  | nil => exact ⟨[], rfl, by simp, .inl rfl⟩
  | cons t rest ih =>
    rw [boundaryAfter]
    split
    · rename_i hstop
      simp only [Bool.or_eq_true, decide_eq_true_eq] at hstop
      refine ⟨[], rfl, by simp, ?_⟩
      rcases hstop with (hend | hsemicolon) | hword
      · exact .inl hend
      · exact .inr (.inl ⟨[], skipped, rfl, hsemicolon⟩)
      · exact .inr (.inr ((resumesAt_iff t.kind).mp hword))
    · rename_i hgo
      obtain ⟨w, hw, hunder, hboundary⟩ := ih t
      have ht : t.kind ≠ .endOfInput := fun hk => hgo (by simp [hk])
      exact ⟨t :: w, by rw [List.cons_append, ← hw], List.forall_mem_cons.mpr ⟨ht, hunder⟩,
        hboundary.append [skipped]⟩

theorem skipToBoundary_boundary (tokens : List Token) :
    ∃ w, tokens = w ++ skipToBoundary tokens ∧ (∀ t ∈ w, t.kind ≠ .endOfInput) ∧
      Boundary w (skipToBoundary tokens) := by
  cases tokens with
  | nil => exact ⟨[], rfl, by simp, .inl rfl⟩
  | cons t rest =>
    rw [skipToBoundary]
    split
    · rename_i hk
      exact ⟨[], rfl, by simp, .inl hk⟩
    · rename_i hk
      obtain ⟨w, hw, hunder, hboundary⟩ := boundaryAfter_boundary t rest
      exact ⟨t :: w, by rw [List.cons_append, ← hw], List.forall_mem_cons.mpr ⟨hk, hunder⟩, hboundary⟩

/-- The state is a place in the tokens, at the first end of the input at the latest. -/
structure State.Within (tokens : List Token) (s : State) : Prop where
  before : ∃ w, tokens = w ++ s.rest ∧ ∀ t ∈ w, t.kind ≠ .endOfInput
  beyond : s.beyond = tokens.getLastD missingEnd

variable {tokens : List Token} {s s' : State} {depth : Nat}

theorem State.within_start (n : ReferenceId) : (State.start n tokens).Within tokens :=
  ⟨⟨[], rfl, by simp⟩, rfl⟩

theorem State.Within.closed (h : s.Within tokens)
    (hends : tokens = [] ∨ ∃ t ∈ tokens, t.kind = .endOfInput) : s.Closed := by
  obtain ⟨⟨w, hw, hunder⟩, hbeyond⟩ := h
  rcases hends with rfl | ⟨t, ht, hk⟩
  · exact .inr ⟨(List.append_eq_nil_iff.mp hw.symm).2, by rw [hbeyond]; rfl⟩
  · rw [hw, List.mem_append] at ht
    exact .inl ⟨t, ht.resolve_left fun ht => hunder t ht hk, hk⟩

theorem State.Within.nears (h : s.Within tokens) (hnears : s.Nears s') : s'.Within tokens := by
  obtain ⟨⟨u, hu, hunder⟩, hbeyond⟩ := h
  obtain ⟨⟨w, hw, hfree⟩, hbeyond', -⟩ := hnears
  refine ⟨⟨u ++ w, by rw [hu, hw, List.append_assoc], fun t ht => ?_⟩, hbeyond'.trans hbeyond⟩
  exact (List.mem_append.mp ht).elim (hunder t) (hfree t)

theorem wholeExpression_ends (h : 16 * s.ahead + 11 ≤ depth) :
    Ends (wholeExpression depth) s s.ahead :=
  .bind (expression_ends_of_depth h) fun _ s₁ h₁ =>
    .atEnd (fun _ => .ret (by omega)) fun _ => .failHere

/-- From the depth for the tokens on there is one reply, and it is not that the depth is used up. -/
def Finishes {α : Type} (p : Nat → Parser α) (tokens : List Token) (s : State) : Prop :=
  ∃ reply : Reply α, reply ≠ .exhausted ∧ ∀ depth, depthFor tokens ≤ depth → p depth s = reply

theorem Finishes.of_steady {α : Type} {p : Nat → Parser α} (hs : s.Closed)
    (hsteady : ∀ {d d'}, d ≤ d' → Steady (p d) (p d')) (h : p (depthFor tokens) s ≠ .exhausted) :
    Finishes p tokens s :=
  ⟨_, h, fun _ hle => (hsteady hle).same (hsteady (Nat.le_refl _)) hs h⟩

theorem State.start_agrees (n : ReferenceId) (hends : ∃ t ∈ tokens, t.kind = .endOfInput)
    (junk : List Token) : (State.start n tokens).Agrees (State.start n (tokens ++ junk)) := by
  have hclosed : (State.start n tokens).Closed := .inl hends
  refine ⟨?_, rfl, rfl⟩
  rcases hclosed.agrees.seen with ⟨w, e, rest, -, hunder, he, hrest, -⟩ | ⟨hrest, -⟩
  · exact .inl ⟨w, e, rest, rest ++ junk, hunder, he, hrest, by
      rw [show (State.start n (tokens ++ junk)).rest = tokens ++ junk from rfl,
        show tokens = w ++ e :: rest from hrest, List.append_assoc, List.cons_append]⟩
  · obtain ⟨t, ht, -⟩ := hends
    rw [show tokens = [] from hrest] at ht
    cases ht

theorem recover_parses {α : Type} {p : Parser α} (hp : Steady p p) (hs : s.Closed)
    (hleft : recover p s ≠ .exhausted) :
    ∃ v s' taken, recover p s = .parsed v s' ∧ s.Nears s' ∧ s.rest = taken ++ s'.rest ∧
      (v = none → Boundary taken s'.rest) := by
  unfold recover at hleft ⊢
  cases hreply : p s with
  | exhausted => simp [hreply] at hleft
  | parsed v s₁ =>
    have hnears : s.Nears s₁ := hp.nears hs (by rw [hreply]; rfl)
    obtain ⟨u, hu, -⟩ := hnears.taken
    exact ⟨some v, s₁, u, rfl, hnears, hu, by simp⟩
  | failed token cause s₁ =>
    have hnears : s.Nears s₁ := hp.nears hs (by rw [hreply]; rfl)
    obtain ⟨u, hu, -⟩ := hnears.taken
    obtain ⟨w, hw, -, hboundary⟩ := skipToBoundary_boundary s₁.rest
    exact ⟨none, _, u ++ w, rfl, hnears.trans (s₁.nears_skip token cause).1,
      by rw [List.append_assoc, ← hw, hu], fun _ => hboundary.append u⟩

/-- A declaration before the end of the input takes tokens unless the depth is used up, and if it fails it
has come to a boundary. -/
theorem declaration_advances (depth : Nat) (hs : s.Closed) (hk : s.current.kind ≠ .endOfInput) :
    declaration depth s = .exhausted ∧ depth < 16 * s.ahead + 13 ∨
      ∃ v s' taken, declaration depth s = .parsed v s' ∧ s.Nears s' ∧ s.rest = taken ++ s'.rest ∧
        taken ≠ [] ∧ (v = none → Boundary taken s'.rest) := by
  by_cases hused : declaration depth s = .exhausted
  · refine .inl ⟨hused, Nat.lt_of_not_le fun hle => ?_⟩
    exact ((statementsEnd depth).declaration s hle).not_exhausted hs hused
  · right
    cases depth with
    | zero => exact absurd (by rw [declaration]; rfl) hused
    | succ depth =>
      obtain ⟨p, hp, hsteady⟩ := declaration_recovers
      obtain ⟨v, s', taken, hv, hnears, htaken, hboundary⟩ :=
        recover_parses (hsteady (Nat.le_refl depth) (statementsSteady (Nat.le_refl depth))) hs
          (by rw [← hp]; exact hused)
      refine ⟨v, s', taken, by rw [hp, hv], hnears, htaken, ?_, hboundary⟩
      rintro rfl
      -- With enough depth the reply is the same, and then fewer tokens are ahead.
      have hmore : depth + 1 ≤ depth + 1 + (16 * s.ahead + 13) := by omega
      have hsame := (statementsSteady hmore).declaration.same
        (statementsSteady (Nat.le_refl _)).declaration hs hused
      have hends := (statementsEnd (depth + 1 + (16 * s.ahead + 13))).declaration s (by omega) hs
      rw [hsame, hp, hv] at hends
      have hahead := (hs.nears_tail hk).2
      have hfew : s'.ahead ≤ s.ahead - 1 := hends.2
      have hall : s'.ahead = s.ahead := by rw [State.ahead, State.ahead, htaken, List.nil_append]
      omega

theorem ofTokens_junk (n : ReferenceId) (hends : ∃ t ∈ tokens, t.kind = .endOfInput) (junk : List Token) :
    Program.ofTokens n (tokens ++ junk) = Program.ofTokens n tokens ∧
      Expr.ofTokens n (tokens ++ junk) = Expr.ofTokens n tokens := by
  have hclosed : (State.start n tokens).Closed := .inl hends
  have hagrees := State.start_agrees n hends junk
  have hdepth := depthFor_suffices n tokens
  have hle : depthFor tokens ≤ depthFor (tokens ++ junk) := by
    simp only [depthFor, List.length_append]
    omega
  exact ⟨(steady_program hle).outcome hagrees ((program_ends _ _ hdepth).not_exhausted hclosed) n,
    (steady_wholeExpression hle).outcome hagrees ((wholeExpression_ends (by omega)).not_exhausted hclosed) n⟩

/-- Parsing stops on every list of tokens that contains the end of the input, or is empty. -/
theorem always_stops (n : ReferenceId) (tokens : List Token)
    (hends : tokens = [] ∨ ∃ t ∈ tokens, t.kind = .endOfInput) :
    -- Both entries come to a reply that no greater depth changes.
    (Finishes program tokens (.start n tokens) ∧ Finishes wholeExpression tokens (.start n tokens)) ∧
    -- Whatever the depth, the first end of the input is never passed.
    (∀ depth s, (program depth (.start n tokens)).left = some s ∨
      (wholeExpression depth (.start n tokens)).left = some s → s.Within tokens) ∧
    -- What stands behind the end of the input does not matter.
    (∀ junk, tokens ≠ [] →
      Program.ofTokens n (tokens ++ junk) = Program.ofTokens n tokens ∧
      Expr.ofTokens n (tokens ++ junk) = Expr.ofTokens n tokens) ∧
    -- A declaration before the end takes tokens. If it fails it has come to a boundary.
    (∀ depth s, s.Within tokens → s.current.kind ≠ .endOfInput →
      declaration depth s = .exhausted ∧ depth < 16 * s.ahead + 13 ∨
      ∃ v s' taken, declaration depth s = .parsed v s' ∧ s'.Within tokens ∧
        s.rest = taken ++ s'.rest ∧ taken ≠ [] ∧ (v = none → Boundary taken s'.rest)) ∧
    -- So does every skip.
    ∀ rest, ∃ w, rest = w ++ skipToBoundary rest ∧ (∀ t ∈ w, t.kind ≠ .endOfInput) ∧
      Boundary w (skipToBoundary rest) := by
  have hclosed : (State.start n tokens).Closed := State.start_closed n hends
  have hdepth := depthFor_suffices n tokens
  have hprogram : program (depthFor tokens) (.start n tokens) ≠ .exhausted :=
    (program_ends _ _ hdepth).not_exhausted hclosed
  have hexpression : wholeExpression (depthFor tokens) (.start n tokens) ≠ .exhausted :=
    (wholeExpression_ends (by omega)).not_exhausted hclosed
  refine ⟨⟨.of_steady hclosed steady_program hprogram,
    .of_steady hclosed steady_wholeExpression hexpression⟩, ?_, ?_, ?_, skipToBoundary_boundary⟩
  · rintro depth s (hleft | hleft)
    · exact (State.within_start n).nears ((steady_program (Nat.le_refl _)).nears hclosed hleft)
    · exact (State.within_start n).nears ((steady_wholeExpression (Nat.le_refl _)).nears hclosed hleft)
  · exact fun junk hsome => ofTokens_junk n (hends.resolve_left hsome) junk
  · intro depth s hs hk
    refine (declaration_advances depth (hs.closed hends) hk).imp_right ?_
    rintro ⟨v, s', taken, hv, hnears, htaken, hsome, hboundary⟩
    exact ⟨v, s', taken, hv, hs.nears hnears, htaken, hsome, hboundary⟩

def strayTokens : List Token :=
  [⟨.keyword .printWord, "print", 1⟩, ⟨.keyword .printWord, "print", 1⟩, ⟨.mark .semicolon, ";", 1⟩,
   ⟨.mark .rightParen, ")", 1⟩, ⟨.endOfInput, "", 1⟩]

theorem always_stops_stray :
    (∃ t ∈ strayTokens, t.kind = .endOfInput) ∧
      (Program.ofTokens 0 strayTokens).1 =
        .error [.grammatical ⟨.keyword .printWord, "print", 1⟩ (.expected .expression),
          .grammatical ⟨.mark .rightParen, ")", 1⟩ (.expected .expression)] ∧
      Finishes program strayTokens (.start 0 strayTokens) ∧
      ∀ junk, Program.ofTokens 0 (strayTokens ++ junk) = Program.ofTokens 0 strayTokens := by
  have hends : ∃ t ∈ strayTokens, t.kind = .endOfInput := ⟨⟨.endOfInput, "", 1⟩, by decide, rfl⟩
  obtain ⟨⟨hfinishes, -⟩, -, hjunk, -⟩ := always_stops 0 strayTokens (.inr hends)
  exact ⟨hends, by cbv, hfinishes, fun junk => (hjunk junk (by decide)).1⟩

end Parsing

end LoxLang
