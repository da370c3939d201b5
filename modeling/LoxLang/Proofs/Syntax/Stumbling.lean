import LoxLang.Proofs.Syntax.Merging
import LoxLang.Proofs.Syntax.StatementCompleteness

set_option autoImplicit false

namespace LoxLang

def Kind.separates (kind : Kind) : Bool :=
  kind = .mark .semicolon || kind = .endOfInput || Parsing.resumesAt kind

theorem Tier.not_separates {tier : Tier} {kind : Kind} (h : kind ∈ tier.operators) :
    kind.separates = false := by
  cases tier <;>
    simp only [operators, List.mem_cons, List.not_mem_nil, or_false] at h <;>
    rcases h with rfl | rfl | rfl | rfl | h <;>
    rfl

def Phrase.isExpression : Phrase → Bool
  | .optional _ | .expression _ | .conditional _ | .operation _ _ | .unary _ | .call _ | .argumentList _
  | .arguments _ | .primary _ => true
  | _ => false

theorem Derives.not_separates {ph : Phrase} {w : List Token} (h : Derives ph w)
    (hph : ph.isExpression = true) : ∀ t ∈ w, t.kind.separates = false := by
  induction h with
  | absent | noArguments => simp
  | present _ ih | ofConditional _ ih | ofOperation _ ih | ofCall _ ih | ofPrimary _ ih | arguments _ ih
  | lastArgument _ ih => exact ih rfl
  | assignVariable hname hequal _ ih =>
    have hvalue := ih rfl
    simp_all [Kind.separates, Parsing.resumesAt]
  | assignProperty _ hdot hname hequal _ iho ihe =>
    have hobject := iho rfl
    have hvalue := ihe rfl
    simp_all [Kind.separates, Parsing.resumesAt, or_imp, forall_and]
  | shortConditional _ hquestion hcolon _ ihc ihe =>
    have hcondition := ihc rfl
    have helse := ihe rfl
    simp_all [Kind.separates, Parsing.resumesAt, or_imp, forall_and]
  | fullConditional _ hquestion _ hcolon _ ihc iht ihe =>
    have hcondition := ihc rfl
    have hthen := iht rfl
    have helse := ihe rfl
    simp_all [Kind.separates, Parsing.resumesAt, or_imp, forall_and]
  | @ofOperand tier _ _ _ ih => exact ih (by cases tier <;> rfl)
  | @operation tier operator _ _ _ _ _ ho _ ihl ihr =>
    have hleft := ihl rfl
    have hright := ihr (by cases tier <;> rfl)
    have hoperator := Tier.not_separates ho
    simp_all [or_imp]
  | signed ho _ ih =>
    have hoperand := ih rfl
    simp only [List.mem_cons, List.not_mem_nil, or_false] at ho
    rcases ho with ho | ho <;> simp_all [Kind.separates, Parsing.resumesAt]
  | call _ hleft _ hright ihf ihes =>
    have hcallee := ihf rfl
    have harguments := ihes rfl
    simp_all [Kind.separates, Parsing.resumesAt, or_imp, forall_and]
  | get _ hdot hname ih =>
    have hobject := ih rfl
    simp_all [Kind.separates, Parsing.resumesAt, or_imp, forall_and]
  | argument _ hcomma _ ihe ihes =>
    have hfirst := ihe rfl
    have hothers := ihes rfl
    simp_all [Kind.separates, Parsing.resumesAt, or_imp, forall_and]
  | falseLiteral | trueLiteral | nilLiteral | number | string | receiver | named | superMethod =>
    simp_all [Kind.separates, Parsing.resumesAt]
  | grouping hleft _ hright ih =>
    have hinner := ih rfl
    simp_all [Kind.separates, Parsing.resumesAt, or_imp, forall_and]
  | _ => cases hph

namespace Parsing

/-- Nothing in an expression stops a skip. -/
theorem boundaryAfter_over {skipped : Token} {w : List Token} (rest : List Token)
    (hskipped : skipped.kind ≠ .mark .semicolon) (hw : ∀ t ∈ w, t.kind.separates = false) :
    ∃ t : Token, t.kind ≠ .mark .semicolon ∧
      boundaryAfter skipped (w ++ rest) = boundaryAfter t rest := by
  induction w generalizing skipped with
  | nil => exact ⟨skipped, hskipped, rfl⟩
  | cons t w ih =>
    obtain ⟨ht, hw⟩ := List.forall_mem_cons.mp hw
    simp only [Kind.separates, Bool.or_eq_false_iff, decide_eq_false_iff_not] at ht
    obtain ⟨u, hu, hskip⟩ := ih ht.1.1 hw
    exact ⟨u, hu, by rw [List.cons_append, boundaryAfter]; simp [hskipped, ht, hskip]⟩

theorem skip_past_semicolon {first semicolon : Token} {w : List Token} (rest : List Token)
    (hend : first.kind ≠ .endOfInput) (hfirst : first.kind ≠ .mark .semicolon)
    (hw : ∀ t ∈ w, t.kind.separates = false) (hsemicolon : semicolon.kind = .mark .semicolon) :
    skipToBoundary (first :: (w ++ semicolon :: rest)) = rest := by
  obtain ⟨t, ht, hskip⟩ := boundaryAfter_over (semicolon :: rest) hfirst hw
  rw [skipToBoundary, if_neg hend, hskip, boundaryAfter]
  cases rest <;> simp [boundaryAfter, hsemicolon, ht, resumesAt]

theorem skip_to_keyword {first word : Token} {w : List Token} (rest : List Token)
    (hend : first.kind ≠ .endOfInput) (hfirst : first.kind ≠ .mark .semicolon)
    (hw : ∀ t ∈ w, t.kind.separates = false) (hword : resumesAt word.kind = true) :
    skipToBoundary (first :: (w ++ word :: rest)) = word :: rest := by
  obtain ⟨t, -, hskip⟩ := boundaryAfter_over (word :: rest) hfirst hw
  rw [skipToBoundary, if_neg hend, hskip, boundaryAfter]
  simp [hword]

/-- The production fails before the tokens `rest`, and reports nothing. -/
def Fails {α : Type} (p : Parser α) (s : State) (rest : List Token) : Prop :=
  ∃ token cause s', p s = .failed token cause s' ∧ s'.rest = rest ∧ s'.reported = s.reported

namespace Fails

variable {α β : Type} {p : Parser α} {f : α → Parser β} {s : State} {P : α → Prop} {mid rest : List Token}
  {t : Token} {kind : Kind}

theorem step {q g : Parser β} (s₁ : State) (hq : q s = g s₁) (hrep : s₁.reported = s.reported)
    (h : Fails g s₁ rest) : Fails q s rest := by
  obtain ⟨token, cause, s', hg, hrest, hrep'⟩ := h
  exact ⟨token, cause, s', hq.trans hg, hrest, hrep'.trans hrep⟩

theorem here {cause : SyntaxError} (hs : s.rest = rest) : Fails (failHere cause : Parser α) s rest :=
  ⟨s.current, cause, s, rfl, hs, rfl⟩

theorem first (h : Fails p s rest) : Fails (p >>= f) s rest := by
  obtain ⟨token, cause, s', hp, hrest, hrep⟩ := h
  exact ⟨token, cause, s', by simp [Bind.bind, andThen, hp], hrest, hrep⟩

theorem after (hp : Takes 0 p s P mid) (hf : ∀ v s₁, s₁.rest = mid → P v → Fails (f v) s₁ rest) :
    Fails (p >>= f) s rest := by
  obtain ⟨v, s₁, hp, hmid, hrep, hv⟩ := hp.silent
  exact step s₁ (by simp [Bind.bind, andThen, hp]) hrep (hf v s₁ hmid hv)

theorem current {f : Token → Parser β} (h : Fails (f s.current) s rest) : Fails (current >>= f) s rest := h

theorem advance {f : Token → Parser β} (hs : s.rest = t :: mid) (hk : t.kind ≠ .endOfInput)
    (h : ∀ s₁ : State, s₁.rest = mid → Fails (f t) s₁ rest) : Fails (advance >>= f) s rest := by
  have ht := State.current_of_rest hs
  refine step { s with rest := s.rest.tail } ?_ rfl (h _ (by simp [hs]))
  simp [Bind.bind, andThen, Parsing.advance, ht, hk]

theorem expect {f : Token → Parser β} {what : Expectation} (hs : s.rest = t :: mid) (hk : t.kind = kind)
    (h : ∀ s₁ : State, s₁.rest = mid → Fails (f t) s₁ rest) : Fails (expect kind what >>= f) s rest := by
  have ht := State.current_of_rest hs
  refine step { s with rest := s.rest.tail } ?_ rfl (h _ (by simp [hs]))
  simp [Bind.bind, andThen, Parsing.expect, ht, hk]

theorem accept {f : Option Token → Parser β} (hs : s.rest = t :: mid) (hk : t.kind = kind)
    (h : ∀ s₁ : State, s₁.rest = mid → Fails (f (some t)) s₁ rest) : Fails (accept kind >>= f) s rest := by
  have ht := State.current_of_rest hs
  refine step { s with rest := s.rest.tail } ?_ rfl (h _ (by simp [hs]))
  simp [Bind.bind, andThen, Parsing.accept, ht, hk]

theorem refuse {f : Option Token → Parser β} (hs : s.rest = t :: mid) (hk : t.kind ≠ kind)
    (h : Fails (f none) s rest) : Fails (Parsing.accept kind >>= f) s rest := by
  have ht := State.current_of_rest hs
  refine step s ?_ rfl h
  simp [Bind.bind, andThen, Parsing.accept, ht, hk]

theorem present {v : α} (hs : s.rest = t :: mid) (hk : t.kind ≠ kind) (h : Fails (p >>= f) s rest) :
    Fails (do if ← Parsing.check kind then f (← pure v) else f (← p)) s rest := by
  refine step (g := p >>= f) s ?_ rfl h
  change (if decide (s.current.kind = kind) then f v else p >>= f : Parser β) s = _
  rw [State.current_of_rest hs, decide_eq_false hk]
  rfl

theorem missing {f : Token → Parser β} {what : Expectation} (hs : s.rest = t :: rest) (hk : t.kind ≠ kind) :
    Fails (Parsing.expect kind what >>= f) s (t :: rest) := by
  have ht := State.current_of_rest hs
  exact ⟨t, .expected what, s, by simp [Bind.bind, andThen, Parsing.expect, ht, hk], hs, rfl⟩

theorem recover (h : Fails p s rest) :
    Takes 1 (recover p) s (fun _ => True) (skipToBoundary rest) := by
  obtain ⟨token, cause, s', hp, hrest, hrep⟩ := h
  refine ⟨none, _, by rw [Parsing.recover, hp], by rw [hrest], ⟨[.grammatical token cause], ?_, ?_⟩, trivial⟩
  · rw [hrep]
  · simp

end Fails

variable {depth : Nat} {s : State} {t : Token} {rest : List Token}

theorem primary_fails (hd : 1 ≤ depth) (hs : s.rest = t :: rest) (ht : t.kind.opensPrimary = false) :
    Fails (primary depth) s (t :: rest) := by
  obtain ⟨depth, rfl⟩ : ∃ d, depth = d + 1 := ⟨depth - 1, by omega⟩
  rw [primary]
  refine Fails.current ?_
  rw [State.current_of_rest hs]
  split
  case h_10 => exact .here hs
  all_goals
    rename_i hk
    simp [hk, Kind.opensPrimary] at ht

theorem unary_fails (hd : 2 ≤ depth) (hs : s.rest = t :: rest) (ht : t.kind.opensExpression = false) :
    Fails (unary depth) s (t :: rest) := by
  obtain ⟨depth, rfl⟩ : ∃ d, depth = d + 1 := ⟨depth - 1, by omega⟩
  rw [unary]
  refine Fails.current ?_
  rw [State.current_of_rest hs, if_neg]
  · refine Fails.first (primary_fails (by omega) hs ?_)
    cases hk : t.kind.opensPrimary with
    | false => rfl
    | true => rw [Kind.opensExpression_of_opensPrimary hk] at ht; cases ht
  · intro ho
    simp only [List.contains_cons, List.contains_nil, Bool.or_false, Bool.or_eq_true, beq_iff_eq] at ho
    rcases ho with ho | ho <;> simp [ho, Kind.opensExpression] at ht

theorem level_fails (ls : List Level) (hd : 3 + ls.length ≤ depth) (hs : s.rest = t :: rest)
    (ht : t.kind.opensExpression = false) : Fails (level depth ls) s (t :: rest) := by
  induction ls generalizing depth with
  | nil =>
    obtain ⟨depth, rfl⟩ : ∃ d, depth = d + 1 := ⟨depth - 1, by omega⟩
    rw [level]
    exact unary_fails (by simpa using hd) hs ht
  | cons l tighter ih =>
    simp only [List.length_cons] at hd
    obtain ⟨depth, rfl⟩ : ∃ d, depth = d + 1 := ⟨depth - 1, by omega⟩
    rw [level]
    exact Fails.first (ih (by omega))

theorem expression_fails (hd : 11 ≤ depth) (hs : s.rest = t :: rest) (ht : t.kind.opensExpression = false) :
    Fails (expression depth) s (t :: rest) := by
  obtain ⟨depth, rfl⟩ : ∃ d, depth = d + 2 := ⟨depth - 2, by omega⟩
  rw [expression]
  refine Fails.first ?_
  rw [conditional]
  exact Fails.first (level_fails levels (by simp [levels]; omega) hs ht)

end Parsing

end LoxLang
