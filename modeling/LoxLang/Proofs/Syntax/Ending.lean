import Mathlib
import LoxLang.Syntax.Parsing

/-!
Every production comes to an end.

A production takes tokens from before the end of the input only, and an expression or a statement that ends
well has taken one at least. Between two tokens no more than 16 productions are entered. So the depth that
a token list affords is never used up, and whatever goes wrong is reported as an error of the syntax.
-/

set_option autoImplicit false

namespace LoxLang

namespace Parsing

def State.Closed (s : State) : Prop :=
  (∃ t ∈ s.rest, t.kind = .endOfInput) ∨ s.rest = [] ∧ s.beyond.kind = .endOfInput

def State.ahead (s : State) : Nat := (s.rest.takeWhile fun t => t.kind ≠ .endOfInput).length

/-- The tokens taken are from before the end of the input, and only syntax errors were reported. -/
structure State.Nears (s s' : State) : Prop where
  taken : ∃ w, s.rest = w ++ s'.rest ∧ ∀ t ∈ w, t.kind ≠ .endOfInput
  beyond : s'.beyond = s.beyond
  reported : ∃ errors : List (Token × SyntaxError),
    s'.reported = s.reported ++ errors.map fun e => .grammatical e.1 e.2

namespace State

variable {s s₁ s' : State}

theorem Nears.refl (s : State) : s.Nears s := ⟨⟨[], rfl, by simp⟩, rfl, [], by simp⟩

theorem Nears.trans (h : s.Nears s₁) (h' : s₁.Nears s') : s.Nears s' := by
  obtain ⟨⟨u, hu, hunder⟩, hbeyond, errors, herrors⟩ := h
  obtain ⟨⟨w, hw, hwunder⟩, hbeyond', more, hmore⟩ := h'
  refine ⟨⟨u ++ w, by rw [hu, hw, List.append_assoc], fun t ht => ?_⟩, hbeyond'.trans hbeyond,
    errors ++ more, by rw [hmore, herrors, List.map_append, List.append_assoc]⟩
  rcases List.mem_append.mp ht with ht | ht
  · exact hunder t ht
  · exact hwunder t ht

theorem Nears.closed (h : s.Nears s') (hs : s.Closed) : s'.Closed := by
  obtain ⟨⟨w, hw, hunder⟩, hbeyond, -⟩ := h
  rcases hs with ⟨t, ht, hkind⟩ | ⟨hrest, hkind⟩
  · rw [hw, List.mem_append] at ht
    exact .inl ⟨t, ht.resolve_left fun ht => hunder t ht hkind, hkind⟩
  · rw [hrest] at hw
    exact .inr ⟨(List.append_eq_nil_iff.mp hw.symm).2, hbeyond ▸ hkind⟩

theorem Nears.ahead (h : s.Nears s') : s'.ahead ≤ s.ahead := by
  obtain ⟨⟨w, hw, hunder⟩, -, -⟩ := h
  unfold State.ahead
  rw [hw, List.takeWhile_append_of_pos (by simpa using hunder), List.length_append]
  exact Nat.le_add_left _ _

theorem Closed.ahead_of_end (h : s.current.kind = .endOfInput) : s.ahead = 0 := by
  unfold State.ahead
  cases hrest : s.rest with
  | nil => rfl
  | cons t rest => simp [show t.kind = .endOfInput by simpa [State.current, hrest] using h]

theorem Closed.rest_eq (hs : s.Closed) (hk : s.current.kind ≠ .endOfInput) :
    s.rest = s.current :: s.rest.tail := by
  cases hrest : s.rest with
  | nil =>
    have hbeyond : s.current = s.beyond := by simp [State.current, hrest]
    rcases hs with ⟨t, ht, -⟩ | ⟨-, hkind⟩
    · simp [hrest] at ht
    · exact absurd (hbeyond ▸ hkind) hk
  | cons t rest => simp [State.current, hrest]

theorem Closed.nears_tail (hs : s.Closed) (hk : s.current.kind ≠ .endOfInput) :
    s.Nears { s with rest := s.rest.tail } ∧ State.ahead { s with rest := s.rest.tail } + 1 = s.ahead := by
  have hrest := hs.rest_eq hk
  refine ⟨⟨⟨[s.current], hrest, by simpa using hk⟩, rfl, [], by simp⟩, ?_⟩
  unfold State.ahead
  conv_rhs => rw [hrest]
  simp [hk]

end State

/-- From a state before the end of the input the production comes to an end. If it ends well, no more
than the given number of tokens is ahead. -/
def Ends {α : Type} (p : Parser α) (s : State) (bound : Nat) : Prop :=
  s.Closed →
    match p s with
    | .parsed _ s' => s.Nears s' ∧ s'.ahead ≤ bound
    | .failed _ _ s' => s.Nears s'
    | .exhausted => False

namespace Ends

variable {α β : Type} {p : Parser α} {f : α → Parser β} {s : State} {b c : Nat}

theorem weaken (h : Ends p s b) (hle : b ≤ c) : Ends p s c := by
  intro hs
  have h := h hs
  split at h
  · exact ⟨h.1, Nat.le_trans h.2 hle⟩
  · exact h
  · exact h

theorem ret {v : α} (h : s.ahead ≤ b) : Ends (pure v) s b := fun _ => ⟨.refl s, h⟩

theorem step {q g : Parser β} (s₁ : State) (hq : q s = g s₁) (hs₁ : s.Closed → s.Nears s₁)
    (h : s.Closed → Ends g s₁ b) : Ends q s b := by
  intro hs
  have hnears := hs₁ hs
  have h := h hs (hnears.closed hs)
  rw [hq]
  split at h
  · exact ⟨hnears.trans h.1, h.2⟩
  · exact hnears.trans h
  · exact h

theorem bind (hp : Ends p s c) (hf : ∀ v s₁, s₁.ahead ≤ c → Ends (f v) s₁ b) : Ends (p >>= f) s b := by
  intro hs
  have hp := hp hs
  change match andThen p f s with | .parsed _ _ => _ | .failed _ _ _ => _ | .exhausted => _
  unfold andThen
  cases hv : p s with
  | failed t cause s₁ => simpa [hv] using hp
  | exhausted => simp [hv] at hp
  | parsed v s₁ =>
    rw [hv] at hp
    exact Ends.step (q := fun _ => f v s₁) s₁ rfl (fun _ => hp.1) (fun _ => hf v s₁ hp.2) hs

theorem map {g : α → β} (h : Ends p s b) : Ends (g <$> p) s b := bind h fun _ _ hle => ret hle

theorem current {f : Token → Parser β} (h : Ends (f s.current) s b) : Ends (current >>= f) s b := h

theorem check {f : Bool → Parser β} {kind : Kind} (hyes : Ends (f true) s b) (hno : Ends (f false) s b) :
    Ends (check kind >>= f) s b := by
  change Ends (f (decide (s.current.kind = kind))) s b
  cases decide (s.current.kind = kind)
  · exact hno
  · exact hyes

theorem atEnd {f : Bool → Parser β} (hyes : s.ahead = 0 → Ends (f true) s b)
    (hno : 0 < s.ahead → Ends (f false) s b) : Ends (atEnd >>= f) s b := by
  intro hs
  change match f (decide (s.current.kind = .endOfInput)) s with
    | .parsed _ _ => _ | .failed _ _ _ => _ | .exhausted => _
  by_cases hk : s.current.kind = .endOfInput
  · simpa [hk] using hyes (State.Closed.ahead_of_end hk) hs
  · have hahead := (hs.nears_tail hk).2
    simpa [hk] using hno (by omega) hs

theorem take {q g : Parser β} (hk : s.current.kind ≠ .endOfInput)
    (hq : q s = g { s with rest := s.rest.tail })
    (h : ∀ s₁ : State, s₁.ahead + 1 = s.ahead → Ends g s₁ b) : Ends q s b :=
  step _ hq (fun hs => (hs.nears_tail hk).1) fun hs => h _ (hs.nears_tail hk).2

theorem advance {f : Token → Parser β} (hk : s.current.kind ≠ .endOfInput)
    (h : ∀ (t : Token) (s₁ : State), s₁.ahead + 1 = s.ahead → Ends (f t) s₁ b) :
    Ends (advance >>= f) s b := by
  refine take hk ?_ (h s.current)
  simp [Bind.bind, andThen, Parsing.advance, hk]

theorem accept {f : Option Token → Parser β} {kind : Kind} (hkind : kind ≠ .endOfInput)
    (hsome : ∀ (t : Token) (s₁ : State), s₁.ahead + 1 = s.ahead → Ends (f (some t)) s₁ b)
    (hnone : Ends (f none) s b) : Ends (accept kind >>= f) s b := by
  by_cases hk : s.current.kind = kind
  · refine take (hk ▸ hkind) ?_ (hsome s.current)
    simp [Bind.bind, andThen, Parsing.accept, hk]
  · simpa [Ends, Bind.bind, andThen, Parsing.accept, hk] using hnone

theorem expect {f : Token → Parser β} {kind : Kind} {what : Expectation} (hkind : kind ≠ .endOfInput)
    (h : ∀ (t : Token) (s₁ : State), s₁.ahead + 1 = s.ahead → Ends (f t) s₁ b) :
    Ends (expect kind what >>= f) s b := by
  by_cases hk : s.current.kind = kind
  · refine take (hk ▸ hkind) ?_ (h s.current)
    simp [Bind.bind, andThen, Parsing.expect, hk]
  · intro hs
    simpa [Bind.bind, andThen, Parsing.expect, hk] using State.Nears.refl s

theorem failHere {cause : SyntaxError} : Ends (failHere cause : Parser α) s b := fun _ => .refl s

theorem reference {f : Reference → Parser β} {name : Token}
    (h : ∀ (r : Reference) (s₁ : State), s₁.ahead = s.ahead → Ends (f r) s₁ b) :
    Ends (reference name >>= f) s b :=
  step { s with nextId := s.nextId + 1 } rfl (fun _ => ⟨⟨[], rfl, by simp⟩, rfl, [], by simp⟩)
    fun _ => h _ _ rfl

theorem note {f : Unit → Parser β} {t : Token} {cause : SyntaxError}
    (h : ∀ s₁ : State, s₁.ahead = s.ahead → Ends (f ()) s₁ b) : Ends (note t cause >>= f) s b :=
  step { s with reported := s.reported ++ [.grammatical t cause] } rfl
    (fun _ => ⟨⟨[], rfl, by simp⟩, rfl, [(t, cause)], rfl⟩) fun _ => h _ rfl

theorem noted {condition : Prop} [Decidable condition] {cause : SyntaxError} {q : Parser β}
    (h : ∀ s₁ : State, s₁.ahead = s.ahead → Ends q s₁ b) :
    Ends
      (do if condition then Parsing.note (← Parsing.current) cause
          q) s b := by
  split
  · exact current (note h)
  · exact h s rfl

end Ends

theorem Ends.unless {α β : Type} {p : Parser α} {f : α → Parser β} {s : State} {b : Nat} {kind : Kind}
    {v : α} (hp : Ends p s s.ahead) (hf : ∀ v s₁, s₁.ahead ≤ s.ahead → Ends (f v) s₁ b) :
    Ends (do if ← Parsing.check kind then f (← pure v) else f (← p)) s b :=
  .check (.bind (.ret (Nat.le_refl _)) hf) (.bind hp hf)

theorem levels_goOn : ∀ l ∈ levels, Kind.endOfInput ∉ l.operators := by
  intro l hl
  simp only [levels, List.mem_cons, List.not_mem_nil, or_false] at hl
  rcases hl with rfl | rfl | rfl | rfl | rfl | rfl <;> simp

structure ExpressionsEnd (depth : Nat) : Prop where
  expression : ∀ s, 16 * s.ahead + 11 ≤ depth → Ends (expression depth) s (s.ahead - 1)
  conditional : ∀ s, 16 * s.ahead + 10 ≤ depth → Ends (conditional depth) s (s.ahead - 1)
  level : ∀ ls s, 16 * s.ahead + 3 + ls.length ≤ depth → ls.length ≤ 6 →
    (∀ l ∈ ls, Kind.endOfInput ∉ l.operators) → Ends (level depth ls) s (s.ahead - 1)
  levelRest : ∀ l ls left s, 16 * s.ahead + 1 ≤ depth → ls.length ≤ 5 →
    (∀ k ∈ l :: ls, Kind.endOfInput ∉ k.operators) → Ends (levelRest depth l ls left) s s.ahead
  unary : ∀ s, 16 * s.ahead + 2 ≤ depth → Ends (unary depth) s (s.ahead - 1)
  callRest : ∀ callee s, 16 * s.ahead + 1 ≤ depth → Ends (callRest depth callee) s s.ahead
  arguments : ∀ count s, 16 * s.ahead + 12 ≤ depth → Ends (arguments depth count) s s.ahead
  primary : ∀ s, 16 * s.ahead + 1 ≤ depth → Ends (primary depth) s (s.ahead - 1)

variable {depth : Nat}

theorem expression_ends (ih : ExpressionsEnd depth) (s : State) (h : 16 * s.ahead + 11 ≤ depth + 1) :
    Ends (expression (depth + 1)) s (s.ahead - 1) := by
  rw [expression]
  refine .bind (ih.conditional s (by omega)) fun target s₁ h₁ => ?_
  refine .accept (by simp) (fun equals s₂ h₂ => ?_) (.ret h₁)
  refine .bind (ih.expression s₂ (by omega)) fun value s₃ h₃ => ?_
  have hother : Ends (do note equals .invalidAssignmentTarget; return target) s₃ (s.ahead - 1) :=
    .note fun s₄ h₄ => .ret (by omega)
  cases target with
  | «variable» target => exact .reference fun r s₄ h₄ => .ret (by omega)
  | get object name => exact .ret (by omega)
  | conditional c t e => cases t <;> exact hother
  | _ => exact hother

theorem conditional_ends (ih : ExpressionsEnd depth) (s : State) (h : 16 * s.ahead + 10 ≤ depth + 1) :
    Ends (conditional (depth + 1)) s (s.ahead - 1) := by
  rw [conditional]
  refine .bind (ih.level levels s (by simp [levels]; omega) (by simp [levels]) levels_goOn)
    fun condition s₁ h₁ => ?_
  refine .accept (by simp) (fun _ s₂ h₂ => ?_) (.ret h₁)
  refine .accept (by simp) (fun _ s₃ h₃ => ?_) ?_
  · exact .bind (ih.conditional s₃ (by omega)) fun _ s₄ h₄ => .ret (by omega)
  · refine .bind (ih.conditional s₂ (by omega)) fun _ s₃ h₃ => .expect (by simp) fun _ s₄ h₄ => ?_
    exact .bind (ih.conditional s₄ (by omega)) fun _ s₅ h₅ => .ret (by omega)

theorem level_ends (ih : ExpressionsEnd depth) (ls : List Level) (s : State)
    (h : 16 * s.ahead + 3 + ls.length ≤ depth + 1) (hlength : ls.length ≤ 6)
    (hls : ∀ l ∈ ls, Kind.endOfInput ∉ l.operators) :
    Ends (level (depth + 1) ls) s (s.ahead - 1) := by
  cases ls with
  | nil =>
    rw [level]
    exact ih.unary s (by simpa using h)
  | cons l tighter =>
    simp only [List.length_cons] at h hlength
    rw [level]
    refine .bind (ih.level tighter s (by omega) (by omega) fun k hk => hls k (List.mem_cons_of_mem _ hk))
      fun left s₁ h₁ => ?_
    exact (ih.levelRest l tighter left s₁ (by omega) (by omega) hls).weaken h₁

theorem levelRest_ends (ih : ExpressionsEnd depth) (l : Level) (ls : List Level) (left : Expr)
    (s : State) (h : 16 * s.ahead + 1 ≤ depth + 1) (hlength : ls.length ≤ 5)
    (hls : ∀ k ∈ l :: ls, Kind.endOfInput ∉ k.operators) :
    Ends (levelRest (depth + 1) l ls left) s s.ahead := by
  rw [levelRest]
  refine .current ?_
  split
  · rename_i hoperator
    have hk : s.current.kind ≠ .endOfInput := fun hk =>
      hls l List.mem_cons_self (by simpa [hk] using hoperator)
    refine .advance hk fun operator s₁ h₁ => ?_
    refine .bind (ih.level ls s₁ (by omega) (by omega) fun k hk => hls k (List.mem_cons_of_mem _ hk))
      fun right s₂ h₂ => ?_
    exact (ih.levelRest l ls _ s₂ (by omega) hlength hls).weaken (by omega)
  · exact .ret (Nat.le_refl _)

theorem unary_ends (ih : ExpressionsEnd depth) (s : State) (h : 16 * s.ahead + 2 ≤ depth + 1) :
    Ends (unary (depth + 1)) s (s.ahead - 1) := by
  rw [unary]
  refine .current ?_
  split
  · rename_i hoperator
    have hk : s.current.kind ≠ .endOfInput := fun hk => by simp [hk] at hoperator
    refine .advance hk fun operator s₁ h₁ => ?_
    exact .bind (ih.unary s₁ (by omega)) fun _ s₂ h₂ => .ret (by omega)
  · refine .bind (ih.primary s (by omega)) fun callee s₁ h₁ => ?_
    exact (ih.callRest callee s₁ (by omega)).weaken h₁

theorem callRest_ends (ih : ExpressionsEnd depth) (callee : Expr) (s : State)
    (h : 16 * s.ahead + 1 ≤ depth + 1) : Ends (callRest (depth + 1) callee) s s.ahead := by
  rw [callRest]
  refine .accept (by simp) (fun _ s₁ h₁ => ?_) ?_
  · refine .unless (ih.arguments 0 s₁ (by omega)) fun es s₂ h₂ => ?_
    refine .expect (by simp) fun paren s₃ h₃ => ?_
    exact (ih.callRest _ s₃ (by omega)).weaken (by omega)
  · refine .accept (by simp) (fun _ s₁ h₁ => ?_) (.ret (Nat.le_refl _))
    refine .expect (by simp) fun name s₂ h₂ => ?_
    exact (ih.callRest _ s₂ (by omega)).weaken (by omega)

theorem arguments_end (ih : ExpressionsEnd depth) (count : Nat) (s : State)
    (h : 16 * s.ahead + 12 ≤ depth + 1) : Ends (arguments (depth + 1) count) s s.ahead := by
  rw [arguments]
  refine .noted fun s₁ h₁ => .bind (ih.expression s₁ (by omega)) fun first s₂ h₂ => ?_
  refine .accept (by simp) (fun _ s₃ h₃ => ?_) (.ret (by omega))
  exact .bind (ih.arguments (count + 1) s₃ (by omega)) fun _ s₄ h₄ => .ret (by omega)

theorem primary_ends (ih : ExpressionsEnd depth) (s : State) (h : 16 * s.ahead + 1 ≤ depth + 1) :
    Ends (primary (depth + 1)) s (s.ahead - 1) := by
  rw [primary]
  refine .current ?_
  cases hk : s.current.kind with
  | number value => exact .advance (by simp [hk]) fun _ s₁ h₁ => .ret (by omega)
  | string contents => exact .advance (by simp [hk]) fun _ s₁ h₁ => .ret (by omega)
  | identifier =>
    exact .advance (by simp [hk]) fun _ s₁ h₁ => .reference fun _ s₂ h₂ => .ret (by omega)
  | endOfInput => exact .failHere
  | keyword word =>
    cases word with
    | falseWord | trueWord | nilWord => exact .advance (by simp [hk]) fun _ s₁ h₁ => .ret (by omega)
    | thisWord =>
      exact .advance (by simp [hk]) fun _ s₁ h₁ => .reference fun _ s₂ h₂ => .ret (by omega)
    | superWord =>
      refine .advance (by simp [hk]) fun _ s₁ h₁ => .expect (by simp) fun _ s₂ h₂ => ?_
      exact .expect (by simp) fun _ s₃ h₃ => .reference fun _ s₄ h₄ => .ret (by omega)
    | _ => exact .failHere
  | mark m =>
    cases m with
    | leftParen =>
      refine .advance (by simp [hk]) fun _ s₁ h₁ => ?_
      refine .bind (ih.expression s₁ (by omega)) fun inner s₂ h₂ => ?_
      exact .expect (by simp) fun _ s₃ h₃ => .ret (by omega)
    | _ => exact .failHere

theorem expressionsEnd (depth : Nat) : ExpressionsEnd depth := by
  induction depth with
  | zero => constructor <;> intros <;> omega
  | succ depth ih =>
    exact ⟨expression_ends ih, conditional_ends ih, level_ends ih, levelRest_ends ih, unary_ends ih,
      callRest_ends ih, arguments_end ih, primary_ends ih⟩

theorem expression_ends_of_depth {s : State} (h : 16 * s.ahead + 11 ≤ depth) :
    Ends (expression depth) s (s.ahead - 1) := (expressionsEnd depth).expression s h

theorem parameters_end (depth count : Nat) (s : State) (h : 16 * s.ahead + 1 ≤ depth) :
    Ends (parameters depth count) s s.ahead := by
  induction depth generalizing count s with
  | zero => omega
  | succ depth ih =>
    rw [parameters]
    refine .noted fun s₁ h₁ => .expect (by simp) fun first s₂ h₂ => ?_
    refine .accept (by simp) (fun _ s₃ h₃ => ?_) (.ret (by omega))
    exact .bind (ih (count + 1) s₃ (by omega)) fun _ s₄ h₄ => .ret (by omega)

theorem variableDeclaration_ends (s : State) (h : 16 * s.ahead + 11 ≤ depth) :
    Ends (variableDeclaration depth) s s.ahead := by
  rw [variableDeclaration]
  refine .expect (by simp) fun name s₁ h₁ => ?_
  have hrest : ∀ (e : Option Expr) (s₂ : State), s₂.ahead ≤ s.ahead →
      Ends (do let _ ← expect (.mark .semicolon) .variableEnd; return Stmt.declareVar name e) s₂ s.ahead :=
    fun e s₂ h₂ => .expect (by simp) fun _ s₃ h₃ => .ret (by omega)
  refine .accept (by simp) (fun _ s₂ h₂ => ?_) (.bind (.ret (Nat.le_refl _)) fun e s₂ h₂ => ?_)
  · refine .bind (expression_ends_of_depth (by omega)) fun e s₃ h₃ => ?_
    exact .bind (.ret (Nat.le_refl _)) fun e s₄ h₄ => hrest e s₄ (by omega)
  · exact hrest e s₂ (by omega)

theorem expressionStatement_ends (s : State) (h : 16 * s.ahead + 11 ≤ depth) :
    Ends (expressionStatement depth) s (s.ahead - 1) :=
  .bind (expression_ends_of_depth h) fun _ s₁ h₁ => .expect (by simp) fun _ s₂ h₂ => .ret (by omega)

theorem printStatement_ends (s : State) (h : 16 * s.ahead + 11 ≤ depth) :
    Ends (printStatement depth) s s.ahead :=
  .bind (expression_ends_of_depth h) fun _ s₁ h₁ => .expect (by simp) fun _ s₂ h₂ => .ret (by omega)

theorem optionalExpression_ends {s : State} (h : 16 * s.ahead + 11 ≤ depth) :
    Ends (some <$> expression depth) s s.ahead :=
  (Ends.map (expression_ends_of_depth h)).weaken (Nat.sub_le _ _)

theorem returnStatement_ends (keyword : Token) (s : State) (h : 16 * s.ahead + 11 ≤ depth) :
    Ends (returnStatement depth keyword) s s.ahead :=
  .unless (optionalExpression_ends h) fun _ s₁ h₁ => .expect (by simp) fun _ s₂ h₂ => .ret (by omega)

theorem forInitializer_ends (s : State) (h : 16 * s.ahead + 11 ≤ depth) :
    Ends (forInitializer depth) s s.ahead := by
  rw [forInitializer]
  refine .accept (by simp) (fun _ s₁ h₁ => .ret (by omega)) ?_
  refine .accept (by simp) (fun _ s₁ h₁ => ?_) ?_
  · exact .bind (variableDeclaration_ends s₁ (by omega)) fun _ s₂ h₂ => .ret (by omega)
  · exact .bind (expressionStatement_ends s h) fun _ s₁ h₁ => .ret (by omega)

theorem boundaryAfter_suffix (skipped : Token) (rest : List Token) :
    ∃ w, rest = w ++ boundaryAfter skipped rest ∧ ∀ t ∈ w, t.kind ≠ .endOfInput := by
  induction rest generalizing skipped with
  | nil => exact ⟨[], rfl, by simp⟩
  | cons t rest ih =>
    rw [boundaryAfter]
    split
    · exact ⟨[], rfl, by simp⟩
    · rename_i hgo
      obtain ⟨w, hw, hunder⟩ := ih t
      refine ⟨t :: w, by rw [List.cons_append, ← hw], ?_⟩
      have ht : t.kind ≠ .endOfInput := fun hk => hgo (by simp [hk])
      simpa [ht] using hunder

/-- After a failure at least one token is skipped, unless the end has been reached. -/
theorem State.nears_skip {s : State} (token : Token) (cause : SyntaxError) :
    s.Nears { s with rest := skipToBoundary s.rest, reported := s.reported ++ [.grammatical token cause] } ∧
      State.ahead { s with
        rest := skipToBoundary s.rest, reported := s.reported ++ [.grammatical token cause] } ≤
      s.ahead - 1 := by
  cases hrest : s.rest with
  | nil =>
    refine ⟨⟨⟨[], by simp [hrest, skipToBoundary], by simp⟩, rfl, [(token, cause)], rfl⟩, ?_⟩
    simp [State.ahead, skipToBoundary]
  | cons t rest =>
    rw [skipToBoundary]
    split
    · rename_i hk
      refine ⟨⟨⟨[], hrest, by simp⟩, rfl, [(token, cause)], rfl⟩, ?_⟩
      simp [State.ahead, hk]
    · rename_i hk
      obtain ⟨w, hw, hunder⟩ := boundaryAfter_suffix t rest
      have hnears : State.Nears s { s with
          rest := boundaryAfter t rest, reported := s.reported ++ [.grammatical token cause] } :=
        ⟨⟨t :: w, by rw [hrest, List.cons_append, ← hw], by simpa [hk] using hunder⟩, rfl,
          [(token, cause)], rfl⟩
      refine ⟨hnears, ?_⟩
      have hlength : (rest.takeWhile fun t => t.kind ≠ .endOfInput).length =
          w.length + ((boundaryAfter t rest).takeWhile fun t => t.kind ≠ .endOfInput).length := by
        conv_lhs => rw [hw]
        rw [List.takeWhile_append_of_pos (by simpa using hunder), List.length_append]
      simp only [State.ahead, hrest]
      rw [List.takeWhile_cons_of_pos (by simpa using hk), List.length_cons, hlength]
      omega

theorem Ends.recover {α : Type} {p : Parser α} {s : State} (h : Ends p s (s.ahead - 1)) :
    Ends (recover p) s (s.ahead - 1) := by
  intro hs
  have h := h hs
  unfold Parsing.recover
  cases hp : p s with
  | parsed v s' =>
    rw [hp] at h
    exact h
  | failed t cause s' =>
    rw [hp] at h
    obtain ⟨hskip, hahead⟩ := s'.nears_skip t cause
    exact ⟨State.Nears.trans h hskip, Nat.le_trans hahead (Nat.sub_le_sub_right (State.Nears.ahead h) 1)⟩
  | exhausted => simp [hp] at h

/-- With enough depth the productions for statements end. Declarations, functions and statements take a
token if they end well. -/
structure StatementsEnd (depth : Nat) : Prop where
  declaration : ∀ s, 16 * s.ahead + 13 ≤ depth → Ends (declaration depth) s (s.ahead - 1)
  classDeclaration : ∀ s, 16 * s.ahead + 1 ≤ depth → Ends (classDeclaration depth) s s.ahead
  methods : ∀ s, 16 * s.ahead + 2 ≤ depth → Ends (methods depth) s s.ahead
  function : ∀ kind s, 16 * s.ahead + 1 ≤ depth → Ends (function depth kind) s (s.ahead - 1)
  block : ∀ s, 16 * s.ahead + 15 ≤ depth → Ends (block depth) s s.ahead
  declarations : ∀ s, 16 * s.ahead + 14 ≤ depth → Ends (declarations depth) s s.ahead
  statement : ∀ s, 16 * s.ahead + 12 ≤ depth → Ends (statement depth) s (s.ahead - 1)

theorem declaration_ends (ih : StatementsEnd depth) (s : State) (h : 16 * s.ahead + 13 ≤ depth + 1) :
    Ends (declaration (depth + 1)) s (s.ahead - 1) := by
  rw [declaration]
  refine .recover (.current ?_)
  have hstatement := ih.statement s (by omega)
  cases hk : s.current.kind with
  | keyword word =>
    cases word with
    | classWord =>
      exact .advance (by simp [hk]) fun _ s₁ h₁ =>
        (ih.classDeclaration s₁ (by omega)).weaken (by omega)
    | funWord =>
      refine .advance (by simp [hk]) fun _ s₁ h₁ => ?_
      exact .bind (ih.function .function s₁ (by omega)) fun _ s₂ h₂ => .ret (by omega)
    | varWord =>
      exact .advance (by simp [hk]) fun _ s₁ h₁ =>
        (variableDeclaration_ends s₁ (by omega)).weaken (by omega)
    | _ => exact hstatement
  | _ => exact hstatement

theorem classDeclaration_ends (ih : StatementsEnd depth) (s : State)
    (h : 16 * s.ahead + 1 ≤ depth + 1) : Ends (classDeclaration (depth + 1)) s s.ahead := by
  rw [classDeclaration]
  refine .expect (by simp) fun name s₁ h₁ => ?_
  have hbody : ∀ (base : Option Reference) (s₂ : State), s₂.ahead ≤ s₁.ahead →
      Ends (do
        let _ ← expect (.mark .leftBrace) .classBody
        let methods ← methods depth
        let _ ← expect (.mark .rightBrace) .classEnd
        return Stmt.declareClass name base methods) s₂ s.ahead := by
    refine fun base s₂ h₂ => .expect (by simp) fun _ s₃ h₃ => ?_
    refine .bind (ih.methods s₃ (by omega)) fun methods s₄ h₄ => ?_
    exact .expect (by simp) fun _ s₅ h₅ => .ret (by omega)
  refine .accept (by simp) (fun _ s₂ h₂ => ?_) (.bind (.ret (Nat.le_refl _)) hbody)
  refine .expect (by simp) fun _ s₃ h₃ => .reference fun r s₄ h₄ => ?_
  exact .bind (.ret (Nat.le_refl _)) fun base s₅ h₅ => hbody base s₅ (by omega)

theorem Ends.untilBrace {α : Type} {q : Parser (List α)} {s : State}
    (h : 0 < s.ahead → Ends q s s.ahead) :
    Ends (do if (← Parsing.check (.mark .rightBrace)) || (← Parsing.atEnd) then return [] else q)
      s s.ahead := by
  have hdone : Ends (pure [] : Parser (List α)) s s.ahead := .ret (Nat.le_refl _)
  exact .check (.atEnd (fun _ => hdone) fun _ => hdone) (.atEnd (fun _ => hdone) h)

theorem methods_end (ih : StatementsEnd depth) (s : State) (h : 16 * s.ahead + 2 ≤ depth + 1) :
    Ends (methods (depth + 1)) s s.ahead := by
  rw [methods]
  refine .untilBrace fun hpos => .bind (ih.function .method s (by omega)) fun first s₁ h₁ => ?_
  exact .bind (ih.methods s₁ (by omega)) fun rest s₂ h₂ => .ret (by omega)

theorem function_ends (ih : StatementsEnd depth) (kind : FunctionKind) (s : State)
    (h : 16 * s.ahead + 1 ≤ depth + 1) : Ends (function (depth + 1) kind) s (s.ahead - 1) := by
  rw [function]
  refine .expect (by simp) fun name s₁ h₁ => .expect (by simp) fun _ s₂ h₂ => ?_
  refine .unless (parameters_end depth 0 s₂ (by omega)) fun names s₃ h₃ => ?_
  refine .expect (by simp) fun _ s₄ h₄ => .expect (by simp) fun _ s₅ h₅ => ?_
  exact .bind (ih.block s₅ (by omega)) fun body s₆ h₆ => .ret (by omega)

theorem block_ends (ih : StatementsEnd depth) (s : State) (h : 16 * s.ahead + 15 ≤ depth + 1) :
    Ends (block (depth + 1)) s s.ahead := by
  rw [block]
  refine .bind (ih.declarations s (by omega)) fun body s₁ h₁ => ?_
  exact .expect (by simp) fun _ s₂ h₂ => .ret (by omega)

theorem declarations_end (ih : StatementsEnd depth) (s : State) (h : 16 * s.ahead + 14 ≤ depth + 1) :
    Ends (declarations (depth + 1)) s s.ahead := by
  rw [declarations]
  refine .untilBrace fun hpos => .bind (ih.declaration s (by omega)) fun first s₁ h₁ => ?_
  exact .bind (ih.declarations s₁ (by omega)) fun rest s₂ h₂ => .ret (by omega)

theorem statement_ends (ih : StatementsEnd depth) (s : State) (h : 16 * s.ahead + 12 ≤ depth + 1) :
    Ends (statement (depth + 1)) s (s.ahead - 1) := by
  have hplain : Ends (expressionStatement depth) s (s.ahead - 1) :=
    expressionStatement_ends s (by omega)
  rw [statement]
  refine .current ?_
  cases hk : s.current.kind with
  | keyword word =>
    cases word with
    | forWord =>
      refine .advance (by simp [hk]) fun _ s₁ h₁ => .expect (by simp) fun _ s₂ h₂ => ?_
      refine .bind (forInitializer_ends s₂ (by omega)) fun initializer s₃ h₃ => ?_
      refine .unless ((expression_ends_of_depth (by omega)).weaken (Nat.sub_le _ _))
        fun condition s₄ h₄ => .expect (by simp) fun _ s₅ h₅ => ?_
      refine .unless (optionalExpression_ends (by omega)) fun increment s₆ h₆ => ?_
      refine .expect (by simp) fun _ s₇ h₇ => ?_
      exact .bind (ih.statement s₇ (by omega)) fun body s₈ h₈ => .ret (by omega)
    | ifWord =>
      refine .advance (by simp [hk]) fun _ s₁ h₁ => .expect (by simp) fun _ s₂ h₂ => ?_
      refine .bind (expression_ends_of_depth (by omega)) fun condition s₃ h₃ => ?_
      refine .expect (by simp) fun _ s₄ h₄ => .bind (ih.statement s₄ (by omega)) fun branch s₅ h₅ => ?_
      refine .accept (by simp) (fun _ s₆ h₆ => ?_) (.ret (by omega))
      exact .bind (ih.statement s₆ (by omega)) fun other s₇ h₇ => .ret (by omega)
    | whileWord =>
      refine .advance (by simp [hk]) fun _ s₁ h₁ => .expect (by simp) fun _ s₂ h₂ => ?_
      refine .bind (expression_ends_of_depth (by omega)) fun condition s₃ h₃ => ?_
      refine .expect (by simp) fun _ s₄ h₄ => ?_
      exact .bind (ih.statement s₄ (by omega)) fun body s₅ h₅ => .ret (by omega)
    | returnWord =>
      exact .advance (by simp [hk]) fun keyword s₁ h₁ =>
        (returnStatement_ends keyword s₁ (by omega)).weaken (by omega)
    | breakWord | continueWord =>
      exact .advance (by simp [hk]) fun _ s₁ h₁ => .expect (by simp) fun _ s₂ h₂ => .ret (by omega)
    | printWord =>
      exact .advance (by simp [hk]) fun _ s₁ h₁ => (printStatement_ends s₁ (by omega)).weaken (by omega)
    | _ => exact hplain
  | mark m =>
    cases m with
    | leftBrace =>
      refine .advance (by simp [hk]) fun _ s₁ h₁ => ?_
      exact .bind (ih.block s₁ (by omega)) fun body s₂ h₂ => .ret (by omega)
    | _ => exact hplain
  | _ => exact hplain

theorem statementsEnd (depth : Nat) : StatementsEnd depth := by
  induction depth with
  | zero => constructor <;> intros <;> omega
  | succ depth ih =>
    exact ⟨declaration_ends ih, classDeclaration_ends ih, methods_end ih, function_ends ih,
      block_ends ih, declarations_end ih, statement_ends ih⟩

theorem program_ends (depth : Nat) (s : State) (h : 16 * s.ahead + 14 ≤ depth) :
    Ends (program depth) s 0 := by
  induction depth generalizing s with
  | zero => omega
  | succ depth ih =>
    rw [program]
    refine .atEnd (fun hend => .ret (by omega)) fun hpos => ?_
    refine .bind ((statementsEnd depth).declaration s (by omega)) fun first s₁ h₁ => ?_
    exact .bind (ih s₁ (by omega)) fun rest s₂ h₂ => .ret (by omega)

theorem State.start_closed (n : ReferenceId) {tokens : List Token}
    (h : tokens = [] ∨ ∃ t ∈ tokens, t.kind = .endOfInput) : (State.start n tokens).Closed := by
  rcases h with rfl | h
  · exact .inr ⟨rfl, rfl⟩
  · exact .inl h

theorem State.start_ahead (n : ReferenceId) (tokens : List Token) :
    (State.start n tokens).ahead ≤ tokens.length := (List.takeWhile_sublist _).length_le

end Parsing

/-- Tokens that end, or none, are parsed to a tree or to syntax errors: one at least, and nothing
else. -/
theorem Program.ofTokens_reports {n : ReferenceId} {tokens : List Token}
    (h : tokens = [] ∨ ∃ t ∈ tokens, t.kind = .endOfInput) {errors : List Diagnostic}
    (herrors : (Program.ofTokens n tokens).1 = .error errors) :
    errors ≠ [] ∧ ∀ d ∈ errors, ∃ token cause, d = .grammatical token cause := by
  have hends := Parsing.program_ends (Parsing.depthFor tokens) (.start n tokens)
    (by have := Parsing.State.start_ahead n tokens; unfold Parsing.depthFor; omega)
    (Parsing.State.start_closed n h)
  have hmap : ∀ (n : ReferenceId) (found : List (Token × SyntaxError)), ∀ d ∈
      (Parsing.State.start n tokens).reported ++ found.map fun e => Diagnostic.grammatical e.1 e.2,
      ∃ token cause, d = .grammatical token cause := by
    intro n found d hd
    simp only [Parsing.State.start, List.nil_append, List.mem_map] at hd
    obtain ⟨e, -, rfl⟩ := hd
    exact ⟨e.1, e.2, rfl⟩
  unfold Program.ofTokens at herrors
  cases hp : Parsing.program (Parsing.depthFor tokens) (Parsing.State.start n tokens) with
  | parsed P s =>
    rw [hp] at herrors hends
    obtain ⟨⟨-, -, found, hfound⟩, -⟩ := hends
    rw [Parsing.outcome] at herrors
    split at herrors
    · cases herrors
    · rename_i hsome
      cases herrors
      rw [hfound] at hsome ⊢
      exact ⟨by simpa using hsome, hmap _ found⟩
  | failed token cause s =>
    rw [hp] at herrors hends
    obtain ⟨-, -, found, hfound⟩ := hends
    cases herrors
    rw [hfound]
    refine ⟨by simp, fun d hd => ?_⟩
    rcases List.mem_append.mp hd with hd | hd
    · exact hmap _ found d hd
    · exact ⟨token, cause, List.mem_singleton.mp hd⟩
  | exhausted =>
    rw [hp] at hends
    exact hends.elim

end LoxLang
