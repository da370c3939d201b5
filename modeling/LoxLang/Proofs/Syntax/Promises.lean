import LoxLang.Proofs.Syntax.Grammar
import LoxLang.Proofs.Syntax.Identities
import LoxLang.Syntax.Parsing

/-!
What a production promises when it ends well.

`Yields` relates the tokens a production took to what it answered, provided that nothing was reported
on the way. `Built` is what every production promises of its answer: it is derived from those tokens,
it obeys the conditions beside the rules, and its references were given identities that no other
reference has.
-/

set_option autoImplicit false

namespace LoxLang

/-- What a production promises of the phrase it answers. -/
structure Built (ph : Phrase) (w : List Token) (lo hi : ReferenceId) : Prop where
  derives : Derives ph w
  limits : ph.WithinLimits
  nearest : ph.NearestElse
  drawn : Drawn lo hi (identities ph.references)

namespace Parsing

def State.Ended (s : State) : Prop :=
  ∃ body last, s.rest = body ++ [last] ∧ last.kind = .endOfInput

theorem State.Ended.cons {s : State} (h : s.Ended) : s.rest = s.current :: s.rest.tail := by
  obtain ⟨body, last, hrest, -⟩ := h
  cases body <;> simp [State.current, hrest]

theorem State.Ended.tail {s : State} (h : s.Ended) (hk : s.current.kind ≠ .endOfInput)
    {next : State} (hnext : next.rest = s.rest.tail) : next.Ended := by
  obtain ⟨body, last, hrest, hlast⟩ := h
  cases body with
  | nil => simp [State.current, hrest, hlast] at hk
  | cons t body => exact ⟨body, last, by simp [hnext, hrest], hlast⟩

theorem State.Ended.of_rest {s next : State} (h : s.Ended) (hnext : next.rest = s.rest) :
    next.Ended := by
  simpa [State.Ended, hnext] using h

structure State.Leads (s s' : State) : Prop where
  ended : s'.Ended
  drawn : s.nextId ≤ s'.nextId

theorem State.Leads.trans {s s₁ s' : State} (h : s.Leads s₁) (h' : s₁.Leads s') : s.Leads s' :=
  ⟨h'.ended, Nat.le_trans h.drawn h'.drawn⟩

theorem State.Ended.leads {s : State} (h : s.Ended) : s.Leads s := ⟨h, Nat.le_refl _⟩

/-- What holds of the answer, the tokens taken and the state after a production, if nothing was
reported. Also a production that fails stays before the end of the input. -/
def Yields {α : Type} (p : Parser α) (s : State) (Q : α → List Token → State → Prop) : Prop :=
  s.Ended →
    match p s with
    | .parsed v s' =>
      s.Leads s' ∧ (s'.reported = [] → s.reported = [] ∧ ∃ w, s.rest = w ++ s'.rest ∧ Q v w s')
    | .failed _ _ s' => s.Leads s'
    | .exhausted => True

section Rules

variable {α β : Type} {p : Parser α} {f : α → Parser β} {s : State}
  {Q : β → List Token → State → Prop}

theorem Yields.imp {P R : α → List Token → State → Prop} (h : Yields p s P)
    (himp : ∀ v w s', P v w s' → R v w s') : Yields p s R := by
  intro hs
  have h := h hs
  split at h
  · obtain ⟨hs', hrest⟩ := h
    refine ⟨hs', fun hrep => ?_⟩
    obtain ⟨h₀, w, hw, hP⟩ := hrest hrep
    exact ⟨h₀, w, hw, himp _ w _ hP⟩
  · exact h
  · trivial

theorem Yields.ret {P : α → List Token → State → Prop} {v : α} (h : P v [] s) :
    Yields (pure v) s P :=
  fun hs => ⟨hs.leads, fun hrep => ⟨hrep, [], rfl, h⟩⟩

theorem Yields.bind {P : α → List Token → State → Prop} (hp : Yields p s P)
    (hf : ∀ v u s₁, Yields (f v) s₁ fun x w s' => P v u s₁ → Q x (u ++ w) s') :
    Yields (p >>= f) s Q := by
  intro hs
  have hp := hp hs
  change match andThen p f s with | .parsed _ _ => _ | .failed _ _ _ => _ | .exhausted => _
  unfold andThen
  cases hv : p s with
  | failed t cause s₁ => simpa [hv] using hp
  | exhausted => trivial
  | parsed v s₁ =>
    rw [hv] at hp
    obtain ⟨hs₁, hrest₁⟩ := hp
    have hf₁ := fun u => hf v u s₁ hs₁.ended
    simp only
    cases hx : f v s₁ with
    | failed t cause s' => exact hs₁.trans (by simpa [hx] using hf₁ [])
    | exhausted => trivial
    | parsed x s' =>
      simp only [hx] at hf₁
      refine ⟨hs₁.trans (hf₁ []).1, fun hrep => ?_⟩
      -- Which tokens `p` took is known only now that nothing was reported after it.
      obtain ⟨hrep₁, -⟩ := (hf₁ []).2 hrep
      obtain ⟨h₀, u, hu, hP⟩ := hrest₁ hrep₁
      obtain ⟨-, w, hw, hQ⟩ := (hf₁ u).2 hrep
      exact ⟨h₀, u ++ w, by rw [hu, hw, List.append_assoc], hQ hP⟩

theorem Yields.current {f : Token → Parser β} (h : Yields (f s.current) s Q) :
    Yields (current >>= f) s Q := h

theorem Yields.atEnd {f : Bool → Parser β}
    (h : Yields (f (decide (s.current.kind = .endOfInput))) s Q) :
    Yields (atEnd >>= f) s Q := h

theorem Yields.check {f : Bool → Parser β} {kind : Kind}
    (hyes : s.current.kind = kind → Yields (f true) s Q)
    (hno : s.current.kind ≠ kind → Yields (f false) s Q) : Yields (check kind >>= f) s Q := by
  by_cases hk : s.current.kind = kind
  · simpa [Yields, Bind.bind, andThen, Parsing.check, hk] using hyes hk
  · simpa [Yields, Bind.bind, andThen, Parsing.check, hk] using hno hk

theorem Yields.step {q g : Parser β} (s₁ : State) (u : List Token) (hq : q s = g s₁)
    (hleads : s.Ended → s.Leads s₁) (hrest : s.Ended → s.rest = u ++ s₁.rest)
    (hrep : s₁.reported = s.reported) (h : Yields g s₁ fun x w s' => Q x (u ++ w) s') :
    Yields q s Q := by
  intro hs
  have h := h (hleads hs).ended
  rw [hq]
  split at h
  · obtain ⟨hs', hafter⟩ := h
    refine ⟨(hleads hs).trans hs', fun hnone => ?_⟩
    obtain ⟨h₀, w, hw, hQ⟩ := hafter hnone
    exact ⟨hrep ▸ h₀, u ++ w, by rw [hrest hs, hw, List.append_assoc], hQ⟩
  · exact (hleads hs).trans h
  · trivial

theorem Yields.reference {f : Reference → Parser β} {name : Token}
    (h : ∀ s₁ : State, s₁.nextId = s.nextId + 1 → Yields (f ⟨s.nextId, name⟩) s₁ Q) :
    Yields (reference name >>= f) s Q :=
  Yields.step { s with nextId := s.nextId + 1 } [] rfl
    (fun hs => ⟨hs.of_rest rfl, Nat.le_succ _⟩) (fun _ => rfl) rfl (h _ rfl)

theorem Yields.take {q g : Parser β} (hk : s.current.kind ≠ .endOfInput)
    (hq : q s = g { s with rest := s.rest.tail })
    (h : Yields g { s with rest := s.rest.tail } fun x w s' => Q x (s.current :: w) s') :
    Yields q s Q :=
  Yields.step { s with rest := s.rest.tail } [s.current] hq (fun hs => ⟨hs.tail hk rfl, Nat.le_refl _⟩)
    (fun hs => hs.cons) rfl h

theorem Yields.advance {f : Token → Parser β} (hk : s.current.kind ≠ .endOfInput)
    (h : ∀ s₁ : State, s₁.nextId = s.nextId →
      Yields (f s.current) s₁ fun x w s' => Q x (s.current :: w) s') :
    Yields (advance >>= f) s Q := by
  refine Yields.take hk ?_ (h { s with rest := s.rest.tail } rfl)
  simp [Bind.bind, andThen, Parsing.advance, hk]

theorem Yields.expect {f : Token → Parser β} {kind : Kind} {what : Expectation}
    (hkind : kind ≠ .endOfInput)
    (h : ∀ (t : Token) (s₁ : State), t.kind = kind → s₁.nextId = s.nextId →
      Yields (f t) s₁ fun x w s' => Q x (t :: w) s') :
    Yields (expect kind what >>= f) s Q := by
  by_cases hk : s.current.kind = kind
  · refine Yields.take (hk ▸ hkind) ?_ (h s.current { s with rest := s.rest.tail } hk rfl)
    simp [Bind.bind, andThen, Parsing.expect, hk]
  · intro hs
    simpa [Bind.bind, andThen, Parsing.expect, hk] using hs.leads

theorem Yields.accept {f : Option Token → Parser β} {kind : Kind} (hkind : kind ≠ .endOfInput)
    (hsome : ∀ (t : Token) (s₁ : State), t.kind = kind → s₁.nextId = s.nextId →
      Yields (f (some t)) s₁ fun x w s' => s.current.kind = kind → Q x (t :: w) s')
    (hnone : s.current.kind ≠ kind → Yields (f none) s Q) :
    Yields (accept kind >>= f) s Q := by
  by_cases hk : s.current.kind = kind
  · refine Yields.take (hk ▸ hkind) ?_
      ((hsome s.current { s with rest := s.rest.tail } hk rfl).imp fun _ _ _ h => h hk)
    simp [Bind.bind, andThen, Parsing.accept, hk]
  · have hnone := hnone hk
    simpa [Yields, Bind.bind, andThen, Parsing.accept, hk] using hnone

theorem Yields.map {g : α → β} (h : Yields p s fun v w s' => Q (g v) w s') :
    Yields (g <$> p) s Q := by
  refine Yields.bind h fun v u s₁ => Yields.ret ?_
  simp

theorem Yields.unless {P : α → List Token → State → Prop} {kind : Kind} {v : α}
    (hskip : P v [] s) (hp : Yields p s P)
    (hf : ∀ v u s₁, Yields (f v) s₁ fun x w s' => P v u s₁ → Q x (u ++ w) s') :
    Yields (do if ← Parsing.check kind then f (← pure v) else f (← p)) s Q := by
  refine Yields.check (fun _ => ?_) fun _ => Yields.bind hp hf
  exact Yields.bind (Yields.ret hskip) hf

theorem Yields.note {f : Unit → Parser β} {t : Token} {cause : SyntaxError}
    {P : β → List Token → State → Prop} (h : ∀ s₁ : State, Yields (f ()) s₁ P) :
    Yields (note t cause >>= f) s Q := by
  intro hs
  let s₁ : State := { s with reported := s.reported ++ [.grammatical t cause] }
  have hs₁ : s.Leads s₁ := ⟨hs.of_rest rfl, Nat.le_refl _⟩
  have h := h s₁ hs₁.ended
  change match f () s₁ with | .parsed _ _ => _ | .failed _ _ _ => _ | .exhausted => _
  split at h
  · obtain ⟨hs', hrest⟩ := h
    refine ⟨hs₁.trans hs', fun hrep => ?_⟩
    simpa [s₁] using (hrest hrep).1
  · exact hs₁.trans h
  · trivial

theorem Yields.failHere {cause : SyntaxError} : Yields (failHere cause) s Q := fun hs => hs.leads

theorem Yields.outOfDepth : Yields outOfDepth s Q := fun _ => trivial

theorem ended_boundaryAfter (skipped : Token) (rest : List Token) (last : Token)
    (h : last.kind = .endOfInput) (body : List Token) (hrest : rest = body ++ [last]) :
    ∃ body', boundaryAfter skipped rest = body' ++ [last] := by
  induction body generalizing rest skipped with
  | nil =>
    subst hrest
    exact ⟨[], by simp [boundaryAfter, h]⟩
  | cons t body ih =>
    subst hrest
    rw [List.cons_append, boundaryAfter]
    split
    · exact ⟨t :: body, rfl⟩
    · exact ih t _ rfl

theorem State.Ended.skipToBoundary {s next : State} (hs : s.Ended)
    (hnext : next.rest = Parsing.skipToBoundary s.rest) : next.Ended := by
  obtain ⟨body, last, hrest, hlast⟩ := hs
  cases body with
  | nil => exact ⟨[], last, by simp [hnext, hrest, Parsing.skipToBoundary, hlast], hlast⟩
  | cons t body =>
    rw [hrest, List.cons_append, Parsing.skipToBoundary] at hnext
    split at hnext
    · exact ⟨t :: body, last, hnext, hlast⟩
    · obtain ⟨body', hbody⟩ := ended_boundaryAfter t _ last hlast body rfl
      exact ⟨body', last, hnext.trans hbody, hlast⟩

theorem Yields.recover {Q : α → List Token → State → Prop} (h : Yields p s Q) :
    Yields (recover p) s fun v w s' => ∃ x, v = some x ∧ Q x w s' := by
  intro hs
  have h := h hs
  unfold Parsing.recover
  cases hp : p s with
  | parsed v s' =>
    rw [hp] at h
    obtain ⟨hs', hrest⟩ := h
    refine ⟨hs', fun hrep => ?_⟩
    obtain ⟨h₀, w, hw, hQ⟩ := hrest hrep
    exact ⟨h₀, w, hw, v, rfl, hQ⟩
  | failed t cause s' =>
    rw [hp] at h
    have h : s.Leads s' := h
    exact ⟨⟨State.Ended.skipToBoundary h.ended rfl, h.drawn⟩, fun hrep => by simp at hrep⟩
  | exhausted => trivial

end Rules

/-- A production that answers a phrase keeps the promise from every state on. -/
def Builds {α : Type} (p : Parser α) (ph : α → Phrase) : Prop :=
  ∀ s, Yields p s fun v w s' => Built (ph v) w s.nextId s'.nextId

end Parsing

end LoxLang
