import LoxLang.Proofs.Syntax.ExpressionSoundness
import LoxLang.Proofs.Syntax.FirstTokens

/-!
What it means that a production accepts the tokens of a phrase.

`Takes` says that a production ends well and stops before the given tokens, and how many errors it may
report; to accept a phrase is to report none. One token behind a phrase decides whether the production
stops there; `Kind.binding` is how tightly a token holds on to the expression before it.
-/

set_option autoImplicit false

namespace LoxLang

namespace Parsing

/-- The production ends well before the tokens `rest`, and reports no more errors than the limit. -/
def Takes {α : Type} (limit : Nat) (p : Parser α) (s : State) (Q : α → Prop) (rest : List Token) : Prop :=
  ∃ v s', p s = .parsed v s' ∧ s'.rest = rest ∧
    (∃ found, s'.reported = s.reported ++ found ∧ found.length ≤ limit) ∧ Q v

theorem State.current_of_rest {s : State} {t : Token} {rest : List Token} (h : s.rest = t :: rest) :
    s.current = t := by
  simp [State.current, h]

section Rules

variable {α β : Type} {p : Parser α} {f : α → Parser β} {s : State} {P : α → Prop} {Q : β → Prop}
  {mid rest : List Token} {limit : Nat}

theorem Takes.imp {R : α → Prop} (h : Takes limit p s P rest) (himp : ∀ v, P v → R v) :
    Takes limit p s R rest := by
  obtain ⟨v, s', hp, hrest, hrep, hv⟩ := h
  exact ⟨v, s', hp, hrest, hrep, himp v hv⟩

theorem Takes.silent (h : Takes 0 p s P rest) :
    ∃ v s', p s = .parsed v s' ∧ s'.rest = rest ∧ s'.reported = s.reported ∧ P v := by
  obtain ⟨v, s', hp, hrest, ⟨found, hrep, hfound⟩, hv⟩ := h
  obtain rfl : found = [] := List.length_eq_zero_iff.mp (Nat.le_zero.mp hfound)
  exact ⟨v, s', hp, hrest, hrep.trans (List.append_nil _), hv⟩

theorem Takes.ret {v : α} (hs : s.rest = rest) (h : P v) : Takes limit (pure v) s P rest :=
  ⟨v, s, rfl, hs, ⟨[], (List.append_nil _).symm, Nat.zero_le _⟩, h⟩

theorem Takes.step {q g : Parser β} (s₁ : State) (hq : q s = g s₁) (hrep : s₁.reported = s.reported)
    (h : Takes limit g s₁ Q rest) : Takes limit q s Q rest := by
  obtain ⟨v, s', hg, hrest, ⟨found, hrep', hfound⟩, hv⟩ := h
  exact ⟨v, s', hq.trans hg, hrest, ⟨found, by rw [hrep', hrep], hfound⟩, hv⟩

theorem Takes.both {first second : Nat} (hp : Takes first p s P mid)
    (hf : ∀ v s₁, s₁.rest = mid → P v → Takes second (f v) s₁ Q rest) :
    Takes (first + second) (p >>= f) s Q rest := by
  obtain ⟨v, s₁, hp, hrest, ⟨found, hrep, hfound⟩, hv⟩ := hp
  obtain ⟨x, s₂, hx, hrest₂, ⟨more, hrep₂, hmore⟩, hQ⟩ := hf v s₁ hrest hv
  refine ⟨x, s₂, by simp [Bind.bind, andThen, hp, hx], hrest₂, ⟨found ++ more, ?_, ?_⟩, hQ⟩
  · rw [hrep₂, hrep, List.append_assoc]
  · rw [List.length_append]
    exact Nat.add_le_add hfound hmore

theorem Takes.bind (hp : Takes 0 p s P mid)
    (hf : ∀ v s₁, s₁.rest = mid → P v → Takes limit (f v) s₁ Q rest) : Takes limit (p >>= f) s Q rest :=
  Nat.zero_add limit ▸ hp.both hf

theorem Takes.before (hp : Takes limit p s P mid)
    (hf : ∀ v s₁, s₁.rest = mid → P v → Takes 0 (f v) s₁ Q rest) : Takes limit (p >>= f) s Q rest :=
  hp.both hf

theorem Takes.current {f : Token → Parser β} (h : Takes limit (f s.current) s Q rest) :
    Takes limit (current >>= f) s Q rest := h

theorem Takes.atEnd {f : Bool → Parser β}
    (h : Takes limit (f (decide (s.current.kind = .endOfInput))) s Q rest) :
    Takes limit (atEnd >>= f) s Q rest := h

theorem Takes.check {f : Bool → Parser β} {kind : Kind}
    (h : Takes limit (f (decide (s.current.kind = kind))) s Q rest) :
    Takes limit (check kind >>= f) s Q rest := h

theorem Takes.absent {kind : Kind} {v : α} {t : Token} (hs : s.rest = t :: mid) (hk : t.kind = kind)
    (h : Takes limit (f v) s Q rest) :
    Takes limit (do if ← Parsing.check kind then f (← pure v) else f (← p)) s Q rest := by
  refine Takes.check ?_
  simp only [State.current_of_rest hs, hk, decide_true]
  exact h

theorem Takes.present {kind : Kind} {v : α} {t : Token} (hs : s.rest = t :: mid) (hk : t.kind ≠ kind)
    (h : Takes limit (p >>= f) s Q rest) :
    Takes limit (do if ← Parsing.check kind then f (← pure v) else f (← p)) s Q rest := by
  refine Takes.check ?_
  simp only [State.current_of_rest hs, hk, decide_false]
  exact h

theorem Takes.reference {f : Reference → Parser β} {name : Token} (hs : s.rest = mid)
    (h : ∀ (id : ReferenceId) (s₁ : State), s₁.rest = mid → Takes limit (f ⟨id, name⟩) s₁ Q rest) :
    Takes limit (reference name >>= f) s Q rest :=
  Takes.step { s with nextId := s.nextId + 1 } rfl rfl (h s.nextId _ hs)

theorem Takes.advance {f : Token → Parser β} {t : Token} (hs : s.rest = t :: mid)
    (hk : t.kind ≠ .endOfInput) (h : ∀ s₁ : State, s₁.rest = mid → Takes limit (f t) s₁ Q rest) :
    Takes limit (advance >>= f) s Q rest := by
  have ht := State.current_of_rest hs
  refine Takes.step { s with rest := s.rest.tail } ?_ rfl (h _ (by simp [hs]))
  simp [Bind.bind, andThen, Parsing.advance, ht, hk]

theorem Takes.expect {f : Token → Parser β} {t : Token} {kind : Kind} {what : Expectation}
    (hs : s.rest = t :: mid) (hk : t.kind = kind)
    (h : ∀ s₁ : State, s₁.rest = mid → Takes limit (f t) s₁ Q rest) :
    Takes limit (expect kind what >>= f) s Q rest := by
  have ht := State.current_of_rest hs
  refine Takes.step { s with rest := s.rest.tail } ?_ rfl (h _ (by simp [hs]))
  simp [Bind.bind, andThen, Parsing.expect, ht, hk]

theorem Takes.accept {f : Option Token → Parser β} {t : Token} {kind : Kind}
    (hs : s.rest = t :: mid) (hk : t.kind = kind)
    (h : ∀ s₁ : State, s₁.rest = mid → Takes limit (f (some t)) s₁ Q rest) :
    Takes limit (accept kind >>= f) s Q rest := by
  have ht := State.current_of_rest hs
  refine Takes.step { s with rest := s.rest.tail } ?_ rfl (h _ (by simp [hs]))
  simp [Bind.bind, andThen, Parsing.accept, ht, hk]

theorem Takes.refuse {f : Option Token → Parser β} {t : Token} {kind : Kind}
    (hs : s.rest = t :: mid) (hk : t.kind ≠ kind) (h : Takes limit (f none) s Q rest) :
    Takes limit (Parsing.accept kind >>= f) s Q rest := by
  have ht := State.current_of_rest hs
  refine Takes.step s ?_ rfl h
  simp [Bind.bind, andThen, Parsing.accept, ht, hk]

theorem Takes.map {g : α → β} (h : Takes limit p s (fun v => Q (g v)) rest) :
    Takes limit (g <$> p) s Q rest :=
  h.before fun _ _ hs hv => Takes.ret hs hv

theorem Takes.recover {R : Option α → Prop} (h : Takes limit p s P rest) (hR : ∀ x, P x → R (some x)) :
    Takes limit (recover p) s R rest := by
  obtain ⟨v, s', hp, hrest, hrep, hv⟩ := h
  exact ⟨some v, s', by simp [Parsing.recover, hp], hrest, hrep, hR v hv⟩

end Rules

/-- The production takes the tokens of a phrase from every state on, given the depth it needs and a
token behind the phrase at which it stops. -/
structure Reads {α : Type} (limit : Nat) (p : Nat → Parser α) (rank : Nat) (stops : Kind → Prop)
    (Q : α → Prop) (w : List Token) : Prop where
  takes : ∀ {depth : Nat} {s : State} {t : Token} {rest : List Token},
    rank + 16 * w.length ≤ depth → s.rest = w ++ t :: rest → stops t.kind →
      Takes limit (p depth) s Q (t :: rest)

theorem Reads.of_succ {α : Type} {limit : Nat} {p : Nat → Parser α} {rank : Nat}
    {stops : Kind → Prop} {Q : α → Prop} {w : List Token} (hpos : 0 < rank + 16 * w.length)
    (h : ∀ depth s t rest, rank + 16 * w.length ≤ depth + 1 → s.rest = w ++ t :: rest →
      stops t.kind → Takes limit (p (depth + 1)) s Q (t :: rest)) :
    Reads limit p rank stops Q w := by
  refine ⟨fun {depth} {s} {t} {rest} hd hs ht => ?_⟩
  cases depth with
  | zero => omega
  | succ depth => exact h depth s t rest hd hs ht

end Parsing

/-- How tightly a token holds on to the expression before it; 0 if not at all. -/
def Kind.binding : Kind → Nat
  | .mark .equal => 1
  | .mark .question => 2
  | .keyword .orWord => 3
  | .keyword .andWord => 4
  | .mark .bangEqual | .mark .equalEqual => 5
  | .mark .greater | .mark .greaterEqual | .mark .less | .mark .lessEqual => 6
  | .mark .minus | .mark .plus => 7
  | .mark .star | .mark .slash => 8
  | .mark .leftParen | .mark .dot => 9
  | _ => 0

namespace Tier

def binding : Tier → Nat
  | .disjunction => 3
  | .conjunction => 4
  | .equality => 5
  | .comparison => 6
  | .sum => 7
  | .product => 8

theorem binding_le (tier : Tier) : tier.binding ≤ 8 := by
  cases tier <;> decide

theorem mem_operators_iff {tier : Tier} {kind : Kind} :
    kind ∈ tier.operators ↔ kind.binding = tier.binding := by
  constructor
  · intro h
    cases tier <;>
      simp only [operators, List.mem_cons, List.not_mem_nil, or_false] at h <;>
      rcases h with rfl | rfl | rfl | rfl | h <;>
      rfl
  · intro h
    unfold Kind.binding at h
    cases tier <;> split at h <;> simp_all [binding, operators]

end Tier

namespace Parsing

/-- What the productions do with the tokens of a phrase. Those for a level of operators and for calls
are left in the middle, where they look for one more operator or one more call. -/
def Accepted : Phrase → List Token → Prop
  | .declarations body, w =>
    Reads 0 declarations 14 (· = .mark .rightBrace)
      (fun v => Stmt.allAnonymous v = Stmt.allAnonymous body) w
  | .declaration x, w =>
    Reads 0 declaration 13 (fun kind => x.endsOpen = true → kind ≠ .keyword .elseWord)
      (fun v => ∃ y, v = some y ∧ y.anonymous = x.anonymous) w
  | .variable x, w =>
    ∃ word v, w = word :: v ∧ word.kind = .keyword .varWord ∧
      Reads 0 variableDeclaration 11 (fun _ => True) (·.anonymous = x.anonymous) v
  | .statement x, w =>
    Reads 0 statement 12 (fun kind => x.endsOpen = true → kind ≠ .keyword .elseWord)
      (·.anonymous = x.anonymous) w
  | .expressionStatement x, w =>
    Reads 0 expressionStatement 11 (fun _ => True) (·.anonymous = x.anonymous) w
  | .initializer i, w =>
    Reads 0 forInitializer 11 (fun _ => True)
      (fun v => v.map Stmt.anonymous = i.map Stmt.anonymous) w
  | .block body, w =>
    ∃ left v, w = left :: v ∧ left.kind = .mark .leftBrace ∧
      Reads 0 block 15 (fun _ => True) (fun v => Stmt.allAnonymous v = Stmt.allAnonymous body) v
  | .methods ds, w =>
    Reads 0 methods 1 (· = .mark .rightBrace)
      (fun v => Declaration.allAnonymous v = Declaration.allAnonymous ds) w
  | .function d, w =>
    ∀ kind, Reads 0 (function · kind) 0 (fun _ => True) (·.anonymous = d.anonymous) w
  | .parameterList names, w =>
    names = [] ∧ w = [] ∨
      Begins (BEq.beq .identifier) w ∧ Reads 0 (parameters · 0) 0 (· = .mark .rightParen) (· = names) w
  | .parameters names, w =>
    ∀ count, count + names.length ≤ argumentLimit →
      Reads 0 (parameters · count) 0 (· = .mark .rightParen) (· = names) w
  | .optional none, w => w = []
  | .optional (some e), w =>
    Begins Kind.opensExpression w ∧
      Reads 0 expression 11 (·.binding < 1) (·.anonymous = e.anonymous) w
  | .expression e, w => Reads 0 expression 11 (·.binding < 1) (·.anonymous = e.anonymous) w
  | .conditional e, w => Reads 0 conditional 10 (·.binding < 2) (·.anonymous = e.anonymous) w
  | .operation tier e, w =>
    ∀ depth s t rest, 12 - tier.binding + 16 * w.length ≤ depth → s.rest = w ++ t :: rest →
      t.kind.binding < tier.binding + 1 → ∀ (Q : Expr → Prop) (after : List Token),
      (∀ v s' left, s'.rest = t :: rest → v.anonymous = e.anonymous → depth ≤ left + 1 + w.length →
        Takes 0 (levelRest left tier.level (tier.tighter.map Tier.level) v) s' Q after) →
      Takes 0 (level depth tier.levels) s Q after
  | .unary e, w => Reads 0 unary 2 (·.binding < 9) (·.anonymous = e.anonymous) w
  | .call e, w =>
    ∀ depth s t rest, 1 + 16 * w.length ≤ depth → s.rest = w ++ t :: rest →
      ∀ (Q : Expr → Prop) (after : List Token),
      (∀ v s' left, s'.rest = t :: rest → v.anonymous = e.anonymous → depth ≤ left + w.length →
        Takes 0 (callRest left v) s' Q after) →
      Takes 0 (primary depth >>= callRest depth) s Q after
  | .argumentList es, w =>
    es = [] ∧ w = [] ∨
      Begins Kind.opensExpression w ∧ Reads 0 (arguments · 0) 12 (· = .mark .rightParen)
        (fun v => Expr.allAnonymous v = Expr.allAnonymous es) w
  | .arguments es, w =>
    ∀ count, count + es.length ≤ argumentLimit →
      Reads 0 (arguments · count) 12 (· = .mark .rightParen)
        (fun v => Expr.allAnonymous v = Expr.allAnonymous es) w
  | .primary e, w => Reads 0 primary 1 (fun _ => True) (·.anonymous = e.anonymous) w

end Parsing

end LoxLang
