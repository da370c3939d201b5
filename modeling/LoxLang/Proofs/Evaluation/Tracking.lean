import LoxLang.Proofs.Evaluation.Data
import LoxLang.Proofs.Evaluation.Ensures
import LoxLang.Proofs.Store.Pairing

/-!
Computations that track each other.

One computation runs on a machine, the other one on a machine whose store has the environments of more
braces. Step by step they print and read the same, and they answer the same value or fail for the same
cause on the same line. In one direction the first one may run out of fuel where the second one does not,
in the other direction the second one.
-/

set_option autoImplicit false

namespace LoxLang

/-- Which of two computations may run out of fuel on its own. -/
inductive Direction where
  | forward
  | backward

namespace Machine

def pair (m m' : Machine) (g : FrameId → FrameId) : StorePair := ⟨m.store, m'.store, g⟩

/-- The machines differ in the environments of braces and in the tables of hop counts. -/
structure Beside (T : Tables) (g : FrameId → FrameId) (m m' : Machine) : Prop where
  sound : (m.pair m' g).Sound T
  first : m.hops = T.first
  second : m'.hops = T.second
  sink : m'.sink = m.sink
  input : m'.input = m.input
  calls : m'.calls = m.calls
  clock : m'.clock = m.clock

theorem Beside.moved {T : Tables} {g : FrameId → FrameId} {m m' : Machine} (h : m.Beside T g m')
    (a b : FrameId) : Beside T g { m with cursor := a } { m' with cursor := b } :=
  ⟨h.sound, h.first, h.second, h.sink, h.input, h.calls, h.clock⟩

theorem Beside.counting {T : Tables} {g : FrameId → FrameId} {m m' : Machine} (h : m.Beside T g m')
    (f : Nat → Nat) : Beside T g { m with calls := f m.calls } { m' with calls := f m'.calls } :=
  ⟨h.sound, h.first, h.second, h.sink, h.input, congrArg f h.calls, h.clock⟩

structure At (T : Tables) (K : Layers) (g : FrameId → FrameId) (m m' : Machine) : Prop extends
    Beside T g m m' where
  linked : (m.pair m' g).Linked K m.cursor m'.cursor

end Machine

section

variable {α β : Type} {T : Tables} {dir : Direction} {K : Layers}

/-- Two outcomes of computations that track each other, in later stores than the given ones and in the same
environment as before. -/
inductive Outcome.Tracks (T : Tables) (dir : Direction) (K : Layers) (W : StorePair) (cursor : FrameId)
    (Q : StorePair → α → β → Prop) : Outcome α → Outcome β → Prop
  | answer {v : α} {v' : β} {m m' : Machine} {g : FrameId → FrameId} : W.Grows (m.pair m' g) →
    m.At T K g m' → m.cursor = cursor → Q (m.pair m' g) v v' →
    Outcome.Tracks T dir K W cursor Q (.answer v m) (.answer v' m')
  | fault {fault : Fault} {m m' : Machine} {g : FrameId → FrameId} : m.Beside T g m' →
    Outcome.Tracks T dir K W cursor Q (.fault fault m) (.fault fault m')
  | first {o : Outcome β} : dir = .forward → Outcome.Tracks T dir K W cursor Q .exhausted o
  | second {o : Outcome α} : dir = .backward → Outcome.Tracks T dir K W cursor Q o .exhausted

namespace Eval

/-- The two computations track each other on these machines. -/
def Tracks (T : Tables) (dir : Direction) (K : Layers) (act : Eval α) (act' : Eval β)
    (Q : StorePair → α → β → Prop) (g : FrameId → FrameId) (m m' : Machine) : Prop :=
  m.At T K g m' → Outcome.Tracks T dir K (m.pair m' g) m.cursor Q (act m) (act' m')

end Eval

end

section

variable {α : Type}

def SameAnswer (_ : StorePair) (v v' : α) : Prop := v' = v

def SameValue (T : Tables) (W : StorePair) (v v' : Value) : Prop := v' = v ∧ W.Fits T v

def SameValues (T : Tables) (W : StorePair) (vs vs' : List Value) : Prop :=
  vs' = vs ∧ ∀ v ∈ vs, W.Fits T v

def SameEnding (T : Tables) (W : StorePair) (ending ending' : Ending) : Prop :=
  ending' = ending ∧ ∀ v, ending = .returned v → W.Fits T v

def LinkedFrames (K : Layers) (W : StorePair) (a b : FrameId) : Prop := W.Linked K a b

end

theorem StorePair.Fits.of_isData {T : Tables} {W : StorePair} {v : Value} (h : v.isData = true) :
    W.Fits T v := by
  cases v with
  | function => cases h
  | _ => trivial

theorem Except.agree_of_eq {ε α : Type} {R : α → α → Prop} {x y : Except ε α} (h : y = x)
    (hR : ∀ v, x = .ok v → R v v) : Except.Agree R x y := by
  subst h
  cases y with
  | ok v => exact .ok (hR v rfl)
  | error cause => exact .error cause

section

variable {T : Tables} {dir : Direction} {K : Layers} {g : FrameId → FrameId} {m m' : Machine}

theorem Machine.At.mono {g₁ : FrameId → FrameId} {m₁ m₁' : Machine} (h : m.At T K g m')
    (hg : (m.pair m' g).Grows (m₁.pair m₁' g₁)) (h₁ : m₁.Beside T g₁ m₁')
    (hcursor : m₁.cursor = m.cursor) (hcursor' : m₁'.cursor = m'.cursor) : m₁.At T K g₁ m₁' :=
  ⟨h₁, by rw [hcursor, hcursor']; exact h.linked.mono hg⟩

namespace Eval

namespace Tracks

variable {α β α' β' : Type} {Q : StorePair → α → α' → Prop} {R : StorePair → β → β' → Prop}

theorem assuming {act : Eval α} {act' : Eval α'} (h : m.At T K g m' → Tracks T dir K act act' Q g m m') :
    Tracks T dir K act act' Q g m m' := fun hm => h hm hm

theorem ret {v : α} {v' : α'} (h : Q (m.pair m' g) v v') :
    Tracks T dir K (pure v) (pure v') Q g m m' := fun hm => .answer (.refl _) hm rfl h

theorem fail {line : Nat} {cause : RuntimeError} :
    Tracks T dir K (fail line cause : Eval α) (fail line cause : Eval α') Q g m m' :=
  fun hm => .fault hm.toBeside

theorem ofExcept {line : Nat} {x : Except RuntimeError α} {x' : Except RuntimeError α'}
    (h : Except.Agree (Q (m.pair m' g)) x x') :
    Tracks T dir K (ofExcept line x) (ofExcept line x') Q g m m' := by
  cases h with
  | ok hQ => exact ret hQ
  | error cause => exact fail

theorem imp {act : Eval α} {act' : Eval α'} {P : StorePair → α → α' → Prop}
    (h : Tracks T dir K act act' P g m m') (hPQ : ∀ W v v', P W v v' → Q W v v') :
    Tracks T dir K act act' Q g m m' := by
  intro hm
  have hact := h hm
  generalize act m = o at hact ⊢
  generalize act' m' = o' at hact ⊢
  cases hact with
  | answer hg hm₁ hcursor hP => exact .answer hg hm₁ hcursor (hPQ _ _ _ hP)
  | fault hm₁ => exact .fault hm₁
  | first hdir => exact .first hdir
  | second hdir => exact .second hdir

theorem bindHere {act : Eval α} {act' : Eval α'} {next : α → Eval β} {next' : α' → Eval β'}
    (h : Tracks T dir K act act' Q g m m')
    (hnext : ∀ v v' g₁ m₁ m₁', m₁.cursor = m.cursor → (m.pair m' g).Grows (m₁.pair m₁' g₁) →
      Q (m₁.pair m₁' g₁) v v' → Tracks T dir K (next v) (next' v') R g₁ m₁ m₁') :
    Tracks T dir K (act >>= next) (act' >>= next') R g m m' := by
  intro hm
  have hfirst := h hm
  change Outcome.Tracks T dir K _ _ R (andThen act next m) (andThen act' next' m')
  unfold andThen
  generalize act m = o at hfirst ⊢
  generalize act' m' = o' at hfirst ⊢
  cases hfirst with
  | @answer v v' m₁ m₁' g₁ hg hm₁ hcursor hQ =>
    have hrest := hnext v v' g₁ m₁ m₁' hcursor hg hQ hm₁
    dsimp only
    generalize next v m₁ = p at hrest ⊢
    generalize next' v' m₁' = p' at hrest ⊢
    cases hrest with
    | answer hg₁ hm₂ hcursor₁ hR => exact .answer (hg.trans hg₁) hm₂ (hcursor₁.trans hcursor) hR
    | fault hm₂ => exact .fault hm₂
    | first hdir => exact .first hdir
    | second hdir => exact .second hdir
  | fault hm₁ => exact .fault hm₁
  | first hdir => exact .first hdir
  | second hdir => exact .second hdir

theorem bind {act : Eval α} {act' : Eval α'} {next : α → Eval β} {next' : α' → Eval β'}
    (h : Tracks T dir K act act' Q g m m')
    (hnext : ∀ v v' g₁ m₁ m₁', (m.pair m' g).Grows (m₁.pair m₁' g₁) → Q (m₁.pair m₁' g₁) v v' →
      Tracks T dir K (next v) (next' v') R g₁ m₁ m₁') :
    Tracks T dir K (act >>= next) (act' >>= next') R g m m' :=
  h.bindHere fun v v' g₁ m₁ m₁' _ => hnext v v' g₁ m₁ m₁'

theorem viewThen {next : α → Eval β} {next' : α' → Eval β'} {f : Machine → α} {f' : Machine → α'}
    (h : Tracks T dir K (next (f m)) (next' (f' m')) R g m m') :
    Tracks T dir K (Eval.view f >>= next) (Eval.view f' >>= next') R g m m' := h

theorem update {f : Store → α × Store} {f' : Store → α' × Store} (W : StorePair)
    (hfirst : (f m.store).2 = W.first) (hsecond : (f' m'.store).2 = W.second)
    (hg : (m.pair m' g).Grows W) (hsound : (m.pair m' g).Sound T → W.Sound T)
    (hQ : Q W (f m.store).1 (f' m'.store).1) :
    Tracks T dir K (update f) (update f') Q g m m' := by
  obtain ⟨s, s', g₁⟩ := W
  obtain rfl := hfirst
  obtain rfl := hsecond
  intro hm
  have hbeside : Machine.Beside T g₁ { m with store := (f m.store).2 } { m' with store := (f' m'.store).2 } :=
    ⟨hsound hm.sound, hm.first, hm.second, hm.sink, hm.input, hm.calls, hm.clock⟩
  exact .answer hg (hm.mono hg hbeside rfl rfl) rfl hQ

theorem within {K₁ : Layers} {act : Eval α} {act' : Eval α'} {a b : FrameId}
    (hab : (m.pair m' g).Linked K₁ a b)
    (h : Tracks T dir K₁ act act' Q g { m with cursor := a } { m' with cursor := b }) :
    Tracks T dir K (within a act) (within b act') Q g m m' := by
  intro hm
  have hact := h ⟨hm.moved a b, hab⟩
  unfold Eval.within
  dsimp only
  generalize act { m with cursor := a } = o at hact ⊢
  generalize act' { m' with cursor := b } = o' at hact ⊢
  cases hact with
  | answer hg hm₁ _ hQ => exact .answer hg (hm.mono hg (hm₁.moved _ _) rfl rfl) rfl hQ
  | fault hm₁ => exact .fault (hm₁.moved _ _)
  | first hdir => exact .first hdir
  | second hdir => exact .second hdir

theorem deeper {act : Eval α} {act' : Eval α'} {line : Nat}
    (h : Tracks T dir K act act' Q g { m with calls := m.calls + 1 } { m' with calls := m'.calls + 1 }) :
    Tracks T dir K (deeper line act) (deeper line act') Q g m m' := by
  intro hm
  have hact := h ⟨hm.counting (· + 1), hm.linked⟩
  unfold Eval.deeper
  rw [hm.calls] at hact ⊢
  split
  · exact .fault hm.toBeside
  · generalize act { m with calls := m.calls + 1 } = o at hact ⊢
    generalize act' { m' with calls := m.calls + 1 } = o' at hact ⊢
    cases hact with
    | answer hg hm₁ hcursor hQ => exact .answer hg ⟨hm₁.counting (· - 1), hm₁.linked⟩ hcursor hQ
    | fault hm₁ => exact .fault (hm₁.counting (· - 1))
    | first hdir => exact .first hdir
    | second hdir => exact .second hdir

theorem emit (line : String) : Tracks T dir K (emit line) (emit line) SameAnswer g m m' := by
  intro hm
  unfold Eval.emit
  rw [hm.sink]
  cases m.sink.accept line with
  | ok sink =>
    refine Outcome.Tracks.answer (g := g) (.refl _) ⟨?_, hm.linked⟩ rfl rfl
    exact ⟨hm.sound, hm.first, hm.second, rfl, hm.input, hm.calls, hm.clock⟩
  | error cause => exact .fault hm.toBeside

theorem readClock : Tracks T dir K readClock readClock SameAnswer g m m' := by
  intro hm
  refine Outcome.Tracks.answer (g := g) (.refl _) ⟨?_, hm.linked⟩ rfl (congrArg (Clock.reading · 0) hm.clock)
  exact ⟨hm.sound, hm.first, hm.second, hm.sink, hm.input, hm.calls, congrArg Clock.later hm.clock⟩

theorem takeLine : Tracks T dir K takeLine takeLine SameAnswer g m m' := by
  intro hm
  unfold Eval.takeLine
  rw [hm.input]
  refine Outcome.Tracks.answer (g := g) (.refl _) ⟨?_, hm.linked⟩ rfl rfl
  exact ⟨hm.sound, hm.first, hm.second, hm.sink, rfl, hm.calls, hm.clock⟩

end Tracks

end Eval

end

end LoxLang
