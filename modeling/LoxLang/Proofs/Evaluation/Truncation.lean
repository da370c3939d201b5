import LoxLang.Proofs.Evaluation.Activity
import LoxLang.Proofs.Evaluation.Silence

set_option autoImplicit false

namespace LoxLang

/-- The second sink has the lines of the first one and others after them, and has a limit if the first
one has. -/
structure Sink.Prolonged (s s' : Sink) : Prop where
  lines : s.lines <:+ s'.lines
  limit : s.limit = none ↔ s'.limit = none

theorem Sink.Prolonged.refl (s : Sink) : s.Prolonged s := ⟨List.suffix_refl _, Iff.rfl⟩

theorem Sink.Prolonged.trans {s s₁ s' : Sink} (h : s.Prolonged s₁) (h' : s₁.Prolonged s') :
    s.Prolonged s' :=
  ⟨h.lines.trans h'.lines, h.limit.trans h'.limit⟩

theorem Sink.Prolonged.of_accept {s s' : Sink} {line : String} (h : s.accept line = .ok s') :
    s.Prolonged s' := by
  unfold accept at h
  split at h
  · cases h
    exact ⟨List.suffix_cons _ _, Iff.rfl⟩
  · cases h
  · rename_i hlimit
    cases h
    exact ⟨List.suffix_cons _ _, by simp [hlimit]⟩

namespace Machine

def lineCount (m : Machine) : Nat := m.sink.lines.length

def capped (m : Machine) (cap : Limit) : Machine :=
  m.onto ⟨m.sink.lines, some ⟨cap.room - m.lineCount, cap.refusal⟩⟩

/-- The sink has no limit, and no more lines than the cap says. -/
structure Below (cap : Limit) (m : Machine) : Prop where
  limit : m.sink.limit = none
  count : m.lineCount ≤ cap.room

theorem Below.before {cap : Limit} {m m' : Machine} (h : m'.Below cap)
    (hm : m.sink.Prolonged m'.sink) : m.Below cap :=
  ⟨hm.limit.mpr h.limit, hm.lines.length_le.trans h.count⟩

end Machine

namespace Eval

def Leaves {α : Type} (act : Eval α) (m : Machine) (A : Machine → Prop) : Prop :=
  act.Ensures m (fun _ => A) fun _ => A

/-- The cap makes no difference. -/
structure Fits {α : Type} (cap : Limit) (act : Eval α) (m : Machine) : Prop where
  same : act (m.capped cap) = (act m).through fun x => x.capped cap
  within : act.Leaves m fun m' => m'.lineCount ≤ cap.room

/-- With the cap the computation stops where a text is printed on a machine whose sink has as many lines
as that. Without it, the text is printed next. -/
def Stops {α : Type} (cap : Limit) (P : String → Machine → Prop) (act : Eval α) (m : Machine) : Prop :=
  ∃ text x y, P text x ∧ x.lineCount = cap.room ∧
    act (m.capped cap) = .fault (.io cap.refusal) y ∧ y.atRest = (x.capped cap).atRest ∧
    act.Leaves m fun m' => text :: x.sink.lines <:+ m'.sink.lines

/-- Lines are only added, and a cap does nothing but stop the computation. -/
structure Truncates {α : Type} (cap : Limit) (P : String → Machine → Prop) (act : Eval α)
    (m : Machine) : Prop where
  prolongs : act.Leaves m fun m' => m.sink.Prolonged m'.sink
  cuts : m.Below cap → act.Fits cap m ∨ act.Stops cap P m

section

variable {α β : Type} {cap : Limit} {P : String → Machine → Prop} {act : Eval α} {next : α → Eval β}
  {m m' : Machine} {v : α}

theorem Leaves.of_eq {act' : Eval α} {A : Machine → Prop} (heq : act m = act' m')
    (h : act'.Leaves m' A) : act.Leaves m A := by
  unfold Leaves Ensures
  rw [heq]
  exact h

theorem Fits.of_answer (h : act.Fits cap m) (hv : act m = .answer v m') :
    act (m.capped cap) = .answer v (m'.capped cap) := by
  rw [h.same, hv]
  rfl

theorem Fits.of_fault {f : Fault} (h : act.Fits cap m) (hf : act m = .fault f m') :
    act (m.capped cap) = .fault f (m'.capped cap) := by
  rw [h.same, hf]
  rfl

theorem Fits.of_exhausted (h : act.Fits cap m) (hnone : act m = .exhausted) :
    act (m.capped cap) = .exhausted := by
  rw [h.same, hnone]
  rfl

theorem Fits.bind (h : act.Fits cap m)
    (hnext : ∀ v m', act m = .answer v m' → (next v).Fits cap m') : (act >>= next).Fits cap m := by
  refine ⟨?_, Ensures.bind h.within fun v m' hv _ => (hnext v m' hv).within⟩
  cases hv : act m with
  | answer v m' => rw [bind_of_answer hv, bind_of_answer (h.of_answer hv), (hnext v m' hv).same]
  | fault f m' =>
    rw [bind_of_fault hv, bind_of_fault (h.of_fault hv)]
    rfl
  | exhausted =>
    rw [bind_of_exhausted hv, bind_of_exhausted (h.of_exhausted hv)]
    rfl

theorem Silent.capped (h : act.Silent m) (cap : Limit) :
    act (m.capped cap) = (act m).through fun x => x.capped cap := by
  have hsink := h.keeps_sink
  change act (m.onto _) = _
  rw [h]
  -- The lines are those of the machine before.
  cases hv : act m with
  | answer v m' => simp only [Outcome.through, Machine.capped, Machine.lineCount, hsink.answer hv]
  | fault f m' => simp only [Outcome.through, Machine.capped, Machine.lineCount, hsink.fault hv]
  | exhausted => rfl

theorem Silent.answer_capped (h : act.Silent m) (hv : act m = .answer v m') (cap : Limit) :
    act (m.capped cap) = .answer v (m'.capped cap) := by
  rw [h.capped, hv]
  rfl

theorem emit_full (text : String) (h : m.lineCount = cap.room) :
    emit text (m.capped cap) = .fault (.io cap.refusal) (m.capped cap) := by
  have hlimit : (m.capped cap).sink.limit = some ⟨0, cap.refusal⟩ := by
    simp only [Machine.capped, Machine.onto, h, Nat.sub_self]
  simp only [emit, Sink.accept, hlimit]

theorem Stops.early (h : act.Stops cap P m)
    (hnext : ∀ v m', act m = .answer v m' → (next v).Leaves m' fun x => m'.sink.Prolonged x.sink) :
    (act >>= next).Stops cap P m := by
  obtain ⟨text, x, y, hx, hcap, hstop, hy, hlines⟩ := h
  refine ⟨text, x, y, hx, hcap, bind_of_fault hstop, hy, Ensures.bind hlines fun v m' hv hm => ?_⟩
  exact (hnext v m' hv).imp (fun _ _ hm' => hm.trans hm'.lines) fun _ _ hm' => hm.trans hm'.lines

theorem Stops.late (hfits : act.Fits cap m) (hv : act m = .answer v m')
    (h : (next v).Stops cap P m') : (act >>= next).Stops cap P m := by
  obtain ⟨text, x, y, hx, hcap, hstop, hy, hlines⟩ := h
  refine ⟨text, x, y, hx, hcap, ?_, hy, hlines.of_eq (bind_of_answer hv)⟩
  rw [bind_of_answer (hfits.of_answer hv), hstop]

end

namespace Truncates

variable {α β : Type} {cap : Limit} {P Q : String → Machine → Prop} {act act' : Eval α}
  {next : α → Eval β} {m m₀ : Machine}

theorem silent (h : act.Silent m) : act.Truncates cap P m := by
  have hsink := h.keeps_sink
  refine ⟨hsink.imp ?_ ?_, fun hm => .inl ⟨h.capped cap, hsink.imp ?_ ?_⟩⟩
  · exact fun _ m' hm' => hm' ▸ .refl _
  · exact fun _ m' hm' => hm' ▸ .refl _
  · exact fun _ m' hm' => by rw [Machine.lineCount, hm']; exact hm.count
  · exact fun _ m' hm' => by rw [Machine.lineCount, hm']; exact hm.count

theorem ret (v : α) : (pure v : Eval α).Truncates cap P m := silent (.ret v)

theorem fail (line : Nat) (cause : RuntimeError) : (fail line cause : Eval α).Truncates cap P m :=
  silent (.fail line cause)

theorem ofExcept (line : Nat) (x : Except RuntimeError α) :
    (ofExcept line x).Truncates cap P m := silent (.ofExcept line x)

theorem enlarge (h : act.Truncates cap P m) (hP : ∀ text x, P text x → Q text x) :
    act.Truncates cap Q m := by
  refine ⟨h.prolongs, fun hm => (h.cuts hm).imp_right ?_⟩
  rintro ⟨text, x, y, hx, hstop⟩
  exact ⟨text, x, y, hP text x hx, hstop⟩

theorem bind (h : act.Truncates cap P m)
    (hnext : ∀ v m', act m = .answer v m' → (next v).Truncates cap P m') :
    (act >>= next).Truncates cap P m := by
  refine ⟨Ensures.bind h.prolongs fun v m' hv hm => ?_, fun hbelow => ?_⟩
  · exact ((hnext v m' hv).prolongs).imp (fun _ _ => hm.trans) fun _ _ => hm.trans
  · rcases h.cuts hbelow with hfits | hstops
    · cases hv : act m with
      | answer v m' =>
        have hlimit := (h.prolongs.answer hv).limit.mp hbelow.limit
        rcases (hnext v m' hv).cuts ⟨hlimit, hfits.within.answer hv⟩ with hrest | hrest
        · refine .inl (hfits.bind fun w x hw => ?_)
          cases hv.symm.trans hw
          exact hrest
        · exact .inr (.late hfits hv hrest)
      | fault f m' => exact .inl (hfits.bind fun w x hw => by cases hv.symm.trans hw)
      | exhausted => exact .inl (hfits.bind fun w x hw => by cases hv.symm.trans hw)
    · exact .inr (hstops.early fun v m' hv => (hnext v m' hv).prolongs)

theorem viewThen {f : Machine → α} (hf : ∀ sink, f (m.onto sink) = f m)
    (h : (next (f m)).Truncates cap P m) : (Eval.view f >>= next).Truncates cap P m := by
  refine bind (silent fun sink => ?_) ?_
  · change Outcome.answer (f (m.onto sink)) (m.onto sink) = .answer (f m) (m.onto sink)
    rw [hf]
  · rintro v m' ⟨⟩
    exact h

/-- A change of the machine on the way in and on the way out that is none of the sink. -/
theorem through {g : Machine → Machine} (hact : act' m = (act m₀).through g)
    (hcapped : act' (m.capped cap) = (act (m₀.capped cap)).through g) (hsink : m₀.sink = m.sink)
    (hg : ∀ x, (g x).sink = x.sink) (hrest : ∀ x, (g x).atRest = x.atRest)
    (hcap : ∀ x, (g x).capped cap = g (x.capped cap)) (h : act.Truncates cap P m₀) :
    act'.Truncates cap P m := by
  -- What holds of the sink after the one holds of the sink after the other.
  have leaves : ∀ {A : Sink → Prop},
      (act.Leaves m₀ fun x => A x.sink) → act'.Leaves m fun x => A x.sink := by
    intro A hA
    unfold Leaves Ensures
    rw [hact]
    cases hv : act m₀ with
    | answer v x => exact (congrArg A (hg x)).mpr (hA.answer hv)
    | fault f x => exact (congrArg A (hg x)).mpr (hA.fault hv)
    | exhausted => trivial
  refine ⟨leaves (A := fun s => m.sink.Prolonged s) (hsink ▸ h.prolongs), fun hm => ?_⟩
  have hm₀ : m₀.Below cap := hm.before (hsink ▸ .refl _)
  rcases h.cuts hm₀ with hfits | ⟨text, x, y, hx, hxcap, hstop, hy, hlines⟩
  · refine .inl ⟨?_, leaves (A := fun s => s.lines.length ≤ cap.room) hfits.within⟩
    rw [hcapped, hfits.same, hact]
    cases act m₀ with
    | answer v x => simp only [Outcome.through, hcap]
    | fault f x => simp only [Outcome.through, hcap]
    | exhausted => rfl
  · refine .inr ⟨text, x, g y, hx, hxcap, ?_, (hrest y).trans hy, ?_⟩
    · rw [hcapped, hstop]
      rfl
    · exact leaves (A := fun s => text :: x.sink.lines <:+ s.lines) hlines

theorem within {frame : FrameId} (h : act.Truncates cap P { m with cursor := frame }) :
    (Eval.within frame act).Truncates cap P m := by
  have henter : ∀ x : Machine, Eval.within frame act x =
      (act { x with cursor := frame }).through fun y => { y with cursor := x.cursor } := by
    intro x
    unfold Eval.within
    cases act { x with cursor := frame } <;> rfl
  exact through (henter m) (henter (m.capped cap)) rfl (fun _ => rfl) (fun _ => rfl) (fun _ => rfl) h

theorem deeper {line : Nat}
    (h : m.calls < callLimit → act.Truncates cap P m.deeper) :
    (Eval.deeper line act).Truncates cap P m := by
  by_cases hfull : callLimit ≤ m.calls
  · refine silent fun sink => ?_
    have hrefused : ∀ x : Machine, callLimit ≤ x.calls →
        Eval.deeper line act x = .fault (.runtime line .stackOverflow) x := fun x hx => if_pos hx
    rw [hrefused m hfull, hrefused (m.onto sink) hfull]
    rfl
  · have henter : ∀ x : Machine, ¬ callLimit ≤ x.calls → Eval.deeper line act x =
        (act x.deeper).through fun y => { y with calls := y.calls - 1 } := by
      intro x hx
      unfold Eval.deeper Machine.deeper
      rw [if_neg hx]
      cases act { x with calls := x.calls + 1 } <;> rfl
    exact through (henter m hfull) (henter (m.capped cap) hfull) rfl (fun _ => rfl) (fun _ => rfl)
      (fun _ => rfl) (h (Nat.lt_of_not_le hfull))

theorem emit {text : String} (h : P text m) : (emit text).Truncates cap P m := by
  refine ⟨Ensures.emit (fun _ hs => .of_accept hs) fun _ _ => .refl _, fun ⟨hlimit, hcount⟩ => ?_⟩
  have hemit : Eval.emit text m = .answer () (m.onto ⟨text :: m.sink.lines, none⟩) := by
    simp only [Eval.emit, Sink.accept, hlimit]
    rfl
  rcases Nat.lt_or_eq_of_le hcount with hlt | heq
  · have hleft : cap.room - m.sink.lines.length = cap.room - (m.sink.lines.length + 1) + 1 := by
      unfold Machine.lineCount at hlt
      omega
    refine .inl ⟨?_, .of_eq hemit hlt⟩
    rw [hemit]
    simp only [Eval.emit, Machine.capped, Machine.onto, Machine.lineCount, Sink.accept, hleft,
      Outcome.through, List.length_cons]
  · exact .inr ⟨text, m, _, h, heq, emit_full text heq, rfl, .of_eq hemit (List.suffix_refl _)⟩

theorem answer {v : α} {m' : Machine} (h : act.Truncates cap P m) (hv : act m = .answer v m')
    (hm' : m'.Below cap) : m.Below cap ∧ act (m.capped cap) = .answer v (m'.capped cap) := by
  have hm := hm'.before (h.prolongs.answer hv)
  refine ⟨hm, ?_⟩
  rcases h.cuts hm with hfits | ⟨text, x, y, -, hcap, -, -, hlines⟩
  · exact hfits.of_answer hv
  · have hmore : x.lineCount + 1 ≤ m'.lineCount := (hlines.answer hv).length_le
    have hcount := hm'.count
    omega

end Truncates

end Eval

end LoxLang
