import LoxLang.Proofs.Evaluation.Methods

set_option autoImplicit false

namespace LoxLang

namespace Eval

variable {α β : Type} {E : Setting} {act : Eval α} {next : α → Eval β} {m m₁ m' : Machine}

def EndsIn (act : Eval α) (m m' : Machine) : Prop :=
  (act m).forget = .answer () m' ∨ ∃ f, (act m).forget = .fault f m'

/-- The computation leads to a later store on every way out. -/
def Later (act : Eval α) (m : Machine) : Prop :=
  act.Ensures m (fun _ m' => m.store.Extends m'.store) fun _ m' => m.store.Extends m'.store

theorem Steps.late {A : α → Store → Prop} (h : act.Steps E m A) : act.Later m :=
  Ensures.imp h (fun _ _ h => h.1.later) fun _ _ h => h.1.later

theorem Quiet.late (h : act.Quiet m) : act.Later m :=
  Ensures.imp h (fun _ _ h => h ▸ .refl _) fun _ _ h => h ▸ .refl _

namespace Later

theorem ret {v : α} : (pure v : Eval α).Later m := Store.Extends.refl _

theorem ofExcept {line : Nat} {x : Except RuntimeError α} : (ofExcept line x).Later m :=
  Ensures.ofExcept (fun _ _ => .refl _) fun _ _ => .refl _

theorem fail {line : Nat} {cause : RuntimeError} : (fail line cause : Eval α).Later m :=
  Store.Extends.refl _

theorem bind (h : act.Later m) (hnext : ∀ v m₁, act m = .answer v m₁ → (next v).Later m₁) :
    (act >>= next).Later m := by
  refine Ensures.bind h fun v m₁ hv hm => ?_
  exact Ensures.imp (hnext v m₁ hv) (fun _ _ hm' => hm.trans hm') fun _ _ hm' => hm.trans hm'

theorem emit {line : String} : (emit line).Later m :=
  Ensures.emit (fun _ _ => .refl _) fun _ _ => .refl _

end Later

namespace EndsIn

theorem after {v : α} (h : (act >>= next).EndsIn m m') (hv : act m = .answer v m₁) :
    (next v).EndsIn m₁ m' := by
  unfold EndsIn at h
  rwa [bind_of_answer hv] at h

theorem first (h : (act >>= next).EndsIn m m')
    (hnext : ∀ v m₁, act m = .answer v m₁ → (next v).Later m₁) :
    ∃ m₁, act.EndsIn m m₁ ∧ m₁.store.Extends m'.store := by
  cases hv : act m with
  | answer v m₁ =>
    refine ⟨m₁, .inl (by rw [hv]; rfl), ?_⟩
    have hrest := h.after hv
    have hlater := hnext v m₁ hv
    cases hw : next v m₁ with
    | answer w m₂ =>
      obtain rfl : m₂ = m' := by simpa [EndsIn, hw, Outcome.forget] using hrest
      exact hlater.answer hw
    | fault f m₂ =>
      obtain rfl : m₂ = m' := by simpa [EndsIn, hw, Outcome.forget] using hrest
      exact hlater.fault hw
    | exhausted => simp [EndsIn, hw, Outcome.forget] at hrest
  | fault f m₁ =>
    have hfault : (act >>= next) m = .fault f m₁ := bind_of_fault hv
    obtain rfl : m₁ = m' := by simpa [EndsIn, hfault, Outcome.forget] using h
    exact ⟨m₁, .inr ⟨f, by rw [hv]; rfl⟩, .refl _⟩
  | exhausted =>
    have hexhausted : (act >>= next) m = .exhausted := bind_of_exhausted hv
    simp [EndsIn, hexhausted, Outcome.forget] at h

theorem within {frame : FrameId} (h : (within frame act).EndsIn m m') :
    ∃ m₁, act.EndsIn { m with cursor := frame } m₁ ∧ m₁.store = m'.store := by
  unfold EndsIn Eval.within at h
  unfold EndsIn
  cases hv : act { m with cursor := frame } with
  | answer v m₂ =>
    simp only [hv, Outcome.forget] at h
    refine ⟨m₂, .inl rfl, ?_⟩
    rcases h with h | ⟨f, h⟩ <;> cases h
    rfl
  | fault f m₂ =>
    simp only [hv, Outcome.forget] at h
    refine ⟨m₂, .inr ⟨f, rfl⟩, ?_⟩
    rcases h with h | ⟨f, h⟩ <;> cases h
    rfl
  | exhausted => simp [hv, Outcome.forget] at h

theorem deeper {line : Nat} (hcalls : m.calls < callLimit) (h : (deeper line act).EndsIn m m') :
    ∃ m₁, act.EndsIn m.deeper m₁ ∧ m₁.store = m'.store := by
  change ∃ m₁, act.EndsIn { m with calls := m.calls + 1 } m₁ ∧ m₁.store = m'.store
  unfold EndsIn Eval.deeper at h
  simp only [if_neg (Nat.not_le.mpr hcalls)] at h
  unfold EndsIn
  cases hv : act { m with calls := m.calls + 1 } with
  | answer v m₂ =>
    simp only [hv, Outcome.forget] at h
    refine ⟨m₂, .inl rfl, ?_⟩
    rcases h with h | ⟨f, h⟩ <;> cases h
    rfl
  | fault f m₂ =>
    simp only [hv, Outcome.forget] at h
    refine ⟨m₂, .inr ⟨f, rfl⟩, ?_⟩
    rcases h with h | ⟨f, h⟩ <;> cases h
    rfl
  | exhausted => simp [hv, Outcome.forget] at h

end EndsIn

end Eval

namespace Activity

open Eval

variable {E : Setting} {a b : Activity} {K : Context} {m' : Machine}

theorem Sits.late_again {fuel : Nat} {c : Expr} {b : Stmt} {m m₁ m₂ : Machine} {v : Value}
    {ending : Ending} (hs : Sits E ⟨fuel + 1, .iterate c none b, m⟩ K)
    (hv : LoxLang.evaluate fuel c m = .answer v m₁) (htruthy : v.truthy = true)
    (hb : LoxLang.execute fuel b m₁ = .answer ending m₂)
    (hending : ending = .normal ∨ ending = .continued) : (LoxLang.iterate fuel c none b).Later m₂ :=
  ((evaluates E fuel).iterate
    ((Enters.again hv htruthy hb hending).sits (evaluates E fuel) hs)).late

theorem Sits.late_increment {fuel : Nat} {c : Expr} {n b : Stmt} {m m₁ m₂ : Machine} {v : Value}
    {ending : Ending} (hs : Sits E ⟨fuel + 1, .iterate c (some n) b, m⟩ K)
    (hv : LoxLang.evaluate fuel c m = .answer v m₁) (htruthy : v.truthy = true)
    (hb : LoxLang.execute fuel b m₁ = .answer ending m₂)
    (hending : ending = .normal ∨ ending = .continued) :
    (LoxLang.execute fuel n >>= fun _ => LoxLang.iterate fuel c (some n) b).Later m₂ := by
  have heval := evaluates E fuel
  have hn := heval.execute ((Enters.increment hv htruthy hb hending).sits heval hs)
  refine hn.late.bind fun w m₃ hw => ?_
  exact (heval.iterate ((Enters.incremented hv htruthy hb hending hw).sits heval hs)).late

section

variable {fuel : Nat} {m : Machine} {change : Context → Context}

theorem Enters.returns_evaluate {e : Expr}
    (h : Enters ⟨fuel + 1, .evaluate e, m⟩ change b) (hs : Sits E ⟨fuel + 1, .evaluate e, m⟩ K)
    (ha : (LoxLang.evaluate (fuel + 1) e).EndsIn m m') :
    ∃ m₁, b.EndsIn m₁ ∧ m₁.store.Extends m'.store := by
  have heval := evaluates E fuel
  -- The whole comes to an end, so the part has; what the whole does after it leads to later stores only.
  cases h with
  | grouping =>
    rw [LoxLang.evaluate] at ha
    exact ⟨_, ha, .refl _⟩
  | unary =>
    rw [LoxLang.evaluate] at ha
    exact ha.first fun _ _ _ => .ofExcept
  | binaryLeft =>
    rw [LoxLang.evaluate] at ha
    refine ha.first fun v m₁ hv => ?_
    have hr := heval.evaluate ((Enters.binaryRight hv).sits heval hs)
    exact hr.late.bind fun _ _ _ => .ofExcept
  | binaryRight hv =>
    rw [LoxLang.evaluate] at ha
    exact (ha.after hv).first fun _ _ _ => .ofExcept
  | logicalLeft =>
    rw [LoxLang.evaluate] at ha
    refine ha.first fun v m₁ hv => ?_
    split
    · exact .ret
    · rename_i hdecided
      have hr := (Enters.logicalRight hv (by simpa using hdecided)).sits heval hs
      exact (heval.evaluate hr).late
  | logicalRight hv hdecided =>
    rw [LoxLang.evaluate] at ha
    have ha := ha.after hv
    rw [if_neg (by simp [hdecided])] at ha
    exact ⟨_, ha, .refl _⟩
  | @condition _ _ _ _ t =>
    rw [LoxLang.evaluate] at ha
    refine ha.first fun v m₁ hv => ?_
    split
    · rename_i htruthy
      cases t with
      | some t =>
        exact (heval.evaluate ((Enters.conditionalThen hv htruthy).sits heval hs)).late
      | none => exact .ret
    · rename_i htruthy
      have he := (Enters.conditionalElse hv (by simpa using htruthy)).sits heval hs
      exact (heval.evaluate he).late
  | conditionalThen hv htruthy =>
    rw [LoxLang.evaluate] at ha
    have ha := ha.after hv
    rw [if_pos htruthy] at ha
    exact ⟨_, ha, .refl _⟩
  | conditionalElse hv htruthy =>
    rw [LoxLang.evaluate] at ha
    have ha := ha.after hv
    rw [if_neg (by simp [htruthy])] at ha
    exact ⟨_, ha, .refl _⟩
  | assigned =>
    rw [LoxLang.evaluate] at ha
    refine ha.first fun v m₁ hv => ?_
    obtain ⟨hm, hfine⟩ := (heval.evaluate (Enters.assigned.sits heval hs)).answer hv
    have hfits : K.Matches E.root m₁.store m₁.cursor := hm.cursor ▸ hs.fits.extend hm.later
    have hassign := steps_assign hm.sound (hm.hops ▸ hs.answers) hfits
      (hs.known _ List.mem_cons_self) hfine
    exact hassign.late.bind fun _ _ _ => .ret
  | callee =>
    rw [LoxLang.evaluate] at ha
    refine ha.first fun v m₁ hv => ?_
    have hes := heval.evaluateAll ((Enters.arguments hv).sits heval hs)
    refine hes.late.bind fun vs m₂ hvs => ?_
    exact (heval.call ((Enters.call hv hvs).sits heval hs)).late
  | arguments hv =>
    rw [LoxLang.evaluate] at ha
    refine (ha.after hv).first fun vs m₂ hvs => ?_
    exact (heval.call ((Enters.call hv hvs).sits heval hs)).late
  | call hv hvs =>
    rw [LoxLang.evaluate] at ha
    exact ⟨_, (ha.after hv).after hvs, .refl _⟩
  | gotten =>
    rw [LoxLang.evaluate] at ha
    refine ha.first fun v m₁ hv => ?_
    have hm := (heval.evaluate (Enters.gotten.sits heval hs)).answer hv
    exact (steps_property hm.1.sound).late
  | changed =>
    rw [LoxLang.evaluate] at ha
    refine ha.first fun v m₁ hv => ?_
    split
    · have he := heval.evaluate ((Enters.newValue hv).sits heval hs)
      refine he.late.bind fun w m₂ _ => Later.bind ?_ fun _ _ _ => .ret
      exact m₂.store.extends_modifyObject _ fun _ => rfl
    · exact .fail
  | newValue hv =>
    rw [LoxLang.evaluate] at ha
    refine (ha.after hv).first fun w m₂ _ => Later.bind ?_ fun _ _ _ => .ret
    exact m₂.store.extends_modifyObject _ fun _ => rfl

theorem Enters.returns_evaluateAll {es : List Expr}
    (h : Enters ⟨fuel + 1, .evaluateAll es, m⟩ change b) (hs : Sits E ⟨fuel + 1, .evaluateAll es, m⟩ K)
    (ha : (LoxLang.evaluateAll (fuel + 1) es).EndsIn m m') :
    ∃ m₁, b.EndsIn m₁ ∧ m₁.store.Extends m'.store := by
  have heval := evaluates E fuel
  cases h with
  | first =>
    rw [LoxLang.evaluateAll] at ha
    refine ha.first fun v m₁ hv => ?_
    have hrest := heval.evaluateAll ((Enters.others hv).sits heval hs)
    exact hrest.late.bind fun _ _ _ => .ret
  | others hv =>
    rw [LoxLang.evaluateAll] at ha
    exact (ha.after hv).first fun _ _ _ => .ret

theorem Enters.returns_call {line : Nat} {callee : Value} {vs : List Value}
    (h : Enters ⟨fuel + 1, .call line callee vs, m⟩ change b)
    (ha : (LoxLang.call (fuel + 1) line callee vs).EndsIn m m') :
    ∃ m₁, b.EndsIn m₁ ∧ m₁.store.Extends m'.store := by
  cases h with
  | function harity hcalls | classCall harity hcalls =>
    rw [LoxLang.call] at ha
    have ha := (ha.after rfl).after (requireArity_answer.mpr ⟨harity, rfl⟩)
    obtain ⟨m₁, hends, hstore⟩ := ha.deeper hcalls
    exact ⟨m₁, hends, hstore ▸ .refl _⟩

theorem Enters.returns_construct {line : Nat} {C : ClassId} {vs : List Value}
    (h : Enters ⟨fuel + 1, .construct line C vs, m⟩ change b)
    (ha : (LoxLang.construct (fuel + 1) line C vs).EndsIn m m') :
    ∃ m₁, b.EndsIn m₁ ∧ m₁.store.Extends m'.store := by
  cases h with
  | initializer hobject hmethod hbound =>
    rw [LoxLang.construct] at ha
    have ha := (ha.after hobject).after rfl
    rw [hmethod] at ha
    exact (ha.after hbound).first fun _ _ _ => .ret

theorem Enters.returns_render {line : Nat} {v : Value}
    (h : Enters ⟨fuel + 1, .render line v, m⟩ change b) (hs : Sits E ⟨fuel + 1, .render line v, m⟩ K)
    (ha : (LoxLang.render (fuel + 1) line v).EndsIn m m') :
    ∃ m₁, b.EndsIn m₁ ∧ m₁.store.Extends m'.store := by
  have heval := evaluates E fuel
  cases h with
  | text hmethod harity hbound hcalls =>
    rw [LoxLang.render] at ha
    have ha := ha.after rfl
    rw [hmethod] at ha
    dsimp only at ha
    rw [if_pos harity] at ha
    obtain ⟨m₂, hends, hstore⟩ := (ha.after hbound).deeper hcalls
    refine hstore ▸ hends.first fun v m₃ hv => ?_
    exact (heval.render ((Enters.textOf hmethod harity hbound hcalls hv).sits heval hs)).late
  | textOf hmethod harity hbound hcalls hv =>
    rw [LoxLang.render] at ha
    have ha := ha.after rfl
    rw [hmethod] at ha
    dsimp only at ha
    rw [if_pos harity] at ha
    obtain ⟨m₂, hends, hstore⟩ := (ha.after hbound).deeper hcalls
    exact ⟨_, hends.after hv, hstore ▸ .refl _⟩

theorem Enters.returns_execute {t : Stmt}
    (h : Enters ⟨fuel + 1, .execute t, m⟩ change b) (hs : Sits E ⟨fuel + 1, .execute t, m⟩ K)
    (ha : (LoxLang.execute (fuel + 1) t).EndsIn m m') :
    ∃ m₁, b.EndsIn m₁ ∧ m₁.store.Extends m'.store := by
  have heval := evaluates E fuel
  cases h with
  | expression =>
    rw [LoxLang.execute] at ha
    exact ha.first fun _ _ _ => .ret
  | printed =>
    rw [LoxLang.execute] at ha
    refine ha.first fun v m₁ hv => ?_
    have htext := heval.render ((Enters.print hv).sits heval hs)
    exact htext.late.bind fun _ _ _ => Later.emit.bind fun _ _ _ => .ret
  | print hv =>
    rw [LoxLang.execute] at ha
    exact (ha.after hv).first fun _ _ _ => Later.emit.bind fun _ _ _ => .ret
  | declareVar =>
    rw [LoxLang.execute] at ha
    refine ha.first fun v m₁ hv => ?_
    obtain ⟨hm, hfine⟩ := (heval.evaluate (Enters.declareVar.sits heval hs)).answer hv
    have hfits : K.Matches E.root m₁.store m₁.cursor := hm.cursor ▸ hs.fits.extend hm.later
    have hcursor := hfits.chained.frame? hm.sound.globals
    exact (steps_define hm.sound hcursor hs.proper hfine).late.bind fun _ _ _ => .ret
  | block =>
    rw [LoxLang.execute] at ha
    obtain ⟨m₁, hends, hstore⟩ := (ha.after (innerFrame_eq m)).within
    exact ⟨m₁, hends, hstore ▸ .refl _⟩
  | @branchCondition _ _ c t e =>
    have hthen : ∀ {v m₁}, LoxLang.evaluate fuel c m = .answer v m₁ → v.truthy = true →
        (LoxLang.execute fuel t).Later m₁ := fun hv htruthy =>
      (heval.execute ((Enters.branchThen hv htruthy).sits heval hs)).late
    cases e with
    | none =>
      rw [LoxLang.execute] at ha
      refine ha.first fun v m₁ hv => ?_
      split
      · exact hthen hv ‹_›
      · exact .ret
    | some e =>
      rw [LoxLang.execute] at ha
      refine ha.first fun v m₁ hv => ?_
      split
      · exact hthen hv ‹_›
      · rename_i htruthy
        have he := (Enters.branchElse hv (by simpa using htruthy)).sits heval hs
        exact (heval.execute he).late
  | @branchThen _ _ _ _ _ e _ hv htruthy =>
    cases e <;>
    · rw [LoxLang.execute] at ha
      have ha := ha.after hv
      rw [if_pos htruthy] at ha
      exact ⟨_, ha, .refl _⟩
  | branchElse hv htruthy =>
    rw [LoxLang.execute] at ha
    have ha := ha.after hv
    rw [if_neg (by simp [htruthy])] at ha
    exact ⟨_, ha, .refl _⟩
  | loopStart =>
    rw [LoxLang.execute] at ha
    obtain ⟨m₁, hends, hstore⟩ := (ha.after (innerFrame_eq m)).within
    refine hstore ▸ hends.first fun ending m₂ hi => ?_
    exact (heval.iterate ((Enters.started hi).sits heval hs)).late
  | started hi =>
    rw [LoxLang.execute] at ha
    obtain ⟨m₂, hends, hstore⟩ := (ha.after (innerFrame_eq m)).within
    exact ⟨_, hends.after hi, hstore ▸ .refl _⟩
  | loop =>
    rw [LoxLang.execute] at ha
    exact ⟨_, ha, .refl _⟩
  | returned =>
    rw [LoxLang.execute] at ha
    exact ha.first fun _ _ _ => .ret

theorem Enters.returns_executeAll {body : List Stmt}
    (h : Enters ⟨fuel + 1, .executeAll body, m⟩ change b) (hs : Sits E ⟨fuel + 1, .executeAll body, m⟩ K)
    (ha : (LoxLang.executeAll (fuel + 1) body).EndsIn m m') :
    ∃ m₁, b.EndsIn m₁ ∧ m₁.store.Extends m'.store := by
  have heval := evaluates E fuel
  cases h with
  | head =>
    rw [LoxLang.executeAll] at ha
    refine ha.first fun ending m₁ hv => ?_
    cases ending with
    | normal => exact (heval.executeAll ((Enters.tail hv).sits heval hs)).late
    | _ => exact .ret
  | tail hv =>
    rw [LoxLang.executeAll] at ha
    exact ⟨_, ha.after hv, .refl _⟩

theorem Enters.returns_iterate {c : Expr} {n : Option Stmt} {pass : Stmt}
    (h : Enters ⟨fuel + 1, .iterate c n pass, m⟩ change b) (hs : Sits E ⟨fuel + 1, .iterate c n pass, m⟩ K)
    (ha : (LoxLang.iterate (fuel + 1) c n pass).EndsIn m m') :
    ∃ m₁, b.EndsIn m₁ ∧ m₁.store.Extends m'.store := by
  have heval := evaluates E fuel
  cases h with
  | loopCondition =>
    have hbody : ∀ {v m₁}, LoxLang.evaluate fuel c m = .answer v m₁ → v.truthy = true →
        (LoxLang.execute fuel pass).Later m₁ := fun hv htruthy =>
      (heval.execute ((Enters.body hv htruthy).sits heval hs)).late
    cases n with
    | none =>
      rw [LoxLang.iterate] at ha
      refine ha.first fun v m₁ hv => ?_
      split
      · rename_i htruthy
        refine (hbody hv htruthy).bind fun ending m₂ hend => ?_
        cases ending with
        | normal => exact hs.late_again hv htruthy hend (.inl rfl)
        | continued => exact hs.late_again hv htruthy hend (.inr rfl)
        | _ => exact .ret
      · exact .ret
    | some n =>
      rw [LoxLang.iterate] at ha
      refine ha.first fun v m₁ hv => ?_
      split
      · rename_i htruthy
        refine (hbody hv htruthy).bind fun ending m₂ hend => ?_
        cases ending with
        | normal => exact hs.late_increment hv htruthy hend (.inl rfl)
        | continued => exact hs.late_increment hv htruthy hend (.inr rfl)
        | _ => exact .ret
      · exact .ret
  | body hv htruthy =>
    cases n with
    | none =>
      rw [LoxLang.iterate] at ha
      have ha := ha.after hv
      rw [if_pos htruthy] at ha
      refine ha.first fun ending m₂ hend => ?_
      cases ending with
      | normal => exact hs.late_again hv htruthy hend (.inl rfl)
      | continued => exact hs.late_again hv htruthy hend (.inr rfl)
      | _ => exact .ret
    | some n =>
      rw [LoxLang.iterate] at ha
      have ha := ha.after hv
      rw [if_pos htruthy] at ha
      refine ha.first fun ending m₂ hend => ?_
      cases ending with
      | normal => exact hs.late_increment hv htruthy hend (.inl rfl)
      | continued => exact hs.late_increment hv htruthy hend (.inr rfl)
      | _ => exact .ret
  | @increment _ _ _ m₂ _ n _ _ _ hv htruthy hend hending =>
    rw [LoxLang.iterate] at ha
    have ha := ha.after hv
    rw [if_pos htruthy] at ha
    have ha := ha.after hend
    have hpass : (LoxLang.execute fuel n >>= fun _ => LoxLang.iterate fuel c (some n) pass).EndsIn m₂ m' := by
      rcases hending with rfl | rfl <;> exact ha
    refine hpass.first fun w m₃ hw => ?_
    exact (heval.iterate ((Enters.incremented hv htruthy hend hending hw).sits heval hs)).late
  | again hv htruthy hend hending =>
    rw [LoxLang.iterate] at ha
    have ha := ha.after hv
    rw [if_pos htruthy] at ha
    have ha := ha.after hend
    rcases hending with rfl | rfl <;> exact ⟨_, ha, .refl _⟩
  | @incremented _ _ _ m₂ _ _ n _ _ _ _ hv htruthy hend hending hw =>
    rw [LoxLang.iterate] at ha
    have ha := ha.after hv
    rw [if_pos htruthy] at ha
    have ha := ha.after hend
    have hpass : (LoxLang.execute fuel n >>= fun _ => LoxLang.iterate fuel c (some n) pass).EndsIn m₂ m' := by
      rcases hending with rfl | rfl <;> exact ha
    exact ⟨_, hpass.after hw, .refl _⟩

end

/-- A part of what comes to its end does so too, and no later. -/
theorem Enters.returns {change : Context → Context} (h : a.Enters change b) (hs : a.Sits E K)
    (ha : a.EndsIn m') : ∃ m₁, b.EndsIn m₁ ∧ m₁.store.Extends m'.store := by
  obtain ⟨_ | fuel, task, m⟩ := a
  · cases h
  · cases task with
    | evaluate => exact h.returns_evaluate hs ha
    | evaluateAll => exact h.returns_evaluateAll hs ha
    | call => exact h.returns_call ha
    | invoke => cases h
    | construct => exact h.returns_construct ha
    | render => exact h.returns_render hs ha
    | execute => exact h.returns_execute hs ha
    | executeAll => exact h.returns_executeAll hs ha
    | iterate => exact h.returns_iterate hs ha

theorem Invokes.returns {id : FunctionId} {d : Declaration} {frame : FrameId}
    (h : a.Invokes id d frame b) (ha : a.EndsIn m') :
    ∃ m₁, b.EndsIn m₁ ∧ m₁.store.Extends m'.store := by
  cases h with
  | @body fuel line m m₁ _ vs f _ _ hf hcode hframe =>
    change (LoxLang.invoke (fuel + 1) line id vs).EndsIn m m' at ha
    rw [LoxLang.invoke] at ha
    have ha := ha.after rfl
    rw [hf] at ha
    dsimp only at ha
    rw [hcode] at ha
    obtain ⟨m₂, hends, hlater⟩ :=
      (ha.after hframe).first fun ending _ _ => (quiet_answerOf line f ending).late
    obtain ⟨m₃, hends, hstore⟩ := hends.within
    exact ⟨m₃, hends, hstore ▸ hlater⟩

/-- What is gone to from something that comes to its end does so too, and no later. -/
theorem Sits.returns (hs : a.Sits E K) (h : a.Goes b) (ha : a.EndsIn m') :
    ∃ m₁, b.EndsIn m₁ ∧ m₁.store.Extends m'.store := by
  rcases h with ⟨change, h⟩ | ⟨id, d, frame, h⟩
  · exact h.returns hs ha
  · exact h.returns ha

end Activity

end LoxLang
