import LoxLang.Proofs.Evaluation.Soundness
import LoxLang.Proofs.Session.Accepted

/-!
Sessions stay sound.

What is known in a session are the activities and the lookups of the programs that were run in it. Each
accepted program brings new identities, so the hop counts recorded before are still there after it.
-/

set_option autoImplicit false

namespace LoxLang

namespace Store

variable {E : Setting}

theorem sound_bindNatives {s : Store} (h : E.Sound s) : E.Sound s.bindNatives := by
  have hbind : ∀ (functions : List Native) (s : Store), E.Sound s → E.Sound
      (functions.foldl (fun s function => s.bind globals function.name (.native function)) s) := by
    intro functions
    induction functions with
    | nil => exact fun _ h => h
    | cons function rest ih =>
      refine fun s h => ih _ (h.bind (s.extends_bind _ _ _ fun hname => ?_) trivial)
      cases function <;> rcases hname with hname | hname <;> simp [Native.name] at hname
  exact hbind _ s h

theorem sound_addArrayMethods {s : Store} (h : E.Sound s) (closure : FrameId) :
    E.Sound (s.addArrayMethods closure).2 ∧ (s.addArrayMethods closure).2.classes = s.classes ∧
      ∀ name id, (s.addArrayMethods closure).1.get? name = some id → ∃ method : ArrayMethod,
        name = method.name ∧ (s.addArrayMethods closure).2.function? id =
          some ⟨.array method, closure, decide (method = .init)⟩ := by
  suffices hfold : ∀ (methods : List ArrayMethod) (made : Dictionary FunctionId × Store),
      E.Sound made.2 → made.2.classes = s.classes →
      (∀ name id, made.1.get? name = some id → ∃ method : ArrayMethod, name = method.name ∧
        made.2.function? id = some ⟨.array method, closure, decide (method = .init)⟩) →
      let all := methods.foldl (fun (made : Dictionary FunctionId × Store) method =>
        let added := made.2.addFunction ⟨.array method, closure, method = .init⟩
        (made.1.insert method.name added.1, added.2)) made
      E.Sound all.2 ∧ all.2.classes = s.classes ∧
        ∀ name id, all.1.get? name = some id → ∃ method : ArrayMethod, name = method.name ∧
          all.2.function? id = some ⟨.array method, closure, decide (method = .init)⟩ from
    hfold arrayMethods (∅, s) h rfl (by simp)
  -- On the methods that are still to be added, for any that were added before.
  intro methods
  induction methods with
  | nil => exact fun made h hclasses hmade => ⟨h, hclasses, hmade⟩
  | cons method rest ih =>
    refine fun made h hclasses hmade => ih _ (h.addFunction _) hclasses fun name id hid => ?_
    rw [Dictionary.get?_insert] at hid
    split at hid
    · rename_i hname
      cases hid
      exact ⟨method, hname.symm, (function?_addFunction _ _ _).trans (if_pos rfl)⟩
    · obtain ⟨other, hother, hfound⟩ := hmade name id hid
      exact ⟨other, hother, (made.2.grows_addFunction _).functions _ _ hfound⟩

theorem sound_start : E.Sound start := by
  have hempty : E.Sound (empty.addFrame none).2 := by
    refine ⟨fun v hv => ?_, fun id o ho => ?_, fun C c hc => ?_, rfl⟩
    · cases hv with
      | binding hv =>
        rw [local?_addFrame] at hv
        simp [local?, frame?, empty] at hv
      | field ho | element ho => simp [object?, addFrame, empty] at ho
    · simp [object?, addFrame, empty] at ho
    · simp [class?, addFrame, empty] at hc
  let s₁ := ((empty.addFrame none).2.bindNatives.addFrame (some globals)).2
  obtain ⟨hsound, hclasses, hmethods⟩ : _ ∧ _ ∧ _ :=
    sound_addArrayMethods (s := s₁) ((sound_bindNatives hempty).addFrame (some globals)) ⟨1⟩
  let c : Class := ⟨"array", none, (s₁.addArrayMethods ⟨1⟩).1⟩
  have hstart : start = ((s₁.addArrayMethods ⟨1⟩).2.addClass c).2.bind globals "array"
      (.classValue ⟨(s₁.addArrayMethods ⟨1⟩).2.classes.size⟩) := rfl
  rw [hstart]
  generalize (s₁.addArrayMethods ⟨1⟩).2 = s at hsound hclasses hmethods ⊢
  have hsize : s.classes.size = 0 := by
    rw [hclasses]
    rfl
  have hlater : s.Extends ((s.addClass c).2.bind globals "array" (.classValue ⟨s.classes.size⟩)) :=
    (s.extends_addClass c).trans (extends_bind _ _ _ _ fun hname => by
      rcases hname with hname | hname <;> simp at hname)
  have hclass : ∀ C, ((s.addClass c).2.bind globals "array" (.classValue ⟨s.classes.size⟩)).class? C =
      if C = ⟨s.classes.size⟩ then some c else s.class? C := fun C => by
    rw [class?_bind, class?_addClass]
  refine hsound.step hlater (fun v hv => ?_) (fun id o ho => .inl ⟨o, ho, rfl⟩) fun C d hd => ?_
  · cases hv with
    | binding hv =>
      rw [local?_bind] at hv
      split at hv
      · cases hv
        exact .inr (by simp [Setting.Fine, hclass])
      · exact .inl (.binding hv)
    | field ho hv => exact .inl (.field ho hv)
    | element ho hv => exact .inl (.element ho hv)
  · rw [hclass] at hd
    split at hd
    · rename_i hC
      cases hd
      refine .inr ⟨fun B hB => (by cases hB), fun name id hid => ?_⟩
      obtain ⟨method, rfl, hfound⟩ := hmethods name id hid
      refine ⟨_, hlater.grows.functions _ _ hfound, ?_, fun other hother => ⟨?_, ?_⟩,
        fun d hd => (by cases hd)⟩
      · cases method <;> rfl
      · rw [hC, hsize]
        rfl
      · cases hother
        rfl
    · exact .inl hd

end Store

def Setting.of (history : List Performance) : Setting where
  root a := ∃ p ∈ history, p.Begins a
  known l := ∃ p ∈ history, l ∈ Stmt.listLookups p.program []

theorem Setting.continues {history more : List Performance} (h : ∀ p ∈ history, p ∈ more) :
    (Setting.of history).Continues (.of more) :=
  ⟨fun _ ⟨p, hp, ha⟩ => ⟨p, h p hp, ha⟩, fun _ ⟨p, hp, hl⟩ => ⟨p, h p hp, hl⟩⟩

namespace Session

/-- A session in which the programs of the history were run. -/
structure Settled (history : List Performance) (s : Session) : Prop where
  rest : s.AtRest
  sound : (Setting.of history).Sound s.machine.store
  answers : (Setting.of history).Answers s.machine.hops
  drawn : ∀ l, (Setting.of history).known l → l.target.id < s.nextId
  unused : ∀ id, s.nextId ≤ id → s.machine.hops[id]? = none

variable {history : List Performance} {s s₁ : Session} {source : String}

theorem settled_start (sink : Sink) (input : Input) (clock : Clock) :
    (start sink input clock).Settled [] := by
  refine ⟨atRest_start sink input clock, Store.sound_start, ?_, ?_, fun id _ => ?_⟩
  · rintro l ⟨p, hp, -⟩
    simp at hp
  · rintro l ⟨p, hp, -⟩
    simp at hp
  · simp [start, Machine.start]

theorem prepare_grows {result : Except (List Diagnostic) Program}
    (h : s.prepare source = (result, s₁)) : s.nextId ≤ s₁.nextId := by
  unfold prepare at h
  split at h
  · cases h
    exact Nat.le_refl _
  · rename_i tokens htokens
    obtain ⟨body, last, rfl, hlast⟩ := Token.ofSource_ended htokens
    have hgrows : s.nextId ≤ (Program.ofTokens s.nextId (body ++ [last])).2 :=
      Program.ofTokens_grows hlast
    split at h
    · rename_i htree
      rw [htree] at hgrows
      cases h
      exact hgrows
    · rename_i htree
      rw [htree] at hgrows
      split at h <;> cases h <;> exact hgrows

theorem Settled.of_error (h : s.Settled history) {errors : List Diagnostic}
    (hp : s.prepare source = (.error errors, s₁)) : s₁.Settled history := by
  have hm := (prepare_error hp).1
  have hgrows : s.nextId ≤ s₁.nextId := prepare_grows hp
  refine ⟨⟨?_, ?_⟩, hm ▸ h.sound, hm ▸ h.answers, fun l hl => ?_, fun id hid => ?_⟩
  · rw [hm]
    exact h.rest.cursor
  · rw [hm]
    exact h.rest.calls
  · exact Nat.lt_of_lt_of_le (h.drawn l hl) hgrows
  · rw [hm]
    exact h.unused id (Nat.le_trans hgrows hid)

theorem prepare_hops {P : Program} {hops : List (ReferenceId × Nat)}
    (h : s.prepare source = (.ok P, s₁)) (hresolve : P.resolve = .ok hops) :
    (∀ entry ∈ hops, entry.1 ∈ identities (Stmt.listReferences P)) ∧
      ∀ entry ∈ hops, ∀ other ∈ hops, entry.1 = other.1 → entry = other :=
  (prepare_numbered h).single hresolve

theorem Settled.of_ok (h : s.Settled history) {p : Performance}
    (hp : s.prepare source = (.ok p.program, s₁)) : s₁.Settled (p :: history) := by
  obtain ⟨tokens, hops, -, -, hresolve, hm⟩ := prepare_ok hp
  have hnumbered := prepare_numbered hp
  -- Identities outside of those drawn for the tree find what they found before.
  have hold : ∀ {id}, id < s.nextId ∨ s₁.nextId ≤ id →
      s₁.machine.hops[id]? = s.machine.hops[id]? := fun hid => by
    rw [hm]
    exact hnumbered.kept hresolve s.machine hid
  refine ⟨⟨?_, ?_⟩, ?_, ?_, ?_, ?_⟩
  · rw [hm]
    exact h.rest.cursor
  · rw [hm]
    exact h.rest.calls
  · have hsound : (Setting.of history).Sound s₁.machine.store := by
      rw [hm]
      exact h.sound
    exact hsound.mono (Setting.continues fun q hq => List.mem_cons_of_mem _ hq)
  · rintro l ⟨q, hq, hl⟩
    rcases List.mem_cons.mp hq with rfl | hq
    · rw [hm]
      obtain ⟨hfound, hsound, hspelled⟩ := hnumbered.records hresolve h.unused l hl
      exact ⟨hfound, hsound, hspelled⟩
    · obtain ⟨hanswer, hrest⟩ := h.answers l ⟨q, hq, hl⟩
      exact ⟨(hold (.inl (h.drawn l ⟨q, hq, hl⟩))).trans hanswer, hrest⟩
  · rintro l ⟨q, hq, hl⟩
    rcases List.mem_cons.mp hq with rfl | hq
    · exact (hnumbered.drawn.bounds _ (id_of_lookup hl)).2
    · exact Nat.lt_of_lt_of_le (h.drawn l ⟨q, hq, hl⟩) hnumbered.drawn.le
  · intro id hid
    rw [hold (.inr hid)]
    exact h.unused id (Nat.le_trans hnumbered.drawn.le hid)

end Session

section

variable {E : Setting} {fuel : Nat} {P : Program} {m : Machine}

/-- The machine is ready for the program. -/
structure Setting.Admits (E : Setting) (P : Program) (m : Machine) : Prop where
  cursor : m.cursor = Store.globals
  sound : E.Sound m.store
  answers : E.Answers m.hops
  known : E.Knows (Stmt.listLookups P [])
  proper : Stmt.AllProper P

theorem Setting.Admits.sits {task : Task} (h : E.Admits P m) (hroot : E.root ⟨fuel, task, m⟩)
    (hknown : ∀ l ∈ task.lookups [], l ∈ Stmt.listLookups P []) (hproper : task.Proper)
    (hsuits : E.Suits m.store task) : Activity.Sits E ⟨fuel, task, m⟩ .top :=
  ⟨.top hroot, h.cursor ▸ .top _, h.sound, h.answers, fun l hl => h.known l (hknown l hl), hproper,
    hsuits⟩

theorem Setting.Admits.head {s : Stmt} {rest : Program} (h : E.Admits (s :: rest) m)
    (hroot : E.root ⟨fuel, .execute s, m⟩) : Activity.Sits E ⟨fuel, .execute s, m⟩ .top :=
  h.sits hroot (fun _ hl => List.mem_append_left _ hl) h.proper.1 trivial

theorem Setting.Admits.tail {s : Stmt} {rest : Program} {m₁ : Machine}
    (h : E.Admits (s :: rest) m) (hm : E.Step m m₁) : E.Admits rest m₁ where
  cursor := hm.cursor.trans h.cursor
  sound := hm.sound
  answers := hm.hops ▸ h.answers
  known := fun l hl => h.known l (by simp [Stmt.listLookups, Stmt.mark_nil, hl])
  proper := h.proper.2

theorem Program.Begins.sits {a : Activity} (h : P.Begins fuel m a) (hm : E.Admits P m)
    (hroot : ∀ a, P.Begins fuel m a → E.root a) : a.Sits E .top := by
  induction h with
  | statement => exact hm.head (hroot _ .statement)
  | next hs _ ih =>
    have hstep := ((evaluates E fuel).execute (hm.head (hroot _ .statement))).answer hs
    exact ih (hm.tail hstep.1) fun a ha => hroot a (.next hs ha)

theorem Eval.steps_runStatements (hm : E.Admits P m) (hroot : ∀ a, P.Begins fuel m a → E.root a) :
    (runStatements fuel P).Steps E m fun _ _ => True := by
  induction P generalizing m with
  | nil => exact .ret hm.sound trivial
  | cons s rest ih =>
    rw [runStatements]
    refine .bind ((evaluates E fuel).execute (hm.head (hroot _ .statement))) ?_
    exact fun _ m₁ hs hstep _ => ih (hm.tail hstep) fun a ha => hroot a (.next hs ha)

variable {p : Performance}

theorem Performance.act_eq (p : Performance) :
    p.act = match p.echoed? with
      | some e => Eval.echo p.fuel e
      | none => Eval.runStatements p.fuel p.program := by
  obtain ⟨interactive, fuel, program, m⟩ := p
  cases interactive with
  | false => rfl
  | true =>
    rcases program with _ | ⟨s, _ | ⟨t, rest⟩⟩
    · rfl
    · cases s <;> rfl
    · cases s <;> rfl

theorem Performance.program_of_echoed {e : Expr} (h : p.echoed? = some e) :
    p.program = [.expression e] := by
  unfold Performance.echoed? at h
  split at h
  · rename_i hprogram
    cases h
    exact hprogram
  · cases h

theorem Performance.echoed_sits {e : Expr} (hm : E.Admits p.program p.machine)
    (hroot : ∀ a, p.Begins a → E.root a) (he : p.echoed? = some e) :
    Activity.Sits E ⟨p.fuel, .evaluate e, p.machine⟩ .top := by
  refine hm.sits (hroot _ (.echoed he)) (fun l hl => ?_) trivial trivial
  rw [Performance.program_of_echoed he]
  exact List.mem_append_left _ hl

theorem Performance.echo_sits {e : Expr} {v : Value} (hm : E.Admits p.program p.machine)
    (hroot : ∀ a, p.Begins a → E.root a) (he : p.echoed? = some e)
    (hv : evaluate p.fuel e p.machine = .answer v m) :
    Activity.Sits E ⟨p.fuel, .render e.line v, m⟩ .top := by
  obtain ⟨hstep, hfine⟩ := ((evaluates E p.fuel).evaluate (echoed_sits hm hroot he)).answer hv
  exact ⟨.top (hroot _ (.echo he hv)), hstep.cursor.trans hm.cursor ▸ .top _, hstep.sound,
    hstep.hops ▸ hm.answers, fun _ hl => (by cases hl), trivial, hfine⟩

theorem Performance.Begins.sits {a : Activity} (h : p.Begins a) (hm : E.Admits p.program p.machine)
    (hroot : ∀ a, p.Begins a → E.root a) : a.Sits E .top := by
  cases h with
  | statements he h => exact h.sits hm fun a ha => hroot a (.statements he ha)
  | echoed he => exact Performance.echoed_sits hm hroot he
  | echo he hv => exact Performance.echo_sits hm hroot he hv

/-- A run takes a step to a sound store and comes upon no internal failure. -/
theorem Eval.steps_act (hm : E.Admits p.program p.machine) (hroot : ∀ a, p.Begins a → E.root a) :
    p.act.Steps E p.machine fun _ _ => True := by
  rw [Performance.act_eq]
  cases he : p.echoed? with
  | none => exact steps_runStatements hm fun a ha => hroot a (.statements he ha)
  | some e =>
    refine .bind ((evaluates E _).evaluate (Performance.echoed_sits hm hroot he)) ?_
    intro v m₁ hv _ _
    refine .bind ((evaluates E _).render (Performance.echo_sits hm hroot he hv)) ?_
    exact fun text m₂ _ hstep _ => .emit hstep.sound trivial

end

namespace Session

variable {history : List Performance} {s s₁ : Session} {source : String}

theorem Settled.admits (h : s.Settled history) {p : Performance}
    (hp : s.prepare source = (.ok p.program, s₁)) (hm : s₁.machine = p.machine) :
    (Setting.of (p :: history)).Admits p.program p.machine := by
  have hsettled := h.of_ok hp
  refine ⟨?_, hm ▸ hsettled.sound, hm ▸ hsettled.answers, ?_, prepare_proper hp⟩
  · rw [← hm]
    exact hsettled.rest.cursor
  · exact fun l hl => ⟨p, List.mem_cons_self, hl⟩

theorem Settled.step (h : s.Settled history) {m : Machine} (hm : (Setting.of history).Step s.machine m)
    {s' : Session} (hrest : s'.AtRest) (hs' : s'.machine = m ∨ s'.machine = m.atRest)
    (hid : s'.nextId = s.nextId) : s'.Settled history := by
  have hstore : s'.machine.store = m.store := by rcases hs' with hs' | hs' <;> rw [hs']; rfl
  have hhops : s'.machine.hops = s.machine.hops := by
    rw [← hm.hops]
    rcases hs' with hs' | hs' <;> rw [hs']
    rfl
  exact ⟨hrest, hstore ▸ hm.sound, hhops ▸ h.answers, hid ▸ h.drawn, hhops ▸ hid ▸ h.unused⟩

theorem Settled.run (hs : s.Settled history) {interactive : Bool} {fuel : Nat}
    {errors : List Diagnostic} (h : s.runAs interactive fuel source = some (errors, s₁)) :
    s₁.Settled ((s.performance? interactive fuel source).toList ++ history) := by
  have hrest : s₁.AtRest :=
    (runAs_keeps (D := AnyFunction) (fun _ _ _ _ _ _ => trivial) (fun _ _ _ _ _ => trivial)
      (stored_any _) hs.rest h).2
  rcases runAs_some h with ⟨hnone, hp⟩ | ⟨p, s₂, hsome, hp, hm, hperform⟩
  · rw [hnone]
    exact hs.of_error hp
  · rw [hsome]
    have hsettled := hs.of_ok hp
    have hsteps := Eval.steps_act (hs.admits hp hm) fun a ha => ⟨p, List.mem_cons_self, ha⟩
    rw [← hm] at hsteps
    obtain ⟨hid, ⟨hact, -⟩ | ⟨fault, after, hact, hm', -⟩⟩ := perform_some hperform
    · exact hsettled.step (hsteps.answer hact).1 hrest (.inl rfl) hid
    · exact hsettled.step (hsteps.fault hact).1 hrest (.inr hm') hid

theorem Settled.facing (hs : s.Settled history) (sink : Sink) (input : Input) (clock : Clock) :
    (s.facing sink input clock).Settled history :=
  ⟨⟨hs.rest.cursor, hs.rest.calls⟩, hs.sound, hs.answers, hs.drawn, hs.unused⟩

/-- The sessions that any runs lead to are settled. -/
theorem After.settled (hs : s.After history) : s.Settled history := by
  induction hs with
  | start sink input clock => exact settled_start sink input clock
  | run hs h ih => exact ih.run h
  | facing sink input clock hs ih => exact ih.facing sink input clock

end Session

end LoxLang
