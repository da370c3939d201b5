import LoxLang.Proofs.Evaluation.Persistence
import LoxLang.Proofs.Session.Environments

/-!
No two references of a session share an identity, so hop counts last.

The supply of identities only grows, also over source text that is refused. The references of a new tree
are therefore apart from those of every earlier one, from the recorded hop counts and from the functions
in the store; recording the hop counts of a program adds entries and changes none.
-/

set_option autoImplicit false

namespace LoxLang

theorem Activity.Refers.lasts {a : Activity} {kind : ReferenceKind} {target : Reference} {m : Machine}
    (h : a.Refers kind target m) : a.machine.Lasts m := by
  cases h with
  | assign hv => exact (evaluate_kept hv).lasts
  | _ => exact .refl _

namespace Session

def tree? (s : Session) (source : String) : Option Program :=
  match Token.ofSource source with
  | .ok tokens => (Program.ofTokens s.nextId tokens).1.toOption
  | .error _ => none

/-- Later sessions, with the trees that were made on the way, the first one first. What lies outside
the session may change between two runs, and others may draw from the same supply of identities. -/
inductive Onward (s : Session) : List Program → Session → Prop
  | refl : Onward s [] s
  | run {trees : List Program} {s₁ s₂ : Session} {interactive : Bool} {fuel : Nat} {source : String}
      {errors : List Diagnostic} :
    Onward s trees s₁ → s₁.runAs interactive fuel source = some (errors, s₂) →
    Onward s (trees ++ (s₁.tree? source).toList) s₂
  | facing {trees : List Program} {s₁ : Session} (sink : Sink) (input : Input) (clock : Clock) :
    Onward s trees s₁ → Onward s trees (s₁.facing sink input clock)
  | drawn {trees : List Program} {s₁ : Session} {nextId : ReferenceId} :
    Onward s trees s₁ → s₁.nextId ≤ nextId → Onward s trees { s₁ with nextId }

/-- The machine of the session between two runs, or at some moment of a run that starts in it. -/
inductive Moment (s : Session) : Machine → Prop
  | between : Moment s s.machine
  | during {interactive : Bool} {fuel : Nat} {source : String} {p : Performance} {a : Activity} :
    s.performance? interactive fuel source = some p → a.Visited p.Begins → Moment s a.machine
  | lookup {interactive : Bool} {fuel : Nat} {source : String} {p : Performance} {a : Activity}
      {kind : ReferenceKind} {target : Reference} {m : Machine} :
    s.performance? interactive fuel source = some p → a.Visited p.Begins →
    a.Refers kind target m → Moment s m

variable {s s₁ s' : Session} {source : String} {trees : List Program}

theorem prepare_mono (s : Session) (source : String) : s.nextId ≤ (s.prepare source).2.nextId :=
  prepare_grows (Prod.eta (s.prepare source)).symm

theorem tree?_drawn {P : Program} (h : s.tree? source = some P) :
    Drawn s.nextId (s.prepare source).2.nextId (identities (Stmt.listReferences P)) := by
  unfold tree? at h
  unfold prepare
  split at h
  · rename_i tokens htokens
    rw [htokens]
    cases hP : Program.ofTokens s.nextId tokens with
    | mk result nextId =>
      rw [hP] at h
      cases result with
      | error errors => cases h
      | ok Q =>
        cases h
        have hdrawn := (numbered_of_tokens htokens hP).drawn
        simp only [hP]
        split <;> exact hdrawn
  · cases h

theorem runAs_prepared {interactive : Bool} {fuel : Nat} {errors : List Diagnostic}
    (h : s.runAs interactive fuel source = some (errors, s')) :
    s'.nextId = (s.prepare source).2.nextId ∧
      (s.prepare source).2.machine.Lasts s'.machine := by
  rcases runAs_some h with ⟨-, hp⟩ | ⟨p, s₁, -, hp, -, hperform⟩
  · rw [hp]
    exact ⟨rfl, .refl _⟩
  · rw [hp]
    have hact : p.act.Keeps AnyFunction s₁.machine :=
      Eval.keeps_act (fun _ _ _ _ _ _ => trivial) p _ fun _ _ _ => trivial
    obtain ⟨hid, ⟨ha, -⟩ | ⟨fault, after, ha, hm, -⟩⟩ := perform_some hperform
    · exact ⟨hid, ((hact (stored_any _)).answer ha).lasts⟩
    · have hlasts := ((hact (stored_any _)).fault ha).lasts
      exact ⟨hid, by rw [hm]; exact ⟨hlasts.hops, hlasts.grows⟩⟩

theorem prepare_kept (s : Session) (source : String) :
    (s.prepare source).2.machine.store = s.machine.store ∧
      ∀ id, id < s.nextId ∨ (s.prepare source).2.nextId ≤ id →
        (s.prepare source).2.machine.hops[id]? = s.machine.hops[id]? := by
  cases hp : s.prepare source with
  | mk result s₁ =>
    cases result with
    | error errors =>
      rw [(prepare_error hp).1]
      exact ⟨rfl, fun _ _ => rfl⟩
    | ok P =>
      obtain ⟨tokens, hops, -, -, hresolve, hm⟩ := prepare_ok hp
      rw [hm]
      exact ⟨rfl, fun id hid => (prepare_numbered hp).kept hresolve s.machine hid⟩

def identitiesOf (trees : List Program) : List ReferenceId :=
  trees.flatMap fun P => identities (Stmt.listReferences P)

theorem identitiesOf_append (a b : List Program) :
    identitiesOf (a ++ b) = identitiesOf a ++ identitiesOf b := List.flatMap_append

/-- The identities in use lie below the next one: those of recorded hop counts and of the functions in
the store. -/
structure Ahead (s : Session) : Prop where
  unused : ∀ id, s.nextId ≤ id → s.machine.hops[id]? = none
  stored : s.machine.store.Stored (Declaration.RefersTo (· < s.nextId))

/-- The identities of the trees lie below the next one as well, and no two of them are the same. -/
structure Numbers (trees : List Program) (s : Session) : Prop extends s.Ahead where
  drawn : Drawn 0 s.nextId (identitiesOf trees)
  rest : s.AtRest

theorem numbers_start (sink : Sink) (input : Input) (clock : Clock) :
    (start sink input clock).Numbers [] where
  drawn := .nil (Nat.le_refl _)
  unused := fun id _ => by simp [start, Machine.start]
  stored := Store.stored_start _
  rest := atRest_start sink input clock

theorem Numbers.tree (h : s.Numbers trees) (source : String) :
    Drawn 0 (s.prepare source).2.nextId (identitiesOf (trees ++ (s.tree? source).toList)) := by
  rw [identitiesOf_append]
  cases htree : s.tree? source with
  | none => simpa [identitiesOf] using h.drawn.extend (prepare_mono s source)
  | some P => simpa [identitiesOf] using h.drawn.append (tree?_drawn htree)

theorem Numbers.adds (h : s.Numbers trees) {P : Program} {hops : List (ReferenceId × Nat)}
    (hp : s.prepare source = (.ok P, s₁)) (hresolve : P.resolve = .ok hops) :
    (∀ entry ∈ hops, s.machine.hops[entry.1]? = none) ∧
      ∀ id d, s₁.machine.hops[id]? = some d ↔ s.machine.hops[id]? = some d ∨ (id, d) ∈ hops := by
  obtain ⟨hids, hone⟩ := prepare_hops hp hresolve
  have hnew : ∀ entry ∈ hops, s.machine.hops[entry.1]? = none := fun entry hentry =>
    h.unused _ ((prepare_drawn hp).bounds _ (hids entry hentry)).1
  obtain ⟨-, hops', -, -, hresolve', hm⟩ := prepare_ok hp
  obtain rfl : hops' = hops := Except.ok.inj (hresolve'.symm.trans hresolve)
  refine ⟨hnew, fun id d => ?_⟩
  obtain ⟨hfound, hkept⟩ := s.machine.recordHops_found hone id
  rw [hm]
  constructor
  · intro hd
    by_cases hentry : ∃ e, (id, e) ∈ hops'
    · obtain ⟨e, he⟩ := hentry
      obtain rfl : e = d := Option.some.inj ((hfound e he).symm.trans hd)
      exact .inr he
    · rw [hkept fun e he => hentry ⟨e, he⟩] at hd
      exact .inl hd
  · rintro (hd | hd)
    · rw [hkept fun e he => ?_]
      · exact hd
      · rw [hnew _ he] at hd
        cases hd
    · exact hfound d hd

theorem Numbers.run (h : s.Numbers trees) {interactive : Bool} {fuel : Nat}
    {errors : List Diagnostic} (hrun : s.runAs interactive fuel source = some (errors, s')) :
    s'.Numbers (trees ++ (s.tree? source).toList) := by
  obtain ⟨hid, hlasts⟩ := runAs_prepared hrun
  have hgrows : s.nextId ≤ s'.nextId := hid ▸ prepare_mono s source
  have hstored : s.machine.store.Stored (Declaration.RefersTo (· < s'.nextId)) :=
    h.stored.refersTo_mono fun _ hlt => Nat.lt_of_lt_of_le hlt hgrows
  have hP : ∀ P, s.accepts source P →
      AllSatisfy (Declaration.RefersTo (· < s'.nextId)) (Stmt.allDeclared P) := by
    intro P hP
    have hdrawn := prepare_drawn (prepare_of_accepts hP)
    rw [← hid] at hdrawn
    exact Stmt.allDeclared_refersTo fun r hr => (hdrawn.bounds _ (List.mem_map_of_mem hr)).2
  obtain ⟨hstored', hrest'⟩ := runAs_keeps Declaration.hereditary_refersTo hP hstored h.rest hrun
  refine ⟨⟨fun id hle => ?_, hstored'⟩, hid ▸ h.tree source, hrest'⟩
  rw [hlasts.hops, (prepare_kept s source).2 id (.inr (hid ▸ hle))]
  exact h.unused id (Nat.le_trans hgrows hle)

theorem Numbers.facing (h : s.Numbers trees) (sink : Sink) (input : Input) (clock : Clock) :
    (s.facing sink input clock).Numbers trees :=
  ⟨⟨h.unused, h.stored⟩, h.drawn, ⟨h.rest.cursor, h.rest.calls⟩⟩

theorem Ahead.raise (h : s.Ahead) {nextId : ReferenceId} (hle : s.nextId ≤ nextId) :
    Ahead { s with nextId } :=
  ⟨fun id hid => h.unused id (Nat.le_trans hle hid),
    h.stored.refersTo_mono fun _ hlt => Nat.lt_of_lt_of_le hlt hle⟩

theorem Numbers.raise (h : s.Numbers trees) {nextId : ReferenceId} (hle : s.nextId ≤ nextId) :
    Numbers trees { s with nextId } :=
  ⟨h.toAhead.raise hle, h.drawn.extend hle, ⟨h.rest.cursor, h.rest.calls⟩⟩

theorem Onward.numbers {more : List Program} (hs : s.Onward more s') (h : s.Numbers trees) :
    s'.Numbers (trees ++ more) := by
  induction hs with
  | refl => simpa using h
  | run _ hrun ih => simpa using ih.run hrun
  | facing sink input clock _ ih => exact ih.facing sink input clock
  | drawn _ hle ih => exact ih.raise hle

structure Lasts (s : Session) (n : ReferenceId) (m : Machine) : Prop where
  hops : ∀ id, id < n → m.hops[id]? = s.machine.hops[id]?
  grows : s.machine.store.Grows m.store

theorem Lasts.machine {n : ReferenceId} {m m' : Machine} (h : s.Lasts n m) (hm : m.Lasts m') :
    s.Lasts n m' :=
  ⟨fun id hid => by rw [hm.hops]; exact h.hops id hid, h.grows.trans hm.grows⟩

theorem Lasts.prepare {n : ReferenceId} (h : s.Lasts n s₁.machine) (hle : n ≤ s₁.nextId)
    (source : String) : s.Lasts n (s₁.prepare source).2.machine := by
  obtain ⟨hstore, hhops⟩ := prepare_kept s₁ source
  refine ⟨fun id hid => ?_, hstore ▸ h.grows⟩
  rw [hhops id (.inl (Nat.lt_of_lt_of_le hid hle))]
  exact h.hops id hid

theorem Onward.lasts (hs : s.Onward trees s') :
    s.nextId ≤ s'.nextId ∧ s.Lasts s.nextId s'.machine := by
  induction hs with
  | refl => exact ⟨Nat.le_refl _, fun _ _ => rfl, .refl _⟩
  | @run trees s₁ s₂ interactive fuel source errors _ hrun ih =>
    obtain ⟨hid, hlasts⟩ := runAs_prepared hrun
    exact ⟨hid ▸ Nat.le_trans ih.1 (prepare_mono _ _), (ih.2.prepare ih.1 source).machine hlasts⟩
  | facing sink input clock _ ih => exact ⟨ih.1, ih.2.hops, ih.2.grows⟩
  | drawn _ hle ih => exact ⟨Nat.le_trans ih.1 hle, ih.2⟩

theorem Moment.lasts {n : ReferenceId} {m : Machine} (hm : s₁.Moment m)
    (h : s.Lasts n s₁.machine) (hle : n ≤ s₁.nextId) : s.Lasts n m := by
  have hvisited : ∀ {interactive : Bool} {fuel : Nat} {source : String} {p : Performance}
      {a : Activity}, s₁.performance? interactive fuel source = some p → a.Visited p.Begins →
      s.Lasts n a.machine := by
    intro interactive fuel source p a hp ha
    obtain ⟨s₂, hprepare, hp⟩ := performance?_some hp
    have hprepared := h.prepare hle source
    rw [hprepare, hp] at hprepared
    exact hprepared.machine (Performance.lasts_visited ha)
  cases hm with
  | between => exact h
  | during hp ha => exact hvisited hp ha
  | lookup hp ha hrefers => exact (hvisited hp ha).machine hrefers.lasts

/-- References never share an identity, so hop counts last. Over any runs of a session, also of source
text that is refused, the references of all trees have identities of their own. Recording the hop counts
of a program adds entries and changes none, and the run after it leaves them alone. What was recorded
stays at every later moment, and every closure is still there then and finds each of its references at
the same hop count, or still at none. -/
theorem hops_last {sink : Sink} {input : Input} {clock : Clock}
    (hs : (start sink input clock).Onward trees s) :
    (∀ source, (identitiesOf (trees ++ (s.tree? source).toList)).Nodup) ∧
    (∀ source P, s.accepts source P → ∃ hops, P.resolve = .ok hops ∧
      (∀ entry ∈ hops, s.machine.hops[entry.1]? = none) ∧
      ∀ id d, (s.prepare source).2.machine.hops[id]? = some d ↔
        s.machine.hops[id]? = some d ∨ (id, d) ∈ hops) ∧
    (∀ interactive fuel source,
      (∀ (p : Performance) (a : Activity),
        s.performance? interactive fuel source = some p → a.Visited p.Begins →
        a.machine.hops = (s.prepare source).2.machine.hops) ∧
      ∀ errors s', s.runAs interactive fuel source = some (errors, s') →
        s'.machine.hops = (s.prepare source).2.machine.hops) ∧
    ∀ (more : List Program) (s' : Session) (m : Machine), s.Onward more s' → s'.Moment m →
      (∀ (id : ReferenceId) (d : Nat), s.machine.hops[id]? = some d → m.hops[id]? = some d) ∧
      ∀ (id : FunctionId) (f : Function) (d : Declaration),
        s.machine.store.function? id = some f → f.code = .declared d →
        m.store.function? id = some f ∧
          ∀ r ∈ d.references, m.hops[r.2.id]? = s.machine.hops[r.2.id]? := by
  have hnumbers : s.Numbers trees := hs.numbers (numbers_start sink input clock)
  refine ⟨fun source => (hnumbers.tree source).nodup, fun source P hP => ?_,
    fun interactive fuel source => ⟨fun p a hp ha => ?_, fun errors s' h => ?_⟩,
    fun more s' m honward hmoment => ?_⟩
  · have hp := prepare_of_accepts hP
    obtain ⟨tokens, hops, -, -, hresolve, -⟩ := prepare_ok hp
    exact ⟨hops, hresolve, hnumbers.adds hp hresolve⟩
  · obtain ⟨s₁, hprepare, hm⟩ := performance?_some hp
    rw [(Performance.lasts_visited ha).hops, ← hm, hprepare]
  · exact (runAs_prepared h).2.hops
  · have hlasts := hmoment.lasts honward.lasts.2 honward.lasts.1
    refine ⟨fun id d hd => ?_, fun id f d hf hcode => ?_⟩
    · have hid : id < s.nextId := by
        -- An identity that is still to be drawn has no entry.
        by_contra hle
        rw [hnumbers.unused id (Nat.not_lt.mp hle)] at hd
        cases hd
      rw [hlasts.hops id hid]
      exact hd
    · exact ⟨hlasts.grows.functions id f hf, fun r hr =>
        hlasts.hops _ (hnumbers.stored id f d hf hcode r hr)⟩

/-- A function of a block is declared after a line that was refused. The reference of the refused line has
drawn an identity, and the one in the function is found one environment up on all later lines. -/
theorem hops_last_closure :
    let target : Reference := ⟨1, ⟨.identifier, "a", 1⟩⟩
    let body : List Stmt := [.returnWith ⟨.keyword .returnWord, "return", 1⟩ (some (.variable target))]
    let f : Function := ⟨.declared (.mk ⟨.identifier, "f", 1⟩ [] body), ⟨2⟩, false⟩
    ∃ s s₁ trees errors, (start .unlimited [] (.ticking 0)).runAs true 9 "return b;" = some (errors, s₁) ∧
      errors.length = 1 ∧ (start .unlimited [] (.ticking 0)).Onward trees s ∧ identitiesOf trees = [0, 1] ∧
      s.machine.store.function? ⟨6⟩ = some f ∧ s.machine.hops[1]? = some 1 ∧
      (∀ source, (identitiesOf (trees ++ (s.tree? source).toList)).Nodup) ∧
      ∀ (more : List Program) (s' : Session) (m : Machine), s.Onward more s' → s'.Moment m →
        m.store.function? ⟨6⟩ = some f ∧ m.hops[1]? = some 1 := by
  intro target body f
  let line := "{ var a; fun f() { return a; } }"
  have hruns : (((start .unlimited [] (.ticking 0)).runAs true 9 "return b;").bind fun refused =>
      (refused.2.runAs true 9 line).map fun run =>
        (refused.1.length, identitiesOf (((start .unlimited [] (.ticking 0)).tree? "return b;").toList ++
          (refused.2.tree? line).toList), run.2.machine.store.function? ⟨6⟩, run.2.machine.hops[1]?)) =
      some (1, [0, 1], some f, some 1) := by
    cbv
  obtain ⟨⟨errors, s₁⟩, hrefused, hrun⟩ := Option.bind_eq_some_iff.mp hruns
  obtain ⟨⟨others, s⟩, hrun, hfacts⟩ := Option.map_eq_some_iff.mp hrun
  simp only [Prod.mk.injEq] at hfacts
  obtain ⟨hlength, htrees, hf, hhops⟩ := hfacts
  have hs : (start .unlimited [] (.ticking 0)).Onward _ s := (Onward.refl.run hrefused).run hrun
  obtain ⟨hnodup, -, -, hlasts⟩ := hops_last hs
  refine ⟨s, s₁, _, errors, hrefused, hlength, hs, htrees, hf, hhops, hnodup, fun more s' m honward hm => ?_⟩
  obtain ⟨hkept, hfunctions⟩ := hlasts more s' m honward hm
  exact ⟨(hfunctions _ f _ hf rfl).1, hkept 1 1 hhops⟩

end Session

end LoxLang
