import LoxLang.Proofs.Session.Joining
import LoxLang.Proofs.Session.Numbering

/-!
Which identities are drawn does not matter.

Two sessions that differ in the identities of references, and find the same hop counts under them, are
twins. Source text that is run in both draws from different identities on, and leaves twins again: it is
refused in both for the same errors, or its two trees are relabelings of each other and run alike. So a
session that draws from a supply together with others behaves as if it were alone.
-/

set_option autoImplicit false

namespace LoxLang

section

variable {f g : ReferenceId → ReferenceId}

theorem Declaration.relabel_congr {d : Declaration} (h : ∀ i ∈ identities d.references, f i = g i) :
    d.relabel (.ofIdentities f) = d.relabel (.ofIdentities g) := by
  have hP : Stmt.relabelAll (.ofIdentities f) [.declareFunction d] =
      Stmt.relabelAll (.ofIdentities g) [.declareFunction d] :=
    Program.relabelAll_congr (by simpa [Stmt.listReferences, Stmt.references] using h)
  simp only [Stmt.relabelAll, Stmt.relabel, List.cons.injEq, Stmt.declareFunction.injEq] at hP
  exact hP.1

theorem Store.relabel_congr {S : ReferenceId → Prop} {s : Store}
    (hs : s.Stored (Declaration.RefersTo S)) (h : ∀ id, S id → f id = g id) :
    s.relabel (.ofIdentities f) = s.relabel (.ofIdentities g) := by
  have hfunctions : s.functions.map (Function.relabel (.ofIdentities f)) =
      s.functions.map (Function.relabel (.ofIdentities g)) := by
    refine Array.map_congr_left fun function hmem => ?_
    obtain ⟨i, hi, rfl⟩ := Array.mem_iff_getElem.mp hmem
    have hfound : s.function? ⟨i⟩ = some s.functions[i] := Array.getElem?_eq_getElem hi
    cases hcode : s.functions[i].code with
    | array method => simp only [Function.relabel, hcode, Code.relabel]
    | declared d =>
      have hd : d.relabel (.ofIdentities f) = d.relabel (.ofIdentities g) := by
        refine Declaration.relabel_congr fun id hid => h id ?_
        obtain ⟨r, hr, rfl⟩ := List.mem_map.mp hid
        exact hs _ _ d hfound hcode r hr
      simp only [Function.relabel, hcode, Code.relabel, hd]
  rw [Store.relabel, Store.relabel, hfunctions]

end

theorem Eval.follows_act {T : Recast} (interactive : Bool) (fuel : Nat) (P : Program) (m n n' : Machine)
    (hids : ∀ i ∈ identities (Stmt.listReferences P), i ∈ T.references) (hlines : ∀ es, T.Places es) :
    Follows T (Performance.mk interactive fuel P n).act
      (Performance.mk interactive fuel (Stmt.relabelAll T.relabeling P) n').act m := by
  have hplain := follows_runStatements fuel P m hids (hlines _)
  rw [Performance.act_eq, Performance.act_eq]
  cases interactive with
  | false => exact hplain
  | true =>
    rcases P with _ | ⟨s, _ | ⟨t, rest⟩⟩
    · exact hplain
    · cases s with
      | expression e =>
        have hline : (e.relabel T.relabeling).line = T.relabeling.line e.line :=
          hlines [e] e (List.mem_singleton.mpr rfl)
        have he : ∀ i ∈ identities e.references, i ∈ T.references := fun i hi =>
          hids i (by simpa [Stmt.listReferences, Stmt.references] using hi)
        change Follows T (echo fuel e) (echo fuel (e.relabel T.relabeling)) m
        unfold echo
        refine .bind ((mirrors T fuel).evaluate e m he) fun v m₁ _ => ?_
        rw [hline]
        exact .bind ((mirrors T fuel).render e.line v m₁) fun text m₂ _ => .emit text
      | branch c t e => cases e <;> exact hplain
      | loop i c n b => cases i <;> exact hplain
      | _ => exact hplain
    · cases s with
      | branch c t e => cases e <;> exact hplain
      | loop i c n b => cases i <;> exact hplain
      | _ => exact hplain

namespace Session

theorem prepare_later (s : Session) (source : String) :
    s.prepare source =
      match Token.ofSource source with
      | .error errors => (.error errors, s)
      | .ok tokens =>
        match Program.ofTokens 0 tokens with
        | (.error errors, used) => (.error errors, { s with nextId := used + s.nextId })
        | (.ok P, used) =>
          match P.resolve with
          | .error errors => (.error errors, { s with nextId := used + s.nextId })
          | .ok hops => (.ok (Stmt.relabelAll (.shifted id s.nextId) P),
            ⟨s.machine.recordHops (hops.map (Prod.map (· + s.nextId) id)), used + s.nextId⟩) := by
  rw [Session.prepare]
  cases Token.ofSource source with
  | error errors => rfl
  | ok tokens =>
    dsimp only
    rw [Program.ofTokens_later]
    obtain ⟨errors | P, used⟩ := Program.ofTokens 0 tokens
    · simp only [relabelResult, Diagnostic.map_relabel_shifted, Relabeling.identity_shifted]
    · simp only [relabelResult, Program.resolve_relabelAll_eq, Relabeling.identity_shifted]
      cases P.resolve with
      | error errors => simp only [Diagnostic.map_relabel_shifted]
      | ok hops => rfl

theorem unused_of_prepare {s s₁ : Session} {source : String} {P : Program}
    (hp : s.prepare source = (.ok P, s₁)) (h : ∀ id, s.nextId ≤ id → s.machine.hops[id]? = none)
    (id : ReferenceId) (hid : s₁.nextId ≤ id) : s₁.machine.hops[id]? = none := by
  have hkept := (prepare_kept s source).2 id (.inr (by rw [hp]; exact hid))
  rw [hp] at hkept
  exact hkept.trans (h id (Nat.le_trans (prepare_grows hp) hid))

/-- The second session is the first one under other identities. Those in use there have the same hop
counts, and on both sides none from the next one on is in use. -/
structure Twin (f : ReferenceId → ReferenceId) (ids : List ReferenceId) (s s' : Session) : Prop where
  alike : s.machine.Alike (.ofIdentities f) s'.machine
  stored : s.machine.store.Stored (Declaration.RefersTo (· ∈ ids))
  carried : ∀ id ∈ ids, s'.machine.hops[f id]? = s.machine.hops[id]?
  below : ∀ id ∈ ids, id < s.nextId ∧ f id < s'.nextId
  unused : ∀ id, s.nextId ≤ id → s.machine.hops[id]? = none
  unused' : ∀ id, s'.nextId ≤ id → s'.machine.hops[id]? = none

namespace Twin

variable {f : ReferenceId → ReferenceId} {ids : List ReferenceId} {s s' : Session}

theorem ofNext {m : Machine} {n n' : ReferenceId} (h : Ahead ⟨m, n⟩) (h' : Ahead ⟨m, n'⟩) :
    Twin (fun id => id) (List.range (min n n')) ⟨m, n⟩ ⟨m, n'⟩ where
  alike := by
    unfold Machine.Alike
    rw [Store.relabel_same]
  stored := fun id function d hf hcode r hr => by
    have hlow := h.stored id function d hf hcode r hr
    have hlow' := h'.stored id function d hf hcode r hr
    exact List.mem_range.mpr (Nat.lt_min.mpr ⟨hlow, hlow'⟩)
  carried := fun _ _ => rfl
  below := fun id hid => Nat.lt_min.mp (List.mem_range.mp hid)
  unused := h.unused
  unused' := h'.unused

theorem raise (h : Twin f ids s s') {n n' : ReferenceId} (hn : s.nextId ≤ n) (hn' : s'.nextId ≤ n') :
    Twin f ids { s with nextId := n } { s' with nextId := n' } where
  alike := h.alike
  stored := h.stored
  carried := h.carried
  below := fun id hid =>
    ⟨Nat.lt_of_lt_of_le (h.below id hid).1 hn, Nat.lt_of_lt_of_le (h.below id hid).2 hn'⟩
  unused := fun id hid => h.unused id (Nat.le_trans hn hid)
  unused' := fun id hid => h.unused' id (Nat.le_trans hn' hid)

/-- What was drawn from `n` on in one session was drawn from `n'` on in the other. -/
def further (f : Nat → Nat) (n n' id : Nat) : Nat :=
  if n ≤ id then id - n + n' else f id

theorem further_old {n n' id : Nat} (h : id < n) : further f n n' id = f id :=
  if_neg (Nat.not_le.mpr h)

theorem further_new {n n' id : Nat} (h : n ≤ id) : further f n n' id = id - n + n' := if_pos h

theorem relabelAll_further (n n' : ReferenceId) (P : Program) :
    Stmt.relabelAll (.ofIdentities (further f n n')) (Stmt.relabelAll (.shifted id n) P) =
      Stmt.relabelAll (.shifted id n') P := by
  have hcomp : Relabeling.comp (.ofIdentities (further f n n')) (.shifted id n) = .shifted id n' := by
    simp only [Relabeling.comp, Relabeling.ofIdentities, Relabeling.shifted, further, Nat.le_add_left,
      if_true, Nat.add_sub_cancel]
  rw [Stmt.relabelAll_relabelAll, hcomp]

theorem further_inj (h : Twin f ids s s') {id other : ReferenceId} (hid : id ∈ ids ∨ s.nextId ≤ id)
    (hother : s.nextId ≤ other)
    (heq : further f s.nextId s'.nextId other = further f s.nextId s'.nextId id) : other = id := by
  rw [further_new hother] at heq
  rcases hid with hid | hid
  · rw [further_old (h.below id hid).1] at heq
    exact absurd (h.below id hid).2 (Nat.not_lt.mpr (heq ▸ Nat.le_add_left _ _))
  · rw [further_new hid] at heq
    exact (tsub_left_inj hother hid).mp (Nat.add_right_cancel heq)

theorem mem_further (h : Twin f ids s s') {hops : List (ReferenceId × Nat)}
    (hdrawn : ∀ entry ∈ hops, s.nextId ≤ entry.1) {id : ReferenceId} (hid : id ∈ ids ∨ s.nextId ≤ id)
    (d : Nat) :
    (further f s.nextId s'.nextId id, d) ∈ hops.map (Prod.map (further f s.nextId s'.nextId) fun d => d) ↔
      (id, d) ∈ hops := by
  rw [List.mem_map]
  constructor
  · rintro ⟨⟨other, e⟩, hmem, heq⟩
    obtain ⟨hother, rfl⟩ : further f s.nextId s'.nextId other = further f s.nextId s'.nextId id ∧
        e = d := by simpa using heq
    obtain rfl := h.further_inj hid (hdrawn _ hmem) hother
    exact hmem
  · exact fun hmem => ⟨(id, d), hmem, rfl⟩

theorem accepted (h : Twin f ids s s') {source : String} {s₁ s₁' : Session} {P P' : Program}
    (hp : s.prepare source = (.ok P, s₁)) (hp' : s'.prepare source = (.ok P', s₁'))
    (hP : P' = Stmt.relabelAll (.ofIdentities (further f s.nextId s'.nextId)) P) :
    Twin (further f s.nextId s'.nextId) (ids ++ identities (Stmt.listReferences P)) s₁ s₁' := by
  obtain ⟨_, hops, -, -, hresolve, hm⟩ := prepare_ok hp
  obtain ⟨_, hops', -, -, hresolve', hm'⟩ := prepare_ok hp'
  have hdrawn := prepare_drawn hp
  have hdrawn' := prepare_drawn hp'
  obtain ⟨hplaced, hone⟩ := prepare_hops hp hresolve
  have hone' := (prepare_hops hp' hresolve').2
  have hold : ∀ id ∈ ids, further f s.nextId s'.nextId id = f id := fun id hid =>
    further_old (h.below id hid).1
  have hhops : hops' = hops.map (Prod.map (further f s.nextId s'.nextId) id) := by
    rw [hP, Program.resolve_relabelAll] at hresolve'
    obtain ⟨found, hfound, rfl⟩ := hresolve'
    rw [Except.ok.inj (hfound.symm.trans hresolve)]
    rfl
  have hsame : ∀ id, id ∈ ids ∨ s.nextId ≤ id → ∀ d,
      (further f s.nextId s'.nextId id, d) ∈ hops' ↔ (id, d) ∈ hops := fun id hid d =>
    hhops ▸ h.mem_further (fun entry hmem => (hdrawn.bounds _ (hplaced _ hmem)).1) hid d
  -- Neither store has changed, and the tables gain the same entries under the drawn
  -- identities.
  constructor
  case alike =>
    have halike := h.alike
    unfold Machine.Alike at halike ⊢
    rw [hm, hm']
    rw [halike, Store.relabel_congr h.stored fun id hid => (hold id hid).symm]
    rfl
  case stored =>
    rw [hm]
    exact h.stored.refersTo_mono fun id hid => List.mem_append_left _ hid
  case carried =>
    intro id hid
    rw [hm, hm']
    rcases List.mem_append.mp hid with hid | hid
    · refine Machine.recordHops_same hone hone' (hsame id (.inl hid)) ?_
      rw [hold id hid]
      exact h.carried id hid
    · have hlow := (hdrawn.bounds id hid).1
      refine Machine.recordHops_same hone hone' (hsame id (.inr hlow)) ?_
      rw [h.unused id hlow, further_new hlow]
      exact h.unused' _ (Nat.le_add_left _ _)
  case below =>
    intro id hid
    rcases List.mem_append.mp hid with hid | hid
    · obtain ⟨hlow, hlow'⟩ := h.below id hid
      rw [hold id hid]
      exact ⟨Nat.lt_of_lt_of_le hlow (prepare_grows hp), Nat.lt_of_lt_of_le hlow' (prepare_grows hp')⟩
    · refine ⟨(hdrawn.bounds id hid).2, (hdrawn'.bounds _ ?_).2⟩
      rw [hP, Stmt.listReferences_relabelAll, identities_relabel]
      exact List.mem_map_of_mem hid
  case unused => exact unused_of_prepare hp h.unused
  case unused' => exact unused_of_prepare hp' h.unused'

/-- Source text is refused in both sessions for the same errors, or accepted in both as the same program
under other identities. -/
theorem prepare (h : Twin f ids s s') (source : String) :
    (∃ errors, (s.prepare source).1 = .error errors ∧ (s'.prepare source).1 = .error errors ∧
      Twin f ids (s.prepare source).2 (s'.prepare source).2) ∨
    ∃ P g more, (s.prepare source).1 = .ok P ∧
      (s'.prepare source).1 = .ok (Stmt.relabelAll (.ofIdentities g) P) ∧
      (∀ i ∈ identities (Stmt.listReferences P), i ∈ more) ∧
      Twin g more (s.prepare source).2 (s'.prepare source).2 := by
  have hp := prepare_later s source
  have hp' := prepare_later s' source
  cases htokens : Token.ofSource source with
  | error errors =>
    rw [htokens] at hp hp'
    rw [hp, hp']
    exact .inl ⟨errors, rfl, rfl, h⟩
  | ok tokens =>
    rw [htokens] at hp hp'
    dsimp only at hp hp'
    generalize Program.ofTokens 0 tokens = tree at hp hp'
    obtain ⟨errors | P, used⟩ := tree
    · rw [hp, hp']
      exact .inl ⟨errors, rfl, rfl, h.raise (Nat.le_add_left _ _) (Nat.le_add_left _ _)⟩
    · dsimp only at hp hp'
      cases hresolve : P.resolve with
      | error errors =>
        rw [hresolve] at hp hp'
        rw [hp, hp']
        exact .inl ⟨errors, rfl, rfl, h.raise (Nat.le_add_left _ _) (Nat.le_add_left _ _)⟩
      | ok hops =>
        rw [hresolve] at hp hp'
        have hP' := relabelAll_further (f := f) s.nextId s'.nextId P
        have htwin := h.accepted hp hp' hP'.symm
        rw [hp, hp']
        exact .inr ⟨_, _, _, rfl, congrArg Except.ok hP'.symm,
          fun i hi => List.mem_append_right _ hi, htwin⟩

def Ends (a b : Option (List Diagnostic × Session)) : Prop :=
  a = none ∧ b = none ∨ ∃ errors s s', a = some (errors, s) ∧ b = some (errors, s') ∧
    ∃ f ids, Twin f ids s s'

theorem perform (h : Twin f ids s s') {act act' : Eval Unit}
    (hact : Eval.Follows ⟨.ofIdentities f, s'.machine.hops, ids⟩ act act' s.machine) :
    Ends (s.perform act) (s'.perform act') := by
  have hm : s'.machine = s.machine.recast ⟨.ofIdentities f, s'.machine.hops, ids⟩ := h.alike
  have hcovers : ∀ d i, Declaration.RefersTo (· ∈ ids) d i ↔
      Recast.Covers ⟨.ofIdentities f, s'.machine.hops, ids⟩ d i := fun d i => by
    refine ⟨fun hd => ⟨fun i hi => ?_, Recast.places_of_zero fun _ _ _ => rfl⟩,
      fun hd r hr => hd.references _ (List.mem_map_of_mem hr)⟩
    obtain ⟨r, hr, rfl⟩ := List.mem_map.mp hi
    exact hd r hr
  have hstored : s.machine.store.Stored (Recast.Covers ⟨.ofIdentities f, s'.machine.hops, ids⟩) :=
    fun id g d hg hc => (hcovers _ _).mp (h.stored id g d hg hc)
  have hsame := hact.same hstored h.carried
  have hkeeps := hact.keeps hstored
  rw [← hm] at hsame
  have hafter : ∀ m : Machine, Kept (Recast.Covers ⟨.ofIdentities f, s'.machine.hops, ids⟩) s.machine m →
      Twin f ids { s with machine := m }
        { s' with machine := m.recast ⟨.ofIdentities f, s'.machine.hops, ids⟩ } := by
    refine fun m hm => ⟨rfl, fun id g d hg hc => (hcovers _ _).mpr (hm.stored id g d hg hc),
      fun id hid => ?_, h.below, fun id hid => ?_, h.unused'⟩
    · exact (h.carried id hid).trans (by rw [hm.hops])
    · exact (congrArg (·[id]?) hm.hops).trans (h.unused id hid)
  unfold Session.perform Machine.perform
  rw [hsame]
  cases ha : act s.machine with
  | answer v m => exact .inr ⟨[], _, _, rfl, rfl, f, ids, hafter m (hkeeps.answer ha)⟩
  | fault fault m =>
    have hkept := hkeeps.fault ha
    have hfault : fault.relabel (.ofIdentities f) = fault := by cases fault <;> rfl
    have htwin := hafter m hkept
    rw [show Outcome.recast _ (.fault fault m) = .fault (fault.relabel (.ofIdentities f)) _ from rfl,
      hfault]
    exact .inr ⟨[fault.diagnostic], _, _, rfl, rfl, f, ids, rfl, htwin.stored, htwin.carried,
      htwin.below, htwin.unused, htwin.unused'⟩
  | exhausted => exact .inl ⟨rfl, rfl⟩

/-- A run in two sessions that are twins ends in both or in neither, with the same reports, and leaves
twins. -/
theorem runAs (h : Twin f ids s s') (interactive : Bool) (fuel : Nat) (source : String) :
    Ends (s.runAs interactive fuel source) (s'.runAs interactive fuel source) := by
  rw [runAs_eq, runAs_eq]
  rcases h.prepare source with ⟨errors, hs, hs', htwin⟩ | ⟨P, g, more, hs, hs', hids, htwin⟩
  · rw [show s.prepare source = (.error errors, _) from Prod.ext hs rfl,
      show s'.prepare source = (.error errors, _) from Prod.ext hs' rfl]
    exact .inr ⟨errors, _, _, rfl, rfl, f, ids, htwin⟩
  · rw [prepare_of_accepts hs, prepare_of_accepts hs']
    exact htwin.perform (Eval.follows_act interactive fuel P _ _ _ hids
      fun es => Recast.places_of_zero fun _ _ _ => rfl)

end Twin

structure Call where
  interactive : Bool
  fuel : Nat
  source : String

def Call.run (c : Call) (s : Session) : Option (List Diagnostic × Session) :=
  s.runAs c.interactive c.fuel c.source

def runCalls : Session → List Call → Option (List (List Diagnostic) × Session)
  | s, [] => some ([], s)
  | s, c :: rest =>
    match c.run s with
    | some (errors, s) => (runCalls s rest).map fun (more, s) => (errors :: more, s)
    | none => none

/-- Nothing tells the sessions apart from outside: they have printed the same and left the same input
unread. -/
structure Indistinct (s s' : Session) : Prop where
  printed : s'.machine.sink = s.machine.sink
  unread : s'.machine.input = s.machine.input

theorem Twin.indistinct {f : ReferenceId → ReferenceId} {ids : List ReferenceId} {s s' : Session}
    (h : Twin f ids s s') : Indistinct s s' := by
  have halike := h.alike
  unfold Machine.Alike at halike
  exact ⟨by rw [halike], by rw [halike]⟩

theorem Twin.runCalls {f : ReferenceId → ReferenceId} {ids : List ReferenceId} {s s' : Session}
    (h : Twin f ids s s') (calls : List Call) :
    Option.Rel (fun a b => a.1 = b.1 ∧ Indistinct a.2 b.2) (s.runCalls calls) (s'.runCalls calls) := by
  induction calls generalizing f ids s s' with
  | nil => exact .some ⟨rfl, h.indistinct⟩
  | cons c rest ih =>
    unfold Session.runCalls
    rcases h.runAs c.interactive c.fuel c.source with ⟨hs, hs'⟩ | ⟨errors, t, t', hs, hs', g, more, htwin⟩
    · rw [show c.run s = none from hs, show c.run s' = none from hs']
      exact .none
    · rw [show c.run s = some (errors, t) from hs, show c.run s' = some (errors, t') from hs']
      have hrest := ih htwin
      dsimp only
      generalize t.runCalls rest = result at hrest ⊢
      generalize t'.runCalls rest = result' at hrest ⊢
      cases hrest with
      | none => exact .none
      | some hsame => exact .some ⟨congrArg (errors :: ·) hsame.1, hsame.2⟩

/-- Sessions that draw identities from the same supply. -/
structure Shared (ι : Type) where
  machine : ι → Machine
  nextId : ReferenceId

namespace Shared

variable {ι : Type} [DecidableEq ι]

def session (p : Shared ι) (i : ι) : Session := ⟨p.machine i, p.nextId⟩

def put (p : Shared ι) (i : ι) (s : Session) : Shared ι :=
  ⟨Function.update p.machine i s.machine, s.nextId⟩

def runCalls : Shared ι → List (ι × Call) → Option (List (ι × List Diagnostic) × Shared ι)
  | p, [] => some ([], p)
  | p, (i, c) :: rest =>
    match c.run (p.session i) with
    | some (errors, s) => (runCalls (p.put i s) rest).map fun (more, p) => ((i, errors) :: more, p)
    | none => none

def own {α : Type} (i : ι) : List (ι × α) → List α
  | [] => []
  | (j, a) :: rest => if j = i then a :: own i rest else own i rest

theorem own_cons_self {α : Type} (i : ι) (a : α) (rest : List (ι × α)) :
    own i ((i, a) :: rest) = a :: own i rest := if_pos rfl

theorem own_cons_other {α : Type} {i j : ι} (h : i ≠ j) (a : α) (rest : List (ι × α)) :
    own j ((i, a) :: rest) = own j rest := if_neg h

theorem twins_put {p : Shared ι} {alone : ι → Session} {i : ι} {s s' : Session}
    (h : ∀ j, ∃ f ids, Twin f ids (p.session j) (alone j)) (hs : ∃ f ids, Twin f ids s s')
    (hle : p.nextId ≤ s.nextId) (j : ι) :
    ∃ f ids, Twin f ids ((p.put i s).session j) (Function.update alone i s' j) := by
  by_cases hj : j = i
  · subst hj
    simpa [put, session] using hs
  · obtain ⟨f, ids, htwin⟩ := h j
    refine ⟨f, ids, ?_⟩
    have hraised := htwin.raise hle (Nat.le_refl _)
    simpa [put, session, Function.update_of_ne hj] using hraised

theorem runCalls_own {alone : ι → Session} {i : ι} {c : Call} {errors : List Diagnostic} {s' : Session}
    (hs' : c.run (alone i) = some (errors, s')) (rest : List (ι × Call)) (j : ι) :
    (alone j).runCalls (own j ((i, c) :: rest)) =
      ((Function.update alone i s' j).runCalls (own j rest)).map fun r =>
        (if i = j then (errors :: r.1, r.2) else r) := by
  by_cases hj : i = j
  · subst hj
    rw [own_cons_self, Session.runCalls, hs', Function.update_self]
    simp
  · rw [own_cons_other hj, Function.update_of_ne (Ne.symm hj)]
    simp [hj]

/-- Sessions with one supply do what twins of theirs do alone. -/
theorem runs_as_alone (p : Shared ι) (calls : List (ι × Call)) (alone : ι → Session)
    (h : ∀ i, ∃ f ids, Twin f ids (p.session i) (alone i)) :
    (∀ reports p', p.runCalls calls = some (reports, p') → ∀ i, ∃ s,
      (alone i).runCalls (own i calls) = some (own i reports, s) ∧ Indistinct s (p'.session i)) ∧
    (p.runCalls calls = none → ∃ i, (alone i).runCalls (own i calls) = none) := by
  -- On the calls. The other sessions only see identities go, and stay twins of theirs.
  induction calls generalizing p alone with
  | nil =>
    refine ⟨fun reports p' hp i => ?_, fun hp => by cases hp⟩
    cases hp
    obtain ⟨f, ids, htwin⟩ := h i
    exact ⟨alone i, rfl, ⟨htwin.indistinct.printed.symm, htwin.indistinct.unread.symm⟩⟩
  | cons call rest ih =>
    obtain ⟨i, c⟩ := call
    obtain ⟨f, ids, htwin⟩ := h i
    rcases htwin.runAs c.interactive c.fuel c.source with
      ⟨hs, hs'⟩ | ⟨errors, s, s', hs, hs', htwins⟩
    · have hp : p.runCalls ((i, c) :: rest) = none := by
        rw [runCalls, show c.run (p.session i) = none from hs]
      rw [hp]
      refine ⟨fun _ _ hsome => (by cases hsome), fun _ => ⟨i, ?_⟩⟩
      rw [own_cons_self, Session.runCalls, show c.run (alone i) = none from hs']
    · have hle : p.nextId ≤ s.nextId := by
        rw [(runAs_prepared hs).1]
        exact prepare_mono (p.session i) c.source
      obtain ⟨hall, hnone⟩ := ih (p.put i s) (Function.update alone i s') (twins_put h htwins hle)
      have hp : p.runCalls ((i, c) :: rest) =
          ((p.put i s).runCalls rest).map fun r => ((i, errors) :: r.1, r.2) := by
        rw [runCalls, show c.run (p.session i) = some (errors, s) from hs]
      have hcalls := runCalls_own (c := c) hs' rest
      rw [hp]
      constructor
      · intro reports p' hsome j
        obtain ⟨⟨more, q⟩, hrest, hsome⟩ := Option.map_eq_some_iff.mp hsome
        cases hsome
        obtain ⟨t, ht, hsame⟩ := hall more q hrest j
        refine ⟨t, ?_, hsame⟩
        rw [hcalls, ht]
        by_cases hj : i = j
        · subst hj
          simp [own_cons_self]
        · simp [hj, own_cons_other hj]
      · intro hstuck
        obtain ⟨j, hj⟩ := hnone (Option.map_eq_none_iff.mp hstuck)
        exact ⟨j, by rw [hcalls, hj]; rfl⟩

end Shared

/-- Which identities are drawn does not matter. Any calls of a session do the same whatever the next
identity is, as long as it lies above those in use: they come to an end or do not, report the same, print
the same and leave the same input unread. So in sessions that draw from one supply, with their calls in any
order, every session does what its own calls do if it is alone, with any next identity. -/
theorem identities_do_not_matter :
    (∀ (m : Machine) (n n' : ReferenceId) (calls : List Call), Ahead ⟨m, n⟩ → Ahead ⟨m, n'⟩ →
      Option.Rel (fun a b => a.1 = b.1 ∧ Indistinct a.2 b.2)
        (runCalls ⟨m, n⟩ calls) (runCalls ⟨m, n'⟩ calls)) ∧
    ∀ (ι : Type) [DecidableEq ι] (p : Shared ι) (next : ι → ReferenceId) (calls : List (ι × Call)),
      (∀ i, (p.session i).Ahead) → (∀ i, Ahead ⟨p.machine i, next i⟩) →
      (∀ reports p', p.runCalls calls = some (reports, p') → ∀ i, ∃ s,
        runCalls ⟨p.machine i, next i⟩ (Shared.own i calls) = some (Shared.own i reports, s) ∧
          Indistinct s (p'.session i)) ∧
      (p.runCalls calls = none → ∃ i, runCalls ⟨p.machine i, next i⟩ (Shared.own i calls) = none) := by
  refine ⟨fun m n n' calls h h' => (Twin.ofNext h h').runCalls calls, ?_⟩
  intro ι _ p next calls hp hnext
  exact p.runs_as_alone calls (fun i => ⟨p.machine i, next i⟩)
    fun i => ⟨_, _, Twin.ofNext (hp i) (hnext i)⟩

/-- A session that draws from identity 7 on while another one draws as well. -/
theorem identities_do_not_matter_seven :
    ∃ s s', runCalls ⟨.start .unlimited [] (.ticking 0), 0⟩ [⟨true, 9, "{ var a; a; }"⟩] = some ([[]], s) ∧
      runCalls ⟨.start .unlimited [] (.ticking 0), 7⟩ [⟨true, 9, "{ var a; a; }"⟩] = some ([[]], s') ∧
      Indistinct s s' ∧
      ∃ reports p, (Shared.mk (fun _ : Bool => .start .unlimited [] (.ticking 0)) 7).runCalls
          [(true, ⟨false, 9, "a;"⟩), (false, ⟨true, 9, "{ var a; a; }"⟩)] = some (reports, p) ∧
        runCalls ⟨.start .unlimited [] (.ticking 0), 0⟩ [⟨true, 9, "{ var a; a; }"⟩] =
          some (Shared.own false reports, s) ∧ Indistinct s (p.session false) := by
  have hahead : ∀ n, Ahead ⟨.start .unlimited [] (.ticking 0), n⟩ := fun n =>
    (numbers_start .unlimited [] (.ticking 0)).toAhead.raise (Nat.zero_le n)
  obtain ⟨hone, hshared⟩ := identities_do_not_matter
  have hends : (runCalls ⟨.start .unlimited [] (.ticking 0), 0⟩ [⟨true, 9, "{ var a; a; }"⟩]).map Prod.fst =
      some [[]] := by cbv
  obtain ⟨⟨reports, s⟩, hs, rfl⟩ := Option.map_eq_some_iff.mp hends
  have hrel := hone (.start .unlimited [] (.ticking 0)) 0 7 [⟨true, 9, "{ var a; a; }"⟩] (hahead 0) (hahead 7)
  rw [hs] at hrel
  cases hs' : runCalls ⟨.start .unlimited [] (.ticking 0), 7⟩ [⟨true, 9, "{ var a; a; }"⟩] with
  | none =>
    rw [hs'] at hrel
    cases hrel
  | some b =>
    obtain ⟨reports', s'⟩ := b
    rw [hs'] at hrel
    obtain ⟨rfl, hsame⟩ : [[]] = reports' ∧ Indistinct s s' := by
      cases hrel with
      | some h => exact h
    have hmany : ((Shared.mk (fun _ : Bool => .start .unlimited [] (.ticking 0)) 7).runCalls
        [(true, ⟨false, 9, "a;"⟩), (false, ⟨true, 9, "{ var a; a; }"⟩)]).isSome = true := by cbv
    obtain ⟨⟨all, p⟩, hp⟩ := Option.isSome_iff_exists.mp hmany
    obtain ⟨hall, -⟩ := hshared Bool (Shared.mk (fun _ => .start .unlimited [] (.ticking 0)) 7) (fun _ => 0) _
      (fun _ => hahead 7) fun _ => hahead 0
    obtain ⟨t, ht, halike⟩ := hall all p hp false
    have ht' : runCalls ⟨.start .unlimited [] (.ticking 0), 0⟩ [⟨true, 9, "{ var a; a; }"⟩] =
        some (Shared.own false all, t) := ht
    obtain rfl : s = t := by
      have := hs.symm.trans ht'
      simp only [Option.some.injEq, Prod.mk.injEq] at this
      exact this.2
    exact ⟨s, s', hs, rfl, hsame, all, p, hp, ht', halike⟩

end Session

end LoxLang
