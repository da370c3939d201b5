import LoxLang.Proofs.Evaluation.Renaming
import LoxLang.Proofs.Scope.Renaming
import LoxLang.Proofs.Session.Settled
import LoxLang.Proofs.Token.Joining

/-!
A program in one piece and in two.

Two texts with a new line between them run as the first one and then, in the same session and only if that
succeeded, the second one: what is printed, how it ends and which globals are left are the same. The trees
differ in the lines of the second text and in the identities of references, and running does not depend on
those but for the line of what is reported.
-/

set_option autoImplicit false

namespace LoxLang

theorem Declaration.relabel_same (d : Declaration) : d.relabel (.ofIdentities fun id => id) = d := by
  have h := Program.relabelAll_same [.declareFunction d]
  simp only [Stmt.relabelAll, Stmt.relabel, List.cons.injEq, Stmt.declareFunction.injEq] at h
  exact h.1

theorem Store.relabel_same (s : Store) : s.relabel (.ofIdentities fun id => id) = s := by
  have hcode : ∀ f : Function, f.relabel (.ofIdentities fun id => id) = f := by
    rintro ⟨code, closure, initializes⟩
    cases code with
    | declared d => simp only [Function.relabel, Code.relabel, Declaration.relabel_same]
    | array method => rfl
  have hall : s.functions.map (Function.relabel (.ofIdentities fun id => id)) = s.functions := by
    simp only [funext hcode, Array.map_id']
  rw [Store.relabel, hall]

theorem Fault.relabel_same (f : Fault) : f.relabel (.ofIdentities fun id => id) = f := by
  cases f <;> rfl

/-- The second machine has other lines and other identities in its code, and hop counts for them. -/
def Machine.Alike (ρ : Relabeling) (m m' : Machine) : Prop :=
  m' = { m with store := m.store.relabel ρ, hops := m'.hops }

inductive Outcome.Alike (ρ : Relabeling) {α : Type} : Outcome α → Outcome α → Prop
  | answer {v : α} {m m' : Machine} : m.Alike ρ m' → Alike ρ (.answer v m) (.answer v m')
  | fault {f : Fault} {m m' : Machine} : m.Alike ρ m' → Alike ρ (.fault f m) (.fault (f.relabel ρ) m')
  | exhausted : Alike ρ .exhausted .exhausted

theorem Outcome.alike_recast (T : Recast) {α : Type} (o : Outcome α) :
    o.Alike T.relabeling (o.recast T) := by
  cases o with
  | answer v m => exact .answer rfl
  | fault f m => exact .fault rfl
  | exhausted => exact .exhausted

namespace Eval

theorem follows_runStatements {T : Recast} (fuel : Nat) (P : Program) (m : Machine)
    (hids : ∀ i ∈ identities (Stmt.listReferences P), i ∈ T.references)
    (hprinted : T.Places (Stmt.allPrinted P)) :
    Follows T (runStatements fuel P) (runStatements fuel (Stmt.relabelAll T.relabeling P)) m := by
  induction P generalizing m with
  | nil => exact .ret ()
  | cons s rest ih =>
    simp only [Stmt.listReferences, identities_append, List.mem_append] at hids
    simp only [Stmt.relabelAll, runStatements]
    have hs := (mirrors T fuel).execute s m (fun i hi => hids i (.inl hi)) hprinted.left
    exact .bind hs fun _ m₁ _ => ih m₁ (fun i hi => hids i (.inr hi)) hprinted.right

theorem runStatements_append (fuel : Nat) (a b : Program) (m : Machine) :
    runStatements fuel (a ++ b) m = andThen (runStatements fuel a) (fun _ => runStatements fuel b) m := by
  induction a generalizing m with
  | nil => rfl
  | cons s rest ih =>
    change andThen (execute fuel s) (fun _ => runStatements fuel (rest ++ b)) m =
      andThen (andThen (execute fuel s) fun _ => runStatements fuel rest)
        (fun _ => runStatements fuel b) m
    unfold andThen
    cases execute fuel s m with
    | answer ending m₁ => exact ih m₁
    | fault f m₁ => rfl
    | exhausted => rfl

def recording (hops : List (ReferenceId × Nat)) : Eval Unit := fun m => .answer () (m.recordHops hops)

def runInTurn (fuel : Nat) (P : Program) (more : List (ReferenceId × Nat)) (Q : Program) : Eval Unit :=
  andThen (runStatements fuel P) fun _ => andThen (recording more) fun _ => runStatements fuel Q

end Eval

theorem Machine.recordHops_append (m : Machine) (a b : List (ReferenceId × Nat)) :
    (m.recordHops a).recordHops b = m.recordHops (a ++ b) := by
  simp only [recordHops, List.foldl_append]

/-- The joined tree of two programs with the hop counts of all three. -/
structure Seam (ρ : Relabeling) (R P Q : Program) where
  hops : List (ReferenceId × Nat)
  first : List (ReferenceId × Nat)
  second : List (ReferenceId × Nat)
  zero : ρ.line 0 = 0
  renamed : Program.Renamed ρ R (P ++ Q)
  carried : second ++ first = hops.map (Prod.map ρ.identity id)
  placed : ∀ entry ∈ hops, entry.1 ∈ identities (Stmt.listReferences R)
  one : ∀ entry ∈ hops, ∀ other ∈ hops, entry.1 = other.1 → entry = other
  apart : ∀ entry ∈ second, entry.1 ∉ identities (Stmt.listReferences P)

namespace Seam

variable {ρ : Relabeling} {R P Q : Program} (S : Seam ρ R P Q)

theorem mem_carried {id : ReferenceId} (hid : id ∈ identities (Stmt.listReferences R)) (d : Nat) :
    (ρ.identity id, d) ∈ S.first ++ S.second ↔ (id, d) ∈ S.hops := by
  rw [List.mem_append, or_comm, ← List.mem_append, S.carried, List.mem_map]
  constructor
  · rintro ⟨⟨other, d'⟩, hmem, heq⟩
    obtain ⟨hother, rfl⟩ : ρ.identity other = ρ.identity id ∧ d' = d := by simpa using heq
    obtain rfl := S.renamed.apart other (S.placed _ hmem) id hid hother
    exact hmem
  · exact fun hmem => ⟨(id, d), hmem, rfl⟩

theorem one_carried : ∀ entry ∈ S.first ++ S.second, ∀ other ∈ S.first ++ S.second,
    entry.1 = other.1 → entry = other := by
  intro entry hentry other hother hid
  rw [List.mem_append, or_comm, ← List.mem_append, S.carried, List.mem_map] at hentry hother
  obtain ⟨e, he, rfl⟩ := hentry
  obtain ⟨o, ho, rfl⟩ := hother
  have hsame : e.1 = o.1 := S.renamed.apart _ (S.placed e he) _ (S.placed o ho) hid
  rw [S.one e he o ho hsame]

def recast (m : Machine) : Recast :=
  ⟨ρ, (m.recordHops (S.first ++ S.second)).hops, identities (Stmt.listReferences R)⟩

theorem carries {m : Machine} (hnone : ∀ id : ReferenceId, m.hops[id]? = none) :
    (S.recast m).Carries (m.recordHops S.hops).hops := by
  refine fun id hid => Machine.recordHops_same S.one S.one_carried (S.mem_carried hid) ?_
  rw [hnone, hnone]

def ahead (m : Machine) : Recast :=
  ⟨.ofIdentities fun id => id, (m.recordHops (S.first ++ S.second)).hops,
    identities (Stmt.listReferences P)⟩

theorem ahead_carries (m : Machine) : (S.ahead m).Carries (m.recordHops S.first).hops := by
  intro id hid
  have hone : ∀ entry ∈ S.second, ∀ other ∈ S.second, entry.1 = other.1 → entry = other :=
    fun entry he other ho => S.one_carried entry (List.mem_append_right _ he) other
      (List.mem_append_right _ ho)
  have hkept := ((m.recordHops S.first).recordHops_found hone id).2 fun d hd => S.apart _ hd hid
  rwa [Machine.recordHops_append] at hkept

/-- On a machine with built-in functions only, the joined tree runs as the two programs in turn. -/
theorem runs_in_turn {m : Machine} (hbuiltIn : m.store.Stored fun _ _ => False)
    (hnone : ∀ id : ReferenceId, m.hops[id]? = none) (fuel : Nat) :
    Outcome.Alike ρ (Eval.runStatements fuel R (m.recordHops S.hops))
      (Eval.runInTurn fuel P S.second Q (m.recordHops S.first)) := by
  have hstored : ∀ D, m.store.Stored D := fun D id f d hf hd => (hbuiltIn id f d hf hd).elim
  have hjoined := (Eval.follows_runStatements (T := S.recast m) fuel R
    (m.recordHops S.hops) (fun i hi => hi) (Recast.places_of_zero fun _ _ _ => S.zero)).same (hstored _) (S.carries hnone)
  have hahead := Eval.follows_runStatements (T := S.ahead m) fuel P (m.recordHops S.first)
    (fun i hi => hi) (Recast.places_of_zero fun _ _ _ => rfl)
  have hsame := hahead.same (hstored _) (S.ahead_carries m)
  have hkeeps := hahead.keeps (hstored _)
  -- Both recasts lead to the machine with the hop counts of both programs.
  have hstart : (m.recordHops S.hops).recast (S.recast m) = m.recordHops (S.first ++ S.second) := by
    simp only [Machine.recast, Machine.recordHops, Seam.recast, m.store.relabel_of_builtIn hbuiltIn]
  have hstart' : (m.recordHops S.first).recast (S.ahead m) = m.recordHops (S.first ++ S.second) := by
    simp only [Machine.recast, Machine.recordHops, Seam.ahead, m.store.relabel_of_builtIn hbuiltIn]
  change Eval.runStatements fuel (Stmt.relabelAll (.ofIdentities fun id => id) P) _ = _ at hsame
  change Eval.runStatements fuel (Stmt.relabelAll ρ R) _ = _ at hjoined
  rw [hstart, S.renamed.relabels, Eval.runStatements_append] at hjoined
  rw [hstart', Program.relabelAll_same] at hsame
  unfold Eval.andThen at hjoined
  rw [hsame] at hjoined
  unfold Eval.runInTurn Eval.andThen
  -- What the first program does decides: the hop counts of the second one are recorded after an answer
  -- only.
  cases hP : Eval.runStatements fuel P (m.recordHops S.first) with
  | answer v after =>
    rw [hP] at hjoined
    have hafter : after.recast (S.ahead m) = after.recordHops S.second := by
      have hhops : after.hops = (m.recordHops S.first).hops := (hkeeps.answer hP).hops
      have hboth : (after.recordHops S.second).hops = (S.ahead m).hops := by
        simp only [Machine.recordHops, hhops, Seam.ahead, List.foldl_append]
      simp only [Machine.recast, Seam.ahead, Store.relabel_same] at hboth ⊢
      rw [← hboth]
      rfl
    change Eval.runStatements fuel Q (after.recast (S.ahead m)) = _ at hjoined
    change Outcome.Alike ρ _ (Eval.runStatements fuel Q (after.recordHops S.second))
    rw [← hafter, hjoined]
    exact Outcome.alike_recast (S.recast m) _
  | fault f after =>
    rw [hP] at hjoined
    change Outcome.fault (f.relabel (.ofIdentities fun id => id)) (after.recast (S.ahead m)) = _ at hjoined
    rw [Fault.relabel_same] at hjoined
    have halike := Outcome.alike_recast (S.recast m) (Eval.runStatements fuel R (m.recordHops S.hops))
    rw [← hjoined] at halike
    have hafter : after = { after.recast (S.ahead m) with hops := after.hops } := by
      simp only [Machine.recast, Seam.ahead, Store.relabel_same]
    generalize Eval.runStatements fuel R (m.recordHops S.hops) = o at halike ⊢
    cases halike with
    | fault hm =>
      refine .fault ?_
      rw [hafter, hm]
      rfl
  | exhausted =>
    rw [hP] at hjoined
    have halike := Outcome.alike_recast (S.recast m) (Eval.runStatements fuel R (m.recordHops S.hops))
    rw [← hjoined] at halike
    exact halike

end Seam

namespace Session

def runBoth (fuel : Nat) (s : Session) (first second : String) : Option (List Diagnostic × Session) :=
  match s.run fuel first with
  | some ([], s) => s.run fuel second
  | result => result

/-- The second run reports the same as the first one but for the lines, has printed and read the same, and
leaves the same store but for the lines and the identities in the code of functions. -/
structure SameRun (line : Nat → Nat) (a b : List Diagnostic × Session) : Prop where
  reported : b.1 = a.1.map (Diagnostic.relabel (.ofLines line))
  printed : b.2.machine.sink = a.2.machine.sink
  unread : b.2.machine.input = a.2.machine.input
  clock : b.2.machine.clock = a.2.machine.clock
  globals : ∀ name, b.2.global? name = a.2.global? name
  code : ∃ identity, b.2.machine.store = a.2.machine.store.relabel ⟨line, identity⟩

variable {sink : Sink} {input : Input} {clock : Clock} {fuel : Nat} {φ : Nat → Nat} {f : ReferenceId → ReferenceId}

theorem SameRun.of_alike (errors : List Diagnostic) {m m' : Machine} {n n' : ReferenceId}
    (h : m.Alike ⟨φ, f⟩ m') :
    SameRun φ (errors, ⟨m, n⟩) (errors.map (Diagnostic.relabel (.ofLines φ)), ⟨m', n'⟩) := by
  obtain ⟨store, cursor, hops, sink, input, calls, clock⟩ := m'
  unfold Machine.Alike at h
  simp only [Machine.mk.injEq] at h
  obtain ⟨rfl, rfl, -, rfl, rfl, rfl, rfl⟩ := h
  exact ⟨rfl, rfl, rfl, rfl, fun _ => rfl, f, rfl⟩

theorem sameRun_perform {act act' : Eval Unit} {m m' : Machine} {n n' : ReferenceId}
    (h : Outcome.Alike ⟨φ, f⟩ (act m) (act' m')) :
    Option.Rel (SameRun φ) (perform ⟨m, n⟩ act) (perform ⟨m', n'⟩ act') := by
  unfold perform Machine.perform
  generalize act m = o at h ⊢
  generalize act' m' = o' at h ⊢
  cases h with
  | answer hm => exact .some (.of_alike [] hm)
  | @fault fault m m' hm =>
    have hrest : m.atRest.Alike ⟨φ, f⟩ m'.atRest := by
      unfold Machine.Alike at hm
      rw [hm]
      rfl
    have hfault : (fault.relabel ⟨φ, f⟩).diagnostic = fault.diagnostic.relabel (.ofLines φ) := by
      cases fault <;> rfl
    dsimp only [Option.map_some]
    rw [hfault]
    exact .some (.of_alike [fault.diagnostic] hrest)
  | exhausted => exact .none

variable (fuel) in
theorem runBoth_eq {s s₁ : Session} {first second : String} {P Q : Program}
    {more : List (ReferenceId × Nat)} {next : ReferenceId} (hP : s.prepare first = (.ok P, s₁))
    (hQ : ∀ m, prepare ⟨m, s₁.nextId⟩ second = (.ok Q, ⟨m.recordHops more, next⟩)) :
    ∃ n, s.runBoth fuel first second = perform ⟨s₁.machine, n⟩ (Eval.runInTurn fuel P more Q) := by
  unfold runBoth run
  rw [hP]
  unfold Eval.runInTurn Eval.andThen perform Machine.perform
  dsimp only
  cases Eval.runStatements fuel P s₁.machine with
  | answer v m =>
    refine ⟨next, ?_⟩
    dsimp only [Option.map_some]
    rw [hQ m]
    rfl
  | fault fault m => exact ⟨s₁.nextId, rfl⟩
  | exhausted => exact ⟨next, rfl⟩

theorem prepare_of_tokens {s : Session} {source : String} {tokens : List Token} {P : Program}
    {hops : List (ReferenceId × Nat)} {next : ReferenceId} (htokens : Token.ofSource source = .ok tokens)
    (hP : Program.ofTokens s.nextId tokens = (.ok P, next)) (hresolve : P.resolve = .ok hops) :
    s.prepare source = (.ok P, ⟨s.machine.recordHops hops, next⟩) := by
  unfold prepare
  rw [htokens]
  dsimp only
  rw [hP]
  dsimp only
  rw [hresolve]

theorem sameRun_joined {first second joined : String} {P Q : Program} {tokens more all : List Token}
    (hzero : φ 0 = 0) (hP : (start sink input clock).accepts first P)
    (hQ : (start sink input clock).accepts second Q) (hfirst : Token.ofSource first = .ok tokens)
    (hsecond : Token.ofSource second = .ok more) (hjoined : Token.ofSource joined = .ok all)
    (hall : all.map (Token.relabel (.ofLines φ)) = tokens.dropLast ++ more) (fuel : Nat) :
    Option.Rel (SameRun φ) ((start sink input clock).run fuel joined)
      ((start sink input clock).runBoth fuel first second) := by
  obtain ⟨front, last, rfl, hlast, honly⟩ := Token.ofSource_front hfirst
  obtain ⟨body, final, rfl, hfinal, hbody⟩ := Token.ofSource_front hsecond
  rw [List.dropLast_concat] at hall
  obtain ⟨s₁, hprepare⟩ : ∃ s₁, (start sink input clock).prepare first = (.ok P, s₁) :=
    ⟨_, Prod.ext hP rfl⟩
  obtain ⟨_, hops, ht, hPtree, hPhops, hm⟩ := prepare_ok hprepare
  obtain rfl := Except.ok.inj (hfirst.symm.trans ht)
  obtain ⟨_, found, ht, hQtree, hQhops, -⟩ := prepare_ok (Prod.ext hQ rfl)
  obtain rfl := Except.ok.inj (hsecond.symm.trans ht)
  -- The second text by itself, its identities drawn after those of the first one.
  obtain ⟨Q', next, g, hQ'tree, hrenamed⟩ := Program.ofTokens_again hfinal hbody hQtree s₁.nextId
  have hQ'hops : Q'.resolve = .ok (found.map (Prod.map g id)) := by
    rw [← hrenamed.relabels, Program.resolve_relabelAll]
    exact ⟨found, hQhops, rfl⟩
  have hsecond' : ∀ m, prepare ⟨m, s₁.nextId⟩ second =
      (.ok Q', ⟨m.recordHops (found.map (Prod.map g id)), next⟩) :=
    fun m => prepare_of_tokens hsecond hQ'tree hQ'hops
  -- The joined text.
  obtain ⟨R, next', f, hRtree, hjoin⟩ :=
    Program.ofTokens_joined hzero hlast honly hfinal hbody hPtree hQ'tree hall
  have hboth := Program.resolve_append (prepare_proper hprepare) hPhops hQ'hops
  rw [← hjoin.relabels, Program.resolve_relabelAll] at hboth
  obtain ⟨hopsR, hRhops, hcarried⟩ := hboth
  have hprepareR : (start sink input clock).prepare joined = _ :=
    prepare_of_tokens hjoined hRtree hRhops
  obtain ⟨hplaced, hone⟩ := prepare_hops hprepareR hRhops
  let S : Seam ⟨φ, f⟩ R P Q' :=
    { hops := hopsR
      first := hops
      second := found.map (Prod.map g id)
      zero := hzero
      renamed := hjoin
      carried := hcarried
      placed := hplaced
      one := hone
      apart := fun entry hentry hmem => by
        have hlow := (prepare_drawn (hsecond' s₁.machine)).bounds _
          ((prepare_hops (hsecond' s₁.machine) hQ'hops).1 entry hentry)
        have hhigh := (prepare_drawn hprepare).bounds _ hmem
        exact absurd hlow.1 (Nat.not_le.mpr hhigh.2) }
  obtain ⟨n, hturn⟩ := runBoth_eq fuel hprepare hsecond'
  have hrun : (start sink input clock).run fuel joined =
      perform ⟨(Machine.start sink input clock).recordHops hopsR, next'⟩
        (Eval.runStatements fuel R) := by
    unfold run
    rw [hprepareR]
    rfl
  rw [hturn, hrun, hm]
  refine sameRun_perform (S.runs_in_turn (Store.stored_start _) (fun id => ?_) fuel)
  simp [Machine.start]

def lineInPiece (first : String) (line : Nat) : Nat :=
  if line ≤ Token.linesOf first then line else line - Token.linesOf first

theorem accepts_below {second : String} {Q : Program} (first : String)
    (hQ : (start sink input clock).accepts second Q) :
    ∃ Q', (start sink input clock).accepts (Token.below first second) Q' := by
  obtain ⟨tokens, hops, htokens, htree, hhops, -⟩ := prepare_ok (Prod.ext hQ rfl)
  let φ : Nat → Nat := fun line => if line = 0 then 0 else line + Token.linesOf first
  have hshift : tokens.map (Token.relabel (.ofLines (· + Token.linesOf first))) =
      tokens.map (Token.relabel (.ofLines φ)) := by
    refine List.map_congr_left fun t ht => ?_
    have hline := (Token.line_le htokens t ht).1
    simp only [Token.relabel, Relabeling.ofLines, φ, if_neg (Nat.ne_of_gt hline)]
  have hbelow := Token.ofSource_below first htokens
  have htree' := Program.ofTokens_relabel (φ := φ) 0 tokens fun _ => rfl
  rw [hshift] at hbelow
  rw [show Program.ofTokens 0 tokens = _ from htree] at htree'
  have hhops' := (Program.resolve_relabelAll (ρ := .ofLines φ)).mpr ⟨hops, hhops, rfl⟩
  exact ⟨_, congrArg Prod.fst (prepare_of_tokens (s := start sink input clock) hbelow htree' hhops')⟩

/-- Two accepted texts with a new line between them run as the first one and then, if it succeeds, the
second one in the same session: with the same fuel both come to an end or neither does, and then they have
printed the same, end in success or with the same failure, and leave the same globals. A failure is
reported on the line of the text it is in; and if the second text is run on the lines on which it stands in
the joined one, it is reported on the very same line. -/
theorem runs_in_pieces {first second : String} {P Q : Program}
    (hP : (start sink input clock).accepts first P) (hQ : (start sink input clock).accepts second Q)
    (fuel : Nat) :
    Option.Rel (SameRun (lineInPiece first))
        ((start sink input clock).run fuel (first ++ "\n" ++ second))
        ((start sink input clock).runBoth fuel first second) ∧
      Option.Rel (SameRun id) ((start sink input clock).run fuel (first ++ "\n" ++ second))
        ((start sink input clock).runBoth fuel first (Token.below first second)) := by
  obtain ⟨tokens, _, htokens, -⟩ := prepare_ok (Prod.ext hP rfl)
  obtain ⟨more, _, hmore, -⟩ := prepare_ok (Prod.ext hQ rfl)
  obtain ⟨front, last, rfl, -⟩ := Token.ofSource_front htokens
  have hjoined := Token.ofSource_append htokens hmore
  constructor
  · refine sameRun_joined rfl hP hQ htokens hmore hjoined ?_ fuel
    -- The lines of the first text are left alone, those of the second one are counted from its own start.
    have hfront : ∀ t ∈ front, t.relabel (.ofLines (lineInPiece first)) = t := by
      intro t ht
      have hline := (Token.line_le htokens t (List.mem_append_left _ ht)).2
      simp only [Token.relabel, Relabeling.ofLines, lineInPiece, if_pos hline]
    have hback : ∀ t ∈ more, (Token.relabel (.ofLines (lineInPiece first)) ∘
        Token.relabel (.ofLines (· + Token.linesOf first))) t = t := by
      intro t ht
      have hline := (Token.line_le hmore t ht).1
      have hnot : ¬t.line + Token.linesOf first ≤ Token.linesOf first := by omega
      simp only [Function.comp, Token.relabel, Relabeling.ofLines, lineInPiece, if_neg hnot,
        Nat.add_sub_cancel]
    rw [List.map_append, List.map_map, List.dropLast_concat, List.map_congr_left hfront,
      List.map_congr_left hback, List.map_id', List.map_id']
  · obtain ⟨Q', hQ'⟩ := accepts_below first hQ
    refine sameRun_joined rfl hP hQ' htokens (Token.ofSource_below first hmore) hjoined ?_ fuel
    rw [List.dropLast_concat]
    exact List.map_id _

/-- The second text fails on its first line, and that is the second line of both together. -/
theorem runs_in_pieces_failure :
    ∃ P Q s s', (start .unlimited [] (.ticking 0)).accepts "var a;" P ∧ (start .unlimited [] (.ticking 0)).accepts "b;" Q ∧
      (start .unlimited [] (.ticking 0)).run 3 "var a;\nb;" =
        some ([.runtime 2 (.undefinedVariable "b")], s) ∧
      (start .unlimited [] (.ticking 0)).runBoth 3 "var a;" "b;" =
        some ([.runtime 1 (.undefinedVariable "b")], s') ∧
      SameRun (lineInPiece "var a;") ([.runtime 2 (.undefinedVariable "b")], s)
        ([.runtime 1 (.undefinedVariable "b")], s') := by
  have hP : (start .unlimited [] (.ticking 0)).accepts "var a;"
      [.declareVar ⟨.identifier, "a", 1⟩ none] := by
    show _ = _
    cbv
  have hQ : (start .unlimited [] (.ticking 0)).accepts "b;"
      [.expression (.variable ⟨0, ⟨.identifier, "b", 1⟩⟩)] := by
    show _ = _
    cbv
  have hjoined : ((start .unlimited [] (.ticking 0)).run 3 "var a;\nb;").map Prod.fst =
      some [.runtime 2 (.undefinedVariable "b")] := by
    cbv
  have hrel := (runs_in_pieces hP hQ 3).1
  change Option.Rel _ ((start .unlimited [] (.ticking 0)).run 3 "var a;\nb;") _ at hrel
  generalize (start .unlimited [] (.ticking 0)).run 3 "var a;\nb;" = joined at hjoined hrel ⊢
  generalize (start .unlimited [] (.ticking 0)).runBoth 3 "var a;" "b;" = pieces at hrel ⊢
  cases hrel with
  | none => cases hjoined
  | @some joined pieces hsame =>
    obtain ⟨errors, s⟩ := joined
    obtain ⟨errors', s'⟩ := pieces
    obtain rfl : errors = _ := Option.some.inj hjoined
    obtain rfl : errors' = _ := hsame.reported
    exact ⟨_, _, s, s', hP, hQ, rfl, rfl, hsame⟩

end Session

end LoxLang
