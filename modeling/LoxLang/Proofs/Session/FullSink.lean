import LoxLang.Proofs.Evaluation.Moments
import LoxLang.Proofs.Session.Settled

set_option autoImplicit false

namespace LoxLang

inductive Performance.Prints (p : Performance) : String → Machine → Prop
  | part {a : Activity} {text : String} {m : Machine} :
    p.Begins a → a.Prints text m → Prints p text m
  | echo {e : Expr} {v : Value} {text : String} {m m₁ : Machine} :
    p.echoed? = some e → evaluate p.fuel e p.machine = .answer v m₁ →
    render p.fuel e.line v m₁ = .answer text m → Prints p text m

section

open Eval

variable {fuel : Nat} {cap : Limit} {m x : Machine} {P : Program} {a : Activity} {text : String}

theorem Eval.truncates_runStatements {Q : String → Machine → Prop}
    (hQ : ∀ a, P.Begins fuel m a → ∀ text x, a.Prints text x → Q text x) :
    (runStatements fuel P).Truncates cap Q m := by
  induction P generalizing m with
  | nil => exact .ret ()
  | cons s rest ih =>
    rw [runStatements]
    refine .bind (((truncating cap fuel).execute s m).enlarge (hQ _ .statement)) fun _ m₁ hs => ?_
    exact ih fun a ha => hQ a (.next hs ha)

theorem Program.Begins.prolongs (h : P.Begins fuel m a) :
    m.sink.Prolonged a.machine.sink := by
  induction h with
  | statement => exact .refl _
  | next hs _ ih => exact (execute_prolongs hs).trans ih

theorem Program.Begins.stops (h : P.Begins fuel m a) (hprints : a.Prints text x)
    (hlimit : x.sink.limit = none) (hcap : x.lineCount = cap.room) :
    (runStatements fuel P).Fails (m.capped cap) (.io cap.refusal) (x.capped cap) := by
  induction h with
  | statement => exact .first (hprints.stops hlimit hcap)
  | next hs hrest ih =>
    have hbelow : x.Below cap := ⟨hlimit, hcap.le⟩
    have hm₁ := hbelow.before (hrest.prolongs.trans hprints.prolongs)
    exact .after (((truncating _ _).execute _ _).answer hs hm₁).2 (ih hprints)

namespace Performance

variable {p : Performance}

theorem truncates (p : Performance) (cap : Limit) : p.act.Truncates cap p.Prints p.machine := by
  rw [act_eq]
  cases he : p.echoed? with
  | none => exact truncates_runStatements fun a ha text x => .part (.statements he ha)
  | some e =>
    have hvalue := ((truncating cap p.fuel).evaluate e p.machine).enlarge
      (Q := p.Prints) fun _ _ => .part (.echoed he)
    refine .bind hvalue fun v m₁ hv => ?_
    have htext := ((truncating cap p.fuel).render e.line v m₁).enlarge
      (Q := p.Prints) fun _ _ => .part (.echo he hv)
    exact .bind htext fun text m₂ htext => .emit (.echo he hv htext)

theorem Begins.prolongs (h : p.Begins a) : p.machine.sink.Prolonged a.machine.sink := by
  cases h with
  | statements _ h => exact h.prolongs
  | echoed _ => exact .refl _
  | echo _ hv =>
    have hvalue := evaluate_prolongs hv
    exact hvalue

theorem Prints.prolongs (h : p.Prints text x) : p.machine.sink.Prolonged x.sink := by
  cases h with
  | part hbegins hprints => exact hbegins.prolongs.trans hprints.prolongs
  | echo _ hv htext => exact (evaluate_prolongs hv).trans (render_prolongs htext)

theorem Prints.stops (h : p.Prints text x) (hlimit : x.sink.limit = none)
    (hcap : x.lineCount = cap.room) :
    p.act.Fails (p.machine.capped cap) (.io cap.refusal) (x.capped cap) := by
  rw [act_eq]
  cases h with
  | part hbegins hprints =>
    cases hbegins with
    | statements he hbegins =>
      rw [he]
      exact hbegins.stops hprints hlimit hcap
    | echoed he =>
      rw [he]
      exact .first (hprints.stops hlimit hcap)
    | echo he hv =>
      rw [he]
      have hbelow : x.Below cap := ⟨hlimit, hcap.le⟩
      have hm := hbelow.before hprints.prolongs
      exact .after (((truncating _ _).evaluate _ _).answer hv hm).2 (.first (hprints.stops hlimit hcap))
  | echo he hv htext =>
    rw [he]
    exact echo_stops hv htext hlimit hcap

end Performance

end

namespace Session

def taking (s : Session) (limit : Option Limit) : Session :=
  { s with machine := s.machine.onto ⟨s.machine.sink.lines, limit⟩ }

def printed (s : Session) : List String := s.machine.sink.lines.reverse

def halted (s : Session) : Session := { s with machine := s.machine.atRest }

/-- While the source text runs, the session comes to print the text and is then the second one. -/
def Attempts (s : Session) (interactive : Bool) (fuel : Nat) (source text : String) (s' : Session) :
    Prop :=
  ∃ p, s.performance? interactive fuel source = some p ∧ p.Prints text s'.machine ∧
    s'.nextId = (s.prepare source).2.nextId

variable {s s₁ s' : Session} {source text : String} {P : Program} {errors : List Diagnostic}

theorem prepare_taking (s : Session) (source : String) (limit : Option Limit) :
    (s.taking limit).prepare source = ((s.prepare source).1, (s.prepare source).2.taking limit) := by
  obtain ⟨result, hops, next, h⟩ := prepare_eq s.nextId source
  have hs : s.prepare source = (result, ⟨s.machine.recordHops hops, next⟩) := h s.machine
  rw [taking, h, hs]
  rfl

theorem prepare_printed : (s.prepare source).2.printed = s.printed := by
  obtain ⟨result, hops, next, h⟩ := prepare_eq s.nextId source
  have hs : s.prepare source = (result, ⟨s.machine.recordHops hops, next⟩) := h s.machine
  rw [hs]
  rfl

def capped (s : Session) (cap : Limit) : Session := { s with machine := s.machine.capped cap }

theorem taking_some (s : Session) (room : Nat) (refusal : IoError) :
    s.taking (some ⟨room, refusal⟩) = (s.taking none).capped ⟨s.printed.length + room, refusal⟩ := by
  have hroom : s.printed.length + room - s.machine.sink.lines.length = room := by
    rw [printed, List.length_reverse, Nat.add_sub_cancel_left]
  simp only [taking, capped, Machine.capped, Machine.onto, Machine.lineCount, hroom]

theorem capped_eq {texts : List String} (h : s'.printed = s.printed ++ texts) (room : Nat)
    (refusal : IoError) :
    s'.capped ⟨s.printed.length + room, refusal⟩ = s'.taking (some ⟨room - texts.length, refusal⟩) := by
  have hcount : s'.machine.lineCount = s.printed.length + texts.length := by
    rw [Machine.lineCount, ← List.length_reverse, ← List.length_append, ← h, printed]
  have hroom : s.printed.length + room - s'.machine.lineCount = room - texts.length := by omega
  simp only [taking, capped, Machine.capped, hroom]

theorem perform_fits {act : Eval Unit} {cap : Limit} (h : act.Fits cap s.machine) :
    (s.capped cap).perform act = (s.perform act).map fun r => (r.1, r.2.capped cap) := by
  have hsame : act (s.capped cap).machine = (act s.machine).through fun x => x.capped cap := h.same
  unfold perform Machine.perform
  rw [hsame]
  cases act s.machine <;> rfl

theorem perform_fails {act : Eval Unit} {f : Fault} {x : Machine} (h : act.Fails s.machine f x) :
    s.perform act = some ([f.diagnostic], { s with machine := x.atRest }) := by
  obtain ⟨y, hy, hrest⟩ := h
  unfold perform Machine.perform
  rw [hy, ← hrest]
  rfl

theorem perform_leaves {act : Eval Unit} {A : Sink → Prop}
    (hact : act.Leaves s.machine fun m => A m.sink) (h : s.perform act = some (errors, s')) :
    A s'.machine.sink := by
  obtain ⟨-, ⟨ha, -⟩ | ⟨f, after, ha, hm, -⟩⟩ := perform_some h
  · exact hact.answer ha
  · have hafter := hact.fault ha
    rw [hm]
    exact hafter

section

variable {p : Performance} {room : Nat} {refusal : IoError}

theorem below_room (hnone : s.machine.sink.limit = none) (room : Nat) (refusal : IoError) :
    s.machine.Below ⟨s.printed.length + room, refusal⟩ :=
  ⟨hnone, by rw [printed, List.length_reverse]; exact Nat.le_add_right _ _⟩

theorem split_at_moment {before start texts : List String} {text last : String}
    (h : before ++ [last] <+: start ++ texts) (hlength : before.length = start.length + room)
    (htext : texts[room]? = some text) : before = start ++ texts.take room ∧ last = text := by
  have hcount : (before ++ [last]).length = start.length + (room + 1) := by
    rw [List.length_append, hlength]
    rfl
  have hsame := List.prefix_iff_eq_take.mp h
  rw [hcount, List.take_length_add_append, List.take_add_one, htext, ← List.append_assoc] at hsame
  obtain ⟨hbefore, hlast⟩ := List.append_inj' hsame rfl
  exact ⟨hbefore, List.singleton_inj.mp hlast⟩

/-- A performance without a limit that has come to its end has added lines. With a limit that they keep to
it is the same, and otherwise it has come to print the first line too many. -/
theorem perform_ended (room : Nat) (refusal : IoError) (hp : p.machine = s.machine)
    (hnone : s.machine.sink.limit = none) (h : s.perform p.act = some (errors, s')) :
    ∃ texts, s'.printed = s.printed ++ texts ∧
      (texts.length ≤ room → (s.capped ⟨s.printed.length + room, refusal⟩).perform p.act =
        some (errors, s'.taking (some ⟨room - texts.length, refusal⟩))) ∧
      ∀ text, texts[room]? = some text →
        ∃ x, p.Prints text x ∧ x.lineCount = s.printed.length + room ∧
          x.sink.lines.reverse = s.printed ++ texts.take room := by
  have htruncates := p.truncates ⟨s.printed.length + room, refusal⟩
  rw [hp] at htruncates
  have hlines : s.machine.sink.lines <:+ s'.machine.sink.lines :=
    (perform_leaves htruncates.prolongs h).lines
  obtain ⟨texts, htexts⟩ := List.reverse_prefix.mpr hlines
  have htexts : s'.printed = s.printed ++ texts := htexts.symm
  have hcount : s'.machine.sink.lines.length = s.printed.length + texts.length := by
    rw [← List.length_reverse, ← List.length_append, ← htexts, printed]
  refine ⟨texts, htexts, fun hfew => ?_, fun text htext => ?_⟩
  -- A stop at a moment would leave more lines than there are.
  · rcases htruncates.cuts (below_room hnone room refusal) with hfits | ⟨_, x, _, -, hx, -, -, hleaves⟩
    · rw [perform_fits hfits, h, Option.map_some, capped_eq htexts]
    · have hmore := (perform_leaves (A := fun sink => _ <:+ sink.lines) hleaves h).length_le
      change x.lineCount + 1 ≤ _ at hmore
      dsimp only at hx
      omega
  · have hmany : room < texts.length := (List.getElem?_eq_some_iff.mp htext).1
    rcases htruncates.cuts (below_room hnone room refusal) with
      hfits | ⟨last, x, _, hprints, hx, -, -, hleaves⟩
    · have hfew : _ ≤ s.printed.length + room :=
        perform_leaves (A := fun sink => sink.lines.length ≤ _) hfits.within h
      omega
    · have hlines := perform_leaves (A := fun sink => _ <:+ sink.lines) hleaves h
      -- The lines at the moment are among those of the end, so they are the first ones of them.
      have hprefix : x.sink.lines.reverse ++ [last] <+: s.printed ++ texts := by
        rw [← htexts, ← List.reverse_cons]
        exact List.reverse_prefix.mpr hlines
      have hlength : x.sink.lines.reverse.length = s.printed.length + room := by
        rw [List.length_reverse]
        exact hx
      obtain ⟨hbefore, rfl⟩ := split_at_moment hprefix hlength htext
      exact ⟨x, hprints, hx, hbefore⟩

theorem perform_stopped {text : String} {x : Machine} (hp : p.machine = s.machine)
    (hnone : s.machine.sink.limit = none) (hprints : p.Prints text x)
    (hx : x.lineCount = s.printed.length + room) :
    (s.capped ⟨s.printed.length + room, refusal⟩).perform p.act =
      some ([.io refusal], ((⟨x, s.nextId⟩ : Session).taking (some ⟨0, refusal⟩)).halted) := by
  have hlimit : x.sink.limit = none := (hp ▸ hprints.prolongs).limit.mp hnone
  have hstops : p.act.Fails (p.machine.capped ⟨s.printed.length + room, refusal⟩) (.io refusal)
      (x.capped ⟨s.printed.length + room, refusal⟩) := hprints.stops hlimit hx
  rw [hp] at hstops
  have hfull : x.capped ⟨s.printed.length + room, refusal⟩ = x.onto ⟨x.sink.lines, some ⟨0, refusal⟩⟩ := by
    rw [Machine.capped, hx, Nat.sub_self]
  rw [perform_fails (s := s.capped _) hstops, hfull]
  rfl

/-- A performance that does not come to its end without a limit does not come to it with one, unless the
limit stops it. -/
theorem perform_endless (room : Nat) (refusal : IoError) (hp : p.machine = s.machine)
    (hnone : s.machine.sink.limit = none) (h : s.perform p.act = none) :
    (s.capped ⟨s.printed.length + room, refusal⟩).perform p.act = none ∨
      ∃ text x, p.Prints text x ∧ x.lineCount = s.printed.length + room := by
  have htruncates := p.truncates ⟨s.printed.length + room, refusal⟩
  rw [hp] at htruncates
  rcases htruncates.cuts (below_room hnone room refusal) with hfits | ⟨text, x, _, hprints, hx, -⟩
  · exact .inl (by rw [perform_fits hfits, h, Option.map_none])
  · exact .inr ⟨text, x, hprints, hx⟩

end

section

variable {interactive : Bool} {fuel : Nat} {text : String} {x : Session}

theorem runAs_of_refused (h : s.prepare source = (.error errors, s₁)) :
    s.runAs interactive fuel source = some (errors, s₁) := by
  rw [runAs_eq, h]

theorem runAs_of_prepared (h : s.prepare source = (.ok P, s₁)) (m : Machine) :
    s.runAs interactive fuel source = s₁.perform (Performance.mk interactive fuel P m).act := by
  rw [runAs_eq, h]
  rfl

theorem not_attempts_of_refused (h : s.prepare source = (.error errors, s₁)) :
    ¬ s.Attempts interactive fuel source text x := by
  rintro ⟨p, hp, -⟩
  rw [performance?, h] at hp
  cases hp

theorem attempts_iff (h : s.prepare source = (.ok P, s₁)) :
    s.Attempts interactive fuel source text x ↔
      Performance.Prints ⟨interactive, fuel, P, s₁.machine⟩ text x.machine ∧ x.nextId = s₁.nextId := by
  simp only [Attempts, performance?, h, Option.some.injEq, exists_eq_left']

end

/-- A sink with room for so many lines cuts off what is printed and does nothing else. If the run on an
unlimited sink ends and prints no more lines, then the run is the same. If it prints more, then at the
first line too many the run stops with the one error, in the global environment, with no call in progress,
and otherwise as the unlimited run is when it comes to print that line. The same holds of every moment of
printing, also if the unlimited run does not end; and if it neither ends nor comes to print the line, then
the other run does not end either. -/
theorem full_sink_truncates (s : Session) (interactive : Bool) (fuel room : Nat)
    (refusal : IoError) (source : String) :
    (∀ errors s', (s.taking none).runAs interactive fuel source = some (errors, s') →
      ∃ texts, s'.printed = s.printed ++ texts ∧
        (texts.length ≤ room →
          (s.taking (some ⟨room, refusal⟩)).runAs interactive fuel source =
            some (errors, s'.taking (some ⟨room - texts.length, refusal⟩))) ∧
        ∀ text, texts[room]? = some text →
          ∃ x, (s.taking none).Attempts interactive fuel source text x ∧
            x.printed = s.printed ++ texts.take room ∧
            (s.taking (some ⟨room, refusal⟩)).runAs interactive fuel source =
              some ([.io refusal], (x.taking (some ⟨0, refusal⟩)).halted)) ∧
    (∀ text x, (s.taking none).Attempts interactive fuel source text x →
      s.printed <+: x.printed ∧
        (x.printed.length = s.printed.length + room →
          (s.taking (some ⟨room, refusal⟩)).runAs interactive fuel source =
            some ([.io refusal], (x.taking (some ⟨0, refusal⟩)).halted))) ∧
    ((s.taking none).runAs interactive fuel source = none →
      (s.taking (some ⟨room, refusal⟩)).runAs interactive fuel source = none ∨
        ∃ text x, (s.taking none).Attempts interactive fuel source text x ∧
          x.printed.length = s.printed.length + room) := by
  have hprinted : (s.prepare source).2.printed = s.printed := prepare_printed
  have hlimited := prepare_taking s source (some ⟨room, refusal⟩)
  have hfree := prepare_taking s source none
  rcases hprepare : s.prepare source with ⟨result, s₁⟩
  simp only [hprepare] at hprinted hlimited hfree
  cases result with
  | error errors =>
    rw [runAs_of_refused hlimited, runAs_of_refused hfree]
    refine ⟨?_, fun text x hx => absurd hx (not_attempts_of_refused hfree), nofun⟩
    rintro _ _ ⟨⟩
    exact ⟨[], by rw [List.append_nil, ← hprinted]; rfl, fun _ => rfl, nofun⟩
  | ok P =>
    -- Both runs are performances of one program, the second one with a cap on the lines.
    let p : Performance := ⟨interactive, fuel, P, (s₁.taking none).machine⟩
    rw [runAs_of_prepared hlimited p.machine, runAs_of_prepared hfree p.machine, taking_some s₁ room refusal]
    rw [← hprinted]
    simp only [attempts_iff hfree]
    refine ⟨fun errors s' h => ?_, fun text x ⟨hprints, hid⟩ => ⟨?_, fun hx => ?_⟩, fun h => ?_⟩
    · obtain ⟨texts, htexts, hfew, hmany⟩ := perform_ended (p := p) room refusal rfl rfl h
      refine ⟨texts, htexts, hfew, fun text htext => ?_⟩
      obtain ⟨x, hprints, hcount, hx⟩ := hmany text htext
      exact ⟨⟨x, s₁.nextId⟩, ⟨hprints, rfl⟩, hx, perform_stopped (p := p) rfl rfl hprints hcount⟩
    · exact List.reverse_prefix.mpr hprints.prolongs.lines
    · obtain ⟨x, id⟩ := x
      cases hid
      rw [printed, List.length_reverse] at hx
      exact perform_stopped (p := p) rfl rfl hprints hx
    · refine (perform_endless (p := p) room refusal rfl rfl h).imp_right ?_
      rintro ⟨text, x, hprints, hx⟩
      exact ⟨text, ⟨x, s₁.nextId⟩, ⟨hprints, rfl⟩, by rw [printed, List.length_reverse]; exact hx⟩

/-- A function that prints two lines, on a sink with room for one, and on one with room for both. -/
theorem full_sink_truncates_in_call :
    let s := start .unlimited [] (.ticking 0)
    let source := "fun f() { print nil; print true; } f();"
    let refusal : IoError := ⟨"sink full"⟩
    ∃ s' x, (s.taking none).runAs false 9 source = some ([], s') ∧ s'.printed = ["nil", "true"] ∧
      (s.taking none).Attempts false 9 source "true" x ∧ x.printed = ["nil"] ∧
      (s.taking (some ⟨1, refusal⟩)).runAs false 9 source = some ([.io refusal], (x.taking (some ⟨0, refusal⟩)).halted) ∧
      (s.taking (some ⟨2, refusal⟩)).runAs false 9 source = some ([], s'.taking (some ⟨0, refusal⟩)) ∧
      ((s.taking (some ⟨1, refusal⟩)).runAs false 0 source = none ∨
        ∃ text x, (s.taking none).Attempts false 0 source text x ∧ x.printed.length = 1) := by
  intro s source refusal
  have hrun : ((s.taking none).runAs false 9 source).map (fun r => (r.1, r.2.printed)) =
      some ([], ["nil", "true"]) := by
    show (((start .unlimited [] (.ticking 0)).taking none).runAs false 9
      "fun f() { print nil; print true; } f();").map _ = _
    cbv
  have hnone : (s.taking none).runAs false 0 source = none := by
    show ((start .unlimited [] (.ticking 0)).taking none).runAs false 0
      "fun f() { print nil; print true; } f();" = _
    cbv
  obtain ⟨⟨errors, s'⟩, hs', hresult⟩ := Option.map_eq_some_iff.mp hrun
  obtain ⟨rfl, hprinted⟩ := Prod.mk.inj hresult
  obtain ⟨texts, htexts, -, hmany⟩ := (full_sink_truncates s false 9 1 refusal source).1 _ _ hs'
  obtain ⟨others, hothers, hfew, -⟩ := (full_sink_truncates s false 9 2 refusal source).1 _ _ hs'
  obtain rfl : texts = ["nil", "true"] := htexts.symm.trans hprinted
  obtain rfl : others = ["nil", "true"] := hothers.symm.trans hprinted
  obtain ⟨x, hx, hbefore, -⟩ := hmany "true" rfl
  have hstop := ((full_sink_truncates s false 9 1 refusal source).2.1 _ _ hx).2 (by rw [hbefore]; rfl)
  have hendless := (full_sink_truncates s false 0 1 refusal source).2.2 hnone
  exact ⟨s', x, hs', hprinted, hx, hbefore, hstop, hfew (by decide), hendless⟩

end Session

end LoxLang
