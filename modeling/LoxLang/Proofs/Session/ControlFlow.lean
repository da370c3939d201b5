import LoxLang.Proofs.Evaluation.Endings
import LoxLang.Proofs.Evaluation.Visits
import LoxLang.Proofs.Session.Accepted

set_option autoImplicit false

namespace LoxLang

def Task.Controlled (kind : EnclosingFunction) (inLoop : Bool) : Task → Prop
  | .execute s => s.Controlled kind inLoop
  | .executeAll body => Stmt.AllControlled kind inLoop body
  | .iterate _ _ b => b.Controlled kind true
  | _ => True

def Task.isStatements : Task → Bool
  | .execute _ | .executeAll _ => true
  | _ => false

theorem Machine.with_cursor {m m' : Machine} (h : m'.cursor = m.cursor) :
    { m' with cursor := m.cursor } = m' := by
  rw [← h]

namespace Activity

def Ends (a : Activity) (ending : Ending) (m : Machine) : Prop :=
  match a.task with
  | .execute s => execute a.fuel s a.machine = .answer ending m
  | .executeAll body => executeAll a.fuel body a.machine = .answer ending m
  | _ => False

/-- The activity is part of the body of the loop and of no loop in it. A function that is called there
is no part of the body. -/
inductive Innermost (loop : Activity) : Activity → Prop
  | body {change : Context → Context} {fuel : Nat} {c : Expr} {n : Option Stmt} {s : Stmt}
      {m m₁ : Machine} :
    loop = ⟨fuel + 1, .iterate c n s, m⟩ → loop.Enters change ⟨fuel, .execute s, m₁⟩ →
    Innermost loop ⟨fuel, .execute s, m₁⟩
  | part {a b : Activity} {change : Context → Context} :
    Innermost loop a → a.Enters change b → b.task.isStatements = true → Innermost loop b

def nextPass (fuel : Nat) (c : Expr) (n : Option Stmt) (b : Stmt) : Eval Ending :=
  match n with
  | some n => do
    let _ ← LoxLang.execute fuel n
    LoxLang.iterate fuel c (some n) b
  | none => LoxLang.iterate fuel c none b

/-- The body of the loop ended in this way, and the loop takes it for itself: it is over after `break`,
and goes on after `continue`. -/
def Takes (loop : Activity) (ending : Ending) (m₂ : Machine) : Prop :=
  ∃ fuel c n b m v m₁, loop = ⟨fuel + 1, .iterate c n b, m⟩ ∧
    LoxLang.evaluate fuel c m = .answer v m₁ ∧ v.truthy = true ∧
    LoxLang.execute fuel b m₁ = .answer ending m₂ ∧
    (ending = .broke → LoxLang.iterate (fuel + 1) c n b m = .answer .normal m₂) ∧
    (ending = .continued → LoxLang.iterate (fuel + 1) c n b m = nextPass fuel c n b m₂)

theorem takes_of_body {fuel : Nat} {c : Expr} {n : Option Stmt} {b : Stmt} {m m₁ m₂ : Machine}
    {v : Value} {ending : Ending} (hc : LoxLang.evaluate fuel c m = .answer v m₁)
    (hv : v.truthy = true) (hb : LoxLang.execute fuel b m₁ = .answer ending m₂) :
    Takes ⟨fuel + 1, .iterate c n b, m⟩ ending m₂ := by
  refine ⟨fuel, c, n, b, m, v, m₁, rfl, hc, hv, hb, ?_, ?_⟩
  · rintro rfl
    cases n <;> rw [LoxLang.iterate, Eval.bind_of_answer hc, if_pos hv, Eval.bind_of_answer hb] <;> rfl
  · rintro rfl
    cases n <;> rw [LoxLang.iterate, Eval.bind_of_answer hc, if_pos hv, Eval.bind_of_answer hb] <;> rfl

theorem Enters.passes {a b : Activity} {change : Context → Context} {ending : Ending} {m' : Machine}
    (h : a.Enters change b) (ha : a.task.isStatements = true) (hproper : a.task.Proper)
    (hb : b.Ends ending m') (hsignal : ending = .broke ∨ ending = .continued) :
    a.Ends ending { m' with cursor := a.machine.cursor } := by
  cases h with
  | @block fuel m body =>
    change LoxLang.executeAll fuel body m.inner = .answer ending m' at hb
    change LoxLang.execute (fuel + 1) (.block body) m = _
    rw [LoxLang.execute, Eval.bind_of_answer (Eval.innerFrame_eq m)]
    exact Eval.within_of_answer hb
  | @branchThen fuel m m₁ c t e v hc hv =>
    change LoxLang.execute fuel t m₁ = .answer ending m' at hb
    change LoxLang.execute (fuel + 1) (.branch c t e) m = _
    rw [Machine.with_cursor ((execute_kept hb).cursor.trans (evaluate_kept hc).cursor)]
    cases e <;> rw [LoxLang.execute, Eval.bind_of_answer hc, if_pos hv] <;> exact hb
  | @branchElse fuel m m₁ c t e v hc hv =>
    change LoxLang.execute fuel e m₁ = .answer ending m' at hb
    change LoxLang.execute (fuel + 1) (.branch c t (some e)) m = _
    rw [Machine.with_cursor ((execute_kept hb).cursor.trans (evaluate_kept hc).cursor)]
    rw [LoxLang.execute, Eval.bind_of_answer hc, if_neg (by simp [hv])]
    exact hb
  | @loopStart fuel m i b c n =>
    have hclause : i.isClause = true := by
      simp only [Task.Proper, Stmt.Proper] at hproper
      exact hproper.1.2
    have hnormal := (ends_normal_of_isClause hclause).answer hb
    simp [hnormal] at hsignal
  | @head fuel m s rest =>
    change LoxLang.execute fuel s m = .answer ending m' at hb
    change LoxLang.executeAll (fuel + 1) (s :: rest) m = _
    rw [Machine.with_cursor (execute_kept hb).cursor, LoxLang.executeAll, Eval.bind_of_answer hb]
    rcases hsignal with rfl | rfl <;> rfl
  | @tail fuel m m₁ s rest hs =>
    change LoxLang.executeAll fuel rest m₁ = .answer ending m' at hb
    change LoxLang.executeAll (fuel + 1) (s :: rest) m = _
    rw [Machine.with_cursor ((executeAll_kept hb).cursor.trans (execute_kept hs).cursor)]
    rw [LoxLang.executeAll, Eval.bind_of_answer hs]
    exact hb
  | body | increment => cases ha
  | _ => exact hb.elim

/-- Statements that may send a signal are in a loop that takes it. -/
def Placed (root : Activity → Prop) (a : Activity) : Prop :=
  ∃ kind inLoop, a.task.Controlled kind inLoop ∧
    (inLoop = true → a.task.isStatements = true →
      ∃ loop : Activity, loop.Visited root ∧ loop.Innermost a ∧
        ∀ ending m', a.Ends ending m' → ending = .broke ∨ ending = .continued →
          loop.Takes ending { m' with cursor := loop.machine.cursor })

theorem Placed.of_plain {root : Activity → Prop} {a : Activity}
    (h : a.task.Controlled .outside false) : a.Placed root :=
  ⟨.outside, false, h, by simp⟩

theorem Placed.part {root : Activity → Prop} {a b : Activity} {change : Context → Context}
    (ha : a.Placed root) (h : a.Enters change b) (hproper : a.task.Proper)
    (has : a.task.isStatements = true) (hbs : b.task.isStatements = true)
    (hcontrolled : ∀ {kind inLoop}, a.task.Controlled kind inLoop → b.task.Controlled kind inLoop) :
    b.Placed root := by
  obtain ⟨kind, inLoop, hkind, hloop⟩ := ha
  refine ⟨kind, inLoop, hcontrolled hkind, fun hin _ => ?_⟩
  obtain ⟨loop, hvisited, hinner, htakes⟩ := hloop hin has
  refine ⟨loop, hvisited, hinner.part h hbs, fun ending m' hb hsignal => ?_⟩
  exact htakes ending { m' with cursor := a.machine.cursor } (h.passes has hproper hb hsignal) hsignal

theorem Enters.placed {root : Activity → Prop} {a b : Activity} {change : Context → Context}
    (h : a.Enters change b) (hvisited : a.Visited root) (hproper : a.task.Proper)
    (ha : a.Placed root) : b.Placed root := by
  have hentered := h
  cases h with
  | block => exact ha.part hentered hproper rfl rfl fun h => h
  | @branchThen _ _ _ _ _ e _ hc hv =>
    refine ha.part hentered hproper rfl rfl fun h => ?_
    cases e with
    | none => exact h
    | some e => exact h.1
  | branchElse hc hv => exact ha.part hentered hproper rfl rfl fun h => h.2
  | loopStart => exact ha.part hentered hproper rfl rfl fun h => h.1
  | head => exact ha.part hentered hproper rfl rfl fun h => h.1
  | tail hs => exact ha.part hentered hproper rfl rfl fun h => h.2
  | started =>
    obtain ⟨kind, inLoop, hkind, -⟩ := ha
    exact ⟨kind, false, hkind.2.2, by simp⟩
  | loop =>
    obtain ⟨kind, inLoop, hkind, -⟩ := ha
    exact ⟨kind, false, hkind.2, by simp⟩
  | again | incremented =>
    obtain ⟨kind, inLoop, hkind, -⟩ := ha
    exact ⟨kind, false, hkind, by simp⟩
  | increment => exact .of_plain (Stmt.controlled_of_isExpression hproper.1)
  | body hc hv =>
    obtain ⟨kind, inLoop, hkind, -⟩ := ha
    refine ⟨kind, true, hkind, fun _ _ => ⟨_, hvisited, .body rfl hentered, ?_⟩⟩
    intro ending m' hb _
    have hcursor := (execute_kept hb).cursor.trans (evaluate_kept hc).cursor
    rw [Machine.with_cursor hcursor]
    exact takes_of_body hc hv hb
  | _ => exact .of_plain trivial

end Activity

namespace Session

variable {s : Session} {history : List Performance} {p : Performance}

theorem begins_placed {a : Activity} (hproper : Stmt.AllProper p.program)
    (hcontrolled : Stmt.AllControlled .outside false p.program) (h : p.Begins a) :
    a.task.Proper ∧ a.Placed p.Begins := by
  have hplaced : a.task.Proper ∧ a.task.Controlled .outside false := by
    cases h with
    | statements _ h =>
      generalize p.program = P at h hproper hcontrolled
      generalize p.machine = m at h
      induction h with
      | statement => exact ⟨hproper.1, hcontrolled.1⟩
      | next _ _ ih => exact ih hproper.2 hcontrolled.2
    | echoed => exact ⟨trivial, trivial⟩
    | echo => exact ⟨trivial, trivial⟩
  exact ⟨hplaced.1, .of_plain hplaced.2⟩

theorem visited_placed (hs : s.After history) {interactive : Bool} {fuel : Nat} {source : String}
    (hp : s.performance? interactive fuel source = some p) {a : Activity} (ha : a.Visited p.Begins) :
    a.Satisfies Declaration.Lawful ∧ a.task.Proper ∧ a.Placed p.Begins := by
  obtain ⟨s₁, hprepare, hm⟩ := performance?_some hp
  have hproper := prepare_proper hprepare
  have hcontrolled := prepare_controlled hprepare
  have hstored : p.machine.store.Stored Declaration.Lawful := by
    obtain ⟨_, _, -, -, -, hrecorded⟩ := prepare_ok hprepare
    rw [← hm, hrecorded]
    exact hs.lawful.2
  have hroot : ∀ a, p.Begins a → a.Satisfies Declaration.Lawful :=
    fun a h => h.satisfies Declaration.hereditary_lawful hstored (prepare_lawful hprepare)
  induction ha with
  | root h => exact ⟨hroot _ h, begins_placed hproper hcontrolled h⟩
  | part hvisited h ih =>
    obtain ⟨hlawful, hproper, hplaced⟩ := ih
    exact ⟨h.satisfies Declaration.hereditary_lawful hlawful, h.proper hproper,
      h.placed hvisited hproper hplaced⟩
  | body hvisited h ih =>
    have hlawful := h.satisfies Declaration.hereditary_lawful ih.1
    cases h with
    | body hf hc hframe =>
      obtain ⟨hproper, kind, -, -, hcontrolled⟩ := (ih.1.stored _ _ _ hf hc).body
      exact ⟨hlawful, hproper, kind, false, hcontrolled, by simp⟩

/-- In an accepted program no signal gets lost. A statement at the top level ends normally, and the
body of a function normally or by `return`, in an initializer without a value; this holds of every
function there is while the program runs. What ends by `break` or `continue` is part of a loop of the
same function, and the innermost such loop takes the signal. -/
theorem signals_arrive (hs : s.After history) {interactive : Bool} {fuel : Nat} {source : String}
    (hp : s.performance? interactive fuel source = some p) :
    (∀ st ∈ p.program, ∀ fuel m ending m', execute fuel st m = .answer ending m' →
      ending = .normal) ∧
    ∀ a : Activity, a.Visited p.Begins →
      (∀ id f d, a.machine.store.function? id = some f → f.code = .declared d →
        ∀ fuel m ending m', executeAll fuel d.body m = .answer ending m' →
          ending = .normal ∨ ∃ v, ending = .returned v ∧ (f.initializes = true → v = .nil)) ∧
      ∀ ending m', a.Ends ending m' → ending = .broke ∨ ending = .continued →
        ∃ loop : Activity, loop.Visited p.Begins ∧ loop.Innermost a ∧
          loop.Takes ending { m' with cursor := loop.machine.cursor } := by
  obtain ⟨s₁, hprepare, -⟩ := performance?_some hp
  refine ⟨fun st hst fuel m ending m' h => ?_, fun a ha => ⟨?_, ?_⟩⟩
  · have hcontrolled := (prepare_controlled hprepare).of_mem hst
    have hallowed := ((obeys fuel).execute st m hcontrolled).answer h
    cases ending with
    | normal => rfl
    | returned value => exact absurd rfl hallowed.1
    | broke | continued => cases hallowed
  · intro id f d hf hc fuel m ending m' h
    obtain ⟨hlawful, -⟩ := visited_placed hs hp ha
    obtain ⟨-, kind, -, hinit, hcontrolled⟩ := (hlawful.stored id f d hf hc).body
    have hallowed := ((obeys fuel).executeAll d.body m hcontrolled).answer h
    cases ending with
    | normal => exact .inl rfl
    | returned value => exact .inr ⟨value, rfl, fun hf => hallowed.2 (hinit hf)⟩
    | broke | continued => cases hallowed
  · intro ending m' hends hsignal
    -- Only statements end by a signal, and the loop is the one that they were placed in.
    obtain ⟨-, -, kind, inLoop, hcontrolled, hloop⟩ := visited_placed hs hp ha
    obtain ⟨fuel, task, m⟩ := a
    cases task with
    | execute s =>
      have hallowed := ((obeys fuel).execute s m hcontrolled).answer hends
      have hin : inLoop = true := by rcases hsignal with rfl | rfl <;> exact hallowed
      obtain ⟨loop, hvisited, hinner, htakes⟩ := hloop hin rfl
      exact ⟨loop, hvisited, hinner, htakes ending m' hends hsignal⟩
    | executeAll body =>
      have hallowed := ((obeys fuel).executeAll body m hcontrolled).answer hends
      have hin : inLoop = true := by rcases hsignal with rfl | rfl <;> exact hallowed
      obtain ⟨loop, hvisited, hinner, htakes⟩ := hloop hin rfl
      exact ⟨loop, hvisited, hinner, htakes ending m' hends hsignal⟩
    | _ => exact hends.elim

/-- A loop that only breaks. -/
theorem break_arrives :
    ∃ p m, (start .unlimited [] (.ticking 0)).performance? false 3 "while (true) break;" = some p ∧
      ∃ a loop : Activity, a.Ends .broke m ∧ loop.Visited p.Begins ∧ loop.Innermost a ∧
        loop.Takes .broke { m with cursor := loop.machine.cursor } := by
  let word : Token := ⟨.keyword .breakWord, "break", 1⟩
  let endless : Expr := .literal (.boolean true)
  let m := ((start .unlimited [] (.ticking 0)).prepare "while (true) break;").2.machine
  have haccepts : (start .unlimited [] (.ticking 0)).accepts "while (true) break;"
      [.loop none endless none (.breakLoop word)] := by
    show _ = _
    cbv
  have hp : (start .unlimited [] (.ticking 0)).performance? false 3 "while (true) break;" =
      some ⟨false, 3, [.loop none endless none (.breakLoop word)], m⟩ :=
    performance?_of_accepts haccepts
  let p : Performance := ⟨false, 3, [.loop none endless none (.breakLoop word)], m⟩
  have hloop : Activity.Visited p.Begins ⟨3, .execute (.loop none endless none (.breakLoop word)), m⟩ :=
    .root (.statements rfl .statement)
  have hcondition : evaluate 1 endless m = .answer (.boolean true) m := by
    rw [evaluate]
    rfl
  have hbody : Activity.Visited p.Begins ⟨1, .execute (.breakLoop word), m⟩ :=
    (hloop.part .loop).part (.body hcondition rfl)
  have hends : Activity.Ends ⟨1, .execute (.breakLoop word), m⟩ .broke m := by
    show execute 1 (.breakLoop word) m = _
    rw [execute]
    rfl
  have harrives := ((signals_arrive (.start .unlimited [] (.ticking 0)) hp).2 _ hbody).2 .broke m hends (.inl rfl)
  obtain ⟨loop, hvisited, hinner, htakes⟩ := harrives
  exact ⟨p, m, hp, _, loop, hends, hvisited, hinner, htakes⟩

end Session

end LoxLang
