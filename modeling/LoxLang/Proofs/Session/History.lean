import LoxLang.Proofs.Evaluation.Preservation
import LoxLang.Session

set_option autoImplicit false

namespace LoxLang

namespace Eval

theorem execute_print (fuel : Nat) (value : Expr) :
    execute (fuel + 1) (.print value) = echo fuel value >>= fun _ => ret .normal := by
  rw [execute, echo, bind_assoc]
  simp only [bind_assoc]
  rfl

variable {D : Declaration → Bool → Prop}

theorem keeps_runStatements (hD : Hereditary D) (fuel : Nat) (program : Program) (m : Machine)
    (h : AllSatisfy D (Stmt.allDeclared program)) : (runStatements fuel program).Keeps D m := by
  induction program generalizing m with
  | nil => exact .ret
  | cons s rest ih =>
    rw [runStatements]
    refine .bind ((preserves hD fuel).execute s m h.left) fun _ m₁ _ _ => ?_
    exact ih m₁ h.right

theorem keeps_echo (hD : Hereditary D) (fuel : Nat) (value : Expr) (m : Machine) :
    (echo fuel value).Keeps D m := by
  unfold echo
  refine .bind ((preserves hD fuel).evaluate value m) fun answer m₁ _ _ => ?_
  exact .bind ((preserves hD fuel).render _ answer m₁) fun _ _ _ _ => .emit

theorem keeps_responseTo (hD : Hereditary D) (fuel : Nat) (program : Program) (m : Machine)
    (h : AllSatisfy D (Stmt.allDeclared program)) :
    (Session.responseTo fuel program).Keeps D m := by
  unfold Session.responseTo
  split
  · exact keeps_echo hD fuel _ m
  · exact keeps_runStatements hD fuel program m h

end Eval

namespace Session

def accepts (s : Session) (source : String) (P : Program) : Prop :=
  (s.prepare source).1 = .ok P

theorem prepare_of_accepts {s : Session} {source : String} {P : Program} (h : s.accepts source P) :
    s.prepare source = (.ok P, (s.prepare source).2) := Prod.ext h rfl

theorem prepare_error {s s₁ : Session} {source : String} {errors : List Diagnostic}
    (h : s.prepare source = (.error errors, s₁)) :
    s₁.machine = s.machine ∧
      (Token.ofSource source = .error errors ∨ ∃ tokens, Token.ofSource source = .ok tokens ∧
        (Program.ofTokens s.nextId tokens = (.error errors, s₁.nextId) ∨
          ∃ P, Program.ofTokens s.nextId tokens = (.ok P, s₁.nextId) ∧ P.resolve = .error errors)) := by
  unfold prepare at h
  split at h
  · rename_i htokens
    cases h
    exact ⟨rfl, .inl htokens⟩
  · rename_i tokens htokens
    split at h
    · rename_i htree
      cases h
      exact ⟨rfl, .inr ⟨tokens, htokens, .inl htree⟩⟩
    · rename_i P nextId htree
      split at h
      · rename_i hresolve
        cases h
        exact ⟨rfl, .inr ⟨tokens, htokens, .inr ⟨P, htree, hresolve⟩⟩⟩
      · cases h

theorem prepare_ok {s s₁ : Session} {source : String} {P : Program}
    (h : s.prepare source = (.ok P, s₁)) :
    ∃ tokens hops, Token.ofSource source = .ok tokens ∧
      Program.ofTokens s.nextId tokens = (.ok P, s₁.nextId) ∧ Program.resolve P = .ok hops ∧
      s₁.machine = s.machine.recordHops hops := by
  unfold prepare at h
  split at h
  · cases h
  · rename_i tokens htokens
    split at h
    · cases h
    · rename_i program nextId hprogram
      split at h
      · cases h
      · rename_i hops hhops
        cases h
        exact ⟨tokens, hops, htokens, hprogram, hhops, rfl⟩

/-- All that the stages before a run take from the session is the next identity. -/
theorem prepare_eq (nextId : ReferenceId) (source : String) :
    ∃ result hops next, ∀ m, prepare ⟨m, nextId⟩ source = (result, ⟨m.recordHops hops, next⟩) := by
  unfold prepare
  cases Token.ofSource source with
  | error errors => exact ⟨.error errors, [], nextId, fun _ => rfl⟩
  | ok tokens =>
    dsimp only
    obtain ⟨errors | P, next⟩ := Program.ofTokens nextId tokens
    · exact ⟨.error errors, [], next, fun _ => rfl⟩
    · dsimp only
      cases P.resolve with
      | error errors => exact ⟨.error errors, [], next, fun _ => rfl⟩
      | ok hops => exact ⟨.ok P, hops, next, fun _ => rfl⟩

theorem perform_some {s s' : Session} {act : Eval Unit} {errors : List Diagnostic}
    (h : s.perform act = some (errors, s')) :
    s'.nextId = s.nextId ∧
      (act s.machine = .answer () s'.machine ∧ errors = [] ∨
        ∃ fault after, act s.machine = .fault fault after ∧ s'.machine = after.atRest ∧
          errors = [fault.diagnostic]) := by
  unfold perform Machine.perform at h
  cases ha : act s.machine with
  | answer v after =>
    simp only [ha, Option.map_some, Option.some.injEq, Prod.mk.injEq] at h
    obtain ⟨rfl, rfl⟩ := h
    exact ⟨rfl, .inl ⟨rfl, rfl⟩⟩
  | fault fault after =>
    simp only [ha, Option.map_some, Option.some.injEq, Prod.mk.injEq] at h
    obtain ⟨rfl, rfl⟩ := h
    exact ⟨rfl, .inr ⟨fault, after, rfl, rfl, rfl⟩⟩
  | exhausted => simp [ha] at h

end Session

/-- A program and the machine it is run on, with the fuel for it. -/
structure Performance where
  interactive : Bool
  fuel : Nat
  program : Program
  machine : Machine

def Performance.act (p : Performance) : Eval Unit :=
  if p.interactive then Session.responseTo p.fuel p.program
  else Eval.runStatements p.fuel p.program

namespace Session

def performance? (s : Session) (interactive : Bool) (fuel : Nat) (source : String) :
    Option Performance :=
  match s.prepare source with
  | (.ok program, s) => some ⟨interactive, fuel, program, s.machine⟩
  | (.error _, _) => none

def facing (s : Session) (sink : Sink) (input : Input) (clock : Clock) : Session :=
  { s with machine := { s.machine with sink, input, clock } }

def runAs (interactive : Bool) (fuel : Nat) (s : Session) (source : String) :
    Option (List Diagnostic × Session) :=
  if interactive then s.respond fuel source else s.run fuel source

/-- A session with the performances that led to it, the last one first. Source text that is refused is
none of them. What lies outside the session may change between two runs. -/
inductive After : List Performance → Session → Prop
  | start (sink : Sink) (input : Input) (clock : Clock) : After [] (start sink input clock)
  | run {history : List Performance} {s s' : Session} {interactive : Bool} {fuel : Nat}
      {source : String} {errors : List Diagnostic} :
    After history s → s.runAs interactive fuel source = some (errors, s') →
    After ((s.performance? interactive fuel source).toList ++ history) s'
  | facing {history : List Performance} {s : Session} (sink : Sink) (input : Input)
      (clock : Clock) :
    After history s → After history (s.facing sink input clock)

theorem runAs_eq (interactive : Bool) (fuel : Nat) (s : Session) (source : String) :
    s.runAs interactive fuel source =
      match s.prepare source with
      | (.error errors, s) => some (errors, s)
      | (.ok program, s) => s.perform (Performance.mk interactive fuel program s.machine).act := by
  cases interactive with
  | false => rfl
  | true => rfl

/-- A run of source text refuses it, or is its performance. -/
theorem runAs_some {interactive : Bool} {fuel : Nat} {s s' : Session} {source : String}
    {errors : List Diagnostic} (h : s.runAs interactive fuel source = some (errors, s')) :
    s.performance? interactive fuel source = none ∧ s.prepare source = (.error errors, s') ∨
      ∃ p s₁, s.performance? interactive fuel source = some p ∧
        s.prepare source = (.ok p.program, s₁) ∧ s₁.machine = p.machine ∧
        s₁.perform p.act = some (errors, s') := by
  rw [runAs_eq] at h
  unfold performance?
  split at h
  · rename_i hp
    cases h
    exact .inl ⟨by rw [hp], hp⟩
  · rename_i P s₁ hp
    exact .inr ⟨⟨interactive, fuel, P, s₁.machine⟩, s₁, by rw [hp], hp, rfl, h⟩

theorem performance?_of_accepts {interactive : Bool} {fuel : Nat} {s : Session} {source : String}
    {P : Program} (h : s.accepts source P) :
    s.performance? interactive fuel source =
      some ⟨interactive, fuel, P, (s.prepare source).2.machine⟩ := by
  unfold performance?
  rw [prepare_of_accepts h]

theorem performance?_some {interactive : Bool} {fuel : Nat} {s : Session} {source : String}
    {p : Performance} (h : s.performance? interactive fuel source = some p) :
    ∃ s₁, s.prepare source = (.ok p.program, s₁) ∧ s₁.machine = p.machine := by
  unfold performance? at h
  split at h
  · rename_i P s₁ hp
    cases h
    exact ⟨s₁, hp, rfl⟩
  · cases h

end Session

theorem Store.stored_start (D : Declaration → Bool → Prop) : Store.start.Stored D := by
  have harray : ∀ (methods : List ArrayMethod) (acc : Dictionary FunctionId × Store)
      (closure : FrameId), acc.2.Stored D →
      (methods.foldl (fun (acc : Dictionary FunctionId × Store) method =>
        let added := acc.2.addFunction ⟨.array method, closure, method = .init⟩
        (acc.1.insert method.name added.1, added.2)) acc).2.Stored D := by
    intro methods
    induction methods with
    | nil => exact fun _ _ h => h
    | cons method rest ih =>
      intro acc closure h
      refine ih _ closure (h.addFunction ?_)
      rintro _ ⟨⟩
  have hempty : ((Store.empty.addFrame none).2.bindNatives.addFrame (some Store.globals)).2.Stored D := by
    intro id f d hf
    simp [Store.function?, Store.addFrame, Store.bindNatives, Store.bind, Store.empty] at hf
  refine Store.Stored.of_functions (s := (Store.addArrayMethods _ _).2) ?_ rfl
  exact harray _ (∅, _) _ hempty

theorem Eval.keeps_act {D : Declaration → Bool → Prop} (hD : Hereditary D) (p : Performance)
    (m : Machine) (h : AllSatisfy D (Stmt.allDeclared p.program)) : p.act.Keeps D m := by
  unfold Performance.act
  split
  · exact keeps_responseTo hD p.fuel p.program m h
  · exact keeps_runStatements hD p.fuel p.program m h

namespace Session

variable {D : Declaration → Bool → Prop} {s s' : Session}

/-- Between two runs the machine is in the global environment, with no call in progress. -/
structure AtRest (s : Session) : Prop where
  cursor : s.machine.cursor = Store.globals
  calls : s.machine.calls = 0

theorem perform_keeps {act : Eval Unit} {errors : List Diagnostic} (hact : act.Keeps D s.machine)
    (hstored : s.machine.store.Stored D) (hrest : s.AtRest)
    (h : s.perform act = some (errors, s')) : s'.machine.store.Stored D ∧ s'.AtRest := by
  obtain ⟨-, ⟨ha, -⟩ | ⟨fault, after, ha, hm, -⟩⟩ := perform_some h
  · have hkept := (hact hstored).answer ha
    exact ⟨hkept.stored, hkept.cursor.trans hrest.cursor, hkept.calls.trans hrest.calls⟩
  · have hkept := (hact hstored).fault ha
    exact ⟨by rw [hm]; exact hkept.stored, by rw [hm]; rfl, by rw [hm]; rfl⟩

theorem runAs_keeps (hD : Hereditary D) {interactive : Bool} {fuel : Nat} {source : String}
    {errors : List Diagnostic} (hP : ∀ P, s.accepts source P → AllSatisfy D (Stmt.allDeclared P))
    (hstored : s.machine.store.Stored D) (hrest : s.AtRest)
    (h : s.runAs interactive fuel source = some (errors, s')) :
    s'.machine.store.Stored D ∧ s'.AtRest := by
  rcases runAs_some h with ⟨-, hp⟩ | ⟨p, s₁, -, hp, -, hperform⟩
  · have hm := (prepare_error hp).1
    exact ⟨by rw [hm]; exact hstored, by rw [hm]; exact hrest.cursor, by rw [hm]; exact hrest.calls⟩
  · obtain ⟨_, _, -, -, -, hm⟩ := prepare_ok hp
    have hact := Eval.keeps_act hD p s₁.machine (hP p.program (by simp [accepts, hp]))
    refine perform_keeps hact ?_ ⟨?_, ?_⟩ hperform <;> rw [hm]
    · exact hstored
    · exact hrest.cursor
    · exact hrest.calls

theorem runAs_grows {interactive : Bool} {fuel : Nat} {source : String} {errors : List Diagnostic}
    (h : s.runAs interactive fuel source = some (errors, s')) :
    s.machine.store.Grows s'.machine.store := by
  rcases runAs_some h with ⟨-, hp⟩ | ⟨p, s₁, -, hp, -, hperform⟩
  · rw [(prepare_error hp).1]
    exact .refl _
  · obtain ⟨_, _, -, -, -, hm⟩ := prepare_ok hp
    have hstore : s₁.machine.store = s.machine.store := by
      rw [hm]
      rfl
    have hact : p.act.Keeps AnyFunction s₁.machine :=
      Eval.keeps_act (fun _ _ _ _ _ _ => trivial) p _ fun _ _ _ => trivial
    rw [← hstore]
    obtain ⟨-, ⟨ha, -⟩ | ⟨fault, after, ha, hafter, -⟩⟩ := perform_some hperform
    · exact ((hact (stored_any _)).answer ha).grows
    · rw [hafter]
      exact ((hact (stored_any _)).fault ha).grows

theorem atRest_start (sink : Sink) (input : Input) (clock : Clock) :
    (start sink input clock).AtRest := ⟨rfl, rfl⟩

end Session

end LoxLang
