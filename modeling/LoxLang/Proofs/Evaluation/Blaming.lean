import LoxLang.Proofs.Evaluation.Methods
import LoxLang.Proofs.Syntax.Relabeling

/-!
The lines that failures of a run are reported on.

A change of line numbers that keeps the lines of all tokens keeps the line of every failure, with one
exception. What `print` shows is rendered on the line of its expression, and that of a literal is 0. On
this line nothing fails but a call of `toString` for which there are too many calls in progress already.
-/

set_option autoImplicit false

namespace LoxLang

variable {φ : Nat → Nat}

section

variable (ρ : Relabeling)

mutual
theorem Stmt.declared_relabel : ∀ s : Stmt,
    (s.relabel ρ).declared = s.declared.map fun entry => (entry.1.relabel ρ, entry.2)
  | .expression _ | .print _ | .declareVar _ _ | .declareFunction _ | .returnWith _ _ | .breakLoop _
  | .continueLoop _ => rfl
  | .block body => Stmt.allDeclared_relabelAll body
  | .branch _ t (some e) => by
    simp only [Stmt.relabel, Stmt.declared, t.declared_relabel, e.declared_relabel, List.map_append]
  | .branch _ t none => t.declared_relabel
  | .loop (some i) _ n b => by
    simp only [Stmt.relabel, Stmt.declared, i.declared_relabel, Stmt.optionDeclared_relabelOption n,
      b.declared_relabel, List.map_append]
  | .loop none _ n b => by
    simp only [Stmt.relabel, Stmt.declared, Stmt.optionDeclared_relabelOption n, b.declared_relabel,
      List.map_append]
  | .declareClass _ _ ds => Declaration.functions_relabelAll ds

theorem Stmt.optionDeclared_relabelOption : ∀ s : Option Stmt,
    Stmt.optionDeclared (Stmt.relabelOption ρ s) =
      (Stmt.optionDeclared s).map fun entry => (entry.1.relabel ρ, entry.2)
  | none => rfl
  | some s => s.declared_relabel

theorem Stmt.allDeclared_relabelAll : ∀ body : List Stmt,
    Stmt.allDeclared (Stmt.relabelAll ρ body) =
      (Stmt.allDeclared body).map fun entry => (entry.1.relabel ρ, entry.2)
  | [] => rfl
  | s :: rest => by
    simp only [Stmt.relabelAll, Stmt.allDeclared, s.declared_relabel, Stmt.allDeclared_relabelAll rest,
      List.map_append]

theorem Declaration.functions_relabelAll : ∀ ds : List Declaration,
    ((Declaration.relabelAll ρ ds).map fun d => (d, decide (d.name.lexeme = initializerName))) =
      (ds.map fun d => (d, decide (d.name.lexeme = initializerName))).map fun entry =>
        (entry.1.relabel ρ, entry.2)
  | [] => rfl
  | d :: rest => by
    simp only [Declaration.relabelAll, List.map_cons, Declaration.functions_relabelAll rest,
      Declaration.name_relabel, Token.lexeme_relabel]
end

end

def Declaration.FixedBy (φ : Nat → Nat) (d : Declaration) (_ : Bool) : Prop :=
  d.relabel (.ofLines φ) = d

def Task.FixedBy (φ : Nat → Nat) : Task → Prop
  | .evaluate e => e.relabel (.ofLines φ) = e
  | .evaluateAll es => Expr.relabelAll (.ofLines φ) es = es
  | .call line _ _ | .invoke line _ _ | .construct line _ _ | .render line _ => φ line = line
  | .execute s => s.relabel (.ofLines φ) = s
  | .executeAll body => Stmt.relabelAll (.ofLines φ) body = body
  | .iterate c n b => c.relabel (.ofLines φ) = c ∧ Stmt.relabelOption (.ofLines φ) n = n ∧
    b.relabel (.ofLines φ) = b

theorem Stmt.allDeclared_fixed {body : List Stmt} (h : Stmt.relabelAll (.ofLines φ) body = body) :
    AllSatisfy (Declaration.FixedBy φ) (Stmt.allDeclared body) := by
  intro d i hd
  have hmap := Stmt.allDeclared_relabelAll (.ofLines φ) body
  rw [h] at hmap
  have hsame := List.map_inj_left.mp (hmap.symm.trans (List.map_id _).symm) (d, i) hd
  exact congrArg Prod.fst hsame

theorem Declaration.body_fixed {d : Declaration} (h : d.relabel (.ofLines φ) = d) :
    Stmt.relabelAll (.ofLines φ) d.body = d.body := by
  rw [← Declaration.body_relabel, h]

theorem Declaration.hereditary_fixed : Hereditary (Declaration.FixedBy φ) :=
  fun _ _ h => Stmt.allDeclared_fixed (Declaration.body_fixed h)

theorem Token.line_fixed {t : Token} (h : t.relabel (.ofLines φ) = t) : φ t.line = t.line :=
  congrArg Token.line h

theorem Reference.line_fixed {r : Reference} (h : r.relabel (.ofLines φ) = r) :
    φ r.name.line = r.name.line := congrArg (fun r : Reference => r.name.line) h

theorem Expr.ownLines_fixed {e : Expr} (h : e.relabel (.ofLines φ) = e) :
    ∀ line ∈ e.ownLines, φ line = line := by
  cases e with
  | unary | binary | «variable» | assign | get | set | this | super =>
    simp only [Expr.relabel, Expr.unary.injEq, Expr.binary.injEq, Expr.variable.injEq, Expr.assign.injEq,
      Expr.get.injEq, Expr.set.injEq, Expr.this.injEq, Expr.super.injEq] at h
    simp [Expr.ownLines, Token.line_fixed, Reference.line_fixed, h]
  | _ => simp [Expr.ownLines]

theorem Task.FixedBy.ownLines {task : Task} (h : task.FixedBy φ) :
    ∀ line ∈ task.ownLines, φ line = line := by
  cases task with
  | evaluate e => exact Expr.ownLines_fixed h
  | call | invoke =>
    simp only [Task.ownLines, List.mem_singleton, forall_eq]
    exact h
  | execute s =>
    cases s with
    | declareClass name base ds =>
      simp only [FixedBy, Stmt.relabel, Stmt.declareClass.injEq] at h
      obtain ⟨hname, hbase, -⟩ := h
      cases base with
      | none => simpa [Task.ownLines] using Token.line_fixed hname
      | some target =>
        have htarget : target.relabel (.ofLines φ) = target := by simpa using hbase
        simp [Task.ownLines, Token.line_fixed hname, Reference.line_fixed htarget]
    | _ => simp [Task.ownLines]
  | _ => simp [Task.ownLines]

namespace Activity

variable {a b : Activity}

theorem Requests.line_fixed {line : Nat} (h : a.Requests line) (ha : a.task.FixedBy φ) :
    φ line = line := by
  cases h <;> exact ha

theorem Raises.line_fixed {line : Nat} {cause : RuntimeError} (h : a.Raises line cause)
    (ha : a.task.FixedBy φ) : φ line = line := by
  rcases h with ⟨hline, -⟩ | ⟨-, hrequests, -⟩
  · exact ha.ownLines line hline
  · exact hrequests.line_fixed ha

/-- The renderings that an activity comes to: that of the value shown, and that of what a method
`toString` answered for the one before. -/
inductive Shows (a : Activity) : Activity → Prop
  | value {b : Activity} {line : Nat} {v : Value} :
    a.Enters id b → b.task = .render line v → Shows a b
  | answer {b c : Activity} {line : Nat} {v : Value} :
    Shows a b → b.Enters id c → c.task = .render line v → Shows a c

/-- A `print` statement is under way, and the line of its expression is that of a literal. -/
def PrintsOnZero (a : Activity) : Prop :=
  ∃ e : Expr, a.task = .execute (.print e) ∧ e.line = 0

/-- The parts of a task have only lines that the task has. The exception is the rendering of what a
`print` statement shows: its line comes from no token if it is that of a literal. -/
theorem Enters.fixed {change : Context → Context} (h : a.Enters change b) (ha : a.task.FixedBy φ) :
    b.task.FixedBy φ ∨ a.PrintsOnZero ∧ a.Shows b ∧ ∃ v, b.task = .render 0 v := by
  have hentered := h
  -- Everything entered takes over lines of the task, but for the rendering in a `print` statement.
  cases h with
  | @print k m m₁ e v hv =>
    by_cases hzero : e.line = 0
    · exact .inr ⟨⟨e, rfl, hzero⟩, .value hentered rfl, v, by rw [hzero]⟩
    · left
      have hkept := e.line_relabel (.ofLines φ) fun h => absurd h hzero
      have he : e.relabel (.ofLines φ) = e := by simpa [Task.FixedBy, Stmt.relabel] using ha
      rw [he] at hkept
      exact hkept.symm
  | @condition _ _ _ _ t | @conditionalElse _ _ _ _ _ t =>
    left
    cases t <;> simp_all [Task.FixedBy, Expr.relabel]
  | @branchCondition _ _ _ _ e | @branchThen _ _ _ _ _ e =>
    left
    cases e <;> simp_all [Task.FixedBy, Stmt.relabel]
  | call =>
    left
    simp only [Task.FixedBy, Expr.relabel, Expr.call.injEq] at ha
    exact Token.line_fixed ha.2.1
  | _ =>
    left
    simp_all [Task.FixedBy, Expr.relabel, Expr.relabelAll, Stmt.relabel, Stmt.relabelAll,
      Stmt.relabelOption]

theorem Invokes.fixed {id : FunctionId} {d : Declaration} {frame : FrameId} (h : a.Invokes id d frame b)
    (ha : a.machine.store.Stored (Declaration.FixedBy φ)) : b.task.FixedBy φ := by
  cases h with
  | body hf hcode => exact Declaration.body_fixed (ha _ _ _ hf hcode)

open Eval

variable {E : Setting} {K : Context} {fuel line : Nat} {m m' : Machine} {fault : Fault}

theorem invoke_fails {id : FunctionId} {f : Function} {d : Declaration} {vs : List Value}
    (hf : m.store.function? id = some f) (hcode : f.code = .declared d) (hinit : f.initializes = false)
    (h : outcome ⟨fuel, .invoke line id vs, m⟩ = .fault fault m') :
    ∃ frame b m₁, Invokes ⟨fuel, .invoke line id vs, m⟩ id d frame b ∧ b.outcome = .fault fault m₁ := by
  cases fuel with
  | zero => simp [outcome, LoxLang.invoke, Eval.outOfFuel, Outcome.forget] at h
  | succ fuel =>
    let F (fault : Fault) (_ : Machine) : Prop :=
      ∃ frame b m₁, Invokes ⟨fuel + 1, .invoke line id vs, m⟩ id d frame b ∧ b.outcome = .fault fault m₁
    have hrun : (LoxLang.invoke (fuel + 1) line id vs).Ensures m (fun _ _ => True) F := by
      rw [LoxLang.invoke]
      refine .viewThen ?_
      simp only [hf, hcode]
      have hparameters : (parameterFrame f.closure d.parameters vs).Ensures m (fun _ _ => True) F := trivial
      refine .bind hparameters fun frame m₁ hframe _ => ?_
      have hbody : (Eval.within frame (LoxLang.executeAll fuel d.body)).Ensures m₁ (fun _ _ => True) F := by
        refine .within (.intro (fun _ _ _ => trivial) fun fault m₂ hfault => ?_)
        exact ⟨frame, _, m₂, .body hf hcode hframe, congrArg Outcome.forget hfault⟩
      refine .bind hbody fun ending m₂ _ _ => ?_
      have hanswer : ∃ v, answerOf line f ending m₂ = .answer v m₂ := by
        cases ending <;> simp [answerOf, hinit]
      obtain ⟨v, hv⟩ := hanswer
      exact .intro (fun _ _ _ => trivial) fun _ _ hfault => by simp [hv] at hfault
    exact hrun.fault (Outcome.fault_of_forget h)

theorem Sits.text_declared {object : ObjectId} {method bound : FunctionId} {m₁ : Machine}
    (ha : Sits E ⟨fuel + 1, .render line (.object object), m⟩ K)
    (hmethod : m.store.methodOf? object toStringName = some method)
    (hbound : Eval.bindMethod method object m = .answer bound m₁) :
    ∃ f d, m₁.store.function? bound = some f ∧ f.code = .declared d ∧ f.initializes = false := by
  obtain ⟨o, ho, hfound⟩ := Eval.object?_of_methodOf? hmethod
  obtain ⟨hm, -, f, D, hcallable, hbinds⟩ :=
    (Eval.steps_bindMethod ha.sound ho (.self _) hfound).answer hbound
  have hinit := hbinds.initializes hm.sound
  -- No built-in method has this name.
  cases hcode : f.code with
  | array method =>
    obtain ⟨-, hname⟩ := hbinds.array hm.sound hcode
    cases method <;> simp [toStringName, ArrayMethod.name] at hname
  | declared d => exact ⟨f, d, hcallable.found, hcode, hinit⟩

theorem Sits.render_fails {v : Value} (ha : Sits E a K) (htask : a.task = .render line v)
    {n : Nat} {cause : RuntimeError} (h : a.outcome = .fault (.runtime n cause) m') :
    (n = line ∧ cause = .stackOverflow ∧ a.Refused line) ∨
      (∃ b w m₁, a.Enters id b ∧ b.task = .render line w ∧ b.outcome = .fault (.runtime n cause) m₁) ∨
        ∃ i method d frame b m₁, a.Enters id i ∧ i.Invokes method d frame b ∧
          b.outcome = .fault (.runtime n cause) m₁ := by
  rcases blames h n cause rfl with hraised | ⟨b, m₁, ⟨change, hb⟩ | ⟨method, d, frame, hb⟩, hfault⟩
  · left
    rcases hraised with ⟨hline, -⟩ | ⟨rfl, hrequests, hfull⟩
    · simp [htask, Task.ownLines] at hline
    · obtain rfl : n = line := by
        cases hrequests <;> simp_all
      exact ⟨rfl, rfl, hrequests.refused_iff.mpr hfull⟩
  · right
    have hentered := hb
    cases hb with
    | text hmethod harity hbound hcalls =>
      right
      obtain ⟨f, d, hf, hcode, hinit⟩ := ha.text_declared hmethod hbound
      obtain ⟨frame, b, m₂, hinvokes, hb⟩ := invoke_fails (by exact hf) hcode hinit hfault
      exact ⟨_, _, d, frame, b, m₂, hentered, hinvokes, hb⟩
    | textOf hmethod harity hbound hcalls hv =>
      left
      obtain ⟨rfl, -⟩ := Task.render.inj htask
      exact ⟨_, _, m₁, hentered, rfl, hfault⟩
    | _ => simp at htask
  · cases hb
    simp at htask

/-- A `print` statement fails on line 0: a call of `toString` for what it shows is refused. -/
structure Overflows (a : Activity) : Prop where
  prints : a.PrintsOnZero
  fails : ∃ m', a.outcome = .fault (.runtime 0 .stackOverflow) m'
  refused : ∃ r, a.Shows r ∧ r.Refused 0

/-- Whatever fails in a run fails on a line that is kept, or while something is shown on line 0. -/
theorem Visited.fault_line {root : Activity → Prop} {cause : RuntimeError}
    (hsits : ∀ b : Activity, b.Visited root → ∃ K, b.Sits E K)
    (hstored : ∀ b : Activity, b.Visited root → b.machine.store.Stored (Declaration.FixedBy φ))
    (ha : a.Visited root) (htask : a.task.FixedBy φ) (h : a.outcome = .fault (.runtime line cause) m') :
    φ line = line ∨
      line = 0 ∧ cause = .stackOverflow ∧ ∃ print : Activity, print.Visited root ∧ print.Overflows := by
  -- Followed down, the failure is met in tasks with lines that are kept, or in what a `print` shows.
  have hfollowed : a.task.FixedBy φ ∨ ∃ (print : Activity) (m₁ : Machine) (v : Value), print.Visited root ∧
      print.PrintsOnZero ∧ print.outcome = .fault (.runtime line cause) m₁ ∧ print.Shows a ∧
      a.task = .render 0 v := .inl htask
  clear htask
  -- On the fuel, which goes down with each step from a failing activity to the one it failed in.
  induction hfuel : a.fuel using Nat.strong_induction_on generalizing a m' with
  | _ fuel ih =>
    rcases hfollowed with htask | ⟨print, m₁, v, hprint, hzero, hfails, hshows, htask⟩
    · rcases blames h line cause rfl with hraised | ⟨b, m₁, hgoes, hb⟩
      · exact .inl (hraised.line_fixed htask)
      · have hfewer : b.fuel < fuel := hfuel ▸ hgoes.fuel_lt
        rcases hgoes with ⟨change, hgoes⟩ | ⟨id, d, frame, hgoes⟩
        · refine ih b.fuel hfewer (ha.part hgoes) hb ?_ rfl
          exact (hgoes.fixed htask).imp_right fun ⟨hzero, hshows, v, hv⟩ =>
            ⟨a, m', v, ha, hzero, h, hshows, hv⟩
        · exact ih b.fuel hfewer (ha.body hgoes) hb (.inl (hgoes.fixed (hstored a ha))) rfl
    · obtain ⟨K, hsits'⟩ := hsits a ha
      rcases hsits'.render_fails htask h with ⟨rfl, rfl, hrefused⟩ | ⟨b, w, m₂, hb, hbtask, hfault⟩ |
        ⟨i, id, d, frame, b, m₂, hi, hb, hfault⟩
      · exact .inr ⟨rfl, rfl, print, hprint, hzero, ⟨m₁, hfails⟩, a, hshows, hrefused⟩
      · have hfewer : b.fuel < fuel := hfuel ▸ Goes.fuel_lt (.inl ⟨_, hb⟩)
        refine ih b.fuel hfewer (ha.part hb) hfault (.inr ?_) rfl
        exact ⟨print, m₁, w, hprint, hzero, hfails, hshows.answer hb hbtask, hbtask⟩
      · have hentered : i.Visited root := ha.part hi
        have hfewer : b.fuel < i.fuel := Goes.fuel_lt (.inr ⟨id, d, frame, hb⟩)
        have hfewer' : i.fuel < fuel := hfuel ▸ Goes.fuel_lt (.inl ⟨_, hi⟩)
        exact ih b.fuel (hfewer.trans hfewer') (hentered.body hb) hfault
          (.inl (hb.fixed (hstored i hentered))) rfl

end Activity

namespace Program

variable {fuel : Nat} {P : Program} {m m' : Machine} {a : Activity}

theorem exists_fault {f : Fault} (h : Eval.runStatements fuel P m = .fault f m') :
    ∃ a m₁, P.Begins fuel m a ∧ a.outcome = .fault f m₁ := by
  induction P generalizing m with
  | nil => cases h
  | cons s rest ih =>
    rw [Eval.runStatements] at h
    cases hs : execute fuel s m with
    | answer ending m₁ =>
      rw [Eval.bind_of_answer hs] at h
      obtain ⟨a, m₂, ha, hfault⟩ := ih h
      exact ⟨a, m₂, .next hs ha, hfault⟩
    | fault g m₁ =>
      rw [Eval.bind_of_fault hs] at h
      cases h
      exact ⟨_, m', .statement, congrArg Outcome.forget hs⟩
    | exhausted =>
      rw [Eval.bind_of_exhausted hs] at h
      cases h

theorem Begins.fixed (h : P.Begins fuel m a) (hP : Stmt.relabelAll (.ofLines φ) P = P) :
    a.task.FixedBy φ := by
  induction h with
  | statement => exact (List.cons.inj hP).1
  | next _ _ ih => exact ih (List.cons.inj hP).2

end Program

end LoxLang
