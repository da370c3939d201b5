import LoxLang.Proofs.Evaluation.Halting
import LoxLang.Proofs.Session.History
import LoxLang.Proofs.Syntax.LoopFree

/-!
Programs without loops end.

Recursion is bounded by the number of calls in progress, and between two calls only the program text
is gone through. So with `c` calls left to nest, evaluation nests no deeper than the text at hand and
`c` times the largest function body, each with the few steps that a call takes.
-/

set_option autoImplicit false

namespace LoxLang

/-- Fuel for whatever calls do when so many more may be nested, no function body being larger than
the bound. -/
def callFuel (bound left : Nat) : Nat := left * (bound + 4) + 1

def Machine.callsLeft (m : Machine) : Nat := callLimit - m.calls

/-- All functions are bounded, and so is the need of fuel for text of the given weight. -/
structure Machine.Fuelled (m : Machine) (bound weight fuel : Nat) : Prop where
  stored : m.store.Stored (Declaration.Bounded bound)
  enough : weight + callFuel bound m.callsLeft ≤ fuel

namespace Machine.Fuelled

variable {m m' : Machine} {bound weight fuel : Nat}

theorem next {other : Nat} (h : m.Fuelled bound weight fuel)
    (hm : Kept (Declaration.Bounded bound) m m') (hle : other ≤ weight) :
    m'.Fuelled bound other fuel := by
  refine ⟨hm.stored, ?_⟩
  have henough := h.enough
  rw [callsLeft, hm.calls, ← callsLeft]
  omega

theorem part {other : Nat} (h : m.Fuelled bound weight (fuel + 1)) (hle : other + 1 ≤ weight) :
    m.Fuelled bound other fuel := by
  refine ⟨h.stored, ?_⟩
  have henough := h.enough
  omega

theorem lighter {other : Nat} (h : m.Fuelled bound weight fuel) (hle : other ≤ weight) :
    m.Fuelled bound other fuel :=
  h.next (.refl h.stored) hle

end Machine.Fuelled

/-- Evaluation with this much fuel ends. -/
structure Terminates (bound fuel : Nat) : Prop where
  evaluate : ∀ e m, m.Fuelled bound e.weight fuel → (evaluate fuel e).Halts m
  evaluateAll : ∀ es m, m.Fuelled bound (Expr.weightAll es) fuel → (evaluateAll fuel es).Halts m
  call : ∀ line callee arguments m, m.Fuelled bound 0 fuel →
    (call fuel line callee arguments).Halts m
  invoke : ∀ line id arguments m, m.Fuelled bound (bound + 1) fuel →
    (invoke fuel line id arguments).Halts m
  construct : ∀ line id arguments m, m.Fuelled bound (bound + 2) fuel →
    (construct fuel line id arguments).Halts m
  render : ∀ line value m, m.Fuelled bound 0 fuel → (render fuel line value).Halts m
  execute : ∀ s m, s.LoopFree → s.weight ≤ bound → m.Fuelled bound s.weight fuel →
    (execute fuel s).Halts m
  executeAll : ∀ body m, Stmt.AllLoopFree body → Stmt.weightAll body ≤ bound →
    m.Fuelled bound (Stmt.weightAll body) fuel → (executeAll fuel body).Halts m

section

variable {bound fuel : Nat}

theorem Eval.Halts.then {α β : Type} {D : Declaration → Bool → Prop} {m : Machine} {act : Eval α}
    {next : α → Eval β} (hact : act.Halts m) (hkeeps : act.Keeps D m) (hs : m.store.Stored D)
    (hnext : ∀ v m', Kept D m m' → (next v).Halts m') : (act >>= next).Halts m :=
  hact.bind fun v m' hv => hnext v m' ((hkeeps hs).answer hv)

theorem Terminates.evaluate_succ (ih : Terminates bound fuel) (e : Expr) (m : Machine)
    (h : m.Fuelled bound e.weight (fuel + 1)) : (LoxLang.evaluate (fuel + 1) e).Halts m := by
  have keeps := preserves (Declaration.hereditary_bounded bound) fuel
  -- A later part runs on a machine that keeps what is kept, and there is less text ahead of it.
  cases e with
  | literal value =>
    rw [LoxLang.evaluate]
    exact Eval.Prompt.ret _ m
  | grouping inner =>
    rw [LoxLang.evaluate]
    exact ih.evaluate inner m (h.part (by simp only [Expr.weight]; omega))
  | unary operator right =>
    rw [LoxLang.evaluate]
    have hright := ih.evaluate right m (h.part (by simp only [Expr.weight]; omega))
    exact hright.bind fun _ m₁ _ => Eval.Prompt.ofExcept m₁
  | binary left operator right =>
    simp only [Expr.weight] at h
    rw [LoxLang.evaluate]
    have hleft := ih.evaluate left m (h.part (by omega))
    refine hleft.then (keeps.evaluate left m) h.stored fun _ m₁ hm => ?_
    have hright := ih.evaluate right m₁ ((h.next hm (Nat.le_refl _)).part (by omega))
    exact hright.bind fun _ m₂ _ => Eval.Prompt.ofExcept m₂
  | logical left operator right =>
    simp only [Expr.weight] at h
    rw [LoxLang.evaluate]
    have hleft := ih.evaluate left m (h.part (by omega))
    refine hleft.then (keeps.evaluate left m) h.stored fun _ m₁ hm => ?_
    split
    · exact Eval.Prompt.ret _ m₁
    · exact ih.evaluate right m₁ ((h.next hm (Nat.le_refl _)).part (by omega))
  | conditional condition thenBranch elseBranch =>
    rw [LoxLang.evaluate]
    cases thenBranch with
    | none =>
      simp only [Expr.weight] at h
      have hcondition := ih.evaluate condition m (h.part (by omega))
      refine hcondition.then (keeps.evaluate condition m) h.stored fun _ m₁ hm => ?_
      split
      · exact Eval.Prompt.ret _ m₁
      · exact ih.evaluate elseBranch m₁ ((h.next hm (Nat.le_refl _)).part (by omega))
    | some thenBranch =>
      simp only [Expr.weight] at h
      have hcondition := ih.evaluate condition m (h.part (by omega))
      refine hcondition.then (keeps.evaluate condition m) h.stored fun _ m₁ hm => ?_
      split
      · exact ih.evaluate thenBranch m₁ ((h.next hm (Nat.le_refl _)).part (by omega))
      · exact ih.evaluate elseBranch m₁ ((h.next hm (Nat.le_refl _)).part (by omega))
  | «variable» target =>
    rw [LoxLang.evaluate]
    exact Eval.prompt_lookUp target m
  | assign target value =>
    rw [LoxLang.evaluate]
    have hvalue := ih.evaluate value m (h.part (by simp only [Expr.weight]; omega))
    refine hvalue.bind fun _ m₁ _ => ?_
    exact Eval.Prompt.bind (Eval.prompt_assign _ _) (fun _ => Eval.Prompt.ret _) m₁
  | call callee paren arguments =>
    simp only [Expr.weight] at h
    rw [LoxLang.evaluate]
    have hcallee := ih.evaluate callee m (h.part (by omega))
    refine hcallee.then (keeps.evaluate callee m) h.stored fun _ m₁ hm => ?_
    have h₁ := h.next hm (Nat.le_refl _)
    have harguments := ih.evaluateAll arguments m₁ (h₁.part (by omega))
    refine harguments.then (keeps.evaluateAll arguments m₁) h₁.stored fun _ m₂ hm₂ => ?_
    exact ih.call _ _ _ m₂ ((h₁.next hm₂ (Nat.le_refl _)).part (by omega))
  | get object name =>
    rw [LoxLang.evaluate]
    have hobject := ih.evaluate object m (h.part (by simp only [Expr.weight]; omega))
    exact hobject.bind fun _ m₁ _ => Eval.prompt_property _ _ m₁
  | set object name value =>
    simp only [Expr.weight] at h
    rw [LoxLang.evaluate]
    have hobject := ih.evaluate object m (h.part (by omega))
    refine hobject.then (keeps.evaluate object m) h.stored fun v m₁ hm => ?_
    split
    · have hvalue := ih.evaluate value m₁ ((h.next hm (Nat.le_refl _)).part (by omega))
      refine hvalue.bind fun _ m₂ _ => ?_
      exact Eval.Prompt.bind Eval.Prompt.update (fun _ => Eval.Prompt.ret _) m₂
    · exact Eval.Prompt.fail m₁
  | this keyword =>
    rw [LoxLang.evaluate]
    exact Eval.prompt_lookUp keyword m
  | super keyword method =>
    rw [LoxLang.evaluate]
    exact Eval.prompt_superMethod keyword method m

theorem Terminates.evaluateAll_succ (ih : Terminates bound fuel) (es : List Expr) (m : Machine)
    (h : m.Fuelled bound (Expr.weightAll es) (fuel + 1)) :
    (LoxLang.evaluateAll (fuel + 1) es).Halts m := by
  have keeps := preserves (Declaration.hereditary_bounded bound) fuel
  cases es with
  | nil =>
    rw [LoxLang.evaluateAll]
    exact Eval.Prompt.ret _ m
  | cons e rest =>
    simp only [Expr.weightAll] at h
    rw [LoxLang.evaluateAll]
    have he := ih.evaluate e m (h.part (by omega))
    refine he.then (keeps.evaluate e m) h.stored fun _ m₁ hm => ?_
    have hrest := ih.evaluateAll rest m₁ ((h.next hm (Nat.le_refl _)).part (by omega))
    exact hrest.bind fun _ m₂ _ => Eval.Prompt.ret _ m₂

theorem Machine.Fuelled.deeper {m : Machine} (h : m.Fuelled bound 0 (fuel + 1))
    (hcalls : m.calls < callLimit) :
    { m with calls := m.calls + 1 : Machine }.Fuelled bound (bound + 2) fuel := by
  refine ⟨h.stored, ?_⟩
  have henough := h.enough
  obtain ⟨left, hleft⟩ : ∃ left, m.callsLeft = left + 1 := by
    refine ⟨m.callsLeft - 1, ?_⟩
    simp only [callsLeft]
    omega
  have hless : { m with calls := m.calls + 1 : Machine }.callsLeft = left := by
    simp only [callsLeft] at hleft ⊢
    omega
  rw [hleft, callFuel, Nat.succ_mul] at henough
  rw [hless, callFuel]
  omega

theorem Terminates.call_succ (ih : Terminates bound fuel) (line : Nat) (callee : Value)
    (arguments : List Value) (m : Machine) (h : m.Fuelled bound 0 (fuel + 1)) :
    (LoxLang.call (fuel + 1) line callee arguments).Halts m := by
  cases callee with
  | native function =>
    rw [LoxLang.call]
    refine Eval.Prompt.bind (Eval.prompt_requireArity _ _ _) (fun _ m₁ => ?_) m
    exact Eval.Halts.deeper fun _ => Eval.prompt_runNative _ _ _ _
  | function id =>
    rw [LoxLang.call]
    refine (Eval.prompt_requireArity _ _ _ m).bind fun _ m₁ hm => ?_
    obtain rfl : m₁ = m := (Eval.quiet_requireArity _ _ _).answer hm
    exact Eval.Halts.deeper fun hc => ih.invoke _ _ _ _ ((h.deeper hc).lighter (by omega))
  | classValue id =>
    rw [LoxLang.call]
    refine (Eval.prompt_requireArity _ _ _ m).bind fun _ m₁ hm => ?_
    obtain rfl : m₁ = m := (Eval.quiet_requireArity _ _ _).answer hm
    exact Eval.Halts.deeper fun hc => ih.construct _ _ _ _ (h.deeper hc)
  | _ =>
    rw [LoxLang.call]
    · exact Eval.Prompt.fail m
    all_goals simp

theorem Terminates.invoke_succ (ih : Terminates bound fuel) (line : Nat) (id : FunctionId)
    (arguments : List Value) (m : Machine) (h : m.Fuelled bound (bound + 1) (fuel + 1)) :
    (LoxLang.invoke (fuel + 1) line id arguments).Halts m := by
  rw [LoxLang.invoke]
  refine (Eval.Prompt.view m).bind fun store m₁ hm => ?_
  cases hm
  split
  · exact Eval.Prompt.fail m
  · rename_i f hf
    split
    · exact Eval.prompt_runArrayMethod _ _ _ _ m
    · rename_i d hc
      obtain ⟨hfree, hweight⟩ := h.stored id f d hf hc
      have hframe := Eval.prompt_parameterFrame f.closure d.parameters arguments m
      refine hframe.then (Eval.keeps_parameterFrame _ _ _) h.stored fun frame m₁ hm => ?_
      refine Eval.Halts.bind ?_ fun _ m₂ _ => Eval.prompt_answerOf _ _ _ m₂
      refine Eval.Halts.within (ih.executeAll d.body _ ?_ ?_ ?_)
      · exact d.allLoopFree_body hfree
      · exact d.weightAll_body ▸ hweight
      · have h₁ := (h.next hm (Nat.le_refl _)).part (Nat.le_refl _)
        have hbody := h₁.lighter (d.weightAll_body ▸ hweight)
        exact ⟨hbody.stored, hbody.enough⟩

theorem Terminates.construct_succ (ih : Terminates bound fuel) (line : Nat) (id : ClassId)
    (arguments : List Value) (m : Machine) (h : m.Fuelled bound (bound + 2) (fuel + 1)) :
    (LoxLang.construct (fuel + 1) line id arguments).Halts m := by
  rw [LoxLang.construct]
  refine (Eval.Prompt.update m).bind fun object m₁ hm => ?_
  have hm₁ : Kept (Declaration.Bounded bound) m m₁ := by
    cases hm
    exact ⟨rfl, rfl, rfl, m.store.grows_addObject _, h.stored.of_functions rfl⟩
  refine (Eval.Prompt.view m₁).bind fun store _ hm => ?_
  cases hm
  split
  · exact Eval.Prompt.ret _ m₁
  · rename_i method _
    have hbind := Eval.prompt_bindMethod method object m₁
    refine hbind.then (Eval.keeps_bindMethod _ _) hm₁.stored fun ready m₂ hm₂ => ?_
    have h₂ := (h.next (hm₁.trans hm₂) (Nat.le_refl _)).part (Nat.le_refl _)
    exact (ih.invoke line ready arguments m₂ h₂).bind fun _ m₃ _ => Eval.Prompt.ret _ m₃

theorem Terminates.render_succ (ih : Terminates bound fuel) (line : Nat) (value : Value)
    (m : Machine) (h : m.Fuelled bound 0 (fuel + 1)) :
    (LoxLang.render (fuel + 1) line value).Halts m := by
  cases value with
  | object object =>
    rw [LoxLang.render]
    refine (Eval.Prompt.view m).bind fun store _ hm => ?_
    cases hm
    split
    · exact Eval.Prompt.ret _ m
    · rename_i method _
      split
      · have hbind := Eval.prompt_bindMethod method object m
        refine hbind.then (Eval.keeps_bindMethod _ _) h.stored fun ready m₁ hm₁ => ?_
        refine Eval.Halts.deeper fun hc => ?_
        have h₁ := (h.next hm₁ (Nat.le_refl _)).deeper hc
        have hanswer := ih.invoke line ready [] _ (h₁.lighter (by omega))
        have keeps := preserves (Declaration.hereditary_bounded bound) fuel
        refine hanswer.then (keeps.invoke line ready [] _) h₁.stored fun answer m₂ hm₂ => ?_
        exact ih.render line answer m₂ (h₁.next hm₂ (by omega))
      · exact Eval.Prompt.ret _ m
  | _ =>
    rw [LoxLang.render]
    · exact Eval.Prompt.bind Eval.Prompt.view (fun _ => Eval.Prompt.ret _) m
    · simp

theorem Terminates.execute_succ (ih : Terminates bound fuel) (s : Stmt) (m : Machine)
    (hs : s.LoopFree) (hw : s.weight ≤ bound) (h : m.Fuelled bound s.weight (fuel + 1)) :
    (LoxLang.execute (fuel + 1) s).Halts m := by
  have keeps := preserves (Declaration.hereditary_bounded bound) fuel
  cases s with
  | expression value =>
    rw [LoxLang.execute]
    have hvalue := ih.evaluate value m (h.part (by simp only [Stmt.weight]; omega))
    exact hvalue.bind fun _ m₁ _ => Eval.Prompt.ret _ m₁
  | print value =>
    simp only [Stmt.weight] at h
    rw [LoxLang.execute]
    have hvalue := ih.evaluate value m (h.part (by omega))
    refine hvalue.then (keeps.evaluate value m) h.stored fun answer m₁ hm => ?_
    have hanswer := ih.render value.line answer m₁ ((h.next hm (Nat.le_refl _)).part (by omega))
    refine hanswer.bind fun _ m₂ _ => ?_
    exact Eval.Prompt.bind (Eval.prompt_emit _) (fun _ => Eval.Prompt.ret _) m₂
  | declareVar name initializer =>
    have hdefine : ∀ value m₁, (do Eval.define name.lexeme value; return .normal : Eval Ending).Halts m₁ :=
      fun value => Eval.Prompt.bind (Eval.prompt_define _ _) fun _ => Eval.Prompt.ret _
    cases initializer with
    | none =>
      rw [LoxLang.execute]
      exact (Eval.Prompt.ret _ m).bind fun value m₁ _ => hdefine value m₁
    | some value =>
      rw [LoxLang.execute]
      have hvalue := ih.evaluate value m (h.part (by simp only [Stmt.weight, Expr.weightOption]; omega))
      exact hvalue.bind fun value m₁ _ => hdefine value m₁
  | block body =>
    simp only [Stmt.weight] at h hw
    rw [LoxLang.execute]
    refine (Eval.prompt_innerFrame m).then Eval.keeps_innerFrame h.stored fun frame m₁ hm => ?_
    have h₁ : m₁.Fuelled bound (Stmt.weightAll body) fuel :=
      (h.next hm (Nat.le_refl _)).part (by omega)
    exact Eval.Halts.within (ih.executeAll body _ hs (by omega) ⟨h₁.stored, h₁.enough⟩)
  | branch condition thenBranch elseBranch =>
    cases elseBranch with
    | none =>
      simp only [Stmt.weight] at h hw
      rw [LoxLang.execute]
      have hcondition := ih.evaluate condition m (h.part (by omega))
      refine hcondition.then (keeps.evaluate condition m) h.stored fun _ m₁ hm => ?_
      have h₁ := h.next hm (Nat.le_refl _)
      split
      · exact ih.execute thenBranch m₁ hs (by omega) (h₁.part (by omega))
      · exact Eval.Prompt.ret _ m₁
    | some elseBranch =>
      simp only [Stmt.weight] at h hw
      rw [LoxLang.execute]
      have hcondition := ih.evaluate condition m (h.part (by omega))
      refine hcondition.then (keeps.evaluate condition m) h.stored fun _ m₁ hm => ?_
      have h₁ := h.next hm (Nat.le_refl _)
      split
      · exact ih.execute thenBranch m₁ hs.1 (by omega) (h₁.part (by omega))
      · exact ih.execute elseBranch m₁ hs.2 (by omega) (h₁.part (by omega))
  | loop initializer condition increment body => exact hs.elim
  | declareFunction d =>
    rw [LoxLang.execute]
    refine Eval.Prompt.bind Eval.Prompt.view (fun _ => ?_) m
    refine Eval.Prompt.bind Eval.Prompt.update fun _ => ?_
    exact Eval.Prompt.bind (Eval.prompt_define _ _) fun _ => Eval.Prompt.ret _
  | returnWith keyword value =>
    cases value with
    | none =>
      rw [LoxLang.execute]
      exact Eval.Prompt.ret _ m
    | some value =>
      rw [LoxLang.execute]
      have hvalue := ih.evaluate value m (h.part (by simp only [Stmt.weight, Expr.weightOption]; omega))
      exact hvalue.bind fun _ m₁ _ => Eval.Prompt.ret _ m₁
  | breakLoop | continueLoop =>
    rw [LoxLang.execute]
    exact Eval.Prompt.ret _ m
  | declareClass name base ds =>
    rw [LoxLang.execute]
    exact Eval.Prompt.bind (Eval.prompt_declareClass _ _ _) (fun _ => Eval.Prompt.ret _) m

theorem Terminates.executeAll_succ (ih : Terminates bound fuel) (body : List Stmt) (m : Machine)
    (hs : Stmt.AllLoopFree body) (hw : Stmt.weightAll body ≤ bound)
    (h : m.Fuelled bound (Stmt.weightAll body) (fuel + 1)) :
    (LoxLang.executeAll (fuel + 1) body).Halts m := by
  have keeps := preserves (Declaration.hereditary_bounded bound) fuel
  cases body with
  | nil =>
    rw [LoxLang.executeAll]
    exact Eval.Prompt.ret _ m
  | cons s rest =>
    simp only [Stmt.weightAll] at h hw
    rw [LoxLang.executeAll]
    have hdeclared := s.declared_bounded hs.1 (by omega : s.weight ≤ bound)
    have hs₁ := ih.execute s m hs.1 (by omega) (h.part (by omega))
    refine hs₁.then (keeps.execute s m hdeclared) h.stored fun ending m₁ hm => ?_
    cases ending with
    | normal =>
      exact ih.executeAll rest m₁ hs.2 (by omega) ((h.next hm (Nat.le_refl _)).part (by omega))
    | _ => exact Eval.Prompt.ret _ m₁

theorem Machine.Fuelled.absurd {m : Machine} {weight : Nat} {p : Prop}
    (h : m.Fuelled bound weight 0) : p := by
  have henough := h.enough
  rw [callFuel] at henough
  omega

theorem terminates (bound fuel : Nat) : Terminates bound fuel := by
  -- On the fuel. Without any, the machine could not be fuelled.
  induction fuel with
  | zero =>
    exact
      { evaluate := fun _ _ h => h.absurd
        evaluateAll := fun _ _ h => h.absurd
        call := fun _ _ _ _ h => h.absurd
        invoke := fun _ _ _ _ h => h.absurd
        construct := fun _ _ _ _ h => h.absurd
        render := fun _ _ _ h => h.absurd
        execute := fun _ _ _ _ h => h.absurd
        executeAll := fun _ _ _ _ h => h.absurd }
  | succ fuel ih =>
    exact
      { evaluate := ih.evaluate_succ
        evaluateAll := ih.evaluateAll_succ
        call := ih.call_succ
        invoke := ih.invoke_succ
        construct := ih.construct_succ
        render := ih.render_succ
        execute := ih.execute_succ
        executeAll := ih.executeAll_succ }

end

end LoxLang
