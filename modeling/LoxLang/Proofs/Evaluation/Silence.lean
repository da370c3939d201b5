import LoxLang.Proofs.Evaluation.Ensures

set_option autoImplicit false

namespace LoxLang

def Machine.onto (m : Machine) (sink : Sink) : Machine := { m with sink }

def Outcome.through {α : Type} (o : Outcome α) (g : Machine → Machine) : Outcome α :=
  match o with
  | .answer v m => .answer v (g m)
  | .fault f m => .fault f (g m)
  | .exhausted => .exhausted

namespace Eval

/-- With another sink the computation does the same, and nothing to the sink. -/
def Silent {α : Type} (act : Eval α) (m : Machine) : Prop :=
  ∀ sink, act (m.onto sink) = (act m).through fun x => x.onto sink

namespace Silent

variable {α β : Type} {m : Machine}

theorem ret (v : α) : (pure v : Eval α).Silent m := fun _ => rfl

theorem fail (line : Nat) (cause : RuntimeError) : (fail line cause : Eval α).Silent m := fun _ => rfl

theorem outOfFuel : (outOfFuel : Eval α).Silent m := fun _ => rfl

theorem ofExcept (line : Nat) (x : Except RuntimeError α) : (ofExcept line x).Silent m := by
  cases x with
  | ok v => exact ret v
  | error cause => exact fail line cause

theorem update (f : Store → α × Store) : (update f).Silent m := fun _ => rfl

theorem bind {act : Eval α} {next : α → Eval β} (h : act.Silent m)
    (hnext : ∀ v m', (next v).Silent m') : (act >>= next).Silent m := by
  intro sink
  change andThen act next (m.onto sink) = (andThen act next m).through _
  rw [andThen, h sink, andThen]
  cases act m with
  | answer v m' => exact hnext v m' sink
  | fault f m' => rfl
  | exhausted => rfl

theorem viewThen {next : α → Eval β} {f : Machine → α} (hf : ∀ sink, f (m.onto sink) = f m)
    (h : (next (f m)).Silent m) : (Eval.view f >>= next).Silent m := by
  intro sink
  change next (f (m.onto sink)) (m.onto sink) = (next (f m) m).through _
  rw [hf, h sink]

theorem keeps_sink {act : Eval α} (h : act.Silent m) :
    act.Ensures m (fun _ m' => m'.sink = m.sink) fun _ m' => m'.sink = m.sink := by
  have hself : act m = (act m).through fun x => x.onto m.sink := h m.sink
  refine .intro (fun v m' hv => ?_) fun f m' hf => ?_
  · rw [hv] at hself
    injection hself with _ hm
    rw [hm]
    rfl
  · rw [hf] at hself
    injection hself with _ hm
    rw [hm]
    rfl

end Silent

variable {m : Machine}

theorem silent_requireArity (line arity given : Nat) : (requireArity line arity given).Silent m := by
  unfold requireArity
  split
  · exact .ret ()
  · exact .fail _ _

theorem silent_innerFrame : innerFrame.Silent m := .viewThen (fun _ => rfl) (.update _)

theorem silent_define (name : String) (value : Value) : (define name value).Silent m :=
  .viewThen (fun _ => rfl) (.update _)

theorem silent_bindMethod (method : FunctionId) (object : ObjectId) :
    (bindMethod method object).Silent m := .update _

theorem silent_lookUp (target : Reference) : (lookUp target).Silent m := by
  intro sink
  cases h : m.hops[target.id]? with
  | some distance =>
    rw [lookUp_of_some h, lookUp_of_some (m := m.onto sink) h]
    exact Silent.ofExcept _ _ sink
  | none =>
    rw [lookUp_of_none h, lookUp_of_none (m := m.onto sink) h]
    exact Silent.ofExcept _ _ sink

theorem silent_assign (target : Reference) (value : Value) : (assign target value).Silent m := by
  unfold assign
  refine .viewThen (fun _ => rfl) (.viewThen (fun _ => rfl) ?_)
  split <;> exact .viewThen (fun _ => rfl) (.bind (.ofExcept _ _) fun _ _ => .update _)

theorem silent_property (object : Value) (name : Token) : (property object name).Silent m := by
  unfold property
  split
  · refine .viewThen (fun _ => rfl) (.bind (.ofExcept _ _) fun property m' => ?_)
    split
    · exact .ret _
    · exact .bind (silent_bindMethod _ _) fun _ _ => .ret _
  · exact .fail _ _

theorem silent_superMethod (keyword : Reference) (method : Token) :
    (superMethod keyword method).Silent m := by
  unfold superMethod
  refine .viewThen (fun _ => rfl) ?_
  split
  · exact .fail _ _
  · refine .viewThen (fun _ => rfl) (.viewThen (fun _ => rfl) ?_)
    refine .bind (.ofExcept _ _) fun superclass m₁ => ?_
    split
    · refine .bind (.ofExcept _ _) fun this m₂ => ?_
      split
      · split
        · exact .bind (silent_bindMethod _ _) fun _ _ => .ret _
        · exact .fail _ _
      · exact .fail _ _
    · exact .fail _ _

theorem silent_runNative (line : Nat) (function : Native) (arguments : List Value) :
    (runNative line function arguments).Silent m := by
  unfold runNative
  split
  · exact .bind (fun _ => rfl) fun _ _ => .ret _
  · refine .bind (fun _ => rfl) fun text m' => ?_
    split
    · exact .ret _
    · exact .ret _
    · exact .fail _ _
  · exact .ofExcept _ _
  · exact .fail _ _

theorem silent_runArrayMethod (line : Nat) (f : Function) (method : ArrayMethod)
    (arguments : List Value) : (runArrayMethod line f method arguments).Silent m := by
  unfold runArrayMethod
  refine .viewThen (fun _ => rfl) ?_
  split
  · exact .fail _ _
  · refine .viewThen (fun _ => rfl) (.bind (.ofExcept _ _) fun _ _ => ?_)
    exact .bind (.update _) fun _ _ => .ret _

theorem silent_parameterFrame (closure : FrameId) (parameters : List Token) (arguments : List Value) :
    (parameterFrame closure parameters arguments).Silent m :=
  .bind (.update _) fun _ _ => .bind (.update _) fun _ _ => .ret _

theorem silent_answerOf (line : Nat) (f : Function) (ending : Ending) :
    (answerOf line f ending).Silent m := by
  intro sink
  cases h : f.initializes with
  | true =>
    simp only [answerOf, h, if_true]
    exact Silent.ofExcept _ _ sink
  | false => cases ending <;> simp only [answerOf, h] <;> rfl

theorem silent_superclassOf (base : Option Reference) : (superclassOf base).Silent m := by
  unfold superclassOf
  cases base with
  | none => exact .ret none
  | some target =>
    refine .bind (silent_lookUp target) fun v _ => ?_
    cases v <;> first | exact .ret _ | exact .fail _ _

theorem silent_methodFrame (superclass : Option ClassId) : (methodFrame superclass).Silent m := by
  cases superclass with
  | none => exact fun _ => rfl
  | some id => exact .bind silent_innerFrame fun _ _ => .bind (.update _) fun _ _ => .ret _

theorem silent_makeMethods (closure : FrameId) (ds : List Declaration)
    (methods : Dictionary FunctionId) : (makeMethods closure ds methods).Silent m := by
  induction ds generalizing methods m with
  | nil => exact .ret methods
  | cons d rest ih => exact .bind (.update _) fun _ _ => ih _

theorem silent_declareClass (name : Token) (base : Option Reference) (ds : List Declaration) :
    (declareClass name base ds).Silent m := by
  unfold declareClass
  refine .bind (silent_superclassOf base) fun _ _ => .bind (silent_define _ _) fun _ _ => ?_
  refine .bind (silent_methodFrame _) fun _ _ => .bind (silent_makeMethods _ _ _) fun _ _ => ?_
  refine .bind (.update _) fun _ _ => .viewThen (fun _ => rfl) ?_
  exact .bind (.ofExcept _ _) fun _ _ => .update _

end Eval

end LoxLang
