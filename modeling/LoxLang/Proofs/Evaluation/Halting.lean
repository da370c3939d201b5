import Mathlib
import LoxLang.Evaluation

set_option autoImplicit false

namespace LoxLang

namespace Eval

variable {α β : Type} {m : Machine}

def Halts (act : Eval α) (m : Machine) : Prop := act m ≠ .exhausted

/-- The computation runs out of fuel on no machine. -/
def Prompt (act : Eval α) : Prop := ∀ m, act.Halts m

theorem Halts.bind {act : Eval α} {next : α → Eval β} (hact : act.Halts m)
    (hnext : ∀ v m', act m = .answer v m' → (next v).Halts m') : (act >>= next).Halts m := by
  change andThen act next m ≠ .exhausted
  unfold andThen
  cases h : act m with
  | answer v m' => exact hnext v m' h
  | fault f m' => simp
  | exhausted => exact absurd h hact

theorem Halts.within {act : Eval α} {frame : FrameId} (h : act.Halts { m with cursor := frame }) :
    (within frame act).Halts m := by
  unfold Halts Eval.within
  cases hv : act { m with cursor := frame } with
  | answer v m' => simp
  | fault f m' => simp
  | exhausted => exact absurd hv h

theorem Halts.deeper {act : Eval α} {line : Nat}
    (h : m.calls < callLimit → act.Halts { m with calls := m.calls + 1 }) :
    (deeper line act).Halts m := by
  unfold Halts Eval.deeper
  split
  · simp
  · cases hv : act { m with calls := m.calls + 1 } with
    | answer v m' => simp
    | fault f m' => simp
    | exhausted => exact absurd hv (h (by omega))

namespace Prompt

theorem ret (v : α) : (pure v : Eval α).Prompt := fun m h => by cases h

theorem fail {line : Nat} {cause : RuntimeError} : (fail line cause : Eval α).Prompt :=
  fun m h => by cases h

theorem ofExcept {line : Nat} {x : Except RuntimeError α} : (ofExcept line x).Prompt := by
  cases x with
  | ok v => exact ret v
  | error cause => exact fail

theorem view {f : Machine → α} : (view f).Prompt := fun m h => by cases h

theorem update {f : Store → α × Store} : (update f).Prompt := fun m h => by cases h

theorem bind {act : Eval α} {next : α → Eval β} (h : act.Prompt) (hnext : ∀ v, (next v).Prompt) :
    (act >>= next).Prompt :=
  fun m => (h m).bind fun v m' _ => hnext v m'

end Prompt

theorem prompt_requireArity (line arity given : Nat) : (requireArity line arity given).Prompt := by
  unfold requireArity
  split
  · exact Prompt.ret _
  · exact Prompt.fail

theorem prompt_lookUp (target : Reference) : (lookUp target).Prompt := by
  intro m
  unfold Halts lookUp
  split <;> exact Prompt.ofExcept m

theorem prompt_bindIn (frame : FrameId) (name : String) (value : Value) :
    (bindIn frame name value).Prompt := Prompt.update

theorem prompt_assign (target : Reference) (value : Value) : (assign target value).Prompt := by
  unfold assign
  refine Prompt.bind Prompt.view fun _ => Prompt.bind Prompt.view fun _ => ?_
  split <;>
    exact Prompt.bind Prompt.view fun _ =>
      Prompt.bind Prompt.ofExcept fun _ => prompt_bindIn _ _ _

theorem prompt_define (name : String) (value : Value) : (define name value).Prompt :=
  Prompt.bind Prompt.view fun _ => prompt_bindIn _ _ _

theorem prompt_innerFrame : innerFrame.Prompt := Prompt.bind Prompt.view fun _ => Prompt.update

theorem prompt_bindMethod (method : FunctionId) (object : ObjectId) :
    (bindMethod method object).Prompt := Prompt.update

theorem prompt_emit (line : String) : (emit line).Prompt := by
  intro m
  unfold Halts emit
  split <;> simp

theorem prompt_runNative (line : Nat) (function : Native) (arguments : List Value) :
    (runNative line function arguments).Prompt := by
  unfold runNative
  split
  · exact Prompt.bind (fun m h => by cases h) fun _ => Prompt.ret _
  · refine Prompt.bind (fun m h => by cases h) fun v => ?_
    split
    · exact Prompt.ret _
    · exact Prompt.ret _
    · exact Prompt.fail
  · exact Prompt.ofExcept
  · exact Prompt.fail

theorem prompt_runArrayMethod (line : Nat) (f : Function) (method : ArrayMethod)
    (arguments : List Value) : (runArrayMethod line f method arguments).Prompt := by
  unfold runArrayMethod
  refine Prompt.bind Prompt.view fun _ => ?_
  split
  · exact Prompt.fail
  · refine Prompt.bind Prompt.view fun _ => Prompt.bind Prompt.ofExcept fun _ => ?_
    exact Prompt.bind Prompt.update fun _ => Prompt.ret _

theorem prompt_parameterFrame (closure : FrameId) (parameters : List Token)
    (arguments : List Value) : (parameterFrame closure parameters arguments).Prompt := by
  unfold parameterFrame
  refine Prompt.bind Prompt.update fun _ => ?_
  exact Prompt.bind Prompt.update fun _ => Prompt.ret _

theorem prompt_answerOf (line : Nat) (f : Function) (ending : Ending) :
    (answerOf line f ending).Prompt := by
  intro m
  unfold Halts answerOf
  split
  · exact Prompt.ofExcept m
  · cases ending <;> simp

theorem prompt_superMethod (keyword : Reference) (method : Token) :
    (superMethod keyword method).Prompt := by
  unfold superMethod
  refine Prompt.bind Prompt.view fun _ => ?_
  split
  · exact Prompt.fail
  · refine Prompt.bind Prompt.view fun _ => Prompt.bind Prompt.view fun _ => ?_
    refine Prompt.bind Prompt.ofExcept fun _ => ?_
    split
    · refine Prompt.bind Prompt.ofExcept fun _ => ?_
      split
      · split
        · exact Prompt.bind Prompt.update fun _ => Prompt.ret _
        · exact Prompt.fail
      · exact Prompt.fail
    · exact Prompt.fail

theorem prompt_property (object : Value) (name : Token) : (property object name).Prompt := by
  unfold property
  split
  · refine Prompt.bind Prompt.view fun _ => Prompt.bind Prompt.ofExcept fun _ => ?_
    split
    · exact Prompt.ret _
    · exact Prompt.bind Prompt.update fun _ => Prompt.ret _
  · exact Prompt.fail

theorem prompt_makeMethods (closure : FrameId) (ds : List Declaration)
    (methods : Dictionary FunctionId) : (makeMethods closure ds methods).Prompt := by
  induction ds generalizing methods with
  | nil => exact Prompt.ret _
  | cons d rest ih => exact Prompt.bind Prompt.update fun _ => ih _

theorem prompt_declareClass (name : Token) (base : Option Reference) (ds : List Declaration) :
    (declareClass name base ds).Prompt := by
  have hbase : (superclassOf base).Prompt := by
    unfold superclassOf
    cases base with
    | none => exact Prompt.ret _
    | some target =>
      refine Prompt.bind (prompt_lookUp target) fun v => ?_
      cases v <;> first | exact Prompt.ret _ | exact Prompt.fail
  have hframe : ∀ superclass, (methodFrame superclass).Prompt := by
    rintro (_ | superclass)
    · exact Prompt.view
    · refine Prompt.bind prompt_innerFrame fun _ => ?_
      exact Prompt.bind (prompt_bindIn _ _ _) fun _ => Prompt.ret _
  unfold declareClass
  refine Prompt.bind hbase fun _ => Prompt.bind (prompt_define _ _) fun _ => ?_
  refine Prompt.bind (hframe _) fun _ => Prompt.bind (prompt_makeMethods _ _ _) fun _ => ?_
  refine Prompt.bind Prompt.update fun _ => Prompt.bind Prompt.view fun _ => ?_
  exact Prompt.bind Prompt.ofExcept fun _ => prompt_bindIn _ _ _

end Eval

end LoxLang
