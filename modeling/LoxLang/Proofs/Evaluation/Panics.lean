import LoxLang.Proofs.Evaluation.Soundness
import Mathlib.Data.Nat.PSub

/-!
Steps of the evaluator that have a result only for some operands.

A position is taken from a list of arguments or from the elements of an array, and one is taken from a hop
count or from the counter of calls. Where there is no such position, or nothing to take one from, there is
no result: that is a panic. The functions that have such a step are written with it here, over the
evaluator itself for all that they enter. An activity that sits in a context has the arguments that its
function takes and `super` two environments up, so its step has the result that it has in the evaluator.
-/

set_option autoImplicit false

namespace LoxLang

/-- A computation that may panic. -/
def Checked (α : Type) : Type := Machine → Option (Outcome α)

namespace Checked

variable {α β : Type}

def ofEval (act : Eval α) : Checked α := fun m => some (act m)

/-- A step that may have no result. -/
def step (result : Option α) : Checked α := fun m => result.map fun value => .answer value m

def andThen (act : Checked α) (next : α → Checked β) : Checked β := fun m =>
  match act m with
  | none => none
  | some (.answer value m) => next value m
  | some (.fault fault m) => some (.fault fault m)
  | some .exhausted => some .exhausted

instance : Monad Checked where
  pure value := ofEval (pure value)
  bind := andThen

instance : MonadLift Eval Checked := ⟨ofEval⟩

def deeper (line : Nat) (act : Checked α) : Checked α := fun m =>
  if callLimit ≤ m.calls then some (.fault (.runtime line .stackOverflow) m)
  else
    match act m.deeper with
    | none => none
    | some (.answer value after) =>
      (after.calls.psub 1).map fun calls => .answer value { after with calls }
    | some (.fault fault after) =>
      (after.calls.psub 1).map fun calls => .fault fault { after with calls }
    | some .exhausted => some .exhausted

end Checked

open Eval

def setAt? (elements : Array Value) (position : Nat) (value : Value) : Option (Array Value) :=
  if h : position < elements.size then some (elements.set position value h) else none

def ArrayMethod.run? (method : ArrayMethod) (elements : Array Value) (arguments : List Value) :
    Option (Except RuntimeError (Value × Array Value)) :=
  match method with
  | .init => some (.ok (.nil, #[]))
  | .size => some (.ok (.number (.ofNat elements.size), elements))
  | .get => do
    match (← arguments[0]?).position elements.size with
    | .ok position => return .ok (← elements[position]?, elements)
    | .error cause => return .error cause
  | .set => do
    match (← arguments[0]?).position elements.size with
    | .ok position => return .ok (.nil, ← setAt? elements position (← arguments[1]?))
    | .error cause => return .error cause
  | .append => do
    return .ok (.nil, elements.push (← arguments[0]?))
  | .pop =>
    match elements.back? with
    | some value => some (.ok (value, elements.pop))
    | none => some (.error .popFromEmpty)

namespace Checked

def runNative (line : Nat) (function : Native) (arguments : List Value) : Checked Value :=
  match function with
  | .clock | .input => ofEval (Eval.runNative line function arguments)
  | .parseNumber => do
    let value ← step arguments[0]?
    ofExcept line (parseNumber value)

def runArrayMethod (line : Nat) (f : Function) (method : ArrayMethod) (arguments : List Value) :
    Checked Value := do
  match (← view Machine.store).receiver? f.closure with
  | none => fail line (.methodNotBound method.name)
  | some this =>
    let elements ← view fun m => m.store.elements this
    let (answer, elements) ← ofExcept line (← step (method.run? elements arguments))
    update fun s => ((), s.modifyElements this fun _ => elements)
    return if f.initializes then .object this else answer

def superMethod (keyword : Reference) (method : Token) : Checked Value := do
  let line := keyword.name.line
  match (← view Machine.hops)[keyword.id]? with
  | none => fail line .superOutsideClass
  | some distance =>
    let cursor ← view Machine.cursor
    let store ← view Machine.store
    match ← ofExcept line (store.lookupAt cursor distance keyword.name.lexeme) with
    | .classValue superclass =>
      match ← ofExcept line (store.lookupAt cursor (← step (distance.psub 1)) "this") with
      | .object this =>
        match store.method? superclass method.lexeme with
        | some function => return .function (← bindMethod function this)
        | none => fail method.line (.undefinedProperty method.lexeme)
      | _ => fail line .thisNotObject
    | _ => fail line .superclassNotClass

def call (fuel line : Nat) (callee : Value) (arguments : List Value) : Checked Value := do
  match callee with
  | .native function =>
    requireArity line function.arity arguments.length
    deeper line (runNative line function arguments)
  | .function id =>
    requireArity line ((← view Machine.store).functionArity id) arguments.length
    deeper line (ofEval (LoxLang.invoke fuel line id arguments))
  | .classValue id =>
    requireArity line ((← view Machine.store).classArity id) arguments.length
    deeper line (ofEval (LoxLang.construct fuel line id arguments))
  | _ => fail line .notCallable

def invoke (fuel line : Nat) (id : FunctionId) (arguments : List Value) : Checked Value := do
  match (← view Machine.store).function? id with
  | none => fail line .notCallable
  | some f =>
    match f.code with
    | .array method => runArrayMethod line f method arguments
    | .declared d =>
      let frame ← parameterFrame f.closure d.parameters arguments
      let ending ← within frame (executeAll fuel d.body)
      answerOf line f ending

def render (fuel line : Nat) (value : Value) : Checked String := do
  let store ← view Machine.store
  match value with
  | .object object =>
    match store.methodOf? object toStringName with
    | none => return store.text (.object object)
    | some method =>
      if store.functionArity method = 0 then
        let bound ← bindMethod method object
        deeper line (ofEval do
          let answer ← LoxLang.invoke fuel line bound []
          LoxLang.render fuel line answer)
      else return store.text (.object object)
  | _ => return store.text value

end Checked

/-- The activity does not panic: the step of its own that may have no result has the evaluator's. -/
def Activity.PanicFree : Activity → Prop
  | ⟨fuel + 1, .evaluate (.super keyword method), m⟩ =>
    Checked.superMethod keyword method m = some (evaluate (fuel + 1) (.super keyword method) m)
  | ⟨fuel + 1, .call line callee arguments, m⟩ =>
    Checked.call fuel line callee arguments m = some (call (fuel + 1) line callee arguments m)
  | ⟨fuel + 1, .invoke line id arguments, m⟩ =>
    Checked.invoke fuel line id arguments m = some (invoke (fuel + 1) line id arguments m)
  | ⟨fuel + 1, .render line value, m⟩ =>
    Checked.render fuel line value m = some (render (fuel + 1) line value m)
  | _ => True

theorem Value.position_lt {index : Value} {length i : Nat} (h : index.position length = .ok i) :
    i < length := by
  unfold Value.position at h
  split at h
  · split at h
    · cases h
      simp_all
    · cases h
  · cases h

/-- With as many arguments as it takes, a method of `array` has all the positions that it uses. -/
theorem ArrayMethod.run?_eq {method : ArrayMethod} {arguments : List Value} (elements : Array Value)
    (h : method.arity = arguments.length) :
    method.run? elements arguments = some ((method.answer elements arguments).map fun answer =>
      (answer, method.change arguments elements)) := by
  cases method with
  | init | size =>
    obtain rfl := List.length_eq_zero_iff.mp h.symm
    rfl
  | pop =>
    obtain rfl := List.length_eq_zero_iff.mp h.symm
    simp only [run?, answer]
    cases elements.back? <;> rfl
  | get =>
    obtain ⟨index, rfl⟩ := List.length_eq_one_iff.mp h.symm
    cases hposition : index.position elements.size with
    | ok i =>
      have hi := Value.position_lt hposition
      simp [run?, answer, change, hposition, hi, Except.map, Array.getD]
    | error cause => simp [run?, answer, hposition, Except.map]
  | set =>
    obtain ⟨index, value, rfl⟩ := List.length_eq_two.mp h.symm
    cases hposition : index.position elements.size with
    | ok i =>
      have hi := Value.position_lt hposition
      simp [run?, answer, change, hposition, setAt?, hi, Array.setIfInBounds, Except.map]
    | error cause => simp [run?, answer, hposition, Except.map]
  | append =>
    obtain ⟨value, rfl⟩ := List.length_eq_one_iff.mp h.symm
    rfl

theorem Store.modifyElements_elements (s : Store) (object : ObjectId) (f : Array Value → Array Value) :
    s.modifyElements object (fun _ => f (s.elements object)) = s.modifyElements object f := by
  simp only [modifyElements, modifyObject, elements, object?]
  congr 1
  ext i : 1
  · simp
  · simp only [Array.getElem_modify]
    split
    · rename_i hi hi' hobject
      have hi : i < s.objects.size := by simpa using hi
      simp [hobject, hi]
    · rfl

namespace Checked

variable {α β : Type} {m : Machine}

theorem lift_bind {act : Eval α} {next : α → Checked β} {rest : α → Eval β}
    (h : ∀ value after, act m = .answer value after → next value after = some (rest value after)) :
    (do let value ← ofEval act; next value) m = some ((do let value ← act; rest value) m) := by
  change andThen (ofEval act) next m = some (Eval.andThen act rest m)
  rw [andThen, ofEval, Eval.andThen]
  cases hact : act m with
  | answer value after => exact h value after hact
  | fault | exhausted => rfl

theorem step_bind {result : Option α} {value : α} {next : α → Checked β} (h : result = some value) :
    (do let value ← step result; next value) m = next value m := by
  rw [h]
  rfl

theorem requireArity_bind {line arity given : Nat} {next : Checked β} {rest : Eval β}
    (h : arity = given → next m = some (rest m)) :
    (do let _ ← ofEval (requireArity line arity given); next) m =
      some ((do let _ ← requireArity line arity given; rest) m) := by
  refine lift_bind fun _ after hafter => ?_
  unfold requireArity at hafter
  split at hafter
  · cases hafter
    exact h ‹_›
  · cases hafter

/-- A computation that comes back with the counter of calls it began with can be run one call deeper. -/
theorem deeper_eq {act : Checked α} {run : Eval α} (line : Nat) (h : act m.deeper = some (run m.deeper))
    (hkeeps : run.Keeps AnyFunction m.deeper) :
    deeper line act m = some (Eval.deeper line run m) := by
  have hdeeper : m.deeper = { m with calls := m.calls + 1 } := rfl
  unfold deeper Eval.deeper
  split
  · rfl
  · rw [h, ← hdeeper]
    have hkept := hkeeps (stored_any _)
    cases hrun : run m.deeper with
    | answer value after =>
      have hcalls : after.calls = m.calls + 1 := (hkept.answer hrun).calls
      simp [hcalls]
    | fault fault after =>
      have hcalls : after.calls = m.calls + 1 := (hkept.fault hrun).calls
      simp [hcalls]
    | exhausted => rfl

theorem runNative_eq (line : Nat) {function : Native} {arguments : List Value}
    (h : function.arity = arguments.length) :
    runNative line function arguments m = some (Eval.runNative line function arguments m) := by
  cases function with
  | clock | input => rfl
  | parseNumber =>
    obtain ⟨value, rfl⟩ := List.length_eq_one_iff.mp h.symm
    rfl

theorem runArrayMethod_eq (line : Nat) (f : Function) {method : ArrayMethod} {arguments : List Value}
    (h : method.arity = arguments.length) :
    runArrayMethod line f method arguments m = some (Eval.runArrayMethod line f method arguments m) := by
  refine lift_bind fun store after hstore => ?_
  cases hstore
  cases m.store.receiver? f.closure with
  | none => rfl
  | some this =>
    have hrun := ArrayMethod.run?_eq (m.store.elements this) h
    refine (step_bind hrun).trans ?_
    have hview : view (fun m => method.answer (m.store.elements this) arguments) m =
        .answer (method.answer (m.store.elements this) arguments) m := rfl
    simp only [Eval.bind_of_answer hview]
    cases method.answer (m.store.elements this) arguments with
    | error cause => rfl
    | ok answer =>
      have hstore := m.store.modifyElements_elements this (method.change arguments)
      change some (Outcome.answer (if f.initializes then Value.object this else answer)
        { m with store := m.store.modifyElements this fun _ => _ }) = _
      rw [hstore]
      rfl

theorem superMethod_eq {keyword : Reference} {method : Token} {d : Nat}
    (h : m.hops[keyword.id]? = some (d + 1)) :
    superMethod keyword method m = some (Eval.superMethod keyword method m) := by
  refine lift_bind fun hops after hhops => ?_
  cases hhops
  rw [h]
  refine lift_bind fun cursor after hcursor => ?_
  cases hcursor
  refine lift_bind fun store after hstore => ?_
  cases hstore
  refine lift_bind fun value after hvalue => ?_
  cases value with
  | classValue superclass =>
    have hbelow : (d + 1).psub 1 = some d := rfl
    refine (step_bind hbelow).trans (lift_bind fun this after' hthis => ?_)
    cases this with
    | object this =>
      dsimp only
      cases m.store.method? superclass method.lexeme <;> rfl
    | _ => rfl
  | _ => rfl

theorem invoke_eq (fuel line : Nat) {id : FunctionId} {arguments : List Value}
    (h : m.store.functionArity id = arguments.length) :
    invoke fuel line id arguments m = some (LoxLang.invoke (fuel + 1) line id arguments m) := by
  rw [LoxLang.invoke]
  refine lift_bind fun store after hstore => ?_
  cases hstore
  cases hf : m.store.function? id with
  | none => rfl
  | some f =>
    have harity : f.arity = arguments.length := by simpa only [Store.functionArity, hf] using h
    dsimp only
    cases hcode : f.code with
    | array method =>
      have harity : method.arity = arguments.length := by simpa only [Function.arity, hcode] using harity
      exact runArrayMethod_eq line f harity
    | declared d =>
      refine lift_bind fun frame inside hframe => ?_
      exact lift_bind fun ending after hending => rfl

theorem call_eq (fuel line : Nat) (callee : Value) (arguments : List Value) :
    call fuel line callee arguments m = some (LoxLang.call (fuel + 1) line callee arguments m) := by
  cases callee with
  | native function =>
    rw [LoxLang.call]
    refine requireArity_bind fun harity => ?_
    exact deeper_eq line (runNative_eq line harity) (keeps_runNative line function arguments)
  | function id =>
    rw [LoxLang.call]
    refine lift_bind fun store after hstore => ?_
    cases hstore
    refine requireArity_bind fun harity => ?_
    exact deeper_eq line rfl ((preserves_any fuel).invoke line id arguments _)
  | classValue id =>
    rw [LoxLang.call]
    refine lift_bind fun store after hstore => ?_
    cases hstore
    refine requireArity_bind fun harity => ?_
    exact deeper_eq line rfl ((preserves_any fuel).construct line id arguments _)
  | _ =>
    rw [LoxLang.call]
    · rfl
    all_goals simp

theorem render_eq (fuel line : Nat) (value : Value) :
    render fuel line value m = some (LoxLang.render (fuel + 1) line value m) := by
  cases value with
  | object object =>
    rw [LoxLang.render]
    refine lift_bind fun store after hstore => ?_
    cases hstore
    dsimp only
    cases m.store.methodOf? object toStringName with
    | none => rfl
    | some method =>
      dsimp only
      split
      · refine lift_bind fun bound after hbound => ?_
        refine deeper_eq line rfl (.bind ((preserves_any fuel).invoke line bound [] _) ?_)
        exact fun answer after' _ _ => (preserves_any fuel).render line answer after'
      · rfl
  | _ =>
    rw [LoxLang.render]
    · rfl
    all_goals simp

end Checked

theorem Activity.Sits.panicFree {E : Setting} {a : Activity} {K : Context} (ha : a.Sits E K) : a.PanicFree := by
  unfold PanicFree
  split
  · rename_i fuel keyword method m
    have hknown : E.known ⟨.super, keyword, K.scopes⟩ := ha.known _ (List.mem_singleton.mpr rfl)
    obtain ⟨d, -, -, -, -, hhops, -⟩ := Eval.seat_of_known ha.answers ha.fits hknown
    rw [evaluate]
    exact Checked.superMethod_eq hhops
  · exact Checked.call_eq _ _ _ _
  · exact Checked.invoke_eq _ _ ha.suits.2.1
  · exact Checked.render_eq _ _ _
  · trivial

end LoxLang
