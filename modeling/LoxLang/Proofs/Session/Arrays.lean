import LoxLang.Proofs.Session.Methods
import LoxLang.Proofs.Store.Lists

set_option autoImplicit false

namespace LoxLang

namespace Store

variable {s s' : Store}

def HasArray (s : Store) : Prop :=
  ∃ c, s.class? arrayClass = some c ∧ ∀ method : ArrayMethod, ∃ id closure,
    c.methods.get? method.name = some id ∧
      s.function? id = some ⟨.array method, closure, decide (method = .init)⟩

theorem hasArray_start : start.HasArray := by
  refine ⟨_, rfl, fun method => ?_⟩
  cases method <;> exact ⟨_, _, rfl, rfl⟩

theorem HasArray.grow (h : s.HasArray) (hs : s.Grows s') : s'.HasArray := by
  obtain ⟨c, hc, hmethods⟩ := h
  refine ⟨c, hs.classes _ _ hc, fun method => ?_⟩
  obtain ⟨id, closure, hid, hfunction⟩ := hmethods method
  exact ⟨id, closure, hid, hs.functions _ _ hfunction⟩

/-- The class is `array`, or it has no method of the name itself and inherits that of `array`. -/
inductive Inherits (s : Store) (name : String) : ClassId → Prop
  | array : Inherits s name arrayClass
  | derived {C B : ClassId} {c : Class} :
    s.class? C = some c → c.methods.get? name = none → c.superclass = some B → Inherits s name B →
    Inherits s name C

theorem Inherits.descends {name : String} {C : ClassId} (h : s.Inherits name C) :
    s.Descends C arrayClass := by
  induction h with
  | array => exact .self _
  | derived hc _ hB _ ih => exact .up hc hB ih

theorem Inherits.of_classes {name : String} {C : ClassId} (h : s.Inherits name C)
    (hclasses : s'.classes = s.classes) : s'.Inherits name C := by
  induction h with
  | array => exact .array
  | derived hc hname hB _ ih =>
    refine .derived ?_ hname hB ih
    rwa [class?, hclasses]

variable (s) in
def Ordered : Prop :=
  ∀ C c B, s.class? C = some c → c.superclass = some B → B.index < C.index

theorem Inherits.method? {name : String} {C : ClassId} (h : s.Inherits name C) (hordered : s.Ordered) :
    s.method? C name = s.method? arrayClass name := by
  induction h with
  | array => rfl
  | derived hc hname hB _ ih =>
    rw [method?_eq hordered hc, hname, hB]
    simpa using ih

variable (s) in
theorem objects_bindMethod (method : FunctionId) (object : ObjectId) :
    (s.bindMethod method object).2.objects = s.objects := by
  unfold bindMethod
  split <;> rfl

variable (s) in
theorem classes_bindMethod (method : FunctionId) (object : ObjectId) :
    (s.bindMethod method object).2.classes = s.classes := by
  unfold bindMethod
  split <;> rfl

variable (s) in
theorem lists_bindMethod (method : FunctionId) (object : ObjectId) :
    (s.bindMethod method object).2.lists = s.lists := by
  funext id
  simp [lists, elements, object?, objects_bindMethod]

theorem BindsMethod.code {f : Function} {method : ArrayMethod} {object : ObjectId}
    (hbinds : s.BindsMethod f arrayClass method.name object) (harray : s.HasArray) :
    f.code = .array method ∧ f.initializes = decide (method = .init) := by
  obtain ⟨c, hc, hmethods⟩ := harray
  obtain ⟨id, closure, hid, hfunction⟩ := hmethods method
  obtain ⟨d, unbound, g, hd, hunbound, hg, hcode, hinitializes, -⟩ := hbinds.method
  obtain rfl : c = d := Option.some.inj (hc.symm.trans hd)
  obtain rfl : id = unbound := Option.some.inj (hid.symm.trans hunbound)
  obtain rfl := Option.some.inj (hfunction.symm.trans hg)
  exact ⟨hcode, hinitializes⟩

end Store

structure ArrayCall where
  object : ObjectId
  method : ArrayMethod
  arguments : List Value
  line : Nat
  callee : Option FunctionId

namespace ArrayCall

open Eval

def bound (c : ArrayCall) : Eval Value :=
  match c.callee with
  | none => property (.object c.object) ⟨.identifier, c.method.name, c.line⟩
  | some id => ret (.function id)

def run (fuel : Nat) (c : ArrayCall) : Eval Value := do
  call fuel c.line (← c.bound) c.arguments

end ArrayCall

/-- The call reaches the method of `array`. Neither a field nor a method of a class in between hides it from
the object, or else the function was made by binding it. -/
def Store.Offers (s : Store) (c : ArrayCall) : Prop :=
  match c.callee with
  | none => ∃ o, s.object? c.object = some o ∧ o.fields.get? c.method.name = none ∧
      s.Inherits c.method.name o.classId
  | some id => ∃ f, s.function? id = some f ∧ s.BindsMethod f arrayClass c.method.name c.object

def Outcome.ended {α : Type} : Outcome α → Option (Except Fault α × Machine)
  | .answer value after => some (.ok value, after)
  | .fault cause after => some (.error cause, after)
  | .exhausted => none

def Eval.performAll (fuel : Nat) : List ArrayCall → Machine →
    Option (List (Except Fault Value) × Machine)
  | [], m => some ([], m)
  | c :: rest, m => do
    let (result, after) ← (c.run fuel m).ended
    let (results, last) ← performAll fuel rest after
    return (result :: results, last)

def Lists.performAll : Lists → List ArrayCall → List (Except Fault Value) × Lists
  | lists, [] => ([], lists)
  | lists, c :: rest =>
    let (result, after) := lists.apply c.object c.method c.arguments
    let (results, last) := after.performAll rest
    (result.mapError (.runtime c.line) :: results, last)

/-- Nothing has changed that calls of these methods depend on, the elements of objects apart. -/
structure Machine.Stays (m after : Machine) : Prop where
  later : m.store.Extends after.store
  classes : after.store.classes = m.store.classes
  objects : ∀ id o, m.store.object? id = some o →
    ∃ o', after.store.object? id = some o' ∧ o'.classId = o.classId ∧ o'.fields = o.fields
  calls : after.calls = m.calls

namespace Machine.Stays

variable {m m₁ after : Machine}

theorem refl (m : Machine) : m.Stays m :=
  ⟨.refl _, rfl, fun _ o ho => ⟨o, ho, rfl, rfl⟩, rfl⟩

theorem trans (h : m.Stays m₁) (h' : m₁.Stays after) : m.Stays after := by
  refine ⟨h.later.trans h'.later, h'.classes.trans h.classes, fun id o ho => ?_, h'.calls.trans h.calls⟩
  obtain ⟨o₁, ho₁, hclass, hfields⟩ := h.objects id o ho
  obtain ⟨o', ho', hclass', hfields'⟩ := h'.objects id o₁ ho₁
  exact ⟨o', ho', hclass'.trans hclass, hfields'.trans hfields⟩

theorem ordered (h : m.Stays after) (hordered : m.store.Ordered) : after.store.Ordered := by
  intro C c B hc
  rw [Store.class?, h.classes] at hc
  exact hordered C c B hc

theorem offers {c : ArrayCall} (h : m.Stays after) (hoffers : m.store.Offers c) :
    after.store.Offers c := by
  unfold Store.Offers at hoffers ⊢
  cases hcallee : c.callee with
  | none =>
    rw [hcallee] at hoffers
    obtain ⟨o, ho, hfield, hinherits⟩ := hoffers
    obtain ⟨o', ho', hclass, hfields⟩ := h.objects _ _ ho
    exact ⟨o', ho', hfields ▸ hfield, hclass ▸ hinherits.of_classes h.classes⟩
  | some id =>
    rw [hcallee] at hoffers
    obtain ⟨f, hf, hbinds⟩ := hoffers
    exact ⟨f, h.later.grows.functions _ _ hf, hbinds.extend h.later⟩

theorem bindMethod (m : Machine) (method : FunctionId) (object : ObjectId) :
    m.Stays { m with store := (m.store.bindMethod method object).2 } := by
  refine ⟨m.store.extends_bindMethod method object, m.store.classes_bindMethod method object,
    fun id o ho => ⟨o, ?_, rfl, rfl⟩, rfl⟩
  rwa [Store.object?, Store.objects_bindMethod]

theorem modifyElements (m : Machine) (object : ObjectId) (f : Array Value → Array Value) :
    m.Stays { m with store := m.store.modifyElements object f } := by
  refine ⟨m.store.extends_modifyObject object fun _ => rfl, rfl, fun id o ho => ?_, rfl⟩
  have hfound := m.store.object?_modifyObject object id fun o => { o with elements := f o.elements }
  rw [ho] at hfound
  refine ⟨_, hfound, ?_⟩
  by_cases hid : id = object <;> simp [hid]

end Machine.Stays

namespace Eval

open ArrayMethod

variable {m : Machine} {fuel : Nat}

theorem property_of_method {object : ObjectId} {name : Token} {method : FunctionId}
    (h : m.store.property object name.lexeme = .ok (.method method)) :
    property (.object object) name m =
      .answer (.function (m.store.bindMethod method object).1)
        { m with store := (m.store.bindMethod method object).2 } := by
  have hview : view (fun m => m.store.property object name.lexeme) m =
      .answer (.ok (.method method)) m := congrArg (Outcome.answer · m) h
  unfold property
  simp only
  rw [bind_of_answer hview]
  rfl

theorem bound_found {c : ArrayCall} (harray : m.store.HasArray) (hordered : m.store.Ordered)
    (hoffers : m.store.Offers c) :
    ∃ id f m₁, c.bound m = .answer (.function id) m₁ ∧ m.Stays m₁ ∧ m₁.store.lists = m.store.lists ∧
      m₁.store.function? id = some f ∧ m₁.store.BindsMethod f arrayClass c.method.name c.object := by
  unfold Store.Offers at hoffers
  unfold ArrayCall.bound
  -- Bound before, or taken from the object now: then no field and no method in between hides it.
  cases hcallee : c.callee with
  | some id =>
    rw [hcallee] at hoffers
    obtain ⟨f, hf, hbinds⟩ := hoffers
    exact ⟨id, f, m, rfl, .refl m, rfl, hf, hbinds⟩
  | none =>
    rw [hcallee] at hoffers
    obtain ⟨o, ho, hfield, hinherits⟩ := hoffers
    obtain ⟨array, hclass, hmethods⟩ := harray
    obtain ⟨method, closure, hmethod, hfunction⟩ := hmethods c.method
    have hfound : m.store.method? o.classId c.method.name = some method := by
      rw [hinherits.method? hordered, Store.method?_eq hordered hclass, hmethod]
      rfl
    have hproperty : m.store.property c.object c.method.name = .ok (.method method) := by
      simp [Store.property, Store.methodOf?, Store.classOf?, ho, hfield, hfound]
    obtain ⟨hlater, hmade, henclosing, hthis⟩ := Setting.bindMethod_found c.object hfunction
    have hid : (m.store.bindMethod method c.object).1 = ⟨m.store.functions.size⟩ := by
      rw [Store.bindMethod_eq hfunction]
      rfl
    refine ⟨_, _, _, property_of_method hproperty, Machine.Stays.bindMethod m method c.object,
      m.store.lists_bindMethod _ _, by rw [hid]; exact hmade, ?_, hthis, ?_⟩
    · exact ⟨array, method, _, hlater.grows.classes _ _ hclass, hmethod,
        hlater.grows.functions _ _ hfunction, rfl, rfl, henclosing⟩
    · obtain ⟨o', ho', hsame⟩ := hlater.grows.objects _ _ ho
      exact ⟨o', ho', hsame ▸ hinherits.descends.extend hlater⟩

def finished (m : Machine) (line : Nat) (object : ObjectId) :
    Except RuntimeError (Value × List Value) → Outcome Value
  | .ok (answer, list) =>
    .answer answer { m with store := m.store.modifyElements object fun _ => list.toArray }
  | .error cause => .fault (.runtime line cause) m

theorem runArrayMethod_finished {f : Function} {method : ArrayMethod} {object : ObjectId}
    {arguments : List Value} (line : Nat) (harity : method.arity = arguments.length)
    (hinitializes : f.initializes = decide (method = .init))
    (hthis : m.store.local? f.closure "this" = some (.object object)) :
    runArrayMethod line f method arguments m =
      finished m line object
        (method.onList (.object object) (m.store.elements object).toList arguments) := by
  have hstore : view Machine.store m = .answer m.store m := rfl
  have hanswer : view (fun m => method.answer (m.store.elements object) arguments) m =
      .answer (method.answer (m.store.elements object) arguments) m := rfl
  unfold runArrayMethod
  rw [bind_of_answer hstore, Store.receiver?_of_this hthis]
  simp only
  rw [bind_of_answer hanswer, onList_eq _ _ harity]
  cases hresult : method.answer (m.store.elements object) arguments with
  | error cause => rfl
  | ok answer =>
    simp only [Except.map, finished, Array.toArray_toList, hinitializes]
    rw [Store.modifyElements_elements]
    by_cases hinit : method = .init
    · simp only [hinit, decide_true, if_true]
      rfl
    · simp only [hinit, decide_false, if_false]
      rfl

theorem requireArity_fault {line arity given : Nat} (h : arity ≠ given) :
    requireArity line arity given m = .fault (.runtime line (.wrongArity arity given)) m := by
  rw [requireArity, if_neg h]
  rfl

theorem call_finished {id : FunctionId} {f : Function} {method : ArrayMethod} {object : ObjectId}
    {arguments : List Value} (line : Nat) (harray : m.store.HasArray)
    (hfunction : m.store.function? id = some f)
    (hbinds : m.store.BindsMethod f arrayClass method.name object) (hcalls : m.calls < callLimit) :
    call (fuel + 2) line (.function id) arguments m =
      finished m line object
        (method.onList (.object object) (m.store.elements object).toList arguments) := by
  obtain ⟨hcode, hinitializes⟩ := hbinds.code harray
  have harity : m.store.functionArity id = method.arity := by
    simp [Store.functionArity, hfunction, Function.arity, hcode]
  have hview : view Machine.store m = .answer m.store m := rfl
  rw [call, bind_of_answer hview, harity]
  by_cases hgiven : method.arity = arguments.length
  · have hrequire : requireArity line method.arity arguments.length m = .answer () m :=
      requireArity_answer.mpr ⟨hgiven, rfl⟩
    have hdeeper : view Machine.store m.deeper = .answer m.store m.deeper := rfl
    have hrun := runArrayMethod_finished (m := m.deeper) line hgiven hinitializes hbinds.this
    have hinvoke : invoke (fuel + 1) line id arguments m.deeper =
        runArrayMethod line f method arguments m.deeper := by
      rw [invoke, bind_of_answer hdeeper, hfunction]
      simp only [hcode]
    have hrecord : m.deeper = { m with calls := m.calls + 1 } := rfl
    rw [bind_of_answer hrequire, Eval.deeper, if_neg (Nat.not_le.mpr hcalls), ← hrecord, hinvoke, hrun]
    change _ = finished m line object
      (method.onList (.object object) (m.deeper.store.elements object).toList arguments)
    cases method.onList (.object object) (m.deeper.store.elements object).toList arguments with
    | error cause => rfl
    | ok result => rfl
  · rw [bind_of_fault (requireArity_fault hgiven), onList_wrongArity hgiven]
    rfl

theorem call_overflows {id : FunctionId} {arguments : List Value} (line : Nat)
    (hcalls : callLimit ≤ m.calls) :
    ∃ fault, call (fuel + 1) line (.function id) arguments m = .fault fault m := by
  have hview : view Machine.store m = .answer m.store m := rfl
  rw [call, bind_of_answer hview]
  by_cases hgiven : m.store.functionArity id = arguments.length
  · have hrequire : requireArity line (m.store.functionArity id) arguments.length m = .answer () m :=
      requireArity_answer.mpr ⟨hgiven, rfl⟩
    refine ⟨.runtime line .stackOverflow, ?_⟩
    rw [bind_of_answer hrequire, Eval.deeper, if_pos hcalls]
  · exact ⟨_, bind_of_fault (requireArity_fault hgiven)⟩

/-- A call does to the elements of the objects what the operation does to the list of its object. -/
theorem run_step {c : ArrayCall} (fuel : Nat) (harray : m.store.HasArray) (hordered : m.store.Ordered)
    (hoffers : m.store.Offers c) (hcalls : m.calls < callLimit) :
    ∃ after, (c.run (fuel + 2) m).ended =
        some ((m.store.lists.apply c.object c.method c.arguments).1.mapError (.runtime c.line), after) ∧
      after.store.lists = (m.store.lists.apply c.object c.method c.arguments).2 ∧ m.Stays after := by
  obtain ⟨id, f, m₁, hbound, hstays, hlists, hfunction, hbinds⟩ := bound_found harray hordered hoffers
  have hobject : (m₁.store.object? c.object).isSome = true := by
    obtain ⟨o, ho, -⟩ := hbinds.descends
    simp [ho]
  have hcall : call (fuel + 2) c.line (.function id) c.arguments m₁ = _ := call_finished c.line
    (harray.grow hstays.later.grows) hfunction hbinds (hstays.calls ▸ hcalls)
  have hrun : c.run (fuel + 2) m = _ := (bind_of_answer hbound).trans hcall
  rw [hrun, ← hlists, Lists.apply]
  change ∃ after, (finished m₁ c.line c.object
    (c.method.onList (.object c.object) (m₁.store.lists c.object) c.arguments)).ended = _ ∧ _
  cases c.method.onList (.object c.object) (m₁.store.lists c.object) c.arguments with
  | error cause => exact ⟨m₁, rfl, rfl, hstays⟩
  | ok result =>
    refine ⟨_, rfl, ?_, hstays.trans (.modifyElements m₁ c.object _)⟩
    exact m₁.store.lists_modifyElements hobject _

theorem run_overflows {c : ArrayCall} (fuel : Nat) (harray : m.store.HasArray) (hordered : m.store.Ordered)
    (hoffers : m.store.Offers c) (hcalls : callLimit ≤ m.calls) :
    ∃ fault after, (c.run (fuel + 2) m).ended = some (.error fault, after) ∧
      after.store.lists = m.store.lists ∧ m.Stays after := by
  obtain ⟨id, f, m₁, hbound, hstays, hlists, -, -⟩ := bound_found harray hordered hoffers
  obtain ⟨fault, hcall⟩ : ∃ fault, call (fuel + 2) c.line (.function id) c.arguments m₁ = .fault fault m₁ :=
    call_overflows c.line (hstays.calls ▸ hcalls)
  have hrun : c.run (fuel + 2) m = _ := (bind_of_answer hbound).trans hcall
  exact ⟨fault, m₁, by rw [hrun]; rfl, hlists, hstays⟩

theorem performAll_lists {calls : List ArrayCall} (harray : m.store.HasArray)
    (hordered : m.store.Ordered) (hoffers : ∀ c ∈ calls, m.store.Offers c)
    (hcalls : m.calls < callLimit) :
    ∃ after, performAll (fuel + 2) calls m = some ((m.store.lists.performAll calls).1, after) ∧
      after.store.lists = (m.store.lists.performAll calls).2 := by
  induction calls generalizing m with
  | nil => exact ⟨m, rfl, rfl⟩
  | cons c rest ih =>
    obtain ⟨m₁, hrun, hlists, hstays⟩ :=
      run_step fuel harray hordered (hoffers c List.mem_cons_self) hcalls
    obtain ⟨after, hrest, hafter⟩ := ih (harray.grow hstays.later.grows) (hstays.ordered hordered)
      (fun d hd => hstays.offers (hoffers d (List.mem_cons_of_mem _ hd))) (hstays.calls ▸ hcalls)
    refine ⟨after, ?_, ?_⟩
    · simp [performAll, Lists.performAll, hrun, hrest, hlists]
    · rw [hafter, hlists]
      rfl

theorem performAll_overflows {calls : List ArrayCall} (harray : m.store.HasArray)
    (hordered : m.store.Ordered) (hoffers : ∀ c ∈ calls, m.store.Offers c)
    (hcalls : callLimit ≤ m.calls) :
    ∃ (faults : List Fault) (after : Machine), performAll (fuel + 2) calls m = some (faults.map .error, after) ∧
      after.store.lists = m.store.lists := by
  induction calls generalizing m with
  | nil => exact ⟨[], m, rfl, rfl⟩
  | cons c rest ih =>
    obtain ⟨fault, m₁, hrun, hlists, hstays⟩ :=
      run_overflows fuel harray hordered (hoffers c List.mem_cons_self) hcalls
    obtain ⟨faults, after, hrest, hafter⟩ := ih (harray.grow hstays.later.grows)
      (hstays.ordered hordered) (fun d hd => hstays.offers (hoffers d (List.mem_cons_of_mem _ hd)))
      (hstays.calls ▸ hcalls)
    refine ⟨fault :: faults, after, ?_, hafter.trans hlists⟩
    simp [performAll, hrun, hrest]

end Eval

namespace Session

variable {s : Session} {history : List Performance}

/-- The session has the machine between two runs, or at some moment of a run. -/
inductive Passes (s : Session) : Machine → Prop
  | rest : s.Passes s.machine
  | within {interactive : Bool} {fuel : Nat} {source : String} {p : Performance} {a : Activity} :
    s.performance? interactive fuel source = some p → a.Visited p.Begins → s.Passes a.machine

theorem After.grows_start (hs : s.After history) : Store.start.Grows s.machine.store := by
  induction hs with
  | start => exact .refl _
  | run _ hrun ih => exact ih.trans (runAs_grows hrun)
  | facing _ _ _ _ ih => exact ih

theorem Passes.array {m : Machine} (hm : s.Passes m) (hs : s.After history) :
    m.store.HasArray ∧ m.store.Ordered := by
  have hrest := Store.hasArray_start.grow hs.grows_start
  cases hm with
  | rest =>
    exact ⟨hrest, fun C c B hc hB => (hs.settled.sound.classes C c hc).older B hB⟩
  | @within interactive fuel source p a hp ha =>
    obtain ⟨K, hsits⟩ := visited_sits hs hp ha
    refine ⟨?_, fun C c B hc hB => (hsits.sound.classes C c hc).older B hB⟩
    obtain ⟨s₁, hprepare, hmachine⟩ := performance?_some hp
    have hadmits := hs.settled.admits hprepare hmachine
    have hroot : ∀ a, p.Begins a → (Setting.of (p :: history)).root a :=
      fun a ha => ⟨p, List.mem_cons_self, ha⟩
    -- A moment of a run lies on a store later than that at its start, and the class is never changed.
    have hlies : a.LiesIn p.act p.machine :=
      ha.lies (fun b hb => hb.sits hadmits hroot) fun b hb => hb.lies hadmits hroot
    have hstore : p.machine.store = s.machine.store := by
      obtain ⟨_, hops, -, -, -, hrecorded⟩ := prepare_ok hprepare
      rw [← hmachine, hrecorded]
      rfl
    exact hrest.grow (hstore ▸ hlies.1.grows)

/-- Arrays are lists. At every moment of a session that any runs led to, any calls of the methods of `array`
one after the other, on any objects of `array` and of classes that inherit from it, end as the operations on
one list for each object end, and leave the elements that these lists have. If as many calls are in
progress as may be, they all fail and leave all elements as they were. -/
theorem arrays_are_lists (hs : s.After history) {m : Machine} (hm : s.Passes m)
    {calls : List ArrayCall} (hoffers : ∀ c ∈ calls, m.store.Offers c) (fuel : Nat) :
    (m.calls < callLimit →
      ∃ after, Eval.performAll (fuel + 2) calls m = some ((m.store.lists.performAll calls).1, after) ∧
        after.store.lists = (m.store.lists.performAll calls).2) ∧
    (callLimit ≤ m.calls →
      ∃ (faults : List Fault) (after : Machine), Eval.performAll (fuel + 2) calls m = some (faults.map .error, after) ∧
        after.store.lists = m.store.lists) := by
  obtain ⟨harray, hordered⟩ := hm.array hs
  refine ⟨?_, ?_⟩
  · intro hcalls
    exact Eval.performAll_lists harray hordered hoffers hcalls
  · intro hcalls
    exact Eval.performAll_overflows harray hordered hoffers hcalls

theorem runAs_stack :
    ((start .unlimited [] (.ticking 0)).runAs false 12 "class Stack < array {} Stack();").map (fun r =>
        (r.2.machine.store.object? ⟨0⟩, r.2.machine.store.class? ⟨1⟩, r.2.machine.calls)) =
      some (some ⟨⟨1⟩, ∅, #[]⟩, some ⟨"Stack", some arrayClass, ∅⟩, 0) := by cbv

/-- An instance of a class that inherits from `array`: what was appended is popped, and then nothing is left. -/
theorem arrays_are_lists_subclass :
    ∃ (s : Session) (history : List Performance) (after : Machine), s.After history ∧
      Eval.performAll 2 [⟨⟨0⟩, .append, [.boolean true], 1, none⟩, ⟨⟨0⟩, .pop, [], 2, none⟩,
          ⟨⟨0⟩, .pop, [], 3, none⟩] s.machine =
        some ([.ok .nil, .ok (.boolean true), .error (.runtime 3 .popFromEmpty)], after) ∧
      after.store.lists ⟨0⟩ = [] := by
  obtain ⟨⟨errors, s⟩, hrun, hfound⟩ := Option.map_eq_some_iff.mp runAs_stack
  simp only [Prod.mk.injEq] at hfound
  obtain ⟨hobject, hclass, hcalls⟩ := hfound
  have hs := After.run (.start .unlimited [] (.ticking 0)) hrun
  have hoffers (c : ArrayCall) (hon : c.object = ⟨0⟩) (hcallee : c.callee = none) :
      s.machine.store.Offers c := by
    unfold Store.Offers
    rw [hcallee, hon]
    exact ⟨_, hobject, rfl, .derived hclass rfl rfl .array⟩
  have hall : ∀ c ∈ [⟨⟨0⟩, .append, [.boolean true], 1, none⟩, ⟨⟨0⟩, .pop, [], 2, none⟩,
      ⟨⟨0⟩, .pop, [], 3, none⟩], s.machine.store.Offers c := by simp [hoffers]
  obtain ⟨after, hperform, hafter⟩ := (arrays_are_lists hs .rest hall 0).1 (by simp [hcalls, callLimit])
  have hempty : s.machine.store.lists ⟨0⟩ = [] := by
    simp [Store.lists, Store.elements, hobject]
  have hlists : s.machine.store.lists.performAll
      [⟨⟨0⟩, .append, [.boolean true], 1, none⟩, ⟨⟨0⟩, .pop, [], 2, none⟩, ⟨⟨0⟩, .pop, [], 3, none⟩] =
      ([.ok .nil, .ok (.boolean true), .error (.runtime 3 .popFromEmpty)],
        Function.update (Function.update s.machine.store.lists ⟨0⟩ [.boolean true]) ⟨0⟩ []) := by
    simp [Lists.performAll, Lists.apply, ArrayMethod.onList, hempty, Except.mapError]
  refine ⟨s, _, after, hs, ?_, ?_⟩
  · rw [hperform, hlists]
  · rw [hafter, hlists]
    simp

end Session

end LoxLang
