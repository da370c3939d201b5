import LoxLang.Proofs.Evaluation.Provenance
import LoxLang.Proofs.Scope.Findings

set_option autoImplicit false

namespace LoxLang

/-- Only references, `super` and methods that are not as they should be lead to such a failure. -/
def RuntimeError.isInternal : RuntimeError → Bool
  | .noScope _ _ | .superOutsideClass | .thisNotObject | .methodNotBound _ => true
  | _ => false

/-- The fault is no matter of how references and methods are implemented. -/
def Fault.Expected : Fault → Prop
  | .runtime _ cause => cause.isInternal = false
  | .io _ => True

def External {α : Type} (x : Except RuntimeError α) : Prop :=
  ∀ cause, x = .error cause → cause.isInternal = false

theorem external_ok {α : Type} (v : α) : External (.ok v : Except RuntimeError α) := by
  intro cause h
  cases h

theorem external_error {α : Type} {cause : RuntimeError} (h : cause.isInternal = false) :
    External (.error cause : Except RuntimeError α) := by
  intro other hother
  cases hother
  exact h

theorem external_applyUnary (operator : Token) (v : Value) : External (applyUnary operator v) := by
  unfold applyUnary
  split
  · split
    · exact external_ok _
    · exact external_error rfl
  · exact external_ok _
  · exact external_error rfl

theorem external_applyBinary (operator : Token) (l r : Value) : External (applyBinary operator l r) := by
  unfold applyBinary
  split
  · unfold addValues
    split <;> first | exact external_ok _ | exact external_error rfl
  · exact external_ok _
  · exact external_ok _
  · split
    · unfold applyToNumbers
      split <;> first | exact external_ok _ | exact external_error rfl
    · exact external_error rfl

theorem external_parseNumber (v : Value) : External (parseNumber v) := by
  unfold parseNumber
  split
  · exact external_ok _
  · split <;> first | exact external_ok _ | exact external_error rfl
  · exact external_error rfl

theorem external_position (index : Value) (length : Nat) : External (index.position length) := by
  unfold Value.position
  split
  · split <;> first | exact external_ok _ | exact external_error rfl
  · exact external_error rfl

theorem external_answer (method : ArrayMethod) (elements : Array Value) (arguments : List Value) :
    External (method.answer elements arguments) := by
  unfold ArrayMethod.answer
  split
  · exact external_ok _
  · exact external_ok _
  · split
    · exact external_ok _
    · rename_i index cause h
      exact external_error (external_position _ _ _ h)
  · split
    · exact external_ok _
    · rename_i index _ cause h
      exact external_error (external_position _ _ _ h)
  · exact external_ok _
  · split <;> first | exact external_ok _ | exact external_error rfl
  · exact external_error rfl

theorem external_property (s : Store) (object : ObjectId) (name : String) :
    External (s.property object name) := by
  unfold Store.property
  split
  · exact external_ok _
  · split <;> first | exact external_ok _ | exact external_error rfl

theorem external_holder (s : Store) (frame : FrameId) (name : String) :
    External (s.holder frame name) := by
  unfold Store.holder
  split <;> first | exact external_ok _ | exact external_error rfl

theorem external_read {s : Store} {name : String} {holder : Except RuntimeError FrameId}
    (h : External holder) : External (s.read name holder) := by
  unfold Store.read
  split
  · exact external_error (h _ rfl)
  · split <;> first | exact external_ok _ | exact external_error rfl

namespace Setting

/-- The hop counts are those of the lookups, which are sound and spelled as they should be. -/
def Answers (E : Setting) (hops : HopTable) : Prop :=
  ∀ l, E.known l → hops[l.target.id]? = l.distance? ∧ l.Sound ∧ l.kind.Spells l.target.name

/-- From one machine to a later one, in the same environment. -/
structure Step (E : Setting) (m m' : Machine) : Prop where
  cursor : m'.cursor = m.cursor
  hops : m'.hops = m.hops
  later : m.store.Extends m'.store
  sound : E.Sound m'.store

theorem Step.refl {E : Setting} {m : Machine} (h : E.Sound m.store) : E.Step m m :=
  ⟨rfl, rfl, .refl _, h⟩

theorem Step.trans {E : Setting} {m m₁ m' : Machine} (h : E.Step m m₁) (h' : E.Step m₁ m') :
    E.Step m m' :=
  ⟨h'.cursor.trans h.cursor, h'.hops.trans h.hops, h.later.trans h'.later, h'.sound⟩

end Setting

namespace Eval

/-- The computation takes a step on every way out, its answer is as told and no fault is internal. -/
def Steps (E : Setting) {α : Type} (act : Eval α) (m : Machine) (A : α → Store → Prop) : Prop :=
  act.Ensures m (fun v m' => E.Step m m' ∧ A v m'.store) fun f m' => E.Step m m' ∧ f.Expected

namespace Steps

variable {E : Setting} {α β : Type} {m : Machine} {A : α → Store → Prop} {B : β → Store → Prop}

theorem ret {v : α} (h : E.Sound m.store) (hv : A v m.store) : (pure v : Eval α).Steps E m A :=
  ⟨.refl h, hv⟩

theorem fail {line : Nat} {cause : RuntimeError} (h : E.Sound m.store)
    (hcause : cause.isInternal = false) : (fail line cause : Eval α).Steps E m A :=
  ⟨.refl h, hcause⟩

theorem ofExcept {line : Nat} {x : Except RuntimeError α} (h : E.Sound m.store)
    (hok : ∀ v, x = .ok v → A v m.store) (hx : External x) : (ofExcept line x).Steps E m A :=
  Ensures.ofExcept (fun v hv => ⟨.refl h, hok v hv⟩) fun cause hc => ⟨.refl h, hx cause hc⟩

theorem outOfFuel : (outOfFuel : Eval α).Steps E m A := trivial

theorem imp {A' : α → Store → Prop} {act : Eval α} (h : act.Steps E m A)
    (hA : ∀ v m', E.Step m m' → A v m'.store → A' v m'.store) : act.Steps E m A' :=
  Ensures.imp h (fun v m' h => ⟨h.1, hA v m' h.1 h.2⟩) fun _ _ h => h

theorem of_eq {act act' : Eval α} (heq : act m = act' m) (h : act'.Steps E m A) : act.Steps E m A :=
  Ensures.of_eq heq h

theorem bind {act : Eval α} {next : α → Eval β} (h : act.Steps E m A)
    (hnext : ∀ v m', act m = .answer v m' → E.Step m m' → A v m'.store → (next v).Steps E m' B) :
    (act >>= next).Steps E m B := by
  refine Ensures.bind h fun v m' hv hm => ?_
  exact Ensures.imp (hnext v m' hv hm.1 hm.2) (fun _ _ h' => ⟨hm.1.trans h'.1, h'.2⟩)
    fun _ _ h' => ⟨hm.1.trans h'.1, h'.2⟩

theorem viewThen {next : α → Eval β} {f : Machine → α} (h : (next (f m)).Steps E m B) :
    (Eval.view f >>= next).Steps E m B := h

theorem exceptThen {line : Nat} {x : Except RuntimeError α} {next : α → Eval β}
    (h : E.Sound m.store) (hx : External x) (hok : ∀ v, x = .ok v → (next v).Steps E m B) :
    (Eval.ofExcept line x >>= next).Steps E m B := by
  cases x with
  | ok v => exact hok v rfl
  | error cause => exact ⟨.refl h, hx cause rfl⟩

theorem update {f : Store → α × Store} (hlater : m.store.Extends (f m.store).2)
    (hsound : E.Sound (f m.store).2) (hA : A (f m.store).1 (f m.store).2) :
    (Eval.update f).Steps E m A := ⟨⟨rfl, rfl, hlater, hsound⟩, hA⟩

theorem within {act : Eval α} {frame : FrameId} (h : act.Steps E { m with cursor := frame } A) :
    (within frame act).Steps E m A :=
  Ensures.within (Ensures.imp h (fun _ _ h' => ⟨⟨rfl, h'.1.hops, h'.1.later, h'.1.sound⟩, h'.2⟩)
    fun _ _ h' => ⟨⟨rfl, h'.1.hops, h'.1.later, h'.1.sound⟩, h'.2⟩)

theorem deeper {act : Eval α} {line : Nat} (hm : E.Sound m.store)
    (h : m.calls < callLimit → act.Steps E { m with calls := m.calls + 1 } A) :
    (deeper line act).Steps E m A := by
  refine Ensures.deeper (fun _ => ⟨.refl hm, rfl⟩) fun hc => Ensures.imp (h hc) ?_ ?_
  · exact fun _ _ h' => ⟨⟨h'.1.cursor, h'.1.hops, h'.1.later, h'.1.sound⟩, h'.2⟩
  · exact fun _ _ h' => ⟨⟨h'.1.cursor, h'.1.hops, h'.1.later, h'.1.sound⟩, h'.2⟩

theorem emit {line : String} {A : Unit → Store → Prop} (h : E.Sound m.store) (hA : A () m.store) :
    (emit line).Steps E m A :=
  Ensures.emit (fun _ _ => ⟨⟨rfl, rfl, .refl _, h⟩, hA⟩) fun _ _ => ⟨.refl h, trivial⟩

end Steps

variable {E : Setting} {m : Machine} {K : Context}

theorem lookupAt_of_known (hm : E.Answers m.hops) (hK : K.Matches E.root m.store m.cursor)
    {kind : ReferenceKind} {target : Reference} (hkind : kind ≠ .assign)
    (hknown : E.known ⟨kind, target, K.scopes⟩) {d : Nat} (hd : m.hops[target.id]? = some d) :
    ∃ frame v, K.trail[d]? = some frame ∧ m.store.ancestor? d m.cursor = some frame ∧
      m.store.local? frame target.name.lexeme = some v ∧
      m.store.lookupAt m.cursor d target.name.lexeme = .ok v := by
  obtain ⟨hdistance, hsound, -⟩ := hm _ hknown
  have hdistance : distanceIn target.name.lexeme K.scopes = some d := by
    rw [← hd]
    exact hdistance.symm
  obtain ⟨scope, frame, hscope, hframe, hancestor⟩ := hK.found hdistance
  have hdefined := hsound.defined hkind d scope hdistance hscope
  obtain ⟨v, hv⟩ := Option.isSome_iff_exists.mp (hK.bound d scope frame hscope hframe _ hdefined)
  refine ⟨frame, v, hframe, hancestor, hv, ?_⟩
  simp [Store.lookupAt, Store.holderAt, Store.read, hancestor, hv]

theorem steps_lookUp (hs : E.Sound m.store) (hm : E.Answers m.hops)
    (hK : K.Matches E.root m.store m.cursor) {kind : ReferenceKind} {target : Reference}
    (hkind : kind ≠ .assign) (hknown : E.known ⟨kind, target, K.scopes⟩) :
    (lookUp target).Steps E m fun v s => E.Fine s v := by
  cases h : m.hops[target.id]? with
  | none =>
    have hglobal : (Eval.ofExcept target.name.line
        (m.store.lookup Store.globals target.name.lexeme)).Steps E m fun v s => E.Fine s v :=
      .ofExcept hs (fun v hv => hs.held v (.of_read hv)) (external_read (external_holder _ _ _))
    refine Steps.of_eq ?_ hglobal
    simp [lookUp, h]
  | some d =>
    obtain ⟨frame, v, -, -, hv, hlookup⟩ := lookupAt_of_known hm hK hkind hknown h
    have hfound : (pure v : Eval Value).Steps E m fun v s => E.Fine s v :=
      .ret hs (hs.held v (.binding hv))
    refine Steps.of_eq ?_ hfound
    simp [lookUp, h, hlookup, Eval.ofExcept]
    rfl

theorem steps_bindIn (hs : E.Sound m.store) {frame : FrameId} {name : String} {value : Value}
    (hname : isReserved name → m.store.local? frame name = none) (hvalue : E.Fine m.store value) :
    (bindIn frame name value).Steps E m fun _ s => s = m.store.bind frame name value := by
  have hlater := m.store.extends_bind frame name value hname
  exact .update hlater (hs.bind hlater hvalue) rfl

theorem not_reserved_of_ordinary {t : Token} (h : t.Ordinary) : ¬ isReserved t.lexeme := by
  rintro (hthis | hsuper)
  · exact h.not_this hthis
  · exact h.not_super hsuper

theorem steps_assign (hs : E.Sound m.store) (hm : E.Answers m.hops)
    (hK : K.Matches E.root m.store m.cursor) {target : Reference} {value : Value}
    (hknown : E.known ⟨.assign, target, K.scopes⟩) (hvalue : E.Fine m.store value) :
    (assign target value).Steps E m fun _ _ => True := by
  obtain ⟨hdistance, -, hspells⟩ := hm _ hknown
  have hname := not_reserved_of_ordinary hspells
  have hbind : ∀ frame m', E.Step m m' →
      (bindIn frame target.name.lexeme value).Steps E m' fun _ _ => True := fun frame m' hm' =>
    (steps_bindIn hm'.sound (fun h => absurd h hname) (hvalue.extend hm'.later)).imp
      fun _ _ _ _ => trivial
  unfold assign
  refine .viewThen (.viewThen ?_)
  split
  · rename_i d hd
    refine .viewThen (.bind (A := fun _ _ => True) (.ofExcept hs (fun _ _ => trivial) ?_)
      fun frame m' _ hm' _ => hbind frame m' hm')
    rw [hd] at hdistance
    have hdistance : distanceIn target.name.lexeme K.scopes = some d := hdistance.symm
    obtain ⟨scope, frame, -, -, hancestor⟩ := hK.found hdistance
    unfold Store.holderAt
    rw [hancestor]
    by_cases hbound : (m.store.local? frame target.name.lexeme).isSome = true
    · simpa [hbound] using external_ok _
    · simpa [hbound] using external_error rfl
  · refine .viewThen (.bind (A := fun _ _ => True) (.ofExcept hs (fun _ _ => trivial) ?_)
      fun frame m' _ hm' _ => hbind frame m' hm')
    exact external_holder _ _ _

theorem steps_define (hs : E.Sound m.store) (hcursor : (m.store.frame? m.cursor).isSome = true)
    {name : Token} (hname : name.Ordinary) {value : Value} (hvalue : E.Fine m.store value) :
    (define name.lexeme value).Steps E m fun _ s =>
      (s.local? m.cursor name.lexeme).isSome = true := by
  unfold define
  refine .viewThen ((steps_bindIn hs (fun h => absurd h (not_reserved_of_ordinary hname)) hvalue).imp ?_)
  rintro _ m' - hm'
  rw [hm', Store.local?_bind, if_pos ⟨rfl, rfl, hcursor⟩]
  rfl

end Eval

end LoxLang
