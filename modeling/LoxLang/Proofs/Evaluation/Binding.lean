import LoxLang.Proofs.Evaluation.Steps

set_option autoImplicit false

namespace LoxLang

namespace Setting

variable {E : Setting} {s : Store} {id : FunctionId} {f : Function}

theorem Callable.bound (h : E.Callable s id f)
    (hf : f.initializes = true ∨ ∃ method, f.code = .array method) :
    ∃ C name object, s.BindsMethod f C name object := by
  rcases h.origin with ⟨fuel, d, m, -, rfl, hlater⟩ | hbound
  · have hplain := hlater.grows.functions ⟨m.store.functions.size⟩ ⟨.declared d, m.cursor, false⟩
      ((Store.function?_addFunction _ _ _).trans (if_pos rfl))
    rw [h.found] at hplain
    cases hplain
    rcases hf with hf | ⟨method, hf⟩ <;> cases hf
  · exact hbound

end Setting

theorem Store.receiver?_of_this {s : Store} {frame : FrameId} {object : ObjectId}
    (h : s.local? frame "this" = some (.object object)) : s.receiver? frame = some object := by
  simp [receiver?, h]

theorem Store.lookupAt_zero {s : Store} {frame : FrameId} {name : String} {v : Value}
    (h : s.local? frame name = some v) : s.lookupAt frame 0 name = .ok v := by
  simp [lookupAt, holderAt, read, ancestor?, h]

theorem Store.functionArity_bindMethod (s : Store) (method : FunctionId) (object : ObjectId) :
    (s.bindMethod method object).2.functionArity (s.bindMethod method object).1 =
      s.functionArity method := by
  cases hf : s.function? method with
  | none => simp [bindMethod, hf]
  | some f =>
    have hfound : (s.bindMethod method object).2.function? (s.bindMethod method object).1 =
        some { f with closure := ⟨s.frames.size⟩ } := by
      rw [bindMethod_eq hf]
      exact (function?_addFunction _ _ _).trans (if_pos rfl)
    simp only [functionArity, hf, hfound]
    rfl

namespace Eval

variable {E : Setting} {m : Machine} {K : Context}

theorem steps_bindMethod (hs : E.Sound m.store) {object : ObjectId} {o : Object} {name : String}
    {method : FunctionId} {C : ClassId} (ho : m.store.object? object = some o)
    (hC : m.store.Descends o.classId C) (hmethod : m.store.method? C name = some method) :
    (bindMethod method object).Steps E m fun id s => s.functionArity id = m.store.functionArity method ∧
      ∃ f D, E.Callable s id f ∧ s.BindsMethod f D name object := by
  obtain ⟨D, d, hdescends, hd, hget⟩ := Store.descends_of_method? hmethod
  obtain ⟨hsound, f, hcallable, hbinds⟩ := hs.bindMethod ho (hC.trans hdescends) hd hget
  exact .update (m.store.extends_bindMethod method object) hsound
    ⟨m.store.functionArity_bindMethod method object, f, D, hcallable, hbinds⟩

theorem object?_of_methodOf? {s : Store} {object : ObjectId} {name : String} {method : FunctionId}
    (h : s.methodOf? object name = some method) :
    ∃ o, s.object? object = some o ∧ s.method? o.classId name = some method := by
  unfold Store.methodOf? Store.classOf? at h
  cases ho : s.object? object with
  | none => simp [ho] at h
  | some o => exact ⟨o, rfl, by simpa [ho] using h⟩

theorem steps_property (hs : E.Sound m.store) {object : Value} {name : Token} :
    (property object name).Steps E m fun v s => E.Fine s v := by
  unfold property
  split
  · rename_i id
    refine .viewThen (.exceptThen hs (external_property _ _ _) fun p hp => ?_)
    unfold Store.property at hp
    split at hp
    · rename_i v hv
      cases hp
      obtain ⟨o, ho, hfield⟩ := Option.bind_eq_some_iff.mp hv
      exact .ret hs (hs.held v (.field ho hfield))
    · split at hp
      · rename_i method hmethod
        cases hp
        obtain ⟨o, ho, hmethod⟩ := object?_of_methodOf? hmethod
        refine .bind (steps_bindMethod hs ho (.self _) hmethod) ?_
        rintro bound m' - hm' ⟨-, f, D, hcallable, -⟩
        exact .ret hm'.sound ⟨f, hcallable⟩
      · cases hp
  · exact .fail hs rfl

/-- Around a `super` that is known, the environments for `super` and `this` are in their places. -/
theorem seat_of_known (hm : E.Answers m.hops) (hK : K.Matches E.root m.store m.cursor) {keyword : Reference}
    (hknown : E.known ⟨.super, keyword, K.scopes⟩) :
    ∃ d this super, SeatedAt d K.scopes ∧ keyword.name.lexeme = "super" ∧
      m.hops[keyword.id]? = some (d + 1) ∧
      K.trail[d]? = some this ∧ m.store.ancestor? d m.cursor = some this ∧
      K.trail[d + 1]? = some super ∧ m.store.ancestor? (d + 1) m.cursor = some super ∧
      m.store.Links E.root this super := by
  obtain ⟨hdistance, hsound, hspells⟩ := hm _ hknown
  obtain ⟨d, hseat⟩ := hsound.seated rfl
  have hname : keyword.name.lexeme = "super" := hspells
  obtain ⟨scope, this, hscope, hthis, hup⟩ := hK.found hseat.this
  obtain ⟨_, super, houter, hsuper, hup'⟩ := hK.found hseat.super
  obtain ⟨inner, hinner, hbinds⟩ := hseat.inner
  refine ⟨d, this, super, hseat, hname, ?_, hthis, hup, hsuper, hup', ?_⟩
  · rw [hdistance, Lookup.distance?, hname]
    exact hseat.super
  · exact hK.linked d inner this super hinner hbinds hseat.outer hthis hsuper

theorem lookupAt_of_local? {s : Store} {cursor frame : FrameId} {d : Nat} {name : String} {v : Value}
    (hframe : s.ancestor? d cursor = some frame) (hv : s.local? frame name = some v) :
    s.lookupAt cursor d name = .ok v := by
  simp [Store.lookupAt, Store.holderAt, Store.read, hframe, hv]

def methodFrom (B : ClassId) (object : ObjectId) (method : Token) : Eval Value := do
  match (← view Machine.store).method? B method.lexeme with
  | some function => return .function (← bindMethod function object)
  | none => Eval.fail method.line (.undefinedProperty method.lexeme)

/-- `super` finds a method from the superclass on and binds it to the object that `this` is. -/
theorem superMethod_eq {keyword : Reference} {method : Token} {d : Nat} {this super : FrameId}
    {B : ClassId} {object : ObjectId} (hname : keyword.name.lexeme = "super")
    (hhops : m.hops[keyword.id]? = some (d + 1)) (hthis : m.store.ancestor? d m.cursor = some this)
    (hsuper : m.store.ancestor? (d + 1) m.cursor = some super)
    (hB : m.store.local? super "super" = some (.classValue B))
    (hobject : m.store.local? this "this" = some (.object object)) :
    superMethod keyword method m = methodFrom B object method m := by
  have hlookup := lookupAt_of_local? hsuper hB
  have hlookup' := lookupAt_of_local? hthis hobject
  unfold superMethod
  have hview : view Machine.hops m = .answer m.hops m := rfl
  rw [bind_of_answer hview, hhops]
  change (Eval.ofExcept _ (m.store.lookupAt m.cursor (d + 1) keyword.name.lexeme) >>= _) m = _
  rw [hname, hlookup]
  change (Eval.ofExcept _ (m.store.lookupAt m.cursor (d + 1 - 1) "this") >>= _) m = _
  rw [Nat.add_sub_cancel, hlookup']
  rfl

theorem steps_superMethod (hs : E.Sound m.store) (hm : E.Answers m.hops)
    (hK : K.Matches E.root m.store m.cursor) {keyword : Reference} {method : Token}
    (hknown : E.known ⟨.super, keyword, K.scopes⟩) :
    (superMethod keyword method).Steps E m fun v s => E.Fine s v := by
  obtain ⟨d, this, super, -, hname, hhops, -, hup, -, hup', hlinks⟩ := seat_of_known hm hK hknown
  obtain ⟨C, -, object, o, -, -, ⟨c, B, hc, hB, hsuper⟩, hthis, ho, hdescends⟩ := hlinks
  refine Steps.of_eq (superMethod_eq hname hhops hup hup' hsuper hthis) (.viewThen ?_)
  split
  · rename_i function hfunction
    have hdescends : m.store.Descends o.classId B := hdescends.trans (.up hc hB (.self B))
    refine Steps.bind (steps_bindMethod hs ho hdescends hfunction) ?_
    rintro bound m' - hm' ⟨-, f, D, hcallable, -⟩
    exact .ret hm'.sound ⟨f, hcallable⟩
  · exact Steps.fail hs rfl

theorem steps_runNative (hs : E.Sound m.store) (line : Nat) (function : Native)
    (arguments : List Value) : (runNative line function arguments).Steps E m fun v s => E.Fine s v := by
  unfold runNative
  split
  · exact .bind (A := fun _ _ => True) ⟨⟨rfl, rfl, .refl _, hs⟩, trivial⟩ fun _ m' _ hm' _ =>
      .ret hm'.sound trivial
  · refine .bind (A := fun _ _ => True) ⟨⟨rfl, rfl, .refl _, hs⟩, trivial⟩ fun v m' _ hm' _ => ?_
    split
    · exact .ret hm'.sound trivial
    · exact .ret hm'.sound trivial
    · exact .fail hm'.sound rfl
  · exact .ofExcept hs (fun _ hv => .of_isData (isData_parseNumber hv)) (external_parseNumber _)
  · exact .fail hs rfl

theorem steps_runArrayMethod (hs : E.Sound m.store) {id : FunctionId} {f : Function}
    (hf : E.Callable m.store id f) {method : ArrayMethod} (hcode : f.code = .array method)
    {arguments : List Value} (harguments : ∀ v ∈ arguments, E.Fine m.store v) (line : Nat) :
    (runArrayMethod line f method arguments).Steps E m fun v s => E.Fine s v := by
  obtain ⟨C, name, object, hbinds⟩ := hf.bound (.inr ⟨method, hcode⟩)
  obtain ⟨o, ho, -⟩ := hbinds.descends
  unfold runArrayMethod
  refine .viewThen ?_
  rw [Store.receiver?_of_this hbinds.this]
  refine .viewThen (.exceptThen hs (external_answer _ _ _) fun v hv => ?_)
  have hchanged : E.Sound (m.store.modifyElements object (method.change arguments)) := by
    refine hs.modifyObject object (fun _ => rfl) fun o ho w hw => ?_
    rcases hw with ⟨name, hw⟩ | hw
    · exact .inl (.field ho hw)
    · rcases ArrayMethod.mem_change hw with hw | hw
      · exact .inl (.element ho hw)
      · exact .inr (harguments w hw)
  refine .bind (A := fun _ _ => True)
    (.update (m.store.extends_modifyObject object fun _ => rfl) hchanged trivial)
    fun _ m' _ hm' _ => .ret hm'.sound ?_
  have hfine : E.Fine m.store v := by
    rcases ArrayMethod.mem_of_answer hv with hv | hv
    · exact hs.held v (.of_element hv)
    · exact .of_isData hv
  have hthis : E.Fine m.store (.object object) := by simp [Setting.Fine, ho]
  split
  · exact hthis.extend hm'.later
  · exact hfine.extend hm'.later

theorem local?_bindAll {s : Store} {frame : FrameId} {entries : List (Token × Value)}
    {name : String} (hframe : (s.frame? frame).isSome = true)
    (h : (s.local? frame name).isSome = true ∨ ∃ entry ∈ entries, entry.1.lexeme = name) :
    ((entries.foldl (fun s entry => s.bind frame entry.1.lexeme entry.2) s).local? frame name).isSome =
      true := by
  induction entries generalizing s with
  | nil => simpa using h
  | cons entry rest ih =>
    have hgrows := s.grows_bind frame entry.1.lexeme entry.2
    refine ih (hgrows.frame?_isSome hframe) ?_
    rcases h with h | ⟨e, he, hname⟩
    · exact .inl (hgrows.local?_isSome h)
    · rcases List.mem_cons.mp he with rfl | he
      · exact .inl (by rw [Store.local?_bind, if_pos ⟨rfl, hname, hframe⟩]; rfl)
      · exact .inr ⟨e, he, hname⟩

theorem steps_parameterFrame (hs : E.Sound m.store) (closure : FrameId) {parameters : List Token}
    {arguments : List Value} (hlength : parameters.length = arguments.length)
    (hparameters : ∀ p ∈ parameters, p.Ordinary) (harguments : ∀ v ∈ arguments, E.Fine m.store v) :
    (parameterFrame closure parameters arguments).Steps E m fun frame s =>
      s.enclosing? frame = some closure ∧
      ∀ name, (parameterScope parameters).get? name = some true → (s.local? frame name).isSome = true := by
  have hentries : ∀ entry ∈ parameters.zip arguments,
      ¬ isReserved entry.1.lexeme ∧ E.Fine m.store entry.2 := by
    intro entry hentry
    obtain ⟨hname, hvalue⟩ := List.of_mem_zip hentry
    exact ⟨not_reserved_of_ordinary (hparameters _ hname), harguments _ hvalue⟩
  have hnew := m.store.extends_addFrame (some closure)
  generalize hs₁ : (m.store.addFrame (some closure)).2 = s₁ at hnew
  have hsound : E.Sound s₁ := hs₁ ▸ hs.addFrame _
  have henclosing : s₁.enclosing? ⟨m.store.frames.size⟩ = some closure := by
    rw [← hs₁, Store.enclosing?_addFrame, if_pos rfl]
  have hframe : (s₁.frame? ⟨m.store.frames.size⟩).isSome = true := by
    rw [← hs₁, Store.frame?_addFrame, if_pos rfl]
    rfl
  have hlater := s₁.extends_bindAll ⟨m.store.frames.size⟩ _ fun e he => (hentries e he).1
  have hall := hsound.bindAll ⟨m.store.frames.size⟩ _ fun e he =>
    ⟨(hentries e he).1, (hentries e he).2.extend hnew⟩
  have hmade : (newFrame closure).Steps E m fun frame s => frame = ⟨m.store.frames.size⟩ ∧ s = s₁ := by
    subst hs₁
    exact .update hnew hsound ⟨rfl, rfl⟩
  refine Steps.bind hmade ?_
  rintro _ m₁ - hm₁ ⟨rfl, hm₁'⟩
  refine Steps.bind (A := fun _ s => s = (parameters.zip arguments).foldl
    (fun s entry => s.bind ⟨m.store.frames.size⟩ entry.1.lexeme entry.2) s₁) ?_ ?_
  · rw [← hm₁'] at hlater hall ⊢
    exact .update hlater hall rfl
  · rintro _ m₂ - hm₂ hm₂'
    refine .ret hm₂.sound ?_
    rw [hm₂']
    refine ⟨hlater.grows.enclosing? henclosing, fun name hname => ?_⟩
    obtain ⟨-, p, hp, rfl⟩ := get?_parameterScope hname
    refine local?_bindAll hframe (.inr ?_)
    obtain ⟨i, hi, rfl⟩ := List.mem_iff_getElem.mp hp
    have hi' : i < arguments.length := hlength ▸ hi
    exact ⟨(parameters[i], arguments[i]), List.mem_iff_getElem.mpr
      ⟨i, by simp [List.length_zip, ← hlength, hi], by simp⟩, rfl⟩

theorem steps_answerOf (hs : E.Sound m.store) {id : FunctionId} {f : Function}
    (hf : E.Callable m.store id f) {ending : Ending}
    (hending : ∀ v, ending = .returned v → E.Fine m.store v) (line : Nat) :
    (answerOf line f ending).Steps E m fun v s => E.Fine s v := by
  cases hinit : f.initializes with
  | true =>
    obtain ⟨C, name, object, hbinds⟩ := hf.bound (.inl hinit)
    obtain ⟨o, ho, -⟩ := hbinds.descends
    have hthis : (pure (.object object) : Eval Value).Steps E m fun v s => E.Fine s v :=
      .ret hs (by simp [Setting.Fine, ho])
    refine Steps.of_eq ?_ hthis
    simp [answerOf, hinit, Store.lookupAt_zero hbinds.this]
    rfl
  | false =>
    cases ending with
    | returned v =>
      have hv : (pure v : Eval Value).Steps E m fun v s => E.Fine s v := .ret hs (hending v rfl)
      refine Steps.of_eq ?_ hv
      simp [answerOf, hinit, pure, Eval.ret]
    | _ =>
      have hnil : (pure .nil : Eval Value).Steps E m fun v s => E.Fine s v := .ret hs trivial
      refine Steps.of_eq ?_ hnil
      simp [answerOf, hinit, pure, Eval.ret]

end Eval

end LoxLang
