import LoxLang.Proofs.Evaluation.Nesting

/-!
Where failures come from.

What fails is reported on a line of the step that fails, and whatever entered that step passes the report
on unchanged. So every report can be traced back to the activity that raised it. That there are too many
calls is raised by a call at the limit and nowhere else.
-/

set_option autoImplicit false

namespace LoxLang

/-- The lines on which evaluating the expression may fail once its operands are evaluated. -/
def Expr.ownLines : Expr → List Nat
  | .unary operator _ | .binary _ operator _ => [operator.line]
  | .variable target | .assign target _ | .this target => [target.name.line]
  | .get _ name | .set _ name _ => [name.line]
  | .super keyword method => [keyword.name.line, method.line]
  | .literal _ | .grouping _ | .logical _ _ _ | .conditional _ _ _ | .call _ _ _ => []

def Task.ownLines : Task → List Nat
  | .evaluate e => e.ownLines
  | .call line _ _ | .invoke line _ _ => [line]
  | .execute (.declareClass name base _) => name.line :: (base.map fun target => target.name.line).toList
  | .execute _ | .evaluateAll _ | .construct _ _ _ | .render _ _ | .executeAll _ | .iterate _ _ _ => []

namespace Eval

/-- The computation fails on these lines only, and not because there are too many calls. -/
def FailsOn {α : Type} (act : Eval α) (lines : List Nat) (m : Machine) : Prop :=
  act.Ensures m (fun _ _ => True) fun f _ =>
    ∀ line cause, f = .runtime line cause → line ∈ lines ∧ cause ≠ .stackOverflow

namespace FailsOn

variable {α β : Type} {m : Machine} {lines : List Nat}

theorem ret (v : α) : (pure v : Eval α).FailsOn lines m := trivial

theorem fail {line : Nat} {cause : RuntimeError} (hline : line ∈ lines) (h : cause ≠ .stackOverflow) :
    (fail line cause : Eval α).FailsOn lines m := by
  rintro _ _ ⟨⟩
  exact ⟨hline, h⟩

theorem ofExcept {line : Nat} {x : Except RuntimeError α} (hline : line ∈ lines)
    (h : x ≠ .error .stackOverflow) : (ofExcept line x).FailsOn lines m := by
  refine Ensures.ofExcept (fun _ _ => trivial) ?_
  rintro cause rfl _ _ ⟨⟩
  exact ⟨hline, fun hcause => h (hcause ▸ rfl)⟩

theorem view {f : Machine → α} : (view f).FailsOn lines m := trivial

theorem update {f : Store → α × Store} : (update f).FailsOn lines m := trivial

theorem bind {act : Eval α} {next : α → Eval β} (h : act.FailsOn lines m)
    (hnext : ∀ v m', (next v).FailsOn lines m') : (act >>= next).FailsOn lines m :=
  Ensures.bind h fun v m' _ _ => hnext v m'

theorem viewThen {next : α → Eval β} {f : Machine → α} (h : (next (f m)).FailsOn lines m) :
    (Eval.view f >>= next).FailsOn lines m := h

theorem mono {act : Eval α} {more : List Nat} (h : act.FailsOn lines m) (hmore : lines ⊆ more) :
    act.FailsOn more m :=
  Ensures.imp h (fun _ _ h => h) fun _ _ hf line cause hcause =>
    (hf line cause hcause).imp_left fun hline => hmore hline

end FailsOn

theorem failsOn_requireArity {m : Machine} (line arity given : Nat) :
    (requireArity line arity given).FailsOn [line] m := by
  unfold requireArity
  split
  · exact .ret _
  · exact .fail (by simp) (by simp)

theorem read_ne_stackOverflow {s : Store} {name : String} {holder : Except RuntimeError FrameId}
    (h : holder ≠ .error .stackOverflow) : s.read name holder ≠ .error .stackOverflow := by
  unfold Store.read
  split
  · exact fun hcause => h (by simpa using hcause)
  · split <;> simp

theorem holder_ne_stackOverflow (s : Store) (frame : FrameId) (name : String) :
    s.holder frame name ≠ .error .stackOverflow := by
  unfold Store.holder
  split <;> simp

theorem holderAt_ne_stackOverflow (s : Store) (frame : FrameId) (distance : Nat) (name : String) :
    s.holderAt frame distance name ≠ .error .stackOverflow := by
  unfold Store.holderAt
  split
  · simp
  · split <;> simp

theorem lookupAt_ne_stackOverflow (s : Store) (frame : FrameId) (distance : Nat) (name : String) :
    s.lookupAt frame distance name ≠ .error .stackOverflow :=
  read_ne_stackOverflow (holderAt_ne_stackOverflow s frame distance name)

theorem failsOn_lookUp {m : Machine} (target : Reference) :
    (lookUp target).FailsOn [target.name.line] m := by
  cases h : m.hops[target.id]? with
  | none =>
    have hread : m.store.lookup Store.globals target.name.lexeme ≠ .error .stackOverflow :=
      read_ne_stackOverflow (holder_ne_stackOverflow _ _ _)
    have hfound : (ofExcept target.name.line _).FailsOn [target.name.line] m :=
      .ofExcept List.mem_cons_self hread
    refine Ensures.of_eq ?_ hfound
    simp [lookUp, h]
  | some distance =>
    have hread := lookupAt_ne_stackOverflow m.store m.cursor distance target.name.lexeme
    have hfound : (ofExcept target.name.line _).FailsOn [target.name.line] m :=
      .ofExcept List.mem_cons_self hread
    refine Ensures.of_eq ?_ hfound
    simp [lookUp, h]

theorem failsOn_assign {m : Machine} (target : Reference) (value : Value) :
    (assign target value).FailsOn [target.name.line] m := by
  unfold assign
  refine .bind .view fun cursor m' => .bind .view fun hops m' => ?_
  split
  · refine .viewThen (.bind (.ofExcept ?_ (holderAt_ne_stackOverflow _ _ _ _)) fun _ _ => .update)
    exact List.mem_cons_self
  · refine .viewThen (.bind (.ofExcept ?_ (holder_ne_stackOverflow _ _ _)) fun _ _ => .update)
    exact List.mem_cons_self

theorem failsOn_define {m : Machine} {lines : List Nat} (name : String) (value : Value) :
    (define name value).FailsOn lines m :=
  .bind .view fun _ _ => .update

theorem failsOn_bindMethod {m : Machine} {lines : List Nat} (method : FunctionId) (object : ObjectId) :
    (bindMethod method object).FailsOn lines m := .update

theorem failsOn_property {m : Machine} (object : Value) (name : Token) :
    (property object name).FailsOn [name.line] m := by
  unfold property
  split
  · refine .viewThen (.bind (.ofExcept List.mem_cons_self ?_) fun property m' => ?_)
    · unfold Store.property
      split
      · simp
      · split <;> simp
    · split
      · exact .ret _
      · exact .bind (failsOn_bindMethod _ _) fun _ _ => .ret _
  · exact .fail (by simp) (by simp)

theorem failsOn_superMethod {m : Machine} (keyword : Reference) (method : Token) :
    (superMethod keyword method).FailsOn [keyword.name.line, method.line] m := by
  unfold superMethod
  refine .bind .view fun hops m₁ => ?_
  split
  · exact .fail (by simp) (by simp)
  · refine .bind .view fun _ m₂ => .bind .view fun store m₃ => ?_
    refine .bind (.ofExcept (by simp) (lookupAt_ne_stackOverflow _ _ _ _)) fun superclass m₄ => ?_
    split
    · refine .bind (.ofExcept (by simp) (lookupAt_ne_stackOverflow _ _ _ _)) fun this m₅ => ?_
      split
      · split
        · exact .bind (failsOn_bindMethod _ _) fun _ _ => .ret _
        · exact .fail (by simp) (by simp)
      · exact .fail (by simp) (by simp)
    · exact .fail (by simp) (by simp)

theorem failsOn_runNative {m : Machine} (line : Nat) (function : Native) (arguments : List Value) :
    (runNative line function arguments).FailsOn [line] m := by
  unfold runNative
  split
  · exact .bind trivial fun _ _ => .ret _
  · refine .bind (Ensures.takeLine trivial) fun v m' => ?_
    split
    · exact .ret _
    · exact .ret _
    · exact .fail (by simp) (by simp)
  · refine .ofExcept List.mem_cons_self ?_
    unfold parseNumber
    split
    · simp
    · split <;> simp
    · simp
  · exact .fail (by simp) (by simp)

theorem position_ne_stackOverflow (index : Value) (length : Nat) :
    index.position length ≠ .error .stackOverflow := by
  unfold Value.position
  split
  · split <;> simp
  · simp

theorem applyBinary_ne_stackOverflow (operator : Token) (left right : Value) :
    applyBinary operator left right ≠ .error .stackOverflow := by
  unfold applyBinary
  split
  · unfold addValues
    split <;> simp
  · simp
  · simp
  · split
    · unfold applyToNumbers
      split <;> simp
    · simp

theorem failsOn_runArrayMethod {m : Machine} (line : Nat) (f : Function) (method : ArrayMethod)
    (arguments : List Value) : (runArrayMethod line f method arguments).FailsOn [line] m := by
  unfold runArrayMethod
  refine .bind .view fun store m' => ?_
  split
  · exact .fail (by simp) (by simp)
  · refine .viewThen (.bind (.ofExcept List.mem_cons_self ?_) fun _ _ => .bind .update fun _ _ => .ret _)
    unfold ArrayMethod.answer
    split
    · simp
    · simp
    · split
      · simp
      · rename_i h
        intro hcause
        cases hcause
        exact position_ne_stackOverflow _ _ h
    · split
      · simp
      · rename_i h
        intro hcause
        cases hcause
        exact position_ne_stackOverflow _ _ h
    · simp
    · split <;> simp
    · simp

theorem failsOn_parameterFrame {m : Machine} {lines : List Nat} (closure : FrameId)
    (parameters : List Token) (arguments : List Value) :
    (parameterFrame closure parameters arguments).FailsOn lines m :=
  .bind .update fun _ _ => .bind .update fun _ _ => .ret _

theorem failsOn_answerOf {m : Machine} (line : Nat) (f : Function) (ending : Ending) :
    (answerOf line f ending).FailsOn [line] m := by
  cases h : f.initializes with
  | true =>
    have hread := lookupAt_ne_stackOverflow m.store f.closure 0 "this"
    have hfound : (ofExcept line _).FailsOn [line] m := .ofExcept List.mem_cons_self hread
    refine Ensures.of_eq ?_ hfound
    simp [answerOf, h]
  | false =>
    cases ending with
    | returned value =>
      exact Ensures.of_eq (by simp [answerOf, h, pure, Eval.ret]) (FailsOn.ret value)
    | _ => exact Ensures.of_eq (by simp [answerOf, h, pure, Eval.ret]) (FailsOn.ret Value.nil)

theorem failsOn_makeMethods {m : Machine} {lines : List Nat} (closure : FrameId)
    (ds : List Declaration) (methods : Dictionary FunctionId) :
    (makeMethods closure ds methods).FailsOn lines m := by
  induction ds generalizing methods m with
  | nil => exact .ret _
  | cons d rest ih => exact .bind .update fun _ _ => ih _

theorem failsOn_superclassOf {m : Machine} (base : Option Reference) :
    (superclassOf base).FailsOn (base.map fun target => target.name.line).toList m := by
  cases base with
  | none => exact .ret _
  | some target =>
    refine .bind (failsOn_lookUp target) fun v _ => ?_
    cases v <;> first | exact .ret _ | exact .fail List.mem_cons_self (by simp)

theorem failsOn_methodFrame {m : Machine} {lines : List Nat} (superclass : Option ClassId) :
    (methodFrame superclass).FailsOn lines m := by
  cases superclass with
  | none => exact .view
  | some id => exact .bind (.bind .view fun _ _ => .update) fun _ _ => .bind .update fun _ _ => .ret _

theorem failsOn_declareClass {m : Machine} (name : Token) (base : Option Reference)
    (ds : List Declaration) :
    (declareClass name base ds).FailsOn
      (name.line :: (base.map fun target => target.name.line).toList) m := by
  unfold declareClass
  refine .bind ((failsOn_superclassOf base).mono (List.subset_cons_self _ _)) fun _ _ => ?_
  refine .bind (failsOn_define _ _) fun _ _ => .bind (failsOn_methodFrame _) fun _ _ => ?_
  refine .bind (failsOn_makeMethods _ _ _) fun _ _ => .bind .update fun _ _ => .viewThen ?_
  exact .bind (.ofExcept List.mem_cons_self (holder_ne_stackOverflow _ _ _)) fun _ _ => .update

theorem failsOn_emit {m : Machine} {lines : List Nat} (line : String) : (emit line).FailsOn lines m :=
  Ensures.emit (fun _ _ => trivial) fun _ _ _ _ h => nomatch h

end Eval

namespace Activity

variable {a b : Activity}

def Goes (a b : Activity) : Prop :=
  (∃ change, a.Enters change b) ∨ ∃ id d frame, a.Invokes id d frame b

/-- The activity itself fails on the line: in a step of its own, or as a call at the limit. -/
def Raises (a : Activity) (line : Nat) (cause : RuntimeError) : Prop :=
  line ∈ a.task.ownLines ∧ cause ≠ .stackOverflow ∨
    cause = .stackOverflow ∧ a.Requests line ∧ callLimit ≤ a.machine.calls

theorem Raises.requests {line : Nat} (h : a.Raises line .stackOverflow) :
    a.Requests line ∧ callLimit ≤ a.machine.calls := by
  rcases h with ⟨-, h⟩ | ⟨-, h⟩
  · exact absurd rfl h
  · exact h

def Blames (a : Activity) (f : Fault) : Prop :=
  ∀ line cause, f = .runtime line cause →
    a.Raises line cause ∨ ∃ b m, a.Goes b ∧ b.outcome = .fault f m

section

variable {α : Type} {act : Eval α} {m : Machine}

theorem blames_of_goes (h : a.Goes b) (hb : b.outcome = (act m).forget) :
    act.Ensures m (fun _ _ => True) fun f _ => a.Blames f := by
  refine .intro (fun _ _ _ => trivial) fun _ m' hf line cause _ => ?_
  rw [hf] at hb
  exact .inr ⟨b, m', h, hb⟩

theorem blames_of_enters {change : Context → Context} (h : a.Enters change b)
    (hb : b.outcome = (act m).forget) : act.Ensures m (fun _ _ => True) fun f _ => a.Blames f :=
  blames_of_goes (.inl ⟨change, h⟩) hb

end

end Activity

theorem Eval.FailsOn.blames {α : Type} {act : Eval α} {m : Machine} {lines : List Nat} {a : Activity}
    (h : act.FailsOn lines m) (hlines : lines = a.task.ownLines) :
    act.Ensures m (fun _ _ => True) fun f _ => a.Blames f :=
  h.imp (fun _ _ h => h) fun _ _ hf line cause hcause =>
    .inl (.inl ((hf line cause hcause).imp_left fun hline => hlines ▸ hline))

namespace Activity

open Eval

variable {a b : Activity}

theorem blames_evaluate (fuel : Nat) (e : Expr) (m : Machine) :
    (LoxLang.evaluate (fuel + 1) e).Ensures m (fun _ _ => True)
      fun f _ => Blames ⟨fuel + 1, .evaluate e, m⟩ f := by
  cases e with
  | literal value =>
    rw [LoxLang.evaluate]
    exact (FailsOn.ret _).blames rfl
  | grouping inner =>
    rw [LoxLang.evaluate]
    exact blames_of_enters .grouping rfl
  | unary operator right =>
    rw [LoxLang.evaluate]
    refine .bind (blames_of_enters .unary rfl) fun v m₁ hv _ => ?_
    refine (FailsOn.ofExcept (List.mem_singleton_self _) ?_).blames rfl
    unfold applyUnary
    split
    · split <;> simp
    · simp
    · simp
  | binary left operator right =>
    rw [LoxLang.evaluate]
    refine .bind (blames_of_enters .binaryLeft rfl) fun v m₁ hv _ => ?_
    refine .bind (blames_of_enters (.binaryRight hv) rfl) fun w m₂ hw _ => ?_
    have happlied := applyBinary_ne_stackOverflow operator v w
    exact (FailsOn.ofExcept (List.mem_singleton_self _) happlied).blames rfl
  | logical left operator right =>
    rw [LoxLang.evaluate]
    refine .bind (blames_of_enters .logicalLeft rfl) fun v m₁ hv _ => ?_
    split
    · exact (FailsOn.ret _).blames rfl
    · rename_i hdecided
      exact blames_of_enters (.logicalRight hv (by simpa using hdecided)) rfl
  | conditional condition thenBranch elseBranch =>
    rw [LoxLang.evaluate]
    refine .bind (blames_of_enters .condition rfl) fun v m₁ hv _ => ?_
    split
    · rename_i htruthy
      cases thenBranch with
      | some thenBranch => exact blames_of_enters (.conditionalThen hv htruthy) rfl
      | none => exact (FailsOn.ret _).blames rfl
    · rename_i htruthy
      exact blames_of_enters (.conditionalElse hv (by simpa using htruthy)) rfl
  | «variable» target =>
    rw [LoxLang.evaluate]
    exact (failsOn_lookUp target).blames rfl
  | assign target value =>
    rw [LoxLang.evaluate]
    refine .bind (blames_of_enters .assigned rfl) fun v m₁ hv _ => ?_
    exact .bind ((failsOn_assign _ _).blames rfl) fun _ _ _ _ => trivial
  | call callee paren arguments =>
    rw [LoxLang.evaluate]
    refine .bind (blames_of_enters .callee rfl) fun v m₁ hv _ => ?_
    refine .bind (blames_of_enters (.arguments hv) rfl) fun vs m₂ hvs _ => ?_
    exact blames_of_enters (.call hv hvs) rfl
  | get object name =>
    rw [LoxLang.evaluate]
    refine .bind (blames_of_enters .gotten rfl) fun v m₁ hv _ => ?_
    exact (failsOn_property _ _).blames rfl
  | set object name value =>
    rw [LoxLang.evaluate]
    refine .bind (blames_of_enters .changed rfl) fun v m₁ hv _ => ?_
    split
    · refine .bind (blames_of_enters (.newValue hv) rfl) fun w m₂ hw _ => ?_
      exact .bind (FailsOn.update.blames rfl) fun _ _ _ _ => trivial
    · exact (FailsOn.fail List.mem_cons_self (by simp)).blames rfl
  | this keyword =>
    rw [LoxLang.evaluate]
    exact (failsOn_lookUp keyword).blames rfl
  | super keyword method =>
    rw [LoxLang.evaluate]
    exact (failsOn_superMethod keyword method).blames rfl

theorem blames_evaluateAll (fuel : Nat) (es : List Expr) (m : Machine) :
    (LoxLang.evaluateAll (fuel + 1) es).Ensures m (fun _ _ => True)
      fun f _ => Blames ⟨fuel + 1, .evaluateAll es, m⟩ f := by
  cases es with
  | nil =>
    rw [LoxLang.evaluateAll]
    exact (FailsOn.ret _).blames rfl
  | cons e rest =>
    rw [LoxLang.evaluateAll]
    refine .bind (blames_of_enters .first rfl) fun v m₁ hv _ => ?_
    exact .bind (blames_of_enters (.others hv) rfl) fun _ _ _ _ => trivial

theorem blames_deeper {α : Type} {act : Eval α} {a : Activity} {line : Nat} {m : Machine}
    (hrequests : a.Requests line) (hm : m.calls = a.machine.calls)
    (h : m.calls < callLimit →
      act.Ensures { m with calls := m.calls + 1 } (fun _ _ => True) fun f _ => a.Blames f) :
    (deeper line act).Ensures m (fun _ _ => True) fun f _ => a.Blames f := by
  refine Ensures.deeper (fun hfull => ?_) h
  rintro _ _ ⟨⟩
  exact .inl (.inr ⟨rfl, hrequests, hm ▸ hfull⟩)

theorem blames_call (fuel line : Nat) (callee : Value) (vs : List Value) (m : Machine) :
    (LoxLang.call (fuel + 1) line callee vs).Ensures m (fun _ _ => True)
      fun f _ => Blames ⟨fuel + 1, .call line callee vs, m⟩ f := by
  have arity : ∀ n k : Nat, (requireArity line n k).Ensures m (fun _ m' => n = k ∧ m' = m)
      fun f _ => Blames ⟨fuel + 1, .call line callee vs, m⟩ f := by
    intro n k
    exact .intro (fun _ m' hm => requireArity_answer.mp hm) fun _ m' hf =>
      ((failsOn_requireArity line n k).blames rfl).fault hf
  cases callee with
  | native function =>
    rw [LoxLang.call]
    refine .bind (arity _ _) ?_
    rintro _ _ _ ⟨harity, rfl⟩
    exact blames_deeper (.native harity) rfl fun _ => (failsOn_runNative _ _ _).blames rfl
  | function id =>
    rw [LoxLang.call]
    refine .viewThen (.bind (arity _ _) ?_)
    rintro _ _ _ ⟨harity, rfl⟩
    exact blames_deeper (.function harity) rfl fun hcalls =>
      blames_of_enters (.function harity hcalls) rfl
  | classValue id =>
    rw [LoxLang.call]
    refine .viewThen (.bind (arity _ _) ?_)
    rintro _ _ _ ⟨harity, rfl⟩
    exact blames_deeper (.classCall harity) rfl fun hcalls =>
      blames_of_enters (.classCall harity hcalls) rfl
  | _ =>
    rw [LoxLang.call]
    · exact (FailsOn.fail List.mem_cons_self (by simp)).blames rfl
    all_goals simp

theorem blames_invoke (fuel line : Nat) (id : FunctionId) (vs : List Value) (m : Machine) :
    (LoxLang.invoke (fuel + 1) line id vs).Ensures m (fun _ _ => True)
      fun f _ => Blames ⟨fuel + 1, .invoke line id vs, m⟩ f := by
  rw [LoxLang.invoke]
  refine .viewThen ?_
  split
  · exact (FailsOn.fail List.mem_cons_self (by simp)).blames rfl
  · rename_i f hf
    split
    · exact (failsOn_runArrayMethod _ _ _ _).blames rfl
    · rename_i d hc
      refine .bind ((failsOn_parameterFrame _ _ _).blames rfl) fun frame m₁ hframe _ => ?_
      have hbody : (within frame (LoxLang.executeAll fuel d.body)).Ensures m₁ (fun _ _ => True)
          fun cause _ => Blames ⟨fuel + 1, .invoke line id vs, m⟩ cause :=
        .within (blames_of_goes (.inr ⟨id, d, frame, .body hf hc hframe⟩) rfl)
      exact .bind hbody fun ending _ _ _ => (failsOn_answerOf line f ending).blames rfl

theorem blames_construct (fuel line : Nat) (id : ClassId) (vs : List Value) (m : Machine) :
    (LoxLang.construct (fuel + 1) line id vs).Ensures m (fun _ _ => True)
      fun f _ => Blames ⟨fuel + 1, .construct line id vs, m⟩ f := by
  rw [LoxLang.construct]
  refine .bind (FailsOn.update.blames rfl) fun object m₁ hobject _ => .viewThen ?_
  split
  · exact (FailsOn.ret _).blames rfl
  · rename_i method hmethod
    refine .bind ((failsOn_bindMethod _ _).blames rfl) fun bound m₂ hbound _ => ?_
    exact .bind (blames_of_enters (.initializer hobject hmethod hbound) rfl) fun _ _ _ _ => trivial

theorem blames_render (fuel line : Nat) (value : Value) (m : Machine) :
    (LoxLang.render (fuel + 1) line value).Ensures m (fun _ _ => True)
      fun f _ => Blames ⟨fuel + 1, .render line value, m⟩ f := by
  cases value with
  | object object =>
    rw [LoxLang.render]
    refine .viewThen ?_
    split
    · exact (FailsOn.ret _).blames rfl
    · rename_i method hmethod
      split
      · rename_i harity
        refine .bind ((failsOn_bindMethod _ _).blames rfl) fun bound m₁ hbound _ => ?_
        have hcalls := ((keeps_bindMethod _ _ (stored_any _)).answer hbound).calls
        refine blames_deeper (.text hmethod harity) hcalls fun hlimit => ?_
        refine .bind (blames_of_enters (.text hmethod harity hbound hlimit) rfl) fun v m₂ hv _ => ?_
        exact blames_of_enters (.textOf hmethod harity hbound hlimit hv) rfl
      · exact (FailsOn.ret _).blames rfl
  | _ =>
    rw [LoxLang.render]
    · exact .viewThen ((FailsOn.ret _).blames rfl)
    · simp

theorem blames_execute (fuel : Nat) (s : Stmt) (m : Machine) :
    (LoxLang.execute (fuel + 1) s).Ensures m (fun _ _ => True)
      fun f _ => Blames ⟨fuel + 1, .execute s, m⟩ f := by
  cases s with
  | expression value =>
    rw [LoxLang.execute]
    exact .bind (blames_of_enters .expression rfl) fun _ _ _ _ => trivial
  | print value =>
    rw [LoxLang.execute]
    refine .bind (blames_of_enters .printed rfl) fun v m₁ hv _ => ?_
    refine .bind (blames_of_enters (.print hv) rfl) fun _ _ _ _ => ?_
    exact .bind ((failsOn_emit _).blames rfl) fun _ _ _ _ => trivial
  | declareVar name initializer =>
    cases initializer with
    | none =>
      rw [LoxLang.execute]
      refine .bind ((FailsOn.ret _).blames rfl) fun _ _ _ _ => ?_
      exact .bind ((failsOn_define _ _).blames rfl) fun _ _ _ _ => trivial
    | some value =>
      rw [LoxLang.execute]
      refine .bind (blames_of_enters .declareVar rfl) fun _ _ _ _ => ?_
      exact .bind ((failsOn_define _ _).blames rfl) fun _ _ _ _ => trivial
  | block body =>
    rw [LoxLang.execute]
    exact .innerThen (.within (blames_of_enters .block rfl))
  | branch condition thenBranch elseBranch =>
    rw [LoxLang.execute.eq_def]
    refine .bind (blames_of_enters .branchCondition rfl) fun v m₁ hv _ => ?_
    split
    · rename_i htruthy
      exact blames_of_enters (.branchThen hv htruthy) rfl
    · rename_i htruthy
      cases elseBranch with
      | none => exact (FailsOn.ret _).blames rfl
      | some e => exact blames_of_enters (.branchElse hv (by simpa using htruthy)) rfl
  | loop initializer condition increment body =>
    cases initializer with
    | none =>
      rw [LoxLang.execute]
      exact blames_of_enters .loop rfl
    | some initializer =>
      rw [LoxLang.execute]
      refine .innerThen (.within ?_)
      refine .bind (blames_of_enters .loopStart rfl) fun ending m₁ hi _ => ?_
      exact blames_of_enters (.started hi) rfl
  | declareFunction d =>
    rw [LoxLang.execute]
    refine .viewThen (.bind (FailsOn.update.blames rfl) fun _ _ _ _ => ?_)
    exact .bind ((failsOn_define _ _).blames rfl) fun _ _ _ _ => trivial
  | returnWith keyword value =>
    cases value with
    | none =>
      rw [LoxLang.execute]
      exact (FailsOn.ret _).blames rfl
    | some value =>
      rw [LoxLang.execute]
      exact .bind (blames_of_enters .returned rfl) fun _ _ _ _ => trivial
  | breakLoop keyword | continueLoop keyword =>
    rw [LoxLang.execute]
    exact (FailsOn.ret _).blames rfl
  | declareClass name base ds =>
    rw [LoxLang.execute]
    exact .bind ((failsOn_declareClass _ _ _).blames rfl) fun _ _ _ _ => trivial

theorem blames_executeAll (fuel : Nat) (body : List Stmt) (m : Machine) :
    (LoxLang.executeAll (fuel + 1) body).Ensures m (fun _ _ => True)
      fun f _ => Blames ⟨fuel + 1, .executeAll body, m⟩ f := by
  cases body with
  | nil =>
    rw [LoxLang.executeAll]
    exact (FailsOn.ret _).blames rfl
  | cons s rest =>
    rw [LoxLang.executeAll]
    refine .bind (blames_of_enters .head rfl) fun ending m₁ hs _ => ?_
    cases ending with
    | normal => exact blames_of_enters (.tail hs) rfl
    | _ => exact (FailsOn.ret _).blames rfl

theorem blames_iterate (fuel : Nat) (c : Expr) (n : Option Stmt) (b : Stmt) (m : Machine) :
    (LoxLang.iterate (fuel + 1) c n b).Ensures m (fun _ _ => True)
      fun f _ => Blames ⟨fuel + 1, .iterate c n b, m⟩ f := by
  rw [LoxLang.iterate.eq_def]
  refine .bind (blames_of_enters .loopCondition rfl) fun v m₁ hv _ => ?_
  split
  · rename_i htruthy
    refine .bind (blames_of_enters (.body hv htruthy) rfl) fun ending m₂ hb _ => ?_
    cases ending with
    | broke | returned => exact (FailsOn.ret _).blames rfl
    | normal | continued =>
      cases n with
      | none => exact blames_of_enters (.again hv htruthy hb (by simp)) rfl
      | some n =>
        refine .bind (blames_of_enters (.increment hv htruthy hb (by simp)) rfl) fun w m₃ hw _ => ?_
        exact blames_of_enters (.incremented hv htruthy hb (by simp) hw) rfl
  · exact (FailsOn.ret _).blames rfl

/-- Whatever fails, the activity itself is to blame or one that it went to. -/
theorem blames {f : Fault} {m' : Machine} (h : a.outcome = .fault f m') : a.Blames f := by
  obtain ⟨fuel, task, m⟩ := a
  cases fuel with
  | zero =>
    cases task <;>
      simp [outcome, LoxLang.evaluate, LoxLang.evaluateAll, LoxLang.call, LoxLang.invoke,
        LoxLang.construct, LoxLang.render, LoxLang.execute, LoxLang.executeAll, LoxLang.iterate,
        Eval.outOfFuel, Outcome.forget] at h
  | succ fuel =>
    cases task with
    | evaluate e => exact (blames_evaluate fuel e m).fault (Outcome.fault_of_forget h)
    | evaluateAll es => exact (blames_evaluateAll fuel es m).fault (Outcome.fault_of_forget h)
    | call line callee vs => exact (blames_call fuel line callee vs m).fault (Outcome.fault_of_forget h)
    | invoke line id vs => exact (blames_invoke fuel line id vs m).fault (Outcome.fault_of_forget h)
    | construct line id vs =>
      exact (blames_construct fuel line id vs m).fault (Outcome.fault_of_forget h)
    | render line v => exact (blames_render fuel line v m).fault (Outcome.fault_of_forget h)
    | execute s => exact (blames_execute fuel s m).fault (Outcome.fault_of_forget h)
    | executeAll body => exact (blames_executeAll fuel body m).fault (Outcome.fault_of_forget h)
    | iterate c n b => exact (blames_iterate fuel c n b m).fault (Outcome.fault_of_forget h)

theorem Goes.fuel_lt (h : a.Goes b) : b.fuel < a.fuel := by
  rcases h with ⟨change, h⟩ | ⟨id, d, frame, h⟩
  · cases h <;> exact Nat.lt_succ_self _
  · cases h
    exact Nat.lt_succ_self _

/-- Too many calls are reported only if there is a call at the limit. -/
theorem exists_request {line : Nat} {m' : Machine}
    (h : a.outcome = .fault (.runtime line .stackOverflow) m') :
    ∃ b n, a.Nests b n ∧ b.Requests line ∧ callLimit ≤ b.machine.calls := by
  -- Down the activities that fail in the same way: each has less fuel than the one before.
  induction hfuel : a.fuel using Nat.strong_induction_on generalizing a m' with
  | _ fuel ih =>
    rcases blames h line _ rfl with hraised | ⟨b, m₁, hgoes, hb⟩
    · obtain ⟨hrequests, hfull⟩ := hraised.requests
      exact ⟨a, 0, .self, hrequests, hfull⟩
    · obtain ⟨c, n, hnests, hrequests, hfull⟩ := ih b.fuel (hfuel ▸ hgoes.fuel_lt) hb rfl
      rcases hgoes with ⟨change, hgoes⟩ | ⟨id, d, frame, hgoes⟩
      · exact ⟨c, _, hnests.ofPart hgoes, hrequests, hfull⟩
      · exact ⟨c, _, hnests.ofBody hgoes, hrequests, hfull⟩

theorem Requests.refused_iff {line : Nat} (h : a.Requests line) :
    a.Refused line ↔ callLimit ≤ a.machine.calls := by
  constructor
  · rintro ⟨⟨m', hfault⟩, hnone⟩
    by_contra hcalls
    have hcalls : a.machine.calls < callLimit := Nat.lt_of_not_le hcalls
    -- Below the limit a call enters its callee, or the built-in function runs, which cannot fail in this
    -- way.
    cases h with
    | native =>
      rcases blames hfault line _ rfl with hraised | ⟨b, m₁, ⟨change, h⟩ | ⟨id, d, frame, h⟩, -⟩
      · exact absurd hraised.requests.2 (Nat.not_le.mpr hcalls)
      · cases h
      · cases h
    | function harity => exact hnone _ _ (.function harity hcalls)
    | classCall harity => exact hnone _ _ (.classCall harity hcalls)
    | @text fuel line m object method hmethod harity =>
      have hbound : Eval.bindMethod method object m =
          .answer (m.store.bindMethod method object).1
            { m with store := (m.store.bindMethod method object).2 } := rfl
      exact hnone _ _ (.text hmethod harity hbound hcalls)
  · intro hfull
    refine ⟨?_, fun change b henters => ?_⟩
    · cases h with
      | @native fuel line m f vs harity =>
        refine ⟨m, ?_⟩
        simp only [outcome, LoxLang.call, requireArity, harity, if_true]
        exact congrArg Outcome.forget (if_pos hfull)
      | @function fuel line m f vs harity =>
        refine ⟨m, ?_⟩
        simp only [outcome, LoxLang.call]
        change ((requireArity line (m.store.functionArity f) vs.length >>= fun _ => _) m).forget = _
        rw [requireArity, if_pos harity]
        exact congrArg Outcome.forget (if_pos hfull)
      | @classCall fuel line m c vs harity =>
        refine ⟨m, ?_⟩
        simp only [outcome, LoxLang.call]
        change ((requireArity line (m.store.classArity c) vs.length >>= fun _ => _) m).forget = _
        rw [requireArity, if_pos harity]
        exact congrArg Outcome.forget (if_pos hfull)
      | @text fuel line m object method hmethod harity =>
        refine ⟨{ m with store := (m.store.bindMethod method object).2 }, ?_⟩
        simp only [outcome, LoxLang.render]
        have hview : view Machine.store m = .answer m.store m := rfl
        rw [bind_of_answer hview]
        simp only [hmethod, harity, if_true]
        exact congrArg Outcome.forget (if_pos hfull)
    · have hopened : a.task.opened = 1 := by cases h <;> rfl
      exact absurd hfull (Nat.not_le.mpr (henters.calls.2 hopened))

end Activity

end LoxLang
