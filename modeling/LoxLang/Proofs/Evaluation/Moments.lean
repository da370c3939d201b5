import LoxLang.Proofs.Evaluation.Faults
import LoxLang.Proofs.Evaluation.Truncation

/-!
The moments at which an activity prints.

A moment is a text and the machine on which it is about to be printed. A sink with a cap stops an
activity at a moment at which the sink has as many lines as the cap says, if there is such a moment, and
otherwise makes no difference.
-/

set_option autoImplicit false

namespace LoxLang

/-- The activity, or one that it entered, has come to print the text on the machine. -/
inductive Activity.Prints : Activity → String → Machine → Prop
  | print {fuel : Nat} {m m₁ m₂ : Machine} {e : Expr} {v : Value} {text : String} :
    LoxLang.evaluate fuel e m = .answer v m₁ → LoxLang.render fuel e.line v m₁ = .answer text m₂ →
    Prints ⟨fuel + 1, .execute (.print e), m⟩ text m₂
  | part {a b : Activity} {text : String} {m : Machine} : a.Goes b → Prints b text m → Prints a text m

namespace Eval

open Activity

/-- A cap stops every function of the evaluator at most, at a moment of its activity. -/
structure Truncating (cap : Limit) (fuel : Nat) : Prop where
  evaluate : ∀ e m, (evaluate fuel e).Truncates cap (Prints ⟨fuel, .evaluate e, m⟩) m
  evaluateAll : ∀ es m, (evaluateAll fuel es).Truncates cap (Prints ⟨fuel, .evaluateAll es, m⟩) m
  call : ∀ line callee vs m,
    (call fuel line callee vs).Truncates cap (Prints ⟨fuel, .call line callee vs, m⟩) m
  invoke : ∀ line id vs m,
    (invoke fuel line id vs).Truncates cap (Prints ⟨fuel, .invoke line id vs, m⟩) m
  construct : ∀ line id vs m,
    (construct fuel line id vs).Truncates cap (Prints ⟨fuel, .construct line id vs, m⟩) m
  render : ∀ line v m, (render fuel line v).Truncates cap (Prints ⟨fuel, .render line v, m⟩) m
  execute : ∀ s m, (execute fuel s).Truncates cap (Prints ⟨fuel, .execute s, m⟩) m
  executeAll : ∀ body m,
    (executeAll fuel body).Truncates cap (Prints ⟨fuel, .executeAll body, m⟩) m
  iterate : ∀ c n b m, (iterate fuel c n b).Truncates cap (Prints ⟨fuel, .iterate c n b, m⟩) m

namespace Truncates

variable {α : Type} {cap : Limit} {act : Eval α} {a b : Activity} {m : Machine}

theorem part {change : Context → Context} (h : a.Enters change b)
    (hb : act.Truncates cap b.Prints m) : act.Truncates cap a.Prints m :=
  hb.enlarge fun _ _ => .part (.inl ⟨change, h⟩)

theorem body {id : FunctionId} {d : Declaration} {frame : FrameId} (h : a.Invokes id d frame b)
    (hb : act.Truncates cap b.Prints m) : act.Truncates cap a.Prints m :=
  hb.enlarge fun _ _ => .part (.inr ⟨id, d, frame, h⟩)

end Truncates

variable {cap : Limit} {fuel : Nat}

theorem Truncating.evaluate_succ (ih : Truncating cap fuel) (e : Expr) (m : Machine) :
    (LoxLang.evaluate (fuel + 1) e).Truncates cap (Prints ⟨fuel + 1, .evaluate e, m⟩) m := by
  cases e with
  | literal value =>
    rw [LoxLang.evaluate]
    exact .ret _
  | grouping inner =>
    rw [LoxLang.evaluate]
    exact .part .grouping (ih.evaluate inner m)
  | unary operator right =>
    rw [LoxLang.evaluate]
    exact .bind (.part .unary (ih.evaluate right m)) fun _ _ _ => .ofExcept _ _
  | binary left operator right =>
    rw [LoxLang.evaluate]
    refine .bind (.part .binaryLeft (ih.evaluate left m)) fun v m₁ hv => ?_
    exact .bind (.part (.binaryRight hv) (ih.evaluate right m₁)) fun _ _ _ => .ofExcept _ _
  | logical left operator right =>
    rw [LoxLang.evaluate]
    refine .bind (.part .logicalLeft (ih.evaluate left m)) fun v m₁ hv => ?_
    split
    · exact .ret _
    · rename_i hdecided
      exact .part (.logicalRight hv (by simpa using hdecided)) (ih.evaluate right m₁)
  | conditional condition thenBranch elseBranch =>
    rw [LoxLang.evaluate]
    refine .bind (.part .condition (ih.evaluate condition m)) fun v m₁ hv => ?_
    split
    · rename_i htruthy
      cases thenBranch with
      | some thenBranch => exact .part (.conditionalThen hv htruthy) (ih.evaluate thenBranch m₁)
      | none => exact .ret _
    · rename_i htruthy
      exact .part (.conditionalElse hv (by simpa using htruthy)) (ih.evaluate elseBranch m₁)
  | «variable» target =>
    rw [LoxLang.evaluate]
    exact .silent (silent_lookUp target)
  | assign target value =>
    rw [LoxLang.evaluate]
    refine .bind (.part .assigned (ih.evaluate value m)) fun v m₁ hv => ?_
    exact .bind (.silent (silent_assign _ _)) fun _ _ _ => .ret _
  | call callee paren arguments =>
    rw [LoxLang.evaluate]
    refine .bind (.part .callee (ih.evaluate callee m)) fun v m₁ hv => ?_
    refine .bind (.part (.arguments hv) (ih.evaluateAll arguments m₁)) fun vs m₂ hvs => ?_
    exact .part (.call hv hvs) (ih.call _ v vs m₂)
  | get object name =>
    rw [LoxLang.evaluate]
    refine .bind (.part .gotten (ih.evaluate object m)) fun v m₁ hv => ?_
    exact .silent (silent_property _ _)
  | set object name value =>
    rw [LoxLang.evaluate]
    refine .bind (.part .changed (ih.evaluate object m)) fun v m₁ hv => ?_
    split
    · refine .bind (.part (.newValue hv) (ih.evaluate value m₁)) fun w m₂ hw => ?_
      exact .bind (.silent (.update _)) fun _ _ _ => .ret _
    · exact .fail _ _
  | this keyword =>
    rw [LoxLang.evaluate]
    exact .silent (silent_lookUp keyword)
  | super keyword method =>
    rw [LoxLang.evaluate]
    exact .silent (silent_superMethod keyword method)

theorem Truncating.evaluateAll_succ (ih : Truncating cap fuel) (es : List Expr) (m : Machine) :
    (LoxLang.evaluateAll (fuel + 1) es).Truncates cap (Prints ⟨fuel + 1, .evaluateAll es, m⟩) m := by
  cases es with
  | nil =>
    rw [LoxLang.evaluateAll]
    exact .ret _
  | cons e rest =>
    rw [LoxLang.evaluateAll]
    refine .bind (.part .first (ih.evaluate e m)) fun v m₁ hv => ?_
    exact .bind (.part (.others hv) (ih.evaluateAll rest m₁)) fun _ _ _ => .ret _

theorem Truncating.call_succ (ih : Truncating cap fuel) (line : Nat) (callee : Value)
    (vs : List Value) (m : Machine) :
    (LoxLang.call (fuel + 1) line callee vs).Truncates cap
      (Prints ⟨fuel + 1, .call line callee vs, m⟩) m := by
  cases callee with
  | native function =>
    rw [LoxLang.call]
    refine .bind (.silent (silent_requireArity _ _ _)) fun _ m₁ _ => ?_
    exact .deeper fun _ => .silent (silent_runNative _ _ _)
  | function id =>
    rw [LoxLang.call]
    refine .viewThen (fun _ => rfl) (.bind (.silent (silent_requireArity _ _ _)) fun _ m₁ hm => ?_)
    obtain ⟨harity, rfl⟩ := requireArity_answer.mp hm
    exact .deeper fun hcalls => .part (.function harity hcalls) (ih.invoke line id vs _)
  | classValue id =>
    rw [LoxLang.call]
    refine .viewThen (fun _ => rfl) (.bind (.silent (silent_requireArity _ _ _)) fun _ m₁ hm => ?_)
    obtain ⟨harity, rfl⟩ := requireArity_answer.mp hm
    exact .deeper fun hcalls => .part (.classCall harity hcalls) (ih.construct line id vs _)
  | _ =>
    rw [LoxLang.call]
    · exact .fail _ _
    all_goals simp

theorem Truncating.invoke_succ (ih : Truncating cap fuel) (line : Nat) (id : FunctionId)
    (vs : List Value) (m : Machine) :
    (LoxLang.invoke (fuel + 1) line id vs).Truncates cap
      (Prints ⟨fuel + 1, .invoke line id vs, m⟩) m := by
  rw [LoxLang.invoke]
  refine .viewThen (fun _ => rfl) ?_
  split
  · exact .fail _ _
  · rename_i f hf
    split
    · exact .silent (silent_runArrayMethod _ _ _ _)
    · rename_i d hc
      refine .bind (.silent (silent_parameterFrame _ _ _)) fun frame m₁ hframe => ?_
      refine .bind (.within (.body (.body hf hc hframe) (ih.executeAll d.body _))) fun ending _ _ => ?_
      exact .silent (silent_answerOf line f ending)

theorem Truncating.construct_succ (ih : Truncating cap fuel) (line : Nat) (id : ClassId)
    (vs : List Value) (m : Machine) :
    (LoxLang.construct (fuel + 1) line id vs).Truncates cap
      (Prints ⟨fuel + 1, .construct line id vs, m⟩) m := by
  rw [LoxLang.construct]
  refine .bind (.silent (.update _)) fun object m₁ hobject => .viewThen (fun _ => rfl) ?_
  split
  · exact .ret _
  · rename_i method hmethod
    refine .bind (.silent (silent_bindMethod _ _)) fun bound m₂ hbound => ?_
    refine .bind (.part (.initializer hobject hmethod hbound) (ih.invoke line bound vs m₂)) ?_
    exact fun _ _ _ => .ret _

theorem Truncating.render_succ (ih : Truncating cap fuel) (line : Nat) (value : Value)
    (m : Machine) :
    (LoxLang.render (fuel + 1) line value).Truncates cap
      (Prints ⟨fuel + 1, .render line value, m⟩) m := by
  cases value with
  | object object =>
    rw [LoxLang.render]
    refine .viewThen (fun _ => rfl) ?_
    split
    · exact .ret _
    · rename_i method hmethod
      split
      · rename_i harity
        refine .bind (.silent (silent_bindMethod _ _)) fun bound m₁ hbound => ?_
        refine .deeper fun hcalls => ?_
        refine .bind (.part (.text hmethod harity hbound hcalls) (ih.invoke line bound [] _)) ?_
        exact fun v m₂ hv => .part (.textOf hmethod harity hbound hcalls hv) (ih.render line v m₂)
      · exact .ret _
  | _ =>
    rw [LoxLang.render]
    · exact .viewThen (fun _ => rfl) (.ret _)
    · simp

theorem Truncating.execute_succ (ih : Truncating cap fuel) (s : Stmt) (m : Machine) :
    (LoxLang.execute (fuel + 1) s).Truncates cap (Prints ⟨fuel + 1, .execute s, m⟩) m := by
  cases s with
  | expression value =>
    rw [LoxLang.execute]
    exact .bind (.part .expression (ih.evaluate value m)) fun _ _ _ => .ret _
  | print value =>
    rw [LoxLang.execute]
    refine .bind (.part .printed (ih.evaluate value m)) fun v m₁ hv => ?_
    refine .bind (.part (.print hv) (ih.render _ v m₁)) fun text m₂ htext => ?_
    exact .bind (.emit (.print hv htext)) fun _ _ _ => .ret _
  | declareVar name initializer =>
    cases initializer with
    | none =>
      rw [LoxLang.execute]
      refine .bind (.ret _) fun _ _ _ => ?_
      exact .bind (.silent (silent_define _ _)) fun _ _ _ => .ret _
    | some value =>
      rw [LoxLang.execute]
      refine .bind (.part .declareVar (ih.evaluate value m)) fun _ _ _ => ?_
      exact .bind (.silent (silent_define _ _)) fun _ _ _ => .ret _
  | block body =>
    rw [LoxLang.execute]
    refine .bind (.silent silent_innerFrame) ?_
    rintro frame m₁ ⟨⟩
    exact .within (.part .block (ih.executeAll body m.inner))
  | branch condition thenBranch elseBranch =>
    rw [LoxLang.execute.eq_def]
    refine .bind (.part .branchCondition (ih.evaluate condition m)) fun v m₁ hv => ?_
    split
    · rename_i htruthy
      exact .part (.branchThen hv htruthy) (ih.execute thenBranch m₁)
    · rename_i htruthy
      cases elseBranch with
      | none => exact .ret _
      | some e => exact .part (.branchElse hv (by simpa using htruthy)) (ih.execute e m₁)
  | loop initializer condition increment body =>
    cases initializer with
    | none =>
      rw [LoxLang.execute]
      exact .part .loop (ih.iterate condition increment body m)
    | some initializer =>
      rw [LoxLang.execute]
      refine .bind (.silent silent_innerFrame) ?_
      rintro frame m₁ ⟨⟩
      refine .within (.bind (.part .loopStart (ih.execute initializer m.inner)) fun ending m₂ hi => ?_)
      exact .part (.started hi) (ih.iterate condition increment body m₂)
  | declareFunction d =>
    rw [LoxLang.execute]
    refine .viewThen (fun _ => rfl) (.bind (.silent (.update _)) fun _ _ _ => ?_)
    exact .bind (.silent (silent_define _ _)) fun _ _ _ => .ret _
  | returnWith keyword value =>
    cases value with
    | none =>
      rw [LoxLang.execute]
      exact .ret _
    | some value =>
      rw [LoxLang.execute]
      exact .bind (.part .returned (ih.evaluate value m)) fun _ _ _ => .ret _
  | breakLoop keyword | continueLoop keyword =>
    rw [LoxLang.execute]
    exact .ret _
  | declareClass name base ds =>
    rw [LoxLang.execute]
    exact .bind (.silent (silent_declareClass _ _ _)) fun _ _ _ => .ret _

theorem Truncating.executeAll_succ (ih : Truncating cap fuel) (body : List Stmt) (m : Machine) :
    (LoxLang.executeAll (fuel + 1) body).Truncates cap
      (Prints ⟨fuel + 1, .executeAll body, m⟩) m := by
  cases body with
  | nil =>
    rw [LoxLang.executeAll]
    exact .ret _
  | cons s rest =>
    rw [LoxLang.executeAll]
    refine .bind (.part .head (ih.execute s m)) fun ending m₁ hs => ?_
    cases ending with
    | normal => exact .part (.tail hs) (ih.executeAll rest m₁)
    | _ => exact .ret _

theorem Truncating.iterate_succ (ih : Truncating cap fuel) (c : Expr) (n : Option Stmt) (b : Stmt)
    (m : Machine) :
    (LoxLang.iterate (fuel + 1) c n b).Truncates cap (Prints ⟨fuel + 1, .iterate c n b, m⟩) m := by
  rw [LoxLang.iterate.eq_def]
  refine .bind (.part .loopCondition (ih.evaluate c m)) fun v m₁ hv => ?_
  split
  · rename_i htruthy
    refine .bind (.part (.body hv htruthy) (ih.execute b m₁)) fun ending m₂ hb => ?_
    cases ending with
    | broke | returned => exact .ret _
    | normal | continued =>
      cases n with
      | none => exact .part (.again hv htruthy hb (by simp)) (ih.iterate c none b m₂)
      | some n =>
        refine .bind (.part (.increment hv htruthy hb (by simp)) (ih.execute n m₂)) fun w m₃ hw => ?_
        exact .part (.incremented hv htruthy hb (by simp) hw) (ih.iterate c (some n) b m₃)
  · exact .ret _

theorem truncating (cap : Limit) (fuel : Nat) : Truncating cap fuel := by
  induction fuel with
  | zero =>
    constructor <;> intros <;>
      simp only [LoxLang.evaluate, LoxLang.evaluateAll, LoxLang.call, LoxLang.invoke,
        LoxLang.construct, LoxLang.render, LoxLang.execute, LoxLang.executeAll, LoxLang.iterate] <;>
      exact .silent .outOfFuel
  | succ fuel ih =>
    exact
      { evaluate := ih.evaluate_succ
        evaluateAll := ih.evaluateAll_succ
        call := ih.call_succ
        invoke := ih.invoke_succ
        construct := ih.construct_succ
        render := ih.render_succ
        execute := ih.execute_succ
        executeAll := ih.executeAll_succ
        iterate := ih.iterate_succ }

section

variable {m m' x : Machine} {e : Expr} {text : String}

theorem evaluate_prolongs {v : Value} (h : LoxLang.evaluate fuel e m = .answer v m') :
    m.sink.Prolonged m'.sink := ((truncating default fuel).evaluate e m).prolongs.answer h

theorem render_prolongs {line : Nat} {v : Value} (h : LoxLang.render fuel line v m = .answer text m') :
    m.sink.Prolonged m'.sink := ((truncating default fuel).render line v m).prolongs.answer h

theorem execute_prolongs {s : Stmt} {ending : Ending} (h : LoxLang.execute fuel s m = .answer ending m') :
    m.sink.Prolonged m'.sink := ((truncating default fuel).execute s m).prolongs.answer h

theorem echo_stops {v : Value} (hv : LoxLang.evaluate fuel e m = .answer v m')
    (htext : LoxLang.render fuel e.line v m' = .answer text x) (hlimit : x.sink.limit = none)
    (hcap : x.lineCount = cap.room) :
    (echo fuel e).Fails (m.capped cap) (.io cap.refusal) (x.capped cap) := by
  have keep := truncating cap fuel
  obtain ⟨hm', htext⟩ := (keep.render _ _ _).answer htext ⟨hlimit, hcap.le⟩
  obtain ⟨-, hv⟩ := (keep.evaluate _ _).answer hv hm'
  exact .after hv (.after htext ⟨_, emit_full text hcap, rfl⟩)

end

end Eval

namespace Activity

/-- The activity on a machine with a sink that takes so many lines in all. -/
def capped (a : Activity) (cap : Limit) : Activity := { a with machine := a.machine.capped cap }

open Eval

variable {a b : Activity} {change : Context → Context} {cap : Limit}

theorem Enters.prolongs (h : a.Enters change b) : a.machine.sink.Prolonged b.machine.sink := by
  cases h with
  | binaryRight hv | logicalRight hv _ | conditionalThen hv _ | conditionalElse hv _ | arguments hv
  | newValue hv | others hv | print hv | branchThen hv _ | branchElse hv _ | body hv _ =>
    exact evaluate_prolongs hv
  | call hf hvs =>
    exact (evaluate_prolongs hf).trans (((truncating default _).evaluateAll _ _).prolongs.answer hvs)
  | initializer hobject _ hbound =>
    cases hobject
    cases hbound
    exact .refl _
  | text _ _ hbound _ =>
    cases hbound
    exact .refl _
  | textOf _ _ hbound _ hv =>
    cases hbound
    have hbody := ((truncating default _).invoke _ _ _ _).prolongs.answer hv
    exact hbody
  | started hi =>
    have hstart := execute_prolongs hi
    exact hstart
  | tail hs => exact execute_prolongs hs
  | increment hv _ hb _ | again hv _ hb _ => exact (evaluate_prolongs hv).trans (execute_prolongs hb)
  | incremented hv _ hb _ hn =>
    exact ((evaluate_prolongs hv).trans (execute_prolongs hb)).trans (execute_prolongs hn)
  | _ => exact .refl _

/-- What an activity enters with no more lines than the cap says it also enters with the cap. -/
theorem Enters.capped (h : a.Enters change b) (hb : b.machine.Below cap) :
    (a.capped cap).Enters change (b.capped cap) := by
  have keep := truncating cap b.fuel
  -- The lines up to the entry are no more than those on the entered machine, so the cap has made no
  -- difference to them.
  cases h with
  | grouping => exact .grouping
  | unary => exact .unary
  | binaryLeft => exact .binaryLeft
  | binaryRight hv => exact .binaryRight ((keep.evaluate _ _).answer hv hb).2
  | logicalLeft => exact .logicalLeft
  | logicalRight hv hdecided => exact .logicalRight ((keep.evaluate _ _).answer hv hb).2 hdecided
  | condition => exact .condition
  | conditionalThen hv htruthy => exact .conditionalThen ((keep.evaluate _ _).answer hv hb).2 htruthy
  | conditionalElse hv htruthy => exact .conditionalElse ((keep.evaluate _ _).answer hv hb).2 htruthy
  | assigned => exact .assigned
  | callee => exact .callee
  | arguments hv => exact .arguments ((keep.evaluate _ _).answer hv hb).2
  | call hf hvs =>
    obtain ⟨hm₁, hvs⟩ := (keep.evaluateAll _ _).answer hvs hb
    exact .call ((keep.evaluate _ _).answer hf hm₁).2 hvs
  | gotten => exact .gotten
  | changed => exact .changed
  | newValue hv => exact .newValue ((keep.evaluate _ _).answer hv hb).2
  | first => exact .first
  | others hv => exact .others ((keep.evaluate _ _).answer hv hb).2
  | function harity hcalls => exact .function harity hcalls
  | classCall harity hcalls => exact .classCall harity hcalls
  | @initializer _ _ _ m₁ _ _ _ _ method bound hobject hmethod hbound =>
    have hobject := Silent.answer_capped (.update _) hobject cap
    have hbound := (silent_bindMethod _ _).answer_capped hbound cap
    have hmethod : (m₁.capped cap).store.method? _ initializerName = some method := hmethod
    exact .initializer hobject hmethod hbound
  | @text _ _ m m₁ object method bound hmethod harity hbound hcalls =>
    have hbound := (silent_bindMethod _ _).answer_capped hbound cap
    have hmethod : (m.capped cap).store.methodOf? object toStringName = some method := hmethod
    have hcalls : (m₁.capped cap).calls < callLimit := hcalls
    exact .text hmethod harity hbound hcalls
  | @textOf _ _ m m₁ _ object method bound _ hmethod harity hbound hcalls hv =>
    have hbound := (silent_bindMethod _ _).answer_capped hbound cap
    have hmethod : (m.capped cap).store.methodOf? object toStringName = some method := hmethod
    have hcalls : (m₁.capped cap).calls < callLimit := hcalls
    have hv := ((keep.invoke _ _ _ _).answer hv hb).2
    exact .textOf hmethod harity hbound hcalls hv
  | expression => exact .expression
  | printed => exact .printed
  | print hv => exact .print ((keep.evaluate _ _).answer hv hb).2
  | declareVar => exact .declareVar
  | block => exact .block
  | branchCondition => exact .branchCondition
  | branchThen hv htruthy => exact .branchThen ((keep.evaluate _ _).answer hv hb).2 htruthy
  | branchElse hv htruthy => exact .branchElse ((keep.evaluate _ _).answer hv hb).2 htruthy
  | loopStart => exact .loopStart
  | started hi => exact .started ((keep.execute _ _).answer hi hb).2
  | loop => exact .loop
  | returned => exact .returned
  | head => exact .head
  | tail hs => exact .tail ((keep.execute _ _).answer hs hb).2
  | loopCondition => exact .loopCondition
  | body hv htruthy => exact .body ((keep.evaluate _ _).answer hv hb).2 htruthy
  | increment hv htruthy hbody hending =>
    obtain ⟨hm₁, hbody⟩ := (keep.execute _ _).answer hbody hb
    exact .increment ((keep.evaluate _ _).answer hv hm₁).2 htruthy hbody hending
  | again hv htruthy hbody hending =>
    obtain ⟨hm₁, hbody⟩ := (keep.execute _ _).answer hbody hb
    exact .again ((keep.evaluate _ _).answer hv hm₁).2 htruthy hbody hending
  | incremented hv htruthy hbody hending hn =>
    obtain ⟨hm₂, hn⟩ := (keep.execute _ _).answer hn hb
    obtain ⟨hm₁, hbody⟩ := (keep.execute _ _).answer hbody hm₂
    exact .incremented ((keep.evaluate _ _).answer hv hm₁).2 htruthy hbody hending hn

theorem Invokes.prolongs {id : FunctionId} {d : Declaration} {frame : FrameId}
    (h : a.Invokes id d frame b) : a.machine.sink.Prolonged b.machine.sink := by
  cases h with
  | body _ _ hframe =>
    cases hframe
    exact .refl _

theorem Invokes.capped {id : FunctionId} {d : Declaration} {frame : FrameId}
    (h : a.Invokes id d frame b) : (a.capped cap).Invokes id d frame (b.capped cap) := by
  cases h with
  | @body _ _ m _ id _ f _ _ hf hcode hframe =>
    have hframe := (silent_parameterFrame _ _ _).answer_capped hframe cap
    have hf : (m.capped cap).store.function? id = some f := hf
    exact .body hf hcode hframe

theorem Goes.prolongs (h : a.Goes b) : a.machine.sink.Prolonged b.machine.sink := by
  rcases h with ⟨change, h⟩ | ⟨id, d, frame, h⟩
  · exact h.prolongs
  · exact h.prolongs

theorem Goes.capped (h : a.Goes b) (hb : b.machine.Below cap) :
    (a.capped cap).Goes (b.capped cap) := by
  rcases h with ⟨change, h⟩ | ⟨id, d, frame, h⟩
  · exact .inl ⟨change, h.capped hb⟩
  · exact .inr ⟨id, d, frame, h.capped⟩

theorem Prints.prolongs {text : String} {x : Machine} (h : a.Prints text x) :
    a.machine.sink.Prolonged x.sink := by
  induction h with
  | print hv htext => exact (evaluate_prolongs hv).trans (render_prolongs htext)
  | part hgoes _ ih => exact hgoes.prolongs.trans ih

theorem Prints.stops {text : String} {x : Machine} (h : a.Prints text x)
    (hlimit : x.sink.limit = none) (hcap : x.lineCount = cap.room) :
    (a.capped cap).Fails (.io cap.refusal) (x.capped cap) := by
  induction h with
  | @print fuel m m₁ m₂ e v text hv htext =>
    change (LoxLang.execute (fuel + 1) (.print e)).Fails (m.capped _) _ _
    rw [execute_print]
    exact .first (echo_stops hv htext hlimit hcap)
  | part hgoes hprints ih =>
    have hbelow : Machine.Below cap _ := ⟨hlimit, hcap.le⟩
    exact (hgoes.capped (hbelow.before hprints.prolongs)).fails (ih hlimit hcap)

end Activity

end LoxLang
