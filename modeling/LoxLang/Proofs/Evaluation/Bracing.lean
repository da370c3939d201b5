import LoxLang.Proofs.Evaluation.Passes
import LoxLang.Proofs.Evaluation.TrackedOperations

/-!
Running a program with more braces, and with loops in textbook form.

The two runs track each other, whatever fuel the one run has, if the other one has enough: a pair of braces
takes two steps more on the way down to a statement, and an increment that stands in the body of its loop
takes four steps more. In one direction three times the fuel is enough, or seven times with such loops, in
the other direction the same fuel.
-/

set_option autoImplicit false

namespace LoxLang

open Eval

def Direction.Suffices : Direction → Nat → Nat → Nat → Prop
  | .forward, rate, fuel, fuel' => rate * fuel ≤ fuel'
  | .backward, _, fuel, fuel' => fuel' ≤ fuel

/-- The fuel is still enough after so many more steps of the second run. -/
def Direction.Spares : Direction → Nat → Nat → Nat → Nat → Prop
  | .forward, rate, k, fuel, fuel' => rate * fuel + k ≤ fuel'
  | .backward, _, _, fuel, fuel' => fuel' ≤ fuel

namespace Direction

variable {dir : Direction} {rate k fuel fuel' : Nat}

theorem Suffices.step (h : dir.Suffices rate (fuel + 1) (fuel' + 1)) (hk : k < rate) :
    dir.Spares rate k fuel fuel' := by
  cases dir with
  | forward =>
    simp only [Suffices, Spares, Nat.mul_succ] at h ⊢
    omega
  | backward => exact Nat.le_of_succ_le_succ h

theorem Spares.suffices (h : dir.Spares rate k fuel fuel') : dir.Suffices rate fuel fuel' := by
  cases dir with
  | forward => exact (Nat.le_add_right _ _).trans h
  | backward => exact h

theorem Spares.spend (h : dir.Spares rate (k + 1) fuel (fuel' + 1)) : dir.Spares rate k fuel fuel' := by
  cases dir <;> simp only [Spares] at h ⊢ <;> omega

theorem Spares.backward (h : dir.Spares rate (k + 1) fuel 0) : dir = .backward := by
  cases dir with
  | forward => cases h
  | backward => rfl

end Direction

def Tables.extra (T : Tables) : Nat := if T.loops then 4 else 0

theorem Tables.extra_of_loops {T : Tables} (h : T.loops = true) : T.extra = 4 := if_pos h

/-- What the second run takes for a step of the first one, at most. -/
def Tables.rate (T : Tables) : Nat := T.extra + 3

/-- All evaluation with these amounts of fuel tracks, in whatever linked environments it runs. -/
structure Parallel (T : Tables) (dir : Direction) (fuel fuel' : Nat) : Prop where
  evaluate : ∀ {K e g m m'}, T.AllShift K e.references →
    Tracks T dir K (evaluate fuel e) (evaluate fuel' e) (SameValue T) g m m'
  evaluateAll : ∀ {K es g m m'}, T.AllShift K (Expr.listReferences es) →
    Tracks T dir K (evaluateAll fuel es) (evaluateAll fuel' es) (SameValues T) g m m'
  call : ∀ {K line callee arguments g m m'}, (m.pair m' g).Fits T callee →
    (∀ v ∈ arguments, (m.pair m' g).Fits T v) →
    Tracks T dir K (call fuel line callee arguments) (call fuel' line callee arguments) (SameValue T) g m m'
  invoke : ∀ {K line id arguments g m m'}, (m.pair m' g).Ready T id →
    (∀ v ∈ arguments, (m.pair m' g).Fits T v) →
    Tracks T dir K (invoke fuel line id arguments) (invoke fuel' line id arguments) (SameValue T) g m m'
  construct : ∀ {K line id arguments g m m'}, (∀ v ∈ arguments, (m.pair m' g).Fits T v) →
    Tracks T dir K (construct fuel line id arguments) (construct fuel' line id arguments) (SameValue T) g m m'
  render : ∀ {K line value g m m'}, (m.pair m' g).Fits T value →
    Tracks T dir K (render fuel line value) (render fuel' line value) SameAnswer g m m'
  execute : ∀ {K s s' g m m'}, s.Shifts T K s' →
    Tracks T dir K (execute fuel s) (execute fuel' s') (SameEnding T) g m m'
  executeAll : ∀ {K body body' g m m'}, Stmt.AllShift T K body body' →
    Tracks T dir K (executeAll fuel body) (executeAll fuel' body') (SameEnding T) g m m'
  iterate : ∀ {K c n b b' g m m'}, T.AllShift K c.references →
    T.AllShift K (Expr.optionReferences n) → b.Shifts T K b' →
    Tracks T dir K (iterate fuel c (n.map .expression) b) (iterate fuel' c (n.map .expression) b')
      (SameEnding T) g m m'
  iterateTextbook : ∀ {K c n b b' g m m'}, T.loops = true → b.continues = false →
    T.AllShift K c.references → T.AllShift K.added (Expr.optionReferences n) → b.Shifts T K.added b' →
    Tracks T dir K (LoxLang.iterate fuel c (n.map .expression) b)
      (LoxLang.iterate fuel' c none (.block (b'.withIncrement n))) (SameEnding T) g m m'

section

variable {T : Tables} {dir : Direction} {K : Layers} {g : FrameId → FrameId} {m m' : Machine}
  {fuel fuel' : Nat}

theorem Tables.AllShift.head {r : ReferenceKind × Reference} {refs : List (ReferenceKind × Reference)}
    (h : T.AllShift K (r :: refs)) : T.Shifts K r := h r List.mem_cons_self

theorem Tables.AllShift.tail {r : ReferenceKind × Reference} {refs : List (ReferenceKind × Reference)}
    (h : T.AllShift K (r :: refs)) : T.AllShift K refs := fun s hs => h s (List.mem_cons_of_mem _ hs)

theorem Eval.tracks_operator {line : Nat} {x : Except RuntimeError Value}
    (h : ∀ v, x = .ok v → v.isData = true) :
    Tracks T dir K (ofExcept line x) (ofExcept line x) (SameValue T) g m m' :=
  .ofExcept (Except.agree_of_eq rfl fun v hv => ⟨rfl, .of_isData (h v hv)⟩)

namespace Parallel

theorem evaluate_succ (ih : Parallel T dir fuel fuel') {e : Expr} (h : T.AllShift K e.references) :
    Tracks T dir K (LoxLang.evaluate (fuel + 1) e) (LoxLang.evaluate (fuel' + 1) e) (SameValue T)
      g m m' := by
  cases e with
  | literal value =>
    rw [LoxLang.evaluate, LoxLang.evaluate]
    exact .ret ⟨rfl, .of_isData (Literal.isData_value value)⟩
  | grouping inner =>
    rw [LoxLang.evaluate, LoxLang.evaluate]
    exact ih.evaluate h
  | unary operator right =>
    rw [LoxLang.evaluate, LoxLang.evaluate]
    refine .bind (ih.evaluate h) ?_
    rintro v v' g₁ m₁ m₁' - ⟨rfl, -⟩
    exact tracks_operator fun _ hv => isData_applyUnary hv
  | binary left operator right =>
    rw [LoxLang.evaluate, LoxLang.evaluate]
    refine .bind (ih.evaluate h.left) ?_
    rintro v v' g₁ m₁ m₁' - ⟨rfl, -⟩
    refine .bind (ih.evaluate h.right) ?_
    rintro w w' g₂ m₂ m₂' - ⟨rfl, -⟩
    exact tracks_operator fun _ hv => isData_applyBinary hv
  | logical left operator right =>
    rw [LoxLang.evaluate, LoxLang.evaluate]
    refine .bind (ih.evaluate h.left) ?_
    rintro v v' g₁ m₁ m₁' - ⟨rfl, hv⟩
    split
    · exact .ret ⟨rfl, hv⟩
    · exact ih.evaluate h.right
  | conditional condition thenBranch elseBranch =>
    cases thenBranch with
    | none =>
      rw [LoxLang.evaluate, LoxLang.evaluate]
      refine .bind (ih.evaluate h.left) ?_
      rintro v v' g₁ m₁ m₁' - ⟨rfl, hv⟩
      split
      · exact .ret ⟨rfl, hv⟩
      · exact ih.evaluate h.right
    | some thenBranch =>
      rw [LoxLang.evaluate, LoxLang.evaluate]
      refine .bind (ih.evaluate h.left.left) ?_
      rintro v v' g₁ m₁ m₁' - ⟨rfl, -⟩
      split
      · exact ih.evaluate h.left.right
      · exact ih.evaluate h.right
  | «variable» target =>
    rw [LoxLang.evaluate, LoxLang.evaluate]
    exact tracks_lookUp h.head
  | assign target value =>
    rw [LoxLang.evaluate, LoxLang.evaluate]
    refine .bind (ih.evaluate h.tail) ?_
    rintro v v' g₁ m₁ m₁' - ⟨rfl, hv⟩
    exact .bind (tracks_assign h.head hv) fun _ _ _ _ _ hg _ => .ret ⟨rfl, hv.mono hg⟩
  | call callee paren arguments =>
    rw [LoxLang.evaluate, LoxLang.evaluate]
    refine .bind (ih.evaluate h.left) ?_
    rintro f f' g₁ m₁ m₁' - ⟨rfl, hf⟩
    refine .bind (ih.evaluateAll h.right) ?_
    rintro vs vs' g₂ m₂ m₂' hg ⟨rfl, hvs⟩
    exact ih.call (hf.mono hg) hvs
  | get object name =>
    rw [LoxLang.evaluate, LoxLang.evaluate]
    refine .bind (ih.evaluate h) ?_
    rintro v v' g₁ m₁ m₁' - ⟨rfl, -⟩
    exact tracks_property name
  | set object name value =>
    rw [LoxLang.evaluate, LoxLang.evaluate]
    refine .bind (ih.evaluate h.left) ?_
    rintro v v' g₁ m₁ m₁' - ⟨rfl, -⟩
    cases v' with
    | object id =>
      refine .bind (ih.evaluate h.right) ?_
      rintro w w' g₂ m₂ m₂' - ⟨rfl, hw⟩
      exact .bind (tracks_setField id name.lexeme hw) fun _ _ _ _ _ hg _ => .ret ⟨rfl, hw.mono hg⟩
    | _ => exact .fail
  | this keyword =>
    rw [LoxLang.evaluate, LoxLang.evaluate]
    exact tracks_lookUp h.head
  | super keyword method =>
    rw [LoxLang.evaluate, LoxLang.evaluate]
    exact tracks_superMethod h.head method

theorem evaluateAll_succ (ih : Parallel T dir fuel fuel') {es : List Expr}
    (h : T.AllShift K (Expr.listReferences es)) :
    Tracks T dir K (LoxLang.evaluateAll (fuel + 1) es) (LoxLang.evaluateAll (fuel' + 1) es)
      (SameValues T) g m m' := by
  cases es with
  | nil =>
    rw [LoxLang.evaluateAll, LoxLang.evaluateAll]
    exact .ret ⟨rfl, by simp⟩
  | cons e rest =>
    rw [LoxLang.evaluateAll, LoxLang.evaluateAll]
    refine .bind (ih.evaluate h.left) ?_
    rintro v v' g₁ m₁ m₁' - ⟨rfl, hv⟩
    refine .bind (ih.evaluateAll h.right) ?_
    rintro vs vs' g₂ m₂ m₂' hg ⟨rfl, hvs⟩
    exact .ret ⟨rfl, List.forall_mem_cons.mpr ⟨hv.mono hg, hvs⟩⟩

theorem call_succ (ih : Parallel T dir fuel fuel') {line : Nat} {callee : Value} {arguments : List Value}
    (hcallee : (m.pair m' g).Fits T callee) (harguments : ∀ v ∈ arguments, (m.pair m' g).Fits T v) :
    Tracks T dir K (LoxLang.call (fuel + 1) line callee arguments)
      (LoxLang.call (fuel' + 1) line callee arguments) (SameValue T) g m m' := by
  cases callee with
  | native function =>
    rw [LoxLang.call, LoxLang.call]
    refine .bind (tracks_requireArity line _ _) fun _ _ g₁ m₁ m₁' _ _ => ?_
    exact .deeper (tracks_runNative line function arguments)
  | function id =>
    have hready : (m.pair m' g).Ready T id := hcallee
    have harity : m'.store.functionArity id = m.store.functionArity id := hready.functionArity
    rw [LoxLang.call, LoxLang.call]
    refine .viewThen ?_
    rw [harity]
    refine .bind (tracks_requireArity line _ _) fun _ _ g₁ m₁ m₁' hg _ => .deeper ?_
    exact ih.invoke (hready.mono hg) fun v hv => (harguments v hv).mono hg
  | classValue id =>
    rw [LoxLang.call, LoxLang.call]
    refine .assuming fun hm => .viewThen ?_
    have harity : m'.store.classArity id = m.store.classArity id := hm.sound.classArity id
    rw [harity]
    refine .bind (tracks_requireArity line _ _) fun _ _ g₁ m₁ m₁' hg _ => .deeper ?_
    exact ih.construct fun v hv => (harguments v hv).mono hg
  | _ =>
    rw [LoxLang.call, LoxLang.call]
    · exact .fail
    all_goals simp

theorem invoke_succ (ih : Parallel T dir fuel fuel') {line : Nat} {id : FunctionId}
    {arguments : List Value} (hready : (m.pair m' g).Ready T id)
    (harguments : ∀ v ∈ arguments, (m.pair m' g).Fits T v) :
    Tracks T dir K (LoxLang.invoke (fuel + 1) line id arguments)
      (LoxLang.invoke (fuel' + 1) line id arguments) (SameValue T) g m m' := by
  obtain ⟨f, f', hf, hf', hcode, hjoined⟩ := hready
  have hf : m.store.function? id = some f := hf
  have hf' : m'.store.function? id = some f' := hf'
  rw [LoxLang.invoke, LoxLang.invoke]
  refine .viewThen ?_
  rw [hf, hf']
  cases hcode with
  | array => exact tracks_runArrayMethod line hjoined rfl _ harguments
  | declared hlinked hd =>
    cases hd with
    | @mk _ name parameters body body' hbody =>
      refine .bind (tracks_parameterFrame hlinked parameters harguments) ?_
      intro frame frame' g₁ m₁ m₁' hg hframes
      refine .bind (.within hframes (ih.executeAll hbody)) ?_
      rintro ending ending' g₂ m₂ m₂' hg₂ ⟨rfl, hending⟩
      exact tracks_answerOf line (hjoined.mono (hg.trans hg₂)) rfl hending

theorem construct_succ (ih : Parallel T dir fuel fuel') {line : Nat} {id : ClassId}
    {arguments : List Value} (harguments : ∀ v ∈ arguments, (m.pair m' g).Fits T v) :
    Tracks T dir K (LoxLang.construct (fuel + 1) line id arguments)
      (LoxLang.construct (fuel' + 1) line id arguments) (SameValue T) g m m' := by
  rw [LoxLang.construct, LoxLang.construct]
  refine .bind (tracks_addObject id) ?_
  rintro object object' g₁ m₁ m₁' hg rfl
  refine .assuming fun hm₁ => .viewThen ?_
  have hsame : m₁'.store.method? id initializerName = m₁.store.method? id initializerName :=
    Store.method?_of_classes hm₁.sound.classes _ _
  rw [hsame]
  cases hmethod : m₁.store.method? id initializerName with
  | none => exact .ret ⟨rfl, trivial⟩
  | some method =>
    have hunbound : (m₁.pair m₁' g₁).Unbound T method := hm₁.sound.unbound_of_method? hmethod
    refine .bind (tracks_bindMethod hunbound object') ?_
    rintro bound bound' g₂ m₂ m₂' hg₂ ⟨rfl, hready⟩
    refine .bind (ih.invoke hready fun v hv => (harguments v hv).mono (hg.trans hg₂)) ?_
    exact fun _ _ _ _ _ _ _ => .ret ⟨rfl, trivial⟩

theorem render_succ (ih : Parallel T dir fuel fuel') {line : Nat} {value : Value}
    (hvalue : (m.pair m' g).Fits T value) :
    Tracks T dir K (LoxLang.render (fuel + 1) line value) (LoxLang.render (fuel' + 1) line value)
      SameAnswer g m m' := by
  refine .assuming fun hm => ?_
  have htext : m'.store.text value = m.store.text value := hm.sound.text hvalue
  cases value with
  | object object =>
    have hsame : m'.store.methodOf? object toStringName = m.store.methodOf? object toStringName :=
      Store.methodOf?_of_classes hm.sound.classes hm.sound.objects _ _
    rw [LoxLang.render, LoxLang.render]
    refine .viewThen ?_
    rw [hsame, htext]
    cases hmethod : m.store.methodOf? object toStringName with
    | none => exact .ret rfl
    | some method =>
      have hunbound : (m.pair m' g).Unbound T method := hm.sound.unbound_of_methodOf? hmethod
      have harity : m'.store.functionArity method = m.store.functionArity method :=
        hunbound.functionArity
      simp only [harity]
      split
      · refine .bind (tracks_bindMethod hunbound object) ?_
        rintro bound bound' g₁ m₁ m₁' - ⟨rfl, hready⟩
        refine .deeper (.bind (ih.invoke hready (by simp)) ?_)
        rintro answer answer' g₂ m₂ m₂' - ⟨rfl, hanswer⟩
        exact ih.render hanswer
      · exact .ret rfl
  | _ =>
    rw [LoxLang.render, LoxLang.render]
    · refine .viewThen ?_
      rw [htext]
      exact .ret rfl
    all_goals simp

end Parallel

theorem execute_zero (s : Stmt) : LoxLang.execute 0 s = outOfFuel := by rw [LoxLang.execute]

theorem executeAll_zero (body : List Stmt) : LoxLang.executeAll 0 body = outOfFuel := by
  rw [LoxLang.executeAll]

theorem Eval.Tracks.answers {α β : Type} {act : Eval α} {act' : Eval β} {Q : StorePair → α → β → Prop}
    {A : α → Prop} (h : Tracks T dir K act act' Q g m m') (hact : act.Answers m A) :
    Tracks T dir K act act' (fun W v v' => Q W v v' ∧ A v) g m m' := by
  intro hm
  have houtcome := h hm
  unfold Eval.Answers Eval.Ensures at hact
  generalize act m = o at houtcome hact ⊢
  generalize act' m' = o' at houtcome ⊢
  cases houtcome with
  | answer hg hm₁ hcursor hQ => exact .answer hg hm₁ hcursor ⟨hQ, hact⟩
  | fault hm₁ => exact .fault hm₁
  | first hdir => exact .first hdir
  | second hdir => exact .second hdir

theorem Eval.Tracks.spend {α β : Type} {act : Eval α} {Q : StorePair → α → β → Prop}
    (act' : Nat → Eval β) (hzero : act' 0 = outOfFuel) {rate k : Nat}
    (hfuel : dir.Spares rate (k + 1) fuel fuel')
    (h : ∀ rest, dir.Spares rate (k + 1) fuel (rest + 1) →
      Tracks T dir K act (act' (rest + 1)) Q g m m') :
    Tracks T dir K act (act' fuel') Q g m m' := by
  cases fuel' with
  | zero =>
    rw [hzero]
    exact fun _ => .second hfuel.backward
  | succ rest => exact h rest hfuel

theorem Eval.tracks_executeAll_single {act : Eval Ending} {s : Stmt} {rate k : Nat}
    (hfuel : dir.Spares rate (k + 2) fuel fuel')
    (h : ∀ rest, dir.Spares rate (k + 1) fuel (rest + 1) →
      Tracks T dir K act (LoxLang.execute (rest + 1) s) (SameEnding T) g m m') :
    Tracks T dir K act (LoxLang.executeAll fuel' [s]) (SameEnding T) g m m' := by
  refine .spend (LoxLang.executeAll · [s]) (executeAll_zero _) hfuel fun rest hrest => ?_
  have hzero : LoxLang.executeAll 1 [s] = outOfFuel := by
    rw [LoxLang.executeAll, execute_zero]
    rfl
  refine .spend (fun fuel => LoxLang.executeAll (fuel + 1) [s]) hzero hrest.spend fun rest hrest => ?_
  rw [← bind_ret act, LoxLang.executeAll]
  refine .bind (h rest hrest) ?_
  rintro ending ending' g₁ m₁ m₁' - ⟨rfl, hending⟩
  cases ending' with
  | normal =>
    rw [LoxLang.executeAll]
    exact .ret ⟨rfl, hending⟩
  | _ => exact .ret ⟨rfl, hending⟩

namespace Parallel

theorem declareFunction_succ (hopen : K.Open) {d d' : Declaration} (hd : d.Shifts T K d') :
    Tracks T dir K (LoxLang.execute (fuel + 1) (.declareFunction d))
      (LoxLang.execute (fuel' + 1) (.declareFunction d')) (SameEnding T) g m m' := by
  have hname : d'.name = d.name := by cases hd; rfl
  rw [LoxLang.execute, LoxLang.execute, hname]
  refine .assuming fun hm => .viewThen ?_
  have hjoined := hm.sound.joined hopen hm.linked
  refine .bind (tracks_addFunctions (fun K => K) hm.linked hd false) ?_
  rintro id id' g₁ m₁ m₁' hg ⟨rfl, f, f', hf, hf', hcode, hclosure, hclosure'⟩
  have hready : (m₁.pair m₁' g₁).Fits T (.function id') :=
    ⟨f, f', hf, hf', hcode, by rw [hclosure, hclosure']; exact hjoined.mono hg⟩
  exact .bind (tracks_define hopen _ hready) fun _ _ _ _ _ _ _ => .ret ⟨rfl, by simp⟩

theorem whileTextbook_succ (ih : ∀ rest, dir.Suffices T.rate fuel rest → Parallel T dir fuel rest)
    (hfuel : dir.Spares T.rate 4 fuel fuel') {c : Expr} {n : Option Expr} {b b' : Stmt}
    (hloops : T.loops = true) (hcontinues : b.continues = false) (hc : T.AllShift K.added c.references)
    (hn : T.AllShift K.added.added (Expr.optionReferences n)) (hb : b.Shifts T K.added.added b') :
    Tracks T dir K (LoxLang.execute (fuel + 1) (.loop none c (n.map .expression) b))
      (LoxLang.execute (fuel' + 1) (Stmt.textbook none c n b')) (SameEnding T) g m m' := by
  rw [LoxLang.execute, Stmt.textbook, LoxLang.execute]
  refine tracks_braces fun m₁' => tracks_executeAll_single hfuel fun rest hrest => ?_
  rw [LoxLang.execute]
  exact (ih rest hrest.spend.suffices).iterateTextbook hloops hcontinues hc hn hb

theorem forTextbook_succ (ih : ∀ rest, dir.Suffices T.rate fuel rest → Parallel T dir fuel rest)
    (hfuel : dir.Spares T.rate 4 fuel fuel') {i : Stmt} {c : Expr} {n : Option Expr} {b b' : Stmt}
    (hloops : T.loops = true) (hcontinues : b.continues = false) (hclause : i.isClause = true)
    (hi : i.ShiftsWithin T K.shared i) (hc : T.AllShift K.shared c.references)
    (hn : T.AllShift K.shared.added (Expr.optionReferences n)) (hb : b.Shifts T K.shared.added b') :
    Tracks T dir K (LoxLang.execute (fuel + 1) (.loop (some i) c (n.map .expression) b))
      (LoxLang.execute (fuel' + 1) (Stmt.textbook (some i) c n b')) (SameEnding T) g m m' := by
  rw [LoxLang.execute, Stmt.textbook, LoxLang.execute]
  refine .bind tracks_innerFrame fun _ _ g₁ m₁ m₁' _ hframes => .within hframes ?_
  refine .spend (LoxLang.executeAll · _) (executeAll_zero _) hfuel fun rest hrest => ?_
  rw [Option.toList, List.cons_append, List.nil_append, LoxLang.executeAll]
  refine .bind (((ih rest hrest.spend.suffices).execute (.bare hi)).answers
    (ends_normal_of_isClause hclause)) ?_
  rintro ending ending' g₂ m₂ m₂' - ⟨⟨rfl, -⟩, rfl⟩
  refine tracks_executeAll_single hrest.spend fun rest hrest => ?_
  rw [LoxLang.execute]
  exact (ih rest hrest.spend.suffices).iterateTextbook hloops hcontinues hc hn hb

theorem within_succ (ih : ∀ rest, dir.Suffices T.rate fuel rest → Parallel T dir fuel rest)
    (hfuel : dir.Spares T.rate T.extra fuel fuel') {s s' : Stmt} (h : s.ShiftsWithin T K s') :
    Tracks T dir K (LoxLang.execute (fuel + 1) s) (LoxLang.execute (fuel' + 1) s') (SameEnding T)
      g m m' := by
  have ih₁ := ih fuel' hfuel.suffices
  cases h with
  | expression he =>
    rw [LoxLang.execute, LoxLang.execute]
    exact .bind (ih₁.evaluate he) fun _ _ _ _ _ _ _ => .ret ⟨rfl, by simp⟩
  | print he =>
    rw [LoxLang.execute, LoxLang.execute]
    refine .bind (ih₁.evaluate he) ?_
    rintro v v' g₁ m₁ m₁' - ⟨rfl, hv⟩
    refine .bind (ih₁.render hv) ?_
    rintro text text' g₂ m₂ m₂' - rfl
    exact .bind (.emit _) fun _ _ _ _ _ _ _ => .ret ⟨rfl, by simp⟩
  | @declareVar _ name initializer hopen hinitializer =>
    cases initializer with
    | none =>
      rw [LoxLang.execute, LoxLang.execute]
      have hnil : (m.pair m' g).Fits T .nil := trivial
      refine .bind (Q := SameValue T) (.ret ⟨rfl, hnil⟩) ?_
      rintro v v' g₁ m₁ m₁' - ⟨rfl, hv⟩
      exact .bind (tracks_define hopen _ hv) fun _ _ _ _ _ _ _ => .ret ⟨rfl, by simp⟩
    | some value =>
      rw [LoxLang.execute, LoxLang.execute]
      refine .bind (ih₁.evaluate hinitializer) ?_
      rintro v v' g₁ m₁ m₁' - ⟨rfl, hv⟩
      exact .bind (tracks_define hopen _ hv) fun _ _ _ _ _ _ _ => .ret ⟨rfl, by simp⟩
  | block hbody =>
    rw [LoxLang.execute, LoxLang.execute]
    exact .bind tracks_innerFrame fun _ _ g₁ m₁ m₁' _ hframes => .within hframes (ih₁.executeAll hbody)
  | ifAlone hc ht =>
    rw [LoxLang.execute, LoxLang.execute]
    refine .bind (ih₁.evaluate hc) ?_
    rintro v v' g₁ m₁ m₁' - ⟨rfl, -⟩
    split
    · exact ih₁.execute ht
    · exact .ret ⟨rfl, by simp⟩
  | ifElse hc ht he =>
    rw [LoxLang.execute, LoxLang.execute]
    refine .bind (ih₁.evaluate hc) ?_
    rintro v v' g₁ m₁ m₁' - ⟨rfl, -⟩
    split
    · exact ih₁.execute ht
    · exact ih₁.execute he
  | whileLoop hc hn hb =>
    rw [LoxLang.execute, LoxLang.execute]
    exact ih₁.iterate hc hn hb
  | forLoop hi hc hn hb =>
    rw [LoxLang.execute, LoxLang.execute]
    refine .bind tracks_innerFrame fun _ _ g₁ m₁ m₁' _ hframes => .within hframes ?_
    exact .bind (ih₁.execute (.bare hi)) fun _ _ _ _ _ _ _ => ih₁.iterate hc hn hb
  | whileTextbook hloops hcontinues hc hn hb =>
    rw [Tables.extra_of_loops hloops] at hfuel
    exact whileTextbook_succ ih hfuel hloops hcontinues hc hn hb
  | forTextbook hloops hcontinues hclause hi hc hn hb =>
    rw [Tables.extra_of_loops hloops] at hfuel
    exact forTextbook_succ ih hfuel hloops hcontinues hclause hi hc hn hb
  | declareFunction hopen hd => exact declareFunction_succ hopen hd
  | @returnWith _ word value hvalue =>
    cases value with
    | none =>
      rw [LoxLang.execute, LoxLang.execute]
      exact .ret ⟨rfl, by rintro v ⟨⟩; trivial⟩
    | some value =>
      rw [LoxLang.execute, LoxLang.execute]
      refine .bind (ih₁.evaluate hvalue) ?_
      rintro v v' g₁ m₁ m₁' - ⟨rfl, hv⟩
      exact .ret ⟨rfl, by rintro w ⟨⟩; exact hv⟩
  | breakLoop | continueLoop =>
    rw [LoxLang.execute, LoxLang.execute]
    exact .ret ⟨rfl, by simp⟩
  | declareClass hopen hbase hds =>
    rw [LoxLang.execute, LoxLang.execute]
    exact .bind (tracks_declareClass hopen _ hbase hds) fun _ _ _ _ _ _ _ => .ret ⟨rfl, by simp⟩

theorem execute_succ (ih : ∀ rest, dir.Suffices T.rate fuel rest → Parallel T dir fuel rest)
    (hfuel : dir.Suffices T.rate (fuel + 1) (fuel' + 1)) {s s' : Stmt} (h : s.Shifts T K s') :
    Tracks T dir K (LoxLang.execute (fuel + 1) s) (LoxLang.execute (fuel' + 1) s') (SameEnding T)
      g m m' := by
  cases h with
  | bare h => exact within_succ ih (hfuel.step (Nat.lt_add_of_pos_right (by omega))) h
  | braces h =>
    rw [LoxLang.execute.eq_def (fuel' + 1)]
    have hspares : dir.Spares T.rate (T.extra + 2) fuel fuel' := hfuel.step (Nat.lt_succ_self _)
    exact tracks_braces fun m₁' => tracks_executeAll_single hspares fun rest hrest => within_succ ih hrest.spend h

theorem executeAll_succ (ih : Parallel T dir fuel fuel') {body body' : List Stmt}
    (h : Stmt.AllShift T K body body') :
    Tracks T dir K (LoxLang.executeAll (fuel + 1) body) (LoxLang.executeAll (fuel' + 1) body')
      (SameEnding T) g m m' := by
  cases h with
  | nil =>
    rw [LoxLang.executeAll, LoxLang.executeAll]
    exact .ret ⟨rfl, by simp⟩
  | cons hs hrest =>
    rw [LoxLang.executeAll, LoxLang.executeAll]
    refine .bind (ih.execute hs) ?_
    rintro ending ending' g₁ m₁ m₁' - ⟨rfl, hending⟩
    cases ending' with
    | normal => exact ih.executeAll hrest
    | _ => exact .ret ⟨rfl, hending⟩

theorem iterate_succ (ih : Parallel T dir fuel fuel') {c : Expr} {n : Option Expr} {b b' : Stmt}
    (hc : T.AllShift K c.references) (hn : T.AllShift K (Expr.optionReferences n))
    (hb : b.Shifts T K b') :
    Tracks T dir K (LoxLang.iterate (fuel + 1) c (n.map .expression) b)
      (LoxLang.iterate (fuel' + 1) c (n.map .expression) b') (SameEnding T) g m m' := by
  rw [LoxLang.iterate.eq_def, LoxLang.iterate.eq_def (fuel' + 1)]
  refine .bind (ih.evaluate hc) ?_
  rintro v v' g₁ m₁ m₁' - ⟨rfl, -⟩
  split
  · refine .bind (ih.execute hb) ?_
    rintro ending ending' g₂ m₂ m₂' - ⟨rfl, hending⟩
    cases ending' with
    | normal | continued =>
      cases n with
      | none => exact ih.iterate hc hn hb
      | some n =>
        have hincrement : (Stmt.expression n).Shifts T K (.expression n) := .bare (.expression hn)
        exact .bind (ih.execute hincrement) fun _ _ _ _ _ _ _ => ih.iterate hc hn hb
    | broke => exact .ret ⟨rfl, by simp⟩
    | returned => exact .ret ⟨rfl, hending⟩
  · exact .ret ⟨rfl, by simp⟩

/-- The increment of a loop comes after the body that holds it as it comes after the body without it. No
`continue` passes over it. -/
theorem bodyThenIncrement_block (ih : ∀ rest, dir.Suffices T.rate fuel rest → Parallel T dir fuel rest)
    (hfuel : dir.Spares T.rate 4 fuel fuel') {n : Option Expr} {b b' : Stmt}
    (hcontinues : b.continues = false) (hn : T.AllShift K.added (Expr.optionReferences n))
    (hb : b.Shifts T K.added b') :
    Tracks T dir K (bodyThenIncrement fuel (n.map .expression) b)
      (LoxLang.execute fuel' (.block (b'.withIncrement n))) (SameEnding T) g m m' := by
  refine .spend (LoxLang.execute · _) (execute_zero _) hfuel fun rest hrest => ?_
  rw [LoxLang.execute]
  refine tracks_braces fun m₁' => ?_
  refine .spend (LoxLang.executeAll · _) (executeAll_zero _) hrest.spend fun rest hrest => ?_
  rw [Stmt.withIncrement, LoxLang.executeAll, bodyThenIncrement]
  refine .bind (((ih rest hrest.spend.suffices).execute hb).answers ((settles fuel).execute b m hcontinues)) ?_
  rintro ending ending' g₁ m₁ m₁' - ⟨⟨rfl, hending⟩, hne⟩
  -- At a `continue` the two would part, but the body ends at none of its own loop.
  cases ending' with
  | continued => exact absurd rfl hne
  | normal =>
    cases n with
    | none =>
      refine .spend (LoxLang.executeAll · _) (executeAll_zero _) hrest.spend fun rest hrest => ?_
      rw [Option.map, Option.toList, LoxLang.executeAll]
      exact .ret ⟨rfl, hending⟩
    | some n =>
      refine tracks_executeAll_single hrest.spend fun rest hrest => ?_
      rw [← bind_ret (LoxLang.execute (rest + 1) _), Option.map, increase, bind_assoc]
      refine .bind (((ih (rest + 1) hrest.suffices).execute (.bare (.expression hn))).answers
        (ends_normal_of_isClause rfl)) ?_
      rintro _ _ g₂ m₂ m₂' - ⟨⟨rfl, -⟩, rfl⟩
      exact .ret ⟨rfl, by simp⟩
  | broke | returned => exact .ret ⟨rfl, hending⟩

theorem iterateTextbook_succ (ih : ∀ rest, dir.Suffices T.rate fuel rest → Parallel T dir fuel rest)
    (hfuel : dir.Suffices T.rate (fuel + 1) (fuel' + 1)) {c : Expr} {n : Option Expr} {b b' : Stmt}
    (hloops : T.loops = true) (hcontinues : b.continues = false) (hc : T.AllShift K c.references)
    (hn : T.AllShift K.added (Expr.optionReferences n)) (hb : b.Shifts T K.added b') :
    Tracks T dir K (LoxLang.iterate (fuel + 1) c (n.map .expression) b)
      (LoxLang.iterate (fuel' + 1) c none (.block (b'.withIncrement n))) (SameEnding T) g m m' := by
  have hspares : dir.Spares T.rate 4 fuel fuel' :=
    hfuel.step (by simp [Tables.rate, Tables.extra_of_loops hloops])
  have ih₁ := ih fuel' hspares.suffices
  rw [LoxLang.iterate_eq, LoxLang.iterate.eq_def (fuel' + 1)]
  refine .bind (ih₁.evaluate hc) ?_
  rintro v v' g₁ m₁ m₁' - ⟨rfl, -⟩
  split
  · refine .bind (bodyThenIncrement_block ih hspares hcontinues hn hb) ?_
    rintro ending ending' g₂ m₂ m₂' - ⟨rfl, hending⟩
    cases ending' with
    | normal | continued => exact ih₁.iterateTextbook hloops hcontinues hc hn hb
    | broke => exact .ret ⟨rfl, by simp⟩
    | returned => exact .ret ⟨rfl, hending⟩
  · exact .ret ⟨rfl, by simp⟩

end Parallel

theorem Parallel.first (T : Tables) (fuel' : Nat) : Parallel T .forward 0 fuel' := by
  constructor <;> intros <;>
    simp only [Tracks, LoxLang.evaluate, LoxLang.evaluateAll, LoxLang.call, LoxLang.invoke,
      LoxLang.construct, LoxLang.render, LoxLang.execute, LoxLang.executeAll, LoxLang.iterate] <;>
    exact fun _ => .first rfl

theorem Parallel.second (T : Tables) (fuel : Nat) : Parallel T .backward fuel 0 := by
  constructor <;> intros <;>
    simp only [Tracks, LoxLang.evaluate, LoxLang.evaluateAll, LoxLang.call, LoxLang.invoke,
      LoxLang.construct, LoxLang.render, LoxLang.execute, LoxLang.executeAll, LoxLang.iterate] <;>
    exact fun _ => .second rfl

theorem parallel (T : Tables) {dir : Direction} {fuel fuel' : Nat}
    (h : dir.Suffices T.rate fuel fuel') : Parallel T dir fuel fuel' := by
  -- On the fuel of the first run. The run that may stop for want of fuel is the first one to do so.
  induction fuel generalizing fuel' with
  | zero =>
    cases dir with
    | forward => exact .first T fuel'
    | backward =>
      obtain rfl : fuel' = 0 := Nat.le_zero.mp h
      exact .second T 0
  | succ fuel ih =>
    cases fuel' with
    | zero =>
      cases dir with
      | forward =>
        simp only [Direction.Suffices, Tables.rate, Nat.mul_succ] at h
        omega
      | backward => exact .second T (fuel + 1)
    | succ fuel' =>
      have ihs : Parallel T dir fuel fuel' := ih (h.step (Nat.succ_pos _)).suffices
      exact
        { evaluate := ihs.evaluate_succ
          evaluateAll := ihs.evaluateAll_succ
          call := ihs.call_succ
          invoke := ihs.invoke_succ
          construct := ihs.construct_succ
          render := ihs.render_succ
          execute := Parallel.execute_succ (fun _ hrest => ih hrest) h
          executeAll := ihs.executeAll_succ
          iterate := ihs.iterate_succ
          iterateTextbook := Parallel.iterateTextbook_succ (fun _ hrest => ih hrest) h }

end

end LoxLang
