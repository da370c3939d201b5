import LoxLang.Proofs.Scope.Findings
import LoxLang.Proofs.Scope.Judgement
import LoxLang.Proofs.Syntax.Rewriting

/-!
The static pass over a program with more braces, and with loops in textbook form.

Braces open a scope in which nothing is declared. So at each place the second program has the scopes of
the first one and some empty ones between them: a name is found in the same scope, farther out by the
empty ones on the way, and what is reported is the same. The block of a loop in textbook form has the scope
of its first clause; the one of its body and its increment is of braces.
-/

set_option autoImplicit false

namespace LoxLang

/-- The open scopes of a program with more braces, from the outermost on: those that both programs have,
and those that more braces add. -/
inductive Layers where
  | top
  | shared (outer : Layers)
  | added (outer : Layers)

namespace Layers

/-- The number of scopes in the second program up to the one with this many of the first program before
it. -/
def shift : Layers → Nat → Nat
  | .top, d => d
  | .shared _, 0 => 0
  | .shared K, d + 1 => K.shift d + 1
  | .added K, d => K.shift d + 1

def depth : Layers → Nat
  | .top => 0
  | .shared K => K.depth + 1
  | .added K => K.depth

def Open : Layers → Prop
  | .top | .shared _ => True
  | .added _ => False

theorem open_top : Open .top := trivial

theorem open_shared (K : Layers) : K.shared.Open := trivial

def uniform : Nat → Layers
  | 0 => .top
  | n + 1 => .shared (uniform n)

/-- The second scopes are the first ones with an empty one for each added layer. -/
inductive Spreads : Layers → List Scope → List Scope → Prop
  | top : Spreads .top [] []
  | shared {K : Layers} {scopes scopes' : List Scope} (scope : Scope) : Spreads K scopes scopes' →
    Spreads (.shared K) (scope :: scopes) (scope :: scopes')
  | added {K : Layers} {scopes scopes' : List Scope} : Spreads K scopes scopes' →
    Spreads (.added K) scopes (∅ :: scopes')

namespace Spreads

variable {K : Layers} {scopes scopes' : List Scope}

theorem uniform : ∀ scopes : List Scope, Spreads (.uniform scopes.length) scopes scopes
  | [] => .top
  | scope :: outer => .shared scope (uniform outer)

theorem depth (h : K.Spreads scopes scopes') : K.depth = scopes.length := by
  induction h with
  | top => rfl
  | shared scope _ ih => exact congrArg (· + 1) ih
  | added _ ih => exact ih

theorem distanceIn (h : K.Spreads scopes scopes') (name : String) :
    LoxLang.distanceIn name scopes' = (LoxLang.distanceIn name scopes).map K.shift := by
  induction h with
  | top => rfl
  | shared scope _ ih =>
    rw [distanceIn_cons, distanceIn_cons, ih]
    split
    · rfl
    · cases LoxLang.distanceIn name _ <;> rfl
  | added _ ih =>
    have hempty : (∅ : Scope).contains name = false := rfl
    rw [distanceIn_cons, hempty, ih]
    cases LoxLang.distanceIn name _ <;> rfl

theorem mark (h : K.Spreads scopes scopes') (hopen : K.Open) (name : String) (defined : Bool) :
    K.Spreads (markName name defined scopes) (markName name defined scopes') := by
  cases h with
  | top => exact .top
  | shared scope h => exact .shared _ h
  | added h => exact absurd hopen id

theorem isEmpty (h : K.Spreads scopes scopes') (hopen : K.Open) : scopes'.isEmpty = scopes.isEmpty := by
  cases h with
  | top | shared => rfl
  | added => exact absurd hopen id

end Spreads

end Layers

open Layers

namespace Resolution

/-- The two passes have come to one place, and to the same errors. -/
structure Beside (K : Layers) (r r' : Resolution) : Prop where
  scopes : K.Spreads r.scopes r'.scopes
  reported : r'.reported = r.reported

/-- They agree as well on which names are being initialized. -/
structure Reading (K : Layers) (globalName : Option String) (r r' : Resolution) : Prop extends
    Beside K r r' where
  initialized : ∀ name, r'.isBeingInitialized globalName name = r.isBeingInitialized globalName name

variable {K : Layers} {globalName : Option String} {r r' : Resolution}

namespace Beside

theorem reading (h : Beside K r r') (hopen : K.Open) (globalName : Option String) :
    Reading K globalName r r' := by
  refine ⟨h, fun name => ?_⟩
  obtain ⟨scopes, hops, reported⟩ := r
  obtain ⟨scopes', hops', reported'⟩ := r'
  cases h.scopes with
  | top | shared => rfl
  | added => exact absurd hopen id

theorem outside (h : Beside K r r') (hdefined : AllDefined r.scopes) : Reading K none r r' := by
  refine ⟨h, fun name => ?_⟩
  obtain ⟨scopes, hops, reported⟩ := r
  obtain ⟨scopes', hops', reported'⟩ := r'
  cases h.scopes with
  | top | shared => rfl
  | added =>
    cases scopes with
    | nil => rfl
    | cons scope outer =>
      have hscope := hdefined scope List.mem_cons_self name
      simp [isBeingInitialized, hscope]

theorem openShared (h : Beside K r r') : Beside K.shared r.openScope r'.openScope :=
  ⟨.shared ∅ h.scopes, h.reported⟩

theorem openAdded (h : Beside K r r') : Beside K.added r r'.openScope := ⟨.added h.scopes, h.reported⟩

theorem reportIf (h : Beside K r r') (condition : Bool) (token : Token) (cause : StaticError) :
    Beside K (r.reportIf condition token cause) (r'.reportIf condition token cause) :=
  ⟨by simpa using h.scopes, by rw [reported_reportIf, reported_reportIf, h.reported]⟩

theorem record (h : Beside K r r') (target : Reference) :
    Beside K (r.record target) (r'.record target) :=
  ⟨by simpa using h.scopes, by simpa using h.reported⟩

theorem declare (h : Beside K r r') (hopen : K.Open) (name : Token) :
    Beside K (r.declare name) (r'.declare name) := by
  obtain ⟨scopes, hops, reported⟩ := r
  obtain ⟨scopes', hops', reported'⟩ := r'
  have hscopes := h.scopes
  dsimp only at hscopes
  cases hscopes with
  | top => exact h
  | shared scope hscopes =>
    unfold Resolution.declare
    dsimp only
    split
    · exact ⟨.shared scope hscopes, congrArg (· ++ _) h.reported⟩
    · exact ⟨.shared _ hscopes, h.reported⟩
  | added => exact absurd hopen id

theorem defineName (h : Beside K r r') (hopen : K.Open) (name : String) :
    Beside K (r.defineName name) (r'.defineName name) := by
  obtain ⟨scopes, hops, reported⟩ := r
  obtain ⟨scopes', hops', reported'⟩ := r'
  have hscopes := h.scopes
  dsimp only at hscopes
  cases hscopes with
  | top => exact h
  | shared scope hscopes => exact ⟨.shared _ hscopes, h.reported⟩
  | added => exact absurd hopen id

theorem declareDefine (h : Beside K r r') (hopen : K.Open) (name : Token) :
    Beside K ((r.declare name).define name) ((r'.declare name).define name) :=
  (h.declare hopen name).defineName hopen name.lexeme

theorem declareParameters (h : Beside K r r') (hopen : K.Open) (parameters : List Token) :
    Beside K (r.declareParameters parameters) (r'.declareParameters parameters) := by
  unfold Resolution.declareParameters
  induction parameters generalizing r r' with
  | nil => exact h
  | cons name rest ih => exact ih (h.declareDefine hopen name)

end Beside

namespace Reading

theorem congr {r₁ r₁' : Resolution} (h : Reading K globalName r r') (hbeside : Beside K r₁ r₁')
    (hscopes : r₁.scopes = r.scopes) (hscopes' : r₁'.scopes = r'.scopes) :
    Reading K globalName r₁ r₁' :=
  ⟨hbeside, fun name => by simpa only [isBeingInitialized, hscopes, hscopes'] using h.initialized name⟩

theorem reportIf (h : Reading K globalName r r') (condition : Bool) (token : Token)
    (cause : StaticError) :
    Reading K globalName (r.reportIf condition token cause) (r'.reportIf condition token cause) :=
  h.congr (h.toBeside.reportIf condition token cause) (by simp) (by simp)

theorem record (h : Reading K globalName r r') (target : Reference) :
    Reading K globalName (r.record target) (r'.record target) :=
  h.congr (h.toBeside.record target) (by simp) (by simp)

end Reading

end Resolution

open Resolution

section

variable {K : Layers} {globalName : Option String}

mutual
theorem Expr.reading (around : Surroundings) : ∀ (e : Expr) {r r' : Resolution},
    Reading K globalName r r' →
    Reading K globalName (e.resolve around globalName r) (e.resolve around globalName r')
  | .literal _, _, _, h => by simpa only [Expr.resolve] using h
  | .grouping e, _, _, h | .unary _ e, _, _, h | .get e _, _, _, h => by
    simpa only [Expr.resolve] using Expr.reading around e h
  | .binary l _ e, _, _, h | .logical l _ e, _, _, h => by
    simpa only [Expr.resolve] using Expr.reading around e (Expr.reading around l h)
  | .conditional c (some t) e, _, _, h => by
    simpa only [Expr.resolve] using
      Expr.reading around e (Expr.reading around t (Expr.reading around c h))
  | .conditional c none e, _, _, h => by
    simpa only [Expr.resolve] using Expr.reading around e (Expr.reading around c h)
  | .variable target, _, _, h => by
    simp only [Expr.resolve, h.initialized]
    exact (h.reportIf _ _ _).record target
  | .assign target e, _, _, h => by
    simpa only [Expr.resolve] using (Expr.reading around e h).record target
  | .call f _ es, _, _, h => by
    simpa only [Expr.resolve] using Expr.list_reading around es (Expr.reading around f h)
  | .set o _ e, _, _, h => by
    simpa only [Expr.resolve] using Expr.reading around o (Expr.reading around e h)
  | .this keyword, _, _, h => by
    simp only [Expr.resolve]
    split
    · exact h.reportIf true _ _
    · exact h.record keyword
    · exact h.record keyword
  | .super keyword _, _, _, h => by
    simp only [Expr.resolve]
    split
    · exact (h.reportIf true _ _).record keyword
    · exact (h.reportIf true _ _).record keyword
    · exact h.record keyword

theorem Expr.list_reading (around : Surroundings) : ∀ (es : List Expr) {r r' : Resolution},
    Reading K globalName r r' →
    Reading K globalName (Expr.resolveList around globalName es r)
      (Expr.resolveList around globalName es r')
  | [], _, _, h => by simpa only [Expr.resolveList] using h
  | e :: rest, _, _, h => by
    simpa only [Expr.resolveList] using Expr.list_reading around rest (Expr.reading around e h)
end

theorem Expr.option_reading (around : Surroundings) (e : Option Expr) {r r' : Resolution}
    (h : Reading K none r r') :
    Reading K none (Expr.resolveOption around e r) (Expr.resolveOption around e r') := by
  cases e with
  | none => exact h
  | some e => exact Expr.reading around e h

end

mutual
theorem Expr.resolve_congr {around around' : Surroundings} (h : around'.classBody = around.classBody)
    (globalName : Option String) : ∀ (e : Expr) (r : Resolution),
    e.resolve around' globalName r = e.resolve around globalName r
  | .literal _, _ | .variable _, _ => rfl
  | .grouping e, r | .unary _ e, r | .get e _, r | .assign _ e, r => by
    simp only [Expr.resolve, Expr.resolve_congr h globalName e]
  | .binary l _ e, r | .logical l _ e, r | .set e _ l, r | .conditional l none e, r => by
    simp only [Expr.resolve, Expr.resolve_congr h globalName l, Expr.resolve_congr h globalName e]
  | .conditional c (some t) e, r => by
    simp only [Expr.resolve, Expr.resolve_congr h globalName c, Expr.resolve_congr h globalName t,
      Expr.resolve_congr h globalName e]
  | .call f _ es, r => by
    simp only [Expr.resolve, Expr.resolve_congr h globalName f, Expr.resolveList_congr h globalName es]
  | .this _, r | .super _ _, r => by simp only [Expr.resolve, h]

theorem Expr.resolveList_congr {around around' : Surroundings} (h : around'.classBody = around.classBody)
    (globalName : Option String) : ∀ (es : List Expr) (r : Resolution),
    Expr.resolveList around' globalName es r = Expr.resolveList around globalName es r
  | [], _ => rfl
  | e :: rest, r => by
    simp only [Expr.resolveList, Expr.resolve_congr h globalName e, Expr.resolveList_congr h globalName rest]
end

theorem Resolution.Beside.closeShared {K : Layers} {r r' : Resolution} (h : Beside K.shared r r') :
    Beside K r.closeScope r'.closeScope := by
  obtain ⟨scopes, hops, reported⟩ := r
  obtain ⟨scopes', hops', reported'⟩ := r'
  obtain ⟨hscopes, hreported⟩ := h
  cases hscopes with
  | shared scope hscopes => exact ⟨hscopes, hreported⟩

theorem Resolution.Beside.closeAdded {K : Layers} {r r' : Resolution} (h : Beside K.added r r') :
    Beside K r r'.closeScope := by
  obtain ⟨scopes', hops', reported'⟩ := r'
  obtain ⟨hscopes, hreported⟩ := h
  dsimp only at hscopes
  cases hscopes with
  | added hscopes => exact ⟨hscopes, hreported⟩

theorem Stmt.beside_of_isSimple (around : Surroundings) {s : Stmt} {K : Layers} {r r' : Resolution}
    (hsimple : s.isSimple = true) (hopen : s.declares = true → K.Open) (hdefined : AllDefined r.scopes)
    (h : Beside K r r') : Beside K (s.resolve around r) (s.resolve around r') := by
  cases s with
  | expression e | print e =>
    simp only [Stmt.resolve]
    exact (Expr.reading around e (h.outside hdefined)).toBeside
  | declareVar name e =>
    have hK : K.Open := hopen rfl
    cases e with
    | none =>
      simp only [Stmt.resolve]
      exact h.declareDefine hK name
    | some e =>
      simp only [Stmt.resolve, h.scopes.isEmpty hK]
      have hreading := (h.declare hK name).reading hK
        (if r.scopes.isEmpty then some name.lexeme else none)
      exact (Expr.reading around e hreading).toBeside.defineName hK name.lexeme
  | returnWith word e =>
    simp only [Stmt.resolve]
    have hreported := (h.reportIf (decide (around.function = .outside)) word .returnAtTopLevel).reportIf
      (e.isSome && decide (around.function = .initializer)) word .returnFromInitializer
    exact (Expr.option_reading around e (hreported.outside (by simpa using hdefined))).toBeside
  | breakLoop word | continueLoop word =>
    simp only [Stmt.resolve]
    exact h.reportIf _ _ _
  | block | branch | loop | declareFunction | declareClass => cases hsimple

theorem Expr.beside_after (around : Surroundings) (e : Expr) {K : Layers} {r r' : Resolution}
    (hdefined : AllDefined r.scopes) (h : Beside K r r') :
    AllDefined (e.resolve around none r).scopes ∧
      Beside K (e.resolve around none r) (e.resolve around none r') := by
  refine ⟨?_, (Expr.reading around e (h.outside hdefined)).toBeside⟩
  rw [Expr.scopes_resolve]
  exact hdefined

theorem Stmt.beside_after_clause (around : Surroundings) {i : Stmt} {K : Layers} {r r' : Resolution}
    (hi : i.Proper ∧ i.isClause = true) (hdefined : AllDefined r.scopes) (h : Beside K r r') :
    AllDefined (i.resolve around r.openScope).scopes ∧
      Beside K.shared (i.resolve around r.openScope) (i.resolve around r'.openScope) := by
  have hinside : AllDefined r.openScope.scopes := hdefined.push (by simp)
  refine ⟨?_, Stmt.beside_of_isSimple around (isSimple_of_isClause hi.2) (fun _ => open_shared K) hinside
    h.openShared⟩
  rw [Stmt.scopes_resolve around i _ hi.1]
  exact hinside.stmt i

theorem Stmt.beside_of_pass {around : Surroundings} {n : Option Expr} {b b' : Stmt} {K : Layers}
    {r r' : Resolution} (hb : b.Proper ∧ b.declares = false) (hdefined : AllDefined r.scopes)
    (hbody : Beside K (b.resolve { around with inLoop := true } r)
      (b'.resolve { around with inLoop := true } r')) :
    Beside K (Expr.resolveOption around n (b.resolve { around with inLoop := true } r))
      (Expr.resolveOption around n (b'.resolve { around with inLoop := true } r')) := by
  have hafter : (b.resolve { around with inLoop := true } r).scopes = r.scopes := by
    rw [Stmt.scopes_resolve _ b _ hb.1, Stmt.mark_of_not_declares hb.2]
  exact (Expr.option_reading around n (hbody.outside (hafter ▸ hdefined))).toBeside

/-- The passage through a loop in textbook form: two scopes around the body and the increment, and the
outer one around the rest. -/
theorem Stmt.resolve_textbook (around : Surroundings) (i : Option Stmt) (c : Expr) (n : Option Expr)
    (b : Stmt) (r : Resolution) :
    (Stmt.textbook i c n b).resolve around r =
      (Expr.resolveOption around n
        (b.resolve { around with inLoop := true }
          (c.resolve around none
            (Stmt.resolveList around i.toList r.openScope)).openScope)).closeScope.closeScope := by
  have hn (e : Expr) (r : Resolution) :
      e.resolve { around with inLoop := true } none r = e.resolve around none r :=
    @Expr.resolve_congr around { around with inLoop := true } rfl none e r
  cases i <;> cases n <;>
    simp [textbook, withIncrement, Stmt.resolve, Stmt.resolveOption, Stmt.resolveList, Expr.resolveOption, hn]

variable {loops : Bool}

mutual
theorem Stmt.Rewritten.beside (around : Surroundings) : ∀ {s s' : Stmt}, s.Rewritten loops s' →
    ∀ {K : Layers} {r r' : Resolution}, s.Proper → (s.declares = true → K.Open) →
      AllDefined r.scopes → Beside K r r' → Beside K (s.resolve around r) (s'.resolve around r')
  | _, _, .bare h, _, _, _, hs, hopen, hdefined, hr => h.beside around hs hopen hdefined hr
  | s, _, @Stmt.Rewritten.braces _ _ s' hnot h, K, r, r', hs, _, hdefined, hr => by
    have hinside := h.beside around hs (fun hdeclares => by simp [hnot] at hdeclares) hdefined hr.openAdded
    simp only [Stmt.resolve, Stmt.resolveList]
    exact hinside.closeAdded

theorem Stmt.RewrittenWithin.beside (around : Surroundings) : ∀ {s s' : Stmt},
    s.RewrittenWithin loops s' → ∀ {K : Layers} {r r' : Resolution}, s.Proper → (s.declares = true → K.Open) →
      AllDefined r.scopes → Beside K r r' → Beside K (s.resolve around r) (s'.resolve around r')
  | _, _, .simple hsimple, _, _, _, _, hopen, hdefined, hr =>
    Stmt.beside_of_isSimple around hsimple hopen hdefined hr
  | _, _, .block h, _, _, _, hs, _, hdefined, hr => by
    simp only [Stmt.resolve]
    exact (h.beside around hs (open_shared _) (hdefined.push (by simp)) hr.openShared).closeShared
  | _, _, @Stmt.RewrittenWithin.ifAlone _ c t t' h, K, r, r', hs, _, hdefined, hr => by
    obtain ⟨hdefined, hc⟩ := Expr.beside_after around c hdefined hr
    simp only [Stmt.resolve]
    exact h.beside around hs.1 (by simp [hs.2]) hdefined hc
  | _, _, @Stmt.RewrittenWithin.ifElse _ c t t' e e' ht he, K, r, r', hs, _, hdefined, hr => by
    obtain ⟨hdefined, hc⟩ := Expr.beside_after around c hdefined hr
    have hthen := ht.beside around hs.1.1 (by simp [hs.1.2]) hdefined hc
    have hafter : AllDefined (t.resolve around (c.resolve around none r)).scopes := by
      rw [Stmt.scopes_resolve around t _ hs.1.1]
      exact hdefined.stmt t
    simp only [Stmt.resolve]
    exact he.beside around hs.2.1 (by simp [hs.2.2]) hafter hthen
  | _, _, @Stmt.RewrittenWithin.loop _ none c n b b' h, K, r, r', hs, _, hdefined, hr => by
    obtain ⟨hdefined, hc⟩ := Expr.beside_after around c hdefined hr
    obtain ⟨n, rfl⟩ := Stmt.exists_increment hs.1
    simp only [Stmt.resolve, Stmt.resolveOption_map]
    exact Stmt.beside_of_pass hs.2 hdefined (h.beside _ hs.2.1 (by simp [hs.2.2]) hdefined hc)
  | _, _, @Stmt.RewrittenWithin.loop _ (some i) c n b b' h, K, r, r', hs, _, hdefined, hr => by
    obtain ⟨hdefined, hi⟩ := Stmt.beside_after_clause around hs.1 hdefined hr
    obtain ⟨hdefined, hc⟩ := Expr.beside_after around c hdefined hi
    obtain ⟨n, rfl⟩ := Stmt.exists_increment hs.2.1
    simp only [Stmt.resolve, Stmt.resolveOption_map]
    exact (Stmt.beside_of_pass hs.2.2 hdefined
      (h.beside _ hs.2.2.1 (by simp [hs.2.2.2]) hdefined hc)).closeShared
  | _, _, @Stmt.RewrittenWithin.textbook _ none c n b b' _ _ h, K, r, r', hs, _, hdefined, hr => by
    obtain ⟨hdefined, hc⟩ := Expr.beside_after around c hdefined hr.openAdded
    -- Two scopes more in the second program, both of them empty: around the body, and around the loop.
    have hpass := Stmt.beside_of_pass (n := n) hs.2 hdefined
      (h.beside { around with inLoop := true } hs.2.1 (by simp [hs.2.2]) hdefined hc.openAdded)
    rw [Stmt.resolve, Stmt.resolveOption_map, Stmt.resolve_textbook]
    exact hpass.closeAdded.closeAdded
  | _, _, @Stmt.RewrittenWithin.textbook _ (some i) c n b b' _ _ h, K, r, r', hs, _, hdefined, hr => by
    obtain ⟨hdefined, hi⟩ := Stmt.beside_after_clause around hs.1 hdefined hr
    obtain ⟨hdefined, hc⟩ := Expr.beside_after around c hdefined hi
    have hpass := Stmt.beside_of_pass (n := n) hs.2.2 hdefined
      (h.beside { around with inLoop := true } hs.2.2.1 (by simp [hs.2.2.2]) hdefined hc.openAdded)
    rw [Stmt.resolve, Stmt.resolveOption_map, Stmt.resolve_textbook]
    exact hpass.closeAdded.closeShared
  | _, _, @Stmt.RewrittenWithin.function _ d d' h, K, r, r', hs, hopen, hdefined, hr => by
    have hname : d'.name = d.name := by cases h; rfl
    have hdeclared := hr.declareDefine (hopen rfl) d.name
    have hafter : AllDefined ((r.declare d.name).define d.name).scopes := by
      rw [scopes_declareDefine]
      exact hdefined.mark _
    simp only [Stmt.resolve, hname]
    exact h.beside around .function hs hafter hdeclared
  | _, _, @Stmt.RewrittenWithin.classBody _ name none ds ds' h, K, r, r', hs, hopen, hdefined, hr => by
    have hdeclared := (hr.declareDefine (hopen rfl) name).openShared.defineName (open_shared _) "this"
    have hafter : AllDefined
        (((r.declare name).define name).openScope.defineName "this").scopes := by
      rw [scopes_defineThis, scopes_declareDefine]
      exact (hdefined.mark _).oneName "this"
    simp only [Stmt.resolve]
    exact (h.beside _ hs.2 hafter hdeclared).closeShared
  | _, _, @Stmt.RewrittenWithin.classBody _ name (some base) ds ds' h, K, r, r', hs, hopen, hdefined, hr => by
    have hdeclared := (hr.declareDefine (hopen rfl) name).reportIf
      (decide (base.name.lexeme = name.lexeme)) base.name .inheritsFromItself
    have hsuper := (hdeclared.record base).openShared.defineName (open_shared _) "super"
    have hthis := hsuper.openShared.defineName (open_shared _) "this"
    have hafter : AllDefined (((((((r.declare name).define name).reportIf
        (decide (base.name.lexeme = name.lexeme)) base.name .inheritsFromItself).record
          base).openScope.defineName "super").openScope.defineName "this")).scopes := by
      rw [scopes_defineThis, scopes_defineSuper, scopes_record, scopes_reportIf, scopes_declareDefine]
      exact ((hdefined.mark _).oneName "super").oneName "this"
    simp only [Stmt.resolve]
    exact (h.beside _ hs.2 hafter hthis).closeShared.closeShared

theorem Stmt.AllRewritten.beside (around : Surroundings) : ∀ {body body' : List Stmt},
    Stmt.AllRewritten loops body body' → ∀ {K : Layers} {r r' : Resolution}, Stmt.AllProper body → K.Open →
      AllDefined r.scopes → Beside K r r' →
      Beside K (Stmt.resolveList around body r) (Stmt.resolveList around body' r')
  | _, _, .nil, _, _, _, _, _, _, hr => by simpa only [Stmt.resolveList] using hr
  | _, _, @Stmt.AllRewritten.cons _ s s' rest rest' h hrest, K, r, r', hbody, hopen, hdefined, hr => by
    have hafter : AllDefined (s.resolve around r).scopes := by
      rw [Stmt.scopes_resolve around s r hbody.1]
      exact hdefined.stmt s
    simp only [Stmt.resolveList]
    exact hrest.beside around hbody.2 hopen hafter
      (h.beside around hbody.1 (fun _ => hopen) hdefined hr)

theorem Declaration.Rewritten.beside (around : Surroundings) (kind : EnclosingFunction) :
    ∀ {d d' : Declaration}, d.Rewritten loops d' → ∀ {K : Layers} {r r' : Resolution}, d.Proper →
      AllDefined r.scopes → Beside K r r' →
      Beside K (d.resolve around kind r) (d'.resolve around kind r')
  | _, _, @Declaration.Rewritten.mk _ name parameters body body' h, K, r, r', hd, hdefined, hr => by
    have hparameters := hr.openShared.declareParameters (open_shared _) parameters
    have hafter : AllDefined (r.openScope.declareParameters parameters).scopes := by
      rw [scopes_declareParameters parameters rfl]
      exact hdefined.parameters parameters
    simp only [Declaration.resolve]
    exact (h.beside _ hd.2.2 (open_shared _) hafter hparameters).closeShared

theorem Declaration.AllRewritten.beside (around : Surroundings) : ∀ {ds ds' : List Declaration},
    Declaration.AllRewritten loops ds ds' → ∀ {K : Layers} {r r' : Resolution}, Declaration.AllProper ds →
      AllDefined r.scopes → Beside K r r' →
      Beside K (Declaration.resolveMethods around ds r) (Declaration.resolveMethods around ds' r')
  | _, _, .nil, _, _, _, _, _, hr => by simpa only [Declaration.resolveMethods] using hr
  | _, _, @Declaration.AllRewritten.cons _ d d' rest rest' h hrest, K, r, r', hds, hdefined, hr => by
    have hkind : d'.methodContext = d.methodContext := by cases h; rfl
    have hafter : AllDefined (d.resolve around d.methodContext r).scopes := by
      rw [Declaration.scopes_resolve around _ d r hds.1]
      exact hdefined
    simp only [Declaration.resolveMethods, hkind]
    exact hrest.beside around hds.2 hafter (h.beside around _ hds.1 hdefined hr)
end

/-- The same is reported of a program with more braces and with loops in textbook form. -/
theorem Program.reported_rewritten {P P' : Program} (h : Stmt.AllRewritten loops P P')
    (hP : Stmt.AllProper P) :
    (Stmt.resolveList .program P' .start).reported = (Stmt.resolveList .program P .start).reported := by
  have hdefined : AllDefined Resolution.start.scopes := by simp [AllDefined, Resolution.start]
  have hstart : Beside .top .start .start := ⟨.top, rfl⟩
  exact (h.beside .program hP open_top hdefined hstart).reported

end LoxLang
