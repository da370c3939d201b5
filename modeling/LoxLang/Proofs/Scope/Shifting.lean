import LoxLang.Proofs.Scope.Bracing
import LoxLang.Proofs.Scope.Recording

/-!
Code whose hop counts are shifted by braces.

What a run needs to know of a program with more braces, and with loops in textbook form, is said here
without scopes: which scopes around each place the braces add, and that the hop counts recorded for the
references there go past the added scopes. All of it follows from what the static pass records of the two
programs.
-/

set_option autoImplicit false

namespace LoxLang

/-- The tables of hop counts of two programs, and whether the second one may have loops in textbook
form. -/
structure Tables where
  first : HopTable
  second : HopTable
  loops : Bool

namespace Tables

variable (T : Tables)

/-- The second hop count goes past the added scopes. Those of both programs that are passed are there, and
none is added between the environments of `this` and `super`. -/
structure Shifts (K : Layers) (r : ReferenceKind × Reference) : Prop where
  shifted : T.second[r.2.id]? = T.first[r.2.id]?.map K.shift
  inside : ∀ d, T.first[r.2.id]? = some d → d < K.depth
  seated : r.1 = .super → ∀ d, T.first[r.2.id]? = some d → K.shift d = K.shift (d - 1) + 1

def AllShift (K : Layers) (refs : List (ReferenceKind × Reference)) : Prop := ∀ r ∈ refs, T.Shifts K r

variable {T} {K : Layers} {scopes scopes' : List Scope}

theorem AllShift.left {a b : List (ReferenceKind × Reference)} (h : T.AllShift K (a ++ b)) :
    T.AllShift K a := fun r hr => h r (List.mem_append_left _ hr)

theorem AllShift.right {a b : List (ReferenceKind × Reference)} (h : T.AllShift K (a ++ b)) :
    T.AllShift K b := fun r hr => h r (List.mem_append_right _ hr)

theorem Shifts.of_recorded (h : K.Spreads scopes scopes') {kind : ReferenceKind} {target : Reference}
    (hfirst : Lookup.Recorded T.first ⟨kind, target, scopes⟩)
    (hsecond : Lookup.Recorded T.second ⟨kind, target, scopes'⟩) : T.Shifts K (kind, target) := by
  refine ⟨?_, fun d hd => ?_, ?_⟩
  · rw [hfirst.found, hsecond.found]
    exact h.distanceIn target.name.lexeme
  · rw [hfirst.found] at hd
    obtain ⟨hlt, -, -⟩ := List.findIdx?_eq_some_iff_getElem.mp hd
    rw [h.depth]
    exact hlt
  · rintro rfl d hd
    have hname : target.name.lexeme = "super" := hfirst.spelled
    rw [hfirst.found, Lookup.distance?, hname] at hd
    obtain ⟨e, he⟩ := hfirst.sound.seated rfl
    obtain ⟨e', he'⟩ := hsecond.sound.seated rfl
    have hthis := h.distanceIn "this"
    have hsuper := h.distanceIn "super"
    rw [he.this, he'.this] at hthis
    rw [he.super, he'.super] at hsuper
    obtain rfl : d = e + 1 := Option.some.inj (hd.symm.trans he.super)
    obtain rfl : e' = K.shift e := Option.some.inj hthis
    exact (Option.some.inj hsuper).symm

theorem AllShift.of_records (h : K.Spreads scopes scopes') {refs : List (ReferenceKind × Reference)}
    (hfirst : Records T.first (lookupsIn scopes refs))
    (hsecond : Records T.second (lookupsIn scopes' refs)) : T.AllShift K refs :=
  fun _ hr => .of_recorded h (hfirst _ (List.mem_map_of_mem hr)) (hsecond _ (List.mem_map_of_mem hr))

end Tables

def Layers.inClass (base : Option Reference) (K : Layers) : Layers :=
  match base with
  | none => K
  | some _ => K.shared

mutual
/-- The second statement is the first one with more braces, perhaps around the statement itself, with loops
in textbook form if these may be changed, and with the hop counts shifted. -/
inductive Stmt.Shifts (T : Tables) : Layers → Stmt → Stmt → Prop
  | bare {K : Layers} {s s' : Stmt} : Stmt.ShiftsWithin T K s s' → Stmt.Shifts T K s s'
  | braces {K : Layers} {s s' : Stmt} : Stmt.ShiftsWithin T K.added s s' →
    Stmt.Shifts T K s (.block [s'])

/-- The second statement is the first one with more braces in it, with loops in textbook form, perhaps the
statement itself, and with the hop counts shifted. -/
inductive Stmt.ShiftsWithin (T : Tables) : Layers → Stmt → Stmt → Prop
  | expression {K : Layers} {e : Expr} : T.AllShift K e.references →
    Stmt.ShiftsWithin T K (.expression e) (.expression e)
  | print {K : Layers} {e : Expr} : T.AllShift K e.references →
    Stmt.ShiftsWithin T K (.print e) (.print e)
  | declareVar {K : Layers} {name : Token} {e : Option Expr} : K.Open →
    T.AllShift K (Expr.optionReferences e) →
    Stmt.ShiftsWithin T K (.declareVar name e) (.declareVar name e)
  | block {K : Layers} {body body' : List Stmt} : Stmt.AllShift T K.shared body body' →
    Stmt.ShiftsWithin T K (.block body) (.block body')
  | ifAlone {K : Layers} {c : Expr} {t t' : Stmt} : T.AllShift K c.references → Stmt.Shifts T K t t' →
    Stmt.ShiftsWithin T K (.branch c t none) (.branch c t' none)
  | ifElse {K : Layers} {c : Expr} {t t' e e' : Stmt} : T.AllShift K c.references →
    Stmt.Shifts T K t t' → Stmt.Shifts T K e e' →
    Stmt.ShiftsWithin T K (.branch c t (some e)) (.branch c t' (some e'))
  | whileLoop {K : Layers} {c : Expr} {n : Option Expr} {b b' : Stmt} : T.AllShift K c.references →
    T.AllShift K (Expr.optionReferences n) → Stmt.Shifts T K b b' →
    Stmt.ShiftsWithin T K (.loop none c (n.map .expression) b) (.loop none c (n.map .expression) b')
  | forLoop {K : Layers} {i : Stmt} {c : Expr} {n : Option Expr} {b b' : Stmt} :
    Stmt.ShiftsWithin T K.shared i i → T.AllShift K.shared c.references →
    T.AllShift K.shared (Expr.optionReferences n) → Stmt.Shifts T K.shared b b' →
    Stmt.ShiftsWithin T K (.loop (some i) c (n.map .expression) b)
      (.loop (some i) c (n.map .expression) b')
  | whileTextbook {K : Layers} {c : Expr} {n : Option Expr} {b b' : Stmt} : T.loops = true →
    b.continues = false → T.AllShift K.added c.references →
    T.AllShift K.added.added (Expr.optionReferences n) → Stmt.Shifts T K.added.added b b' →
    Stmt.ShiftsWithin T K (.loop none c (n.map .expression) b) (Stmt.textbook none c n b')
  | forTextbook {K : Layers} {i : Stmt} {c : Expr} {n : Option Expr} {b b' : Stmt} : T.loops = true →
    b.continues = false → i.isClause = true → Stmt.ShiftsWithin T K.shared i i →
    T.AllShift K.shared c.references → T.AllShift K.shared.added (Expr.optionReferences n) →
    Stmt.Shifts T K.shared.added b b' →
    Stmt.ShiftsWithin T K (.loop (some i) c (n.map .expression) b) (Stmt.textbook (some i) c n b')
  | declareFunction {K : Layers} {d d' : Declaration} : K.Open → Declaration.Shifts T K d d' →
    Stmt.ShiftsWithin T K (.declareFunction d) (.declareFunction d')
  | returnWith {K : Layers} {word : Token} {e : Option Expr} : T.AllShift K (Expr.optionReferences e) →
    Stmt.ShiftsWithin T K (.returnWith word e) (.returnWith word e)
  | breakLoop {K : Layers} {word : Token} : Stmt.ShiftsWithin T K (.breakLoop word) (.breakLoop word)
  | continueLoop {K : Layers} {word : Token} :
    Stmt.ShiftsWithin T K (.continueLoop word) (.continueLoop word)
  | declareClass {K : Layers} {name : Token} {base : Option Reference} {ds ds' : List Declaration} :
    K.Open → (∀ r, base = some r → T.Shifts K (.superclass, r)) →
    Declaration.AllShift T (K.inClass base).shared ds ds' →
    Stmt.ShiftsWithin T K (.declareClass name base ds) (.declareClass name base ds')

inductive Stmt.AllShift (T : Tables) : Layers → List Stmt → List Stmt → Prop
  | nil {K : Layers} : Stmt.AllShift T K [] []
  | cons {K : Layers} {s s' : Stmt} {rest rest' : List Stmt} : Stmt.Shifts T K s s' →
    Stmt.AllShift T K rest rest' → Stmt.AllShift T K (s :: rest) (s' :: rest')

inductive Declaration.Shifts (T : Tables) : Layers → Declaration → Declaration → Prop
  | mk {K : Layers} {name : Token} {parameters : List Token} {body body' : List Stmt} :
    Stmt.AllShift T K.shared body body' →
    Declaration.Shifts T K (.mk name parameters body) (.mk name parameters body')

inductive Declaration.AllShift (T : Tables) : Layers → List Declaration → List Declaration → Prop
  | nil {K : Layers} : Declaration.AllShift T K [] []
  | cons {K : Layers} {d d' : Declaration} {rest rest' : List Declaration} :
    Declaration.Shifts T K d d' → Declaration.AllShift T K rest rest' →
    Declaration.AllShift T K (d :: rest) (d' :: rest')
end

section

variable {T : Tables} {K : Layers} {scopes scopes' : List Scope}

theorem Layers.Spreads.inClass (h : K.Spreads scopes scopes') (hopen : K.Open) (name : Token)
    (base : Option Reference) :
    (K.inClass base).shared.Spreads (classScopes name base scopes) (classScopes name base scopes') := by
  cases base with
  | none => exact .shared _ (h.mark hopen _ _)
  | some _ => exact .shared _ (.shared _ (h.mark hopen _ _))

theorem Layers.Spreads.stmt (h : K.Spreads scopes scopes') {s : Stmt}
    (hopen : s.declares = true → K.Open) : K.Spreads (s.mark scopes) (s.mark scopes') := by
  cases hs : s.declares with
  | false => rwa [Stmt.mark_of_not_declares hs, Stmt.mark_of_not_declares hs]
  | true =>
    cases s with
    | declareVar | declareFunction | declareClass => exact h.mark (hopen hs) _ _
    | _ => cases hs

theorem Stmt.RewrittenWithin.mark {loops : Bool} {s s' : Stmt} (h : s.RewrittenWithin loops s') :
    s'.mark = s.mark := by
  cases h with
  | function h =>
    cases h
    rfl
  | _ => rfl

theorem Stmt.Rewritten.mark {loops : Bool} {s s' : Stmt} (h : s.Rewritten loops s') : s'.mark = s.mark := by
  cases h with
  | bare h => exact h.mark
  | braces hnot h =>
    funext scopes
    exact (Stmt.mark_of_not_declares hnot scopes).symm

theorem Stmt.shifts_of_isSimple {s : Stmt} (hsimple : s.isSimple = true)
    (hopen : s.declares = true → K.Open) (h : K.Spreads scopes scopes')
    (hfirst : Records T.first (s.lookups scopes)) (hsecond : Records T.second (s.lookups scopes')) :
    s.ShiftsWithin T K s := by
  cases s with
  | expression e => exact .expression (.of_records h hfirst hsecond)
  | print e => exact .print (.of_records h hfirst hsecond)
  | declareVar name e =>
    exact .declareVar (hopen rfl) (.of_records (h.mark (hopen rfl) _ _) hfirst hsecond)
  | returnWith word e => exact .returnWith (.of_records h hfirst hsecond)
  | breakLoop word => exact .breakLoop
  | continueLoop word => exact .continueLoop
  | block | branch | loop | declareFunction | declareClass => cases hsimple

theorem Layers.Spreads.clause (h : K.Spreads scopes scopes') (i : Stmt) :
    K.shared.Spreads (i.mark (∅ :: scopes)) (i.mark (∅ :: scopes')) :=
  (Layers.Spreads.shared ∅ h).stmt fun _ => Layers.open_shared K

theorem Stmt.shifts_of_isClause {i : Stmt} (hclause : i.isClause = true) (h : K.Spreads scopes scopes')
    (hfirst : Records T.first (i.lookups (∅ :: scopes)))
    (hsecond : Records T.second (i.lookups (∅ :: scopes'))) : i.ShiftsWithin T K.shared i :=
  Stmt.shifts_of_isSimple (isSimple_of_isClause hclause) (fun _ => Layers.open_shared K) (.shared ∅ h)
    hfirst hsecond

theorem Stmt.lookups_textbook {b : Stmt} (hb : b.declares = false) (i : Option Stmt) (c : Expr)
    (n : Option Expr) (scopes : List Scope) :
    (Stmt.textbook i c n b).lookups scopes =
      Stmt.listLookups i.toList (∅ :: scopes) ++
        (c.lookups ((i.elim id Stmt.mark) (∅ :: scopes)) ++
          (b.lookups (∅ :: (i.elim id Stmt.mark) (∅ :: scopes)) ++
            Expr.optionLookups (∅ :: (i.elim id Stmt.mark) (∅ :: scopes)) n)) := by
  cases i <;> cases n <;>
    simp [textbook, withIncrement, Stmt.lookups, Stmt.optionLookups, Stmt.listLookups,
      Stmt.mark_of_not_declares hb, Expr.lookups, Expr.optionLookups, Expr.optionReferences, lookupsIn]

mutual
theorem Stmt.Rewritten.shifts : ∀ {s s' : Stmt}, s.Rewritten T.loops s' →
    ∀ {K : Layers} {scopes scopes' : List Scope}, s.Proper → (s.declares = true → K.Open) →
    K.Spreads scopes scopes' → Records T.first (s.lookups scopes) →
    Records T.second (s'.lookups scopes') → s.Shifts T K s'
  | _, _, .bare h, _, _, _, hs, hopen, hscopes, hfirst, hsecond =>
    .bare (h.shifts hs hopen hscopes hfirst hsecond)
  | _, _, @Stmt.Rewritten.braces _ s s' hnot h, _, _, _, hs, _, hscopes, hfirst, hsecond => by
    refine .braces (h.shifts hs (fun hdeclares => ?_) (.added hscopes) hfirst ?_)
    · rw [hnot] at hdeclares
      cases hdeclares
    · simp only [Stmt.lookups, Stmt.listLookups] at hsecond
      exact hsecond.left

theorem Stmt.RewrittenWithin.shifts : ∀ {s s' : Stmt}, s.RewrittenWithin T.loops s' →
    ∀ {K : Layers} {scopes scopes' : List Scope}, s.Proper → (s.declares = true → K.Open) →
    K.Spreads scopes scopes' → Records T.first (s.lookups scopes) →
    Records T.second (s'.lookups scopes') → s.ShiftsWithin T K s'
  | _, _, .simple hsimple, _, _, _, _, hopen, hscopes, hfirst, hsecond =>
    Stmt.shifts_of_isSimple hsimple hopen hscopes hfirst hsecond
  | _, _, .block h, _, _, _, hs, _, hscopes, hfirst, hsecond =>
    .block (h.shifts hs (Layers.open_shared _) (.shared ∅ hscopes) hfirst hsecond)
  | _, _, .ifAlone h, _, _, _, hs, _, hscopes, hfirst, hsecond =>
    .ifAlone (.of_records hscopes hfirst.left hsecond.left)
      (h.shifts hs.1 (by simp [hs.2]) hscopes hfirst.right hsecond.right)
  | _, _, .ifElse ht he, _, _, _, hs, _, hscopes, hfirst, hsecond =>
    .ifElse (.of_records hscopes hfirst.left.left hsecond.left.left)
      (ht.shifts hs.1.1 (by simp [hs.1.2]) hscopes hfirst.left.right hsecond.left.right)
      (he.shifts hs.2.1 (by simp [hs.2.2]) hscopes hfirst.right hsecond.right)
  | _, _, @Stmt.RewrittenWithin.loop _ none _ n _ _ h, _, _, _, hs, _, hscopes, hfirst, hsecond => by
    obtain ⟨n, rfl⟩ := Stmt.exists_increment hs.1
    simp only [Stmt.lookups, Stmt.optionLookups_map] at hfirst hsecond
    exact .whileLoop (.of_records hscopes hfirst.left.left hsecond.left.left)
      (.of_records hscopes hfirst.left.right hsecond.left.right)
      (h.shifts hs.2.1 (by simp [hs.2.2]) hscopes hfirst.right hsecond.right)
  | _, _, @Stmt.RewrittenWithin.loop _ (some i) _ n _ _ h, K, _, _, hs, _, hscopes, hfirst, hsecond => by
    obtain ⟨n, rfl⟩ := Stmt.exists_increment hs.2.1
    simp only [Stmt.lookups, Stmt.optionLookups_map] at hfirst hsecond
    exact .forLoop (Stmt.shifts_of_isClause hs.1.2 hscopes hfirst.left.left.left hsecond.left.left.left)
      (.of_records (hscopes.clause i) hfirst.left.left.right hsecond.left.left.right)
      (.of_records (hscopes.clause i) hfirst.left.right hsecond.left.right)
      (h.shifts hs.2.2.1 (by simp [hs.2.2.2]) (hscopes.clause i) hfirst.right hsecond.right)
  | _, _, @Stmt.RewrittenWithin.textbook _ none c n b b' hloops hcontinues h, K, _, _, hs, _, hscopes,
    hfirst, hsecond => by
    have hnot : b'.declares = false := h.declares.trans hs.2.2
    have hinside := Layers.Spreads.added hscopes
    simp only [Stmt.lookups, Stmt.optionLookups_map] at hfirst
    rw [Stmt.lookups_textbook hnot] at hsecond
    have hsecond := hsecond.right
    exact .whileTextbook hloops hcontinues (.of_records hinside hfirst.left.left hsecond.left)
      (.of_records (.added hinside) hfirst.left.right hsecond.right.right)
      (h.shifts hs.2.1 (by simp [hs.2.2]) (.added hinside) hfirst.right hsecond.right.left)
  | _, _, @Stmt.RewrittenWithin.textbook _ (some i) c n b b' hloops hcontinues h, K, _, _, hs, _, hscopes,
    hfirst, hsecond => by
    have hnot : b'.declares = false := h.declares.trans hs.2.2.2
    have hinside := hscopes.clause i
    simp only [Stmt.lookups, Stmt.optionLookups_map] at hfirst
    rw [Stmt.lookups_textbook hnot] at hsecond
    exact .forTextbook hloops hcontinues hs.1.2
      (Stmt.shifts_of_isClause hs.1.2 hscopes hfirst.left.left.left hsecond.left.left)
      (.of_records hinside hfirst.left.left.right hsecond.right.left)
      (.of_records (.added hinside) hfirst.left.right hsecond.right.right.right)
      (h.shifts hs.2.2.1 (by simp [hs.2.2.2]) (.added hinside) hfirst.right hsecond.right.right.left)
  | _, _, @Stmt.RewrittenWithin.function _ d d' h, _, _, _, hs, hopen, hscopes, hfirst, hsecond => by
    have hname : d'.name = d.name := by cases h; rfl
    simp only [Stmt.lookups, hname] at hsecond
    exact .declareFunction (hopen rfl) (h.shifts hs (hscopes.mark (hopen rfl) _ _) hfirst hsecond)
  | _, _, @Stmt.RewrittenWithin.classBody _ name base ds ds' h, _, _, _, hs, hopen, hscopes, hfirst,
    hsecond => by
    refine .declareClass (hopen rfl) (fun _ hr => ?_)
      (h.shifts hs.2 (hscopes.inClass (hopen rfl) name base) hfirst.right hsecond.right)
    subst hr
    exact .of_recorded hscopes (hfirst.left _ (by simp)) (hsecond.left _ (by simp))

theorem Stmt.AllRewritten.shifts : ∀ {body body' : List Stmt}, Stmt.AllRewritten T.loops body body' →
    ∀ {K : Layers} {scopes scopes' : List Scope}, Stmt.AllProper body → K.Open →
    K.Spreads scopes scopes' → Records T.first (Stmt.listLookups body scopes) →
    Records T.second (Stmt.listLookups body' scopes') → Stmt.AllShift T K body body'
  | _, _, .nil, _, _, _, _, _, _, _, _ => .nil
  | _, _, @Stmt.AllRewritten.cons _ s s' rest rest' h hrest, K, scopes, scopes', hbody, hopen, hscopes,
    hfirst, hsecond => by
    have hafter : K.Spreads (s.mark scopes) (s'.mark scopes') := by
      rw [h.mark]
      exact hscopes.stmt fun _ => hopen
    exact .cons (h.shifts hbody.1 (fun _ => hopen) hscopes hfirst.left hsecond.left)
      (hrest.shifts hbody.2 hopen hafter hfirst.right hsecond.right)

theorem Declaration.Rewritten.shifts : ∀ {d d' : Declaration}, d.Rewritten T.loops d' →
    ∀ {K : Layers} {scopes scopes' : List Scope}, d.Proper → K.Spreads scopes scopes' →
    Records T.first (d.lookups scopes) → Records T.second (d'.lookups scopes') → d.Shifts T K d'
  | _, _, .mk h, _, _, _, hd, hscopes, hfirst, hsecond =>
    .mk (h.shifts hd.2.2 (Layers.open_shared _) (.shared _ hscopes) hfirst hsecond)

theorem Declaration.AllRewritten.shifts : ∀ {ds ds' : List Declaration},
    Declaration.AllRewritten T.loops ds ds' → ∀ {K : Layers} {scopes scopes' : List Scope},
    Declaration.AllProper ds → K.Spreads scopes scopes' →
    Records T.first (Declaration.listLookups ds scopes) →
    Records T.second (Declaration.listLookups ds' scopes') → Declaration.AllShift T K ds ds'
  | _, _, .nil, _, _, _, _, _, _, _ => .nil
  | _, _, .cons h hrest, _, _, _, hds, hscopes, hfirst, hsecond =>
    .cons (h.shifts hds.1 hscopes hfirst.left hsecond.left)
      (hrest.shifts hds.2 hscopes hfirst.right hsecond.right)
end

end

end LoxLang
