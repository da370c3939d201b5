import LoxLang.Proofs.Syntax.Relabeling

set_option autoImplicit false

namespace LoxLang

def Reference.fill (r : Reference) : List ReferenceId → Reference × List ReferenceId
  | [] => (r, [])
  | id :: ids => (⟨id, r.name⟩, ids)

mutual
def Expr.fill : Expr → List ReferenceId → Expr × List ReferenceId
  | .literal value, ids => (.literal value, ids)
  | .grouping e, ids => (.grouping (e.fill ids).1, (e.fill ids).2)
  | .unary o e, ids => (.unary o (e.fill ids).1, (e.fill ids).2)
  | .binary l o r, ids =>
    let left := l.fill ids
    (.binary left.1 o (r.fill left.2).1, (r.fill left.2).2)
  | .logical l o r, ids =>
    let left := l.fill ids
    (.logical left.1 o (r.fill left.2).1, (r.fill left.2).2)
  | .conditional c (some t) e, ids =>
    let condition := c.fill ids
    let branch := t.fill condition.2
    (.conditional condition.1 (some branch.1) (e.fill branch.2).1, (e.fill branch.2).2)
  | .conditional c none e, ids =>
    let condition := c.fill ids
    (.conditional condition.1 none (e.fill condition.2).1, (e.fill condition.2).2)
  | .variable r, ids => (.variable (r.fill ids).1, (r.fill ids).2)
  | .assign r e, ids =>
    let target := r.fill ids
    (.assign target.1 (e.fill target.2).1, (e.fill target.2).2)
  | .call f paren es, ids =>
    let callee := f.fill ids
    (.call callee.1 paren (Expr.fillAll es callee.2).1, (Expr.fillAll es callee.2).2)
  | .get o name, ids => (.get (o.fill ids).1 name, (o.fill ids).2)
  | .set o name e, ids =>
    let object := o.fill ids
    (.set object.1 name (e.fill object.2).1, (e.fill object.2).2)
  | .this r, ids => (.this (r.fill ids).1, (r.fill ids).2)
  | .super r method, ids => (.super (r.fill ids).1 method, (r.fill ids).2)

def Expr.fillAll : List Expr → List ReferenceId → List Expr × List ReferenceId
  | [], ids => ([], ids)
  | e :: rest, ids =>
    let first := e.fill ids
    (first.1 :: (Expr.fillAll rest first.2).1, (Expr.fillAll rest first.2).2)
end

def Expr.fillOption : Option Expr → List ReferenceId → Option Expr × List ReferenceId
  | none, ids => (none, ids)
  | some e, ids => (some (e.fill ids).1, (e.fill ids).2)

mutual
def Stmt.fill : Stmt → List ReferenceId → Stmt × List ReferenceId
  | .expression e, ids => (.expression (e.fill ids).1, (e.fill ids).2)
  | .print e, ids => (.print (e.fill ids).1, (e.fill ids).2)
  | .declareVar name e, ids =>
    (.declareVar name (Expr.fillOption e ids).1, (Expr.fillOption e ids).2)
  | .block body, ids => (.block (Stmt.fillAll body ids).1, (Stmt.fillAll body ids).2)
  | .branch c t (some e), ids =>
    let condition := c.fill ids
    let branch := t.fill condition.2
    (.branch condition.1 branch.1 (some (e.fill branch.2).1), (e.fill branch.2).2)
  | .branch c t none, ids =>
    let condition := c.fill ids
    (.branch condition.1 (t.fill condition.2).1 none, (t.fill condition.2).2)
  | .loop (some i) c n b, ids =>
    let initializer := i.fill ids
    let condition := c.fill initializer.2
    let increment := Stmt.fillOption n condition.2
    (.loop (some initializer.1) condition.1 increment.1 (b.fill increment.2).1,
      (b.fill increment.2).2)
  | .loop none c n b, ids =>
    let condition := c.fill ids
    let increment := Stmt.fillOption n condition.2
    (.loop none condition.1 increment.1 (b.fill increment.2).1, (b.fill increment.2).2)
  | .declareFunction d, ids => (.declareFunction (d.fill ids).1, (d.fill ids).2)
  | .returnWith word e, ids =>
    (.returnWith word (Expr.fillOption e ids).1, (Expr.fillOption e ids).2)
  | .breakLoop word, ids => (.breakLoop word, ids)
  | .continueLoop word, ids => (.continueLoop word, ids)
  | .declareClass name none ds, ids =>
    (.declareClass name none (Declaration.fillAll ds ids).1, (Declaration.fillAll ds ids).2)
  | .declareClass name (some base) ds, ids =>
    let superclass := base.fill ids
    (.declareClass name (some superclass.1) (Declaration.fillAll ds superclass.2).1,
      (Declaration.fillAll ds superclass.2).2)

def Stmt.fillOption : Option Stmt → List ReferenceId → Option Stmt × List ReferenceId
  | none, ids => (none, ids)
  | some s, ids => (some (s.fill ids).1, (s.fill ids).2)

def Stmt.fillAll : List Stmt → List ReferenceId → List Stmt × List ReferenceId
  | [], ids => ([], ids)
  | s :: rest, ids =>
    let first := s.fill ids
    (first.1 :: (Stmt.fillAll rest first.2).1, (Stmt.fillAll rest first.2).2)

def Declaration.fill : Declaration → List ReferenceId → Declaration × List ReferenceId
  | .mk name names body, ids => (.mk name names (Stmt.fillAll body ids).1, (Stmt.fillAll body ids).2)

def Declaration.fillAll : List Declaration → List ReferenceId →
    List Declaration × List ReferenceId
  | [], ids => ([], ids)
  | d :: rest, ids =>
    let first := d.fill ids
    (first.1 :: (Declaration.fillAll rest first.2).1, (Declaration.fillAll rest first.2).2)
end

theorem Reference.fill_anonymous (r : Reference) (more : List ReferenceId) :
    r.anonymous.fill (r.id :: more) = (r, more) := rfl

mutual
theorem Expr.fill_anonymous : ∀ (e : Expr) (more : List ReferenceId),
    e.anonymous.fill (identities e.references ++ more) = (e, more)
  | .literal _, _ => rfl
  | .variable r, more | .this r, more | .super r _, more => by
    simp only [Expr.anonymous, Expr.references, identities_cons, identities_nil, List.cons_append,
      List.nil_append, Expr.fill, r.fill_anonymous]
  | .grouping e, more | .unary _ e, more | .get e _, more => by
    simp only [Expr.anonymous, Expr.references, Expr.fill, e.fill_anonymous]
  | .assign r e, more => by
    simp only [Expr.anonymous, Expr.references, identities_cons, List.cons_append, Expr.fill,
      r.fill_anonymous, e.fill_anonymous]
  | .binary l _ r, more | .logical l _ r, more | .set l _ r, more => by
    simp only [Expr.anonymous, Expr.references, identities_append, List.append_assoc, Expr.fill,
      l.fill_anonymous, r.fill_anonymous]
  | .conditional c (some t) e, more => by
    simp only [Expr.anonymous, Expr.references, identities_append, List.append_assoc, Expr.fill,
      c.fill_anonymous, t.fill_anonymous, e.fill_anonymous]
  | .conditional c none e, more => by
    simp only [Expr.anonymous, Expr.references, identities_append, List.append_assoc, Expr.fill,
      c.fill_anonymous, e.fill_anonymous]
  | .call f _ es, more => by
    simp only [Expr.anonymous, Expr.references, identities_append, List.append_assoc, Expr.fill,
      f.fill_anonymous, Expr.fillAll_anonymous es]

theorem Expr.fillAll_anonymous : ∀ (es : List Expr) (more : List ReferenceId),
    Expr.fillAll (Expr.allAnonymous es) (identities (Expr.listReferences es) ++ more) = (es, more)
  | [], _ => rfl
  | e :: rest, more => by
    simp only [Expr.allAnonymous, Expr.listReferences, identities_append, List.append_assoc,
      Expr.fillAll, e.fill_anonymous, Expr.fillAll_anonymous rest]
end

theorem Expr.fillOption_anonymous (e : Option Expr) (more : List ReferenceId) :
    Expr.fillOption (e.map Expr.anonymous) (identities (Expr.optionReferences e) ++ more) =
      (e, more) := by
  cases e with
  | none => rfl
  | some e => simp only [Option.map_some, Expr.optionReferences, Expr.fillOption, e.fill_anonymous]

mutual
theorem Stmt.fill_anonymous : ∀ (s : Stmt) (more : List ReferenceId),
    s.anonymous.fill (identities s.references ++ more) = (s, more)
  | .expression e, more | .print e, more => by
    simp only [Stmt.anonymous, Stmt.references, Stmt.fill, e.fill_anonymous]
  | .declareVar _ e, more | .returnWith _ e, more => by
    simp only [Stmt.anonymous, Stmt.references, Stmt.fill, Expr.fillOption_anonymous]
  | .block body, more => by
    simp only [Stmt.anonymous, Stmt.references, Stmt.fill, Stmt.fillAll_anonymous body]
  | .branch c t (some e), more => by
    simp only [Stmt.anonymous, Stmt.references, identities_append, List.append_assoc, Stmt.fill,
      c.fill_anonymous, t.fill_anonymous, e.fill_anonymous]
  | .branch c t none, more => by
    simp only [Stmt.anonymous, Stmt.references, identities_append, List.append_assoc, Stmt.fill,
      c.fill_anonymous, t.fill_anonymous]
  | .loop (some i) c n b, more => by
    simp only [Stmt.anonymous, Stmt.references, identities_append, List.append_assoc, Stmt.fill,
      i.fill_anonymous, c.fill_anonymous, Stmt.fillOption_anonymous n, b.fill_anonymous]
  | .loop none c n b, more => by
    simp only [Stmt.anonymous, Stmt.references, identities_append, List.append_assoc, Stmt.fill,
      c.fill_anonymous, Stmt.fillOption_anonymous n, b.fill_anonymous]
  | .declareFunction d, more => by
    simp only [Stmt.anonymous, Stmt.references, Stmt.fill, d.fill_anonymous]
  | .breakLoop _, _ | .continueLoop _, _ => rfl
  | .declareClass _ none ds, more => by
    simp only [Stmt.anonymous, Stmt.references, Option.map_none, Option.toList_none,
      List.nil_append, Stmt.fill, Declaration.fillAll_anonymous ds]
  | .declareClass _ (some base) ds, more => by
    simp only [Stmt.anonymous, Stmt.references, Option.map_some, Option.toList_some,
      identities_cons, List.cons_append, List.nil_append, Stmt.fill, base.fill_anonymous, Declaration.fillAll_anonymous ds]

theorem Stmt.fillOption_anonymous : ∀ (s : Option Stmt) (more : List ReferenceId),
    Stmt.fillOption (Stmt.optionAnonymous s) (identities (Stmt.optionReferences s) ++ more) = (s, more)
  | none, _ => rfl
  | some s, more => by
    simp only [Stmt.optionAnonymous, Stmt.optionReferences, Stmt.fillOption, s.fill_anonymous]

theorem Stmt.fillAll_anonymous : ∀ (body : List Stmt) (more : List ReferenceId),
    Stmt.fillAll (Stmt.allAnonymous body) (identities (Stmt.listReferences body) ++ more) =
      (body, more)
  | [], _ => rfl
  | s :: rest, more => by
    simp only [Stmt.allAnonymous, Stmt.listReferences, identities_append, List.append_assoc,
      Stmt.fillAll, s.fill_anonymous, Stmt.fillAll_anonymous rest]

theorem Declaration.fill_anonymous : ∀ (d : Declaration) (more : List ReferenceId),
    d.anonymous.fill (identities d.references ++ more) = (d, more)
  | .mk _ _ body, more => by
    simp only [Declaration.anonymous, Declaration.references, Declaration.fill,
      Stmt.fillAll_anonymous body]

theorem Declaration.fillAll_anonymous : ∀ (ds : List Declaration) (more : List ReferenceId),
    Declaration.fillAll (Declaration.allAnonymous ds)
      (identities (Declaration.listReferences ds) ++ more) = (ds, more)
  | [], _ => rfl
  | d :: rest, more => by
    simp only [Declaration.allAnonymous, Declaration.listReferences, identities_append,
      List.append_assoc, Declaration.fillAll, d.fill_anonymous, Declaration.fillAll_anonymous rest]
end

/-- The anonymous tree and the identities determine the tree. -/
theorem Stmt.eq_of_allAnonymous {P Q : List Stmt} (h : Stmt.allAnonymous P = Stmt.allAnonymous Q)
    (hids : identities (Stmt.listReferences P) = identities (Stmt.listReferences Q)) : P = Q := by
  have hP := Stmt.fillAll_anonymous P []
  have hQ := Stmt.fillAll_anonymous Q []
  rw [h, hids, hQ] at hP
  exact (congrArg Prod.fst hP).symm

def pairing (ids images : List ReferenceId) (id : ReferenceId) : ReferenceId :=
  images.getD (ids.idxOf id) 0

theorem map_pairing {ids images : List ReferenceId} (hnodup : ids.Nodup)
    (hlength : ids.length = images.length) : ids.map (pairing ids images) = images := by
  refine List.ext_getElem (by simpa using hlength) fun i hi hi' => ?_
  have hplace : ids.idxOf ids[i] = i := hnodup.idxOf_getElem i (by simpa using hi)
  simp [pairing, hplace, hi']

theorem pairing_inj {ids images : List ReferenceId} (hids : ids.Nodup) (himages : images.Nodup)
    (hlength : ids.length = images.length) {i j : ReferenceId} (hi : i ∈ ids) (hj : j ∈ ids)
    (h : pairing ids images i = pairing ids images j) : i = j := by
  have hmap : (ids.map (pairing ids images)).Nodup := (map_pairing hids hlength).symm ▸ himages
  exact List.inj_on_of_nodup_map hmap hi hj h

theorem Stmt.length_identities_le {P Q : List Stmt}
    (h : Stmt.allAnonymous P = Stmt.allAnonymous Q) (hP : (identities (Stmt.listReferences P)).Nodup) :
    (identities (Stmt.listReferences Q)).length ≤ (identities (Stmt.listReferences P)).length := by
  by_contra hmore
  -- The first identities of `Q` fill the anonymous tree up already, and the others are left over.
  let n := (identities (Stmt.listReferences P)).length
  let first := (identities (Stmt.listReferences Q)).take n
  let R := Stmt.relabelAll (.ofIdentities (pairing (identities (Stmt.listReferences P)) first)) P
  have hR : Stmt.allAnonymous R = Stmt.allAnonymous Q := (Stmt.allAnonymous_relabelAll _ P).trans h
  have hfirst : identities (Stmt.listReferences R) = first := by
    rw [Stmt.listReferences_relabelAll, identities_relabel]
    exact map_pairing hP (by simp [first]; omega)
  have hfill := Stmt.fillAll_anonymous R ((identities (Stmt.listReferences Q)).drop n)
  rw [hR, hfirst, List.take_append_drop] at hfill
  have hQ := Stmt.fillAll_anonymous Q []
  rw [List.append_nil, hfill] at hQ
  have hnone := congrArg (fun filled => filled.2.length) hQ
  simp only [List.length_drop, List.length_nil] at hnone
  omega

/-- Of two trees that differ in identities only, the second one is a relabeling of the first. -/
theorem Stmt.exists_relabel {P Q : List Stmt} (h : Stmt.allAnonymous P = Stmt.allAnonymous Q)
    (hP : (identities (Stmt.listReferences P)).Nodup) (hQ : (identities (Stmt.listReferences Q)).Nodup) :
    ∃ f : ReferenceId → ReferenceId, Stmt.relabelAll (.ofIdentities f) P = Q ∧
      ∀ i ∈ identities (Stmt.listReferences P), ∀ j ∈ identities (Stmt.listReferences P),
        f i = f j → i = j := by
  have hlength := Nat.le_antisymm (Stmt.length_identities_le h.symm hQ) (Stmt.length_identities_le h hP)
  refine ⟨pairing (identities (Stmt.listReferences P)) (identities (Stmt.listReferences Q)), ?_,
    fun i hi j hj hsame => pairing_inj hP hQ hlength hi hj hsame⟩
  refine Stmt.eq_of_allAnonymous ((Stmt.allAnonymous_relabelAll _ P).trans h) ?_
  rw [Stmt.listReferences_relabelAll, identities_relabel]
  exact map_pairing hP hlength

end LoxLang
