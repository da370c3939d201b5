import LoxLang.Proofs.Syntax.Bracing

set_option autoImplicit false

namespace LoxLang

mutual
/-- Whether a `continue` in the statement belongs to a loop around it. -/
def Stmt.continues : Stmt → Bool
  | .continueLoop _ => true
  | .block body => Stmt.anyContinues body
  | .branch _ t (some e) => t.continues || e.continues
  | .branch _ t none => t.continues
  | _ => false

def Stmt.anyContinues : List Stmt → Bool
  | [] => false
  | s :: rest => s.continues || Stmt.anyContinues rest
end

def Stmt.withIncrement (b : Stmt) (n : Option Expr) : List Stmt := b :: (n.map Stmt.expression).toList

/-- A loop without clauses of its own, in a block. -/
def Stmt.textbook (i : Option Stmt) (c : Expr) (n : Option Expr) (b : Stmt) : Stmt :=
  .block (i.toList ++ [.loop none c none (.block (b.withIncrement n))])

mutual
/-- The second statement is the first one with more braces, perhaps around the statement itself, and with
loops in textbook form if these may be changed. -/
inductive Stmt.Rewritten (loops : Bool) : Stmt → Stmt → Prop
  | bare {s s' : Stmt} : Stmt.RewrittenWithin loops s s' → Stmt.Rewritten loops s s'
  | braces {s s' : Stmt} : s.declares = false → Stmt.RewrittenWithin loops s s' →
    Stmt.Rewritten loops s (.block [s'])

inductive Stmt.RewrittenWithin (loops : Bool) : Stmt → Stmt → Prop
  | simple {s : Stmt} : s.isSimple = true → Stmt.RewrittenWithin loops s s
  | block {body body' : List Stmt} : Stmt.AllRewritten loops body body' →
    Stmt.RewrittenWithin loops (.block body) (.block body')
  | ifAlone {c : Expr} {t t' : Stmt} : Stmt.Rewritten loops t t' →
    Stmt.RewrittenWithin loops (.branch c t none) (.branch c t' none)
  | ifElse {c : Expr} {t t' e e' : Stmt} : Stmt.Rewritten loops t t' → Stmt.Rewritten loops e e' →
    Stmt.RewrittenWithin loops (.branch c t (some e)) (.branch c t' (some e'))
  | loop {i : Option Stmt} {c : Expr} {n : Option Stmt} {b b' : Stmt} : Stmt.Rewritten loops b b' →
    Stmt.RewrittenWithin loops (.loop i c n b) (.loop i c n b')
  | textbook {i : Option Stmt} {c : Expr} {n : Option Expr} {b b' : Stmt} : loops = true →
    b.continues = false → Stmt.Rewritten loops b b' →
    Stmt.RewrittenWithin loops (.loop i c (n.map .expression) b) (Stmt.textbook i c n b')
  | function {d d' : Declaration} : Declaration.Rewritten loops d d' →
    Stmt.RewrittenWithin loops (.declareFunction d) (.declareFunction d')
  | classBody {name : Token} {base : Option Reference} {ds ds' : List Declaration} :
    Declaration.AllRewritten loops ds ds' →
    Stmt.RewrittenWithin loops (.declareClass name base ds) (.declareClass name base ds')

inductive Stmt.AllRewritten (loops : Bool) : List Stmt → List Stmt → Prop
  | nil : Stmt.AllRewritten loops [] []
  | cons {s s' : Stmt} {rest rest' : List Stmt} : Stmt.Rewritten loops s s' →
    Stmt.AllRewritten loops rest rest' → Stmt.AllRewritten loops (s :: rest) (s' :: rest')

inductive Declaration.Rewritten (loops : Bool) : Declaration → Declaration → Prop
  | mk {name : Token} {parameters : List Token} {body body' : List Stmt} :
    Stmt.AllRewritten loops body body' →
    Declaration.Rewritten loops (.mk name parameters body) (.mk name parameters body')

inductive Declaration.AllRewritten (loops : Bool) : List Declaration → List Declaration → Prop
  | nil : Declaration.AllRewritten loops [] []
  | cons {d d' : Declaration} {rest rest' : List Declaration} : Declaration.Rewritten loops d d' →
    Declaration.AllRewritten loops rest rest' →
    Declaration.AllRewritten loops (d :: rest) (d' :: rest')
end

variable {loops : Bool}

mutual
theorem Stmt.Braced.rewritten : ∀ {s s' : Stmt}, s.Braced s' → s.Rewritten loops s'
  | _, _, .bare h => .bare h.rewritten
  | _, _, .braces hs h => .braces hs h.rewritten

theorem Stmt.BracedWithin.rewritten : ∀ {s s' : Stmt}, s.BracedWithin s' → s.RewrittenWithin loops s'
  | _, _, .simple hs => .simple hs
  | _, _, .block h => .block h.rewritten
  | _, _, .ifAlone h => .ifAlone h.rewritten
  | _, _, .ifElse ht he => .ifElse ht.rewritten he.rewritten
  | _, _, .loop h => .loop h.rewritten
  | _, _, .function h => .function h.rewritten
  | _, _, .classBody h => .classBody h.rewritten

theorem Stmt.AllBraced.rewritten : ∀ {body body' : List Stmt}, Stmt.AllBraced body body' →
    Stmt.AllRewritten loops body body'
  | _, _, .nil => .nil
  | _, _, .cons h hrest => .cons h.rewritten hrest.rewritten

theorem Declaration.Braced.rewritten : ∀ {d d' : Declaration}, d.Braced d' → d.Rewritten loops d'
  | _, _, .mk h => .mk h.rewritten

theorem Declaration.AllBraced.rewritten : ∀ {ds ds' : List Declaration}, Declaration.AllBraced ds ds' →
    Declaration.AllRewritten loops ds ds'
  | _, _, .nil => .nil
  | _, _, .cons h hrest => .cons h.rewritten hrest.rewritten
end

theorem Stmt.rewritten_textbook {i : Option Stmt} {c : Expr} {n : Option Expr} {b : Stmt}
    (hb : b.continues = false) :
    (Stmt.loop i c (n.map .expression) b).Rewritten true (Stmt.textbook i c n b) :=
  .bare (.textbook rfl hb (.bare (Stmt.bracedWithin_refl b).rewritten))

theorem Stmt.RewrittenWithin.declares {s s' : Stmt} (h : s.RewrittenWithin loops s') :
    s'.declares = s.declares := by
  cases h <;> rfl

theorem Stmt.Rewritten.declares {s s' : Stmt} (h : s.Rewritten loops s') : s'.declares = s.declares := by
  cases h with
  | bare h => exact h.declares
  | braces hs h => exact hs.symm

/-- The references of a loop in textbook form, in the order in which they stand there. -/
theorem Stmt.references_textbook (i : Option Stmt) (c : Expr) (n : Option Expr) (b : Stmt) :
    (Stmt.textbook i c n b).references =
      Stmt.listReferences i.toList ++ (c.references ++ (b.references ++ Expr.optionReferences n)) := by
  cases i <;> cases n <;>
    simp [textbook, withIncrement, Stmt.references, Stmt.listReferences, Expr.optionReferences]

mutual
theorem Stmt.Rewritten.references : ∀ {s s' : Stmt}, s.Rewritten loops s' →
    s'.references.Perm s.references
  | _, _, .bare h => h.references
  | _, _, .braces _ h => by simpa [Stmt.references, Stmt.listReferences] using h.references

theorem Stmt.RewrittenWithin.references : ∀ {s s' : Stmt}, s.RewrittenWithin loops s' →
    s'.references.Perm s.references
  | _, _, .simple _ => .refl _
  | _, _, .block h => by simpa only [Stmt.references] using h.references
  | _, _, .ifAlone h => by
    simp only [Stmt.references]
    exact h.references.append_left _
  | _, _, .ifElse ht he => by
    simp only [Stmt.references]
    exact (ht.references.append_left _).append he.references
  | _, _, @Stmt.RewrittenWithin.loop _ i _ _ _ _ h => by
    cases i <;> simp only [Stmt.references] <;> exact h.references.append_left _
  | _, _, @Stmt.RewrittenWithin.textbook _ i c n b b' _ _ h => by
    have hlast : (b'.references ++ Expr.optionReferences n).Perm
        (Expr.optionReferences n ++ b.references) :=
      (h.references.append_right _).trans List.perm_append_comm
    rw [Stmt.references_textbook]
    cases i <;> simp only [Stmt.references, Stmt.optionReferences_map, Stmt.listReferences, Option.toList,
      List.append_assoc, List.nil_append, List.append_nil]
    · exact hlast.append_left _
    · exact (hlast.append_left _).append_left _
  | _, _, .function h => by simpa only [Stmt.references] using h.references
  | _, _, .classBody h => by
    simp only [Stmt.references]
    exact h.references.append_left _

theorem Stmt.AllRewritten.references : ∀ {body body' : List Stmt}, Stmt.AllRewritten loops body body' →
    (Stmt.listReferences body').Perm (Stmt.listReferences body)
  | _, _, .nil => .refl _
  | _, _, .cons h hrest => by
    simp only [Stmt.listReferences]
    exact h.references.append hrest.references

theorem Declaration.Rewritten.references : ∀ {d d' : Declaration}, d.Rewritten loops d' →
    d'.references.Perm d.references
  | _, _, .mk h => by simpa only [Declaration.references] using h.references

theorem Declaration.AllRewritten.references : ∀ {ds ds' : List Declaration},
    Declaration.AllRewritten loops ds ds' →
    (Declaration.listReferences ds').Perm (Declaration.listReferences ds)
  | _, _, .nil => .refl _
  | _, _, .cons h hrest => by
    simp only [Declaration.listReferences]
    exact h.references.append hrest.references
end

theorem Stmt.proper_textbook {i : Option Stmt} {c : Expr} {n : Option Expr} {b b' : Stmt}
    (hs : (Stmt.loop i c (n.map .expression) b).Proper) (hb : b'.Proper) :
    (Stmt.textbook i c n b').Proper := by
  have hbody : Stmt.AllProper (b'.withIncrement n) := by
    cases n with
    | none => exact ⟨hb, trivial⟩
    | some n => exact ⟨hb, trivial, trivial⟩
  cases i with
  | none => exact ⟨⟨rfl, hbody, rfl⟩, trivial⟩
  | some i => exact ⟨hs.1.1, ⟨rfl, hbody, rfl⟩, trivial⟩

mutual
theorem Stmt.Rewritten.proper : ∀ {s s' : Stmt}, s.Rewritten loops s' → s.Proper → s'.Proper
  | _, _, .bare h, hs => h.proper hs
  | _, _, .braces _ h, hs => ⟨h.proper hs, trivial⟩

theorem Stmt.RewrittenWithin.proper : ∀ {s s' : Stmt}, s.RewrittenWithin loops s' → s.Proper → s'.Proper
  | _, _, .simple _, hs => hs
  | _, _, .block h, hs => h.proper hs
  | _, _, .ifAlone h, hs => ⟨h.proper hs.1, h.declares.trans hs.2⟩
  | _, _, .ifElse ht he, hs =>
    ⟨⟨ht.proper hs.1.1, ht.declares.trans hs.1.2⟩, he.proper hs.2.1, he.declares.trans hs.2.2⟩
  | _, _, @Stmt.RewrittenWithin.loop _ none _ _ _ _ h, hs =>
    ⟨hs.1, h.proper hs.2.1, h.declares.trans hs.2.2⟩
  | _, _, @Stmt.RewrittenWithin.loop _ (some _) _ _ _ _ h, hs =>
    ⟨hs.1, hs.2.1, h.proper hs.2.2.1, h.declares.trans hs.2.2.2⟩
  | _, _, @Stmt.RewrittenWithin.textbook _ none _ _ _ _ _ _ h, hs =>
    Stmt.proper_textbook hs (h.proper hs.2.1)
  | _, _, @Stmt.RewrittenWithin.textbook _ (some _) _ _ _ _ _ _ h, hs =>
    Stmt.proper_textbook hs (h.proper hs.2.2.1)
  | _, _, .function h, hs => h.proper hs
  | _, _, .classBody h, hs => ⟨hs.1, h.proper hs.2⟩

theorem Stmt.AllRewritten.proper : ∀ {body body' : List Stmt}, Stmt.AllRewritten loops body body' →
    Stmt.AllProper body → Stmt.AllProper body'
  | _, _, .nil, hbody => hbody
  | _, _, .cons h hrest, hbody => ⟨h.proper hbody.1, hrest.proper hbody.2⟩

theorem Declaration.Rewritten.proper : ∀ {d d' : Declaration}, d.Rewritten loops d' → d.Proper → d'.Proper
  | _, _, .mk h, hd => ⟨hd.1, hd.2.1, h.proper hd.2.2⟩

theorem Declaration.AllRewritten.proper : ∀ {ds ds' : List Declaration},
    Declaration.AllRewritten loops ds ds' → Declaration.AllProper ds → Declaration.AllProper ds'
  | _, _, .nil, hds => hds
  | _, _, .cons h hrest, hds => ⟨h.proper hds.1, hrest.proper hds.2⟩
end

end LoxLang
