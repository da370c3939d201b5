import LoxLang.Proofs.Evaluation.Preservation

set_option autoImplicit false

namespace LoxLang

mutual
def Stmt.LoopFree : Stmt → Prop
  | .block body => Stmt.AllLoopFree body
  | .branch _ t (some e) => t.LoopFree ∧ e.LoopFree
  | .branch _ t none => t.LoopFree
  | .loop _ _ _ _ => False
  | .declareFunction d => d.LoopFree
  | .declareClass _ _ ds => Declaration.AllLoopFree ds
  | .expression _ | .print _ | .declareVar _ _ | .returnWith _ _ | .breakLoop _
  | .continueLoop _ => True

def Stmt.AllLoopFree : List Stmt → Prop
  | [] => True
  | s :: rest => s.LoopFree ∧ Stmt.AllLoopFree rest

def Declaration.LoopFree : Declaration → Prop
  | .mk _ _ body => Stmt.AllLoopFree body

def Declaration.AllLoopFree : List Declaration → Prop
  | [] => True
  | d :: rest => d.LoopFree ∧ Declaration.AllLoopFree rest
end

/-- Neither the program nor any function in it contains a loop. -/
def Program.LoopFree (P : Program) : Prop := Stmt.AllLoopFree P

mutual
def Expr.weight : Expr → Nat
  | .literal _ | .variable _ | .this _ | .super _ _ => 1
  | .grouping e | .unary _ e | .assign _ e | .get e _ => 1 + e.weight
  | .binary l _ r | .logical l _ r => 1 + l.weight + r.weight
  | .conditional c (some t) e => 1 + c.weight + t.weight + e.weight
  | .conditional c none e => 1 + c.weight + e.weight
  | .call f _ es => 1 + f.weight + Expr.weightAll es
  | .set o _ e => 1 + o.weight + e.weight

def Expr.weightAll : List Expr → Nat
  | [] => 1
  | e :: rest => 1 + e.weight + Expr.weightAll rest
end

def Expr.weightOption : Option Expr → Nat
  | none => 1
  | some e => 1 + e.weight

mutual
/-- A bound on the nesting of evaluation outside of calls. Functions count with their bodies. -/
def Stmt.weight : Stmt → Nat
  | .expression e | .print e => 1 + e.weight
  | .declareVar _ e | .returnWith _ e => 1 + Expr.weightOption e
  | .block body => 1 + Stmt.weightAll body
  | .branch c t (some e) => 1 + c.weight + t.weight + e.weight
  | .branch c t none => 1 + c.weight + t.weight
  | .loop (some i) c n b => 1 + i.weight + c.weight + Stmt.weightOption n + b.weight
  | .loop none c n b => 1 + c.weight + Stmt.weightOption n + b.weight
  | .declareFunction d => 1 + d.weight
  | .breakLoop _ | .continueLoop _ => 1
  | .declareClass _ _ ds => 1 + Declaration.weightAll ds

def Stmt.weightOption : Option Stmt → Nat
  | none => 1
  | some s => 1 + s.weight

def Stmt.weightAll : List Stmt → Nat
  | [] => 1
  | s :: rest => 1 + s.weight + Stmt.weightAll rest

def Declaration.weight : Declaration → Nat
  | .mk _ _ body => Stmt.weightAll body

def Declaration.weightAll : List Declaration → Nat
  | [] => 1
  | d :: rest => 1 + d.weight + Declaration.weightAll rest
end

def Declaration.Bounded (bound : Nat) (d : Declaration) (_ : Bool) : Prop :=
  d.LoopFree ∧ d.weight ≤ bound

theorem Declaration.allLoopFree_body (d : Declaration) (h : d.LoopFree) :
    Stmt.AllLoopFree d.body := by
  cases d
  exact h

theorem Declaration.weightAll_body (d : Declaration) : d.weight = Stmt.weightAll d.body := by
  cases d
  rfl

theorem Declaration.bounded_of_mem {bound : Nat} {d : Declaration} {ds : List Declaration}
    (h : Declaration.AllLoopFree ds) (hw : Declaration.weightAll ds ≤ bound) (hd : d ∈ ds) :
    d.LoopFree ∧ d.weight ≤ bound := by
  induction ds with
  | nil => simp at hd
  | cons e rest ih =>
    obtain ⟨he, hrest⟩ := h
    simp only [Declaration.weightAll] at hw
    rcases List.mem_cons.mp hd with rfl | hd
    · exact ⟨he, by omega⟩
    · exact ih hrest (by omega) hd

mutual
theorem Stmt.declared_bounded {bound : Nat} : ∀ s : Stmt, s.LoopFree → s.weight ≤ bound →
    AllSatisfy (Declaration.Bounded bound) s.declared
  | .block body, h, hw => Stmt.allDeclared_bounded body h (by simp only [Stmt.weight] at hw; omega)
  | .branch c t (some e), h, hw => by
    simp only [Stmt.weight] at hw
    have ht : AllSatisfy (Declaration.Bounded bound) t.declared :=
      Stmt.declared_bounded t h.1 (by omega)
    have he : AllSatisfy (Declaration.Bounded bound) e.declared :=
      Stmt.declared_bounded e h.2 (by omega)
    exact ht.append he
  | .branch c t none, h, hw => Stmt.declared_bounded t h (by simp only [Stmt.weight] at hw; omega)
  | .loop _ _ _ _, h, _ => h.elim
  | .declareFunction d, h, hw => by
    simp only [Stmt.weight] at hw
    intro e i he
    simp only [Stmt.declared, List.mem_singleton, Prod.mk.injEq] at he
    obtain ⟨rfl, rfl⟩ := he
    exact ⟨h, by omega⟩
  | .declareClass _ _ ds, h, hw => by
    simp only [Stmt.weight] at hw
    intro e i he
    simp only [Stmt.declared, List.mem_map, Prod.mk.injEq] at he
    obtain ⟨d, hd, rfl, -⟩ := he
    exact Declaration.bounded_of_mem h (by omega) hd
  | .expression _, _, _ | .print _, _, _ | .declareVar _ _, _, _ | .returnWith _ _, _, _
  | .breakLoop _, _, _ | .continueLoop _, _, _ => fun d i hd => by simp [Stmt.declared] at hd

theorem Stmt.allDeclared_bounded {bound : Nat} : ∀ body : List Stmt, Stmt.AllLoopFree body →
    Stmt.weightAll body ≤ bound → AllSatisfy (Declaration.Bounded bound) (Stmt.allDeclared body)
  | [], _, _ => fun d i hd => by simp [Stmt.allDeclared] at hd
  | s :: rest, h, hw => by
    simp only [Stmt.weightAll] at hw
    have hs : AllSatisfy (Declaration.Bounded bound) s.declared :=
      Stmt.declared_bounded s h.1 (by omega)
    have hrest : AllSatisfy (Declaration.Bounded bound) (Stmt.allDeclared rest) :=
      Stmt.allDeclared_bounded rest h.2 (by omega)
    exact hs.append hrest
end

theorem Declaration.hereditary_bounded (bound : Nat) :
    Hereditary (Declaration.Bounded bound) := by
  rintro ⟨name, parameters, body⟩ i ⟨hfree, hweight⟩
  exact Stmt.allDeclared_bounded body hfree hweight

theorem Declaration.Bounded.mono {bound more : Nat} (h : bound ≤ more) {d : Declaration} {i : Bool}
    (hd : d.Bounded bound i) : d.Bounded more i :=
  ⟨hd.1, Nat.le_trans hd.2 h⟩

end LoxLang
