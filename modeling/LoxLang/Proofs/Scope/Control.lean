import LoxLang.Proofs.Evaluation.Preservation
import LoxLang.Proofs.Scope.Reports
import LoxLang.Proofs.Syntax.Proper

set_option autoImplicit false

namespace LoxLang

open Resolution

mutual
/-- `return` stands in functions only, and in initializers without a value; `break` and `continue`
stand in loops of the same function only. -/
def Stmt.Controlled (kind : EnclosingFunction) (inLoop : Bool) : Stmt → Prop
  | .expression _ | .print _ | .declareVar _ _ => True
  | .block body => Stmt.AllControlled kind inLoop body
  | .branch _ t (some e) => t.Controlled kind inLoop ∧ e.Controlled kind inLoop
  | .branch _ t none => t.Controlled kind inLoop
  | .loop (some i) _ n b =>
    i.Controlled kind inLoop ∧ Stmt.OptionControlled kind inLoop n ∧ b.Controlled kind true
  | .loop none _ n b => Stmt.OptionControlled kind inLoop n ∧ b.Controlled kind true
  | .declareFunction d => d.Controlled .function
  | .returnWith _ value => kind ≠ .outside ∧ (kind = .initializer → value = none)
  | .breakLoop _ | .continueLoop _ => inLoop = true
  | .declareClass _ _ ds => Declaration.AllControlled ds

def Stmt.OptionControlled (kind : EnclosingFunction) (inLoop : Bool) : Option Stmt → Prop
  | none => True
  | some s => s.Controlled kind inLoop

def Stmt.AllControlled (kind : EnclosingFunction) (inLoop : Bool) : List Stmt → Prop
  | [] => True
  | s :: rest => s.Controlled kind inLoop ∧ Stmt.AllControlled kind inLoop rest

def Declaration.Controlled (kind : EnclosingFunction) : Declaration → Prop
  | .mk _ _ body => Stmt.AllControlled kind false body

def Declaration.AllControlled : List Declaration → Prop
  | [] => True
  | d :: rest => d.Controlled d.methodContext ∧ Declaration.AllControlled rest
end

theorem Stmt.controlled_of_isExpression {kind : EnclosingFunction} {inLoop : Bool} {s : Stmt}
    (h : s.isExpression = true) : s.Controlled kind inLoop := by
  cases s with
  | expression => simp [Stmt.Controlled]
  | _ => cases h

theorem Stmt.AllControlled.of_mem {kind : EnclosingFunction} {inLoop : Bool} {body : List Stmt}
    {s : Stmt} (h : Stmt.AllControlled kind inLoop body) (hs : s ∈ body) :
    s.Controlled kind inLoop := by
  induction body with
  | nil => simp at hs
  | cons t rest ih =>
    rcases List.mem_cons.mp hs with rfl | hs
    · exact h.1
    · exact ih h.2 hs

mutual
theorem Stmt.controlled_of_resolve (around : Surroundings) : ∀ (s : Stmt) (r : Resolution),
    (s.resolve around r).Clean → r.Clean ∧ s.Controlled around.function around.inLoop
  | .expression e, r, h | .print e, r, h => by
    simp only [Stmt.resolve] at h
    exact ⟨e.clean_of_resolve around none r h, by simp [Stmt.Controlled]⟩
  | .declareVar name none, r, h => by
    simp only [Stmt.resolve, clean_define] at h
    exact ⟨h.of_declare, by simp [Stmt.Controlled]⟩
  | .declareVar name (some e), r, h => by
    simp only [Stmt.resolve, clean_define] at h
    exact ⟨(e.clean_of_resolve around _ _ h).of_declare, by simp [Stmt.Controlled]⟩
  | .block body, r, h => by
    simp only [Stmt.resolve, clean_closeScope] at h
    exact Stmt.controlled_of_resolveList around body r.openScope h
  | .branch c t (some e), r, h => by
    simp only [Stmt.resolve] at h
    obtain ⟨h, he⟩ := Stmt.controlled_of_resolve around e _ h
    obtain ⟨h, ht⟩ := Stmt.controlled_of_resolve around t _ h
    exact ⟨c.clean_of_resolve around none r h, ht, he⟩
  | .branch c t none, r, h => by
    simp only [Stmt.resolve] at h
    obtain ⟨h, ht⟩ := Stmt.controlled_of_resolve around t _ h
    exact ⟨c.clean_of_resolve around none r h, ht⟩
  | .loop (some i) c n b, r, h => by
    simp only [Stmt.resolve, clean_closeScope] at h
    obtain ⟨h, hn⟩ := Stmt.controlled_of_resolveOption around n _ h
    obtain ⟨h, hb⟩ := Stmt.controlled_of_resolve { around with inLoop := true } b _ h
    have h := c.clean_of_resolve around none _ h
    obtain ⟨h, hi⟩ := Stmt.controlled_of_resolve around i _ h
    exact ⟨h, hi, hn, hb⟩
  | .loop none c n b, r, h => by
    simp only [Stmt.resolve] at h
    obtain ⟨h, hn⟩ := Stmt.controlled_of_resolveOption around n _ h
    obtain ⟨h, hb⟩ := Stmt.controlled_of_resolve { around with inLoop := true } b _ h
    exact ⟨c.clean_of_resolve around none r h, hn, hb⟩
  | .declareFunction d, r, h => by
    simp only [Stmt.resolve] at h
    obtain ⟨h, hd⟩ := Declaration.controlled_of_resolve around .function d _ h
    exact ⟨(clean_define.mp h).of_declare, hd⟩
  | .returnWith word value, r, h => by
    simp only [Stmt.resolve] at h
    have h := Expr.clean_of_resolveOption h
    simp only [clean_reportIf] at h
    obtain ⟨hvalue, houtside, h⟩ := h
    refine ⟨h, by simpa using houtside, fun hinit => ?_⟩
    simpa [hinit] using hvalue
  | .breakLoop word, r, h | .continueLoop word, r, h => by
    simp only [Stmt.resolve, clean_reportIf] at h
    exact ⟨h.2, by simpa [Stmt.Controlled] using h.1⟩
  | .declareClass name none ds, r, h => by
    simp only [Stmt.resolve, clean_closeScope] at h
    obtain ⟨h, hds⟩ := Declaration.controlled_of_resolveMethods _ ds _ h
    simp only [clean_defineName, clean_openScope, clean_define] at h
    exact ⟨h.of_declare, hds⟩
  | .declareClass name (some base) ds, r, h => by
    simp only [Stmt.resolve, clean_closeScope] at h
    obtain ⟨h, hds⟩ := Declaration.controlled_of_resolveMethods _ ds _ h
    simp only [clean_defineName, clean_openScope, clean_record, clean_reportIf, clean_define] at h
    exact ⟨h.2.of_declare, hds⟩

theorem Stmt.controlled_of_resolveOption (around : Surroundings) :
    ∀ (s : Option Stmt) (r : Resolution), (Stmt.resolveOption around s r).Clean →
      r.Clean ∧ Stmt.OptionControlled around.function around.inLoop s
  | none, r, h => ⟨by simpa [Stmt.resolveOption] using h, by simp [Stmt.OptionControlled]⟩
  | some s, r, h => by
    rw [Stmt.resolveOption] at h
    exact Stmt.controlled_of_resolve around s r h

theorem Stmt.controlled_of_resolveList (around : Surroundings) :
    ∀ (body : List Stmt) (r : Resolution), (Stmt.resolveList around body r).Clean →
      r.Clean ∧ Stmt.AllControlled around.function around.inLoop body
  | [], r, h => ⟨by simpa [Stmt.resolveList] using h, by simp [Stmt.AllControlled]⟩
  | s :: rest, r, h => by
    simp only [Stmt.resolveList] at h
    obtain ⟨h, hrest⟩ := Stmt.controlled_of_resolveList around rest _ h
    obtain ⟨h, hs⟩ := Stmt.controlled_of_resolve around s r h
    exact ⟨h, hs, hrest⟩

theorem Declaration.controlled_of_resolve (around : Surroundings) (kind : EnclosingFunction) :
    ∀ (d : Declaration) (r : Resolution), (d.resolve around kind r).Clean →
      r.Clean ∧ d.Controlled kind
  | .mk name parameters body, r, h => by
    simp only [Declaration.resolve, clean_closeScope] at h
    obtain ⟨h, hbody⟩ := Stmt.controlled_of_resolveList
      { around with function := kind, inLoop := false } body _ h
    exact ⟨h.of_declareParameters, hbody⟩

theorem Declaration.controlled_of_resolveMethods (around : Surroundings) :
    ∀ (ds : List Declaration) (r : Resolution), (Declaration.resolveMethods around ds r).Clean →
      r.Clean ∧ Declaration.AllControlled ds
  | [], r, h => ⟨by simpa [Declaration.resolveMethods] using h, by simp [Declaration.AllControlled]⟩
  | d :: rest, r, h => by
    simp only [Declaration.resolveMethods] at h
    obtain ⟨h, hrest⟩ := Declaration.controlled_of_resolveMethods around rest _ h
    obtain ⟨h, hd⟩ := Declaration.controlled_of_resolve around d.methodContext d r h
    exact ⟨h, hd, hrest⟩
end

def Declaration.Lawful (d : Declaration) (initializes : Bool) : Prop :=
  d.Proper ∧ ∃ kind, kind ≠ .outside ∧ (initializes = true → kind = .initializer) ∧
    d.Controlled kind

theorem Declaration.lawful_of_mem {d : Declaration} {ds : List Declaration}
    (hproper : Declaration.AllProper ds) (hcontrolled : Declaration.AllControlled ds) (hd : d ∈ ds) :
    d.Lawful (decide (d.name.lexeme = initializerName)) := by
  induction ds with
  | nil => simp at hd
  | cons e rest ih =>
    rcases List.mem_cons.mp hd with rfl | hd
    · refine ⟨hproper.1, d.methodContext, ?_, ?_, hcontrolled.1⟩
      · unfold methodContext
        split <;> simp
      · intro hinit
        simpa [methodContext] using hinit
    · exact ih hproper.2 hcontrolled.2 hd

theorem Stmt.optionDeclared_of_isExpression {n : Option Stmt} (h : n.all Stmt.isExpression = true) :
    Stmt.optionDeclared n = [] := by
  obtain ⟨n, rfl⟩ := Stmt.exists_increment h
  cases n <;> simp [Stmt.optionDeclared, Stmt.declared]

mutual
theorem Stmt.declared_lawful {kind : EnclosingFunction} {inLoop : Bool} : ∀ s : Stmt, s.Proper →
    s.Controlled kind inLoop → AllSatisfy Declaration.Lawful s.declared
  | .block body, hp, hc => Stmt.allDeclared_lawful body hp hc
  | .branch _ t (some e), hp, hc => by
    have ht : AllSatisfy Declaration.Lawful t.declared := Stmt.declared_lawful t hp.1.1 hc.1
    have he : AllSatisfy Declaration.Lawful e.declared := Stmt.declared_lawful e hp.2.1 hc.2
    exact ht.append he
  | .branch _ t none, hp, hc => Stmt.declared_lawful t hp.1 hc
  | .loop (some i) _ n b, hp, hc => by
    have hi : AllSatisfy Declaration.Lawful i.declared := Stmt.declared_lawful i hp.1.1 hc.1
    have hb : AllSatisfy Declaration.Lawful b.declared := Stmt.declared_lawful b hp.2.2.1 hc.2.2
    rw [Stmt.declared, Stmt.optionDeclared_of_isExpression hp.2.1]
    exact hi.append hb
  | .loop none _ n b, hp, hc => by
    rw [Stmt.declared, Stmt.optionDeclared_of_isExpression hp.1]
    exact Stmt.declared_lawful b hp.2.1 hc.2
  | .declareFunction d, hp, hc => by
    intro e i he
    simp only [Stmt.declared, List.mem_singleton, Prod.mk.injEq] at he
    obtain ⟨rfl, rfl⟩ := he
    exact ⟨hp, .function, by simp, by simp, hc⟩
  | .declareClass _ _ ds, hp, hc => by
    intro e i he
    simp only [Stmt.declared, List.mem_map, Prod.mk.injEq] at he
    obtain ⟨d, hd, rfl, rfl⟩ := he
    exact Declaration.lawful_of_mem hp.2 hc hd
  | .expression _, _, _ | .print _, _, _ | .declareVar _ _, _, _ | .returnWith _ _, _, _
  | .breakLoop _, _, _ | .continueLoop _, _, _ => fun d i hd => by simp [Stmt.declared] at hd

theorem Stmt.allDeclared_lawful {kind : EnclosingFunction} {inLoop : Bool} : ∀ body : List Stmt,
    Stmt.AllProper body → Stmt.AllControlled kind inLoop body →
      AllSatisfy Declaration.Lawful (Stmt.allDeclared body)
  | [], _, _ => fun d i hd => by simp [Stmt.allDeclared] at hd
  | s :: rest, hp, hc => by
    have hs : AllSatisfy Declaration.Lawful s.declared := Stmt.declared_lawful s hp.1 hc.1
    have hrest : AllSatisfy Declaration.Lawful (Stmt.allDeclared rest) :=
      Stmt.allDeclared_lawful rest hp.2 hc.2
    exact hs.append hrest
end

theorem Declaration.Lawful.body {d : Declaration} {initializes : Bool} (h : d.Lawful initializes) :
    Stmt.AllProper d.body ∧ ∃ kind, kind ≠ .outside ∧ (initializes = true → kind = .initializer) ∧
      Stmt.AllControlled kind false d.body := by
  obtain ⟨name, parameters, body⟩ := d
  obtain ⟨hp, kind, houtside, hinit, hc⟩ := h
  exact ⟨hp.2.2, kind, houtside, hinit, hc⟩

theorem Declaration.hereditary_lawful : Hereditary Declaration.Lawful := by
  intro d i h
  obtain ⟨hp, kind, -, -, hc⟩ := h.body
  exact Stmt.allDeclared_lawful d.body hp hc

end LoxLang
