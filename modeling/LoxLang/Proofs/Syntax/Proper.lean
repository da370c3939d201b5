import LoxLang.Proofs.Syntax.Grammar
import LoxLang.Proofs.Token.Genuine

set_option autoImplicit false

namespace LoxLang

structure Token.Ordinary (t : Token) : Prop where
  not_this : t.lexeme ≠ "this"
  not_super : t.lexeme ≠ "super"

/-- A reference is spelled as its kind asks. -/
def ReferenceKind.Spells : ReferenceKind → Token → Prop
  | .assign, t => t.Ordinary
  | .this, t => t.lexeme = "this"
  | .super, t => t.lexeme = "super"
  | .variable, _ | .superclass, _ => True

def Spelled (refs : List (ReferenceKind × Reference)) : Prop :=
  ∀ r ∈ refs, r.1.Spells r.2.name

@[simp] theorem spelled_nil : Spelled [] := by simp [Spelled]

@[simp] theorem spelled_cons (r : ReferenceKind × Reference)
    (refs : List (ReferenceKind × Reference)) :
    Spelled (r :: refs) ↔ r.1.Spells r.2.name ∧ Spelled refs := by
  simp [Spelled]

@[simp] theorem spelled_append (a b : List (ReferenceKind × Reference)) :
    Spelled (a ++ b) ↔ Spelled a ∧ Spelled b := by
  simp only [Spelled, List.mem_append]
  constructor
  · exact fun h => ⟨fun r hr => h r (.inl hr), fun r hr => h r (.inr hr)⟩
  · rintro ⟨ha, hb⟩ r (hr | hr)
    · exact ha r hr
    · exact hb r hr

theorem Token.Genuine.ordinary {t : Token} (h : t.Genuine) (hk : t.kind = .identifier) :
    t.Ordinary :=
  ⟨h.identifier hk .thisWord, h.identifier hk .superWord⟩

def Stmt.declares : Stmt → Bool
  | .declareVar _ _ | .declareFunction _ | .declareClass _ _ _ => true
  | _ => false

def Stmt.isExpression : Stmt → Bool
  | .expression _ => true
  | _ => false

def Stmt.isClause : Stmt → Bool
  | .declareVar _ _ | .expression _ => true
  | _ => false

mutual
/-- Ordinary names are declared, and only where declarations may stand. -/
def Stmt.Proper : Stmt → Prop
  | .expression _ | .print _ | .returnWith _ _ | .breakLoop _ | .continueLoop _ => True
  | .declareVar name _ => name.Ordinary
  | .block body => Stmt.AllProper body
  | .branch _ t (some e) =>
    (t.Proper ∧ t.declares = false) ∧ (e.Proper ∧ e.declares = false)
  | .branch _ t none => t.Proper ∧ t.declares = false
  | .loop (some i) _ n b =>
    (i.Proper ∧ i.isClause = true) ∧ n.all Stmt.isExpression = true ∧ (b.Proper ∧ b.declares = false)
  | .loop none _ n b => n.all Stmt.isExpression = true ∧ (b.Proper ∧ b.declares = false)
  | .declareFunction d => d.Proper
  | .declareClass name _ ds => name.Ordinary ∧ Declaration.AllProper ds

def Stmt.AllProper : List Stmt → Prop
  | [] => True
  | s :: rest => s.Proper ∧ Stmt.AllProper rest

def Declaration.Proper : Declaration → Prop
  | .mk name parameters body =>
    name.Ordinary ∧ (∀ p ∈ parameters, p.Ordinary) ∧ Stmt.AllProper body

def Declaration.AllProper : List Declaration → Prop
  | [] => True
  | d :: rest => d.Proper ∧ Declaration.AllProper rest
end

def Phrase.Proper : Phrase → Prop
  | .declarations body | .block body => Stmt.AllProper body
  | .declaration s => s.Proper
  | .statement s => s.Proper ∧ s.declares = false
  | .expressionStatement s => (s.Proper ∧ s.isClause = true) ∧ s.declares = false
  | .variable s | .initializer (some s) => s.Proper ∧ s.isClause = true
  | .methods ds => Declaration.AllProper ds
  | .function d => d.Proper
  | .parameterList names | .parameters names => ∀ p ∈ names, p.Ordinary
  | _ => True

theorem Derives.spelled {ph : Phrase} {w : List Token} (h : Derives ph w)
    (hw : ∀ t ∈ w, t.Genuine) : Spelled ph.references := by
  induction h with
  | assignVariable hname _ _ ih =>
    simp only [List.mem_cons, or_imp, forall_and, forall_eq] at hw
    simp only [Phrase.references, Expr.references, spelled_cons]
    exact ⟨hw.1.ordinary hname, ih hw.2.2⟩
  | @receiver t id ht =>
    simp only [List.mem_singleton, forall_eq] at hw
    have hthis : t.lexeme = "this" := hw.keyword _ ht
    simpa [Phrase.references, Expr.references, ReferenceKind.Spells] using hthis
  | @superMethod t _ _ id ht _ _ =>
    have hsuper : t.lexeme = "super" := (hw t List.mem_cons_self).keyword _ ht
    simpa [Phrase.references, Expr.references, ReferenceKind.Spells] using hsuper
  | @forLoop _ _ _ _ i c n b _ _ _ _ _ _ _ _ _ _ _ _ ihi ihc ihn ihb =>
    simp only [List.mem_cons, List.mem_append, or_imp, forall_and, forall_eq] at hw
    obtain ⟨-, -, hi, hc, -, hn, -, hb⟩ := hw
    have hcondition : Spelled (c.getD (.literal (.boolean true))).references := by
      cases c with
      | none => exact spelled_nil
      | some c => exact ihc hc
    cases i with
    | none => simpa [Phrase.references, Stmt.references] using ⟨hcondition, ihn hn, ihb hb⟩
    | some i =>
      simpa [Phrase.references, Stmt.references] using ⟨ihi hi, hcondition, ihn hn, ihb hb⟩
  | @operation tier _ _ _ _ _ _ _ _ ihl ihr =>
    simp only [List.mem_cons, List.mem_append, or_imp, forall_and, forall_eq] at hw
    have hl := ihl hw.1
    have hr := ihr hw.2.2
    cases tier <;>
      simp_all [Phrase.references, Expr.references, Tier.node, Tier.operand]
  | @ofOperand tier _ _ _ ih =>
    have he := ih hw
    cases tier <;> exact he
  | _ =>
    simp_all [Phrase.references, Stmt.references, Stmt.listReferences, Declaration.references,
      Declaration.listReferences, Expr.references, Expr.listReferences, Expr.optionReferences,
      ReferenceKind.Spells, or_imp, forall_and]

theorem Derives.proper {ph : Phrase} {w : List Token} (h : Derives ph w)
    (hw : ∀ t ∈ w, t.Genuine) : ph.Proper := by
  induction h with
  | @forLoop _ _ _ _ i c n b _ _ _ _ _ _ _ _ _ _ _ _ ihi _ _ ihb =>
    simp only [List.mem_cons, List.mem_append, or_imp, forall_and, forall_eq] at hw
    obtain ⟨-, -, hi, -, -, -, -, hb⟩ := hw
    have hbody : b.Proper ∧ b.declares = false := ihb hb
    have hincrement : (n.map Stmt.expression).all Stmt.isExpression = true := by
      cases n <;> rfl
    cases i with
    | none => exact ⟨by simpa only [Stmt.Proper] using ⟨hincrement, hbody⟩, rfl⟩
    | some i =>
      have hclause : i.Proper ∧ i.isClause = true := ihi hi
      exact ⟨by simpa only [Stmt.Proper] using ⟨hclause, hincrement, hbody⟩, rfl⟩
  | _ =>
    simp_all [Phrase.Proper, Stmt.Proper, Stmt.AllProper, Declaration.Proper,
      Declaration.AllProper, Stmt.declares, Stmt.isClause, Token.Genuine.ordinary, or_imp, forall_and]

theorem Stmt.proper_of_isExpression {s : Stmt} (h : s.isExpression = true) : s.Proper := by
  cases s with
  | expression => simp [Stmt.Proper]
  | _ => cases h

theorem Stmt.exists_increment {n : Option Stmt} (h : n.all Stmt.isExpression = true) :
    ∃ e : Option Expr, n = e.map .expression := by
  match n, h with
  | none, _ => exact ⟨none, rfl⟩
  | some (.expression e), _ => exact ⟨some e, rfl⟩

end LoxLang
