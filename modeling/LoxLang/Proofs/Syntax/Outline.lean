import LoxLang.Proofs.Number.Texts
import LoxLang.Proofs.Syntax.Relabeling
import LoxLang.Proofs.Text.Nested
import LoxLang.Syntax.PrefixForm
import LoxLang.Token.Lexeme

set_option autoImplicit false

namespace LoxLang

mutual
def Expr.outline : Expr → Nested
  | .literal value => .word value.prefixForm
  | .grouping inner => .list [.word "group", inner.outline]
  | .unary operator right => .list [.word operator.lexeme, right.outline]
  | .binary left operator right | .logical left operator right =>
    .list [.word operator.lexeme, left.outline, right.outline]
  | .conditional condition (some thenBranch) elseBranch =>
    .list [.word "?:", condition.outline, thenBranch.outline, elseBranch.outline]
  | .conditional condition none elseBranch =>
    .list [.word "?:", condition.outline, elseBranch.outline]
  | .variable target => .word target.name.lexeme
  | .assign target value => .list [.word "=", .word target.name.lexeme, value.outline]
  | .call callee _ arguments => .list (.word "call" :: callee.outline :: Expr.outlines arguments)
  | .get object name => .list [.word ".", object.outline, .word name.lexeme]
  | .set object name value =>
    .list [.word "=", .list [.word ".", object.outline, .word name.lexeme], value.outline]
  | .this _ => .word "this"
  | .super _ method => .list [.word "super", .word method.lexeme]

def Expr.outlines : List Expr → List Nested
  | [] => []
  | e :: rest => e.outline :: Expr.outlines rest
end

mutual
def Stmt.outline : Stmt → Nested
  | .expression value => .list [.word ";", value.outline]
  | .print value => .list [.word "print", value.outline]
  | .declareVar name (some value) => .list [.word "var", .word name.lexeme, value.outline]
  | .declareVar name none => .list [.word "var", .word name.lexeme]
  | .block body => .list (.word "block" :: Stmt.outlines body)
  | .branch condition thenBranch (some elseBranch) =>
    .list [.word "if", condition.outline, thenBranch.outline, elseBranch.outline]
  | .branch condition thenBranch none => .list [.word "if", condition.outline, thenBranch.outline]
  | .loop none condition none body => .list [.word "while", condition.outline, body.outline]
  | .loop none condition (some increment) body =>
    .list [.word "for", .word "nil", condition.outline, increment.outline, body.outline]
  | .loop (some initializer) condition none body =>
    .list [.word "for", initializer.outline, condition.outline, .word "nil", body.outline]
  | .loop (some initializer) condition (some increment) body =>
    .list [.word "for", initializer.outline, condition.outline, increment.outline, body.outline]
  | .declareFunction declaration => declaration.outline "fun"
  | .returnWith _ (some value) => .list [.word "return", value.outline]
  | .returnWith _ none => .list [.word "return"]
  | .breakLoop _ => .list [.word "break"]
  | .continueLoop _ => .list [.word "continue"]
  | .declareClass name (some superclass) methods =>
    .list (.word "class" :: .word name.lexeme :: .word "<" :: .word superclass.name.lexeme ::
      Declaration.outlines methods)
  | .declareClass name none methods =>
    .list (.word "class" :: .word name.lexeme :: Declaration.outlines methods)

def Stmt.outlines : List Stmt → List Nested
  | [] => []
  | s :: rest => s.outline :: Stmt.outlines rest

def Declaration.outline (head : String) : Declaration → Nested
  | .mk name parameters body =>
    .list (.word head :: .word name.lexeme :: .list (parameters.map fun p => .word p.lexeme) ::
      Stmt.outlines body)

def Declaration.outlines : List Declaration → List Nested
  | [] => []
  | d :: rest => d.outline "method" :: Declaration.outlines rest
end

section

open Nested

mutual
theorem Expr.prefixForm_outline : ∀ e : Expr, e.prefixForm.toList = e.outline.written
  | .literal _ | .variable _ | .this _ => rfl
  | .super _ _ => by simp [Expr.prefixForm, Expr.outline, written, following]
  | .grouping e | .unary _ e | .assign _ e | .get e _ => by
    simp [Expr.prefixForm, Expr.outline, written, following, e.prefixForm_outline]
  | .binary l _ r | .logical l _ r | .set l _ r | .conditional l none r => by
    simp [Expr.prefixForm, Expr.outline, written, following, l.prefixForm_outline,
      r.prefixForm_outline]
  | .conditional c (some t) e => by
    simp [Expr.prefixForm, Expr.outline, written, following, c.prefixForm_outline,
      t.prefixForm_outline, e.prefixForm_outline]
  | .call f _ es => by
    simp [Expr.prefixForm, Expr.outline, written, following, f.prefixForm_outline,
      Expr.prefixForms_outlines es]

theorem Expr.prefixForms_outlines : ∀ es : List Expr,
    (Expr.prefixForms es).toList = following (Expr.outlines es)
  | [] => rfl
  | e :: rest => by
    simp [Expr.prefixForms, Expr.outlines, following, e.prefixForm_outline,
      Expr.prefixForms_outlines rest]
end

theorem intercalate_lexemes (names : List Token) :
    [' '].intercalate (names.map (String.toList ∘ Token.lexeme)) =
      (following (names.map fun p => .word p.lexeme)).tail := by
  induction names with
  | nil => rfl
  | cons name rest ih =>
    cases rest with
    | nil => simp [following, written]
    | cons next rest =>
      rw [List.map_cons, List.intercalate_cons_of_ne_nil (by simp), ih]
      simp [following, written]

mutual
theorem Stmt.prefixForm_outline : ∀ s : Stmt, s.prefixForm.toList = s.outline.written
  | .expression e | .print e | .declareVar _ (some e) | .returnWith _ (some e) => by
    simp [Stmt.prefixForm, Stmt.outline, written, following, e.prefixForm_outline]
  | .declareVar _ none | .returnWith _ none | .breakLoop _ | .continueLoop _ => by
    simp [Stmt.prefixForm, Stmt.outline, written, following]
  | .block body => by
    simp [Stmt.prefixForm, Stmt.outline, written, following, Stmt.prefixForms_outlines body]
  | .branch c t (some e) => by
    simp [Stmt.prefixForm, Stmt.outline, written, following, c.prefixForm_outline,
      t.prefixForm_outline, e.prefixForm_outline]
  | .branch c t none => by
    simp [Stmt.prefixForm, Stmt.outline, written, following, c.prefixForm_outline,
      t.prefixForm_outline]
  | .loop none c none b => by
    simp [Stmt.prefixForm, Stmt.outline, written, following, c.prefixForm_outline,
      b.prefixForm_outline]
  | .loop none c (some n) b => by
    simp [Stmt.prefixForm, Stmt.outline, written, following, c.prefixForm_outline,
      n.prefixForm_outline, b.prefixForm_outline]
  | .loop (some i) c none b => by
    simp [Stmt.prefixForm, Stmt.outline, written, following, i.prefixForm_outline,
      c.prefixForm_outline, b.prefixForm_outline]
  | .loop (some i) c (some n) b => by
    simp [Stmt.prefixForm, Stmt.outline, written, following, i.prefixForm_outline,
      c.prefixForm_outline, n.prefixForm_outline, b.prefixForm_outline]
  | .declareFunction d => by
    rw [Stmt.prefixForm, Stmt.outline, d.prefixForm_outline]
  | .declareClass _ (some base) ds => by
    simp [Stmt.prefixForm, Stmt.outline, written, following, Declaration.prefixForms_outlines ds]
  | .declareClass _ none ds => by
    simp [Stmt.prefixForm, Stmt.outline, written, following, Declaration.prefixForms_outlines ds]

theorem Stmt.prefixForms_outlines : ∀ body : List Stmt,
    (Stmt.prefixForms body).toList = following (Stmt.outlines body)
  | [] => rfl
  | s :: rest => by
    simp [Stmt.prefixForms, Stmt.outlines, following, s.prefixForm_outline,
      Stmt.prefixForms_outlines rest]

theorem Declaration.prefixForm_outline {head : String} : ∀ d : Declaration,
    (d.prefixForm head).toList = (d.outline head).written
  | .mk _ names body => by
    simp [Declaration.prefixForm, Declaration.outline, written, following,
      intercalate_lexemes, Stmt.prefixForms_outlines body]

theorem Declaration.prefixForms_outlines : ∀ ds : List Declaration,
    (Declaration.prefixForms ds).toList = following (Declaration.outlines ds)
  | [] => rfl
  | d :: rest => by
    simp [Declaration.prefixForms, Declaration.outlines, following, d.prefixForm_outline,
      Declaration.prefixForms_outlines rest]
end

end

def Relabeling.blank : Relabeling := ⟨fun _ => 0, fun _ => 0⟩

def Literal.IsClear : Literal → Prop
  | .number n => n.IsLiteral
  | .string _ => False
  | .boolean _ | .nil => True

namespace Token

def ofName (text : String) : Token := ⟨.identifier, text, 0⟩

def ofKeyword (k : Keyword) : Token := ⟨.keyword k, k.spelling, 0⟩

def ofOperator (text : String) : Token :=
  ⟨match Mark.ofChars? text.toList with
    | some m => .mark m
    | none => Lexeme.wordKind text.toList, text, 0⟩

end Token

open Classical in
/-- What a word is: a literal, `this` or a variable. -/
noncomputable def Expr.ofWord (text : String) : Expr :=
  if h : ∃ v : Literal, v.IsClear ∧ v.prefixForm = text then .literal h.choose
  else if text = "this" then .this ⟨0, .ofKeyword .thisWord⟩
  else .variable ⟨0, .ofName text⟩

/-- The expression with such a head and such parts. -/
def Expr.ofShape (head : String) (parts : List Expr) : Expr :=
  match head, parts with
  | "group", [inner] => .grouping inner
  | "super", [.variable ⟨_, method⟩] => .super ⟨0, .ofKeyword .superWord⟩ method
  | "call", callee :: arguments => .call callee (.ofOperator ")") arguments
  | "?:", [condition, thenBranch, elseBranch] => .conditional condition (some thenBranch) elseBranch
  | "?:", [condition, elseBranch] => .conditional condition none elseBranch
  | "=", [.variable target, value] => .assign target value
  | "=", [.get object name, value] => .set object name value
  | ".", [object, .variable ⟨_, name⟩] => .get object name
  | "and", [left, right] | "or", [left, right] => .logical left (.ofOperator head) right
  | _, [right] => .unary (.ofOperator head) right
  | _, [left, right] => .binary left (.ofOperator head) right
  | _, _ => .literal .nil

mutual
noncomputable def Nested.expr : Nested → Expr
  | .word text => .ofWord text
  | .list (.word head :: parts) => .ofShape head (Nested.exprs parts)
  | .list _ => .literal .nil

noncomputable def Nested.exprs : List Nested → List Expr
  | [] => []
  | part :: rest => part.expr :: Nested.exprs rest
end

def Nested.name : Nested → Token
  | .word text => .ofName text
  | .list _ => .ofName ""

def Stmt.declaration? : Stmt → Option Declaration
  | .declareFunction declaration => some declaration
  | _ => none

noncomputable def Stmt.ofShape (head : String) (parts : List Nested) (bodies : List Stmt) : Stmt :=
  match head, parts, bodies with
  | ";", [value], _ => .expression value.expr
  | "print", [value], _ => .print value.expr
  | "var", [name, value], _ => .declareVar name.name (some value.expr)
  | "var", [name], _ => .declareVar name.name none
  | "block", _, _ => .block bodies
  | "if", [condition, _, _], [_, thenBranch, elseBranch] =>
    .branch condition.expr thenBranch (some elseBranch)
  | "if", [condition, _], [_, thenBranch] => .branch condition.expr thenBranch none
  | "while", [condition, _], [_, body] => .loop none condition.expr none body
  | "for", [.word _, condition, _, _], [_, _, increment, body] =>
    .loop none condition.expr (some increment) body
  | "for", [_, condition, .word _, _], [initializer, _, _, body] =>
    .loop (some initializer) condition.expr none body
  | "for", [_, condition, _, _], [initializer, _, increment, body] =>
    .loop (some initializer) condition.expr (some increment) body
  | "fun", name :: .list parameters :: _, _ :: _ :: body
  | "method", name :: .list parameters :: _, _ :: _ :: body =>
    .declareFunction (.mk name.name (parameters.map Nested.name) body)
  | "return", [value], _ => .returnWith (.ofKeyword .returnWord) (some value.expr)
  | "return", [], _ => .returnWith (.ofKeyword .returnWord) none
  | "break", _, _ => .breakLoop (.ofKeyword .breakWord)
  | "continue", _, _ => .continueLoop (.ofKeyword .continueWord)
  | "class", name :: .word _ :: superclass :: _, _ :: _ :: _ :: methods =>
    .declareClass name.name (some ⟨0, superclass.name⟩) (methods.filterMap Stmt.declaration?)
  | "class", name :: _, _ :: methods =>
    .declareClass name.name none (methods.filterMap Stmt.declaration?)
  | _, _, _ => .block []

mutual
noncomputable def Nested.stmt : Nested → Stmt
  | .list (.word head :: parts) => .ofShape head parts (Nested.stmts parts)
  | _ => .block []

noncomputable def Nested.stmts : List Nested → List Stmt
  | [] => []
  | part :: rest => part.stmt :: Nested.stmts rest
end

end LoxLang
