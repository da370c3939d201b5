import LoxLang.Proofs.Syntax.Grammar

set_option autoImplicit false

namespace LoxLang

namespace Kind

def opensPrimary : Kind → Bool
  | .identifier | .string _ | .number _ | .mark .leftParen | .keyword .falseWord
  | .keyword .trueWord | .keyword .nilWord | .keyword .thisWord | .keyword .superWord => true
  | _ => false

def opensExpression : Kind → Bool
  | .mark .bang | .mark .minus => true
  | kind => kind.opensPrimary

def opensStatement : Kind → Bool
  | .keyword .forWord | .keyword .ifWord | .keyword .whileWord | .keyword .printWord
  | .keyword .returnWord | .keyword .breakWord | .keyword .continueWord | .mark .leftBrace => true
  | kind => kind.opensExpression

def opensDeclaration : Kind → Bool
  | .keyword .classWord | .keyword .funWord | .keyword .varWord => true
  | kind => kind.opensStatement

theorem opensExpression_of_opensPrimary {kind : Kind} (h : kind.opensPrimary = true) :
    kind.opensExpression = true := by
  unfold opensExpression
  split <;> first | rfl | exact h

theorem opensStatement_of_opensExpression {kind : Kind} (h : kind.opensExpression = true) :
    kind.opensStatement = true := by
  unfold opensStatement
  split <;> first | rfl | exact h

theorem opensDeclaration_of_opensStatement {kind : Kind} (h : kind.opensStatement = true) :
    kind.opensDeclaration = true := by
  unfold opensDeclaration
  split <;> first | rfl | exact h

theorem ne_of_opensDeclaration {kind : Kind} (h : kind.opensDeclaration = true) :
    kind ≠ .mark .rightBrace ∧ kind ≠ .endOfInput ∧ kind ≠ .keyword .elseWord := by
  refine ⟨?_, ?_, ?_⟩ <;> rintro rfl <;> exact absurd h (by decide)

end Kind

def Begins (opens : Kind → Bool) (w : List Token) : Prop :=
  ∃ t v, w = t :: v ∧ opens t.kind = true

namespace Begins

variable {opens more : Kind → Bool} {w : List Token}

theorem cons {t : Token} {v : List Token} (h : opens t.kind = true) : Begins opens (t :: v) :=
  ⟨t, v, rfl, h⟩

theorem append (h : Begins opens w) (v : List Token) : Begins opens (w ++ v) := by
  obtain ⟨t, u, rfl, ht⟩ := h
  exact ⟨t, u ++ v, rfl, ht⟩

theorem mono (h : Begins opens w) (himp : ∀ kind, opens kind = true → more kind = true) :
    Begins more w := by
  obtain ⟨t, u, rfl, ht⟩ := h
  exact ⟨t, u, rfl, himp _ ht⟩

theorem length_pos (h : Begins opens w) : 0 < w.length := by
  obtain ⟨t, u, rfl, -⟩ := h
  simp

end Begins

/-- How the tokens of a phrase begin. Of a phrase that may be empty nothing is said. -/
def Phrase.BeginsWell : Phrase → List Token → Prop
  | .declaration _, w => Begins Kind.opensDeclaration w
  | .variable _, w => Begins (BEq.beq (.keyword .varWord)) w
  | .statement _, w => Begins Kind.opensStatement w
  | .block _, w => Begins (BEq.beq (.mark .leftBrace)) w
  | .function _, w | .parameters _, w => Begins (BEq.beq .identifier) w
  | .expressionStatement _, w | .expression _, w | .conditional _, w | .operation _ _, w
  | .unary _, w | .arguments _, w => Begins Kind.opensExpression w
  | .call _, w | .primary _, w => Begins Kind.opensPrimary w
  | .declarations _, _ | .initializer _, _ | .methods _, _ | .parameterList _, _
  | .argumentList _, _ | .optional _, _ => True

theorem Derives.beginsWell {ph : Phrase} {w : List Token} (h : Derives ph w) :
    ph.BeginsWell w := by
  induction h with
  | noDeclarations | declarations | noInitializer | variableInitializer | expressionInitializer
  | noMethods | methods | noParameters | parameters | noArguments | arguments | absent | present =>
    trivial
  | baseClass hw | derivedClass hw | functionDeclaration hw =>
    exact .cons (by simp [hw, Kind.opensDeclaration])
  | variableDeclaration _ ih =>
    refine ih.mono fun kind hk => ?_
    simp only [beq_iff_eq] at hk
    simp [← hk, Kind.opensDeclaration]
  | statementDeclaration _ ih => exact ih.mono fun _ => Kind.opensDeclaration_of_opensStatement
  | unsetVariable hw | setVariable hw =>
    exact .cons (by simp [hw])
  | ofExpression _ ih => exact ih.mono fun _ => Kind.opensStatement_of_opensExpression
  | forLoop hw | ifAlone hw | ifElse hw | whileLoop hw | print hw | returnWith hw | breakLoop hw
  | continueLoop hw => exact .cons (by simp [hw, Kind.opensStatement])
  | ofBlock _ ih =>
    refine ih.mono fun kind hk => ?_
    simp only [beq_iff_eq] at hk
    simp [← hk, Kind.opensStatement]
  | expressionStatement _ _ ih | fullConditional _ _ _ _ _ ih | shortConditional _ _ _ _ ih
  | argument _ _ _ ih => exact ih.append _
  | operation _ _ _ ih => exact ih.append _
  | block hleft => exact .cons (by simp [hleft])
  | function hname | lastParameter hname | parameter hname => exact .cons (by simp [hname])
  | ofConditional _ ih | ofOperation _ ih | lastArgument _ ih => exact ih
  | assignVariable hname => exact .cons (by simp [hname, Kind.opensExpression, Kind.opensPrimary])
  | assignProperty _ _ _ _ _ ih =>
    exact (ih.append _).mono fun _ => Kind.opensExpression_of_opensPrimary
  | @ofOperand tier _ _ _ ih => cases tier <;> exact ih
  | @signed operator _ _ ho =>
    simp only [List.mem_cons, List.not_mem_nil, or_false] at ho
    rcases ho with ho | ho <;> exact .cons (by simp [ho, Kind.opensExpression])
  | ofCall _ ih => exact ih.mono fun _ => Kind.opensExpression_of_opensPrimary
  | ofPrimary _ ih => exact ih
  | call _ _ _ _ ih | get _ _ _ ih => exact ih.append _
  | falseLiteral hk | trueLiteral hk | nilLiteral hk | number hk | string hk | receiver hk
  | named hk | superMethod hk | grouping hk => exact .cons (by simp [hk, Kind.opensPrimary])

end LoxLang
