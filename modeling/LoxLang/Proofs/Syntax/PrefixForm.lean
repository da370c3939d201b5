import LoxLang.Proofs.Syntax.ReadingBack
import LoxLang.Proofs.Syntax.StatementSoundness

set_option autoImplicit false

namespace LoxLang

open Nested

def Phrase.Readable : Phrase → Prop
  | .declarations body | .block body => Stmt.AllReadable body
  | .declaration s | .variable s | .statement s | .expressionStatement s => s.Readable
  | .initializer s => ∀ t ∈ s, t.Readable
  | .methods ds => Declaration.AllReadable ds
  | .function d => d.Readable
  | .parameterList names | .parameters names => ∀ p ∈ names, p.Readable
  | .optional e => ∀ x ∈ e, x.Readable
  | .expression e | .conditional e | .operation _ e | .unary e | .call e | .primary e => e.Readable
  | .argumentList es | .arguments es => Expr.AllReadable es

theorem Tier.readable_operand {tier : Tier} {e : Expr} : (tier.operand e).Readable ↔ e.Readable := by
  cases tier <;> rfl

/-- Trees of legible tokens are read back. -/
theorem Derives.readable {ph : Phrase} {w : List Token} (h : Derives ph w)
    (hw : ∀ t ∈ w, t.Legible) : ph.Readable := by
  -- On the derivation: each rule adds one shape of trees, and all of its tokens are legible.
  induction h <;> try simp only [List.forall_mem_cons, List.forall_mem_append] at hw
  case noDeclarations => exact Stmt.allReadable_nil
  case declarations ihs ihrest => exact Stmt.allReadable_cons (ihs hw.1) (ihrest hw.2)
  case baseClass hname _ _ _ ih =>
    obtain ⟨-, hn, -, hds, -⟩ := hw
    exact Stmt.readable_declareClass (hn.readable hname) (ih hds)
  case derivedClass hname _ hbase _ _ _ ih =>
    obtain ⟨-, hn, -, hb, -, hds, -⟩ := hw
    exact Stmt.readable_declareClass_base (hn.readable hname) (hb.readable hbase) (ih hds)
  case functionDeclaration ih => exact Stmt.readable_declareFunction (ih hw.2)
  case unsetVariable hname _ => exact Stmt.readable_declareVar (hw.2.1.readable hname) (by simp)
  case setVariable hname _ _ _ ih =>
    obtain ⟨-, hn, -, he, -⟩ := hw
    exact Stmt.readable_declareVar (hn.readable hname) (by simpa [Phrase.Readable] using ih he)
  case forLoop i c n b _ _ _ _ _ _ _ _ _ _ _ _ ihi ihc ihn ihb =>
    obtain ⟨-, -, hi, hc, -, hn, -, hb⟩ := hw
    have hcondition : (c.getD (.literal (.boolean true))).Readable := by
      cases c with
      | none => exact Expr.readable_literal trivial
      | some c => exact ihc hc c rfl
    have hincrement : ∀ s ∈ n.map Stmt.expression, s.Readable := by
      simpa using fun e he => Stmt.readable_expression (ihn hn e he)
    exact Stmt.readable_loop (ihi hi) hcondition hincrement (ihb hb)
  case ifAlone ihc iht =>
    obtain ⟨-, -, hc, -, ht⟩ := hw
    exact Stmt.readable_branch (ihc hc) (iht ht)
  case ifElse ihc iht ihe =>
    obtain ⟨-, -, hc, -, ht, -, he⟩ := hw
    exact Stmt.readable_branch_else (ihc hc) (iht ht) (ihe he)
  case whileLoop ihc ihb =>
    obtain ⟨-, -, hc, -, hb⟩ := hw
    exact Stmt.readable_loop (by simp) (ihc hc) (by simp) (ihb hb)
  case print ih => exact Stmt.readable_print (ih hw.2.1)
  case returnWith hword _ _ ih => exact Stmt.readable_returnWith hw.1 hword (ih hw.2.1)
  case breakLoop hword _ => exact Stmt.readable_breakLoop hw.1 hword
  case continueLoop hword _ => exact Stmt.readable_continueLoop hw.1 hword
  case ofBlock ih => exact Stmt.readable_block (ih hw)
  case expressionStatement ih => exact Stmt.readable_expression (ih hw.1)
  case block ih => exact ih hw.2.1
  case noMethods => exact Declaration.allReadable_nil
  case methods ihd ihrest => exact Declaration.allReadable_cons (ihd hw.1) (ihrest hw.2)
  case function hname _ _ _ _ ihnames ihbody =>
    obtain ⟨hn, -, hnames, -, hbody⟩ := hw
    exact Declaration.readable (hn.readable hname) (ihnames hnames) (ihbody hbody)
  case lastParameter hname => simpa [Phrase.Readable] using hw.1.readable hname
  case parameter hname _ _ ih =>
    obtain ⟨hn, -, hnames⟩ := hw
    exact List.forall_mem_cons.mpr ⟨hn.readable hname, ih hnames⟩
  case assignVariable hname _ _ ih =>
    obtain ⟨hn, -, he⟩ := hw
    exact Expr.readable_assign (hn.readable hname) (ih he)
  case assignProperty _ hname _ _ ih ihvalue =>
    obtain ⟨ho, -, hn, -, he⟩ := hw
    exact Expr.readable_set (ih ho) (hn.readable hname) (ihvalue he)
  case shortConditional ihc ihe =>
    obtain ⟨hc, -, -, he⟩ := hw
    exact Expr.readable_shortConditional (ihc hc) (ihe he)
  case fullConditional ihc iht ihe =>
    obtain ⟨hc, -, ht, -, he⟩ := hw
    exact Expr.readable_conditional (ihc hc) (iht ht) (ihe he)
  case ofOperand ih => exact Tier.readable_operand.mp (ih hw)
  case operation hkind _ ihl ihr =>
    obtain ⟨hl, ho, hr⟩ := hw
    exact Expr.readable_node ho hkind (ihl hl) (Tier.readable_operand.mp (ihr hr))
  case signed hkind _ ih => exact Expr.readable_unary hw.1 hkind (ih hw.2)
  case call hright ihf ihes =>
    obtain ⟨hf, -, hes, hparen, -⟩ := hw
    exact Expr.readable_call (ihf hf) (ihes hes) hparen hright
  case get hname ih =>
    obtain ⟨ho, -, hn, -⟩ := hw
    exact Expr.readable_get (ih ho) (hn.readable hname)
  case noArguments => exact Expr.allReadable_nil
  case lastArgument ih => exact Expr.allReadable_cons (ih hw) Expr.allReadable_nil
  case argument ihe ihes => exact Expr.allReadable_cons (ihe hw.1) (ihes hw.2.2)
  case falseLiteral | trueLiteral | nilLiteral => exact Expr.readable_literal trivial
  case number hkind => exact Expr.readable_literal (hw.1.number _ hkind)
  case string hkind => exact absurd hkind (hw.1.string _)
  case receiver hkind => exact Expr.readable_this hw.1 hkind
  case named hkind => exact Expr.readable_variable (hw.1.readable hkind)
  case superMethod hkind _ hname =>
    obtain ⟨hs, -, hn, -⟩ := hw
    exact Expr.readable_super hs hkind (hn.readable hname)
  case grouping ih => exact Expr.readable_grouping (ih hw.2.1)
  case present ih => simpa [Phrase.Readable] using ih hw
  case variableInitializer ih | expressionInitializer ih => simpa [Phrase.Readable] using ih hw
  case noInitializer | absent | noParameters => simp [Phrase.Readable]
  case variableDeclaration ih | statementDeclaration ih | ofExpression ih | parameters ih
      | ofConditional ih | ofOperation ih | ofCall ih | ofPrimary ih | arguments ih =>
    exact ih hw

theorem Program.readable {source : String} {tokens : List Token} {P : Program} {lo hi : ReferenceId}
    (htokens : Token.ofSource source = .ok tokens) (hP : Program.ofTokens lo tokens = (.ok P, hi))
    (htext : ∀ t ∈ tokens, t.HasText) : Stmt.AllReadable P := by
  have hlegible := Token.ofSource_legible htokens htext
  obtain ⟨body, last, rfl, hlast⟩ := Token.ofSource_ended htokens
  obtain ⟨w, t, rest, happend, -, hbuilt⟩ := Program.ofTokens_built hlast hP
  exact hbuilt.derives.readable fun u hu => hlegible u (by simp [happend, hu])

theorem Stmt.outlines_injective : ∀ {P Q : List Stmt}, AllClear (Stmt.outlines P) →
    AllClear (Stmt.outlines Q) → P.map Stmt.prefixForm = Q.map Stmt.prefixForm →
    Stmt.outlines P = Stmt.outlines Q
  | [], [], _, _, _ => rfl
  | s :: P, t :: Q, hP, hQ, h => by
    obtain ⟨hs, hrest⟩ := List.cons.inj h
    have hwritten : s.outline.written = t.outline.written := by
      rw [← s.prefixForm_outline, ← t.prefixForm_outline, hs]
    exact congrArg₂ List.cons (written_injective hP.1 hQ.1 hwritten)
      (outlines_injective hP.2 hQ.2 hrest)

namespace Program

variable {source source' : String} {tokens tokens' : List Token} {P Q : Program}
  {lo hi lo' hi' : ReferenceId}

/-- Two accepted programs, without strings and with finite numbers only, whose statements have the same prefix
forms are the same but for lines and identities. -/
theorem prefixForms_determine (htokens : Token.ofSource source = .ok tokens)
    (hP : ofTokens lo tokens = (.ok P, hi)) (htext : ∀ t ∈ tokens, t.HasText)
    (htokens' : Token.ofSource source' = .ok tokens') (hQ : ofTokens lo' tokens' = (.ok Q, hi'))
    (htext' : ∀ t ∈ tokens', t.HasText) (hforms : P.map Stmt.prefixForm = Q.map Stmt.prefixForm) :
    Stmt.relabelAll .blank P = Stmt.relabelAll .blank Q := by
  have hreadP := readable htokens hP htext
  have hreadQ := readable htokens' hQ htext'
  rw [← hreadP.back, ← hreadQ.back,
    Stmt.outlines_injective hreadP.clear hreadQ.clear hforms]

/-- A `for` without clauses on one line and a `while` on two. -/
theorem prefixForms_determine_endless :
    let one : Number := ⟨4607182418800017408⟩
    let tree (line : Nat) : Program := [.loop none (.literal (.boolean true)) none
      (.expression (.unary ⟨.mark .minus, "-", line⟩ (.literal (.number one))))]
    let tokens : List Token := [⟨.keyword .forWord, "for", 1⟩, ⟨.mark .leftParen, "(", 1⟩,
      ⟨.mark .semicolon, ";", 1⟩, ⟨.mark .semicolon, ";", 1⟩, ⟨.mark .rightParen, ")", 1⟩,
      ⟨.mark .minus, "-", 1⟩, ⟨.number one, "1", 1⟩, ⟨.mark .semicolon, ";", 1⟩, ⟨.endOfInput, "", 1⟩]
    let tokens' : List Token := [⟨.keyword .whileWord, "while", 1⟩, ⟨.mark .leftParen, "(", 1⟩,
      ⟨.keyword .trueWord, "true", 1⟩, ⟨.mark .rightParen, ")", 1⟩, ⟨.mark .minus, "-", 2⟩,
      ⟨.number one, "1.0", 2⟩, ⟨.mark .semicolon, ";", 2⟩, ⟨.endOfInput, "", 2⟩]
    Token.ofSource "for (;;) -1;" = .ok tokens ∧ ofTokens 0 tokens = (.ok (tree 1), 0) ∧
      Token.ofSource "while (true)\n-1.0;" = .ok tokens' ∧ ofTokens 0 tokens' = (.ok (tree 2), 0) ∧
      (tree 1).map Stmt.prefixForm = (tree 2).map Stmt.prefixForm ∧
      Stmt.relabelAll .blank (tree 1) = Stmt.relabelAll .blank (tree 2) := by
  intro one tree tokens tokens'
  have hscan : Token.ofSource "for (;;) -1;" = .ok tokens := by decide +kernel
  have hscan' : Token.ofSource "while (true)\n-1.0;" = .ok tokens' := by decide +kernel
  have hP : ofTokens 0 tokens = (.ok (tree 1), 0) := by cbv
  have hQ : ofTokens 0 tokens' = (.ok (tree 2), 0) := by cbv
  have hone : one.isFinite = true := by decide
  have htext : ∀ t ∈ tokens, t.HasText := by simp [tokens, Token.HasText, hone]
  have htext' : ∀ t ∈ tokens', t.HasText := by simp [tokens', Token.HasText, hone]
  exact ⟨hscan, hP, hscan', hQ, rfl, prefixForms_determine hscan hP htext hscan' hQ htext' rfl⟩

end Program

end LoxLang
