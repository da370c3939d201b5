import LoxLang.Proofs.Syntax.StatementCompleteness

set_option autoImplicit false

namespace LoxLang

/-- A derivation with every `else` at the nearest `if`, and short lists. -/
structure Settled (ph : Phrase) (w : List Token) : Prop where
  derives : Derives ph w
  limits : ph.WithinLimits
  nearest : ph.NearestElse

/-- An `else` after a statement that ends in an `if` without one goes to the last such `if`. -/
theorem Settled.attach {ph : Phrase} {v w : List Token} {other : Token} {e : Stmt}
    (h : Derives ph v) (hother : other.kind = .keyword .elseWord) (he : Settled (.statement e) w) :
    ∀ {x : Stmt}, ph = .statement x → x.WithinLimits → x.NearestElse → x.endsOpen = true →
      ∃ y, Settled (.statement y) (v ++ other :: w) := by
  induction h with
  | @forLoop _ _ _ _ i c n b _ _ _ _ hword hleft hi hc hsemicolon hn hright _ _ _ _ ih =>
    rintro _ ⟨⟩ hl hnear hopen
    have hb : b.WithinLimits := by
      cases i with
      | none => exact hl.2.2
      | some i => exact hl.2.2.2
    obtain ⟨y, hy⟩ := ih rfl hb hnear hopen
    refine ⟨.loop i (c.getD (.literal (.boolean true))) (n.map .expression) y, ?_, ?_, hy.nearest⟩
    · simpa using .forLoop hword hleft hi hc hsemicolon hn hright hy.derives
    · cases i with
      | none => exact ⟨hl.1, hl.2.1, hy.limits⟩
      | some i => exact ⟨hl.1, hl.2.1, hl.2.2.1, hy.limits⟩
  | whileLoop hword hleft hc hright _ _ ih =>
    rintro _ ⟨⟩ hl hnear hopen
    obtain ⟨y, hy⟩ := ih rfl hl.2.2 hnear hopen
    refine ⟨.loop none _ none y, ?_, ⟨hl.1, hl.2.1, hy.limits⟩, hy.nearest⟩
    simpa using .whileLoop hword hleft hc hright hy.derives
  | @ifAlone _ _ _ c x _ _ hword hleft hc hright hx _ ih =>
    rintro _ ⟨⟩ hl hnear _
    cases hopen : x.endsOpen with
    | true =>
      obtain ⟨y, hy⟩ := ih rfl hl.2 hnear hopen
      refine ⟨.branch c y none, ?_, ⟨hl.1, hy.limits⟩, hy.nearest⟩
      simpa using .ifAlone hword hleft hc hright hy.derives
    | false =>
      refine ⟨.branch c x (some e), ?_, ⟨hl.1, hl.2, he.limits⟩, hnear, hopen, he.nearest⟩
      simpa using .ifElse hword hleft hc hright hx hother he.derives
  | @ifElse _ _ _ _ c x _ _ _ _ hword hleft hc hright hx hother' _ _ _ ih =>
    rintro _ ⟨⟩ hl hnear hopen
    obtain ⟨y, hy⟩ := ih rfl hl.2.2 hnear.2.2 hopen
    refine ⟨.branch c x (some y), ?_, ⟨hl.1, hl.2.1, hy.limits⟩, hnear.1, hnear.2.1, hy.nearest⟩
    simpa using .ifElse hword hleft hc hright hx hother' hy.derives
  | ofExpression h =>
    rintro _ ⟨⟩ _ _ hopen
    cases h
    simp [Stmt.endsOpen] at hopen
  | _ => rintro _ ⟨⟩ <;> simp [Stmt.endsOpen]

def Phrase.Settles : Phrase → List Token → Prop
  | .declarations _, w => ∃ body, Settled (.declarations body) w
  | .declaration _, w => ∃ x, Settled (.declaration x) w
  | .statement _, w => ∃ x, Settled (.statement x) w
  | .block _, w => ∃ body, Settled (.block body) w
  | .methods _, w => ∃ ds, Settled (.methods ds) w
  | .function _, w => ∃ d, Settled (.function d) w
  | ph, w => Settled ph w

theorem Derives.settles {ph : Phrase} {w : List Token} (h : Derives ph w) :
    ph.WithinLimits → ph.Settles w := by
  have hw := h
  induction h with
  | noDeclarations => exact fun _ => ⟨[], .noDeclarations, trivial, trivial⟩
  | declarations hx hbody ihx ihbody =>
    intro hl
    obtain ⟨x, hx⟩ := ihx hx hl.1
    obtain ⟨body, hbody⟩ := ihbody hbody hl.2
    exact ⟨x :: body, .declarations hx.derives hbody.derives, ⟨hx.limits, hbody.limits⟩,
      hx.nearest, hbody.nearest⟩
  | baseClass hword hname hleft hds hright ih =>
    intro hl
    obtain ⟨ds, hds⟩ := ih hds hl
    exact ⟨_, .baseClass hword hname hleft hds.derives hright, hds.limits, hds.nearest⟩
  | @derivedClass _ _ _ _ _ _ id _ _ hword hname hless hbase hleft hds hright ih =>
    intro hl
    obtain ⟨ds, hds⟩ := ih hds hl
    exact ⟨.declareClass _ (some ⟨id, _⟩) ds,
      .derivedClass hword hname hless hbase hleft hds.derives hright, hds.limits, hds.nearest⟩
  | functionDeclaration hword hd ih =>
    intro hl
    obtain ⟨d, hd⟩ := ih hd hl
    exact ⟨_, .functionDeclaration hword hd.derives, hd.limits, hd.nearest⟩
  | variableDeclaration h =>
    intro hl
    refine ⟨_, .variableDeclaration h, hl, ?_⟩
    cases h <;> trivial
  | statementDeclaration hx ih =>
    intro hl
    obtain ⟨x, hx⟩ := ih hx hl
    exact ⟨x, .statementDeclaration hx.derives, hx.limits, hx.nearest⟩
  | ofExpression h =>
    intro hl
    refine ⟨_, .ofExpression h, hl, ?_⟩
    cases h
    trivial
  | @forLoop _ _ _ _ i c n b _ _ _ _ hword hleft hi hc hsemicolon hn hright hb _ _ _ ih =>
    intro hl
    cases i with
    | none =>
      obtain ⟨y, hy⟩ := ih hb hl.2.2
      exact ⟨_, .forLoop hword hleft hi hc hsemicolon hn hright hy.derives,
        ⟨hl.1, hl.2.1, hy.limits⟩, hy.nearest⟩
    | some i =>
      obtain ⟨y, hy⟩ := ih hb hl.2.2.2
      exact ⟨_, .forLoop hword hleft hi hc hsemicolon hn hright hy.derives,
        ⟨hl.1, hl.2.1, hl.2.2.1, hy.limits⟩, hy.nearest⟩
  | ifAlone hword hleft hc hright hx _ ih =>
    intro hl
    obtain ⟨x, hx⟩ := ih hx hl.2
    exact ⟨_, .ifAlone hword hleft hc hright hx.derives, ⟨hl.1, hx.limits⟩, hx.nearest⟩
  | ifElse hword hleft hc hright hx hother hy _ ihx ihy =>
    intro hl
    obtain ⟨x, hx⟩ := ihx hx hl.2.1
    obtain ⟨y, hy⟩ := ihy hy hl.2.2
    cases hopen : x.endsOpen with
    | false =>
      exact ⟨_, .ifElse hword hleft hc hright hx.derives hother hy.derives,
        ⟨hl.1, hx.limits, hy.limits⟩, hx.nearest, hopen, hy.nearest⟩
    | true =>
      -- The `else` belongs to an `if` inside the branch, and this `if` has none.
      obtain ⟨z, hz⟩ := Settled.attach hx.derives hother hy rfl hx.limits hx.nearest hopen
      exact ⟨_, .ifAlone hword hleft hc hright hz.derives, ⟨hl.1, hz.limits⟩, hz.nearest⟩
  | whileLoop hword hleft hc hright hb _ ih =>
    intro hl
    obtain ⟨b, hb⟩ := ih hb hl.2.2
    exact ⟨_, .whileLoop hword hleft hc hright hb.derives, ⟨hl.1, hl.2.1, hb.limits⟩, hb.nearest⟩
  | print | returnWith | breakLoop | continueLoop => exact fun hl => ⟨_, hw, hl, trivial⟩
  | ofBlock hbody ih =>
    intro hl
    obtain ⟨body, hbody⟩ := ih hbody hl
    exact ⟨.block body, .ofBlock hbody.derives, hbody.limits, hbody.nearest⟩
  | block hleft hbody hright ih =>
    intro hl
    obtain ⟨body, hbody⟩ := ih hbody hl
    exact ⟨body, .block hleft hbody.derives hright, hbody.limits, hbody.nearest⟩
  | noMethods => exact fun _ => ⟨[], .noMethods, trivial, trivial⟩
  | methods hd hrest ihd ihrest =>
    intro hl
    obtain ⟨d, hd⟩ := ihd hd hl.1
    obtain ⟨rest, hrest⟩ := ihrest hrest hl.2
    exact ⟨d :: rest, .methods hd.derives hrest.derives, ⟨hd.limits, hrest.limits⟩,
      hd.nearest, hrest.nearest⟩
  | function hname hleft hnames hright hbody _ ih =>
    intro hl
    obtain ⟨body, hbody⟩ := ih hbody hl.2
    exact ⟨_, .function hname hleft hnames hright hbody.derives, ⟨hl.1, hbody.limits⟩,
      hbody.nearest⟩
  | noInitializer | variableInitializer | expressionInitializer =>
    exact fun hl => ⟨hw, hl, hw.nearest_initializer⟩
  | _ => exact fun hl => ⟨hw, hl, trivial⟩

/-- A list of tokens that ends at its only end of the input is accepted if and only if the grammar
derives it with short parameter and argument lists. The answer is then the tree of the derivation in
which every `else` belongs to the nearest `if`, but for the identities of references. -/
theorem Program.ofTokens_correct (n : ReferenceId) (body : List Token) (last : Token)
    (hlast : last.kind = .endOfInput) (honly : ∀ t ∈ body, t.kind ≠ .endOfInput) :
    ((∃ P, (Program.ofTokens n (body ++ [last])).1 = .ok P) ↔
      ∃ T, Derives (.declarations T) body ∧ Stmt.AllWithinLimits T) ∧
    ∀ P, (Program.ofTokens n (body ++ [last])).1 = .ok P →
      Derives (.declarations P) body ∧ Stmt.AllWithinLimits P ∧ Stmt.AllNearestElse P ∧
      ∀ T, Derives (.declarations T) body → Stmt.AllWithinLimits T → Stmt.AllNearestElse T →
        Stmt.allAnonymous T = Stmt.allAnonymous P := by
  have hsound : ∀ P, (Program.ofTokens n (body ++ [last])).1 = .ok P →
      ∃ next, Built (.declarations P) body n next := by
    intro P hP
    exact ⟨_, Program.ofTokens_sound hlast honly (Prod.ext hP rfl)⟩
  refine ⟨⟨?_, ?_⟩, ?_⟩
  · rintro ⟨P, hP⟩
    obtain ⟨next, hbuilt⟩ := hsound P hP
    exact ⟨P, hbuilt.derives, hbuilt.limits⟩
  · rintro ⟨T, hT, hlimits⟩
    -- A derivation may leave an `else` to a farther `if`; there is one of the same tokens that does not.
    obtain ⟨T', hT'⟩ := hT.settles hlimits
    obtain ⟨P, hP, -⟩ := Program.ofTokens_complete hlast hT'.derives hT'.limits hT'.nearest
    exact ⟨P, hP⟩
  · intro P hP
    obtain ⟨next, hbuilt⟩ := hsound P hP
    refine ⟨hbuilt.derives, hbuilt.limits, hbuilt.nearest, fun T hT hlimits hnear => ?_⟩
    obtain ⟨P', hP', hsame⟩ := Program.ofTokens_complete (n := n) hlast hT hlimits hnear
    rw [hP] at hP'
    cases hP'
    exact hsame.symm

def danglingElse : List Token :=
  [⟨.keyword .ifWord, "if", 1⟩, ⟨.mark .leftParen, "(", 1⟩, ⟨.identifier, "a", 1⟩,
   ⟨.mark .rightParen, ")", 1⟩, ⟨.keyword .ifWord, "if", 1⟩, ⟨.mark .leftParen, "(", 1⟩,
   ⟨.identifier, "b", 1⟩, ⟨.mark .rightParen, ")", 1⟩, ⟨.identifier, "x", 1⟩,
   ⟨.mark .semicolon, ";", 1⟩, ⟨.keyword .elseWord, "else", 1⟩, ⟨.identifier, "y", 1⟩,
   ⟨.mark .semicolon, ";", 1⟩]

def danglingElseTree : Program :=
  [.branch (.variable ⟨5, ⟨.identifier, "a", 1⟩⟩)
    (.branch (.variable ⟨6, ⟨.identifier, "b", 1⟩⟩)
      (.expression (.variable ⟨7, ⟨.identifier, "x", 1⟩⟩))
      (some (.expression (.variable ⟨8, ⟨.identifier, "y", 1⟩⟩))))
    none]

theorem Program.ofTokens_danglingElse :
    (∀ t ∈ danglingElse, t.kind ≠ .endOfInput) ∧
      (Program.ofTokens 5 (danglingElse ++ [⟨.endOfInput, "", 1⟩])).1 = .ok danglingElseTree ∧
      Derives (.declarations danglingElseTree) danglingElse ∧
      Stmt.AllNearestElse danglingElseTree := by
  have honly : ∀ t ∈ danglingElse, t.kind ≠ .endOfInput := by decide
  have hP : (Program.ofTokens 5 (danglingElse ++ [⟨.endOfInput, "", 1⟩])).1 =
      .ok danglingElseTree := by cbv
  have h := Program.ofTokens_correct 5 danglingElse ⟨.endOfInput, "", 1⟩ rfl honly
  obtain ⟨hderives, -, hnear, -⟩ := h.2 _ hP
  exact ⟨honly, hP, hderives, hnear⟩

end LoxLang
