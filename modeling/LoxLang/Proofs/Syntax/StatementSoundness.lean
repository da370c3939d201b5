import LoxLang.Proofs.Syntax.ExpressionSoundness

set_option autoImplicit false

namespace LoxLang

namespace Parsing

theorem expressionStatement_sound (depth : Nat) :
    Builds (expressionStatement depth) .expressionStatement := by
  intro s
  rw [expressionStatement]
  refine ((expressionsSound depth).expression s).bind fun e u s₁ => Yields.expect (by simp) ?_
  intro semicolon s₂ hsemicolon hid
  refine Yields.ret ?_
  intro he
  refine ⟨.expressionStatement he.derives hsemicolon, he.limits, trivial, ?_⟩
  simpa [Phrase.references, Stmt.references, hid] using he.drawn

theorem variableDeclaration_sound (depth : Nat) (s : State) :
    Yields (variableDeclaration depth) s fun v w s' => ∀ word : Token,
      word.kind = .keyword .varWord → Built (.variable v) (word :: w) s.nextId s'.nextId := by
  rw [variableDeclaration]
  refine Yields.expect (by simp) fun name s₁ hname hid => Yields.accept (by simp) ?_ ?_
  · intro equal s₂ hequal hid₂
    refine ((expressionsSound depth).expression s₂).bind fun e u s₃ => ?_
    refine Yields.bind (Yields.ret (P := fun v w s' => v = some e ∧ w = [] ∧ s' = s₃)
      ⟨rfl, rfl, rfl⟩) fun v w s₄ => Yields.expect (by simp) ?_
    intro semicolon s₅ hsemicolon hid₅
    refine Yields.ret ?_
    rintro ⟨rfl, rfl, rfl⟩ he _ word hword
    refine ⟨?_, he.limits, trivial, ?_⟩
    · simpa using .setVariable hword hname hequal he.derives hsemicolon
    · simpa [Phrase.references, Stmt.references, Expr.optionReferences, hid₅, ← hid, ← hid₂]
        using he.drawn
  · intro _
    refine Yields.bind (Yields.ret (P := fun v w s' => v = none ∧ w = [] ∧ s' = s₁)
      ⟨rfl, rfl, rfl⟩) fun v w s₂ => Yields.expect (by simp) ?_
    intro semicolon s₃ hsemicolon hid₃
    refine Yields.ret ?_
    rintro ⟨rfl, rfl, rfl⟩ word hword
    refine ⟨.unsetVariable hword hname hsemicolon, trivial, trivial, ?_⟩
    exact Drawn.nil (by simp [hid₃, hid])

theorem printStatement_sound (depth : Nat) (s : State) :
    Yields (printStatement depth) s fun v w s' => v.endsOpen = false ∧ ∀ word : Token,
      word.kind = .keyword .printWord → Built (.statement v) (word :: w) s.nextId s'.nextId := by
  rw [printStatement]
  refine ((expressionsSound depth).expression s).bind fun e u s₁ => Yields.expect (by simp) ?_
  intro semicolon s₂ hsemicolon hid
  refine Yields.ret ?_
  intro he
  refine ⟨rfl, fun word hword => ⟨?_, he.limits, trivial, ?_⟩⟩
  · simpa using .print hword he.derives hsemicolon
  · simpa [Phrase.references, Stmt.references, hid] using he.drawn

theorem Yields.optional {β : Type} {Q : β → List Token → State → Prop} {depth : Nat} {kind : Kind}
    {f : Option Expr → Parser β} {s : State}
    (hf : ∀ e u s₁, Yields (f e) s₁ fun x w s' =>
      Built (.optional e) u s.nextId s₁.nextId → Q x (u ++ w) s') :
    Yields (do if ← Parsing.check kind then f (← pure none) else
      f (← some <$> expression depth)) s Q := by
  refine Yields.unless ⟨.absent, trivial, trivial, Drawn.nil (Nat.le_refl _)⟩ ?_ hf
  refine (((expressionsSound depth).expression s).imp fun e w s' he => ?_).map
  exact ⟨.present he.derives, he.limits, trivial, he.drawn⟩

theorem returnStatement_sound (depth : Nat) (keyword : Token)
    (hk : keyword.kind = .keyword .returnWord) (s : State) :
    Yields (returnStatement depth keyword) s fun v w s' =>
      v.endsOpen = false ∧ Built (.statement v) (keyword :: w) s.nextId s'.nextId := by
  rw [returnStatement]
  refine Yields.optional fun e u s₁ => Yields.expect (by simp) fun semicolon s₂ hsemicolon hid => ?_
  refine Yields.ret fun he => ⟨rfl, ?_, he.limits, trivial, ?_⟩
  · simpa using .returnWith hk he.derives hsemicolon
  · simpa [Phrase.references, Stmt.references, hid] using he.drawn

theorem forInitializer_sound (depth : Nat) : Builds (forInitializer depth) .initializer := by
  intro s
  rw [forInitializer]
  refine Yields.accept (by simp) ?_ ?_
  · intro semicolon s₁ hsemicolon hid
    refine Yields.ret fun _ => ⟨.noInitializer hsemicolon, trivial, trivial, ?_⟩
    exact Drawn.nil (Nat.le_of_eq hid.symm)
  · intro _
    refine Yields.accept (by simp) ?_ ?_
    · intro word s₁ hword hid
      refine (variableDeclaration_sound depth s₁).bind fun v u s₂ => Yields.ret ?_
      intro hv _
      obtain ⟨hd, hl, hn, hr⟩ := hv word hword
      exact ⟨by simpa using .variableInitializer hd, hl, hn, by rw [← hid]; exact hr⟩
    · intro _
      refine (expressionStatement_sound depth s).bind fun v u s₁ => Yields.ret ?_
      intro hv
      exact ⟨by simpa using .expressionInitializer hv.derives, hv.limits, hv.nearest, hv.drawn⟩

theorem parameters_sound (depth count : Nat) (s : State) :
    Yields (parameters depth count) s fun names w s' =>
      count + names.length ≤ argumentLimit ∧ Built (.parameters names) w s.nextId s'.nextId := by
  induction depth generalizing count s with
  | zero => exact Yields.outOfDepth
  | succ depth ih =>
    have hlist : ∀ s : State, Yields (separated (expect .identifier .parameterName)
        (parameters depth (count + 1))) s fun names w s' =>
          count < argumentLimit →
            count + names.length ≤ argumentLimit ∧
              Built (.parameters names) w s.nextId s'.nextId := by
      intro s
      unfold separated
      refine Yields.expect (by simp) fun first s₁ hfirst hid => Yields.accept (by simp) ?_ ?_
      · intro comma s₂ hcomma hid₂
        refine (ih (count + 1) s₂).bind fun rest v s₃ => Yields.ret ?_
        intro hrest _ _
        obtain ⟨hcount, hrest⟩ := hrest
        have hlen : count + (first :: rest).length ≤ argumentLimit := by simp; omega
        refine ⟨hlen, ?_, Nat.le_trans (Nat.le_add_left ..) hlen, trivial, ?_⟩
        · simpa using .parameter hfirst hcomma hrest.derives
        · exact Drawn.nil (hid ▸ hid₂ ▸ hrest.drawn.le)
      · intro _
        refine Yields.ret ?_
        intro hcount
        refine ⟨hcount, .lastParameter hfirst, ?_, trivial, Drawn.nil (Nat.le_of_eq hid.symm)⟩
        exact Nat.le_trans (Nat.le_add_left ..) hcount
    rw [parameters]
    split
    · refine Yields.current (Yields.note (P := fun _ _ _ => True) fun s₁ => ?_)
      exact (hlist s₁).imp fun _ _ _ _ => trivial
    · exact (hlist s).imp fun names w s' h => h (by omega)

theorem Yields.untilBrace {α : Type} {Q : List α → List Token → State → Prop}
    {more : Parser (List α)} {s : State} (hstop : Yields (pure []) s Q) (hmore : Yields more s Q) :
    Yields (do
      if (← Parsing.check (.mark .rightBrace)) || (← Parsing.atEnd) then return []
      else more) s Q := by
  refine Yields.check (fun _ => ?_) fun _ => Yields.atEnd ?_
  · exact Yields.atEnd hstop
  · split
    · exact hstop
    · exact hmore

structure StatementsSound (depth : Nat) : Prop where
  declaration : ∀ s, Yields (declaration depth) s fun v w s' =>
    ∃ x, v = some x ∧ Built (.declaration x) w s.nextId s'.nextId
  classDeclaration : ∀ s, Yields (classDeclaration depth) s fun v w s' => ∀ word : Token,
    word.kind = .keyword .classWord → Built (.declaration v) (word :: w) s.nextId s'.nextId
  methods : Builds (methods depth) .methods
  function : ∀ kind, Builds (function depth kind) .function
  block : ∀ s, Yields (block depth) s fun body w s' => ∀ left : Token,
    left.kind = .mark .leftBrace → Built (.block body) (left :: w) s.nextId s'.nextId
  declarations : Builds (declarations depth) .declarations
  /-- A statement that an `else` could still belong to is not followed by one. -/
  statement : ∀ s, Yields (statement depth) s fun v w s' =>
    Built (.statement v) w s.nextId s'.nextId ∧
      (v.endsOpen = true → s'.current.kind ≠ .keyword .elseWord)

theorem declaration_sound {depth : Nat} (ih : StatementsSound depth) (s : State) :
    Yields (declaration (depth + 1)) s fun v w s' =>
      ∃ x, v = some x ∧ Built (.declaration x) w s.nextId s'.nextId := by
  rw [declaration]
  refine Yields.recover (Yields.current ?_)
  split
  · rename_i hk
    refine Yields.advance (by simp [hk]) fun s₁ hid => ?_
    refine (ih.classDeclaration s₁).imp fun v w s' h => ?_
    simpa [hid] using h s.current hk
  · rename_i hk
    refine Yields.advance (by simp [hk]) fun s₁ hid => ?_
    refine (ih.function .function s₁).bind fun d u s₂ => Yields.ret ?_
    intro hd
    refine ⟨?_, hd.limits, hd.nearest, ?_⟩
    · simpa using .functionDeclaration hk hd.derives
    · simpa [Phrase.references, Stmt.references, hid] using hd.drawn
  · rename_i hk
    refine Yields.advance (by simp [hk]) fun s₁ hid => ?_
    refine (variableDeclaration_sound depth s₁).imp fun v w s' h => ?_
    obtain ⟨hd, hl, hn, hr⟩ := h s.current hk
    exact ⟨.variableDeclaration hd, hl, hn, by rw [← hid]; exact hr⟩
  · refine (ih.statement s).imp fun v w s' h => ?_
    obtain ⟨⟨hd, hl, hn, hr⟩, -⟩ := h
    exact ⟨.statementDeclaration hd, hl, hn, hr⟩

theorem classDeclaration_sound {depth : Nat} (ih : StatementsSound depth) (s : State) :
    Yields (classDeclaration (depth + 1)) s fun v w s' => ∀ word : Token,
      word.kind = .keyword .classWord → Built (.declaration v) (word :: w) s.nextId s'.nextId := by
  rw [classDeclaration]
  refine Yields.expect (by simp) fun name s₁ hname hid => ?_
  have hbody : ∀ (base : Option Reference) (s₂ : State), Yields (do
      let _ ← expect (.mark .leftBrace) .classBody
      let methods ← methods depth
      let _ ← expect (.mark .rightBrace) .classEnd
      return Stmt.declareClass name base methods) s₂ fun v w s' =>
        ∃ left ds right u, left.kind = .mark .leftBrace ∧ right.kind = .mark .rightBrace ∧
          v = Stmt.declareClass name base ds ∧ w = left :: (u ++ [right]) ∧
          Built (.methods ds) u s₂.nextId s'.nextId := by
    intro base s₂
    refine Yields.expect (by simp) fun left s₃ hleft hid₃ => ?_
    refine (ih.methods s₃).bind fun ds u s₄ => Yields.expect (by simp) fun right s₅ hright hid₅ => ?_
    refine Yields.ret fun hds => ⟨left, ds, right, u, hleft, hright, rfl, by simp, ?_⟩
    rw [hid₅, ← hid₃]
    exact hds
  refine Yields.accept (by simp) ?_ ?_
  · intro less s₂ hless hid₂
    refine Yields.expect (by simp) fun base s₃ hbase hid₃ => Yields.reference fun s₄ hid₄ => ?_
    refine Yields.bind (Yields.ret (P := fun v w s' => v = some ⟨s₃.nextId, base⟩ ∧ w = [] ∧ s' = s₄)
      ⟨rfl, rfl, rfl⟩) fun v w s₅ => (hbody v s₅).imp ?_
    rintro _ _ s' ⟨left, ds, right, u, hleft, hright, rfl, rfl, hds⟩ ⟨rfl, rfl, rfl⟩ _ word hword
    refine ⟨?_, hds.limits, hds.nearest, ?_⟩
    · simpa using .derivedClass hword hname hless hbase hleft hds.derives hright
    · have hdrawn := (Drawn.single s₃.nextId).append (hid₄ ▸ hds.drawn)
      simpa [Phrase.references, Stmt.references, ← hid, ← hid₂, ← hid₃] using hdrawn
  · intro _
    refine Yields.bind (Yields.ret (P := fun v w s' => v = none ∧ w = [] ∧ s' = s₁)
      ⟨rfl, rfl, rfl⟩) fun v w s₂ => (hbody v s₂).imp ?_
    rintro _ _ s' ⟨left, ds, right, u, hleft, hright, rfl, rfl, hds⟩ ⟨rfl, rfl, rfl⟩ word hword
    refine ⟨?_, hds.limits, hds.nearest, ?_⟩
    · simpa using .baseClass hword hname hleft hds.derives hright
    · simpa [Phrase.references, Stmt.references, hid] using hds.drawn

theorem methods_sound {depth : Nat} (ih : StatementsSound depth) :
    Builds (methods (depth + 1)) .methods := by
  intro s
  rw [methods]
  have hstop : Yields (pure []) s fun ds w s' => Built (.methods ds) w s.nextId s'.nextId :=
    Yields.ret ⟨.noMethods, trivial, trivial, Drawn.nil (Nat.le_refl _)⟩
  have hmore : Yields (do
      let first ← function depth .method
      return first :: (← methods depth)) s fun ds w s' =>
        Built (.methods ds) w s.nextId s'.nextId := by
    refine (ih.function .method s).bind fun d u s₁ => ?_
    refine (ih.methods s₁).bind fun ds v s₂ => Yields.ret ?_
    intro hds hd
    refine ⟨?_, ⟨hd.limits, hds.limits⟩, ⟨hd.nearest, hds.nearest⟩, ?_⟩
    · simpa using .methods hd.derives hds.derives
    · simpa [Phrase.references, Declaration.listReferences] using hd.drawn.append hds.drawn
  exact Yields.untilBrace hstop hmore

theorem function_sound {depth : Nat} (ih : StatementsSound depth) (kind : FunctionKind) :
    Builds (function (depth + 1) kind) .function := by
  intro s
  rw [function]
  refine Yields.expect (by simp) fun name s₁ hname hid => ?_
  refine Yields.expect (by simp) fun left s₂ hleft hid₂ => ?_
  have hlist : Yields (parameters depth 0) s₂ fun names w s' =>
      Built (.parameterList names) w s₂.nextId s'.nextId := by
    refine (parameters_sound depth 0 s₂).imp fun names w s' h => ?_
    obtain ⟨-, hd, hl, -, hr⟩ := h
    exact ⟨.parameters hd, hl, trivial, hr⟩
  refine Yields.unless ⟨.noParameters, by simp [Phrase.WithinLimits], trivial,
    Drawn.nil (Nat.le_refl _)⟩ hlist fun names u s₃ => ?_
  refine Yields.expect (by simp) fun right s₄ hright hid₄ => ?_
  refine Yields.expect (by simp) fun brace s₅ hbrace hid₅ => ?_
  refine (ih.block s₅).bind fun body v s₆ => Yields.ret ?_
  intro hbody hnames
  obtain ⟨hd, hl, hn, hr⟩ := hbody brace hbrace
  refine ⟨?_, ⟨hnames.limits, hl⟩, hn, ?_⟩
  · simpa using .function hname hleft hnames.derives hright hd
  · have hdrawn := (hid ▸ hid₂ ▸ hnames.drawn).append (hid₄ ▸ hid₅ ▸ hr)
    simpa [Phrase.references, Declaration.references] using hdrawn

theorem block_sound {depth : Nat} (ih : StatementsSound depth) (s : State) :
    Yields (block (depth + 1)) s fun body w s' => ∀ left : Token,
      left.kind = .mark .leftBrace → Built (.block body) (left :: w) s.nextId s'.nextId := by
  rw [block]
  refine (ih.declarations s).bind fun body u s₁ => Yields.expect (by simp) ?_
  intro right s₂ hright hid
  refine Yields.ret ?_
  intro hbody left hleft
  refine ⟨?_, hbody.limits, hbody.nearest, ?_⟩
  · simpa using .block hleft hbody.derives hright
  · simpa [Phrase.references, hid] using hbody.drawn

theorem Yields.declarations {rest : Parser (List Stmt)} {depth : Nat} (ih : StatementsSound depth)
    (hrest : Builds rest .declarations) (s : State) :
    Yields (do
      let first ← Parsing.declaration depth
      return first.toList ++ (← rest)) s fun body w s' =>
        Built (.declarations body) w s.nextId s'.nextId := by
  refine (ih.declaration s).bind fun first u s₁ => ?_
  refine (hrest s₁).bind fun body v s₂ => Yields.ret ?_
  rintro hbody ⟨x, rfl, hx⟩
  refine ⟨?_, ⟨hx.limits, hbody.limits⟩, ⟨hx.nearest, hbody.nearest⟩, ?_⟩
  · simpa using .declarations hx.derives hbody.derives
  · simpa [Phrase.references, Stmt.listReferences] using hx.drawn.append hbody.drawn

theorem declarations_sound {depth : Nat} (ih : StatementsSound depth) :
    Builds (declarations (depth + 1)) .declarations := by
  intro s
  rw [Parsing.declarations]
  refine Yields.untilBrace (Yields.ret ?_) (Yields.declarations ih ih.declarations s)
  exact ⟨.noDeclarations, trivial, trivial, Drawn.nil (Nat.le_refl _)⟩

theorem Yields.loopCondition {β : Type} {Q : β → List Token → State → Prop} {depth : Nat}
    {kind : Kind} {f : Expr → Parser β} {s : State}
    (hf : ∀ e u s₁, Yields (f e) s₁ fun x w s' => ∀ c : Option Expr,
      e = c.getD (.literal (.boolean true)) → Built (.optional c) u s.nextId s₁.nextId →
        Q x (u ++ w) s') :
    Yields (do if ← Parsing.check kind then f (← pure (.literal (.boolean true))) else
      f (← expression depth)) s Q := by
  refine Yields.unless (P := fun e w s' => ∃ c : Option Expr,
    e = c.getD (.literal (.boolean true)) ∧ Built (.optional c) w s.nextId s'.nextId) ?_ ?_ ?_
  · exact ⟨none, rfl, .absent, trivial, trivial, Drawn.nil (Nat.le_refl _)⟩
  · refine ((expressionsSound depth).expression s).imp fun e w s' he => ?_
    exact ⟨some e, rfl, .present he.derives, he.limits, trivial, he.drawn⟩
  · intro e u s₁
    refine (hf e u s₁).imp ?_
    rintro x w s' h ⟨c, hc, hb⟩
    exact h c hc hb

theorem Built.ifAlone {word left right : Token} {c : Expr} {t : Stmt} {u v : List Token}
    {lo mid hi : Nat} (hword : word.kind = .keyword .ifWord) (hleft : left.kind = .mark .leftParen)
    (hc : Built (.expression c) u lo mid) (hright : right.kind = .mark .rightParen)
    (ht : Built (.statement t) v mid hi) :
    Built (.statement (.branch c t none)) (word :: left :: (u ++ right :: v)) lo hi := by
  refine ⟨.ifAlone hword hleft hc.derives hright ht.derives, ⟨hc.limits, ht.limits⟩, ht.nearest, ?_⟩
  simpa [Phrase.references, Stmt.references] using hc.drawn.append ht.drawn

/-- The `else` belongs to this `if` when no nearer one was left open before it. -/
theorem Built.ifElse {word left right other : Token} {c : Expr} {t e : Stmt} {u v w : List Token}
    {lo mid next hi : Nat} (hword : word.kind = .keyword .ifWord)
    (hleft : left.kind = .mark .leftParen) (hc : Built (.expression c) u lo mid)
    (hright : right.kind = .mark .rightParen) (ht : Built (.statement t) v mid next)
    (hopen : t.endsOpen = false) (hother : other.kind = .keyword .elseWord)
    (he : Built (.statement e) w next hi) :
    Built (.statement (.branch c t (some e))) (word :: left :: (u ++ right :: (v ++ other :: w)))
      lo hi := by
  refine ⟨.ifElse hword hleft hc.derives hright ht.derives hother he.derives,
    ⟨hc.limits, ht.limits, he.limits⟩, ⟨ht.nearest, hopen, he.nearest⟩, ?_⟩
  simpa [Phrase.references, Stmt.references] using (hc.drawn.append ht.drawn).append he.drawn

theorem Built.whileLoop {word left right : Token} {c : Expr} {b : Stmt} {u v : List Token}
    {lo mid hi : Nat} (hword : word.kind = .keyword .whileWord)
    (hleft : left.kind = .mark .leftParen) (hc : Built (.expression c) u lo mid)
    (hright : right.kind = .mark .rightParen) (hb : Built (.statement b) v mid hi) :
    Built (.statement (.loop none c none b)) (word :: left :: (u ++ right :: v)) lo hi := by
  refine ⟨.whileLoop hword hleft hc.derives hright hb.derives, ⟨hc.limits, trivial, hb.limits⟩,
    hb.nearest, ?_⟩
  simpa [Phrase.references, Stmt.references] using hc.drawn.append hb.drawn

theorem Built.forLoop {word left semicolon right : Token} {i : Option Stmt} {c n : Option Expr}
    {b : Stmt} {u v w x : List Token} {lo first second third hi : Nat}
    (hword : word.kind = .keyword .forWord) (hleft : left.kind = .mark .leftParen)
    (hinit : Built (.initializer i) u lo first) (hc : Built (.optional c) v first second)
    (hsemicolon : semicolon.kind = .mark .semicolon) (hn : Built (.optional n) w second third)
    (hright : right.kind = .mark .rightParen) (hb : Built (.statement b) x third hi) :
    Built (.statement (.loop i (c.getD (.literal (.boolean true))) (n.map .expression) b))
      (word :: left :: (u ++ (v ++ semicolon :: (w ++ right :: x)))) lo hi := by
  have hlimits : (c.getD (.literal (.boolean true))).WithinLimits := by
    cases c with
    | none => trivial
    | some e => exact hc.limits
  have hrefs : (c.getD (.literal (.boolean true))).references = Expr.optionReferences c := by
    cases c <;> rfl
  have hincrement : Stmt.OptionWithinLimits (n.map .expression) := by
    cases n with
    | none => trivial
    | some e => exact hn.limits
  have hdrawn := ((hinit.drawn.append hc.drawn).append hn.drawn).append hb.drawn
  refine ⟨.forLoop hword hleft hinit.derives hc.derives hsemicolon hn.derives hright hb.derives, ?_,
    hb.nearest, ?_⟩
  · cases i with
    | none => exact ⟨hlimits, hincrement, hb.limits⟩
    | some i => exact ⟨hinit.limits, hlimits, hincrement, hb.limits⟩
  · cases i <;> simpa [Phrase.references, Stmt.references, hrefs] using hdrawn

theorem statement_sound {depth : Nat} (ih : StatementsSound depth) (s : State) :
    Yields (statement (depth + 1)) s fun v w s' =>
      Built (.statement v) w s.nextId s'.nextId ∧
        (v.endsOpen = true → s'.current.kind ≠ .keyword .elseWord) := by
  rw [statement]
  refine Yields.current ?_
  -- The keyword of the statement decides, and each case reads one rule off.
  split
  · rename_i hk
    refine Yields.advance (by simp [hk]) fun s₁ hid => Yields.expect (by simp) ?_
    intro left s₂ hleft hid₂
    refine (forInitializer_sound depth s₂).bind fun i u s₃ => ?_
    refine Yields.loopCondition fun condition v s₄ => Yields.expect (by simp) ?_
    intro semicolon s₅ hsemicolon hid₅
    refine Yields.optional fun n w s₆ => Yields.expect (by simp) fun right s₇ hright hid₇ => ?_
    refine (ih.statement s₇).bind fun b x s₈ => Yields.ret ?_
    rintro ⟨hb, hopen⟩ hn c rfl hc hi
    refine ⟨?_, hopen⟩
    have hloop := Built.forLoop hk hleft hi hc hsemicolon (hid₅ ▸ hn) hright (hid₇ ▸ hb)
    simpa [hid, hid₂] using hloop
  · rename_i hk
    refine Yields.advance (by simp [hk]) fun s₁ hid => Yields.expect (by simp) ?_
    intro left s₂ hleft hid₂
    refine ((expressionsSound depth).expression s₂).bind fun c u s₃ => Yields.expect (by simp) ?_
    intro right s₄ hright hid₄
    refine (ih.statement s₄).bind fun t v s₅ => Yields.accept (by simp) ?_ ?_
    · intro other s₆ hother hid₆
      refine (ih.statement s₆).bind fun e w s₇ => Yields.ret ?_
      rintro ⟨he, hopen⟩ hcurrent ⟨ht, hclosed⟩ hc
      refine ⟨?_, hopen⟩
      -- The `else` was there to be taken, so the branch in front of it did not end open.
      have hend : t.endsOpen = false := by
        cases h : t.endsOpen with
        | false => rfl
        | true => exact absurd hcurrent (hclosed h)
      have hif := Built.ifElse hk hleft hc hright (hid₄ ▸ ht) hend hother (hid₆ ▸ he)
      simpa [hid, hid₂] using hif
    · intro hcurrent
      refine Yields.ret ?_
      rintro ⟨ht, -⟩ hc
      refine ⟨?_, fun _ => hcurrent⟩
      have hif := Built.ifAlone hk hleft hc hright (hid₄ ▸ ht)
      simpa [hid, hid₂] using hif
  · rename_i hk
    refine Yields.advance (by simp [hk]) fun s₁ hid => Yields.expect (by simp) ?_
    intro left s₂ hleft hid₂
    refine ((expressionsSound depth).expression s₂).bind fun c u s₃ => Yields.expect (by simp) ?_
    intro right s₄ hright hid₄
    refine (ih.statement s₄).bind fun b v s₅ => Yields.ret ?_
    rintro ⟨hb, hopen⟩ hc
    refine ⟨?_, hopen⟩
    have hloop := Built.whileLoop hk hleft hc hright (hid₄ ▸ hb)
    simpa [hid, hid₂] using hloop
  · rename_i hk
    refine Yields.advance (by simp [hk]) fun s₁ hid => ?_
    refine (returnStatement_sound depth s.current hk s₁).imp fun v w s' h => ?_
    obtain ⟨hclosed, hb⟩ := h
    exact ⟨hid ▸ hb, by simp [hclosed]⟩
  · rename_i hk
    refine Yields.advance (by simp [hk]) fun s₁ hid => Yields.expect (by simp) ?_
    intro semicolon s₂ hsemicolon hid₂
    refine Yields.ret ⟨⟨.breakLoop hk hsemicolon, trivial, trivial, ?_⟩, by simp [Stmt.endsOpen]⟩
    exact Drawn.nil (by simp [hid, hid₂])
  · rename_i hk
    refine Yields.advance (by simp [hk]) fun s₁ hid => Yields.expect (by simp) ?_
    intro semicolon s₂ hsemicolon hid₂
    refine Yields.ret ⟨⟨.continueLoop hk hsemicolon, trivial, trivial, ?_⟩, by simp [Stmt.endsOpen]⟩
    exact Drawn.nil (by simp [hid, hid₂])
  · rename_i hk
    refine Yields.advance (by simp [hk]) fun s₁ hid => ?_
    refine (ih.block s₁).bind fun body w s₂ => Yields.ret ?_
    intro hbody
    obtain ⟨hd, hl, hn, hr⟩ := hbody s.current hk
    refine ⟨⟨?_, hl, hn, by rw [← hid]; exact hr⟩, by simp [Stmt.endsOpen]⟩
    simpa using .ofBlock hd
  · rename_i hk
    refine Yields.advance (by simp [hk]) fun s₁ hid => ?_
    refine (printStatement_sound depth s₁).imp fun v w s' h => ?_
    obtain ⟨hclosed, hb⟩ := h
    exact ⟨hid ▸ hb s.current hk, by simp [hclosed]⟩
  · refine (expressionStatement_sound depth s).imp fun v w s' h => ?_
    refine ⟨⟨.ofExpression h.derives, h.limits, h.nearest, h.drawn⟩, ?_⟩
    cases h.derives
    simp [Stmt.endsOpen]

theorem statementsSound (depth : Nat) : StatementsSound depth := by
  induction depth with
  | zero =>
    exact
      { declaration := fun _ => Yields.outOfDepth
        classDeclaration := fun _ => Yields.outOfDepth
        methods := fun _ => Yields.outOfDepth
        function := fun _ _ => Yields.outOfDepth
        block := fun _ => Yields.outOfDepth
        declarations := fun _ => Yields.outOfDepth
        statement := fun _ => Yields.outOfDepth }
  | succ depth ih =>
    exact
      { declaration := declaration_sound ih
        classDeclaration := classDeclaration_sound ih
        methods := methods_sound ih
        function := function_sound ih
        block := block_sound ih
        declarations := declarations_sound ih
        statement := statement_sound ih }

theorem program_sound (depth : Nat) (s : State) :
    Yields (program depth) s fun body w s' =>
      Built (.declarations body) w s.nextId s'.nextId ∧ s'.current.kind = .endOfInput := by
  induction depth generalizing s with
  | zero => exact Yields.outOfDepth
  | succ depth ih =>
    rw [program]
    refine Yields.atEnd ?_
    split
    · rename_i hend
      refine Yields.ret ⟨⟨.noDeclarations, trivial, trivial, Drawn.nil (Nat.le_refl _)⟩, ?_⟩
      simpa using hend
    · refine ((statementsSound depth).declaration s).bind fun first u s₁ => ?_
      refine (ih s₁).bind fun body v s₂ => Yields.ret ?_
      rintro ⟨hbody, hend⟩ ⟨x, rfl, hx⟩
      refine ⟨⟨?_, ⟨hx.limits, hbody.limits⟩, ⟨hx.nearest, hbody.nearest⟩, ?_⟩, hend⟩
      · simpa using .declarations hx.derives hbody.derives
      · simpa [Phrase.references, Stmt.listReferences] using hx.drawn.append hbody.drawn

theorem Yields.outcome_grows {α : Type} {p : Parser α} {s : State}
    {Q : α → List Token → State → Prop} (h : Yields p s Q) (hs : s.Ended) :
    s.nextId ≤ (outcome s.nextId (p s)).2 := by
  have h := h hs
  cases hp : p s with
  | parsed v s' =>
    rw [hp] at h
    exact h.1.drawn
  | failed t cause s' =>
    rw [hp] at h
    exact State.Leads.drawn h
  | exhausted => exact Nat.le_refl _

theorem Yields.of_outcome {α : Type} {p : Parser α} {s : State}
    {Q : α → List Token → State → Prop} (h : Yields p s Q) (hs : s.Ended) {v : α} {next : ReferenceId}
    (hv : outcome s.nextId (p s) = (.ok v, next)) :
    ∃ s' w, p s = .parsed v s' ∧ s'.Ended ∧ s'.nextId = next ∧ s.rest = w ++ s'.rest ∧ Q v w s' := by
  have h := h hs
  cases hp : p s with
  | parsed x s' =>
    simp only [hp, outcome, Prod.mk.injEq] at hv h
    obtain ⟨hx, hnext⟩ := hv
    split at hx
    · rename_i hrep
      cases hx
      obtain ⟨hs', hrest⟩ := h
      obtain ⟨-, w, hw, hQ⟩ := hrest (by simpa using hrep)
      exact ⟨s', w, rfl, hs'.ended, hnext, hw, hQ⟩
    · cases hx
  | failed t cause s' => simp [hp, outcome] at hv
  | exhausted => simp [hp, outcome] at hv

end Parsing

section Programs

variable {n next : ReferenceId} {tokens body : List Token} {last : Token}

theorem Parsing.State.start_ended (hlast : last.kind = .endOfInput) :
    (State.start n (body ++ [last])).Ended := ⟨body, last, rfl, hlast⟩

theorem Program.ofTokens_grows (hlast : last.kind = .endOfInput) :
    n ≤ (Program.ofTokens n (body ++ [last])).2 :=
  (Parsing.program_sound _ _).outcome_grows (Parsing.State.start_ended hlast)

/-- The tree of an accepted program comes with a derivation of the tokens up to an end of the input. -/
theorem Program.ofTokens_built {P : Program} (hlast : last.kind = .endOfInput)
    (hP : Program.ofTokens n (body ++ [last]) = (.ok P, next)) :
    ∃ w t rest, body ++ [last] = w ++ t :: rest ∧ t.kind = .endOfInput ∧
      Built (.declarations P) w n next := by
  have hs : (Parsing.State.start n (body ++ [last])).Ended := Parsing.State.start_ended hlast
  obtain ⟨s', w, -, hs', rfl, hw, hbuilt, hend⟩ :=
    (Parsing.program_sound _ _).of_outcome hs hP
  exact ⟨w, s'.current, s'.rest.tail, hw.trans (congrArg _ hs'.cons), hend, hbuilt⟩

theorem Program.ofTokens_sound {P : Program} (hlast : last.kind = .endOfInput)
    (honly : ∀ t ∈ body, t.kind ≠ .endOfInput)
    (hP : Program.ofTokens n (body ++ [last]) = (.ok P, next)) :
    Built (.declarations P) body n next := by
  obtain ⟨w, t, rest, htokens, ht, hbuilt⟩ := Program.ofTokens_built hlast hP
  have hprefix : w = body := by
    rcases List.append_eq_append_iff.mp htokens with ⟨u, rfl, hu⟩ | ⟨u, rfl, hu⟩
    · cases u with
      | nil => simp
      | cons x u => simp at hu
    · cases u with
      | nil => simp
      | cons x u =>
        simp only [List.cons_append, List.cons.injEq] at hu
        exact absurd ht (honly t (by simp [hu.1]))
  exact hprefix ▸ hbuilt

end Programs

end LoxLang
