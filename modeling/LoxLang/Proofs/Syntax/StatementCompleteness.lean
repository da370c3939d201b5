import LoxLang.Proofs.Syntax.ExpressionCompleteness
import LoxLang.Proofs.Syntax.StatementSoundness

set_option autoImplicit false

namespace LoxLang

theorem Derives.nearest_initializer {i : Option Stmt} {w : List Token}
    (h : Derives (.initializer i) w) : (Phrase.initializer i).NearestElse := by
  cases h with
  | noInitializer => trivial
  | variableInitializer h => cases h <;> trivial
  | expressionInitializer h =>
    cases h
    trivial

namespace Parsing

theorem accepts_present {e : Expr} {w : List Token} (hb : Begins Kind.opensExpression w)
    (h : Accepted (.expression e) w) : Accepted (.optional (some e)) w := ⟨hb, h⟩

theorem Takes.optional {β : Type} {Q : β → Prop} {depth : Nat} {f : Option Expr → Parser β}
    {s : State} {e : Option Expr} {w : List Token} {t : Token} {rest after : List Token} {kind : Kind}
    {limit : Nat} (he : Accepted (.optional e) w) (hd : 11 + 16 * w.length ≤ depth) (hs : s.rest = w ++ t :: rest)
    (hk : t.kind = kind) (hopens : kind.opensExpression = false) (hbinding : kind.binding = 0)
    (hf : ∀ v s₁, s₁.rest = t :: rest → v.map Expr.anonymous = e.map Expr.anonymous →
      Takes limit (f v) s₁ Q after) :
    Takes limit (do if ← Parsing.check kind then f (← pure none) else
      f (← some <$> expression depth)) s Q after := by
  cases e with
  | none =>
    cases he
    exact Takes.absent hs hk (hf none s hs rfl)
  | some e =>
    obtain ⟨⟨first, w, rfl, hfirst⟩, he⟩ := he
    have hne : first.kind ≠ kind := by
      rintro rfl
      simp [hopens] at hfirst
    refine Takes.present hs hne ?_
    have hread : Takes 0 (some <$> expression depth) s
        (·.map Expr.anonymous = some e.anonymous) (t :: rest) :=
      ((he.takes hd hs (by simp [hk, hbinding])).imp fun x hx => by simp [hx]).map
    exact hread.bind hf

theorem Takes.loopCondition {β : Type} {Q : β → Prop} {depth : Nat} {f : Expr → Parser β}
    {s : State} {e : Option Expr} {w : List Token} {t : Token} {rest after : List Token} {kind : Kind}
    {limit : Nat} (he : Accepted (.optional e) w) (hd : 11 + 16 * w.length ≤ depth) (hs : s.rest = w ++ t :: rest)
    (hk : t.kind = kind) (hopens : kind.opensExpression = false) (hbinding : kind.binding = 0)
    (hf : ∀ v s₁, s₁.rest = t :: rest →
      v.anonymous = (e.getD (.literal (.boolean true))).anonymous → Takes limit (f v) s₁ Q after) :
    Takes limit (do if ← Parsing.check kind then f (← pure (.literal (.boolean true))) else
      f (← expression depth)) s Q after := by
  cases e with
  | none =>
    cases he
    exact Takes.absent hs hk (hf _ s hs rfl)
  | some e =>
    obtain ⟨⟨first, w, rfl, hfirst⟩, he⟩ := he
    have hne : first.kind ≠ kind := by
      rintro rfl
      simp [hopens] at hfirst
    refine Takes.present hs hne ?_
    exact (he.takes hd hs (by simp [hk, hbinding])).bind hf

theorem reads_expressionStatement {limit : Nat} {semicolon : Token} {w : List Token}
    {P : Expr → Prop} {Q : Stmt → Prop} (he : Reads limit expression 11 (·.binding < 1) P w)
    (hsemicolon : semicolon.kind = .mark .semicolon) (hQ : ∀ e, P e → Q (.expression e)) :
    Reads limit expressionStatement 11 (fun _ => True) Q (w ++ [semicolon]) := by
  refine ⟨fun {depth} {s} {t} {rest} hd hs _ => ?_⟩
  simp only [List.length_append, List.length_cons] at hd
  simp only [List.append_assoc, List.cons_append, List.nil_append] at hs
  rw [expressionStatement]
  refine (he.takes (by omega) hs (by simp [hsemicolon, Kind.binding])).before fun v s₁ hs₁ hv => ?_
  exact Takes.expect hs₁ hsemicolon fun s₂ hs₂ => Takes.ret hs₂ (hQ v hv)

theorem accepts_expressionStatement {semicolon : Token} {e : Expr} {w : List Token}
    (he : Accepted (.expression e) w) (hsemicolon : semicolon.kind = .mark .semicolon) :
    Accepted (.expressionStatement (.expression e)) (w ++ [semicolon]) :=
  reads_expressionStatement he hsemicolon fun v hv => by simp [Stmt.anonymous, hv]

theorem accepts_unsetVariable {word name semicolon : Token} (hword : word.kind = .keyword .varWord)
    (hname : name.kind = .identifier) (hsemicolon : semicolon.kind = .mark .semicolon) :
    Accepted (.variable (.declareVar name none)) [word, name, semicolon] := by
  refine ⟨word, [name, semicolon], rfl, hword, ⟨fun {depth} {s} {t} {rest} _ hs _ => ?_⟩⟩
  rw [variableDeclaration]
  refine Takes.expect hs hname fun s₁ hs₁ => Takes.refuse hs₁ (by simp [hsemicolon]) ?_
  exact Takes.expect hs₁ hsemicolon fun s₂ hs₂ => Takes.ret hs₂ rfl

theorem reads_setVariable {limit : Nat} {name equal semicolon : Token} {w : List Token}
    {P : Expr → Prop} {Q : Stmt → Prop} (hname : name.kind = .identifier)
    (hequal : equal.kind = .mark .equal) (he : Reads limit expression 11 (·.binding < 1) P w)
    (hsemicolon : semicolon.kind = .mark .semicolon) (hQ : ∀ e, P e → Q (.declareVar name (some e))) :
    Reads limit variableDeclaration 11 (fun _ => True) Q (name :: equal :: (w ++ [semicolon])) := by
  refine ⟨fun {depth} {s} {t} {rest} hd hs _ => ?_⟩
  simp only [List.length_append, List.length_cons] at hd
  simp only [List.append_assoc, List.cons_append, List.nil_append] at hs
  rw [variableDeclaration]
  refine Takes.expect hs hname fun s₁ hs₁ => Takes.accept hs₁ hequal fun s₂ hs₂ => ?_
  refine (he.takes (by omega) hs₂ (by simp [hsemicolon, Kind.binding])).before fun v s₃ hs₃ hv => ?_
  exact Takes.expect hs₃ hsemicolon fun s₄ hs₄ => Takes.ret hs₄ (hQ v hv)

theorem accepts_setVariable {word name equal semicolon : Token} {e : Expr} {w : List Token}
    (hword : word.kind = .keyword .varWord) (hname : name.kind = .identifier)
    (hequal : equal.kind = .mark .equal) (he : Accepted (.expression e) w)
    (hsemicolon : semicolon.kind = .mark .semicolon) :
    Accepted (.variable (.declareVar name (some e)))
      (word :: name :: equal :: (w ++ [semicolon])) :=
  ⟨word, _, rfl, hword, reads_setVariable hname hequal he hsemicolon fun v hv => by
    simp [Stmt.anonymous, hv]⟩

theorem accepts_noInitializer {semicolon : Token} (hsemicolon : semicolon.kind = .mark .semicolon) :
    Accepted (.initializer none) [semicolon] := by
  refine ⟨fun {depth} {s} {t} {rest} _ hs _ => ?_⟩
  rw [forInitializer]
  exact Takes.accept hs hsemicolon fun s₁ hs₁ => Takes.ret hs₁ rfl

theorem accepts_variableInitializer {x : Stmt} {w : List Token} (h : Accepted (.variable x) w) :
    Accepted (.initializer (some x)) w := by
  obtain ⟨word, w, rfl, hword, h⟩ := h
  refine ⟨fun {depth} {s} {t} {rest} hd hs _ => ?_⟩
  simp only [List.length_cons] at hd
  rw [forInitializer]
  refine Takes.refuse hs (by simp [hword]) (Takes.accept hs hword fun s₁ hs₁ => ?_)
  refine (h.takes (by omega) hs₁ trivial).bind fun v s₂ hs₂ hv => Takes.ret hs₂ ?_
  simp [hv]

theorem accepts_expressionInitializer {x : Stmt} {w : List Token}
    (hb : Begins Kind.opensExpression w) (h : Accepted (.expressionStatement x) w) :
    Accepted (.initializer (some x)) w := by
  refine ⟨fun {depth} {s} {t} {rest} hd hs _ => ?_⟩
  obtain ⟨first, w, rfl, hfirst⟩ := hb
  have hsemicolon : first.kind ≠ .mark .semicolon := by
    rintro hk
    simp [hk, Kind.opensExpression, Kind.opensPrimary] at hfirst
  have hvar : first.kind ≠ .keyword .varWord := by
    rintro hk
    simp [hk, Kind.opensExpression, Kind.opensPrimary] at hfirst
  rw [forInitializer]
  refine Takes.refuse hs hsemicolon (Takes.refuse hs hvar ?_)
  refine (h.takes hd hs trivial).bind fun v s₁ hs₁ hv => Takes.ret hs₁ ?_
  simp [hv]

theorem accepts_parameters {names w : List Token} (hb : Begins (BEq.beq .identifier) w)
    (hlen : names.length ≤ argumentLimit) (h : Accepted (.parameters names) w) :
    Accepted (.parameterList names) w :=
  .inr ⟨hb, h 0 (by omega)⟩

theorem accepts_lastParameter {name : Token} (hname : name.kind = .identifier) :
    Accepted (.parameters [name]) [name] := by
  intro count hcount
  refine Reads.of_succ ?_ fun depth s t rest _ hs ht => ?_
  · simp
  have hlimit : ¬argumentLimit ≤ count := by
    simp at hcount
    omega
  rw [Parsing.parameters]
  simp only [hlimit, if_false]
  refine Takes.expect hs hname fun s₁ hs₁ => ?_
  exact Takes.refuse hs₁ (by simp [ht]) (Takes.ret hs₁ rfl)

theorem accepts_parameter {name comma : Token} {names w : List Token}
    (hname : name.kind = .identifier) (hcomma : comma.kind = .mark .comma)
    (h : Accepted (.parameters names) w) :
    Accepted (.parameters (name :: names)) (name :: comma :: w) := by
  intro count hcount
  simp only [List.length_cons] at hcount
  refine Reads.of_succ ?_ fun depth s t rest hd hs ht => ?_
  · simp
  have hlimit : ¬argumentLimit ≤ count := by omega
  simp only [List.length_cons] at hd
  rw [Parsing.parameters]
  simp only [hlimit, if_false]
  refine Takes.expect hs hname fun s₁ hs₁ => Takes.accept hs₁ hcomma fun s₂ hs₂ => ?_
  refine ((h (count + 1) (by omega)).takes (by omega) hs₂ ht).bind fun v s₃ hs₃ hv => ?_
  exact Takes.ret hs₃ (by simp [hv])

theorem reads_function {limit : Nat} {name left right brace : Token} {names : List Token}
    {u v : List Token} {P : List Stmt → Prop} {Q : Declaration → Prop} {kind : FunctionKind}
    (hname : name.kind = .identifier) (hleft : left.kind = .mark .leftParen)
    (hnames : Accepted (.parameterList names) u) (hright : right.kind = .mark .rightParen)
    (hbrace : brace.kind = .mark .leftBrace) (hbody : Reads limit block 15 (fun _ => True) P v)
    (hQ : ∀ body, P body → Q (.mk name names body)) :
    Reads limit (function · kind) 0 (fun _ => True) Q (name :: left :: (u ++ right :: brace :: v)) := by
  refine Reads.of_succ ?_ fun depth s t rest hd hs _ => ?_
  · simp
  simp only [List.length_append, List.length_cons] at hd
  simp only [List.append_assoc, List.cons_append] at hs
  rw [Parsing.function]
  refine Takes.expect hs hname fun s₁ hs₁ => Takes.expect hs₁ hleft fun s₂ hs₂ => ?_
  have hclose : ∀ s₃ : State, s₃.rest = right :: brace :: (v ++ t :: rest) →
      Takes limit (do
        let _ ← expect (.mark .rightParen) .parameterListEnd
        let _ ← expect (.mark .leftBrace) (.functionBody kind)
        return Declaration.mk name names (← block depth)) s₃ Q (t :: rest) := by
    intro s₃ hs₃
    refine Takes.expect hs₃ hright fun s₄ hs₄ => Takes.expect hs₄ hbrace fun s₅ hs₅ => ?_
    exact ((hbody.takes (by omega) hs₅ trivial).imp hQ).map
  rcases hnames with ⟨rfl, rfl⟩ | ⟨⟨first, u, rfl, hfirst⟩, hnames⟩
  · exact Takes.absent hs₂ hright (hclose s₂ hs₂)
  · have hne : first.kind ≠ .mark .rightParen := by
      rintro hk
      simp [hk] at hfirst
    refine Takes.present hs₂ hne ?_
    refine (hnames.takes (by omega) hs₂ hright).bind fun v s₃ hs₃ hv => ?_
    subst hv
    exact hclose s₃ hs₃

theorem accepts_function {name left right : Token} {names : List Token} {body : List Stmt}
    {u v : List Token} (hname : name.kind = .identifier) (hleft : left.kind = .mark .leftParen)
    (hnames : Accepted (.parameterList names) u) (hright : right.kind = .mark .rightParen)
    (hbody : Accepted (.block body) v) :
    Accepted (.function (.mk name names body)) (name :: left :: (u ++ right :: v)) := by
  intro kind
  obtain ⟨brace, v, rfl, hbrace, hbody⟩ := hbody
  exact reads_function hname hleft hnames hright hbrace hbody fun x hx => by
    simp [Declaration.anonymous, hx]

theorem accepts_noMethods : Accepted (.methods []) [] := by
  refine Reads.of_succ ?_ fun depth s t rest _ hs ht => ?_
  · simp
  rw [Parsing.methods]
  refine Takes.check (Takes.atEnd ?_)
  simp only [State.current_of_rest hs, ht]
  exact Takes.ret hs rfl

theorem reads_methods {first second : Nat} {u v : List Token} {P : Declaration → Prop}
    {P' Q : List Declaration → Prop} (hb : Begins (BEq.beq .identifier) u)
    (hd : Reads first (function · .method) 0 (fun _ => True) P u)
    (hrest : Reads second methods 1 (· = .mark .rightBrace) P' v)
    (hQ : ∀ d ds, P d → P' ds → Q (d :: ds)) :
    Reads (first + second) methods 1 (· = .mark .rightBrace) Q (u ++ v) := by
  refine Reads.of_succ ?_ fun depth s t after hdepth hs ht => ?_
  · omega
  obtain ⟨name, u, rfl, hname⟩ := hb
  simp only [beq_iff_eq] at hname
  simp only [List.length_append, List.length_cons] at hdepth
  simp only [List.append_assoc] at hs
  rw [Parsing.methods]
  refine Takes.check (Takes.atEnd ?_)
  simp only [State.current_of_rest hs, ← hname]
  obtain ⟨next, w, hw⟩ : ∃ next w, v ++ t :: after = next :: w := by
    cases v <;> simp
  refine (hd.takes (by simp; omega) (hw ▸ hs) trivial).both fun x s₁ hs₁ hx => ?_
  exact ((hrest.takes (by omega) (hs₁.trans hw.symm) ht).imp fun xs hxs => hQ x xs hx hxs).map

theorem accepts_methods {d : Declaration} {rest : List Declaration} {u v : List Token}
    (hb : Begins (BEq.beq .identifier) u) (hd : Accepted (.function d) u)
    (hrest : Accepted (.methods rest) v) : Accepted (.methods (d :: rest)) (u ++ v) :=
  reads_methods hb (hd .method) hrest fun x xs hx hxs => by simp [Declaration.allAnonymous, hx, hxs]

theorem reads_baseClass {limit : Nat} {word name left right : Token} {w : List Token}
    {stops : Kind → Prop} {P : List Declaration → Prop} {Q : Option Stmt → Prop}
    (hword : word.kind = .keyword .classWord) (hname : name.kind = .identifier)
    (hleft : left.kind = .mark .leftBrace) (hds : Reads limit methods 1 (· = .mark .rightBrace) P w)
    (hright : right.kind = .mark .rightBrace) (hQ : ∀ ds, P ds → Q (some (.declareClass name none ds))) :
    Reads limit declaration 13 stops Q (word :: name :: left :: (w ++ [right])) := by
  refine Reads.of_succ ?_ fun depth s t rest hd hs _ => ?_
  · omega
  simp only [List.length_append, List.length_cons] at hd
  simp only [List.append_assoc, List.cons_append, List.nil_append] at hs
  rw [Parsing.declaration]
  refine Takes.recover (P := fun x => Q (some x)) (Takes.current ?_) fun _ hx => hx
  rw [State.current_of_rest hs, hword]
  refine Takes.advance hs (by simp [hword]) fun s₁ hs₁ => ?_
  cases depth with
  | zero => omega
  | succ depth =>
    rw [classDeclaration]
    refine Takes.expect hs₁ hname fun s₂ hs₂ => Takes.refuse hs₂ (by simp [hleft]) ?_
    refine Takes.expect hs₂ hleft fun s₃ hs₃ => ?_
    refine (hds.takes (by omega) hs₃ hright).before fun v s₄ hs₄ hv => ?_
    exact Takes.expect hs₄ hright fun s₅ hs₅ => Takes.ret hs₅ (hQ v hv)

theorem accepts_baseClass {word name left right : Token} {ds : List Declaration} {w : List Token}
    (hword : word.kind = .keyword .classWord) (hname : name.kind = .identifier)
    (hleft : left.kind = .mark .leftBrace) (hds : Accepted (.methods ds) w)
    (hright : right.kind = .mark .rightBrace) :
    Accepted (.declaration (.declareClass name none ds))
      (word :: name :: left :: (w ++ [right])) :=
  reads_baseClass hword hname hleft hds hright fun v hv => ⟨_, rfl, by simp [Stmt.anonymous, hv]⟩

theorem reads_derivedClass {limit : Nat} {word name less base left right : Token} {w : List Token}
    {stops : Kind → Prop} {P : List Declaration → Prop} {Q : Option Stmt → Prop}
    (hword : word.kind = .keyword .classWord) (hname : name.kind = .identifier)
    (hless : less.kind = .mark .less) (hbase : base.kind = .identifier)
    (hleft : left.kind = .mark .leftBrace) (hds : Reads limit methods 1 (· = .mark .rightBrace) P w)
    (hright : right.kind = .mark .rightBrace)
    (hQ : ∀ id ds, P ds → Q (some (.declareClass name (some ⟨id, base⟩) ds))) :
    Reads limit declaration 13 stops Q (word :: name :: less :: base :: left :: (w ++ [right])) := by
  refine Reads.of_succ ?_ fun depth s t rest hd hs _ => ?_
  · omega
  simp only [List.length_append, List.length_cons] at hd
  simp only [List.append_assoc, List.cons_append, List.nil_append] at hs
  rw [Parsing.declaration]
  refine Takes.recover (P := fun x => Q (some x)) (Takes.current ?_) fun _ hx => hx
  rw [State.current_of_rest hs, hword]
  refine Takes.advance hs (by simp [hword]) fun s₁ hs₁ => ?_
  cases depth with
  | zero => omega
  | succ depth =>
    rw [classDeclaration]
    refine Takes.expect hs₁ hname fun s₂ hs₂ => Takes.accept hs₂ hless fun s₃ hs₃ => ?_
    refine Takes.expect hs₃ hbase fun s₄ hs₄ => Takes.reference hs₄ fun id s₅ hs₅ => ?_
    refine Takes.expect hs₅ hleft fun s₆ hs₆ => ?_
    refine (hds.takes (by omega) hs₆ hright).before fun v s₇ hs₇ hv => ?_
    exact Takes.expect hs₇ hright fun s₈ hs₈ => Takes.ret hs₈ (hQ id v hv)

theorem accepts_derivedClass {word name less base left right : Token} {id : ReferenceId}
    {ds : List Declaration} {w : List Token} (hword : word.kind = .keyword .classWord)
    (hname : name.kind = .identifier) (hless : less.kind = .mark .less)
    (hbase : base.kind = .identifier) (hleft : left.kind = .mark .leftBrace)
    (hds : Accepted (.methods ds) w) (hright : right.kind = .mark .rightBrace) :
    Accepted (.declaration (.declareClass name (some ⟨id, base⟩) ds))
      (word :: name :: less :: base :: left :: (w ++ [right])) :=
  reads_derivedClass hword hname hless hbase hleft hds hright fun id' v hv =>
    ⟨_, rfl, by simp [Stmt.anonymous, Reference.anonymous, hv]⟩

theorem reads_functionDeclaration {limit : Nat} {word : Token} {w : List Token} {stops : Kind → Prop}
    {P : Declaration → Prop} {Q : Option Stmt → Prop} (hword : word.kind = .keyword .funWord)
    (hd : Reads limit (function · .function) 0 (fun _ => True) P w)
    (hQ : ∀ d, P d → Q (some (.declareFunction d))) : Reads limit declaration 13 stops Q (word :: w) := by
  refine Reads.of_succ ?_ fun depth s t rest hdepth hs _ => ?_
  · omega
  simp only [List.length_cons] at hdepth
  rw [Parsing.declaration]
  refine Takes.recover (P := fun x => Q (some x)) (Takes.current ?_) fun _ hx => hx
  rw [State.current_of_rest hs, hword]
  refine Takes.advance hs (by simp [hword]) fun s₁ hs₁ => ?_
  have hread : Takes limit (function depth .function) s₁ P (t :: rest) := hd.takes (by omega) hs₁ trivial
  exact hread.before fun d s₂ hs₂ hd => Takes.ret hs₂ (hQ d hd)

theorem accepts_functionDeclaration {word : Token} {d : Declaration} {w : List Token}
    (hword : word.kind = .keyword .funWord) (hd : Accepted (.function d) w) :
    Accepted (.declaration (.declareFunction d)) (word :: w) :=
  reads_functionDeclaration hword (hd .function) fun v hv => ⟨_, rfl, by simp [Stmt.anonymous, hv]⟩

theorem reads_variableDeclaration {limit : Nat} {word : Token} {w : List Token} {stops : Kind → Prop}
    {P : Stmt → Prop} {Q : Option Stmt → Prop} (hword : word.kind = .keyword .varWord)
    (h : Reads limit variableDeclaration 11 (fun _ => True) P w) (hQ : ∀ x, P x → Q (some x)) :
    Reads limit declaration 13 stops Q (word :: w) := by
  refine Reads.of_succ ?_ fun depth s t rest hd hs _ => ?_
  · omega
  simp only [List.length_cons] at hd
  rw [Parsing.declaration]
  refine Takes.recover (Takes.current ?_) hQ
  rw [State.current_of_rest hs, hword]
  exact Takes.advance hs (by simp [hword]) fun s₁ hs₁ => h.takes (by omega) hs₁ trivial

theorem accepts_variableDeclaration {x : Stmt} {w : List Token} (h : Accepted (.variable x) w) :
    Accepted (.declaration x) w := by
  obtain ⟨word, w, rfl, hword, h⟩ := h
  exact reads_variableDeclaration hword h fun y hy => ⟨y, rfl, hy⟩

theorem reads_statementDeclaration {limit : Nat} {w : List Token} {stops : Kind → Prop}
    {P : Stmt → Prop} {Q : Option Stmt → Prop} (hb : Begins Kind.opensStatement w)
    (h : Reads limit statement 12 stops P w) (hQ : ∀ x, P x → Q (some x)) :
    Reads limit declaration 13 stops Q w := by
  refine Reads.of_succ ?_ fun depth s t rest hd hs ht => ?_
  · omega
  have hread : Takes limit (statement depth) s P (t :: rest) := h.takes (by omega) hs ht
  obtain ⟨first, w, rfl, hfirst⟩ := hb
  rw [Parsing.declaration]
  refine Takes.recover (Takes.current ?_) hQ
  rw [State.current_of_rest hs]
  split
  · rename_i hk
    simp [hk, Kind.opensStatement, Kind.opensExpression, Kind.opensPrimary] at hfirst
  · rename_i hk
    simp [hk, Kind.opensStatement, Kind.opensExpression, Kind.opensPrimary] at hfirst
  · rename_i hk
    simp [hk, Kind.opensStatement, Kind.opensExpression, Kind.opensPrimary] at hfirst
  · exact hread

theorem accepts_statementDeclaration {x : Stmt} {w : List Token} (hb : Begins Kind.opensStatement w)
    (h : Accepted (.statement x) w) : Accepted (.declaration x) w :=
  reads_statementDeclaration hb h fun y hy => ⟨y, rfl, hy⟩

theorem accepts_noDeclarations : Accepted (.declarations []) [] := by
  refine Reads.of_succ ?_ fun depth s t rest _ hs ht => ?_
  · simp
  rw [Parsing.declarations]
  refine Takes.check (Takes.atEnd ?_)
  simp only [State.current_of_rest hs, ht]
  exact Takes.ret hs rfl

theorem exists_next {body : List Stmt} {v : List Token} {t : Token} (h : Derives (.declarations body) v)
    (ht : t.kind ≠ .keyword .elseWord) (rest : List Token) :
    ∃ next w, v ++ t :: rest = next :: w ∧ next.kind ≠ .keyword .elseWord := by
  cases h with
  | noDeclarations => exact ⟨t, rest, rfl, ht⟩
  | declarations hs _ =>
    obtain ⟨next, u, rfl, hnext⟩ := hs.beginsWell
    exact ⟨next, _, rfl, (Kind.ne_of_opensDeclaration hnext).2.2⟩

theorem reads_declarations {first second : Nat} {u v : List Token} {stops : Kind → Prop}
    {P : Option Stmt → Prop} {P' Q : List Stmt → Prop} (hb : Begins Kind.opensDeclaration u)
    (hx : Reads first declaration 13 stops P u)
    (hnext : ∀ t rest, t.kind = .mark .rightBrace →
      ∃ next w, v ++ t :: rest = next :: w ∧ stops next.kind)
    (hbody : Reads second declarations 14 (· = .mark .rightBrace) P' v)
    (hQ : ∀ x xs, P x → P' xs → Q (x.toList ++ xs)) :
    Reads (first + second) declarations 14 (· = .mark .rightBrace) Q (u ++ v) := by
  refine Reads.of_succ ?_ fun depth s t rest hd hs ht => ?_
  · omega
  have hpos := hb.length_pos
  simp only [List.length_append] at hd
  simp only [List.append_assoc] at hs
  obtain ⟨next, w, hw, hstops⟩ := hnext t rest ht
  have hread : Takes first (declaration depth) s P (next :: w) := hx.takes (by omega) (hw ▸ hs) hstops
  obtain ⟨opening, u, rfl, hopening⟩ := hb
  obtain ⟨hbrace, hend, -⟩ := Kind.ne_of_opensDeclaration hopening
  rw [Parsing.declarations]
  refine Takes.check (Takes.atEnd ?_)
  simp only [State.current_of_rest hs, hbrace, hend]
  refine hread.both fun x s₁ hs₁ hx => ?_
  exact ((hbody.takes (by omega) (hs₁.trans hw.symm) ht).imp fun xs hxs => hQ x xs hx hxs).map

theorem accepts_declarations {x : Stmt} {body : List Stmt} {u v : List Token}
    (hb : Begins Kind.opensDeclaration u) (hx : Accepted (.declaration x) u)
    (hv : Derives (.declarations body) v) (hbody : Accepted (.declarations body) v) :
    Accepted (.declarations (x :: body)) (u ++ v) := by
  refine reads_declarations hb hx (fun t rest ht => ?_) hbody ?_
  · obtain ⟨next, w, hw, hnext⟩ := exists_next hv (t := t) (by simp [ht]) rest
    exact ⟨next, w, hw, fun _ => hnext⟩
  · rintro _ ys ⟨y, rfl, hy⟩ hys
    simp [Stmt.allAnonymous, hy, hys]

theorem reads_block {limit : Nat} {right : Token} {w : List Token} {Q : List Stmt → Prop}
    (hbody : Reads limit declarations 14 (· = .mark .rightBrace) Q w)
    (hright : right.kind = .mark .rightBrace) :
    Reads limit block 15 (fun _ => True) Q (w ++ [right]) := by
  refine Reads.of_succ ?_ fun depth s t rest hd hs _ => ?_
  · omega
  simp only [List.length_append, List.length_cons] at hd
  simp only [List.append_assoc, List.cons_append, List.nil_append] at hs
  rw [Parsing.block]
  refine (hbody.takes (by omega) hs hright).before fun v s₁ hs₁ hv => ?_
  exact Takes.expect hs₁ hright fun s₂ hs₂ => Takes.ret hs₂ hv

theorem accepts_block {left right : Token} {body : List Stmt} {w : List Token}
    (hleft : left.kind = .mark .leftBrace) (hbody : Accepted (.declarations body) w)
    (hright : right.kind = .mark .rightBrace) :
    Accepted (.block body) (left :: (w ++ [right])) :=
  ⟨left, _, rfl, hleft, reads_block hbody hright⟩

theorem reads_ofExpression {limit : Nat} {w : List Token} {stops : Kind → Prop} {Q : Stmt → Prop}
    (hb : Begins Kind.opensExpression w) (h : Reads limit expressionStatement 11 (fun _ => True) Q w) :
    Reads limit statement 12 stops Q w := by
  refine Reads.of_succ ?_ fun depth s t rest hd hs ht => ?_
  · omega
  have hread : Takes limit (expressionStatement depth) s Q (t :: rest) := h.takes (by omega) hs trivial
  obtain ⟨first, w, rfl, hfirst⟩ := hb
  rw [Parsing.statement]
  refine Takes.current ?_
  rw [State.current_of_rest hs]
  split
  case h_9 => exact hread
  all_goals
    rename_i hk
    simp [hk, Kind.opensExpression, Kind.opensPrimary] at hfirst

theorem accepts_ofExpression {x : Stmt} {w : List Token} (hb : Begins Kind.opensExpression w)
    (h : Accepted (.expressionStatement x) w) : Accepted (.statement x) w := reads_ofExpression hb h

theorem reads_forLoop {limit : Nat} {word left semicolon right : Token} {i : Option Stmt}
    {c n : Option Expr} {u v w x : List Token} {stops : Kind → Prop} {P Q : Stmt → Prop}
    (hword : word.kind = .keyword .forWord) (hleft : left.kind = .mark .leftParen)
    (hi : Accepted (.initializer i) u) (hc : Accepted (.optional c) v)
    (hsemicolon : semicolon.kind = .mark .semicolon) (hn : Accepted (.optional n) w)
    (hright : right.kind = .mark .rightParen) (hb : Reads limit statement 12 stops P x)
    (hQ : ∀ (i' : Option Stmt) (c' : Expr) (n' : Option Expr) (b' : Stmt),
      i'.map Stmt.anonymous = i.map Stmt.anonymous →
      c'.anonymous = (c.getD (.literal (.boolean true))).anonymous →
      n'.map Expr.anonymous = n.map Expr.anonymous → P b' → Q (.loop i' c' (n'.map .expression) b')) :
    Reads limit statement 12 stops Q
      (word :: left :: (u ++ (v ++ semicolon :: (w ++ right :: x)))) := by
  refine Reads.of_succ ?_ fun depth s t rest hd hs ht => ?_
  · omega
  simp only [List.length_append, List.length_cons] at hd
  simp only [List.append_assoc, List.cons_append] at hs
  rw [Parsing.statement]
  refine Takes.current ?_
  rw [State.current_of_rest hs, hword]
  refine Takes.advance hs (by simp [hword]) fun s₁ hs₁ => Takes.expect hs₁ hleft fun s₂ hs₂ => ?_
  obtain ⟨next, z, hz⟩ : ∃ next z, v ++ semicolon :: (w ++ right :: (x ++ t :: rest)) = next :: z := by
    cases v <;> simp
  refine (hi.takes (by omega) (hz ▸ hs₂) trivial).bind fun i' s₃ hs₃ hi' => ?_
  refine Takes.loopCondition hc (by omega) (hs₃.trans hz.symm) hsemicolon rfl rfl ?_
  intro c' s₄ hs₄ hc'
  refine Takes.expect hs₄ hsemicolon fun s₅ hs₅ => ?_
  refine Takes.optional hn (by omega) hs₅ hright rfl rfl fun n' s₆ hs₆ hn' => ?_
  refine Takes.expect hs₆ hright fun s₇ hs₇ => ?_
  exact ((hb.takes (by omega) hs₇ ht).imp fun b' hb' => hQ i' c' n' b' hi' hc' hn' hb').map

theorem accepts_forLoop {word left semicolon right : Token} {i : Option Stmt} {c n : Option Expr}
    {b : Stmt} {u v w x : List Token} (hword : word.kind = .keyword .forWord)
    (hleft : left.kind = .mark .leftParen) (hi : Accepted (.initializer i) u)
    (hc : Accepted (.optional c) v) (hsemicolon : semicolon.kind = .mark .semicolon)
    (hn : Accepted (.optional n) w) (hright : right.kind = .mark .rightParen)
    (hb : Accepted (.statement b) x) :
    Accepted (.statement (.loop i (c.getD (.literal (.boolean true))) (n.map .expression) b))
      (word :: left :: (u ++ (v ++ semicolon :: (w ++ right :: x)))) := by
  refine reads_forLoop hword hleft hi hc hsemicolon hn hright hb fun i' c' n' b' hi' hc' hn' hb' => ?_
  have hincrement : Stmt.optionAnonymous (n'.map .expression) =
      Stmt.optionAnonymous (n.map .expression) := by
    cases n <;> cases n' <;> simp_all [Stmt.optionAnonymous, Stmt.anonymous]
  cases i <;> cases i' <;> simp_all [Stmt.anonymous]

theorem reads_ifAlone {limit : Nat} {word left right : Token} {c : Expr} {u v : List Token}
    {stops : Kind → Prop} {P Q : Stmt → Prop} (hword : word.kind = .keyword .ifWord)
    (hleft : left.kind = .mark .leftParen) (hc : Accepted (.expression c) u)
    (hright : right.kind = .mark .rightParen) (hx : Reads limit statement 12 stops P v)
    (helse : ∀ kind, stops kind → kind ≠ .keyword .elseWord)
    (hQ : ∀ (c' : Expr) (x' : Stmt), c'.anonymous = c.anonymous → P x' → Q (.branch c' x' none)) :
    Reads limit statement 12 stops Q (word :: left :: (u ++ right :: v)) := by
  refine Reads.of_succ ?_ fun depth s t rest hd hs ht => ?_
  · omega
  simp only [List.length_append, List.length_cons] at hd
  simp only [List.append_assoc, List.cons_append] at hs
  rw [Parsing.statement]
  refine Takes.current ?_
  rw [State.current_of_rest hs, hword]
  refine Takes.advance hs (by simp [hword]) fun s₁ hs₁ => Takes.expect hs₁ hleft fun s₂ hs₂ => ?_
  refine (hc.takes (by omega) hs₂ (by simp [hright, Kind.binding])).bind fun c' s₃ hs₃ hc' => ?_
  refine Takes.expect hs₃ hright fun s₄ hs₄ => ?_
  refine (hx.takes (by omega) hs₄ ht).before fun x' s₅ hs₅ hx' => ?_
  exact Takes.refuse hs₅ (helse _ ht) (Takes.ret hs₅ (hQ c' x' hc' hx'))

theorem accepts_ifAlone {word left right : Token} {c : Expr} {x : Stmt} {u v : List Token}
    (hword : word.kind = .keyword .ifWord) (hleft : left.kind = .mark .leftParen)
    (hc : Accepted (.expression c) u) (hright : right.kind = .mark .rightParen)
    (hx : Accepted (.statement x) v) :
    Accepted (.statement (.branch c x none)) (word :: left :: (u ++ right :: v)) :=
  reads_ifAlone hword hleft hc hright ⟨fun hd hs ht => hx.takes hd hs fun _ => ht rfl⟩ (fun _ ht => ht rfl)
    fun c' x' hc' hx' => by simp [Stmt.anonymous, hc', hx']

theorem reads_ifElse {first second : Nat} {word left right other : Token} {c : Expr}
    {u v w : List Token} {stops stops' : Kind → Prop} {P P' Q : Stmt → Prop}
    (hword : word.kind = .keyword .ifWord) (hleft : left.kind = .mark .leftParen)
    (hc : Accepted (.expression c) u) (hright : right.kind = .mark .rightParen)
    (hx : Reads first statement 12 stops P v) (hstops : stops (.keyword .elseWord))
    (hother : other.kind = .keyword .elseWord) (hy : Reads second statement 12 stops' P' w)
    (hQ : ∀ (c' : Expr) (x' y' : Stmt), c'.anonymous = c.anonymous → P x' → P' y' →
      Q (.branch c' x' (some y'))) :
    Reads (first + second) statement 12 stops' Q
      (word :: left :: (u ++ right :: (v ++ other :: w))) := by
  refine Reads.of_succ ?_ fun depth s t rest hd hs ht => ?_
  · omega
  simp only [List.length_append, List.length_cons] at hd
  simp only [List.append_assoc, List.cons_append] at hs
  rw [Parsing.statement]
  refine Takes.current ?_
  rw [State.current_of_rest hs, hword]
  refine Takes.advance hs (by simp [hword]) fun s₁ hs₁ => Takes.expect hs₁ hleft fun s₂ hs₂ => ?_
  refine (hc.takes (by omega) hs₂ (by simp [hright, Kind.binding])).bind fun c' s₃ hs₃ hc' => ?_
  refine Takes.expect hs₃ hright fun s₄ hs₄ => ?_
  refine (hx.takes (by omega) hs₄ (hother ▸ hstops)).both fun x' s₅ hs₅ hx' => ?_
  refine Takes.accept hs₅ hother fun s₆ hs₆ => ?_
  exact ((hy.takes (by omega) hs₆ ht).imp fun y' hy' => hQ c' x' y' hc' hx' hy').map

theorem accepts_ifElse {word left right other : Token} {c : Expr} {x y : Stmt} {u v w : List Token}
    (hword : word.kind = .keyword .ifWord) (hleft : left.kind = .mark .leftParen)
    (hc : Accepted (.expression c) u) (hright : right.kind = .mark .rightParen)
    (hx : Accepted (.statement x) v) (hclosed : x.endsOpen = false)
    (hother : other.kind = .keyword .elseWord) (hy : Accepted (.statement y) w) :
    Accepted (.statement (.branch c x (some y)))
      (word :: left :: (u ++ right :: (v ++ other :: w))) :=
  reads_ifElse hword hleft hc hright hx (by simp [hclosed]) hother hy
    fun c' x' y' hc' hx' hy' => by simp [Stmt.anonymous, hc', hx', hy']

theorem reads_whileLoop {limit : Nat} {word left right : Token} {c : Expr} {u v : List Token}
    {stops : Kind → Prop} {P Q : Stmt → Prop} (hword : word.kind = .keyword .whileWord)
    (hleft : left.kind = .mark .leftParen) (hc : Accepted (.expression c) u)
    (hright : right.kind = .mark .rightParen) (hb : Reads limit statement 12 stops P v)
    (hQ : ∀ (c' : Expr) (b' : Stmt), c'.anonymous = c.anonymous → P b' → Q (.loop none c' none b')) :
    Reads limit statement 12 stops Q (word :: left :: (u ++ right :: v)) := by
  refine Reads.of_succ ?_ fun depth s t rest hd hs ht => ?_
  · omega
  simp only [List.length_append, List.length_cons] at hd
  simp only [List.append_assoc, List.cons_append] at hs
  rw [Parsing.statement]
  refine Takes.current ?_
  rw [State.current_of_rest hs, hword]
  refine Takes.advance hs (by simp [hword]) fun s₁ hs₁ => Takes.expect hs₁ hleft fun s₂ hs₂ => ?_
  refine (hc.takes (by omega) hs₂ (by simp [hright, Kind.binding])).bind fun c' s₃ hs₃ hc' => ?_
  refine Takes.expect hs₃ hright fun s₄ hs₄ => ?_
  exact ((hb.takes (by omega) hs₄ ht).imp fun b' hb' => hQ c' b' hc' hb').map

theorem accepts_whileLoop {word left right : Token} {c : Expr} {b : Stmt} {u v : List Token}
    (hword : word.kind = .keyword .whileWord) (hleft : left.kind = .mark .leftParen)
    (hc : Accepted (.expression c) u) (hright : right.kind = .mark .rightParen)
    (hb : Accepted (.statement b) v) :
    Accepted (.statement (.loop none c none b)) (word :: left :: (u ++ right :: v)) :=
  reads_whileLoop hword hleft hc hright hb fun c' b' hc' hb' => by simp [Stmt.anonymous, hc', hb']

theorem reads_print {limit : Nat} {word semicolon : Token} {w : List Token} {stops : Kind → Prop}
    {P : Expr → Prop} {Q : Stmt → Prop} (hword : word.kind = .keyword .printWord)
    (he : Reads limit expression 11 (·.binding < 1) P w) (hsemicolon : semicolon.kind = .mark .semicolon)
    (hQ : ∀ e, P e → Q (.print e)) : Reads limit statement 12 stops Q (word :: (w ++ [semicolon])) := by
  refine Reads.of_succ ?_ fun depth s t rest hd hs _ => ?_
  · omega
  simp only [List.length_append, List.length_cons] at hd
  simp only [List.append_assoc, List.cons_append, List.nil_append] at hs
  rw [Parsing.statement]
  refine Takes.current ?_
  rw [State.current_of_rest hs, hword]
  refine Takes.advance hs (by simp [hword]) fun s₁ hs₁ => ?_
  rw [printStatement]
  refine (he.takes (by omega) hs₁ (by simp [hsemicolon, Kind.binding])).before fun v s₂ hs₂ hv => ?_
  exact Takes.expect hs₂ hsemicolon fun s₃ hs₃ => Takes.ret hs₃ (hQ v hv)

theorem accepts_print {word semicolon : Token} {e : Expr} {w : List Token}
    (hword : word.kind = .keyword .printWord) (he : Accepted (.expression e) w)
    (hsemicolon : semicolon.kind = .mark .semicolon) :
    Accepted (.statement (.print e)) (word :: (w ++ [semicolon])) :=
  reads_print hword he hsemicolon fun v hv => by simp [Stmt.anonymous, hv]

theorem reads_returnWith {limit : Nat} {word semicolon : Token} {w : List Token} {stops : Kind → Prop}
    {P : Option Expr → Prop} {Q : Stmt → Prop} (hword : word.kind = .keyword .returnWord)
    (he : w = [] ∧ P none ∨ Begins Kind.opensExpression w ∧
      Reads limit expression 11 (·.binding < 1) (fun e => P (some e)) w)
    (hsemicolon : semicolon.kind = .mark .semicolon) (hQ : ∀ e, P e → Q (.returnWith word e)) :
    Reads limit statement 12 stops Q (word :: (w ++ [semicolon])) := by
  refine Reads.of_succ ?_ fun depth s t rest hd hs _ => ?_
  · omega
  simp only [List.length_append, List.length_cons] at hd
  simp only [List.append_assoc, List.cons_append, List.nil_append] at hs
  rw [Parsing.statement]
  refine Takes.current ?_
  rw [State.current_of_rest hs, hword]
  refine Takes.advance hs (by simp [hword]) fun s₁ hs₁ => ?_
  rw [returnStatement]
  rcases he with ⟨rfl, hnone⟩ | ⟨⟨first, w, rfl, hfirst⟩, he⟩
  · refine Takes.absent hs₁ hsemicolon ?_
    exact Takes.expect hs₁ hsemicolon fun s₂ hs₂ => Takes.ret hs₂ (hQ none hnone)
  · have hne : first.kind ≠ .mark .semicolon := by
      intro hk
      simp [hk, Kind.opensExpression, Kind.opensPrimary] at hfirst
    refine Takes.present hs₁ hne ?_
    have hread : Takes limit (some <$> expression depth) s₁ P (semicolon :: t :: rest) :=
      (he.takes (by omega) hs₁ (by simp [hsemicolon, Kind.binding])).map
    refine hread.before fun v s₂ hs₂ hv => ?_
    exact Takes.expect hs₂ hsemicolon fun s₃ hs₃ => Takes.ret hs₃ (hQ v hv)

theorem accepts_returnWith {word semicolon : Token} {e : Option Expr} {w : List Token}
    (hword : word.kind = .keyword .returnWord) (he : Accepted (.optional e) w)
    (hsemicolon : semicolon.kind = .mark .semicolon) :
    Accepted (.statement (.returnWith word e)) (word :: (w ++ [semicolon])) := by
  refine reads_returnWith (P := fun v => v.map Expr.anonymous = e.map Expr.anonymous) hword ?_ hsemicolon
    fun v hv => by simp [Stmt.anonymous, hv]
  cases e with
  | none => exact .inl ⟨he, rfl⟩
  | some e => exact .inr ⟨he.1, ⟨fun hd hs ht => (he.2.takes hd hs ht).imp fun x hx => by simp [hx]⟩⟩

theorem accepts_breakLoop {word semicolon : Token} (hword : word.kind = .keyword .breakWord)
    (hsemicolon : semicolon.kind = .mark .semicolon) :
    Accepted (.statement (.breakLoop word)) [word, semicolon] := by
  refine Reads.of_succ ?_ fun depth s t rest _ hs _ => ?_
  · omega
  rw [Parsing.statement]
  refine Takes.current ?_
  rw [State.current_of_rest hs, hword]
  refine Takes.advance hs (by simp [hword]) fun s₁ hs₁ => ?_
  exact Takes.expect hs₁ hsemicolon fun s₂ hs₂ => Takes.ret hs₂ rfl

theorem accepts_continueLoop {word semicolon : Token} (hword : word.kind = .keyword .continueWord)
    (hsemicolon : semicolon.kind = .mark .semicolon) :
    Accepted (.statement (.continueLoop word)) [word, semicolon] := by
  refine Reads.of_succ ?_ fun depth s t rest _ hs _ => ?_
  · omega
  rw [Parsing.statement]
  refine Takes.current ?_
  rw [State.current_of_rest hs, hword]
  refine Takes.advance hs (by simp [hword]) fun s₁ hs₁ => ?_
  exact Takes.expect hs₁ hsemicolon fun s₂ hs₂ => Takes.ret hs₂ rfl

theorem reads_ofBlock {limit : Nat} {left : Token} {w : List Token} {stops : Kind → Prop}
    {P : List Stmt → Prop} {Q : Stmt → Prop} (hleft : left.kind = .mark .leftBrace)
    (h : Reads limit block 15 (fun _ => True) P w) (hQ : ∀ body, P body → Q (.block body)) :
    Reads limit statement 12 stops Q (left :: w) := by
  refine Reads.of_succ ?_ fun depth s t rest hd hs _ => ?_
  · omega
  simp only [List.length_cons] at hd
  rw [Parsing.statement]
  refine Takes.current ?_
  rw [State.current_of_rest hs, hleft]
  refine Takes.advance hs (by simp [hleft]) fun s₁ hs₁ => ?_
  exact ((h.takes (by omega) hs₁ trivial).imp hQ).map

theorem accepts_ofBlock {body : List Stmt} {w : List Token} (h : Accepted (.block body) w) :
    Accepted (.statement (.block body)) w := by
  obtain ⟨left, w, rfl, hleft, h⟩ := h
  exact reads_ofBlock hleft h fun v hv => by simp [Stmt.anonymous, hv]

/-- Every phrase is accepted, given that its lists are short and its `else`s are near. -/
theorem accepts_of_derives {ph : Phrase} {w : List Token} (h : Derives ph w) :
    ph.WithinLimits → ph.NearestElse → Accepted ph w := by
  -- On the derivation: each rule has a lemma, and the two conditions go down to its parts.
  induction h with
  | noDeclarations => exact fun _ _ => accepts_noDeclarations
  | declarations hx hbody ihx ihbody =>
    exact fun hl hn => accepts_declarations hx.beginsWell (ihx hl.1 hn.1) hbody (ihbody hl.2 hn.2)
  | baseClass hword hname hleft _ hright ih =>
    exact fun hl hn => accepts_baseClass hword hname hleft (ih hl hn) hright
  | derivedClass hword hname hless hbase hleft _ hright ih =>
    exact fun hl hn => accepts_derivedClass hword hname hless hbase hleft (ih hl hn) hright
  | functionDeclaration hword _ ih =>
    exact fun hl hn => accepts_functionDeclaration hword (ih hl hn)
  | variableDeclaration _ ih => exact fun hl hn => accepts_variableDeclaration (ih hl hn)
  | statementDeclaration h ih =>
    exact fun hl hn => accepts_statementDeclaration h.beginsWell (ih hl hn)
  | unsetVariable hword hname hsemicolon =>
    exact fun _ _ => accepts_unsetVariable hword hname hsemicolon
  | setVariable hword hname hequal _ hsemicolon ih =>
    exact fun hl _ => accepts_setVariable hword hname hequal (ih hl trivial) hsemicolon
  | ofExpression h ih => exact fun hl hn => accepts_ofExpression h.beginsWell (ih hl hn)
  | @forLoop _ _ _ _ i c n b _ _ _ _ hword hleft hi _ hsemicolon _ hright _ ihi ihc ihn ihb =>
    intro hl hn
    -- Any of the clauses may be missing, so the condition comes apart by cases.
    obtain ⟨hli, hlc, hln, hlb⟩ : (Phrase.initializer i).WithinLimits ∧
        (Phrase.optional c).WithinLimits ∧ (Phrase.optional n).WithinLimits ∧ b.WithinLimits := by
      cases i <;> cases c <;> cases n <;> simp_all [Phrase.WithinLimits, Stmt.WithinLimits,
        Expr.OptionWithinLimits, Stmt.OptionWithinLimits]
    exact accepts_forLoop hword hleft (ihi hli hi.nearest_initializer) (ihc hlc trivial)
      hsemicolon (ihn hln trivial) hright (ihb hlb hn)
  | ifAlone hword hleft _ hright _ ihc iht =>
    exact fun hl hn => accepts_ifAlone hword hleft (ihc hl.1 trivial) hright (iht hl.2 hn)
  | ifElse hword hleft _ hright _ hother _ ihc iht ihe =>
    exact fun hl hn => accepts_ifElse hword hleft (ihc hl.1 trivial) hright (iht hl.2.1 hn.1)
      hn.2.1 hother (ihe hl.2.2 hn.2.2)
  | whileLoop hword hleft _ hright _ ihc ihb =>
    exact fun hl hn => accepts_whileLoop hword hleft (ihc hl.1 trivial) hright (ihb hl.2.2 hn)
  | print hword _ hsemicolon ih =>
    exact fun hl _ => accepts_print hword (ih hl trivial) hsemicolon
  | returnWith hword _ hsemicolon ih =>
    exact fun hl _ => accepts_returnWith hword (ih hl trivial) hsemicolon
  | breakLoop hword hsemicolon => exact fun _ _ => accepts_breakLoop hword hsemicolon
  | continueLoop hword hsemicolon => exact fun _ _ => accepts_continueLoop hword hsemicolon
  | ofBlock _ ih => exact fun hl hn => accepts_ofBlock (ih hl hn)
  | expressionStatement _ hsemicolon ih =>
    exact fun hl _ => accepts_expressionStatement (ih hl trivial) hsemicolon
  | noInitializer hsemicolon => exact fun _ _ => accepts_noInitializer hsemicolon
  | variableInitializer _ ih => exact fun hl hn => accepts_variableInitializer (ih hl hn)
  | expressionInitializer h ih =>
    exact fun hl hn => accepts_expressionInitializer h.beginsWell (ih hl hn)
  | block hleft _ hright ih => exact fun hl hn => accepts_block hleft (ih hl hn) hright
  | noMethods => exact fun _ _ => accepts_noMethods
  | methods hd _ ihd ihrest =>
    exact fun hl hn => accepts_methods hd.beginsWell (ihd hl.1 hn.1) (ihrest hl.2 hn.2)
  | function hname hleft _ hright _ ihnames ihbody =>
    exact fun hl hn => accepts_function hname hleft (ihnames hl.1 trivial) hright (ihbody hl.2 hn)
  | noParameters => exact fun _ _ => .inl ⟨rfl, rfl⟩
  | parameters h ih => exact fun hl hn => accepts_parameters h.beginsWell hl (ih hl hn)
  | lastParameter hname => exact fun _ _ => accepts_lastParameter hname
  | parameter hname hcomma _ ih =>
    exact fun hl hn => accepts_parameter hname hcomma (ih (Nat.le_of_succ_le hl) hn)
  | absent => exact fun _ _ => rfl
  | present h ih => exact fun hl hn => accepts_present h.beginsWell (ih hl hn)
  | ofConditional _ ih => exact fun hl hn => accepts_ofConditional (ih hl hn)
  | assignVariable hname hequal _ ih =>
    exact fun hl hn => accepts_assignVariable hname hequal (ih hl hn)
  | assignProperty ho hdot hname hequal _ iho ihe =>
    exact fun hl _ => accepts_assignProperty ho.beginsWell (iho hl.1 trivial) hdot hname hequal
      (ihe hl.2 trivial)
  | ofOperation _ ih => exact fun hl hn => accepts_ofOperation (ih hl hn)
  | shortConditional _ hquestion hcolon _ ihc ihe =>
    exact fun hl _ => accepts_shortConditional (ihc hl.1 trivial) hquestion hcolon
      (ihe hl.2 trivial)
  | fullConditional _ hquestion ht hcolon _ ihc iht ihe =>
    exact fun hl _ => accepts_fullConditional (ihc hl.1 trivial) hquestion ht.beginsWell
      (iht hl.2.1 trivial) hcolon (ihe hl.2.2 trivial)
  | @ofOperand tier e w _ ih =>
    intro hl _
    refine accepts_ofOperand tier (ih ?_ ?_)
    · cases tier <;> exact hl
    · cases tier <;> trivial
  | @operation tier operator l r u v _ ho _ ihl ihr =>
    intro hl _
    have hlr : l.WithinLimits ∧ r.WithinLimits := by cases tier <;> exact hl
    refine accepts_operation (ihl hlr.1 trivial) ho (ihr ?_ ?_)
    · cases tier <;> exact hlr.2
    · cases tier <;> trivial
  | signed ho _ ih => exact fun hl _ => accepts_signed ho (ih hl trivial)
  | ofCall h ih => exact fun hl hn => accepts_ofCall h.beginsWell (ih hl hn)
  | ofPrimary _ ih => exact fun hl hn => accepts_ofPrimary (ih hl hn)
  | call _ hleft _ hright ihf ihes =>
    exact fun hl _ => accepts_call (ihf hl.1 trivial) hleft (ihes hl.2 trivial) hright
  | get _ hdot hname ih => exact fun hl _ => accepts_get (ih hl trivial) hdot hname
  | noArguments => exact fun _ _ => .inl ⟨rfl, rfl⟩
  | arguments h ih => exact fun hl hn => accepts_arguments h.beginsWell hl.1 (ih hl hn)
  | lastArgument _ ih => exact fun hl _ => accepts_lastArgument (ih hl.2.1 trivial)
  | argument _ hcomma _ ihe ihes =>
    exact fun hl _ => accepts_argument (ihe hl.2.1 trivial) hcomma
      (ihes ⟨Nat.le_of_succ_le hl.1, hl.2.2⟩ trivial)
  | falseLiteral hk => exact fun _ _ => accepts_literal (.falseLiteral hk)
  | trueLiteral hk => exact fun _ _ => accepts_literal (.trueLiteral hk)
  | nilLiteral hk => exact fun _ _ => accepts_literal (.nilLiteral hk)
  | number hk => exact fun _ _ => accepts_literal (.number hk)
  | string hk => exact fun _ _ => accepts_literal (.string hk)
  | receiver hk => exact fun _ _ => accepts_receiver hk
  | named hk => exact fun _ _ => accepts_named hk
  | superMethod hk hdot hmethod => exact fun _ _ => accepts_superMethod hk hdot hmethod
  | grouping hleft _ hright ih => exact fun hl _ => accepts_grouping hleft (ih hl trivial) hright

theorem reads_noProgram : Reads 0 program 14 (· = .endOfInput) (· = []) [] := by
  refine Reads.of_succ ?_ fun depth s t rest _ hs ht => ?_
  · simp
  rw [program]
  refine Takes.atEnd ?_
  simp only [State.current_of_rest hs, ht]
  exact Takes.ret hs rfl

theorem reads_program {first second : Nat} {u v : List Token} {stops : Kind → Prop}
    {P : Option Stmt → Prop} {P' Q : List Stmt → Prop} (hb : Begins Kind.opensDeclaration u)
    (hx : Reads first declaration 13 stops P u)
    (hnext : ∀ t rest, t.kind = .endOfInput → ∃ next w, v ++ t :: rest = next :: w ∧ stops next.kind)
    (hbody : Reads second program 14 (· = .endOfInput) P' v)
    (hQ : ∀ x xs, P x → P' xs → Q (x.toList ++ xs)) :
    Reads (first + second) program 14 (· = .endOfInput) Q (u ++ v) := by
  have hpos := hb.length_pos
  refine Reads.of_succ ?_ fun depth s t rest hd hs ht => ?_
  · omega
  simp only [List.length_append] at hd
  simp only [List.append_assoc] at hs
  obtain ⟨next, w, hw, hstops⟩ := hnext t rest ht
  have hread : Takes first (declaration depth) s P (next :: w) := hx.takes (by omega) (hw ▸ hs) hstops
  obtain ⟨opening, u, rfl, hopening⟩ := hb
  rw [program]
  refine Takes.atEnd ?_
  simp only [State.current_of_rest hs, (Kind.ne_of_opensDeclaration hopening).2.1]
  refine hread.both fun x s₁ hs₁ hx => ?_
  exact ((hbody.takes (by omega) (hs₁.trans hw.symm) ht).imp fun xs hxs => hQ x xs hx hxs).map

theorem accepts_program {body : List Stmt} {w : List Token} (h : Derives (.declarations body) w)
    (hl : Stmt.AllWithinLimits body) (hn : Stmt.AllNearestElse body) :
    Reads 0 program 14 (· = .endOfInput) (fun v => Stmt.allAnonymous v = Stmt.allAnonymous body) w := by
  induction body generalizing w with
  | nil =>
    cases h
    exact ⟨fun hd hs ht => (reads_noProgram.takes hd hs ht).imp fun v hv => by rw [hv]⟩
  | cons x body ih =>
    cases h with
    | @declarations _ _ u v hx hbody =>
      refine reads_program hx.beginsWell (accepts_of_derives hx hl.1 hn.1) (fun t rest ht => ?_)
        (ih hbody hl.2 hn.2) ?_
      · obtain ⟨next, w, hw, hnext⟩ := exists_next hbody (t := t) (by simp [ht]) rest
        exact ⟨next, w, hw, fun _ => hnext⟩
      · rintro _ ys ⟨y, rfl, hy⟩ hys
        simp [Stmt.allAnonymous, hy, hys]

end Parsing

/-- A program that the grammar derives with short lists and near `else`s is accepted, with that very
tree but for the identities in it. -/
theorem Program.ofTokens_complete {n : ReferenceId} {body : List Token} {last : Token} {T : Program}
    (hlast : last.kind = .endOfInput) (h : Derives (.declarations T) body)
    (hl : Stmt.AllWithinLimits T) (hn : Stmt.AllNearestElse T) :
    ∃ P, (Program.ofTokens n (body ++ [last])).1 = .ok P ∧
      Stmt.allAnonymous P = Stmt.allAnonymous T := by
  have hdepth : 14 + 16 * body.length ≤ Parsing.depthFor (body ++ [last]) := by
    simp [Parsing.depthFor]
    omega
  have hrest : (Parsing.State.start n (body ++ [last])).rest = body ++ last :: [] := rfl
  obtain ⟨P, s', hP, -, hrep, hsame⟩ :=
    ((Parsing.accepts_program h hl hn).takes hdepth hrest hlast).silent
  refine ⟨P, ?_, hsame⟩
  rw [Program.ofTokens, hP, Parsing.outcome, hrep]
  rfl

end LoxLang
