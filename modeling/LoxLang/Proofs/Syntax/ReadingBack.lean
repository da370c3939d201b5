import LoxLang.Proofs.Syntax.Legibility

set_option autoImplicit false

namespace LoxLang

open Nested

/-- A name that is read back from its lexeme, as a name and as a variable. -/
structure Token.Readable (t : Token) : Prop where
  clear : IsWord t.lexeme
  name : Token.ofName t.lexeme = t.relabel .blank
  word : Expr.ofWord t.lexeme = .variable ⟨0, t.relabel .blank⟩

theorem Token.Legible.readable {t : Token} (h : t.Legible) (hkind : t.kind = .identifier) :
    t.Readable := by
  have hother := h.identifier hkind
  have hthis : t.lexeme ≠ "this" := hother .thisWord
  refine ⟨h.isWord_name hkind, Token.ofName_lexeme hkind, ?_⟩
  rw [Expr.ofWord_word (h.word hkind) ⟨hother .trueWord, hother .falseWord, hother .nilWord⟩, if_neg hthis,
    Token.ofName_lexeme hkind]

structure Expr.Readable (e : Expr) : Prop where
  clear : e.outline.Clear
  back : e.outline.expr = e.relabel .blank

structure Expr.AllReadable (es : List Expr) : Prop where
  clear : AllClear (Expr.outlines es)
  back : exprs (Expr.outlines es) = Expr.relabelAll .blank es

namespace Expr

variable {e l r c t : Expr} {name : Token} {id : ReferenceId}

theorem readable_literal {v : Literal} (h : v.IsClear) : (Expr.literal v).Readable :=
  ⟨isWord_literal h, by rw [outline, Nested.expr, ofWord_literal h, relabel]⟩

theorem readable_variable (h : name.Readable) : (Expr.variable ⟨id, name⟩).Readable :=
  ⟨h.clear, by rw [outline, Nested.expr, h.word, relabel]; rfl⟩

theorem readable_this (h : name.Legible) (hkind : name.kind = .keyword .thisWord) :
    (Expr.this ⟨id, name⟩).Readable := by
  refine ⟨(by decide : IsWord "this"), ?_⟩
  rw [outline, Nested.expr, ofWord_word (by decide) (by decide), if_pos rfl, h.ofKeyword hkind, relabel]
  rfl

theorem readable_super {keyword : Token} (h : keyword.Legible) (hkind : keyword.kind = .keyword .superWord)
    (hname : name.Readable) : (Expr.super ⟨id, keyword⟩ name).Readable := by
  refine ⟨⟨(by decide : IsWord "super"), hname.clear, trivial⟩, ?_⟩
  rw [outline, Nested.expr, exprs, exprs, Nested.expr, hname.word, relabel]
  exact congrArg (fun word => Expr.super ⟨0, word⟩ _) (h.ofKeyword hkind)

theorem readable_grouping (h : e.Readable) : (Expr.grouping e).Readable :=
  ⟨⟨(by decide : IsWord "group"), h.clear, trivial⟩,
    by rw [relabel, ← h.back]; rfl⟩

theorem readable_assign (hname : name.Readable) (h : e.Readable) :
    (Expr.assign ⟨id, name⟩ e).Readable := by
  refine ⟨⟨(by decide : IsWord "="), hname.clear, h.clear, trivial⟩, ?_⟩
  rw [outline, Nested.expr, exprs, exprs, exprs, Nested.expr, hname.word, h.back, relabel]
  rfl

theorem readable_get (h : e.Readable) (hname : name.Readable) : (Expr.get e name).Readable := by
  refine ⟨⟨(by decide : IsWord "."), h.clear, hname.clear, trivial⟩, ?_⟩
  rw [outline, Nested.expr, exprs, exprs, exprs, Nested.expr, hname.word, h.back, relabel]
  rfl

theorem readable_set (h : l.Readable) (hname : name.Readable) (hvalue : r.Readable) :
    (Expr.set l name r).Readable := by
  have hget := readable_get h hname
  refine ⟨⟨(by decide : IsWord "="), hget.clear, hvalue.clear, trivial⟩, ?_⟩
  have hback := hget.back
  rw [outline] at hback
  rw [outline, Nested.expr, exprs, exprs, exprs, hback, hvalue.back, relabel, relabel]
  rfl

theorem readable_conditional (hc : c.Readable) (ht : t.Readable) (he : e.Readable) :
    (Expr.conditional c (some t) e).Readable :=
  ⟨⟨(by decide : IsWord "?:"), hc.clear, ht.clear, he.clear, trivial⟩,
    by rw [relabel, ← hc.back, ← ht.back, ← he.back]; rfl⟩

theorem readable_shortConditional (hc : c.Readable) (he : e.Readable) :
    (Expr.conditional c none e).Readable :=
  ⟨⟨(by decide : IsWord "?:"), hc.clear, he.clear, trivial⟩,
    by rw [relabel, ← hc.back, ← he.back]; rfl⟩

theorem readable_call {es : List Expr} {paren : Token} (h : e.Readable) (hes : AllReadable es)
    (hparen : paren.Legible) (hkind : paren.kind = .mark .rightParen) :
    (Expr.call e paren es).Readable := by
  have hback : Token.ofOperator ")" = paren.relabel .blank := hparen.ofOperator hkind
  refine ⟨⟨(by decide : IsWord "call"), h.clear, hes.clear⟩, ?_⟩
  rw [relabel, ← h.back, ← hes.back, ← hback]
  rfl

theorem readable_unary {operator : Token} (ho : operator.Legible)
    (hkind : operator.kind ∈ [Kind.mark .bang, Kind.mark .minus]) (h : e.Readable) :
    (Expr.unary operator e).Readable := by
  obtain ⟨m, hm, hword, hshape⟩ : ∃ m, operator.kind = .mark m ∧ IsWord m.spelling ∧
      ofShape m.spelling [e.relabel .blank] =
        .unary (.ofOperator m.spelling) (e.relabel .blank) := by
    rcases List.mem_cons.mp hkind with hkind | hkind
    · exact ⟨.bang, hkind, by decide, rfl⟩
    · exact ⟨.minus, by simpa using hkind, by decide, rfl⟩
  have hlexeme := ho.mark m hm
  refine ⟨⟨hlexeme ▸ hword, h.clear, trivial⟩, ?_⟩
  simp only [outline, Nested.expr, exprs, h.back, hlexeme, hshape, ho.ofOperator hm, relabel]

theorem allReadable_nil : AllReadable [] := ⟨trivial, rfl⟩

theorem allReadable_cons {es : List Expr} (h : e.Readable) (hes : AllReadable es) :
    AllReadable (e :: es) :=
  ⟨⟨h.clear, hes.clear⟩, by rw [outlines, exprs, h.back, hes.back, relabelAll]⟩

section

variable {operator : Token} {m : Mark}

theorem readable_binary (ho : operator.Legible) (hm : operator.kind = .mark m)
    (hword : IsWord m.spelling)
    (hshape : ∀ x y, ofShape m.spelling [x, y] = .binary x (.ofOperator m.spelling) y)
    (hl : l.Readable) (hr : r.Readable) : (Expr.binary l operator r).Readable := by
  have hlexeme := ho.mark m hm
  refine ⟨⟨hlexeme ▸ hword, hl.clear, hr.clear, trivial⟩, ?_⟩
  simp only [outline, Nested.expr, exprs, hl.back, hr.back, hlexeme, hshape, ho.ofOperator hm, relabel]

theorem readable_logical {k : Keyword} (ho : operator.Legible) (hkind : operator.kind = .keyword k)
    (hk : k = .andWord ∨ k = .orWord) (hl : l.Readable) (hr : r.Readable) :
    (Expr.logical l operator r).Readable := by
  have hlexeme := ho.keyword k hkind
  have hback : Token.ofOperator k.spelling = operator.relabel .blank := by
    rw [← ho.ofKeyword hkind]
    rcases hk with rfl | rfl <;> rfl
  have hshape : ∀ x y, ofShape k.spelling [x, y] = .logical x (.ofOperator k.spelling) y := by
    rcases hk with rfl | rfl <;> exact fun _ _ => rfl
  have hword : IsWord k.spelling := by rcases hk with rfl | rfl <;> decide
  refine ⟨⟨hlexeme ▸ hword, hl.clear, hr.clear, trivial⟩, ?_⟩
  simp only [outline, Nested.expr, exprs, hl.back, hr.back, hlexeme, hshape, hback, relabel]

/-- Which of the operators decide early is read back from their spelling. -/
theorem readable_node {tier : Tier} (ho : operator.Legible) (hkind : operator.kind ∈ tier.operators)
    (hl : l.Readable) (hr : r.Readable) : (tier.node l operator r).Readable := by
  cases tier with
  | disjunction => exact readable_logical ho (List.mem_singleton.mp hkind) (.inr rfl) hl hr
  | conjunction => exact readable_logical ho (List.mem_singleton.mp hkind) (.inl rfl) hl hr
  | equality | sum | product =>
    simp only [Tier.operators, List.mem_cons, List.not_mem_nil, or_false] at hkind
    rcases hkind with h | h <;> exact readable_binary ho h (by decide) (fun _ _ => rfl) hl hr
  | comparison =>
    simp only [Tier.operators, List.mem_cons, List.not_mem_nil, or_false] at hkind
    rcases hkind with h | h | h | h <;>
      exact readable_binary ho h (by decide) (fun _ _ => rfl) hl hr

end

end Expr

structure Stmt.Readable (s : Stmt) : Prop where
  clear : s.outline.Clear
  back : s.outline.stmt = s.relabel .blank

structure Stmt.AllReadable (body : List Stmt) : Prop where
  clear : AllClear (Stmt.outlines body)
  back : stmts (Stmt.outlines body) = Stmt.relabelAll .blank body

structure Declaration.Readable (d : Declaration) : Prop where
  clear : ∀ head ∈ ["fun", "method"], (d.outline head).Clear
  back : ∀ head ∈ ["fun", "method"], (d.outline head).stmt = .declareFunction (d.relabel .blank)

structure Declaration.AllReadable (ds : List Declaration) : Prop where
  clear : AllClear (Declaration.outlines ds)
  back : (stmts (Declaration.outlines ds)).filterMap Stmt.declaration? =
    Declaration.relabelAll .blank ds

theorem Declaration.readable {name : Token} {names : List Token} {body : List Stmt}
    (hname : name.Readable) (hnames : ∀ p ∈ names, p.Readable) (hbody : Stmt.AllReadable body) :
    (Declaration.mk name names body).Readable := by
  have hparameters : AllClear (names.map fun p => .word p.lexeme) := by
    induction names with
    | nil => trivial
    | cons p rest ih =>
      exact ⟨(hnames p List.mem_cons_self).clear, ih fun q hq => hnames q (List.mem_cons_of_mem _ hq)⟩
  have hback : (names.map fun p => Nested.word p.lexeme).map Nested.name =
      names.map (Token.relabel .blank) := by
    rw [List.map_map]
    exact List.map_congr_left fun p hp => (hnames p hp).name
  constructor
  · intro head hhead
    have hword : IsWord head := by
      rcases List.mem_cons.mp hhead with rfl | hhead
      · decide
      · exact List.mem_singleton.mp hhead ▸ (by decide)
    exact ⟨hword, hname.clear, hparameters, hbody.clear⟩
  · intro head hhead
    have hshape : head = "fun" ∨ head = "method" := by simpa using hhead
    rw [relabel, ← hname.name, ← hback, ← hbody.back]
    rcases hshape with rfl | rfl <;> rfl

theorem Declaration.allReadable_nil : AllReadable [] := ⟨trivial, rfl⟩

theorem Declaration.allReadable_cons {d : Declaration} {ds : List Declaration} (h : d.Readable)
    (hds : AllReadable ds) : AllReadable (d :: ds) := by
  refine ⟨⟨h.clear _ (by simp), hds.clear⟩, ?_⟩
  rw [outlines, stmts, h.back _ (by simp), List.filterMap_cons, relabelAll]
  exact congrArg _ hds.back

namespace Stmt

variable {s t b : Stmt} {e c : Expr} {name word : Token}

theorem allReadable_nil : AllReadable [] := ⟨trivial, rfl⟩

theorem allReadable_cons {body : List Stmt} (h : s.Readable) (hbody : AllReadable body) :
    AllReadable (s :: body) :=
  ⟨⟨h.clear, hbody.clear⟩, by rw [outlines, stmts, h.back, hbody.back, relabelAll]⟩

theorem readable_expression (h : e.Readable) : (Stmt.expression e).Readable :=
  ⟨⟨(by decide : IsWord ";"), h.clear, trivial⟩,
    by rw [relabel, ← h.back]; rfl⟩

theorem readable_print (h : e.Readable) : (Stmt.print e).Readable :=
  ⟨⟨(by decide : IsWord "print"), h.clear, trivial⟩,
    by rw [relabel, ← h.back]; rfl⟩

theorem readable_declareVar {value : Option Expr} (hname : name.Readable) (h : ∀ e ∈ value, e.Readable) :
    (Stmt.declareVar name value).Readable := by
  have hword : IsWord "var" := by decide
  cases value with
  | none =>
    refine ⟨⟨hword, hname.clear, trivial⟩, ?_⟩
    rw [relabel, ← hname.name]
    rfl
  | some e =>
    have he := h e rfl
    refine ⟨⟨hword, hname.clear, he.clear, trivial⟩, ?_⟩
    rw [relabel, ← hname.name, Option.map_some, ← he.back]
    rfl

theorem readable_returnWith {value : Option Expr} (hword : word.Legible)
    (hkind : word.kind = .keyword .returnWord) (h : ∀ e ∈ value, e.Readable) :
    (Stmt.returnWith word value).Readable := by
  have hreturn : IsWord "return" := by decide
  cases value with
  | none =>
    refine ⟨⟨hreturn, trivial⟩, ?_⟩
    rw [relabel, ← hword.ofKeyword hkind]
    rfl
  | some e =>
    have he := h e rfl
    refine ⟨⟨hreturn, he.clear, trivial⟩, ?_⟩
    rw [relabel, ← hword.ofKeyword hkind, Option.map_some, ← he.back]
    rfl

theorem readable_breakLoop (hword : word.Legible) (hkind : word.kind = .keyword .breakWord) :
    (Stmt.breakLoop word).Readable :=
  ⟨⟨(by decide : IsWord "break"), trivial⟩,
    by rw [relabel, ← hword.ofKeyword hkind]; rfl⟩

theorem readable_continueLoop (hword : word.Legible) (hkind : word.kind = .keyword .continueWord) :
    (Stmt.continueLoop word).Readable :=
  ⟨⟨(by decide : IsWord "continue"), trivial⟩,
    by rw [relabel, ← hword.ofKeyword hkind]; rfl⟩

theorem readable_block {body : List Stmt} (h : AllReadable body) : (Stmt.block body).Readable :=
  ⟨⟨(by decide : IsWord "block"), h.clear⟩,
    by rw [relabel, ← h.back]; rfl⟩

theorem readable_branch (hc : c.Readable) (ht : t.Readable) : (Stmt.branch c t none).Readable :=
  ⟨⟨(by decide : IsWord "if"), hc.clear, ht.clear, trivial⟩,
    by rw [relabel, ← hc.back, ← ht.back]; rfl⟩

theorem readable_branch_else (hc : c.Readable) (ht : t.Readable) (hs : s.Readable) :
    (Stmt.branch c t (some s)).Readable :=
  ⟨⟨(by decide : IsWord "if"), hc.clear, ht.clear, hs.clear, trivial⟩,
    by rw [relabel, ← hc.back, ← ht.back, ← hs.back]; rfl⟩

theorem outline_eq_list (s : Stmt) : ∃ parts, s.outline = .list parts := by
  cases s with
  | declareVar _ value | returnWith _ value => cases value <;> exact ⟨_, rfl⟩
  | branch _ _ other => cases other <;> exact ⟨_, rfl⟩
  | loop initializer _ increment _ => cases initializer <;> cases increment <;> exact ⟨_, rfl⟩
  | declareFunction d => cases d; exact ⟨_, rfl⟩
  | declareClass _ base _ => cases base <;> exact ⟨_, rfl⟩
  | _ => exact ⟨_, rfl⟩

theorem readable_loop {i n : Option Stmt} (hi : ∀ s ∈ i, s.Readable) (hc : c.Readable)
    (hn : ∀ s ∈ n, s.Readable) (hb : b.Readable) : (Stmt.loop i c n b).Readable := by
  have hfor : IsWord "for" := by decide
  have hnil : IsWord "nil" := by decide
  cases i with
  | none =>
    cases n with
    | none =>
      refine ⟨⟨(by decide : IsWord "while"), hc.clear, hb.clear, trivial⟩, ?_⟩
      rw [relabel, relabelOption, ← hc.back, ← hb.back]
      rfl
    | some n =>
      have hn := hn n rfl
      refine ⟨⟨hfor, hnil, hc.clear, hn.clear, hb.clear, trivial⟩, ?_⟩
      rw [relabel, relabelOption, ← hc.back, ← hn.back, ← hb.back]
      rfl
  | some i =>
    have hi := hi i rfl
    obtain ⟨parts, hparts⟩ := i.outline_eq_list
    cases n with
    | none =>
      refine ⟨⟨hfor, hi.clear, hc.clear, hnil, hb.clear, trivial⟩, ?_⟩
      rw [relabel, relabelOption, ← hi.back, ← hc.back, ← hb.back, outline, hparts]
      rfl
    | some n =>
      have hn := hn n rfl
      refine ⟨⟨hfor, hi.clear, hc.clear, hn.clear, hb.clear, trivial⟩, ?_⟩
      obtain ⟨others, hothers⟩ := n.outline_eq_list
      rw [relabel, relabelOption, ← hi.back, ← hc.back, ← hn.back, ← hb.back, outline, hparts, hothers]
      rfl

theorem readable_declareFunction {d : Declaration} (h : d.Readable) :
    (Stmt.declareFunction d).Readable :=
  ⟨h.clear _ (by simp), by rw [outline, h.back _ (by simp), relabel]⟩

theorem readable_declareClass {ds : List Declaration} (hname : name.Readable)
    (hds : Declaration.AllReadable ds) : (Stmt.declareClass name none ds).Readable := by
  refine ⟨⟨(by decide : IsWord "class"), hname.clear, hds.clear⟩, ?_⟩
  rw [relabel, ← hds.back, ← hname.name]
  -- No method is a word, so none is taken for the sign before a superclass.
  cases ds with
  | nil => rfl
  | cons d ds => cases d; rfl

theorem readable_declareClass_base {base : Token} {id : ReferenceId} {ds : List Declaration}
    (hname : name.Readable) (hbase : base.Readable) (hds : Declaration.AllReadable ds) :
    (Stmt.declareClass name (some ⟨id, base⟩) ds).Readable := by
  refine ⟨⟨(by decide : IsWord "class"), hname.clear, (by decide : IsWord "<"), hbase.clear, hds.clear⟩, ?_⟩
  rw [relabel, ← hds.back, ← hname.name, Option.map_some, Reference.relabel, ← hbase.name]
  rfl

end Stmt

end LoxLang
