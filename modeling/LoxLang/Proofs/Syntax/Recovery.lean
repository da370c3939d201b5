import LoxLang.Proofs.Syntax.Semicolons

set_option autoImplicit false

namespace LoxLang

/-- A declaration that a skip from its first token passes, or passes up to the statement at its end. -/
inductive Resumes : Stmt → List Token → Prop
  | ended {x : Stmt} {w : List Token} {semicolon : Token} :
    Unended x w → semicolon.kind = .mark .semicolon → Resumes x (w ++ [semicolon])
  | ifAlone {word left right : Token} {c : Expr} {b : Stmt} {u v : List Token} :
    word.kind = .keyword .ifWord → left.kind = .mark .leftParen → Derives (.expression c) u →
    right.kind = .mark .rightParen → Derives (.statement b) v → ¬Begins (BEq.beq (.mark .leftBrace)) v →
    Resumes (.branch c b none) (word :: left :: (u ++ right :: v))
  | whileLoop {word left right : Token} {c : Expr} {b : Stmt} {u v : List Token} :
    word.kind = .keyword .whileWord → left.kind = .mark .leftParen → Derives (.expression c) u →
    right.kind = .mark .rightParen → Derives (.statement b) v → ¬Begins (BEq.beq (.mark .leftBrace)) v →
    Resumes (.loop none c none b) (word :: left :: (u ++ right :: v))

namespace Resumes

variable {y : Stmt} {v : List Token}

theorem derives (h : Resumes y v) : Derives (.declaration y) v := by
  cases h with
  | ended hx hsemicolon => exact hx.derives hsemicolon
  | ifAlone hword hleft hc hright hb => exact .statementDeclaration (.ifAlone hword hleft hc hright hb)
  | whileLoop hword hleft hc hright hb => exact .statementDeclaration (.whileLoop hword hleft hc hright hb)

theorem ofExpression (h : Resumes y v) (hb : Begins Kind.opensExpression v) :
    ∃ e w semicolon, y = .expression e ∧ v = w ++ [semicolon] ∧ Derives (.expression e) w ∧
      semicolon.kind = .mark .semicolon := by
  obtain ⟨first, v, rfl, hfirst⟩ := hb
  generalize htokens : first :: v = tokens at h
  cases h with
  | @ended _ w semicolon hx hsemicolon =>
    cases hx with
    | expression he => exact ⟨_, _, _, rfl, rfl, he, hsemicolon⟩
    | unsetVariable hword | setVariable hword | print hword | returnWith hword | breakLoop hword
    | continueLoop hword =>
      cases htokens
      simp [hword, Kind.opensExpression, Kind.opensPrimary] at hfirst
  | ifAlone hword | whileLoop hword =>
    cases htokens
    simp [hword, Kind.opensExpression, Kind.opensPrimary] at hfirst

end Resumes

/-- A statement that is no block begins with a keyword that stops a skip, or ends at its first
semicolon. -/
theorem Derives.statement_goesOn {b : Stmt} {v : List Token} (h : Derives (.statement b) v)
    (hbrace : ¬Begins (BEq.beq (.mark .leftBrace)) v) :
    Begins Parsing.resumesAt v ∨ ∃ e w semicolon, v = w ++ [semicolon] ∧ Derives (.expression e) w ∧
      semicolon.kind = .mark .semicolon := by
  cases h with
  | ofExpression h =>
    cases h with
    | expressionStatement he hsemicolon => exact .inr ⟨_, _, _, rfl, he, hsemicolon⟩
  | forLoop hword | ifAlone hword | ifElse hword | whileLoop hword | print hword | returnWith hword
  | breakLoop hword | continueLoop hword => exact .inl (.cons (by simp [hword, Parsing.resumesAt]))
  | ofBlock h => exact absurd h.beginsWell hbrace

namespace Parsing

/-- A skip over the first tokens stops before the others, and these are declarations. If there are none
it stops before whatever follows. -/
structure Landing (skipped left : List Token) : Prop where
  some : Begins Kind.opensDeclaration skipped
  skips : ∀ t rest, (left = [] ∨ resumesAt t.kind = true) → skipToBoundary (skipped ++ t :: rest) = t :: rest
  goesOn : left = [] ∨ Begins resumesAt left
  settled : ∃ ys, Settled (.declarations ys) left

theorem Landing.semicolon {first semicolon : Token} {w : List Token}
    (hfirst : first.kind.opensDeclaration = true) (hw : ∀ t ∈ w, t.kind.separates = false)
    (hsemicolon : semicolon.kind = .mark .semicolon) : Landing (first :: (w ++ [semicolon])) [] where
  some := .cons hfirst
  skips t rest _ := by
    have hne : first.kind ≠ .mark .semicolon := by
      intro hk
      simp [hk, Kind.opensDeclaration, Kind.opensStatement, Kind.opensExpression, Kind.opensPrimary] at hfirst
    simpa using skip_past_semicolon (t :: rest) (Kind.ne_of_opensDeclaration hfirst).2.1 hne hw hsemicolon
  goesOn := .inl rfl
  settled := ⟨[], .noDeclarations, trivial, trivial⟩

theorem Landing.keyword {first : Token} {b : Stmt} {w left : List Token}
    (hfirst : first.kind.opensDeclaration = true) (hw : ∀ t ∈ w, t.kind.separates = false)
    (hb : Settled (.statement b) left) (hleft : Begins resumesAt left) : Landing (first :: w) left where
  some := .cons hfirst
  skips t rest ht := by
    have hword : resumesAt t.kind = true := by
      obtain ⟨_, _, rfl, -⟩ := hleft
      exact ht.resolve_left (List.cons_ne_nil _ _)
    have hne : first.kind ≠ .mark .semicolon := by
      intro hk
      simp [hk, Kind.opensDeclaration, Kind.opensStatement, Kind.opensExpression, Kind.opensPrimary] at hfirst
    exact skip_to_keyword rest (Kind.ne_of_opensDeclaration hfirst).2.1 hne hw hword
  goesOn := .inr hleft
  settled := ⟨[b], by simpa using Derives.declarations (.statementDeclaration hb.derives) .noDeclarations,
    ⟨hb.limits, trivial⟩, hb.nearest, trivial⟩

theorem lands_inner {word left right : Token} {c : Expr} {b : Stmt} {u v : List Token}
    (hword : word.kind.opensDeclaration = true) (hleft : left.kind = .mark .leftParen)
    (hc : Derives (.expression c) u) (hright : right.kind = .mark .rightParen)
    (hb : Settled (.statement b) v) (hbrace : ¬Begins (BEq.beq (.mark .leftBrace)) v) :
    ∃ skipped ahead, word :: left :: (u ++ right :: v) = skipped ++ ahead ∧ Landing skipped ahead := by
  have hhead : ∀ t ∈ left :: (u ++ [right]), t.kind.separates = false := by
    have hcondition := hc.not_separates rfl
    simp_all [Kind.separates, resumesAt, or_imp, forall_and]
  rcases hb.derives.statement_goesOn hbrace with hv | ⟨e, w, semicolon, rfl, he, hsemicolon⟩
  · exact ⟨word :: left :: (u ++ [right]), v, by simp, .keyword hword hhead hb hv⟩
  · refine ⟨word :: ((left :: (u ++ [right]) ++ w) ++ [semicolon]), [], by simp, ?_⟩
    exact .semicolon hword (List.forall_mem_append.mpr ⟨hhead, he.not_separates rfl⟩) hsemicolon

theorem Resumes.lands {y : Stmt} {v : List Token} (h : Resumes y v) (hl : y.WithinLimits)
    (hn : y.NearestElse) : ∃ skipped left, v = skipped ++ left ∧ Landing skipped left := by
  cases h with
  | @ended _ w semicolon hx hsemicolon =>
    obtain ⟨first, w, rfl, hfirst⟩ := hx.opensDeclaration
    exact ⟨_, [], by simp, .semicolon hfirst hx.tail_not_separates hsemicolon⟩
  | @ifAlone word _ _ _ _ _ _ hword hleft hc hright hb hbrace =>
    have hopens : word.kind.opensDeclaration = true := by
      simp [hword, Kind.opensDeclaration, Kind.opensStatement]
    exact lands_inner hopens hleft hc hright ⟨hb, hl.2, hn⟩ hbrace
  | @whileLoop word _ _ _ _ _ _ hword hleft hc hright hb hbrace =>
    have hopens : word.kind.opensDeclaration = true := by
      simp [hword, Kind.opensDeclaration, Kind.opensStatement]
    exact lands_inner hopens hleft hc hright ⟨hb, hl.2.2, hn⟩ hbrace

/-- The tokens are read with one error at most up to some declarations, or up to whatever follows. -/
structure Bridged (taken left : List Token) : Prop where
  some : Begins Kind.opensDeclaration taken
  reads : Reads 1 declaration 13 (fun kind => left = [] ∨ resumesAt kind = true) (fun _ => True) taken
  goesOn : left = [] ∨ Begins resumesAt left
  settled : ∃ ys, Settled (.declarations ys) left

/-- A statement without its semicolon is read together with all or with a part of what follows. -/
theorem Unended.bridged {x y : Stmt} {u v : List Token} (hx : Unended x u) (hlx : x.WithinLimits)
    (hy : Resumes y v) (hly : y.WithinLimits) (hny : y.NearestElse) :
    ∃ taken left, u ++ v = taken ++ left ∧ Bridged taken left := by
  obtain ⟨first, w, rfl, hfirst⟩ := hy.derives.beginsWell
  cases hholds : x.holds first.kind with
  | true =>
    have hopens := Stmt.opensExpression_of_holds hholds hfirst
    obtain ⟨g, v, semicolon, rfl, hv, hg, hsemicolon⟩ := hy.ofExpression (.cons hopens)
    obtain ⟨next, v, rfl, -⟩ := hg.beginsWell
    obtain ⟨rfl, -⟩ := List.cons.inj hv
    refine ⟨u ++ (first :: w), [], by simp, ?_, ?_, .inl rfl, [], .noDeclarations, trivial, trivial⟩
    · exact hx.opensDeclaration.append _
    · exact hv ▸ reads_continued hx hlx hg hly hsemicolon hholds
  | false =>
    obtain ⟨skipped, left, hv, hland⟩ := Resumes.lands hy hly hny
    refine ⟨u ++ skipped, left, by rw [hv, List.append_assoc], hx.opensDeclaration.append _, ?_,
      hland.goesOn, hland.settled⟩
    obtain ⟨next, z, rfl, -⟩ := hland.some
    obtain ⟨rfl, -⟩ := List.cons.inj hv
    refine ⟨fun {depth} {s} {t} {rest} hd hs ht => ?_⟩
    simp only [List.length_append, List.length_cons] at hd
    simp only [List.append_assoc, List.cons_append] at hs
    have hne : first.kind ≠ .mark .semicolon ∧ first.kind ≠ .mark .equal := by
      constructor <;> intro hk <;>
        simp [hk, Kind.opensDeclaration, Kind.opensStatement, Kind.opensExpression, Kind.opensPrimary] at hfirst
    have hskip := hland.skips t rest ht
    rw [List.cons_append] at hskip
    exact hskip ▸ stumbles hx hlx (by omega) hs hholds hne.1 hne.2

section

variable {rest : List Stmt} {taken left w : List Token}

theorem Bridged.next (h : Bridged taken left) (w : List Token) (t : Token) (after : List Token) :
    ∃ next z, left ++ w ++ t :: after = next :: z ∧ (left = [] ∨ resumesAt next.kind = true) := by
  rcases h.goesOn with rfl | ⟨next, z, rfl, hnext⟩
  · cases w with
    | nil => exact ⟨t, after, rfl, .inl rfl⟩
    | cons next w => exact ⟨next, _, rfl, .inl rfl⟩
  · exact ⟨next, _, rfl, .inr hnext⟩

theorem Bridged.behind (h : Bridged taken left) (hrest : Settled (.declarations rest) w) :
    ∃ zs, Settled (.declarations zs) (left ++ w) := by
  obtain ⟨ys, hys⟩ := h.settled
  exact ⟨ys ++ rest, hys.derives.append hrest.derives, Stmt.allWithinLimits_append hys.limits hrest.limits,
    Stmt.allNearestElse_append hys.nearest hrest.nearest⟩

theorem Bridged.declarations (h : Bridged taken left) (hrest : Settled (.declarations rest) w) :
    Reads 1 declarations 14 (· = .mark .rightBrace) (fun _ => True) (taken ++ (left ++ w)) := by
  obtain ⟨zs, hzs⟩ := h.behind hrest
  exact reads_declarations h.some h.reads (fun t after _ => h.next w t after)
    (accepts_of_derives hzs.derives hzs.limits hzs.nearest) fun _ _ _ _ => trivial

theorem Bridged.program (h : Bridged taken left) (hrest : Settled (.declarations rest) w) :
    Reads 1 program 14 (· = .endOfInput) (fun _ => True) (taken ++ (left ++ w)) := by
  obtain ⟨zs, hzs⟩ := h.behind hrest
  exact reads_program h.some h.reads (fun t after _ => h.next w t after)
    (accepts_program hzs.derives hzs.limits hzs.nearest) fun _ _ _ _ => trivial

end

end Parsing

end LoxLang
