import LoxLang.Proofs.Syntax.Acceptance

set_option autoImplicit false

namespace LoxLang

theorem Expr.eq_variable_of_anonymous {e : Expr} {r : Reference}
    (h : e.anonymous = .variable r) : ∃ r', e = .variable r' ∧ r'.anonymous = r := by
  cases e with
  | «variable» target => exact ⟨target, rfl, by simpa [Expr.anonymous] using h⟩
  | conditional c t e => cases t <;> simp [Expr.anonymous] at h
  | _ => simp [Expr.anonymous] at h

theorem Expr.eq_get_of_anonymous {e o : Expr} {name : Token}
    (h : e.anonymous = .get o name) : ∃ o', e = .get o' name ∧ o'.anonymous = o := by
  cases e with
  | get object name' =>
    simp only [Expr.anonymous, Expr.get.injEq] at h
    exact ⟨object, by simp [h.2], h.1⟩
  | conditional c t e => cases t <;> simp [Expr.anonymous] at h
  | _ => simp [Expr.anonymous] at h

theorem Tier.anonymous_node (tier : Tier) (l r : Expr) (operator : Token) :
    (tier.node l operator r).anonymous = tier.node l.anonymous operator r.anonymous := by
  cases tier <;> rfl

namespace Parsing

theorem Takes.single {value : Literal} {s : State} {t : Token} {rest : List Token}
    (hs : s.rest = t :: rest) (hk : t.kind ≠ .endOfInput) :
    Takes 0 (do let _ ← Parsing.advance; return Expr.literal value) s
      (·.anonymous = (Expr.literal value).anonymous) rest :=
  Takes.advance hs hk fun _ hs => Takes.ret hs rfl

theorem accepts_literal {t : Token} {value : Literal}
    (h : Derives (.primary (.literal value)) [t]) : Accepted (.primary (.literal value)) [t] := by
  refine Reads.of_succ ?_ fun depth s next rest _ hs _ => ?_
  · omega
  rw [primary]
  refine Takes.current ?_
  rw [State.current_of_rest hs]
  cases h with
  | falseLiteral hk | trueLiteral hk | nilLiteral hk | number hk | string hk =>
    rw [hk]
    exact Takes.single hs (by simp [hk])

theorem accepts_receiver {t : Token} {id : ReferenceId} (hk : t.kind = .keyword .thisWord) :
    Accepted (.primary (.this ⟨id, t⟩)) [t] := by
  refine Reads.of_succ ?_ fun depth s next rest _ hs _ => ?_
  · omega
  rw [primary]
  refine Takes.current ?_
  rw [State.current_of_rest hs, hk]
  refine Takes.advance hs (by simp [hk]) fun s₁ hs₁ => Takes.reference hs₁ fun _ _ hs₂ => ?_
  exact Takes.ret hs₂ rfl

theorem accepts_named {t : Token} {id : ReferenceId} (hk : t.kind = .identifier) :
    Accepted (.primary (.variable ⟨id, t⟩)) [t] := by
  refine Reads.of_succ ?_ fun depth s next rest _ hs _ => ?_
  · omega
  rw [primary]
  refine Takes.current ?_
  rw [State.current_of_rest hs, hk]
  refine Takes.advance hs (by simp [hk]) fun s₁ hs₁ => Takes.reference hs₁ fun _ _ hs₂ => ?_
  exact Takes.ret hs₂ rfl

theorem accepts_superMethod {t dot method : Token} {id : ReferenceId}
    (hk : t.kind = .keyword .superWord) (hdot : dot.kind = .mark .dot)
    (hmethod : method.kind = .identifier) :
    Accepted (.primary (.super ⟨id, t⟩ method)) [t, dot, method] := by
  refine Reads.of_succ ?_ fun depth s next rest _ hs _ => ?_
  · omega
  rw [primary]
  refine Takes.current ?_
  rw [State.current_of_rest hs, hk]
  refine Takes.advance hs (by simp [hk]) fun s₁ hs₁ => Takes.expect hs₁ hdot fun s₂ hs₂ => ?_
  refine Takes.expect hs₂ hmethod fun s₃ hs₃ => Takes.reference hs₃ fun _ _ hs₄ => ?_
  exact Takes.ret hs₄ rfl

theorem accepts_grouping {left right : Token} {e : Expr} {w : List Token}
    (hleft : left.kind = .mark .leftParen) (he : Accepted (.expression e) w)
    (hright : right.kind = .mark .rightParen) :
    Accepted (.primary (.grouping e)) (left :: (w ++ [right])) := by
  refine Reads.of_succ ?_ fun depth s next rest hd hs _ => ?_
  · omega
  simp only [List.length_cons, List.length_append, List.length_nil] at hd
  simp only [List.cons_append, List.append_assoc, List.nil_append] at hs
  rw [primary]
  refine Takes.current ?_
  rw [State.current_of_rest hs, hleft]
  refine Takes.advance hs (by simp [hleft]) fun s₁ hs₁ => ?_
  refine (he.takes (by omega) hs₁ (by simp [hright, Kind.binding])).bind fun v s₂ hs₂ hv => ?_
  refine Takes.expect hs₂ hright fun s₃ hs₃ => Takes.ret hs₃ ?_
  simp [Expr.anonymous, hv]

theorem accepts_ofPrimary {e : Expr} {w : List Token} (h : Accepted (.primary e) w) :
    Accepted (.call e) w := by
  intro depth s t rest hd hs Q after hnext
  refine (h.takes hd hs trivial).bind fun v s₁ hs₁ hv => ?_
  exact hnext v s₁ depth hs₁ hv (by omega)

theorem accepts_get {dot name : Token} {o : Expr} {u : List Token} (ho : Accepted (.call o) u)
    (hdot : dot.kind = .mark .dot) (hname : name.kind = .identifier) :
    Accepted (.call (.get o name)) (u ++ [dot, name]) := by
  intro depth s t rest hd hs Q after hnext
  simp only [List.length_append, List.length_cons, List.length_nil] at hd hnext
  simp only [List.append_assoc, List.cons_append, List.nil_append] at hs
  refine ho depth s _ _ (by omega) hs Q after fun v s₁ left hs₁ hv hleft => ?_
  cases left with
  | zero => omega
  | succ left =>
    rw [callRest]
    refine Takes.refuse hs₁ (by simp [hdot]) (Takes.accept hs₁ hdot fun s₂ hs₂ => ?_)
    refine Takes.expect hs₂ hname fun s₃ hs₃ => hnext _ s₃ left hs₃ ?_ (by omega)
    simp [Expr.anonymous, hv]

theorem accepts_call {left right : Token} {f : Expr} {es : List Expr} {u v : List Token}
    (hf : Accepted (.call f) u) (hleft : left.kind = .mark .leftParen)
    (hes : Accepted (.argumentList es) v) (hright : right.kind = .mark .rightParen) :
    Accepted (.call (.call f right es)) (u ++ left :: (v ++ [right])) := by
  intro depth s t rest hd hs Q after hnext
  simp only [List.length_append, List.length_cons, List.length_nil] at hd hnext
  simp only [List.append_assoc, List.cons_append, List.nil_append] at hs
  refine hf depth s _ _ (by omega) hs Q after fun callee s₁ fuel hs₁ hcallee hfuel => ?_
  cases fuel with
  | zero => omega
  | succ fuel =>
    rw [callRest]
    refine Takes.accept hs₁ hleft fun s₂ hs₂ => ?_
    have hclose : ∀ (es' : List Expr) (s₃ : State), s₃.rest = right :: t :: rest →
        Expr.allAnonymous es' = Expr.allAnonymous es →
        Takes 0 (do
          let paren ← expect (.mark .rightParen) .argumentListEnd
          callRest fuel (.call callee paren es')) s₃ Q after := by
      intro es' s₃ hs₃ hes'
      refine Takes.expect hs₃ hright fun s₄ hs₄ => hnext _ s₄ fuel hs₄ ?_ (by omega)
      simp [Expr.anonymous, hcallee, hes']
    rcases hes with ⟨rfl, rfl⟩ | ⟨⟨first, v, rfl, hfirst⟩, hes⟩
    · exact Takes.absent hs₂ hright (hclose [] s₂ hs₂ rfl)
    · have hk : first.kind ≠ .mark .rightParen := by
        rintro hk
        simp [hk, Kind.opensExpression, Kind.opensPrimary] at hfirst
      refine Takes.present hs₂ hk ?_
      refine (hes.takes (by omega) hs₂ hright).bind fun es' s₃ hs₃ hes' => ?_
      exact hclose es' s₃ hs₃ hes'

theorem accepts_arguments {es : List Expr} {w : List Token} (hb : Begins Kind.opensExpression w)
    (hlen : es.length ≤ argumentLimit) (h : Accepted (.arguments es) w) :
    Accepted (.argumentList es) w :=
  .inr ⟨hb, h 0 (by omega)⟩

theorem accepts_lastArgument {e : Expr} {w : List Token} (he : Accepted (.expression e) w) :
    Accepted (.arguments [e]) w := by
  intro count hcount
  refine Reads.of_succ ?_ fun depth s t rest hd hs ht => ?_
  · omega
  have hlimit : ¬argumentLimit ≤ count := by
    simp at hcount
    omega
  rw [Parsing.arguments]
  simp only [hlimit, if_false]
  refine (he.takes (by omega) hs (by simp [ht, Kind.binding])).bind fun v s₁ hs₁ hv => ?_
  refine Takes.refuse hs₁ (by simp [ht]) (Takes.ret hs₁ ?_)
  simp [Expr.allAnonymous, hv]

theorem accepts_argument {comma : Token} {e : Expr} {es : List Expr} {u v : List Token}
    (he : Accepted (.expression e) u) (hcomma : comma.kind = .mark .comma)
    (hes : Accepted (.arguments es) v) : Accepted (.arguments (e :: es)) (u ++ comma :: v) := by
  intro count hcount
  simp only [List.length_cons] at hcount
  refine Reads.of_succ ?_ fun depth s t rest hd hs ht => ?_
  · omega
  have hlimit : ¬argumentLimit ≤ count := by omega
  simp only [List.length_append, List.length_cons] at hd
  simp only [List.append_assoc, List.cons_append] at hs
  rw [Parsing.arguments]
  simp only [hlimit, if_false]
  refine (he.takes (by omega) hs (by simp [hcomma, Kind.binding])).bind fun x s₁ hs₁ hx => ?_
  refine Takes.accept hs₁ hcomma fun s₂ hs₂ => ?_
  refine ((hes (count + 1) (by omega)).takes (by omega) hs₂ ht).bind fun xs s₃ hs₃ hxs => ?_
  refine Takes.ret hs₃ ?_
  simp [Expr.allAnonymous, hx, hxs]

theorem accepts_ofCall {e : Expr} {w : List Token} (hb : Begins Kind.opensPrimary w)
    (h : Accepted (.call e) w) : Accepted (.unary e) w := by
  refine Reads.of_succ ?_ fun depth s t rest hd hs ht => ?_
  · omega
  obtain ⟨first, w, rfl, hfirst⟩ := hb
  have hsign : ([Kind.mark .bang, Kind.mark .minus].contains first.kind) = false := by
    have hbang : first.kind ≠ .mark .bang := by
      rintro hk
      simp [hk, Kind.opensPrimary] at hfirst
    have hminus : first.kind ≠ .mark .minus := by
      rintro hk
      simp [hk, Kind.opensPrimary] at hfirst
    simp [hbang, hminus]
  rw [Parsing.unary]
  refine Takes.current ?_
  rw [State.current_of_rest hs, hsign]
  refine h depth s t rest (by omega) hs _ _ fun v s₁ left hs₁ hv hleft => ?_
  cases left with
  | zero => omega
  | succ left =>
    have hparen : t.kind ≠ .mark .leftParen := by
      rintro hk
      simp [hk, Kind.binding] at ht
    have hdot : t.kind ≠ .mark .dot := by
      rintro hk
      simp [hk, Kind.binding] at ht
    rw [callRest]
    exact Takes.refuse hs₁ hparen (Takes.refuse hs₁ hdot (Takes.ret hs₁ hv))

theorem accepts_signed {operator : Token} {e : Expr} {w : List Token}
    (ho : operator.kind ∈ [Kind.mark .bang, Kind.mark .minus]) (he : Accepted (.unary e) w) :
    Accepted (.unary (.unary operator e)) (operator :: w) := by
  refine Reads.of_succ ?_ fun depth s t rest hd hs ht => ?_
  · omega
  simp only [List.length_cons] at hd
  have hcontains : ([Kind.mark .bang, Kind.mark .minus].contains operator.kind) = true := by
    simpa using ho
  have hend : operator.kind ≠ .endOfInput := by
    rintro hk
    simp [hk] at ho
  rw [Parsing.unary]
  refine Takes.current ?_
  rw [State.current_of_rest hs, hcontains]
  refine Takes.advance hs hend fun s₁ hs₁ => ?_
  refine (he.takes (by omega) hs₁ ht).bind fun v s₂ hs₂ hv => Takes.ret hs₂ ?_
  simp [Expr.anonymous, hv]

/-- A level is closed by a token that holds on no tighter than its operators do. -/
theorem Accepted.closed (tier : Tier) {e : Expr} {w : List Token}
    (h : Accepted (.operation tier e) w) :
    Reads 0 (level · tier.levels) (12 - tier.binding) (·.binding < tier.binding)
      (·.anonymous = e.anonymous) w := by
  refine ⟨fun {depth} {s} {t} {rest} hd hs ht => ?_⟩
  refine h depth s t rest hd hs (by omega) _ _ fun v s₁ left hs₁ hv hleft => ?_
  have htier := tier.binding_le
  cases left with
  | zero => omega
  | succ left =>
    have hnot : ¬t.kind ∈ tier.operators := by
      rw [Tier.mem_operators_iff]
      omega
    rw [levelRest]
    refine Takes.current ?_
    rw [State.current_of_rest hs₁, if_neg (by simpa [Tier.level] using hnot)]
    exact Takes.ret hs₁ hv

theorem Accepted.operand {tier : Tier} {e : Expr} {w : List Token}
    (h : Accepted (tier.operand e) w) :
    Reads 0 (level · (tier.tighter.map Tier.level)) (11 - tier.binding) (·.binding < tier.binding + 1)
      (·.anonymous = e.anonymous) w := by
  cases tier with
  | product =>
    refine Reads.of_succ ?_ fun depth s t rest hd hs ht => ?_
    · simp only [Tier.binding]
      omega
    simp only [Tier.binding] at hd
    change Takes 0 (level (depth + 1) []) s _ _
    rw [level]
    exact h.takes (by omega) hs ht
  | disjunction => exact Accepted.closed .conjunction h
  | conjunction => exact Accepted.closed .equality h
  | equality => exact Accepted.closed .comparison h
  | comparison => exact Accepted.closed .sum h
  | sum => exact Accepted.closed .product h

theorem accepts_ofOperand (tier : Tier) {e : Expr} {w : List Token}
    (h : Accepted (tier.operand e) w) : Accepted (.operation tier e) w := by
  intro depth s t rest hd hs ht Q after hnext
  have htier := tier.binding_le
  cases depth with
  | zero => omega
  | succ depth =>
    rw [Tier.levels, level]
    refine (h.operand.takes (by omega) hs ht).bind fun v s₁ hs₁ hv => ?_
    exact hnext v s₁ depth hs₁ hv (by omega)

theorem accepts_operation {tier : Tier} {operator : Token} {l r : Expr} {u v : List Token}
    (hl : Accepted (.operation tier l) u) (ho : operator.kind ∈ tier.operators)
    (hr : Accepted (tier.operand r) v) :
    Accepted (.operation tier (tier.node l operator r)) (u ++ operator :: v) := by
  intro depth s t rest hd hs ht Q after hnext
  simp only [List.length_append, List.length_cons] at hd hnext
  simp only [List.append_assoc, List.cons_append] at hs
  have htier := tier.binding_le
  have hop := Tier.mem_operators_iff.mp ho
  refine hl depth s _ _ (by omega) hs (by omega) Q after fun x s₁ left hs₁ hx hleft => ?_
  cases left with
  | zero => omega
  | succ left =>
    rw [levelRest]
    refine Takes.current ?_
    rw [State.current_of_rest hs₁, if_pos (by simpa [Tier.level] using ho)]
    refine Takes.advance hs₁ (Tier.ne_endOfInput_of_mem_operators ho) fun s₂ hs₂ => ?_
    refine (hr.operand.takes (by omega) hs₂ ht).bind fun y s₃ hs₃ hy => ?_
    refine hnext _ s₃ left hs₃ ?_ (by omega)
    simp only [Tier.level, Tier.anonymous_node, hx, hy]

theorem accepts_ofOperation {e : Expr} {w : List Token}
    (h : Accepted (.operation .disjunction e) w) : Accepted (.conditional e) w := by
  refine Reads.of_succ ?_ fun depth s t rest hd hs ht => ?_
  · omega
  rw [Parsing.conditional, ← Tier.levels_disjunction]
  have hclosed := Accepted.closed .disjunction h
  simp only [Tier.binding] at hclosed
  refine (hclosed.takes (by omega) hs (by omega)).bind fun v s₁ hs₁ hv => ?_
  have hquestion : t.kind ≠ .mark .question := by
    rintro hk
    simp [hk, Kind.binding] at ht
  exact Takes.refuse hs₁ hquestion (Takes.ret hs₁ hv)

theorem accepts_shortConditional {question colon : Token} {c e : Expr} {u v : List Token}
    (hc : Accepted (.operation .disjunction c) u) (hquestion : question.kind = .mark .question)
    (hcolon : colon.kind = .mark .colon) (he : Accepted (.conditional e) v) :
    Accepted (.conditional (.conditional c none e)) (u ++ question :: colon :: v) := by
  refine Reads.of_succ ?_ fun depth s t rest hd hs ht => ?_
  · omega
  simp only [List.length_append, List.length_cons] at hd
  simp only [List.append_assoc, List.cons_append] at hs
  rw [Parsing.conditional, ← Tier.levels_disjunction]
  have hclosed := Accepted.closed .disjunction hc
  simp only [Tier.binding] at hclosed
  have hbinding : question.kind.binding < 3 := by simp [hquestion, Kind.binding]
  refine (hclosed.takes (by omega) hs hbinding).bind fun x s₁ hs₁ hx => ?_
  refine Takes.accept hs₁ hquestion fun s₂ hs₂ => Takes.accept hs₂ hcolon fun s₃ hs₃ => ?_
  refine (he.takes (by omega) hs₃ ht).bind fun y s₄ hs₄ hy => Takes.ret hs₄ ?_
  simp [Expr.anonymous, hx, hy]

theorem accepts_fullConditional {question colon : Token} {c t e : Expr} {u v w : List Token}
    (hc : Accepted (.operation .disjunction c) u) (hquestion : question.kind = .mark .question)
    (hb : Begins Kind.opensExpression v) (ht : Accepted (.conditional t) v)
    (hcolon : colon.kind = .mark .colon) (he : Accepted (.conditional e) w) :
    Accepted (.conditional (.conditional c (some t) e)) (u ++ question :: (v ++ colon :: w)) := by
  refine Reads.of_succ ?_ fun depth s next rest hd hs hnext => ?_
  · omega
  simp only [List.length_append, List.length_cons] at hd
  simp only [List.append_assoc, List.cons_append] at hs
  rw [Parsing.conditional, ← Tier.levels_disjunction]
  have hclosed := Accepted.closed .disjunction hc
  simp only [Tier.binding] at hclosed
  have hbinding : question.kind.binding < 3 := by simp [hquestion, Kind.binding]
  refine (hclosed.takes (by omega) hs hbinding).bind fun x s₁ hs₁ hx => ?_
  refine Takes.accept hs₁ hquestion fun s₂ hs₂ => ?_
  obtain ⟨first, v, rfl, hfirst⟩ := hb
  have hk : first.kind ≠ .mark .colon := by
    rintro hk
    simp [hk, Kind.opensExpression, Kind.opensPrimary] at hfirst
  refine Takes.refuse hs₂ hk ?_
  refine (ht.takes (by omega) hs₂ (by simp [hcolon, Kind.binding])).bind fun y s₃ hs₃ hy => ?_
  refine Takes.expect hs₃ hcolon fun s₄ hs₄ => ?_
  refine (he.takes (by omega) hs₄ hnext).bind fun z s₅ hs₅ hz => Takes.ret hs₅ ?_
  simp [Expr.anonymous, hx, hy, hz]

theorem accepts_ofConditional {e : Expr} {w : List Token} (h : Accepted (.conditional e) w) :
    Accepted (.expression e) w := by
  refine Reads.of_succ ?_ fun depth s t rest hd hs ht => ?_
  · omega
  rw [Parsing.expression]
  refine (h.takes (by omega) hs (by omega)).bind fun v s₁ hs₁ hv => ?_
  have hequal : t.kind ≠ .mark .equal := by
    rintro hk
    simp [hk, Kind.binding] at ht
  exact Takes.refuse hs₁ hequal (Takes.ret hs₁ hv)

theorem accepts_conditional_of_call {e : Expr} {w : List Token} (hb : Begins Kind.opensPrimary w)
    (h : Accepted (.call e) w) : Accepted (.conditional e) w := by
  have hproduct : Accepted (.operation .product e) w :=
    accepts_ofOperand .product (accepts_ofCall hb h)
  have hsum : Accepted (.operation .sum e) w := accepts_ofOperand .sum hproduct
  have hcomparison : Accepted (.operation .comparison e) w :=
    accepts_ofOperand .comparison hsum
  have hequality : Accepted (.operation .equality e) w :=
    accepts_ofOperand .equality hcomparison
  have hconjunction : Accepted (.operation .conjunction e) w :=
    accepts_ofOperand .conjunction hequality
  exact accepts_ofOperation (accepts_ofOperand .disjunction hconjunction)

theorem reads_assignVariable {limit : Nat} {name equal : Token} {w : List Token} {P Q : Expr → Prop}
    (hname : name.kind = .identifier) (hequal : equal.kind = .mark .equal)
    (he : Reads limit expression 11 (·.binding < 1) P w)
    (hQ : ∀ id e, P e → Q (.assign ⟨id, name⟩ e)) :
    Reads limit expression 11 (·.binding < 1) Q (name :: equal :: w) := by
  have htarget : Accepted (.conditional (.variable ⟨0, name⟩)) [name] :=
    accepts_conditional_of_call (.cons (by simp [hname, Kind.opensPrimary]))
      (accepts_ofPrimary (accepts_named hname))
  refine Reads.of_succ ?_ fun depth s t rest hd hs ht => ?_
  · omega
  simp only [List.length_cons] at hd
  rw [Parsing.expression]
  have hbinding : equal.kind.binding < 2 := by simp [hequal, Kind.binding]
  refine (htarget.takes (by simp; omega) hs hbinding).bind fun x s₁ hs₁ hx => ?_
  refine Takes.accept hs₁ hequal fun s₂ hs₂ => ?_
  refine (he.takes (by omega) hs₂ ht).before fun y s₃ hs₃ hy => ?_
  obtain ⟨r, rfl, hr⟩ := Expr.eq_variable_of_anonymous hx
  obtain rfl : r.name = name := by simpa [Reference.anonymous] using hr
  exact Takes.reference hs₃ fun id s₄ hs₄ => Takes.ret hs₄ (hQ id y hy)

theorem accepts_assignVariable {name equal : Token} {id : ReferenceId} {e : Expr} {w : List Token}
    (hname : name.kind = .identifier) (hequal : equal.kind = .mark .equal)
    (he : Accepted (.expression e) w) :
    Accepted (.expression (.assign ⟨id, name⟩ e)) (name :: equal :: w) :=
  reads_assignVariable hname hequal he fun id' y hy => by simp [Expr.anonymous, Reference.anonymous, hy]

theorem reads_assignProperty {limit : Nat} {dot name equal : Token} {o : Expr} {u w : List Token}
    {P Q : Expr → Prop} (hb : Begins Kind.opensPrimary u) (ho : Accepted (.call o) u)
    (hdot : dot.kind = .mark .dot) (hname : name.kind = .identifier) (hequal : equal.kind = .mark .equal)
    (he : Reads limit expression 11 (·.binding < 1) P w)
    (hQ : ∀ o' e, o'.anonymous = o.anonymous → P e → Q (.set o' name e)) :
    Reads limit expression 11 (·.binding < 1) Q (u ++ dot :: name :: equal :: w) := by
  have htarget : Accepted (.conditional (.get o name)) (u ++ [dot, name]) :=
    accepts_conditional_of_call (hb.append _) (accepts_get ho hdot hname)
  refine Reads.of_succ ?_ fun depth s t rest hd hs ht => ?_
  · omega
  simp only [List.length_append, List.length_cons] at hd
  rw [Parsing.expression]
  have hbinding : equal.kind.binding < 2 := by simp [hequal, Kind.binding]
  have hrest : s.rest = (u ++ [dot, name]) ++ equal :: (w ++ t :: rest) := by simp [hs]
  refine (htarget.takes (by simp; omega) hrest hbinding).bind fun x s₁ hs₁ hx => ?_
  refine Takes.accept hs₁ hequal fun s₂ hs₂ => ?_
  refine (he.takes (by omega) hs₂ ht).before fun y s₃ hs₃ hy => ?_
  obtain ⟨o', rfl, ho'⟩ := Expr.eq_get_of_anonymous hx
  exact Takes.ret hs₃ (hQ o' y ho' hy)

theorem accepts_assignProperty {dot name equal : Token} {o e : Expr} {u w : List Token}
    (hb : Begins Kind.opensPrimary u) (ho : Accepted (.call o) u) (hdot : dot.kind = .mark .dot)
    (hname : name.kind = .identifier) (hequal : equal.kind = .mark .equal)
    (he : Accepted (.expression e) w) :
    Accepted (.expression (.set o name e)) (u ++ dot :: name :: equal :: w) :=
  reads_assignProperty hb ho hdot hname hequal he fun o' y ho' hy => by simp [Expr.anonymous, ho', hy]

end Parsing

end LoxLang
