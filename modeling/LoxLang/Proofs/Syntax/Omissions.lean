import LoxLang.Proofs.Syntax.Recovery
import LoxLang.Proofs.Syntax.Stopping

set_option autoImplicit false

namespace LoxLang

/-- What stands behind a statement in a list of declarations. -/
inductive Follower where
  | declaration (y : Stmt) (w : List Token)
  | brace
  | nothing

namespace Follower

def inBlock : Follower → Follower
  | .nothing => .brace
  | follower => follower

/-- The parser goes on behind a failure at the follower. -/
def Resumes : Follower → Prop
  | .declaration y w => LoxLang.Resumes y w
  | .brace => False
  | .nothing => True

theorem resumes_of_inBlock {follower : Follower} (h : follower.inBlock.Resumes) :
    follower.Resumes ∧ follower ≠ .nothing := by
  cases follower with
  | declaration y w => exact ⟨h, Follower.noConfusion⟩
  | brace | nothing => exact h.elim

end Follower

/-- The first tokens are those of the phrase. The second ones lack the semicolon of one statement in a block
or in the list of declarations itself, which has the follower. -/
inductive Lacks : Phrase → List Token → List Token → Follower → Prop
  | here {x y : Stmt} {rest : List Stmt} {semicolon : Token} {u v w : List Token} :
    Unended x u → semicolon.kind = .mark .semicolon → Derives (.declaration y) v →
    Derives (.declarations rest) w →
    Lacks (.declarations (x :: y :: rest)) (u ++ semicolon :: (v ++ w)) (u ++ (v ++ w)) (.declaration y v)
  | last {x : Stmt} {semicolon : Token} {u : List Token} :
    Unended x u → semicolon.kind = .mark .semicolon →
    Lacks (.declarations [x]) (u ++ [semicolon]) u .nothing
  | earlier {x : Stmt} {rest : List Stmt} {u u' v : List Token} {follower : Follower} :
    Lacks (.declaration x) u u' follower → Derives (.declarations rest) v →
    Lacks (.declarations (x :: rest)) (u ++ v) (u' ++ v) follower
  | later {x : Stmt} {rest : List Stmt} {u v v' : List Token} {follower : Follower} :
    Derives (.declaration x) u → Lacks (.declarations rest) v v' follower →
    Lacks (.declarations (x :: rest)) (u ++ v) (u ++ v') follower
  | baseClass {word name left right : Token} {ds : List Declaration} {w w' : List Token}
      {follower : Follower} :
    word.kind = .keyword .classWord → name.kind = .identifier → left.kind = .mark .leftBrace →
    Lacks (.methods ds) w w' follower → right.kind = .mark .rightBrace →
    Lacks (.declaration (.declareClass name none ds)) (word :: name :: left :: (w ++ [right]))
      (word :: name :: left :: (w' ++ [right])) follower
  | derivedClass {word name less base left right : Token} {id : ReferenceId} {ds : List Declaration}
      {w w' : List Token} {follower : Follower} :
    word.kind = .keyword .classWord → name.kind = .identifier → less.kind = .mark .less →
    base.kind = .identifier → left.kind = .mark .leftBrace → Lacks (.methods ds) w w' follower →
    right.kind = .mark .rightBrace →
    Lacks (.declaration (.declareClass name (some ⟨id, base⟩) ds))
      (word :: name :: less :: base :: left :: (w ++ [right]))
      (word :: name :: less :: base :: left :: (w' ++ [right])) follower
  | functionDeclaration {word : Token} {d : Declaration} {w w' : List Token} {follower : Follower} :
    word.kind = .keyword .funWord → Lacks (.function d) w w' follower →
    Lacks (.declaration (.declareFunction d)) (word :: w) (word :: w') follower
  | statementDeclaration {x : Stmt} {w w' : List Token} {follower : Follower} :
    Lacks (.statement x) w w' follower → Lacks (.declaration x) w w' follower
  | forLoop {word left semicolon right : Token} {i : Option Stmt} {c n : Option Expr} {b : Stmt}
      {u v w x x' : List Token} {follower : Follower} :
    word.kind = .keyword .forWord → left.kind = .mark .leftParen → Derives (.initializer i) u →
    Derives (.optional c) v → semicolon.kind = .mark .semicolon → Derives (.optional n) w →
    right.kind = .mark .rightParen → Lacks (.statement b) x x' follower →
    Lacks (.statement (.loop i (c.getD (.literal (.boolean true))) (n.map .expression) b))
      (word :: left :: (u ++ (v ++ semicolon :: (w ++ right :: x))))
      (word :: left :: (u ++ (v ++ semicolon :: (w ++ right :: x')))) follower
  | ifAlone {word left right : Token} {c : Expr} {t : Stmt} {u v v' : List Token} {follower : Follower} :
    word.kind = .keyword .ifWord → left.kind = .mark .leftParen → Derives (.expression c) u →
    right.kind = .mark .rightParen → Lacks (.statement t) v v' follower →
    Lacks (.statement (.branch c t none)) (word :: left :: (u ++ right :: v))
      (word :: left :: (u ++ right :: v')) follower
  | thenBranch {word left right other : Token} {c : Expr} {t e : Stmt} {u v v' w : List Token}
      {follower : Follower} :
    word.kind = .keyword .ifWord → left.kind = .mark .leftParen → Derives (.expression c) u →
    right.kind = .mark .rightParen → Lacks (.statement t) v v' follower →
    other.kind = .keyword .elseWord → Derives (.statement e) w →
    Lacks (.statement (.branch c t (some e))) (word :: left :: (u ++ right :: (v ++ other :: w)))
      (word :: left :: (u ++ right :: (v' ++ other :: w))) follower
  | elseBranch {word left right other : Token} {c : Expr} {t e : Stmt} {u v w w' : List Token}
      {follower : Follower} :
    word.kind = .keyword .ifWord → left.kind = .mark .leftParen → Derives (.expression c) u →
    right.kind = .mark .rightParen → Derives (.statement t) v → other.kind = .keyword .elseWord →
    Lacks (.statement e) w w' follower →
    Lacks (.statement (.branch c t (some e))) (word :: left :: (u ++ right :: (v ++ other :: w)))
      (word :: left :: (u ++ right :: (v ++ other :: w'))) follower
  | whileLoop {word left right : Token} {c : Expr} {b : Stmt} {u v v' : List Token} {follower : Follower} :
    word.kind = .keyword .whileWord → left.kind = .mark .leftParen → Derives (.expression c) u →
    right.kind = .mark .rightParen → Lacks (.statement b) v v' follower →
    Lacks (.statement (.loop none c none b)) (word :: left :: (u ++ right :: v))
      (word :: left :: (u ++ right :: v')) follower
  | ofBlock {body : List Stmt} {w w' : List Token} {follower : Follower} :
    Lacks (.block body) w w' follower → Lacks (.statement (.block body)) w w' follower
  | block {left right : Token} {body : List Stmt} {w w' : List Token} {follower : Follower} :
    left.kind = .mark .leftBrace → Lacks (.declarations body) w w' follower →
    right.kind = .mark .rightBrace →
    Lacks (.block body) (left :: (w ++ [right])) (left :: (w' ++ [right])) follower.inBlock
  | firstMethod {d : Declaration} {rest : List Declaration} {u u' v : List Token} {follower : Follower} :
    Lacks (.function d) u u' follower → Derives (.methods rest) v →
    Lacks (.methods (d :: rest)) (u ++ v) (u' ++ v) follower
  | laterMethod {d : Declaration} {rest : List Declaration} {u v v' : List Token} {follower : Follower} :
    Derives (.function d) u → Lacks (.methods rest) v v' follower →
    Lacks (.methods (d :: rest)) (u ++ v) (u ++ v') follower
  | function {name left right : Token} {names : List Token} {body : List Stmt} {u v v' : List Token}
      {follower : Follower} :
    name.kind = .identifier → left.kind = .mark .leftParen → Derives (.parameterList names) u →
    right.kind = .mark .rightParen → Lacks (.block body) v v' follower →
    Lacks (.function (.mk name names body)) (name :: left :: (u ++ right :: v))
      (name :: left :: (u ++ right :: v')) follower

def Phrase.isDeclarations : Phrase → Bool
  | .declarations _ => true
  | _ => false

theorem Lacks.followed {ph : Phrase} {w w' : List Token} {follower : Follower}
    (h : Lacks ph w w' follower) : ph.isDeclarations = false → follower ≠ .nothing := by
  induction h with
  | here | last | earlier | later => exact fun hph => by cases hph
  | @block _ _ _ _ _ follower => exact fun _ => by cases follower <;> exact Follower.noConfusion
  | _ => rename_i ih; exact fun _ => ih rfl

namespace Parsing

def Stumbles : Phrase → List Token → Prop
  | .declarations _, w =>
    Begins Kind.opensDeclaration w ∧ Reads 1 declarations 14 (· = .mark .rightBrace) (fun _ => True) w
  | .declaration x, w =>
    Begins Kind.opensDeclaration w ∧
      Reads 1 declaration 13 (fun kind => x.endsOpen = true → kind ≠ .keyword .elseWord) (fun _ => True) w
  | .statement x, w =>
    Begins Kind.opensStatement w ∧
      Reads 1 statement 12 (fun kind => x.endsOpen = true → kind ≠ .keyword .elseWord) (fun _ => True) w
  | .block _, w =>
    ∃ left v, w = left :: v ∧ left.kind = .mark .leftBrace ∧
      Reads 1 block 15 (fun _ => True) (fun _ => True) v
  | .methods _, w => Reads 1 methods 1 (· = .mark .rightBrace) (fun _ => True) w
  | .function _, w =>
    Begins (BEq.beq .identifier) w ∧ ∀ kind, Reads 1 (Parsing.function · kind) 0 (fun _ => True) (fun _ => True) w
  | _, _ => False

/-- Around the statement every production reads what it always does. -/
theorem Lacks.stumbles {ph : Phrase} {w w' : List Token} {follower : Follower}
    (h : Lacks ph w w' follower) :
    follower.Resumes → follower ≠ .nothing → ph.WithinLimits → ph.NearestElse → Stumbles ph w' := by
  -- On the way down to the place. One part of each rule stumbles, and those next to it are accepted.
  induction h with
  | here hx _ hy hrest =>
    intro hf _ hl hn
    obtain ⟨taken, left, htokens, hbridged⟩ := Unended.bridged hx hl.1 hf hl.2.1 hn.2.1
    rw [← List.append_assoc, htokens, List.append_assoc]
    exact ⟨hbridged.some.append _, hbridged.declarations ⟨hrest, hl.2.2, hn.2.2⟩⟩
  | last => exact fun _ hf => absurd rfl hf
  | earlier _ hrest ih =>
    intro hf hsome hl hn
    obtain ⟨hb, hread⟩ := ih hf hsome hl.1 hn.1
    refine ⟨hb.append _, reads_declarations hb hread (fun t after ht => ?_)
      (accepts_of_derives hrest hl.2 hn.2) fun _ _ _ _ => trivial⟩
    obtain ⟨next, z, hz, hnext⟩ := exists_next hrest (t := t) (by simp [ht]) after
    exact ⟨next, z, hz, fun _ => hnext⟩
  | later hx _ ih =>
    intro hf hsome hl hn
    obtain ⟨hb, hread⟩ := ih hf hsome hl.2 hn.2
    refine ⟨hx.beginsWell.append _, reads_declarations hx.beginsWell
      (accepts_of_derives hx hl.1 hn.1) (fun t after _ => ?_) hread fun _ _ _ _ => trivial⟩
    obtain ⟨next, z, rfl, hnext⟩ := hb
    exact ⟨next, _, rfl, fun _ => (Kind.ne_of_opensDeclaration hnext).2.2⟩
  | baseClass hword hname hleft _ hright ih =>
    intro hf hsome hl hn
    exact ⟨.cons (by simp [hword, Kind.opensDeclaration]),
      reads_baseClass hword hname hleft (ih hf hsome hl hn) hright fun _ _ => trivial⟩
  | derivedClass hword hname hless hbase hleft _ hright ih =>
    intro hf hsome hl hn
    exact ⟨.cons (by simp [hword, Kind.opensDeclaration]),
      reads_derivedClass hword hname hless hbase hleft (ih hf hsome hl hn) hright fun _ _ _ => trivial⟩
  | functionDeclaration hword _ ih =>
    intro hf hsome hl hn
    exact ⟨.cons (by simp [hword, Kind.opensDeclaration]),
      reads_functionDeclaration hword ((ih hf hsome hl hn).2 .function) fun _ _ => trivial⟩
  | statementDeclaration _ ih =>
    intro hf hsome hl hn
    obtain ⟨hb, hread⟩ := ih hf hsome hl hn
    exact ⟨hb.mono fun _ => Kind.opensDeclaration_of_opensStatement,
      reads_statementDeclaration hb hread fun _ _ => trivial⟩
  | @forLoop _ _ _ _ i c n b _ _ _ _ _ _ hword hleft hi hc hsemicolon hn hright _ ih =>
    intro hf hsome hl hnear
    obtain ⟨hli, hlc, hln, hlb⟩ : (Phrase.initializer i).WithinLimits ∧
        (Phrase.optional c).WithinLimits ∧ (Phrase.optional n).WithinLimits ∧ b.WithinLimits := by
      cases i <;> cases c <;> cases n <;> simp_all [Phrase.WithinLimits, Stmt.WithinLimits,
        Expr.OptionWithinLimits, Stmt.OptionWithinLimits]
    exact ⟨.cons (by simp [hword, Kind.opensStatement]),
      reads_forLoop hword hleft (accepts_of_derives hi hli hi.nearest_initializer)
        (accepts_of_derives hc hlc trivial) hsemicolon (accepts_of_derives hn hln trivial) hright
        (ih hf hsome hlb hnear).2 fun _ _ _ _ _ _ _ _ => trivial⟩
  | ifAlone hword hleft hc hright _ ih =>
    intro hf hsome hl hn
    refine ⟨.cons (by simp [hword, Kind.opensStatement]), ?_⟩
    have hread := (ih hf hsome hl.2 hn).2
    exact reads_ifAlone hword hleft (accepts_of_derives hc hl.1 trivial) hright
      ⟨fun hd hs ht => hread.takes hd hs fun _ => ht rfl⟩ (fun _ ht => ht rfl) fun _ _ _ _ => trivial
  | thenBranch hword hleft hc hright _ hother he ih =>
    intro hf hsome hl hn
    exact ⟨.cons (by simp [hword, Kind.opensStatement]),
      reads_ifElse hword hleft (accepts_of_derives hc hl.1 trivial) hright (ih hf hsome hl.2.1 hn.1).2
        (by simp [hn.2.1]) hother (accepts_of_derives he hl.2.2 hn.2.2) fun _ _ _ _ _ _ => trivial⟩
  | elseBranch hword hleft hc hright ht hother _ ih =>
    intro hf hsome hl hn
    exact ⟨.cons (by simp [hword, Kind.opensStatement]),
      reads_ifElse hword hleft (accepts_of_derives hc hl.1 trivial) hright
        (accepts_of_derives ht hl.2.1 hn.1) (by simp [hn.2.1]) hother (ih hf hsome hl.2.2 hn.2.2).2
        fun _ _ _ _ _ _ => trivial⟩
  | whileLoop hword hleft hc hright _ ih =>
    intro hf hsome hl hn
    exact ⟨.cons (by simp [hword, Kind.opensStatement]),
      reads_whileLoop hword hleft (accepts_of_derives hc hl.1 trivial) hright
        (ih hf hsome hl.2.2 hn).2 fun _ _ _ _ => trivial⟩
  | ofBlock _ ih =>
    intro hf hsome hl hn
    obtain ⟨left, v, rfl, hleft, hread⟩ := ih hf hsome hl hn
    exact ⟨.cons (by simp [hleft, Kind.opensStatement]), reads_ofBlock hleft hread fun _ _ => trivial⟩
  | block hleft _ hright ih =>
    intro hf _ hl hn
    obtain ⟨hf, hsome⟩ := Follower.resumes_of_inBlock hf
    exact ⟨_, _, rfl, hleft, reads_block (ih hf hsome hl hn).2 hright⟩
  | firstMethod _ hrest ih =>
    intro hf hsome hl hn
    obtain ⟨hb, hread⟩ := ih hf hsome hl.1 hn.1
    exact reads_methods hb (hread .method) (accepts_of_derives hrest hl.2 hn.2) fun _ _ _ _ => trivial
  | laterMethod hd _ ih =>
    intro hf hsome hl hn
    exact reads_methods hd.beginsWell (accepts_of_derives hd hl.1 hn.1 .method) (ih hf hsome hl.2 hn.2)
      fun _ _ _ _ => trivial
  | function hname hleft hnames hright _ ih =>
    intro hf hsome hl hn
    obtain ⟨brace, v, rfl, hbrace, hread⟩ := ih hf hsome hl.2 hn
    exact ⟨.cons (by simp [hname]), fun kind => reads_function hname hleft
      (accepts_of_derives hnames hl.1 trivial) hright hbrace hread fun _ _ => trivial⟩

theorem Unended.reads_last {x : Stmt} {u : List Token} (hx : Unended x u) (hl : x.WithinLimits) :
    Reads 1 declaration 13 (· = .endOfInput) (fun _ => True) u := by
  refine ⟨fun {depth} {s} {t} {rest} hd hs ht => ?_⟩
  have hholds : x.holds t.kind = false := by
    rw [ht]
    unfold Stmt.holds
    split <;> rfl
  have hread := stumbles hx hl hd hs hholds (by simp [ht]) (by simp [ht])
  rwa [skipToBoundary, if_pos ht] at hread

theorem Lacks.program {body : List Stmt} {w w' : List Token} {follower : Follower}
    (h : Lacks (.declarations body) w w' follower) (hf : follower.Resumes)
    (hl : Stmt.AllWithinLimits body) (hn : Stmt.AllNearestElse body) :
    Begins Kind.opensDeclaration w' ∧ Reads 1 program 14 (· = .endOfInput) (fun _ => True) w' := by
  -- As in a block, but that the list may also end right behind the statement.
  induction body generalizing w w' with
  | nil => cases h
  | cons x body ih =>
    cases h with
    | here hx _ hy hrest =>
      obtain ⟨taken, left, htokens, hbridged⟩ := Unended.bridged hx hl.1 hf hl.2.1 hn.2.1
      rw [← List.append_assoc, htokens, List.append_assoc]
      exact ⟨hbridged.some.append _, hbridged.program ⟨hrest, hl.2.2, hn.2.2⟩⟩
    | last hx _ =>
      have hread := reads_program (v := []) (Q := fun _ => True) hx.opensDeclaration
        (Unended.reads_last hx hl.1) (fun t rest ht => ⟨t, rest, rfl, ht⟩) reads_noProgram
        fun _ _ _ _ => trivial
      exact ⟨hx.opensDeclaration, by simpa using hread⟩
    | earlier hx hrest =>
      obtain ⟨hb, hread⟩ := Lacks.stumbles hx hf (hx.followed rfl) hl.1 hn.1
      refine ⟨hb.append _, reads_program hb hread (fun t after ht => ?_)
        (accepts_program hrest hl.2 hn.2) fun _ _ _ _ => trivial⟩
      obtain ⟨next, z, hz, hnext⟩ := exists_next hrest (t := t) (by simp [ht]) after
      exact ⟨next, z, hz, fun _ => hnext⟩
    | later hx hrest =>
      obtain ⟨hb, hread⟩ := ih hrest hl.2 hn.2
      refine ⟨hx.beginsWell.append _, reads_program hx.beginsWell
        (accepts_of_derives hx hl.1 hn.1) (fun t after _ => ?_) hread fun _ _ _ _ => trivial⟩
      obtain ⟨next, z, rfl, hnext⟩ := hb
      exact ⟨next, _, rfl, fun _ => (Kind.ne_of_opensDeclaration hnext).2.2⟩

end Parsing

namespace Program

/-- Without one semicolon of a statement in a block or of the program itself an accepted list of tokens is
accepted, or has one error: if nothing follows the statement, or a statement that ends in a semicolon, or an
`if` without `else` or a `while` around a statement that is no block. -/
theorem ofTokens_withoutSemicolon {n : ReferenceId} {body body' junk : List Token} {last : Token}
    {P : Program} {follower : Follower} (honly : ∀ t ∈ body, t.kind ≠ .endOfInput)
    (hlast : last.kind = .endOfInput) (hP : (ofTokens n (body ++ last :: junk)).1 = .ok P)
    (h : Lacks (.declarations P) body body' follower) (hf : follower.Resumes) (m : ReferenceId) :
    (∃ Q, (ofTokens m (body' ++ last :: junk)).1 = .ok Q) ∨
      ∃ d, (ofTokens m (body' ++ last :: junk)).1 = .error [d] := by
  have hjunk : ∀ (k : ReferenceId) (tokens : List Token),
      ofTokens k (tokens ++ last :: junk) = ofTokens k (tokens ++ [last]) := by
    intro k tokens
    rw [List.append_cons]
    exact (Parsing.ofTokens_junk k ⟨last, by simp, hlast⟩ junk).1
  rw [hjunk] at hP ⊢
  have hbuilt := ofTokens_sound hlast honly (Prod.ext hP rfl)
  have hread := (Parsing.Lacks.program h hf hbuilt.limits hbuilt.nearest).2
  have hdepth : 14 + 16 * body'.length ≤ Parsing.depthFor (body' ++ [last]) := by
    simp only [Parsing.depthFor, List.length_append, List.length_cons]
    omega
  -- The whole program is read with one error at most, and nothing was reported before it.
  obtain ⟨Q, s, hQ, -, ⟨found, hreported, hfound⟩, -⟩ :=
    hread.takes (s := Parsing.State.start m (body' ++ [last])) hdepth rfl hlast
  have hnone : (Parsing.State.start m (body' ++ [last])).reported = [] := rfl
  rw [ofTokens, hQ, Parsing.outcome, hreported, hnone, List.nil_append]
  rcases found with _ | ⟨d, _ | ⟨e, more⟩⟩
  · exact .inl ⟨Q, rfl⟩
  · exact .inr ⟨d, rfl⟩
  · simp at hfound

theorem derives_name {name : Token} {id : ReferenceId} (h : name.kind = .identifier) :
    Derives (.expression (.variable ⟨id, name⟩)) [name] :=
  .ofConditional (Derives.conditional_of_call (.ofPrimary (.named h)))

def printTokens : List Token := [⟨.keyword .printWord, "print", 1⟩, ⟨.identifier, "a", 1⟩]

def printTree (id : ReferenceId) : Stmt := .print (.variable ⟨id, ⟨.identifier, "a", 1⟩⟩)

theorem printTree_unended (id : ReferenceId) : Unended (printTree id) printTokens :=
  .print rfl (derives_name rfl)

def braced (w : List Token) : List Token :=
  ⟨.mark .leftBrace, "\x7b", 1⟩ :: (w ++ [⟨.mark .rightBrace, "\x7d", 1⟩])

def whileTokens : List Token :=
  [⟨.keyword .whileWord, "while", 1⟩, ⟨.mark .leftParen, "(", 1⟩, ⟨.identifier, "b", 1⟩,
   ⟨.mark .rightParen, ")", 1⟩, ⟨.identifier, "c", 1⟩, ⟨.mark .semicolon, ";", 1⟩]

def whileTree : Stmt :=
  .loop none (.variable ⟨1, ⟨.identifier, "b", 1⟩⟩) none (.expression (.variable ⟨2, ⟨.identifier, "c", 1⟩⟩))

theorem whileTree_resumes : Resumes whileTree whileTokens := by
  have hc : Derives (.statement (.expression (.variable ⟨2, ⟨.identifier, "c", 1⟩⟩)))
      [⟨.identifier, "c", 1⟩, ⟨.mark .semicolon, ";", 1⟩] :=
    .ofExpression (.expressionStatement (w := [_]) (derives_name rfl) rfl)
  refine .whileLoop (u := [_]) rfl rfl (derives_name rfl) rfl hc ?_
  rintro ⟨t, v, hv, ht⟩
  cases hv
  cases ht

/-- In a block the semicolon before a loop without braces is missing: the loop is passed, and the brace
behind it closes the block. -/
theorem ofTokens_withoutSemicolon_while :
    (ofTokens 0 (braced (printTokens ++ ⟨.mark .semicolon, ";", 1⟩ :: whileTokens) ++
      [⟨.endOfInput, "", 1⟩])).1 = .ok [.block [printTree 0, whileTree]] ∧
    Lacks (.declarations [.block [printTree 0, whileTree]])
      (braced (printTokens ++ ⟨.mark .semicolon, ";", 1⟩ :: whileTokens))
      (braced (printTokens ++ whileTokens)) (.declaration whileTree whileTokens) ∧
    Resumes whileTree whileTokens ∧
    ∃ d, (ofTokens 0 (braced (printTokens ++ whileTokens) ++ [⟨.endOfInput, "", 1⟩])).1 = .error [d] := by
  have hP : (ofTokens 0 (braced (printTokens ++ ⟨.mark .semicolon, ";", 1⟩ :: whileTokens) ++
      [⟨.endOfInput, "", 1⟩])).1 = .ok [.block [printTree 0, whileTree]] := by cbv
  have hlist : Lacks (.declarations [printTree 0, whileTree])
      (printTokens ++ ⟨.mark .semicolon, ";", 1⟩ :: whileTokens) (printTokens ++ whileTokens)
      (.declaration whileTree whileTokens) :=
    .here (w := []) (printTree_unended 0) rfl whileTree_resumes.derives .noDeclarations
  have hlacks : Lacks (.declarations [.block [printTree 0, whileTree]])
      (braced (printTokens ++ ⟨.mark .semicolon, ";", 1⟩ :: whileTokens))
      (braced (printTokens ++ whileTokens)) (.declaration whileTree whileTokens) :=
    .earlier (v := []) (.statementDeclaration (.ofBlock (.block rfl hlist rfl))) .noDeclarations
  refine ⟨hP, hlacks, whileTree_resumes, ?_⟩
  have heither := ofTokens_withoutSemicolon (by decide) rfl hP hlacks whileTree_resumes 0
  rcases heither with ⟨Q, hQ⟩ | hd
  · have hfails : (ofTokens 0 (braced (printTokens ++ whileTokens) ++ [⟨.endOfInput, "", 1⟩])).1 =
        .error [.grammatical ⟨.keyword .whileWord, "while", 1⟩ (.expected .printEnd)] := by cbv
    rw [hfails] at hQ
    cases hQ
  · exact hd

def functionTokens : List Token :=
  ⟨.keyword .funWord, "fun", 1⟩ :: ⟨.identifier, "f", 1⟩ :: ⟨.mark .leftParen, "(", 1⟩ ::
    ⟨.mark .rightParen, ")", 1⟩ :: braced (printTokens ++ [⟨.mark .semicolon, ";", 1⟩])

def functionTree : Stmt := .declareFunction (.mk ⟨.identifier, "f", 1⟩ [] [printTree 1])

theorem functionTree_derives : Derives (.declaration functionTree) functionTokens := by
  have hbody : Derives (.declarations [printTree 1]) (printTokens ++ [⟨.mark .semicolon, ";", 1⟩]) :=
    .declarations (v := []) ((printTree_unended 1).derives rfl) .noDeclarations
  exact .functionDeclaration rfl (.function (u := []) rfl rfl .noParameters rfl (.block rfl hbody rfl))

/-- A failure at a brace or at a keyword skips that very token. Behind `print a` without its semicolon the
end of the block is lost, and of a function only the body is seen. -/
theorem ofTokens_withoutSemicolon_skips :
    ((ofTokens 0 (braced (printTokens ++ [⟨.mark .semicolon, ";", 1⟩]) ++ [⟨.endOfInput, "", 1⟩])).1 =
        .ok [.block [printTree 0]] ∧
      Lacks (.declarations [.block [printTree 0]]) (braced (printTokens ++ [⟨.mark .semicolon, ";", 1⟩]))
        (braced printTokens) .brace ∧
      (ofTokens 0 (braced printTokens ++ [⟨.endOfInput, "", 1⟩])).1 =
        .error [.grammatical ⟨.mark .rightBrace, "\x7d", 1⟩ (.expected .printEnd),
          .grammatical ⟨.endOfInput, "", 1⟩ (.expected .blockEnd)]) ∧
    ((ofTokens 0 (printTokens ++ ⟨.mark .semicolon, ";", 1⟩ :: functionTokens ++ [⟨.endOfInput, "", 1⟩])).1 =
        .ok [printTree 0, functionTree] ∧
      Lacks (.declarations [printTree 0, functionTree])
        (printTokens ++ ⟨.mark .semicolon, ";", 1⟩ :: functionTokens) (printTokens ++ functionTokens)
        (.declaration functionTree functionTokens) ∧
      (ofTokens 0 (printTokens ++ functionTokens ++ [⟨.endOfInput, "", 1⟩])).1 =
        .error [.grammatical ⟨.keyword .funWord, "fun", 1⟩ (.expected .printEnd),
          .grammatical ⟨.mark .rightBrace, "\x7d", 1⟩ (.expected .expression)]) := by
  have hlast : Lacks (.declarations [printTree 0]) (printTokens ++ [⟨.mark .semicolon, ";", 1⟩]) printTokens
      .nothing := .last (printTree_unended 0) rfl
  refine ⟨⟨?_, ?_, ?_⟩, ?_, ?_, ?_⟩
  · cbv
  · exact .earlier (v := []) (.statementDeclaration (.ofBlock (.block rfl hlast rfl))) .noDeclarations
  · cbv
  · cbv
  · exact .here (w := []) (printTree_unended 0) rfl functionTree_derives .noDeclarations
  · cbv

end Program

end LoxLang
