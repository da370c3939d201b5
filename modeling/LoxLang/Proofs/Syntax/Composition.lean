import LoxLang.Proofs.Syntax.Blindness
import LoxLang.Proofs.Syntax.StatementCompleteness
import LoxLang.Proofs.Syntax.Steadiness

set_option autoImplicit false

namespace LoxLang

namespace Parsing

def Reply.map {α β : Type} (f : α → β) : Reply α → Reply β
  | .parsed value s => .parsed (f value) s
  | .failed token cause s => .failed token cause s
  | .exhausted => .exhausted

theorem Reply.map_map {α β γ : Type} (f : α → β) (g : β → γ) (r : Reply α) :
    (r.map f).map g = r.map (g ∘ f) := by
  cases r <;> rfl

theorem Reply.map_same {α : Type} (r : Reply α) : r.map (fun v => v) = r := by
  cases r <;> rfl

theorem map_apply {α β : Type} (f : α → β) (p : Parser α) (s : State) :
    (do return f (← p) : Parser β) s = (p s).map f := by
  change andThen p _ s = _
  rw [andThen]
  cases p s <;> rfl

/-- The declarations of an accepted list are taken off, and the program goes on with what follows. -/
theorem program_after {body : List Stmt} {w : List Token} (h : Derives (.declarations body) w)
    (hl : Stmt.AllWithinLimits body) (hn : Stmt.AllNearestElse body) {depth : Nat} {s : State} {t : Token}
    {rest : List Token} (hd : 14 + 16 * w.length ≤ depth) (hs : s.rest = w ++ t :: rest)
    (ht : t.kind ≠ .keyword .elseWord) :
    ∃ taken s₁ left, s₁.rest = t :: rest ∧ s₁.reported = s.reported ∧
      Stmt.allAnonymous taken = Stmt.allAnonymous body ∧ depth ≤ left + w.length ∧
      program depth s = (program left s₁).map (taken ++ ·) := by
  induction body generalizing w depth s with
  | nil =>
    cases h
    exact ⟨[], s, depth, hs, rfl, rfl, Nat.le_refl _, (Reply.map_same _).symm⟩
  | cons x body ih =>
    cases h with
    | @declarations _ _ u v hx hbody =>
      have hb := hx.beginsWell
      have hpos := hb.length_pos
      simp only [List.length_append] at hd
      simp only [List.append_assoc] at hs
      obtain ⟨next, z, hz, hnext⟩ := exists_next hbody ht rest
      obtain ⟨depth, rfl⟩ : ∃ d, depth = d + 1 := ⟨depth - 1, by omega⟩
      have hread : Takes 0 (declaration depth) s
          (fun v => ∃ y, v = some y ∧ y.anonymous = x.anonymous) (next :: z) :=
        (accepts_of_derives hx hl.1 hn.1).takes (by omega) (hz ▸ hs) fun _ => hnext
      obtain ⟨_, s₁, hfirst, hs₁, hrep₁, y, rfl, hy⟩ := hread.silent
      have hdepth : 14 + 16 * v.length ≤ depth := by omega
      obtain ⟨ys, s₂, left, hs₂, hrep₂, hys, hleft, hgo⟩ :=
        ih hbody hl.2 hn.2 hdepth (hs₁.trans hz.symm)
      obtain ⟨first, u, rfl, hopens⟩ := hb
      refine ⟨y :: ys, s₂, left, hs₂, hrep₂.trans hrep₁, by simp [Stmt.allAnonymous, hy, hys], ?_, ?_⟩
      · simp only [List.length_append]
        omega
      · have hend : s.current.kind ≠ .endOfInput := by
          rw [State.current_of_rest hs]
          exact (Kind.ne_of_opensDeclaration hopens).2.1
        have hstep : program (depth + 1) s = (program depth s₁).map ([y] ++ ·) := by
          rw [← map_apply, program]
          simp [Bind.bind, andThen, atEnd, hend, hfirst]
        rw [hstep, hgo, Reply.map_map]
        rfl

theorem outcome_map {α β : Type} (f : α → β) (n : ReferenceId) (r : Reply α) :
    (outcome n (r.map f)).1 = (outcome n r).1.map f := by
  cases r with
  | parsed v s =>
    simp only [Reply.map, outcome]
    split <;> rfl
  | _ => rfl

end Parsing

theorem Stmt.allAnonymous_append (a b : List Stmt) :
    Stmt.allAnonymous (a ++ b) = Stmt.allAnonymous a ++ Stmt.allAnonymous b := by
  induction a with
  | nil => rfl
  | cons s rest ih => simp [Stmt.allAnonymous, ih]

namespace Program

theorem ofTokens_anonymous (n m : ReferenceId) (tokens : List Token) :
    (ofTokens n tokens).1.map Stmt.allAnonymous = (ofTokens m tokens).1.map Stmt.allAnonymous := by
  have hlater : ∀ k, (ofTokens k tokens).1.map Stmt.allAnonymous =
      (ofTokens 0 tokens).1.map Stmt.allAnonymous := by
    intro k
    rw [ofTokens_later]
    obtain ⟨result, next⟩ := ofTokens 0 tokens
    cases result with
    | ok P => exact congrArg Except.ok (Stmt.allAnonymous_relabelAll (· + k) P)
    | error errors => exact congrArg Except.error (Diagnostic.map_relabel_shifted k errors)
  rw [hlater n, hlater m]

/-- Behind an accepted list the parser does what it does with the tokens that follow alone. -/
theorem ofTokens_after {front after : List Token} {last next : Token} {P : Program} {n : ReferenceId}
    (m k : ReferenceId) (honly : ∀ t ∈ front, t.kind ≠ .endOfInput) (hlast : last.kind = .endOfInput)
    (hP : (ofTokens n (front ++ [last])).1 = .ok P) (hnext : next.kind ≠ .keyword .elseWord)
    (hends : ∃ t ∈ next :: after, t.kind = .endOfInput) :
    (ofTokens k (front ++ next :: after)).1.map Stmt.allAnonymous =
      ((ofTokens m (next :: after)).1.map Stmt.allAnonymous).map (Stmt.allAnonymous P ++ ·) := by
  have hbuilt := ofTokens_sound hlast honly (Prod.ext hP rfl)
  have henough : 14 + 16 * front.length ≤ Parsing.depthFor (front ++ next :: after) := by
    simp only [Parsing.depthFor, List.length_append, List.length_cons]
    omega
  obtain ⟨taken, s, left, hrest, hreported, hsame, hleft, hprogram⟩ :=
    Parsing.program_after hbuilt.derives hbuilt.limits hbuilt.nearest
      (s := Parsing.State.start k (front ++ next :: after)) henough rfl hnext
  have hdepth : Parsing.depthFor (next :: after) ≤ left := by
    simp only [Parsing.depthFor, List.length_append, List.length_cons] at hleft ⊢
    omega
  -- The second list is parsed behind the first one as from its own start.
  have hclosed : (Parsing.State.start s.nextId (next :: after)).Closed := .inl hends
  have hagrees : (Parsing.State.start s.nextId (next :: after)).Agrees s := by
    refine ⟨?_, rfl, hreported⟩
    rcases hclosed.agrees.seen with ⟨w, e, rest, -, hunder, he, hw, -⟩ | ⟨hnil, -⟩
    · exact .inl ⟨w, e, rest, rest, hunder, he, hw, hrest.trans hw⟩
    · cases hnil
  have hsteady := (Parsing.steady_program hdepth).outcome hagrees
    ((Parsing.program_ends _ _ (Parsing.depthFor_suffices s.nextId _)).not_exhausted hclosed) s.nextId
  have halone : (ofTokens k (front ++ next :: after)).1 =
      (ofTokens s.nextId (next :: after)).1.map (taken ++ ·) := by
    rw [ofTokens, hprogram, Parsing.outcome_map, ofTokens, ← hsteady]
    cases Parsing.program left s <;> rfl
  rw [halone, ofTokens_anonymous m s.nextId]
  cases (ofTokens s.nextId (next :: after)).1 with
  | ok Q => exact congrArg Except.ok (by rw [Stmt.allAnonymous_append, hsame])
  | error errors => rfl

/-- Tokens behind an accepted list that do not start with an `else` are parsed as they are alone. If they
are accepted, so are both together, with the trees one after the other but for the identities. Otherwise
their errors are those of both together. -/
theorem ofTokens_compose {front back : List Token} {last final : Token} {P : Program}
    (n m k : ReferenceId) (honly : ∀ t ∈ front, t.kind ≠ .endOfInput) (hlast : last.kind = .endOfInput)
    (hP : (ofTokens n (front ++ [last])).1 = .ok P) (hfinal : final.kind = .endOfInput)
    (hnext : ∀ t ∈ (back ++ [final]).head?, t.kind ≠ .keyword .elseWord) :
    (∀ Q, (ofTokens m (back ++ [final])).1 = .ok Q →
      ∃ R, (ofTokens k (front ++ (back ++ [final]))).1 = .ok R ∧
        Stmt.allAnonymous R = Stmt.allAnonymous (P ++ Q)) ∧
    ∀ errors, (ofTokens m (back ++ [final])).1 = .error errors →
      (ofTokens k (front ++ (back ++ [final]))).1 = .error errors := by
  obtain ⟨next, after, hback⟩ : ∃ next after, back ++ [final] = next :: after := by
    cases back <;> simp
  have hends : ∃ t ∈ next :: after, t.kind = .endOfInput := ⟨final, by simp [← hback], hfinal⟩
  rw [hback] at hnext ⊢
  -- Up to identities the one parse is a function of the other, and each kind of result decides the case.
  have hboth := ofTokens_after m k honly hlast hP (hnext next rfl) hends
  refine ⟨fun Q hQ => ?_, fun errors herrors => ?_⟩
  · rw [hQ] at hboth
    cases hR : (ofTokens k (front ++ next :: after)).1 with
    | ok R =>
      rw [hR] at hboth
      exact ⟨R, rfl, (Except.ok.inj hboth).trans (Stmt.allAnonymous_append P Q).symm⟩
    | error errors =>
      rw [hR] at hboth
      cases hboth
  · rw [herrors] at hboth
    cases hR : (ofTokens k (front ++ next :: after)).1 with
    | ok R =>
      rw [hR] at hboth
      cases hboth
    | error found =>
      rw [hR] at hboth
      exact congrArg Except.error (Except.error.inj hboth)

def openIf : List Token :=
  [⟨.keyword .ifWord, "if", 1⟩, ⟨.mark .leftParen, "(", 1⟩, ⟨.identifier, "a", 1⟩,
   ⟨.mark .rightParen, ")", 1⟩, ⟨.identifier, "b", 1⟩, ⟨.mark .semicolon, ";", 1⟩]

def twoValues : List Token :=
  [⟨.keyword .printWord, "print", 2⟩, ⟨.identifier, "c", 2⟩, ⟨.identifier, "d", 2⟩,
   ⟨.mark .semicolon, ";", 2⟩]

/-- The error of a statement that comes after others is the one that it has alone. -/
theorem ofTokens_compose_twoValues :
    (∃ P, (ofTokens 0 (openIf ++ [⟨.endOfInput, "", 1⟩])).1 = .ok P) ∧
      (ofTokens 7 (openIf ++ (twoValues ++ [⟨.endOfInput, "", 2⟩]))).1 =
        .error [.grammatical ⟨.identifier, "d", 2⟩ (.expected .printEnd)] := by
  have hP : (ofTokens 0 (openIf ++ [⟨.endOfInput, "", 1⟩])).1 =
      .ok [.branch (.variable ⟨0, ⟨.identifier, "a", 1⟩⟩)
        (.expression (.variable ⟨1, ⟨.identifier, "b", 1⟩⟩)) none] := by cbv
  have hQ : (ofTokens 3 (twoValues ++ [⟨.endOfInput, "", 2⟩])).1 =
      .error [.grammatical ⟨.identifier, "d", 2⟩ (.expected .printEnd)] := by cbv
  exact ⟨⟨_, hP⟩, (ofTokens_compose 0 3 7 (by decide) rfl hP rfl (by decide)).2 _ hQ⟩

end Program

end LoxLang
