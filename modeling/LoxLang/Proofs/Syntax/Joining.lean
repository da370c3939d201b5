import LoxLang.Proofs.Syntax.Blindness
import LoxLang.Proofs.Syntax.Correctness
import LoxLang.Proofs.Syntax.Filling

set_option autoImplicit false

namespace LoxLang

theorem Stmt.listReferences_append (a b : List Stmt) :
    Stmt.listReferences (a ++ b) = Stmt.listReferences a ++ Stmt.listReferences b := by
  induction a with
  | nil => rfl
  | cons s rest ih => simp [Stmt.listReferences, ih]

theorem Stmt.allWithinLimits_append {a b : List Stmt} (ha : Stmt.AllWithinLimits a)
    (hb : Stmt.AllWithinLimits b) : Stmt.AllWithinLimits (a ++ b) := by
  induction a with
  | nil => exact hb
  | cons s rest ih => exact ⟨ha.1, ih ha.2⟩

theorem Stmt.allNearestElse_append {a b : List Stmt} (ha : Stmt.AllNearestElse a)
    (hb : Stmt.AllNearestElse b) : Stmt.AllNearestElse (a ++ b) := by
  induction a with
  | nil => exact hb
  | cons s rest ih => exact ⟨ha.1, ih ha.2⟩

theorem Derives.append {a b : List Stmt} {u v : List Token} (ha : Derives (.declarations a) u)
    (hb : Derives (.declarations b) v) : Derives (.declarations (a ++ b)) (u ++ v) := by
  induction a generalizing u with
  | nil =>
    cases ha
    exact hb
  | cons s rest ih =>
    cases ha with
    | declarations hs hrest =>
      rw [List.append_assoc]
      exact .declarations hs (ih hrest)

theorem Built.append {a b : List Stmt} {u v : List Token} {lo mid hi : ReferenceId}
    (ha : Built (.declarations a) u lo mid) (hb : Built (.declarations b) v mid hi) :
    Built (.declarations (a ++ b)) (u ++ v) lo hi where
  derives := ha.derives.append hb.derives
  limits := Stmt.allWithinLimits_append ha.limits hb.limits
  nearest := Stmt.allNearestElse_append ha.nearest hb.nearest
  drawn := by
    have h := ha.drawn.append hb.drawn
    rwa [← identities_append, Phrase.references, Phrase.references, ← Stmt.listReferences_append] at h

/-- The second program is the first one with other lines and other identities, those of the first one kept
apart. -/
structure Program.Renamed (ρ : Relabeling) (P Q : Program) : Prop where
  relabels : Stmt.relabelAll ρ P = Q
  apart : ∀ i ∈ identities (Stmt.listReferences P), ∀ j ∈ identities (Stmt.listReferences P),
    ρ.identity i = ρ.identity j → i = j

namespace Program

variable {front body tokens : List Token} {last final : Token} {P Q R : Program}
  {n mid next : ReferenceId}

theorem Renamed.of_allAnonymous (h : Stmt.allAnonymous P = Stmt.allAnonymous Q)
    (hP : (identities (Stmt.listReferences P)).Nodup) (hQ : (identities (Stmt.listReferences Q)).Nodup) :
    ∃ f, Renamed (.ofIdentities f) P Q := by
  obtain ⟨f, hf, hapart⟩ := Stmt.exists_relabel h hP hQ
  exact ⟨f, hf, hapart⟩

theorem ofTokens_again (hlast : last.kind = .endOfInput) (honly : ∀ t ∈ front, t.kind ≠ .endOfInput)
    (h : ofTokens n (front ++ [last]) = (.ok P, next)) (m : ReferenceId) :
    ∃ P' next' f, ofTokens m (front ++ [last]) = (.ok P', next') ∧ Renamed (.ofIdentities f) P P' := by
  have hbuilt := ofTokens_sound hlast honly h
  obtain ⟨P', hP', hsame⟩ := ofTokens_complete (n := m) hlast hbuilt.derives hbuilt.limits hbuilt.nearest
  have hbuilt' := ofTokens_sound hlast honly (Prod.ext hP' rfl)
  obtain ⟨f, hf⟩ := Renamed.of_allAnonymous hsame.symm hbuilt.drawn.nodup hbuilt'.drawn.nodup
  exact ⟨P', _, f, Prod.ext hP' rfl, hf⟩

/-- Tokens that but for the lines are those of two programs are accepted, and their tree is that of the
two programs but for the lines and the identities. -/
theorem ofTokens_joined {φ : Nat → Nat} (hzero : φ 0 = 0) (hlast : last.kind = .endOfInput)
    (honly : ∀ t ∈ front, t.kind ≠ .endOfInput) (hfinal : final.kind = .endOfInput)
    (hbody : ∀ t ∈ body, t.kind ≠ .endOfInput) (hP : ofTokens n (front ++ [last]) = (.ok P, mid))
    (hQ : ofTokens mid (body ++ [final]) = (.ok Q, next))
    (htokens : tokens.map (Token.relabel (.ofLines φ)) = front ++ (body ++ [final])) :
    ∃ R next' f, ofTokens n tokens = (.ok R, next') ∧ Renamed ⟨φ, f⟩ R (P ++ Q) := by
  have hbuilt := (ofTokens_sound hlast honly hP).append (ofTokens_sound hfinal hbody hQ)
  obtain ⟨S, hS, hsame⟩ := ofTokens_complete (n := n) hfinal hbuilt.derives hbuilt.limits hbuilt.nearest
  have hboth : ∀ t ∈ front ++ body, t.kind ≠ .endOfInput := by
    intro t ht
    exact (List.mem_append.mp ht).elim (honly t) (hbody t)
  have hSbuilt := ofTokens_sound hfinal hboth (Prod.ext hS rfl)
  obtain ⟨f, hf⟩ := Renamed.of_allAnonymous hsame hSbuilt.drawn.nodup hbuilt.drawn.nodup
  -- The tree of the tokens themselves has the same identities, on its own lines.
  have hblind := ofTokens_relabel n tokens fun _ => hzero
  rw [htokens, ← List.append_assoc] at hblind
  rw [hblind] at hS
  cases hR : ofTokens n tokens with
  | mk result next' =>
    rw [hR] at hS
    cases result with
    | error errors => cases hS
    | ok R =>
      obtain rfl : Stmt.relabelAll (.ofLines φ) R = S := Except.ok.inj hS
      have hids : identities (Stmt.listReferences (Stmt.relabelAll (.ofLines φ) R)) =
          identities (Stmt.listReferences R) := by
        rw [Stmt.listReferences_relabelAll, identities_relabel]
        exact List.map_id _
      refine ⟨R, next', f, rfl, ?_, fun i hi j hj => hf.apart i (hids ▸ hi) j (hids ▸ hj)⟩
      rw [← hf.relabels, Stmt.relabelAll_relabelAll]
      rfl

end Program

end LoxLang
