import LoxLang.Proofs.Scope.Recording
import LoxLang.Proofs.Session.History
import LoxLang.Proofs.Syntax.StatementSoundness

set_option autoImplicit false

namespace LoxLang

namespace Session

variable {s s₁ : Session} {source : String} {P : Program}

theorem numbered_of_tokens {tokens : List Token} {lo hi : ReferenceId}
    (htokens : Token.ofSource source = .ok tokens) (hP : Program.ofTokens lo tokens = (.ok P, hi)) :
    Program.Numbered lo hi P := by
  obtain ⟨body, last, rfl, hlast⟩ := Token.ofSource_ended htokens
  obtain ⟨w, t, rest, happend, -, hbuilt⟩ := Program.ofTokens_built hlast hP
  have hw : ∀ u ∈ w, u.Genuine := fun u hu => Token.ofSource_genuine htokens u (by simp [happend, hu])
  exact ⟨hbuilt.derives.proper hw, hbuilt.derives.spelled hw, hbuilt.drawn⟩

theorem prepare_numbered (h : s.prepare source = (.ok P, s₁)) :
    Program.Numbered s.nextId s₁.nextId P := by
  obtain ⟨tokens, hops, htokens, hprogram, -, -⟩ := prepare_ok h
  exact numbered_of_tokens htokens hprogram

theorem prepare_proper (h : s.prepare source = (.ok P, s₁)) : Stmt.AllProper P :=
  (prepare_numbered h).proper

theorem prepare_drawn (h : s.prepare source = (.ok P, s₁)) :
    Drawn s.nextId s₁.nextId (identities (Stmt.listReferences P)) :=
  (prepare_numbered h).drawn

theorem prepare_controlled (h : s.prepare source = (.ok P, s₁)) :
    Stmt.AllControlled .outside false P := by
  obtain ⟨tokens, hops, -, -, hresolve, -⟩ := prepare_ok h
  exact (Stmt.controlled_of_resolveList .program P .start (Program.resolve_ok hresolve).1).2

theorem prepare_lawful (h : s.prepare source = (.ok P, s₁)) :
    AllSatisfy Declaration.Lawful (Stmt.allDeclared P) :=
  Stmt.allDeclared_lawful P (prepare_proper h) (prepare_controlled h)

/-- All functions that a session ever made come from accepted programs. -/
theorem After.lawful {history : List Performance} (hs : s.After history) :
    s.AtRest ∧ s.machine.store.Stored Declaration.Lawful := by
  induction hs with
  | start sink input clock => exact ⟨atRest_start _ _ _, Store.stored_start _⟩
  | @run _ s _ _ _ source _ hs h ih =>
    have hP : ∀ P, s.accepts source P → AllSatisfy Declaration.Lawful (Stmt.allDeclared P) :=
      fun P hP => prepare_lawful (prepare_of_accepts hP)
    exact (runAs_keeps Declaration.hereditary_lawful hP ih.2 ih.1 h).symm
  | facing sink input clock hs ih => exact ⟨⟨ih.1.cursor, ih.1.calls⟩, ih.2⟩

end Session

end LoxLang
