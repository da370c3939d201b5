import LoxLang.Proofs.Session.Bracing

set_option autoImplicit false

namespace LoxLang

namespace Session

variable {history : List Performance} {s : Session} {source : String}

/-- Loops in textbook form change neither what is reported of a program nor how it runs, if no `continue`
of theirs is in their bodies. Whatever is in its body, a loop ends in its last pass, after passes in each of
which the increment is run once, and after a `continue` it is run and then the condition is evaluated. -/
theorem loops_mean_textbook (hs : s.Hosted history) {tokens : List Token} {P P' : Program}
    {nextId : ReferenceId} (htokens : Token.ofSource source = .ok tokens)
    (hP : Program.ofTokens s.nextId tokens = (.ok P, nextId)) (h : Stmt.AllRewritten true P P') :
    (∀ errors, P'.resolve = .error errors ↔ P.resolve = .error errors) ∧
      (∀ fuel a, s.run fuel source = some a →
        ∃ b, s.runTree (7 * fuel) nextId P' = some b ∧ SameOutcome a b) ∧
      (∀ fuel b, s.runTree fuel nextId P' = some b →
        ∃ a, s.run fuel source = some a ∧ SameOutcome a b) ∧
      (∀ c n b fuel m o, o ≠ .exhausted →
        (iterate fuel c n b m = o ↔
          ∃ rest m₁, LoopTests c n b fuel m (rest + 1) m₁ ∧ LastPass c n b rest m₁ o)) ∧
      ∀ c n b fuel m rest m₁ v m₂ m₃, LoopTests c n b fuel m (rest + 1) m₁ →
        evaluate rest c m₁ = .answer v m₂ → v.truthy = true →
        execute rest b m₂ = .answer .continued m₃ →
        iterate fuel c n b m = (do increase rest n; iterate rest c n b) m₃ := by
  obtain ⟨herrors, hforward, hbackward⟩ := rewriting_changes_nothing hs htokens hP h
  refine ⟨herrors, hforward, hbackward, fun c n b fuel m o ho => iterate_eq_iff ho, ?_⟩
  intro c n b fuel m rest m₁ v m₂ m₃ htests hc hv hb
  exact htests.run_eq_of_continued hc hv hb

/-- A loop whose first clause declares the variable that the increment assigns, and one that has nothing
but a `continue` in its body. -/
theorem loops_mean_textbook_once :
    let name : Token := ⟨.identifier, "a", 1⟩
    let always : Expr := .literal (.boolean true)
    let again : Stmt := .continueLoop ⟨.keyword .continueWord, "continue", 1⟩
    let first : Stmt := .declareVar name (some (.literal (.boolean true)))
    let condition : Expr := .variable ⟨0, name⟩
    let increment : Stmt := .expression (.assign ⟨2, name⟩ (.literal (.boolean false)))
    let body : Stmt := .print (.variable ⟨3, name⟩)
    let source := "for (var a = true; a; a = false) print a;"
    ∃ tokens a b, Token.ofSource source = .ok tokens ∧
      Program.ofTokens 0 tokens = (.ok [.loop (some first) condition (some increment) body], 4) ∧
      (start .unlimited [] (.ticking 0)).run 6 source = some a ∧ a.1 = [] ∧ a.2.machine.sink.text = "true\n" ∧
      (start .unlimited [] (.ticking 0)).runTree 42 4
        [.block [first, .loop none condition none (.block [body, increment])]] = some b ∧
      SameOutcome a b ∧
      ∀ m, iterate 2 always (some increment) again m =
        (do increase 1 (some increment); iterate 1 always (some increment) again) m := by
  intro name always again first condition increment body source
  have haccepts : (start .unlimited [] (.ticking 0)).accepts source
      [.loop (some first) condition (some increment) body] := by
    show _ = _
    cbv
  have hnext : ((start .unlimited [] (.ticking 0)).prepare source).2.nextId = 4 := by cbv
  obtain ⟨tokens, -, htokens, hP, -, -⟩ := prepare_ok (prepare_of_accepts haccepts)
  rw [hnext] at hP
  have hrun : ((start .unlimited [] (.ticking 0)).runTree 6 4 [.loop (some first) condition (some increment) body]).map
      (fun r => (r.1, r.2.machine.sink.text)) = some ([], "true\n") := by
    cbv
  rw [← run_eq_runTree htokens hP] at hrun
  obtain ⟨a, ha, hresult⟩ := Option.map_eq_some_iff.mp hrun
  obtain ⟨herrors, htext⟩ := Prod.mk.inj hresult
  have hrewritten : Stmt.AllRewritten true [.loop (some first) condition (some increment) body]
      [.block [first, .loop none condition none (.block [body, increment])]] :=
    .cons (Stmt.rewritten_textbook (i := some first) (n := some _) rfl) .nil
  obtain ⟨-, hforward, -, -, hcontinued⟩ :=
    loops_mean_textbook (.start .unlimited [] (.ticking 0)) htokens hP hrewritten
  obtain ⟨b, hb, hsame⟩ := hforward 6 a ha
  refine ⟨tokens, a, b, htokens, hP, ha, herrors, htext, hb, hsame, fun m => ?_⟩
  have halways : evaluate 1 always m = .answer (.boolean true) m := by
    rw [evaluate]
    rfl
  have hagain : execute 1 again m = .answer .continued m := by
    rw [execute]
    rfl
  exact hcontinued always (some increment) again 2 m 1 m (.boolean true) m m .here halways rfl hagain

end Session

end LoxLang
