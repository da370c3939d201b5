import LoxLang.Proofs.Evaluation.Visits

set_option autoImplicit false

namespace LoxLang

mutual
theorem Stmt.references_of_declared {d : Declaration} {i : Bool} : ∀ s : Stmt, (d, i) ∈ s.declared →
    ∀ r ∈ d.references, r ∈ s.references
  | .block body, h, r, hr => Stmt.references_of_allDeclared body h r hr
  | .branch c t (some e), h, r, hr => by
    rcases List.mem_append.mp h with h | h
    · have := Stmt.references_of_declared t h r hr
      simp [Stmt.references, this]
    · have := Stmt.references_of_declared e h r hr
      simp [Stmt.references, this]
  | .branch c t none, h, r, hr => by
    have := Stmt.references_of_declared t h r hr
    simp [Stmt.references, this]
  | .loop (some s) c n b, h, r, hr => by
    rcases List.mem_append.mp h with h | h
    · have := Stmt.references_of_declared s h r hr
      simp [Stmt.references, this]
    rcases List.mem_append.mp h with h | h
    · have := Stmt.references_of_optionDeclared n h r hr
      simp [Stmt.references, this]
    · have := Stmt.references_of_declared b h r hr
      simp [Stmt.references, this]
  | .loop none c n b, h, r, hr => by
    rcases List.mem_append.mp h with h | h
    · have := Stmt.references_of_optionDeclared n h r hr
      simp [Stmt.references, this]
    · have := Stmt.references_of_declared b h r hr
      simp [Stmt.references, this]
  | .declareFunction e, h, r, hr => by
    simp only [Stmt.declared, List.mem_singleton, Prod.mk.injEq] at h
    rw [Stmt.references, ← h.1]
    exact hr
  | .declareClass name base ds, h, r, hr => by
    simp only [Stmt.declared, List.mem_map, Prod.mk.injEq] at h
    obtain ⟨e, he, rfl, -⟩ := h
    exact List.mem_append_right _ (Declaration.references_of_mem ds he r hr)
  | .expression _, h, _, _ | .print _, h, _, _ | .declareVar _ _, h, _, _ | .returnWith _ _, h, _, _
  | .breakLoop _, h, _, _ | .continueLoop _, h, _, _ => by simp [Stmt.declared] at h

theorem Stmt.references_of_optionDeclared {d : Declaration} {i : Bool} : ∀ s : Option Stmt,
    (d, i) ∈ Stmt.optionDeclared s → ∀ r ∈ d.references, r ∈ Stmt.optionReferences s
  | none, h, _, _ => by simp [Stmt.optionDeclared] at h
  | some s, h, r, hr => by
    rw [Stmt.optionReferences]
    exact Stmt.references_of_declared s h r hr

theorem Stmt.references_of_allDeclared {d : Declaration} {i : Bool} : ∀ body : List Stmt,
    (d, i) ∈ Stmt.allDeclared body → ∀ r ∈ d.references, r ∈ Stmt.listReferences body
  | [], h, _, _ => by simp [Stmt.allDeclared] at h
  | s :: rest, h, r, hr => by
    rcases List.mem_append.mp h with h | h
    · exact List.mem_append_left _ (Stmt.references_of_declared s h r hr)
    · exact List.mem_append_right _ (Stmt.references_of_allDeclared rest h r hr)

theorem Declaration.references_of_mem {d : Declaration} : ∀ ds : List Declaration, d ∈ ds →
    ∀ r ∈ d.references, r ∈ Declaration.listReferences ds
  | [], h, _, _ => by simp at h
  | e :: rest, h, r, hr => by
    rcases List.mem_cons.mp h with rfl | h
    · exact List.mem_append_left _ hr
    · exact List.mem_append_right _ (Declaration.references_of_mem rest h r hr)
end

def Declaration.RefersTo (S : ReferenceId → Prop) (d : Declaration) (_ : Bool) : Prop :=
  ∀ r ∈ d.references, S r.2.id

section RefersTo

variable {S : ReferenceId → Prop}

theorem Stmt.allDeclared_refersTo {body : List Stmt} (h : ∀ r ∈ Stmt.listReferences body, S r.2.id) :
    AllSatisfy (Declaration.RefersTo S) (Stmt.allDeclared body) :=
  fun _ _ hd r hr => h r (Stmt.references_of_allDeclared body hd r hr)

theorem Declaration.hereditary_refersTo : Hereditary (Declaration.RefersTo S) := by
  rintro ⟨name, parameters, body⟩ i h
  exact Stmt.allDeclared_refersTo h

theorem Store.Stored.refersTo_mono {T : ReferenceId → Prop} {s : Store}
    (h : s.Stored (Declaration.RefersTo S)) (hST : ∀ id, S id → T id) :
    s.Stored (Declaration.RefersTo T) :=
  fun id f d hf hc r hr => hST _ (h id f d hf hc r hr)

end RefersTo

/-- The hop counts are the same, and the store has lost nothing. -/
structure Machine.Lasts (m m' : Machine) : Prop where
  hops : m'.hops = m.hops
  grows : m.store.Grows m'.store

namespace Machine.Lasts

variable {m m₁ m' : Machine}

theorem refl (m : Machine) : m.Lasts m := ⟨rfl, .refl _⟩

theorem trans (h : m.Lasts m₁) (h' : m₁.Lasts m') : m.Lasts m' :=
  ⟨h'.hops.trans h.hops, h.grows.trans h'.grows⟩

end Machine.Lasts

theorem Kept.lasts {D : Declaration → Bool → Prop} {m m' : Machine} (h : Kept D m m') : m.Lasts m' :=
  ⟨h.hops, h.grows⟩

theorem Machine.lasts_inner (m : Machine) : m.Lasts m.inner := ⟨rfl, m.store.grows_addFrame _⟩

theorem Machine.lasts_deeper (m : Machine) : m.Lasts m.deeper := ⟨rfl, .refl _⟩

namespace Activity

variable {a b : Activity} {change : Context → Context}

theorem Enters.lasts (h : a.Enters change b) : a.machine.Lasts b.machine := by
  cases h with
  | binaryRight h | logicalRight h | conditionalThen h | conditionalElse h | arguments h
  | newValue h | others h | print h | branchThen h | branchElse h | body h =>
    exact (evaluate_kept h).lasts
  | call hf hvs => exact (evaluate_kept hf).lasts.trans (evaluateAll_kept hvs).lasts
  | function | classCall => exact Machine.lasts_deeper _
  | @initializer _ _ m m₁ _ _ _ _ _ _ hobject _ hbound =>
    have hadded : m.Lasts m₁ := by
      cases hobject
      exact ⟨rfl, m.store.grows_addObject _⟩
    exact hadded.trans ((Eval.keeps_bindMethod _ _ (stored_any _)).answer hbound).lasts
  | text _ _ hbound =>
    exact ((Eval.keeps_bindMethod _ _ (stored_any _)).answer hbound).lasts.trans
      (Machine.lasts_deeper _)
  | @textOf _ line _ m₁ _ _ _ bound _ _ _ hbound _ hv =>
    have hready := ((Eval.keeps_bindMethod _ _ (stored_any _)).answer hbound).lasts.trans
      (Machine.lasts_deeper _)
    have hbody := ((preserves_any _).invoke line bound [] m₁.deeper (stored_any _)).answer hv
    exact hready.trans hbody.lasts
  | block | loopStart => exact Machine.lasts_inner _
  | started h => exact (Machine.lasts_inner _).trans (execute_kept h).lasts
  | tail h => exact (execute_kept h).lasts
  | increment hc _ hb _ | again hc _ hb _ =>
    exact (evaluate_kept hc).lasts.trans (execute_kept hb).lasts
  | incremented hc _ hb _ hn =>
    exact ((evaluate_kept hc).lasts.trans (execute_kept hb).lasts).trans (execute_kept hn).lasts
  | _ => exact .refl _

theorem Invokes.lasts {id : FunctionId} {d : Declaration} {frame : FrameId}
    (h : a.Invokes id d frame b) : a.machine.Lasts b.machine := by
  cases h with
  | body _ _ hframe =>
    have hkept := (Eval.keeps_parameterFrame _ _ _ (stored_any _)).answer hframe
    exact ⟨hkept.hops, hkept.grows⟩

theorem Visited.lasts {root : Activity → Prop} {m : Machine} (hroot : ∀ b, root b → m.Lasts b.machine)
    (h : a.Visited root) : m.Lasts a.machine := by
  induction h with
  | root h => exact hroot _ h
  | part _ h ih => exact ih.trans h.lasts
  | body _ h ih => exact ih.trans h.lasts

end Activity

theorem Performance.Begins.lasts {p : Performance} {a : Activity} (h : p.Begins a) :
    p.machine.Lasts a.machine := by
  cases h with
  | statements _ h =>
    generalize p.program = P at h
    generalize p.machine = m at h
    induction h with
    | statement => exact .refl _
    | next hs _ ih => exact (execute_kept hs).lasts.trans ih
  | echoed => exact .refl _
  | echo _ h => exact (evaluate_kept h).lasts

theorem Performance.lasts_visited {p : Performance} {a : Activity} (h : a.Visited p.Begins) :
    p.machine.Lasts a.machine :=
  h.lasts fun _ hb => hb.lasts

end LoxLang
