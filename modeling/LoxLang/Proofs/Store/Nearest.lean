import LoxLang.Proofs.Evaluation.Steps

set_option autoImplicit false

namespace LoxLang

namespace Store

/-- The environments from one on outwards, the last of which stands in no other one. -/
inductive Outward (s : Store) : FrameId → List FrameId → Prop
  | last {frame : FrameId} : s.enclosing? frame = none → Outward s frame [frame]
  | more {frame outer : FrameId} {rest : List FrameId} :
    s.enclosing? frame = some outer → Outward s outer rest → Outward s frame (frame :: rest)

variable {s : Store} {frame : FrameId} {chain : List FrameId} {name : String} {d : Nat}

namespace Outward

theorem unique {other : List FrameId} (h : s.Outward frame chain) (h' : s.Outward frame other) :
    chain = other := by
  induction h generalizing other with
  | last hnone =>
    cases h' with
    | last => rfl
    | more hsome => simp [hnone] at hsome
  | more hsome _ ih =>
    cases h' with
    | last hnone => simp [hnone] at hsome
    | more hother hrest =>
      obtain rfl := Option.some.inj (hsome.symm.trans hother)
      rw [ih hrest]

theorem drop {target : FrameId} (h : s.Outward frame chain) (hd : chain[d]? = some target) :
    s.Outward target (chain.drop d) := by
  induction h generalizing d with
  | last hnone =>
    cases d with
    | zero =>
      obtain rfl : _ = target := by simpa using hd
      exact .last hnone
    | succ d => simp at hd
  | more hsome hrest ih =>
    cases d with
    | zero =>
      obtain rfl : _ = target := by simpa using hd
      exact .more hsome hrest
    | succ d => exact ih (by simpa using hd)

/-- A chain visits no environment twice, since it would go round from there for ever. -/
theorem nodup (h : s.Outward frame chain) : chain.Nodup := by
  rw [List.nodup_iff_getElem?_ne_getElem?]
  intro i j hij hj hsame
  have hfirst := h.drop (List.getElem?_eq_getElem (hij.trans hj))
  have hsecond := h.drop (hsame.symm.trans (List.getElem?_eq_getElem (hij.trans hj)))
  have hlength := congrArg List.length (hfirst.unique hsecond)
  simp only [List.length_drop] at hlength
  omega

theorem ancestor? (h : s.Outward frame chain) (d : Nat) : s.ancestor? d frame = chain[d]? := by
  induction h generalizing d with
  | last hnone => cases d <;> simp [Store.ancestor?, hnone]
  | more hsome _ ih =>
    cases d with
    | zero => rfl
    | succ d => simp [Store.ancestor?, hsome, ih d]

theorem there {target : FrameId} (h : s.Outward frame chain) (hd : chain[d]? = some target)
    (hlast : d + 1 < chain.length) : target.index < s.frames.size := by
  have hdrop := h.drop hd
  generalize hrest : chain.drop d = rest at hdrop
  cases hdrop with
  | last =>
    have hlength := congrArg List.length hrest
    simp only [List.length_drop, List.length_singleton] at hlength
    omega
  | more hsome => exact (s.frame?_isSome_iff target).mp (frame?_of_enclosing? hsome)

end Outward

def BoundAt (s : Store) (chain : List FrameId) (name : String) (d : Nat) : Prop :=
  ∃ target, chain[d]? = some target ∧ (s.local? target name).isSome = true

theorem BoundAt.lt_length (h : s.BoundAt chain name d) : d < chain.length := by
  obtain ⟨target, htarget, -⟩ := h
  exact (List.getElem?_eq_some_iff.mp htarget).1

/-- The environments up to one that binds a name are all there and all different, so there are no more of
them than environments altogether. -/
theorem BoundAt.lt_size (h : s.BoundAt chain name d) (hchain : s.Outward frame chain) :
    d < s.frames.size := by
  have hlength := h.lt_length
  obtain ⟨target, htarget, hbound⟩ := h
  -- The indices up to the binding are different and belong to environments that are there.
  have hnodup : ((chain.take (d + 1)).map FrameId.index).Nodup := by
    refine (hchain.nodup.sublist (List.take_sublist _ _)).map fun f g hfg => ?_
    cases f
    cases g
    exact congrArg FrameId.mk hfg
  have hsubset : (chain.take (d + 1)).map FrameId.index ⊆ List.range s.frames.size := by
    intro index hindex
    obtain ⟨visited, hvisited, rfl⟩ := List.mem_map.mp hindex
    obtain ⟨i, hi⟩ := List.mem_iff_getElem?.mp hvisited
    have hid : i < d + 1 := by
      have hlt := (List.getElem?_eq_some_iff.mp hi).1
      simp only [List.length_take] at hlt
      omega
    rw [List.getElem?_take_of_lt hid] at hi
    rw [List.mem_range]
    by_cases hlast : i = d
    · obtain rfl : target = visited := Option.some.inj (htarget.symm.trans (hlast ▸ hi))
      obtain ⟨value, hvalue⟩ := Option.isSome_iff_exists.mp hbound
      exact (s.frame?_isSome_iff target).mp (frame?_of_local? hvalue)
    · exact hchain.there hi (by omega)
  have hcount := (List.subperm_of_subset hnodup hsubset).length_le
  simp only [List.length_map, List.length_take, List.length_range] at hcount
  omega

theorem boundAt_zero {rest : List FrameId} :
    s.BoundAt (frame :: rest) name 0 ↔ (s.local? frame name).isSome = true := by
  simp [BoundAt]

theorem boundAt_succ {rest : List FrameId} :
    s.BoundAt (frame :: rest) name (d + 1) ↔ s.BoundAt rest name d := by
  simp [BoundAt]

/-- The search stops at the nearest binding, if it may go so far. -/
theorem Outward.binder? (h : s.Outward frame chain) {bound : Nat} (hd : s.BoundAt chain name d)
    (hleast : ∀ i < d, ¬ s.BoundAt chain name i) (hbound : d < bound) :
    s.binder? name bound frame = chain[d]? := by
  induction h generalizing d bound with
  | last hnone =>
    obtain rfl : d = 0 := by simpa using hd.lt_length
    obtain ⟨bound, rfl⟩ := Nat.exists_eq_add_of_lt hbound
    simp [Store.binder?, boundAt_zero.mp hd]
  | more hsome _ ih =>
    obtain ⟨bound, rfl⟩ : ∃ more, bound = more + 1 := ⟨bound - 1, by omega⟩
    cases d with
    | zero => simp [Store.binder?, boundAt_zero.mp hd]
    | succ d =>
      have hfirst : ¬ (s.local? _ name).isSome = true := fun hlocal =>
        hleast 0 d.succ_pos (boundAt_zero.mpr hlocal)
      have hrest := ih (boundAt_succ.mp hd)
        (fun i hi hbinds => hleast (i + 1) (Nat.succ_lt_succ hi) (boundAt_succ.mpr hbinds))
        (Nat.lt_of_succ_lt_succ hbound)
      simp [Store.binder?, hfirst, hsome, hrest]

theorem Outward.binder?_eq_none (h : s.Outward frame chain) (bound : Nat)
    (hnone : ∀ i, ¬ s.BoundAt chain name i) : s.binder? name bound frame = none := by
  induction h generalizing bound with
  | last hend =>
    cases bound with
    | zero => rfl
    | succ bound =>
      have hfirst : ¬ (s.local? _ name).isSome = true := fun hlocal => hnone 0 (boundAt_zero.mpr hlocal)
      simp [Store.binder?, hfirst, hend]
  | more hsome _ ih =>
    cases bound with
    | zero => rfl
    | succ bound =>
      have hfirst : ¬ (s.local? _ name).isSome = true := fun hlocal => hnone 0 (boundAt_zero.mpr hlocal)
      have hrest := ih bound fun i hbinds => hnone (i + 1) (boundAt_succ.mpr hbinds)
      simp [Store.binder?, hfirst, hsome, hrest]

theorem exists_nearest (h : ¬ ∀ i, ¬ s.BoundAt chain name i) :
    ∃ d, IsLeast {i | s.BoundAt chain name i} d := by
  simp only [not_forall, not_not] at h
  classical
  exact ⟨Nat.find h, Nat.find_spec h, fun i hi => Nat.find_min' h hi⟩

theorem Outward.holder (h : s.Outward frame chain) (hd : IsLeast {i | s.BoundAt chain name i} d) :
    ∃ target, chain[d]? = some target ∧ (s.local? target name).isSome = true ∧
      s.holder frame name = .ok target := by
  obtain ⟨target, htarget, hbound⟩ := id hd.1
  have hnearest : s.nearest? frame name = some target :=
    (h.binder? hd.1 (fun i hi hbinds => absurd (hd.2 hbinds) (Nat.not_le.mpr hi))
      (hd.1.lt_size h)).trans htarget
  exact ⟨target, htarget, hbound, by simp [Store.holder, hnearest]⟩

theorem Outward.holder_eq_error (h : s.Outward frame chain) (hnone : ∀ i, ¬ s.BoundAt chain name i) :
    s.holder frame name = .error (.undefinedVariable name) := by
  have hnearest : s.nearest? frame name = none := h.binder?_eq_none s.frames.size hnone
  simp [Store.holder, hnearest]

theorem Outward.holderAt (h : s.Outward frame chain) (d : Nat) (name : String) :
    s.holderAt frame d name =
      match chain[d]? with
      | none => .error (.noScope d name)
      | some target =>
        if (s.local? target name).isSome then .ok target else .error (.undefinedVariable name) := by
  cases hd : chain[d]? <;> simp [Store.holderAt, h.ancestor?, hd]

theorem Outward.holderAt_eq_ok_iff (h : s.Outward frame chain) {target : FrameId} :
    s.holderAt frame d name = .ok target ↔
      chain[d]? = some target ∧ (s.local? target name).isSome = true := by
  rw [h.holderAt]
  cases hd : chain[d]? with
  | none => simp
  | some other =>
    by_cases hbound : (s.local? other name).isSome = true <;> grind

theorem Outward.holderAt_eq_noScope_iff (h : s.Outward frame chain) :
    s.holderAt frame d name = .error (.noScope d name) ↔ chain.length ≤ d := by
  rw [h.holderAt, ← List.getElem?_eq_none_iff]
  cases hd : chain[d]? with
  | none => simp
  | some other => by_cases hbound : (s.local? other name).isSome = true <;> simp [hbound]

theorem read_ok {target : FrameId} {value : Value} (h : s.local? target name = some value) :
    s.read name (.ok target) = .ok value := by
  simp [read, h]

theorem read_eq_error_iff {holder : Except RuntimeError FrameId} {cause : RuntimeError}
    (h : ∀ target, holder = .ok target → (s.local? target name).isSome = true) :
    s.read name holder = .error cause ↔ holder = .error cause := by
  cases holder with
  | error other => simp [read]
  | ok target =>
    obtain ⟨value, hvalue⟩ := Option.isSome_iff_exists.mp (h target rfl)
    simp [read, hvalue]

/-- The second store is the first one with a binding that was there changed, and nothing else. -/
structure Rebinds (s : Store) (frame : FrameId) (name : String) (value : Value) (s' : Store) : Prop where
  bound : (s.local? frame name).isSome = true
  rebound : s'.local? frame name = some value
  others : ∀ id other, (id, other) ≠ (frame, name) → s'.local? id other = s.local? id other
  enclosing : ∀ id, s'.enclosing? id = s.enclosing? id
  frames : s'.frames.size = s.frames.size
  functions : s'.functions = s.functions
  classes : s'.classes = s.classes
  objects : s'.objects = s.objects

theorem rebinds_bind (h : (s.local? frame name).isSome = true) (value : Value) :
    s.Rebinds frame name value (s.bind frame name value) where
  bound := h
  rebound := by
    obtain ⟨old, hold⟩ := Option.isSome_iff_exists.mp h
    simp [local?_bind, frame?_of_local? hold]
  others id other hne := by
    rw [local?_bind, if_neg]
    rintro ⟨rfl, rfl, -⟩
    exact hne rfl
  enclosing id := s.enclosing?_bind frame id name value
  frames := by simp [bind]
  functions := rfl
  classes := rfl
  objects := rfl

theorem map_eq_error_iff {holder : Except RuntimeError FrameId} {cause : RuntimeError}
    {f : FrameId → Store} : holder.map f = .error cause ↔ holder = .error cause := by
  cases holder <;> simp [Except.map]

theorem Outward.assignAt (h : s.Outward frame chain) {value : Value} {s' : Store}
    (hassign : s.assignAt frame d name value = .ok s') :
    ∃ target, chain[d]? = some target ∧ s.Rebinds target name value s' := by
  unfold Store.assignAt at hassign
  cases hholder : s.holderAt frame d name with
  | error cause => simp [hholder, Except.map] at hassign
  | ok target =>
    obtain ⟨hd, hbound⟩ := h.holderAt_eq_ok_iff.mp hholder
    obtain rfl : _ = s' := by simpa [hholder, Except.map] using hassign
    exact ⟨target, hd, rebinds_bind hbound value⟩

end Store

def Machine.assigned (m : Machine) (line : Nat) : Except RuntimeError Store → Outcome Unit
  | .ok store => .answer () { m with store }
  | .error cause => .fault (.runtime line cause) m

theorem Eval.assign_searched {target : Reference} {m : Machine} (h : m.hops[target.id]? = none)
    (value : Value) :
    Eval.assign target value m =
      m.assigned target.name.line (m.store.assign Store.globals target.name.lexeme value) := by
  have hcursor : Eval.view Machine.cursor m = .answer m.cursor m := rfl
  have hhops : Eval.view Machine.hops m = .answer m.hops m := rfl
  unfold Eval.assign Store.assign
  rw [Eval.bind_of_answer hcursor, Eval.bind_of_answer hhops, h]
  change (Eval.ofExcept _ (m.store.holder Store.globals target.name.lexeme) >>= _) m = _
  cases m.store.holder Store.globals target.name.lexeme <;> rfl

theorem Eval.assign_counted {target : Reference} {m : Machine} {d : Nat}
    (h : m.hops[target.id]? = some d) (value : Value) :
    Eval.assign target value m =
      m.assigned target.name.line (m.store.assignAt m.cursor d target.name.lexeme value) := by
  have hcursor : Eval.view Machine.cursor m = .answer m.cursor m := rfl
  have hhops : Eval.view Machine.hops m = .answer m.hops m := rfl
  unfold Eval.assign Store.assignAt
  rw [Eval.bind_of_answer hcursor, Eval.bind_of_answer hhops, h]
  change (Eval.ofExcept _ (m.store.holderAt m.cursor d target.name.lexeme) >>= _) m = _
  cases m.store.holderAt m.cursor d target.name.lexeme <;> rfl

namespace Store

variable {s : Store} {frame : FrameId} {chain : List FrameId}

theorem Outward.lookup_eq_error_iff (h : s.Outward frame chain) {name : String} :
    s.lookup frame name = .error (.undefinedVariable name) ↔ ∀ i, ¬ s.BoundAt chain name i := by
  constructor
  · intro hlookup
    by_contra hbinds
    obtain ⟨d, hd⟩ := exists_nearest hbinds
    obtain ⟨target, -, hbound, hholder⟩ := h.holder hd
    obtain ⟨found, hfound⟩ := Option.isSome_iff_exists.mp hbound
    simp [lookup, hholder, read_ok hfound] at hlookup
  · intro hnone
    simp [lookup, h.holder_eq_error hnone, read]

theorem Outward.assign_eq_error_iff (h : s.Outward frame chain) {name : String} {value : Value} :
    s.assign frame name value = .error (.undefinedVariable name) ↔ ∀ i, ¬ s.BoundAt chain name i := by
  constructor
  · intro hassign
    by_contra hbinds
    obtain ⟨d, hd⟩ := exists_nearest hbinds
    obtain ⟨target, -, -, hholder⟩ := h.holder hd
    simp [assign, hholder, Except.map] at hassign
  · intro hnone
    simp [assign, h.holder_eq_error hnone, Except.map]

/-- In an environment whose chain is finite, a name is found by a search exactly as it is found by going up
to the nearest environment that binds it, and where no environment of the chain does, the search reports it.
An assignment succeeds in the same cases and changes that binding and nothing else; one that fails leaves
the machine as it was. Going up fails for want of an environment where the chain is too short, and only
there. -/
theorem nearest_binding (h : s.Outward frame chain) (name : String) (value : Value) :
    (∀ d, IsLeast {i | s.BoundAt chain name i} d →
      ∃ target found s', chain[d]? = some target ∧ s.local? target name = some found ∧
        s.lookup frame name = .ok found ∧ s.lookupAt frame d name = .ok found ∧
        s.assign frame name value = .ok s' ∧ s.assignAt frame d name value = .ok s' ∧
        s.Rebinds target name value s') ∧
    (s.lookup frame name = .error (.undefinedVariable name) ↔ ∀ i, ¬ s.BoundAt chain name i) ∧
    (s.assign frame name value = .error (.undefinedVariable name) ↔ ∀ i, ¬ s.BoundAt chain name i) ∧
    (∀ d s', s.assignAt frame d name value = .ok s' →
      ∃ target, chain[d]? = some target ∧ s.Rebinds target name value s') ∧
    (∀ d, (s.lookupAt frame d name = .error (.noScope d name) ↔ chain.length ≤ d) ∧
      (s.assignAt frame d name value = .error (.noScope d name) ↔ chain.length ≤ d)) ∧
    (∀ (m : Machine) (target : Reference), m.store = s → target.name.lexeme = name →
      (m.hops[target.id]? = none → frame = globals →
        Eval.assign target value m = m.assigned target.name.line (s.assign frame name value)) ∧
      ∀ d, m.hops[target.id]? = some d → m.cursor = frame →
        Eval.assign target value m =
          m.assigned target.name.line (s.assignAt frame d name value)) := by
  refine ⟨fun d hd => ?_, h.lookup_eq_error_iff, h.assign_eq_error_iff, fun d s' => h.assignAt,
    fun d => ⟨?_, ?_⟩, ?_⟩
  · obtain ⟨target, htarget, hbound, hholder⟩ := h.holder hd
    obtain ⟨found, hfound⟩ := Option.isSome_iff_exists.mp hbound
    have hholderAt : s.holderAt frame d name = .ok target := h.holderAt_eq_ok_iff.mpr ⟨htarget, hbound⟩
    refine ⟨target, found, s.bind target name value, htarget, hfound, ?_, ?_, ?_, ?_,
      rebinds_bind hbound value⟩
    · rw [lookup, hholder, read_ok hfound]
    · rw [lookupAt, hholderAt, read_ok hfound]
    · rw [assign, hholder]
      rfl
    · rw [assignAt, hholderAt]
      rfl
  · rw [lookupAt, read_eq_error_iff fun target htarget => (h.holderAt_eq_ok_iff.mp htarget).2]
    exact h.holderAt_eq_noScope_iff
  · rw [assignAt, map_eq_error_iff]
    exact h.holderAt_eq_noScope_iff
  · rintro m target rfl rfl
    refine ⟨?_, ?_⟩
    · rintro hhops rfl
      exact Eval.assign_searched hhops value
    · rintro d hhops rfl
      exact Eval.assign_counted hhops value

private def shadowing : Store :=
  { Store.empty with
    frames := #[⟨Dictionary.insert ∅ "a" .nil, none⟩,
      ⟨Dictionary.insert ∅ "a" (.boolean true), some globals⟩, ⟨∅, some globals⟩] }

/-- An assignment in the shadowing environment is not seen from the other one. -/
theorem nearest_binding_shadowed :
    shadowing.Outward ⟨1⟩ [⟨1⟩, globals] ∧ ∃ s', shadowing.assign ⟨1⟩ "a" (.boolean false) = .ok s' ∧
      shadowing.assignAt ⟨1⟩ 0 "a" (.boolean false) = .ok s' ∧
      s'.local? ⟨1⟩ "a" = some (.boolean false) ∧ s'.local? globals "a" = some .nil ∧
      shadowing.lookupAt ⟨1⟩ 2 "a" = .error (.noScope 2 "a") := by
  have hchain : shadowing.Outward ⟨1⟩ [⟨1⟩, globals] := .more rfl (.last rfl)
  obtain ⟨hnearest, -, -, -, hnoScope, -⟩ := nearest_binding hchain "a" (.boolean false)
  have hbound : shadowing.local? ⟨1⟩ "a" = some (.boolean true) := by
    simp [shadowing, local?, frame?]
  have hleast : IsLeast {i | shadowing.BoundAt [⟨1⟩, globals] "a" i} 0 :=
    ⟨boundAt_zero.mpr (by simp [hbound]), fun i _ => i.zero_le⟩
  obtain ⟨target, -, s', htarget, -, -, -, hassign, hassignAt, hrebinds⟩ := hnearest 0 hleast
  obtain rfl : ⟨1⟩ = target := by simpa using htarget
  refine ⟨hchain, s', hassign, hassignAt, hrebinds.rebound, ?_, (hnoScope 2).1.mpr (by simp)⟩
  rw [hrebinds.others globals "a" (by simp [globals])]
  simp [shadowing, local?, frame?, globals]

end Store

end LoxLang
