import LoxLang.Machine.Basic
import LoxLang.Proofs.Scope.Findings
import LoxLang.Proofs.Syntax.Identities

set_option autoImplicit false

namespace LoxLang

structure Lookup.Recorded (table : HopTable) (l : Lookup) : Prop where
  found : table[l.target.id]? = l.distance?
  sound : l.Sound
  spelled : l.kind.Spells l.target.name

def Records (table : HopTable) (lookups : List Lookup) : Prop := ∀ l ∈ lookups, l.Recorded table

theorem Records.left {table : HopTable} {a b : List Lookup} (h : Records table (a ++ b)) :
    Records table a := fun l hl => h l (List.mem_append_left _ hl)

theorem Records.right {table : HopTable} {a b : List Lookup} (h : Records table (a ++ b)) :
    Records table b := fun l hl => h l (List.mem_append_right _ hl)

/-- What is recorded is found, if an identity has no more than one hop count, and nothing else
changes. -/
theorem Machine.recordHops_found (m : Machine) {hops : List (ReferenceId × Nat)}
    (hone : ∀ entry ∈ hops, ∀ other ∈ hops, entry.1 = other.1 → entry = other) (id : ReferenceId) :
    (∀ d, (id, d) ∈ hops → (m.recordHops hops).hops[id]? = some d) ∧
      ((∀ d, (id, d) ∉ hops) → (m.recordHops hops).hops[id]? = m.hops[id]?) := by
  unfold recordHops
  dsimp only
  generalize m.hops = table
  induction hops generalizing table with
  | nil => simp
  | cons entry rest ih =>
    obtain ⟨hfound, hkept⟩ := ih (fun a ha b hb => hone a (List.mem_cons_of_mem _ ha) b
      (List.mem_cons_of_mem _ hb)) (table.insert entry.1 entry.2)
    rw [List.foldl_cons]
    refine ⟨fun d hd => ?_, fun hnone => ?_⟩
    · by_cases hrest : (id, d) ∈ rest
      · exact hfound d hrest
      · obtain rfl : (id, d) = entry := by simpa [hrest] using hd
        rw [hkept fun d' hd' => ?_]
        · simp
        · have hsame := hone _ List.mem_cons_self _ (List.mem_cons_of_mem _ hd') rfl
          exact hrest (hsame ▸ hd')
    · have hne : entry.1 ≠ id := by
        rintro rfl
        exact hnone entry.2 List.mem_cons_self
      rw [hkept fun d hd => hnone d (List.mem_cons_of_mem _ hd), Std.TreeMap.getElem?_insert,
        if_neg (by simpa using hne)]

theorem Machine.recordHops_same {m m' : Machine} {hops hops' : List (ReferenceId × Nat)}
    (hone : ∀ entry ∈ hops, ∀ other ∈ hops, entry.1 = other.1 → entry = other)
    (hone' : ∀ entry ∈ hops', ∀ other ∈ hops', entry.1 = other.1 → entry = other)
    {id id' : ReferenceId} (hsame : ∀ d, (id', d) ∈ hops' ↔ (id, d) ∈ hops)
    (hold : m'.hops[id']? = m.hops[id]?) :
    (m'.recordHops hops').hops[id']? = (m.recordHops hops).hops[id]? := by
  obtain ⟨hfound, hmissed⟩ := m.recordHops_found hone id
  obtain ⟨hfound', hmissed'⟩ := m'.recordHops_found hone' id'
  by_cases h : ∃ d, (id, d) ∈ hops
  · obtain ⟨d, hd⟩ := h
    rw [hfound d hd, hfound' d ((hsame d).mpr hd)]
  · rw [hmissed fun d hd => h ⟨d, hd⟩, hmissed' fun d hd => h ⟨d, (hsame d).mp hd⟩, hold]

theorem id_of_lookup {P : Program} {l : Lookup} (hl : l ∈ Stmt.listLookups P []) :
    l.target.id ∈ identities (Stmt.listReferences P) := by
  rw [identities, ← Stmt.map_listLookups P [], List.map_map]
  exact List.mem_map.mpr ⟨l, hl, rfl⟩

theorem lookup_eq_of_id {P : Program} {scopes : List Scope}
    (hids : (identities (Stmt.listReferences P)).Nodup) {l l' : Lookup}
    (hl : l ∈ Stmt.listLookups P scopes) (hl' : l' ∈ Stmt.listLookups P scopes)
    (hid : l.target.id = l'.target.id) : l = l' := by
  have hmap : (Stmt.listLookups P scopes).map (fun l => l.target.id) =
      identities (Stmt.listReferences P) := by
    rw [identities, ← Stmt.map_listLookups P scopes, List.map_map]
    rfl
  exact List.inj_on_of_nodup_map (hmap ▸ hids) hl hl' hid

namespace Program

/-- A tree as the parser makes it, with identities from `lo` on before `hi`. -/
structure Numbered (lo hi : ReferenceId) (P : Program) : Prop where
  proper : Stmt.AllProper P
  spelled : Spelled (Stmt.listReferences P)
  drawn : Drawn lo hi (identities (Stmt.listReferences P))

namespace Numbered

variable {lo hi : ReferenceId} {P : Program} {hops : List (ReferenceId × Nat)}

theorem finds (h : P.Numbered lo hi) (hresolve : P.resolve = .ok hops) :
    (∀ entry, entry ∈ hops ↔ ∃ l ∈ Stmt.listLookups P [],
      l.target.id = entry.1 ∧ l.distance? = some entry.2) ∧
    ∀ l ∈ Stmt.listLookups P [], l.Sound ∧ l.kind.Spells l.target.name := by
  obtain ⟨hclean, hhops⟩ := Program.resolve_ok hresolve
  obtain ⟨hfinds, -⟩ := Stmt.listFinds .program P .start hclean h.proper h.spelled .top
  refine ⟨fun entry => by simpa [hhops, Resolution.start] using hfinds.hops entry,
    fun l hl => ⟨hfinds.sound l hl, h.spelled l.reference ?_⟩⟩
  rw [← Stmt.map_listLookups P []]
  exact List.mem_map_of_mem hl

theorem single (h : P.Numbered lo hi) (hresolve : P.resolve = .ok hops) :
    (∀ entry ∈ hops, entry.1 ∈ identities (Stmt.listReferences P)) ∧
      ∀ entry ∈ hops, ∀ other ∈ hops, entry.1 = other.1 → entry = other := by
  obtain ⟨hentries, -⟩ := h.finds hresolve
  refine ⟨fun entry hentry => ?_, fun entry hentry other hother hid => ?_⟩
  · obtain ⟨l, hl, hlid, -⟩ := (hentries entry).mp hentry
    exact hlid ▸ id_of_lookup hl
  · obtain ⟨l, hl, hlid, hld⟩ := (hentries entry).mp hentry
    obtain ⟨l', hl', hlid', hld'⟩ := (hentries other).mp hother
    obtain rfl := lookup_eq_of_id h.drawn.nodup hl hl' (hlid.trans (hid.trans hlid'.symm))
    exact Prod.ext hid (Option.some.inj (hld.symm.trans hld'))

/-- What a machine recorded for other programs is still there. -/
theorem kept (h : P.Numbered lo hi) (hresolve : P.resolve = .ok hops) (m : Machine)
    {id : ReferenceId} (hid : id < lo ∨ hi ≤ id) :
    (m.recordHops hops).hops[id]? = m.hops[id]? := by
  obtain ⟨hplaced, hone⟩ := h.single hresolve
  refine (m.recordHops_found hone id).2 fun d hd => ?_
  obtain ⟨hlo, hhi⟩ := h.drawn.bounds _ (hplaced _ hd)
  exact hid.elim (fun hid => absurd hlo (Nat.not_le.mpr hid)) fun hid => absurd hhi (Nat.not_lt.mpr hid)

theorem records (h : P.Numbered lo hi) (hresolve : P.resolve = .ok hops) {m : Machine}
    (hunused : ∀ id, lo ≤ id → m.hops[id]? = none) :
    Records (m.recordHops hops).hops (Stmt.listLookups P []) := by
  obtain ⟨hentries, hlookups⟩ := h.finds hresolve
  refine fun l hl => ⟨?_, (hlookups l hl).1, (hlookups l hl).2⟩
  obtain ⟨hfound, hkept⟩ := m.recordHops_found (h.single hresolve).2 l.target.id
  cases hd : l.distance? with
  | some d => exact hfound d ((hentries _).mpr ⟨l, hl, rfl, hd⟩)
  | none =>
    rw [hkept fun d hd' => ?_]
    · exact hunused _ (h.drawn.bounds _ (id_of_lookup hl)).1
    · obtain ⟨l', hl', hid, hld⟩ := (hentries _).mp hd'
      obtain rfl := lookup_eq_of_id h.drawn.nodup hl' hl hid
      rw [hd] at hld
      cases hld

end Numbered

end Program

end LoxLang
