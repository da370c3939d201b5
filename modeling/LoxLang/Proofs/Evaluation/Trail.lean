import LoxLang.Proofs.Evaluation.Closures
import LoxLang.Proofs.Scope.Standing

/-!
The environments of a context are those around the current one.

Each of them binds the names of its scope, and where an environment for `this` stands right within one
for `super`, the object is an instance of the class whose superclass that is. This stays so in later
stores, and from each activity to those it enters.
-/

set_option autoImplicit false

namespace LoxLang

namespace Store

variable {s s' : Store}

def Houses (s : Store) (frame : FrameId) (C : ClassId) : Prop :=
  ∃ c B, s.class? C = some c ∧ c.superclass = some B ∧ s.local? frame "super" = some (.classValue B)

/-- One environment stands around the methods of a class with a superclass, and the object that `this`
is in the other one descends from the class. -/
def Links (s : Store) (root : Activity → Prop) (this super : FrameId) : Prop :=
  ∃ C K object o, Forms root C s K ∧ K.trail[0]? = some super ∧ s.Houses super C ∧
    s.local? this "this" = some (.object object) ∧ s.object? object = some o ∧
    s.Descends o.classId C

theorem Houses.extend {frame : FrameId} {C : ClassId} (hs : s.Extends s') (h : s.Houses frame C) :
    s'.Houses frame C := by
  obtain ⟨c, B, hc, hB, hsuper⟩ := h
  exact ⟨c, B, hs.grows.classes _ _ hc, hB, hs.super hsuper⟩

theorem Links.extend {root : Activity → Prop} {this super : FrameId} (hs : s.Extends s')
    (h : s.Links root this super) : s'.Links root this super := by
  obtain ⟨C, K, object, o, hforms, htrail, hhouses, hthis, ho, hdescends⟩ := h
  obtain ⟨o', ho', hclass⟩ := hs.grows.objects _ _ ho
  exact ⟨C, K, object, o', hforms.extend hs, htrail, hhouses.extend hs, hs.this hthis, ho',
    hclass ▸ hdescends.extend hs⟩

theorem Links.mono {root root' : Activity → Prop} (hroot : ∀ a, root a → root' a)
    {this super : FrameId} (h : s.Links root this super) : s.Links root' this super := by
  obtain ⟨C, K, object, o, hforms, hrest⟩ := h
  exact ⟨C, K, object, o, hforms.mono hroot, hrest⟩

end Store

namespace Context

/-- The environments that were made for the open scopes are those around the current one. -/
structure Matches (K : Context) (root : Activity → Prop) (s : Store) (cursor : FrameId) : Prop where
  chained : s.Chain cursor K.trail
  length : K.scopes.length = K.trail.length
  bound : ∀ (d : Nat) (scope : Scope) frame, K.scopes[d]? = some scope → K.trail[d]? = some frame →
    ∀ name, scope.get? name = some true → (s.local? frame name).isSome = true
  linked : ∀ (d : Nat) (scope : Scope) this super, K.scopes[d]? = some scope → scope.get? "this" = some true →
    K.scopes[d + 1]? = some (oneName "super") → K.trail[d]? = some this →
    K.trail[d + 1]? = some super → s.Links root this super

namespace Matches

variable {K : Context} {root : Activity → Prop} {s s' : Store} {cursor : FrameId}

theorem mono {root' : Activity → Prop} (hroot : ∀ a, root a → root' a) (h : K.Matches root s cursor) :
    K.Matches root' s cursor :=
  ⟨h.chained, h.length, h.bound, fun d scope this super hscope hthis houter hframe hsuper =>
    (h.linked d scope this super hscope hthis houter hframe hsuper).mono hroot⟩

theorem top (s : Store) : Context.top.Matches root s Store.globals :=
  ⟨rfl, rfl, fun d scope frame h => by simp [Context.top] at h,
    fun d scope this super h => by simp [Context.top] at h⟩

theorem extend (hs : s.Extends s') (h : K.Matches root s cursor) : K.Matches root s' cursor := by
  refine ⟨h.chained.extend hs, h.length, ?_, ?_⟩
  · exact fun d scope frame hscope hframe name hname =>
      hs.grows.local?_isSome (h.bound d scope frame hscope hframe name hname)
  · exact fun d scope this super hscope hthis houter hframe hsuper =>
      (h.linked d scope this super hscope hthis houter hframe hsuper).extend hs

theorem push {scope : Scope} {frame : FrameId} (h : K.Matches root s cursor)
    (hframe : s.enclosing? frame = some cursor)
    (hbound : ∀ name, scope.get? name = some true → (s.local? frame name).isSome = true)
    (hlink : scope.get? "this" = some true → K.scopes[0]? = some (oneName "super") →
      ∀ super, K.trail[0]? = some super → s.Links root frame super) :
    (K.within scope frame).Matches root s frame := by
  refine ⟨⟨rfl, cursor, hframe, h.chained⟩, congrArg (· + 1) h.length, ?_, ?_⟩
  · intro d inner innerFrame hinner hinnerFrame name hname
    cases d with
    | zero =>
      obtain rfl : scope = inner := by simpa [within] using hinner
      obtain rfl : frame = innerFrame := by simpa [within] using hinnerFrame
      exact hbound name hname
    | succ d =>
      exact h.bound d inner innerFrame (by simpa [within] using hinner)
        (by simpa [within] using hinnerFrame) name hname
  · intro d inner this super hinner hthis houter hframe hsuper
    cases d with
    | zero =>
      obtain rfl : scope = inner := by simpa [within] using hinner
      obtain rfl : frame = this := by simpa [within] using hframe
      exact hlink hthis (by simpa [within] using houter) super (by simpa [within] using hsuper)
    | succ d =>
      exact h.linked d inner this super (by simpa [within] using hinner) hthis
        (by simpa [within] using houter) (by simpa [within] using hframe)
        (by simpa [within] using hsuper)

theorem inner (h : K.Matches root s cursor) :
    (K.within ∅ ⟨s.frames.size⟩).Matches root (s.addFrame (some cursor)).2 ⟨s.frames.size⟩ :=
  (h.extend (s.extends_addFrame _)).push (by rw [Store.enclosing?_addFrame, if_pos rfl]) (by simp)
    (by simp)

theorem mark (h : K.Matches root s cursor) {name : Token} {defined : Bool} (hname : name.Ordinary)
    (hbound : defined = true → (s.local? cursor name.lexeme).isSome = true) :
    Matches { K with scopes := markName name.lexeme defined K.scopes } root s cursor := by
  obtain ⟨scopes, trail⟩ := K
  cases scopes with
  | nil => exact h
  | cons first outer =>
    refine ⟨h.chained, h.length, ?_, ?_⟩
    · intro d scope frame hscope hframe other hother
      -- Only the innermost scope is marked, and not with `this`, which is no ordinary name.
      cases d with
      | zero =>
        obtain rfl : first.insert name.lexeme defined = scope := by simpa [markName] using hscope
        rw [Dictionary.get?_insert] at hother
        split at hother
        · rename_i hsame
          cases trail with
          | nil => simp at hframe
          | cons innermost rest =>
            obtain rfl : innermost = frame := by simpa using hframe
            obtain rfl : cursor = innermost := h.chained.1
            exact hsame ▸ hbound (by simpa using hother)
        · exact h.bound 0 first frame rfl hframe other hother
      | succ d => exact h.bound (d + 1) scope frame (by simpa [markName] using hscope) hframe other hother
    · intro d scope this super hscope hthis houter hframe hsuper
      have houter : (first :: outer)[d + 1]? = some (oneName "super") := by
        simpa [markName] using houter
      cases d with
      | zero =>
        obtain rfl : first.insert name.lexeme defined = scope := by simpa [markName] using hscope
        rw [Dictionary.get?_insert, if_neg hname.not_this] at hthis
        exact h.linked 0 first this super rfl hthis houter hframe hsuper
      | succ d =>
        exact h.linked (d + 1) scope this super (by simpa [markName] using hscope) hthis houter hframe
          hsuper

theorem found (h : K.Matches root s cursor) {name : String} {d : Nat}
    (hd : distanceIn name K.scopes = some d) :
    ∃ scope frame, K.scopes[d]? = some scope ∧ K.trail[d]? = some frame ∧
      s.ancestor? d cursor = some frame := by
  obtain ⟨hlt, -, -⟩ := List.findIdx?_eq_some_iff_getElem.mp hd
  have htrail : d < K.trail.length := h.length ▸ hlt
  have hframe : K.trail[d]? = some K.trail[d] := List.getElem?_eq_getElem htrail
  exact ⟨_, _, List.getElem?_eq_getElem hlt, hframe, h.chained.ancestor? hframe⟩

end Matches

end Context

end LoxLang
