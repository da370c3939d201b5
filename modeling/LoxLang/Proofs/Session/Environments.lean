import LoxLang.Proofs.Session.Settled

/-!
Recorded hop counts lead to the environments that scopes were entered in.

Every activity of a run stands in a lexical context: the scopes that are open at its place in the program
text, and for each of them the environment that was made when just this run through the scope began.
The number of links that was recorded for a reference leads to the environment of the scope in which the
static pass found the name, also in functions that earlier runs made.
-/

set_option autoImplicit false

namespace LoxLang

/-- The activity looks the reference up on the machine. An assignment does so when its value has been
evaluated. -/
inductive Activity.Refers : Activity → ReferenceKind → Reference → Machine → Prop
  | variable {fuel : Nat} {m : Machine} {target : Reference} :
    Refers ⟨fuel + 1, .evaluate (.variable target), m⟩ .variable target m
  | this {fuel : Nat} {m : Machine} {keyword : Reference} :
    Refers ⟨fuel + 1, .evaluate (.this keyword), m⟩ .this keyword m
  | super {fuel : Nat} {m : Machine} {keyword : Reference} {method : Token} :
    Refers ⟨fuel + 1, .evaluate (.super keyword method), m⟩ .super keyword m
  | assign {fuel : Nat} {m m₁ : Machine} {target : Reference} {e : Expr} {v : Value} :
    evaluate fuel e m = .answer v m₁ →
    Refers ⟨fuel + 1, .evaluate (.assign target e), m⟩ .assign target m₁
  | superclass {fuel : Nat} {m : Machine} {name : Token} {base : Reference}
      {ds : List Declaration} :
    Refers ⟨fuel + 1, .execute (.declareClass name (some base) ds), m⟩ .superclass base m

namespace Activity

variable {E : Setting} {a : Activity} {K : Context} {kind : ReferenceKind} {target : Reference}
  {m : Machine} {d : Nat}

theorem Refers.step (h : a.Refers kind target m) (ha : a.Sits E K) :
    E.Step a.machine m ∧ E.known ⟨kind, target, K.scopes⟩ := by
  have hstay : E.Step a.machine a.machine := .refl ha.sound
  cases h with
  | «variable» | this | super => exact ⟨hstay, ha.known _ (List.mem_singleton.mpr rfl)⟩
  | assign hv =>
    have hsits := ha.part .assigned hstay trivial
    exact ⟨(((evaluates E _).evaluate hsits).answer hv).1, ha.known _ List.mem_cons_self⟩
  | superclass => exact ⟨hstay, ha.known _ (by simp [Task.lookups, Stmt.lookups])⟩

/-- Where the lookup of a reference with a recorded hop count leads. -/
structure Leads (K : Context) (kind : ReferenceKind) (target : Reference) (m : Machine) (d : Nat)
    (frame : FrameId) : Prop where
  distance : distanceIn target.name.lexeme K.scopes = some d
  arrives : m.store.ancestor? d m.cursor = some frame
  activation : K.trail[d]? = some frame
  bound : kind ≠ .assign → ∃ v, m.store.local? frame target.name.lexeme = some v ∧
    Eval.lookUp target m = .answer v m
  /-- For `super` the environment binds it to a class, and the one before it binds `this` to an object,
  so the only failure is that the superclass has no such method. -/
  dispatch : kind = .super → 1 ≤ d ∧ ∃ below B object,
    m.store.local? frame "super" = some (.classValue B) ∧ (m.store.class? B).isSome = true ∧
    m.store.ancestor? (d - 1) m.cursor = some below ∧
    m.store.local? below "this" = some (.object object) ∧
    (m.store.object? object).isSome = true ∧
    ∀ method f m', Eval.superMethod target method m = .fault f m' →
      f = .runtime method.line (.undefinedProperty method.lexeme)

theorem Refers.leads (h : a.Refers kind target m) (ha : a.Sits E K)
    (hd : m.hops[target.id]? = some d) : ∃ frame, Leads K kind target m d frame := by
  obtain ⟨hstep, hknown⟩ := h.step ha
  have hanswers : E.Answers m.hops := hstep.hops ▸ ha.answers
  have hfits : K.Matches E.root m.store m.cursor := hstep.cursor ▸ ha.fits.extend hstep.later
  obtain ⟨hdistance, -, -⟩ := hanswers _ hknown
  have hdistance : distanceIn target.name.lexeme K.scopes = some d := hdistance.symm.trans hd
  obtain ⟨scope, frame, -, hframe, harrives⟩ := hfits.found hdistance
  refine ⟨frame, hdistance, harrives, hframe, fun hkind => ?_, ?_⟩
  · obtain ⟨other, v, hother, -, hv, hlookup⟩ := Eval.lookupAt_of_known hanswers hfits hkind hknown hd
    obtain rfl : frame = other := Option.some.inj (hframe.symm.trans hother)
    refine ⟨v, hv, ?_⟩
    simp only [Eval.lookUp, hd, hlookup]
    rfl
  · rintro rfl
    -- The environment of `super` stands right outside that of `this`, so `super` is never at depth 0.
    obtain ⟨below, this, super, -, hname, hhops, -, hup, -, hup', hlinks⟩ :=
      Eval.seat_of_known hanswers hfits hknown
    obtain rfl : d = below + 1 := Option.some.inj (hd.symm.trans hhops)
    obtain rfl : frame = super := Option.some.inj (harrives.symm.trans hup')
    obtain ⟨C, -, object, o, -, -, ⟨c, B, -, -, hsuper⟩, hthis, ho, -⟩ := hlinks
    have hB : E.Fine m.store (.classValue B) := hstep.sound.held _ (.binding hsuper)
    refine ⟨Nat.le_add_left 1 below, this, B, object, hsuper, hB, hup, hthis, by simp [ho], ?_⟩
    intro method f m' hfault
    have hview : Eval.view Machine.store m = .answer m.store m := rfl
    rw [Eval.superMethod_eq hname hhops hup hup' hsuper hthis, Eval.methodFrom,
      Eval.bind_of_answer hview] at hfault
    cases hfound : m.store.method? B method.lexeme with
    | some function =>
      rw [hfound] at hfault
      cases hfault
    | none =>
      rw [hfound] at hfault
      cases hfault
      rfl

end Activity

namespace Session

variable {s : Session} {history : List Performance} {p : Performance}

theorem visited_sits (hs : s.After history) {interactive : Bool} {fuel : Nat} {source : String}
    (hp : s.performance? interactive fuel source = some p) {a : Activity} (ha : a.Visited p.Begins) :
    ∃ K, a.Sits (.of (p :: history)) K := by
  obtain ⟨s₁, hprepare, hm⟩ := performance?_some hp
  have hadmits := hs.settled.admits hprepare hm
  exact ha.sits fun b hb => hb.sits hadmits fun c hc => ⟨p, List.mem_cons_self, hc⟩

/-- The scopes of the static pass and the environments of the run agree. In a session that any runs led
to, whatever is evaluated while an accepted program runs stands in a lexical context, and a reference
with a recorded hop count is found in the environment that was made for the scope in which the static
pass found the name. So no run fails for want of an environment, for `super` or `this` that are not what
they should be, or for a method that is not bound. -/
theorem scopes_agree (hs : s.After history) {interactive : Bool} {fuel : Nat} {source : String}
    (hp : s.performance? interactive fuel source = some p) :
    (∀ a : Activity, a.Visited p.Begins →
      ∃ K, a.Stands (Setting.of (p :: history)).root K ∧
        a.machine.store.Chain a.machine.cursor K.trail ∧ K.scopes.length = K.trail.length ∧
        ∀ kind target m d, a.Refers kind target m → m.hops[target.id]? = some d →
          (Setting.of (p :: history)).known ⟨kind, target, K.scopes⟩ ∧
            ∃ frame, Activity.Leads K kind target m d frame) ∧
    ∀ line cause m, p.act p.machine = .fault (.runtime line cause) m → cause.isInternal = false := by
  obtain ⟨s₁, hprepare, hm⟩ := performance?_some hp
  have hadmits := hs.settled.admits hprepare hm
  refine ⟨fun a ha => ?_, fun line cause m hfault => ?_⟩
  · obtain ⟨K, hsits⟩ := visited_sits hs hp ha
    refine ⟨K, hsits.stands, hsits.fits.chained, hsits.fits.length, ?_⟩
    exact fun kind target m d hrefers hd => ⟨(hrefers.step hsits).2, hrefers.leads hsits hd⟩
  · have hsteps := Eval.steps_act hadmits fun a ha => ⟨p, List.mem_cons_self, ha⟩
    exact (hsteps.fault hfault).2

/-- A variable of a block is read in the block. -/
theorem scopes_agree_block :
    ∃ (p : Performance) (a : Activity) (m : Machine) (K : Context) (frame : FrameId),
      (start .unlimited [] (.ticking 0)).performance? false 5 "{ var a; a; }" = some p ∧
      a.Visited p.Begins ∧ a.Stands (Setting.of [p]).root K ∧
      a.Refers .variable ⟨0, ⟨.identifier, "a", 1⟩⟩ m ∧ m.hops[0]? = some 0 ∧
      Activity.Leads K .variable ⟨0, ⟨.identifier, "a", 1⟩⟩ m 0 frame := by
  let name : Token := ⟨.identifier, "a", 1⟩
  let read : Stmt := .expression (.variable ⟨0, name⟩)
  let m := ((start .unlimited [] (.ticking 0)).prepare "{ var a; a; }").2.machine
  have haccepts : (start .unlimited [] (.ticking 0)).accepts "{ var a; a; }"
      [.block [.declareVar name none, read]] := by
    show _ = _
    cbv
  have hhops : m.hops[0]? = some 0 := by
    show ((start .unlimited [] (.ticking 0)).prepare "{ var a; a; }").2.machine.hops[0]? = some 0
    cbv
  let p : Performance := ⟨false, 5, [.block [.declareVar name none, read]], m⟩
  have hp : (start .unlimited [] (.ticking 0)).performance? false 5 "{ var a; a; }" = some p :=
    performance?_of_accepts haccepts
  let m₁ : Machine :=
    { m.inner with store := m.inner.store.bind m.inner.cursor "a" .nil }
  have hdeclared : execute 3 (.declareVar name none) m.inner = .answer .normal m₁ := by
    rw [execute]
    rfl
  have hblock : Activity.Visited p.Begins ⟨5, .execute (.block [.declareVar name none, read]), m⟩ :=
    .root (.statements rfl .statement)
  have hread : Activity.Visited p.Begins ⟨1, .evaluate (.variable ⟨0, name⟩), m₁⟩ :=
    (((hblock.part .block).part (.tail hdeclared)).part .head).part .expression
  obtain ⟨K, hstands, -, -, hleads⟩ := (scopes_agree (.start .unlimited [] (.ticking 0)) hp).1 _ hread
  obtain ⟨-, frame, hframe⟩ := hleads .variable ⟨0, name⟩ m₁ 0 .variable hhops
  exact ⟨p, _, m₁, K, frame, hp, hread, hstands, .variable, hhops, hframe⟩

end Session

end LoxLang
