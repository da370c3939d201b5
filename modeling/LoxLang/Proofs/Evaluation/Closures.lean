import LoxLang.Proofs.Evaluation.Activity
import LoxLang.Proofs.Scope.Lookups
import LoxLang.Proofs.Store.Extension

/-!
The lexical context that an activity stands in.

It is told by how the run came to the activity. At the top no scope is open. A part stands where the
change on the way to it leads. The body of a function stands in the scope of its parameters, within the
context in which the function was made: that of its declaration, and for a method also the environment
that binds `super` and the one that binds `this` for just this object.
-/

set_option autoImplicit false

namespace LoxLang

def Context.inClass (name : Token) (base : Option Reference) (frame : FrameId) (K : Context) :
    Context :=
  let K : Context := { K with scopes := markName name.lexeme true K.scopes }
  match base with
  | none => K
  | some _ => K.within (oneName "super") frame

theorem Context.scopes_inClass (name : Token) (base : Option Reference) (frame this : FrameId)
    (K : Context) :
    ((K.inClass name base frame).within (oneName "this") this).scopes =
      classScopes name base K.scopes := by
  cases base <;> rfl

mutual
/-- The activity, which the given ones lead to, stands in the context. -/
inductive Activity.Stands (root : Activity → Prop) : Activity → Context → Prop
  | top {a : Activity} : root a → Activity.Stands root a .top
  | part {a b : Activity} {change : Context → Context} {K : Context} :
    Activity.Stands root a K → a.Enters change b → Activity.Stands root b (change K)
  | body {a b : Activity} {id : FunctionId} {d : Declaration} {frame : FrameId} {K K' : Context} :
    Activity.Stands root a K → a.Invokes id d frame b → Closes root id a.machine.store K' →
    Activity.Stands root b (K'.within (parameterScope d.parameters) frame)

/-- The function was made in the context before the store came to be as it is. -/
inductive Closes (root : Activity → Prop) : FunctionId → Store → Context → Prop
  | function {fuel : Nat} {d : Declaration} {m m' : Machine} {ending : Ending} {s : Store}
      {K : Context} :
    Activity.Stands root ⟨fuel + 1, .execute (.declareFunction d), m⟩ K →
    execute (fuel + 1) (.declareFunction d) m = .answer ending m' → m'.store.Extends s →
    Closes root ⟨m.store.functions.size⟩ s (K.past (.declareFunction d))
  | method {C : ClassId} {c : Class} {name : String} {method : FunctionId} {object : ObjectId}
      {o : Object} {s s' : Store} {K : Context} :
    Forms root C s K → s.class? C = some c → c.methods.get? name = some method →
    s.object? object = some o → s.Descends o.classId C → (s.bindMethod method object).2.Extends s' →
    Closes root ⟨s.functions.size⟩ s' (K.within (oneName "this") ⟨s.frames.size⟩)

/-- The class was declared before, and its body stands in the context. -/
inductive Forms (root : Activity → Prop) : ClassId → Store → Context → Prop
  | declaration {fuel : Nat} {name : Token} {base : Option Reference} {ds : List Declaration}
      {m m' : Machine} {ending : Ending} {s : Store} {K : Context} :
    Activity.Stands root ⟨fuel + 1, .execute (.declareClass name base ds), m⟩ K →
    execute (fuel + 1) (.declareClass name base ds) m = .answer ending m' → m'.store.Extends s →
    Forms root ⟨m.store.classes.size⟩ s (K.inClass name base ⟨m.store.frames.size⟩)
end

section

variable {root root' : Activity → Prop}

theorem Forms.extend {C : ClassId} {s s' : Store} {K : Context} (h : Forms root C s K)
    (hs : s.Extends s') : Forms root C s' K := by
  cases h with
  | declaration hstands hends hextends => exact .declaration hstands hends (hextends.trans hs)

theorem Closes.extend {id : FunctionId} {s s' : Store} {K : Context} (h : Closes root id s K)
    (hs : s.Extends s') : Closes root id s' K := by
  cases h with
  | function hstands hends hextends => exact .function hstands hends (hextends.trans hs)
  | method hforms hc hmethod ho hdescends hextends =>
    exact .method hforms hc hmethod ho hdescends (hextends.trans hs)

mutual
theorem Activity.Stands.mono (hroot : ∀ a, root a → root' a) :
    ∀ {a : Activity} {K : Context}, a.Stands root K → a.Stands root' K
  | _, _, .top h => .top (hroot _ h)
  | _, _, @Activity.Stands.part _ _ _ _ _ h henters => .part (h.mono hroot) henters
  | _, _, .body h hinvokes hcloses => .body (h.mono hroot) hinvokes (hcloses.mono hroot)

theorem Closes.mono (hroot : ∀ a, root a → root' a) :
    ∀ {id : FunctionId} {s : Store} {K : Context}, Closes root id s K → Closes root' id s K
  | _, _, _, .function h hends hextends => .function (h.mono hroot) hends hextends
  | _, _, _, .method h hc hmethod ho hdescends hextends =>
    .method (h.mono hroot) hc hmethod ho hdescends hextends

theorem Forms.mono (hroot : ∀ a, root a → root' a) :
    ∀ {C : ClassId} {s : Store} {K : Context}, Forms root C s K → Forms root' C s K
  | _, _, _, .declaration h hends hextends => .declaration (h.mono hroot) hends hextends
end

theorem Activity.Stands.visited : ∀ {a : Activity} {K : Context}, a.Stands root K → a.Visited root
  | _, _, .top h => .root h
  | _, _, @Activity.Stands.part _ _ _ _ _ h henters => .part h.visited henters
  | _, _, .body h hinvokes _ => .body h.visited hinvokes

end

end LoxLang
