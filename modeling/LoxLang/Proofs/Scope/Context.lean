import Mathlib
import LoxLang.Scope
import LoxLang.Store.Basic

set_option autoImplicit false

namespace LoxLang

/-- Marks a name in the innermost scope as declared, or as defined. No scope is open in the global
environment, and nothing is marked there. -/
def markName (name : String) (defined : Bool) : List Scope → List Scope
  | [] => []
  | scope :: outer => scope.insert name defined :: outer

def Stmt.mark : Stmt → List Scope → List Scope
  | .declareVar name _, scopes => markName name.lexeme true scopes
  | .declareFunction d, scopes => markName d.name.lexeme true scopes
  | .declareClass name _ _, scopes => markName name.lexeme true scopes
  | _, scopes => scopes

def parameterScope (parameters : List Token) : Scope :=
  parameters.foldl (fun scope name => scope.insert name.lexeme true) ∅

def oneName (name : String) : Scope := (∅ : Scope).insert name true

/-- The open scopes at a place, the innermost first, and the environments made for them. -/
structure Context where
  scopes : List Scope
  trail : List FrameId

namespace Context

def top : Context := ⟨[], []⟩

def within (scope : Scope) (frame : FrameId) (K : Context) : Context :=
  ⟨scope :: K.scopes, frame :: K.trail⟩

def initializing (name : Token) (K : Context) : Context :=
  { K with scopes := markName name.lexeme false K.scopes }

def past (s : Stmt) (K : Context) : Context := { K with scopes := s.mark K.scopes }

end Context

end LoxLang
