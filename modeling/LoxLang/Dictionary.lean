set_option autoImplicit false

namespace LoxLang

structure Dictionary (α : Type) where
  entries : List (String × α)
  deriving DecidableEq, Repr

namespace Dictionary

variable {α : Type}

def empty : Dictionary α := ⟨[]⟩

instance : EmptyCollection (Dictionary α) := ⟨empty⟩

def lookup (name : String) : List (String × α) → Option α
  | [] => none
  | (key, value) :: rest => if key = name then some value else lookup name rest

def put (name : String) (value : α) : List (String × α) → List (String × α)
  | [] => [(name, value)]
  | (key, old) :: rest =>
    if key = name then (key, value) :: rest else (key, old) :: put name value rest

def get? (d : Dictionary α) (name : String) : Option α := lookup name d.entries

def contains (d : Dictionary α) (name : String) : Bool := (d.get? name).isSome

def insert (d : Dictionary α) (name : String) (value : α) : Dictionary α :=
  ⟨put name value d.entries⟩

theorem lookup_put (name other : String) (value : α) (entries : List (String × α)) :
    lookup other (put name value entries) =
      if name = other then some value else lookup other entries := by
  induction entries with
  | nil => simp [put, lookup]
  | cons entry rest ih =>
    obtain ⟨key, old⟩ := entry
    by_cases h : key = name <;> by_cases k : key = other <;> grind [put, lookup]

@[simp] theorem get?_empty (name : String) : (∅ : Dictionary α).get? name = none := rfl

@[grind =] theorem get?_insert (d : Dictionary α) (name other : String) (value : α) :
    (d.insert name value).get? other = if name = other then some value else d.get? other :=
  lookup_put name other value d.entries

@[simp] theorem get?_insert_self (d : Dictionary α) (name : String) (value : α) :
    (d.insert name value).get? name = some value := by simp [get?_insert]

end Dictionary

end LoxLang
