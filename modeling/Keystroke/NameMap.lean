/-!
# Finite maps from names

A finite map keyed by source names, kept as a list of pairs with at most one entry for a name.
-/

namespace Keystroke

/-- A finite map from names to values. -/
structure NameMap (α : Type) where
  entries : List (String × α) := []

namespace NameMap

variable {α : Type}

/-- The map without entries. -/
def empty : NameMap α := {}

/-- The value stored under a name. -/
def get? (m : NameMap α) (name : String) : Option α :=
  m.entries.lookup name

/-- Whether a name has an entry. -/
def contains (m : NameMap α) (name : String) : Bool :=
  (m.get? name).isSome

/-- The map without the entry for a name. -/
def erase (m : NameMap α) (name : String) : NameMap α :=
  ⟨m.entries.filter fun entry => name != entry.1⟩

/-- The map with a value stored under a name, in place of an earlier one. -/
def insert (m : NameMap α) (name : String) (value : α) : NameMap α :=
  ⟨(name, value) :: (m.erase name).entries⟩

/-- The number of names with an entry. -/
def size (m : NameMap α) : Nat :=
  m.entries.length

/-- Whether some stored value has a property. -/
def any (m : NameMap α) (p : α → Bool) : Bool :=
  m.entries.any fun entry => p entry.2

end NameMap

end Keystroke
