/-!
This module contains maps from names to values that list their entries in the order of first
insertion.
-/

namespace SchemaMigration

structure NameMap (α : Type) where
  entries : List (String × α)
  deriving BEq, DecidableEq

namespace NameMap

variable {α : Type}

def empty : NameMap α := ⟨[]⟩

instance : Inhabited (NameMap α) := ⟨empty⟩

/--
Put a value under a name. A name that is there keeps its position and gets the new value, a new one
comes last.
-/
def insert (map : NameMap α) (name : String) (value : α) : NameMap α :=
  ⟨go map.entries⟩
where
  go : List (String × α) → List (String × α)
    | [] => [(name, value)]
    | (n, v) :: rest => if n = name then (n, value) :: rest else (n, v) :: go rest

def get? (map : NameMap α) (name : String) : Option α :=
  map.entries.lookup name

def names (map : NameMap α) : List String :=
  map.entries.map (·.1)

def size (map : NameMap α) : Nat :=
  map.entries.length

def isEmpty (map : NameMap α) : Bool :=
  map.entries.isEmpty

def ofList (entries : List (String × α)) : NameMap α :=
  entries.foldl (fun map (name, value) => map.insert name value) empty

@[simp]
theorem entries_empty : (empty : NameMap α).entries = [] := rfl

theorem size_eq_length_names (map : NameMap α) : map.size = map.names.length := by
  simp [size, names]

end NameMap

end SchemaMigration
