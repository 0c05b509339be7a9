import SchemaMigration.Error

/-!
This module contains the registry of entities: where each entity is stored and what its primary key
is. Relations name entities, and the constraints made from them need both.
-/

namespace SchemaMigration

structure Entity where
  table : String
  primaryKey : String := "id"
  deriving DecidableEq

/--
A way to look up the entities of models. A registry is one, and compilation works with any.
-/
abbrev Lookup := String → Except Error Entity

structure Registry where
  entities : NameMap Entity
  deriving DecidableEq

namespace Registry

def empty : Registry := ⟨.empty⟩

def register (r : Registry) (model : String) (entity : Entity) : Registry :=
  ⟨r.entities.insert model entity⟩

def size (r : Registry) : Nat := r.entities.size

def lookup (r : Registry) : Lookup := fun model =>
  match r.entities.get? model with
  | some entity => .ok entity
  | none => .error (.unknownModel model)

def ofList (entities : List (String × Entity)) : Registry :=
  entities.foldl (fun r (model, entity) => r.register model entity) empty

theorem lookup_eq_ok_iff {r : Registry} {model : String} {entity : Entity} :
    r.lookup model = .ok entity ↔ r.entities.get? model = some entity := by
  unfold lookup
  split <;> simp_all

end Registry

end SchemaMigration
