import VehicleLink.Dialect.Error
import VehicleLink.Schema.Definition

namespace VehicleLink

structure Registry where
  definitions : List Definition
  distinct : (definitions.map Definition.id).Nodup
  deriving DecidableEq

namespace Registry

def empty : Registry := ⟨[], .nil⟩

def get? (r : Registry) (id : UInt8) : Option Definition :=
  r.definitions.find? (·.id == id)

/-- Of several kinds with one name, the one registered last. -/
def named? (r : Registry) (name : String) : Option Definition :=
  r.definitions.reverse.find? (·.name == name)

def seed? (r : Registry) (id : UInt8) : Option UInt8 := (r.get? id).map Definition.seed

def size (r : Registry) : Nat := r.definitions.length

theorem notMem_ids_of_get?_eq_none {r : Registry} {id : UInt8} (h : r.get? id = none) :
    id ∉ r.definitions.map Definition.id := by
  simp only [get?, List.find?_eq_none, beq_iff_eq] at h
  simp only [List.mem_map, not_exists, not_and]
  exact h

def insert (r : Registry) (d : Definition) : Except DialectError Registry :=
  match h : r.get? d.id with
  | some existing => .error (.duplicateId d.id existing.name d.name)
  | none => .ok {
      definitions := r.definitions ++ [d]
      distinct := by
        rw [List.map_append, List.map_cons, List.map_nil]
        exact List.nodup_append.mpr ⟨r.distinct, List.pairwise_singleton _ _, by
          intro a ha b hb hab
          rw [List.mem_singleton] at hb
          exact notMem_ids_of_get?_eq_none h (hb ▸ hab ▸ ha)⟩ }

def ofList (definitions : List Definition) : Except DialectError Registry :=
  definitions.foldlM insert empty

end Registry

end VehicleLink
