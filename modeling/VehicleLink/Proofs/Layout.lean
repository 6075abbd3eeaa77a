import Mathlib.Data.List.Sort
import VehicleLink.Proofs.Schema

namespace VehicleLink.Layout

def Leads (f g : Field) : Prop := g.primitive.size ≤ f.primitive.size

instance : DecidableRel Leads := fun _ _ => inferInstanceAs (Decidable (_ ≤ _))

instance : IsTrans Field Leads := ⟨fun _ _ _ h h' => Nat.le_trans h' h⟩

instance : Std.Total Leads := ⟨fun f g => Nat.le_total g.primitive.size f.primitive.size⟩

theorem place_eq_orderedInsert (f : Field) (fields : List Field) :
    place f fields = fields.orderedInsert Leads f := by
  induction fields with
  | nil => rfl
  | cons g rest ih =>
    rw [place, List.orderedInsert, ih]
    by_cases leads : Leads f g
    · rw [if_pos leads, if_neg (Nat.not_lt.mpr leads)]
    · rw [if_neg leads, if_pos (Nat.not_le.mp leads)]

theorem order_eq_insertionSort (fields : List Field) :
    order fields = fields.insertionSort Leads := by
  induction fields with
  | nil => rfl
  | cons f rest ih => rw [order, place_eq_orderedInsert, ih, List.insertionSort_cons]

structure Orders (wire declared : List Field) : Prop where
  perm : wire.Perm declared
  widest : wire.Pairwise fun f g => g.primitive.size ≤ f.primitive.size
  stable : ∀ size, wire.filter (·.primitive.size = size) = declared.filter (·.primitive.size = size)

theorem orders_order (fields : List Field) : Orders (order fields) fields where
  perm := order_perm fields
  widest := by
    rw [order_eq_insertionSort]
    exact List.pairwise_insertionSort Leads fields
  stable size := by
    have level : (fields.filter (·.primitive.size = size)).Pairwise Leads := by
      refine List.pairwise_of_forall_mem_list fun f isMember g isMember' => ?_
      simp only [List.mem_filter, decide_eq_true_eq] at isMember isMember'
      exact Nat.le_of_eq (isMember'.2.trans isMember.2.symm)
    have kept : (fields.filter (·.primitive.size = size)).Sublist (order fields) := by
      rw [order_eq_insertionSort]
      exact List.sublist_insertionSort level List.filter_sublist
    have kept' := kept.filter (·.primitive.size = size)
    rw [List.filter_filter] at kept'
    simp only [Bool.and_self] at kept'
    exact (kept'.eq_of_length ((order_perm fields).filter _).length_eq.symm).symm

def Alike (fields fields' : List Field) : Prop :=
  ∀ size, fields.filter (·.primitive.size = size) = fields'.filter (·.primitive.size = size)

section Uniqueness

variable {f g : Field} {fields fields' rest rest' wire : List Field}

theorem Alike.mem (h : Alike fields fields') (isField : f ∈ fields) : f ∈ fields' := by
  have isLevel : f ∈ fields.filter (·.primitive.size = f.primitive.size) :=
    List.mem_filter.mpr ⟨isField, decide_eq_true rfl⟩
  rw [h] at isLevel
  exact List.mem_of_mem_filter isLevel

theorem Alike.symm (h : Alike fields fields') : Alike fields' fields := fun size => (h size).symm

theorem Alike.tail (h : Alike (f :: rest) (f :: rest')) : Alike rest rest' := by
  intro size
  have level := h size
  by_cases first : f.primitive.size = size <;> simpa [List.filter_cons, first] using level

theorem le_size_of_alike (sorted : (f :: rest).Pairwise Leads)
    (h : Alike (g :: rest') (f :: rest)) : g.primitive.size ≤ f.primitive.size := by
  obtain rfl | later := List.mem_cons.mp (h.mem List.mem_cons_self)
  · exact Nat.le_refl _
  · exact (List.pairwise_cons.mp sorted).1 g later

theorem Alike.head (sorted : (f :: rest).Pairwise Leads) (sorted' : (g :: rest').Pairwise Leads)
    (h : Alike (f :: rest) (g :: rest')) : f = g := by
  have width : g.primitive.size = f.primitive.size :=
    Nat.le_antisymm (le_size_of_alike sorted h.symm) (le_size_of_alike sorted' h)
  have level := h f.primitive.size
  simp only [List.filter_cons, width, decide_true, if_true] at level
  exact List.head_eq_of_cons_eq level

/-- Two sorted lists are the same if they are alike, since of the widest fields each of them
begins with the first. -/
theorem eq_of_alike (sorted : fields.Pairwise Leads) (sorted' : fields'.Pairwise Leads)
    (h : Alike fields fields') : fields = fields' := by
  induction fields generalizing fields' with
  | nil =>
    cases fields' with
    | nil => rfl
    | cons g rest' => cases h.symm.mem List.mem_cons_self
  | cons f rest ih =>
    cases fields' with
    | nil => cases h.mem List.mem_cons_self
    | cons g rest' =>
      obtain rfl := Alike.head sorted sorted' h
      rw [ih sorted.of_cons sorted'.of_cons h.tail]

theorem Orders.eq_order (h : Orders wire fields) : wire = order fields :=
  eq_of_alike h.widest (orders_order fields).widest fun size =>
    (h.stable size).trans ((orders_order fields).stable size).symm

theorem order_eq_order_iff : order fields' = order fields ↔ Alike fields' fields := by
  have stable := fun fields => (orders_order fields).stable
  constructor
  · intro same size
    rw [← stable fields', same, stable fields]
  · intro alike
    refine eq_of_alike (orders_order fields').widest (orders_order fields).widest fun size => ?_
    rw [stable fields', alike, stable fields]

@[simp] theorem order_order (fields : List Field) : order (order fields) = order fields :=
  order_eq_order_iff.mpr (orders_order fields).stable

end Uniqueness

/-- The order on the wire is the stable sort by width: it has the declared fields with the wider
ones first and those of one width as declared, and no other list has.  Sorting again changes
nothing.  Two declarations share their layout, its length and, under one name, the seed exactly if
they have the same fields of each width in the same order. -/
theorem orders_iff_eq_order (fields : List Field) :
    (∀ wire, Orders wire fields ↔ wire = order fields)
      ∧ order (order fields) = order fields
      ∧ ∀ (id id' : UInt8) (name : String) (seed : Option UInt8) (fields' : List Field),
        let d := Definition.make id name fields seed
        let d' := Definition.make id' name fields' seed
        (d'.wire = d.wire ∧ d'.payloadLength = d.payloadLength ∧ d'.seed = d.seed) ↔
          Alike fields' fields := by
  refine ⟨fun wire => ⟨Orders.eq_order, ?_⟩, order_order fields, ?_⟩
  · rintro rfl
    exact orders_order fields
  · intro id id' name seed fields' d d'
    rw [← order_eq_order_iff]
    constructor
    · exact fun same => same.1
    · intro same
      have wire : d'.wire = d.wire := same
      refine ⟨wire, congrArg size wire, ?_⟩
      exact congrArg (fun wire => seed.getD (Definition.deriveSeed name wire)) same

theorem size_eq_sum (fields : List Field) : size fields = (fields.map Field.wireSize).sum := by
  induction fields with
  | nil => rfl
  | cons f rest ih => rw [size, ih, List.map_cons, List.sum_cons]

theorem size_order (fields : List Field) :
    size (order fields) = (fields.map Field.wireSize).sum := by
  rw [size_eq_sum]
  exact ((order_perm fields).map _).sum_eq

end VehicleLink.Layout
