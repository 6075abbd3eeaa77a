import Mathlib.Algebra.BigOperators.Group.List.Basic
import Mathlib.Algebra.Order.Ring.Nat
import Mathlib.Data.List.Nodup
import VehicleLink.Schema.Registry

namespace VehicleLink

theorem ok_of_bind {ε α β : Type} {x : Except ε α} {f : α → Except ε β} {b : β}
    (h : x >>= f = .ok b) : ∃ a, x = .ok a ∧ f a = .ok b := by
  cases x with
  | error e => cases h
  | ok a => exact ⟨a, rfl, h⟩

theorem kept_of_foldlM {ε σ α : Type} {step : σ → α → Except ε σ} {motive : σ → Prop}
    (kept : ∀ s a s', motive s → step s a = .ok s' → motive s') {l : List α} {s s' : σ}
    (h : l.foldlM step s = .ok s') (first : motive s) : motive s' := by
  induction l generalizing s with
  | nil =>
    cases h
    exact first
  | cons a l ih =>
    rw [List.foldlM_cons] at h
    obtain ⟨middle, stepped, others⟩ := ok_of_bind h
    exact ih others (kept s a middle first stepped)

namespace Field

def keys (f : Field) : List String :=
  if f.primitive ≠ .char ∧ f.isRepeated then (List.range f.count).map (f.name ++ toString ·)
  else [f.name]

def slot (f : Field) (key : String) : Slot :=
  match f.primitive with
  | .char => .text key f.count
  | .number t => .number key t

@[simp] theorem key_slot (f : Field) (key : String) : (f.slot key).key = key := by
  cases h : f.primitive <;> simp [slot, h, Slot.key]

theorem slots_eq (f : Field) : f.slots = f.keys.map f.slot := by
  cases h : f.primitive with
  | char => simp [slots, keys, slot, h]
  | number t => cases repeated : f.isRepeated <;> simp [slots, keys, slot, h, repeated]

theorem map_key_slots (f : Field) : f.slots.map Slot.key = f.keys := by
  rw [slots_eq, List.map_map]
  exact (List.map_congr_left fun key _ => f.key_slot key).trans (List.map_id f.keys)

theorem count_pos {f : Field} (h : f.arrayLength ≠ some 0) : 0 < f.count := by
  cases eq : f.arrayLength with
  | none => simp [count, eq]
  | some n =>
    have nonzero : n ≠ 0 := fun zero => h (zero ▸ eq)
    simpa [count, eq] using Nat.pos_of_ne_zero fun zero => nonzero (UInt8.toNat_inj.mp zero)

theorem length_keys {f : Field} {t} (h : f.primitive = .number t) (counted : 0 < f.count) :
    f.keys.length = f.count := by
  rw [keys, h]
  cases repeated : f.isRepeated with
  | true => simp
  | false =>
    have single : ¬ 1 < f.count := of_decide_eq_false repeated
    simp only [Bool.false_eq_true, and_false, if_false, List.length_singleton]
    omega

theorem sum_size_slots {f : Field} (counted : 0 < f.count) :
    (f.slots.map Slot.size).sum = f.wireSize := by
  rw [slots_eq, List.map_map]
  cases h : f.primitive with
  | char => simp [keys, slot, h, wireSize, Slot.size, Primitive.size]
  | number t =>
    have sizes : f.keys.map (Slot.size ∘ f.slot) = List.replicate f.count t.size := by
      rw [List.eq_replicate_iff]
      simp [length_keys h counted, slot, h, Slot.size]
    rw [sizes, List.sum_replicate_nat, wireSize, h, Primitive.size, Nat.mul_comm]

end Field

namespace Layout

theorem mem_order {f : Field} {fields : List Field} : f ∈ order fields ↔ f ∈ fields :=
  (order_perm fields).mem_iff

theorem sum_size_slots {fields : List Field} (counted : ∀ f ∈ fields, 0 < f.count) :
    ((slots fields).map Slot.size).sum = size fields := by
  induction fields with
  | nil => rfl
  | cons f rest ih =>
    have first := Field.sum_size_slots (counted f List.mem_cons_self)
    have others := ih fun g isRest => counted g (List.mem_cons_of_mem _ isRest)
    rw [slots] at others
    rw [slots, List.flatMap_cons, List.map_append, List.sum_append, first, others, size]

end Layout

namespace Definition

structure WellFormed (d : Definition) : Prop where
  counted : ∀ f ∈ d.declared, f.arrayLength ≠ some 0
  short : d.payloadLength ≤ 255

theorem keys_eq (d : Definition) : d.keys = d.wire.flatMap Field.keys := by
  rw [keys, slots, Layout.slots, List.map_flatMap]
  congr 1
  funext f
  exact f.map_key_slots

theorem keys_perm (d : Definition) : d.keys.Perm (d.declared.flatMap Field.keys) := by
  rw [keys_eq]
  exact (Layout.order_perm d.declared).flatMap_right _

theorem slot_mem_slots (d : Definition) {f : Field} {key : String} (declared : f ∈ d.declared)
    (isKey : key ∈ f.keys) : f.slot key ∈ d.slots := by
  refine List.mem_flatMap.mpr ⟨f, Layout.mem_order.mpr declared, ?_⟩
  rw [f.slots_eq]
  exact List.mem_map_of_mem isKey

theorem sum_size_slots {d : Definition} (counted : ∀ f ∈ d.declared, f.arrayLength ≠ some 0) :
    (d.slots.map Slot.size).sum = d.payloadLength :=
  Layout.sum_size_slots fun f isWire => Field.count_pos (counted f (Layout.mem_order.mp isWire))

theorem WellFormed.sum_size_slots {d : Definition} (h : d.WellFormed) :
    (d.slots.map Slot.size).sum = d.payloadLength :=
  Definition.sum_size_slots h.counted

end Definition

namespace Registry

variable {r : Registry} {id : UInt8} {name : String} {d : Definition}

theorem mem_of_named? (h : r.named? name = some d) : d ∈ r.definitions :=
  List.mem_reverse.mp (List.mem_of_find?_eq_some h)

theorem name_of_named? (h : r.named? name = some d) : d.name = name := by
  simpa using List.find?_some h

theorem mem_of_get? (h : r.get? id = some d) : d ∈ r.definitions :=
  List.mem_of_find?_eq_some h

theorem id_of_get? (h : r.get? id = some d) : d.id = id := by
  simpa using List.find?_some h

theorem get?_of_mem (h : d ∈ r.definitions) : r.get? d.id = some d := by
  cases found : r.get? d.id with
  | none => exact absurd (List.mem_map_of_mem h) (notMem_ids_of_get?_eq_none found)
  | some d' =>
    have same : d' = d :=
      List.inj_on_of_nodup_map r.distinct (mem_of_get? found) h (id_of_get? found)
    rw [same]

theorem seed?_of_get? (h : r.get? id = some d) : r.seed? id = some d.seed := by
  rw [seed?, h, Option.map_some]

theorem definitions_of_insert {r' : Registry} (h : r.insert d = .ok r') :
    r'.definitions = r.definitions ++ [d] := by
  unfold insert at h
  split at h
  · cases h
  · cases h
    rfl

theorem definitions_of_foldlM {definitions : List Definition} {r' : Registry}
    (h : definitions.foldlM insert r = .ok r') : r'.definitions = r.definitions ++ definitions := by
  induction definitions generalizing r with
  | nil =>
    cases h
    rw [List.append_nil]
  | cons d rest ih =>
    rw [List.foldlM_cons] at h
    obtain ⟨middle, inserted, others⟩ := ok_of_bind h
    rw [ih others, definitions_of_insert inserted, List.append_assoc, List.singleton_append]

theorem definitions_of_ofList {definitions : List Definition} (h : ofList definitions = .ok r) :
    r.definitions = definitions :=
  definitions_of_foldlM h

end Registry

end VehicleLink
