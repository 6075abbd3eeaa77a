import Mathlib.Data.List.Nodup
import VehicleLink.Parameters

namespace VehicleLink.Parameters

variable {p : Parameters} {total index : UInt16}

theorem mem_indices : index ∈ indices total ↔ index < total := by
  have bound := total.toNat_lt
  rw [indices, List.mem_map]
  constructor
  · rintro ⟨n, isBelow, rfl⟩
    have below := List.mem_range.mp isBelow
    rw [UInt16.lt_iff_toNat_lt, UInt16.toNat_ofNat']
    omega
  · intro below
    exact ⟨index.toNat, List.mem_range.mpr below, UInt16.ofNat_toNat⟩

theorem pairwise_indices (total : UInt16) : (indices total).Pairwise (· < ·) := by
  have bound := total.toNat_lt
  refine List.pairwise_map.mpr (List.pairwise_lt_range.imp_of_mem ?_)
  intro i j _ isBelow less
  have below := List.mem_range.mp isBelow
  rw [UInt16.lt_iff_toNat_lt, UInt16.toNat_ofNat', UInt16.toNat_ofNat']
  omega

theorem nodup_indices (total : UInt16) : (indices total).Nodup :=
  (pairwise_indices total).imp UInt16.ne_of_lt

theorem length_indices (total : UInt16) : (indices total).length = total.toNat := by
  rw [indices, List.length_map, List.length_range]

theorem ne_noIndex_of_lt (below : index < total) : index ≠ noIndex := by
  have bound := total.toNat_lt
  rw [UInt16.lt_iff_toNat_lt] at below
  rintro rfl
  exact absurd below (by rw [noIndex, show (0xFFFF : UInt16).toNat = 65535 from rfl]; omega)

@[simp] theorem get?_begin (p : Parameters) (total : UInt16) (name : String) :
    (p.begin total).get? name = p.get? name := rfl

@[simp] theorem atIndex?_begin (p : Parameters) (total index : UInt16) :
    (p.begin total).atIndex? index = p.atIndex? index := rfl

theorem get?_record (p : Parameters) (index : UInt16) (name name' : String) (value : Single) :
    (p.record index name value).get? name' = if name = name' then some value else p.get? name' := by
  simp [record, get?, Std.TreeMap.getElem?_insert]

theorem atIndex?_record (p : Parameters) (index index' : UInt16) (name : String) (value : Single) :
    (p.record index name value).atIndex? index' =
      if index = index' ∧ index ≠ noIndex then some value else p.atIndex? index' := by
  by_cases unnumbered : index = noIndex
  · simp [record, atIndex?, unnumbered]
  · simp [record, atIndex?, unnumbered, Std.TreeMap.getElem?_insert]

theorem mem_arrived_record (p : Parameters) (index index' : UInt16) (name : String)
    (value : Single) : index' ∈ (p.record index name value).arrived ↔
      index = index' ∧ index ≠ noIndex ∨ index' ∈ p.arrived := by
  by_cases unnumbered : index = noIndex
  · simp [record, unnumbered]
  · simp [record, unnumbered, Std.TreeSet.mem_insert]

theorem missing_of_total (announced : p.total = some total) :
    p.missing = (indices total).filter fun i => !p.arrived.contains i := by
  rw [missing, announced]

theorem missing_of_unknown (unknown : p.total = none) : p.missing = [] := by
  rw [missing, unknown]

theorem mem_missing :
    index ∈ p.missing ↔ ∃ total ∈ p.total, index < total ∧ index ∉ p.arrived := by
  cases announced : p.total with
  | none => simp [missing_of_unknown announced]
  | some total => simp [missing_of_total announced, mem_indices, ← Bool.not_eq_true]

theorem pairwise_missing (p : Parameters) : p.missing.Pairwise (· < ·) := by
  cases announced : p.total with
  | none => simp [missing_of_unknown announced]
  | some total =>
    rw [missing_of_total announced]
    exact (pairwise_indices total).filter _

theorem received_of_total (announced : p.total = some total) :
    p.received = ((indices total).filter p.arrived.contains).length := by
  have distinct : p.arrived.toList.Nodup := by
    simpa [List.Nodup] using p.arrived.distinct_toList
  have arrived : (p.arrived.toList.filter (· < total)).Perm
      ((indices total).filter p.arrived.contains) := by
    refine (List.perm_ext_iff_of_nodup (distinct.filter _)
      ((nodup_indices total).filter _)).mpr fun i => ?_
    simp [mem_indices, and_comm]
  rw [received, announced, ← arrived.length_eq, ← List.countP_eq_length_filter]

theorem received_add_missing (announced : p.total = some total) :
    p.received + p.missing.length = total.toNat := by
  rw [received_of_total announced, missing_of_total announced, ← length_indices total,
    ← List.length_eq_length_filter_add]

theorem isComplete_iff (p : Parameters) :
    p.isComplete ↔ p.forced ∨ p.total.isSome ∧ p.missing = [] := by
  simp [isComplete]

theorem progress_of_zero (announced : p.total = some 0) : p.progress = 100 := by
  rw [progress, percentage, announced]
  rfl

theorem percent_le (announced : p.total = some total) :
    p.received * 100 / total.toNat ≤ 100 := by
  have split := received_add_missing announced
  exact Nat.div_le_of_le_mul (by omega)

/-- No more arrives than was announced, so that the percentage is not cut to fit into its byte. -/
theorem progress_of_pos (announced : p.total = some total) (positive : 0 < total) :
    p.progress = p.received * 100 / total.toNat := by
  have fits : p.received * 100 / total.toNat < UInt8.size :=
    Nat.lt_of_le_of_lt (percent_le announced) (by decide)
  rw [progress, percentage, announced]
  dsimp only
  rw [if_neg (UInt16.pos_iff_ne_zero.mp positive), UInt8.toNat_ofNat_of_lt' fits]

theorem progress_le (p : Parameters) : p.progress ≤ 100 := by
  cases announced : p.total with
  | none => simp [progress, percentage, announced]
  | some total =>
    by_cases empty : total = 0
    · subst empty
      exact Nat.le_of_eq (progress_of_zero announced)
    · rw [progress_of_pos announced (UInt16.pos_iff_ne_zero.mpr empty)]
      exact percent_le announced

theorem progress_eq_hundred_iff (announced : p.total = some total) :
    p.progress = 100 ↔ p.missing = [] := by
  have split := received_add_missing announced
  rw [← List.length_eq_zero_iff]
  by_cases empty : total = 0
  · subst empty
    have none : p.received + p.missing.length = 0 := split
    rw [progress_of_zero announced]
    omega
  · have positive : 0 < total := UInt16.pos_iff_ne_zero.mpr empty
    have most := p.progress_le
    have least : 100 ≤ p.received * 100 / total.toNat ↔ 100 * total.toNat ≤ p.received * 100 :=
      Nat.le_div_iff_mul_le positive
    rw [progress_of_pos announced positive] at most ⊢
    omega

def Overdue (p : Parameters) (now timeout : Nat) : Prop :=
  (∃ start ∈ p.startedAt, start + timeout < now) ∧ (p.total = none ∨ p.missing ≠ [])

theorem expire_cases (p : Parameters) (now timeout : Nat) :
    (p.forced = false ∧ p.Overdue now timeout ∧ p.expire now timeout = (p.force, some p.missing))
      ∨ (p.Overdue now timeout → p.forced) ∧ p.expire now timeout = (p, none) := by
  fun_cases expire p now timeout with
  | case1 unstarted => exact .inr ⟨by simp [Overdue, unstarted], rfl⟩
  | case2 start started early =>
    refine .inr ⟨?_, rfl⟩
    rintro ⟨⟨_, isStart, late⟩, -⟩
    obtain rfl := Option.some.inj (started.symm.trans isStart)
    exact early.resolve_right (by omega)
  | case3 start started late complete =>
    refine .inr ⟨?_, rfl⟩
    rintro ⟨-, unknown | lacking⟩
    · simp [unknown] at complete
    · exact absurd (List.isEmpty_iff.mp complete.2) lacking
  | case4 start started late incomplete =>
    rw [not_or] at late
    refine .inl ⟨by simpa using late.1, ⟨⟨start, started, by omega⟩, ?_⟩, rfl⟩
    cases announced : p.total with
    | none => exact .inl rfl
    | some total => exact .inr fun none => incomplete ⟨by rw [announced]; rfl, by rw [none]; rfl⟩

end VehicleLink.Parameters
