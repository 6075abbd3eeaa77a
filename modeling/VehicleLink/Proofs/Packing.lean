import VehicleLink.Proofs.Fitting
import VehicleLink.Proofs.RoundTrip

namespace VehicleLink

theorem Field.name_notMem_keys {f : Field} (isNumber : f.primitive ≠ .char)
    (repeated : f.isRepeated) : f.name ∉ f.keys := by
  rw [keys, if_pos ⟨isNumber, repeated⟩]
  intro isKey
  obtain ⟨i, -, same⟩ := List.mem_map.mp isKey
  have nothing : toString i = "" := by
    have lengths := congrArg String.length same
    rw [String.length_append] at lengths
    exact String.length_eq_zero_iff.mp (by omega)
  exact absurd nothing (by simp)

namespace Definition

def places (d : Definition) : List (Field × String) := d.wire.flatMap fun f => f.keys.map (f, ·)

theorem slots_eq_places (d : Definition) : d.slots = d.places.map fun x => x.1.slot x.2 := by
  rw [slots, Layout.slots, places, List.map_flatMap]
  congr 1
  funext f
  rw [f.slots_eq, List.map_map]
  rfl

theorem mem_keys_iff {d : Definition} {key : String} :
    key ∈ d.keys ↔ ∃ f ∈ d.declared, key ∈ f.keys := by
  rw [d.keys_perm.mem_iff, List.mem_flatMap]

end Definition

namespace Codec

def Fits (fields : Fields) (places : List (Field × String)) : Prop :=
  ∀ x ∈ places, ∀ v ∈ fields.get? x.2, x.1.primitive.CanHold v

/-- All fields before this key can hold what they are given, but the field with this key cannot. -/
def FirstMisfit (fields : Fields) (places : List (Field × String)) (key : String) (v : Value) :
    Prop :=
  ∃ before f after, places = before ++ (f, key) :: after ∧ Fits fields before
    ∧ fields.get? key = some v ∧ ¬ f.primitive.CanHold v

section Slots

variable {fields fields' : Fields} {places : List (Field × String)}

theorem fits_cons {x : Field × String} :
    Fits fields (x :: places) ↔
      (∀ v ∈ fields.get? x.2, x.1.primitive.CanHold v) ∧ Fits fields places :=
  List.forall_mem_cons

theorem packSlots_of_fits (h : Fits fields places) :
    ∃ payload, packSlots fields (places.map fun x => x.1.slot x.2) = .ok payload := by
  induction places with
  | nil => exact ⟨[], rfl⟩
  | cons x rest ih =>
    obtain ⟨first, others⟩ := fits_cons.mp h
    obtain ⟨behind, written⟩ := ih others
    obtain ⟨bytes, encoded⟩ := Field.exists_encode_slot first
    refine ⟨bytes ++ behind, ?_⟩
    rw [List.map_cons, packSlots, x.1.key_slot, encoded, written]
    rfl

theorem packSlots_of_misfit {key : String} {v : Value} (h : FirstMisfit fields places key v) :
    packSlots fields (places.map fun x => x.1.slot x.2) = .error (.unsuitable key v) := by
  obtain ⟨before, f, after, rfl, fits, isGiven, misfit⟩ := h
  induction before with
  | nil =>
    rw [List.nil_append, List.map_cons, packSlots, f.key_slot,
      Field.encode_slot_of_misfit isGiven misfit]
    rfl
  | cons x rest ih =>
    obtain ⟨first, others⟩ := fits_cons.mp fits
    obtain ⟨bytes, encoded⟩ := Field.exists_encode_slot first
    rw [List.cons_append, List.map_cons, packSlots, x.1.key_slot, encoded, ih others]
    rfl

theorem not_fits_of_misfit {key : String} {v : Value} (h : FirstMisfit fields places key v) :
    ¬ Fits fields places := by
  obtain ⟨before, f, after, rfl, -, isGiven, misfit⟩ := h
  exact fun fits => misfit (fits (f, key) (by simp) v isGiven)

theorem exists_misfit_of_not_fits (h : ¬ Fits fields places) :
    ∃ key v, FirstMisfit fields places key v := by
  induction places with
  | nil => exact absurd nofun h
  | cons x rest ih =>
    by_cases first : ∀ v ∈ fields.get? x.2, x.1.primitive.CanHold v
    · obtain ⟨key, v, before, f, after, rfl, fits, misfit⟩ :=
        ih fun others => h (fits_cons.mpr ⟨first, others⟩)
      exact ⟨key, v, x :: before, f, after, rfl, fits_cons.mpr ⟨first, fits⟩, misfit⟩
    · push Not at first
      obtain ⟨v, isGiven, misfit⟩ := first
      exact ⟨x.2, v, [], x.1, rest, rfl, nofun, isGiven, misfit⟩

theorem exists_misfit_iff :
    (∃ key v, FirstMisfit fields places key v) ↔
      ∃ x ∈ places, ∃ v ∈ fields.get? x.2, ¬ x.1.primitive.CanHold v := by
  have unfit : ¬ Fits fields places ↔
      ∃ x ∈ places, ∃ v ∈ fields.get? x.2, ¬ x.1.primitive.CanHold v := by
    rw [Fits]
    push Not
    rfl
  rw [← unfit]
  constructor
  · rintro ⟨key, v, misfit⟩
    exact not_fits_of_misfit misfit
  · exact exists_misfit_of_not_fits

theorem packSlots_congr {slots : List Slot}
    (same : ∀ key ∈ slots.map Slot.key, fields'.get? key = fields.get? key) :
    packSlots fields' slots = packSlots fields slots := by
  induction slots with
  | nil => rfl
  | cons s rest ih =>
    obtain ⟨first, others⟩ := List.forall_mem_cons.mp same
    rw [packSlots, packSlots, first, ih others]

end Slots

variable {r : Registry} {kind : UInt8} {fields fields' : Fields} {sender : Sender} {d : Definition}

theorem pack_of_unregistered (unknown : r.get? kind = none) :
    pack r kind fields sender = .error (.unregistered kind) := by
  rw [pack, unknown]

theorem pack_of_fits (known : r.get? kind = some d) (h : Fits fields d.places) :
    ∃ p, pack r kind fields sender = .ok p := by
  obtain ⟨payload, written⟩ := packSlots_of_fits h
  refine ⟨stamp d sender payload, ?_⟩
  rw [← d.slots_eq_places] at written
  simp only [pack, known, written]
  rfl

theorem pack_of_misfit (known : r.get? kind = some d) {key : String} {v : Value}
    (h : FirstMisfit fields d.places key v) :
    pack r kind fields sender = .error (.unsuitable key v) := by
  have failed := packSlots_of_misfit h
  rw [← d.slots_eq_places] at failed
  simp only [pack, known, failed]
  rfl

theorem pack_congr (known : r.get? kind = some d)
    (same : ∀ key ∈ d.keys, fields'.get? key = fields.get? key) :
    pack r kind fields' sender = pack r kind fields sender := by
  simp only [pack, known, packSlots_congr same]

theorem pack_eq_error_iff (known : r.get? kind = some d) {cause : WireError} :
    pack r kind fields sender = .error cause ↔
      ∃ key v, cause = .unsuitable key v ∧ FirstMisfit fields d.places key v := by
  constructor
  · intro failed
    by_cases fits : Fits fields d.places
    · obtain ⟨p, packed⟩ : ∃ p, pack r kind fields sender = .ok p := pack_of_fits known fits
      cases packed.symm.trans failed
    · obtain ⟨key, v, misfit⟩ := exists_misfit_of_not_fits fits
      cases (pack_of_misfit known misfit).symm.trans failed
      exact ⟨key, v, rfl, misfit⟩
  · rintro ⟨key, v, rfl, misfit⟩
    exact pack_of_misfit known misfit

/-- Packing fails if the kind is not registered, and otherwise exactly if some key of its layout is
given a value that its field cannot hold; the first such key and its value are named.  All other
keys are ignored, and the bare name of a repeated field is among these unless it is a key of another
field. -/
theorem pack_fails_iff (r : Registry) (kind : UInt8) (fields : Fields) (sender : Sender) :
    (pack r kind fields sender = .error (.unregistered kind) ↔ r.get? kind = none)
      ∧ ∀ d, r.get? kind = some d →
        ((∃ key v, pack r kind fields sender = .error (.unsuitable key v)) ↔
          ∃ x ∈ d.places, ∃ v ∈ fields.get? x.2, ¬ x.1.primitive.CanHold v)
        ∧ (∀ cause, pack r kind fields sender = .error cause ↔
          ∃ key v, cause = .unsuitable key v ∧ FirstMisfit fields d.places key v)
        ∧ (∀ fields', (∀ key ∈ d.keys, fields'.get? key = fields.get? key) →
          pack r kind fields' sender = pack r kind fields sender)
        ∧ ∀ f ∈ d.declared, f.primitive ≠ .char → f.isRepeated → f.name ∈ d.keys →
          ∃ g ∈ d.declared, g ≠ f ∧ f.name ∈ g.keys := by
  refine ⟨⟨fun failed => ?_, pack_of_unregistered⟩, fun d known =>
    ⟨?_, fun _ => pack_eq_error_iff known, fun _ => pack_congr known, ?_⟩⟩
  · cases known : r.get? kind with
    | none => rfl
    | some d =>
      obtain ⟨_, _, ⟨⟩, -⟩ := (pack_eq_error_iff known).mp failed
  · rw [← exists_misfit_iff]
    constructor
    · rintro ⟨key, v, failed⟩
      obtain ⟨key, v, -, misfit⟩ := (pack_eq_error_iff known).mp failed
      exact ⟨key, v, misfit⟩
    · rintro ⟨key, v, misfit⟩
      exact ⟨key, v, pack_of_misfit known misfit⟩
  · intro f declared isNumber repeated isKey
    obtain ⟨g, declared', isKey'⟩ := Definition.mem_keys_iff.mp isKey
    refine ⟨g, declared', ?_, isKey'⟩
    rintro rfl
    exact Field.name_notMem_keys isNumber repeated isKey'

def misgiven : Fields :=
  ⟨[("n", .text []), ("tag", .single .one), ("n1", .double ⟨0x40EFFFF000000000⟩),
    ("n0", .single ⟨0xBFC00000⟩)]⟩

theorem pack_fails_of_misgiven :
    let r : Registry := ⟨[echo], by decide⟩
    r.get? 7 = some echo ∧ FirstMisfit misgiven echo.places "n0" (.single ⟨0xBFC00000⟩)
      ∧ pack r 7 misgiven ⟨0, 1, 1⟩ = .error (.unsuitable "n0" (.single ⟨0xBFC00000⟩))
      ∧ pack r 7 ⟨misgiven.entries.drop 1⟩ ⟨0, 1, 1⟩ = pack r 7 misgiven ⟨0, 1, 1⟩ := by
  intro r
  have known : r.get? 7 = some echo := by decide
  have misfit : FirstMisfit misgiven echo.places "n0" (.single ⟨0xBFC00000⟩) := by
    have absent : misgiven.get? "x" = none := by decide
    have refused : ¬ Primitive.u16.CanHold (.single ⟨0xBFC00000⟩) := by
      rw [Primitive.CanHold, ← Value.exists_toInt?_iff]
      decide +kernel
    exact ⟨[(.scalar "x" .single, "x")], .array "n" .u16 2,
      [(.array "n" .u16 2, "n1"), (.array "tag" .char 3, "tag")], by decide, by simp [Fits, absent],
      by decide, refused⟩
  obtain ⟨-, failure, ignores, -⟩ := (pack_fails_iff r 7 misgiven ⟨0, 1, 1⟩).2 echo known
  exact ⟨known, misfit, (failure _).mpr ⟨_, _, rfl, misfit⟩, ignores _ (by decide)⟩

end Codec

end VehicleLink
