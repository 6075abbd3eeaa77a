import Mathlib.Data.Finset.Card
import VehicleLink.Proofs.RoundTrip

namespace VehicleLink

namespace Registry

/-- What a call to insert a kind leaves behind: the cause if it is refused, and the registry. -/
def offer (r : Registry) (d : Definition) : Option DialectError × Registry :=
  match r.insert d with
  | .ok r' => (none, r')
  | .error cause => (some cause, r)

def offerAll (r : Registry) (ds : List Definition) : Registry :=
  ds.foldl (fun r d => (r.offer d).2) r

def accepted (r : Registry) : List Definition → List Definition
  | [] => []
  | d :: ds =>
    if (r.offer d).1 = none then d :: accepted (r.offer d).2 ds else accepted (r.offer d).2 ds

section Offers

variable {r : Registry} {d first : Definition} {id : UInt8} {name : String}

theorem get?_of_append {r' : Registry} (same : r'.definitions = r.definitions ++ [d]) (id : UInt8) :
    r'.get? id = (r.get? id).or ([d].find? (·.id == id)) := by
  rw [get?, same, List.find?_append, get?]

theorem named?_of_append {r' : Registry} (same : r'.definitions = r.definitions ++ [d])
    (name : String) : r'.named? name = ([d].find? (·.name == name)).or (r.named? name) := by
  rw [named?, same, List.reverse_append, List.find?_append, named?, List.reverse_singleton]

theorem offer_of_known (known : r.get? d.id = some first) :
    r.offer d = (some (.duplicateId d.id first.name d.name), r) := by
  have failed : r.insert d = .error (.duplicateId d.id first.name d.name) := by
    unfold insert
    split
    · rw [Option.some.inj (known.symm.trans ‹_›)]
    · cases known.symm.trans ‹_›
  rw [offer, failed]

theorem offer_of_unknown (unknown : r.get? d.id = none) :
    ∃ r', r.offer d = (none, r') ∧ r'.definitions = r.definitions ++ [d] := by
  cases inserted : r.insert d with
  | ok r' => exact ⟨r', by rw [offer, inserted], definitions_of_insert inserted⟩
  | error cause =>
    unfold insert at inserted
    split at inserted
    · cases unknown.symm.trans ‹_›
    · cases inserted

theorem offer_eq_some_iff {cause : DialectError} :
    (r.offer d).1 = some cause ↔
      ∃ first, r.get? d.id = some first ∧ cause = .duplicateId d.id first.name d.name := by
  cases known : r.get? d.id with
  | some first => simp [offer_of_known known, eq_comm]
  | none =>
    obtain ⟨r', done, -⟩ := offer_of_unknown known
    simp [done]

theorem offer_of_refused (refused : (r.offer d).1 ≠ none) : (r.offer d).2 = r := by
  cases known : r.get? d.id with
  | some first => rw [offer_of_known known]
  | none =>
    obtain ⟨r', done, -⟩ := offer_of_unknown known
    rw [done] at refused
    exact absurd rfl refused

theorem get?_offer (r : Registry) (d : Definition) (id : UInt8) :
    (r.offer d).2.get? id = (r.get? id).or ([d].find? (·.id == id)) := by
  cases known : r.get? d.id with
  | some first =>
    rw [offer_of_known known]
    by_cases own : d.id = id
    · subst own
      simp [known]
    · simp [own]
  | none =>
    obtain ⟨r', done, same⟩ := offer_of_unknown known
    rw [done, get?_of_append same]

theorem definitions_offer (r : Registry) (d : Definition) :
    (r.offer d).2.definitions = r.definitions ++ if (r.offer d).1 = none then [d] else [] := by
  cases known : r.get? d.id with
  | some first => simp [offer_of_known known]
  | none =>
    obtain ⟨r', done, same⟩ := offer_of_unknown known
    simp [done, same]

theorem get?_offerAll (r : Registry) (ds : List Definition) (id : UInt8) :
    (r.offerAll ds).get? id = (r.get? id).or (ds.find? (·.id == id)) := by
  induction ds generalizing r with
  | nil => simp [offerAll]
  | cons d ds ih =>
    have next : r.offerAll (d :: ds) = (r.offer d).2.offerAll ds := rfl
    rw [next, ih, get?_offer, Option.or_assoc, ← List.find?_append, List.singleton_append]

theorem definitions_offerAll (r : Registry) (ds : List Definition) :
    (r.offerAll ds).definitions = r.definitions ++ r.accepted ds := by
  induction ds generalizing r with
  | nil => exact (List.append_nil _).symm
  | cons d ds ih =>
    have next : r.offerAll (d :: ds) = (r.offer d).2.offerAll ds := rfl
    rw [next, ih, definitions_offer, accepted, List.append_assoc]
    split <;> rfl

theorem mem_ids_iff : id ∈ r.definitions.map Definition.id ↔ (r.get? id).isSome := by
  constructor
  · intro isId
    obtain ⟨d, isMember, rfl⟩ := List.mem_map.mp isId
    rw [get?_of_mem isMember]
    rfl
  · intro found
    obtain ⟨d, known⟩ := Option.isSome_iff_exists.mp found
    exact List.mem_map.mpr ⟨d, mem_of_get? known, id_of_get? known⟩

theorem size_eq_card (r : Registry) : r.size = (r.definitions.map Definition.id).toFinset.card := by
  rw [List.toFinset_card_of_nodup r.distinct, List.length_map, size]

theorem size_offerAll (ds : List Definition) :
    (empty.offerAll ds).size = (ds.map Definition.id).toFinset.card := by
  rw [size_eq_card]
  congr 1
  ext id
  rw [List.mem_toFinset, List.mem_toFinset, mem_ids_iff, get?_offerAll]
  simp [empty, get?]

theorem named?_eq_getLast? (r : Registry) (name : String) :
    r.named? name = (r.definitions.filter (·.name == name)).getLast? := by
  rw [named?, ← List.head?_filter, List.filter_reverse, List.head?_reverse]

end Offers

/-- The kinds in two tables: the definitions by identifier, and the identifiers by name. -/
structure Tables where
  byId : Assoc UInt8 Definition
  byName : Assoc String UInt8

namespace Tables

def empty : Tables := ⟨.empty, .empty⟩

def store (d : Definition) : EStateM DialectError Tables Unit := do
  modify fun t => { t with byName := t.byName.insert d.name d.id }
  modify fun t => { t with byId := t.byId.insert d.id d }

/-- A name is taken over from an earlier kind, an identifier is not. -/
def insert (d : Definition) : EStateM DialectError Tables Unit := do
  match (← get).byId.get? d.id with
  | some existing => throw (.duplicateId d.id existing.name d.name)
  | none => store d

def get? (t : Tables) (id : UInt8) : Option Definition := t.byId.get? id

def named? (t : Tables) (name : String) : Option Definition :=
  (t.byName.get? name).bind t.byId.get?

def size (t : Tables) : Nat := t.byId.size

def offer (t : Tables) (d : Definition) : Option DialectError × Tables :=
  match (insert d).run t with
  | .ok _ t' => (none, t')
  | .error cause t' => (some cause, t')

def offerAll (t : Tables) (ds : List Definition) : Tables :=
  ds.foldl (fun t d => (t.offer d).2) t

section Refinement

variable {t : Tables} {r : Registry} {d first : Definition}

theorem run_insert (t : Tables) (d : Definition) :
    (insert d).run t =
      (match t.byId.get? d.id with
        | some existing => throw (.duplicateId d.id existing.name d.name)
        | none => store d : EStateM DialectError Tables Unit).run t :=
  rfl

theorem offer_of_known (known : t.byId.get? d.id = some first) :
    t.offer d = (some (.duplicateId d.id first.name d.name), t) := by
  rw [offer, run_insert, known]
  rfl

theorem offer_of_unknown (unknown : t.byId.get? d.id = none) :
    t.offer d = (none, ⟨t.byId.insert d.id d, t.byName.insert d.name d.id⟩) := by
  rw [offer, run_insert, unknown]
  rfl

structure Represents (t : Tables) (r : Registry) : Prop where
  ids : t.byId.keys = r.definitions.map Definition.id
  byId : ∀ id, t.byId.get? id = r.get? id
  byName : ∀ name, t.byName.get? name = (r.named? name).map Definition.id

theorem represents_empty : Represents empty .empty where
  ids := rfl
  byId _ := rfl
  byName _ := rfl

namespace Represents

variable (h : Represents t r)

include h

theorem append {r' : Registry} (unknown : r.get? d.id = none)
    (same : r'.definitions = r.definitions ++ [d]) :
    Represents ⟨t.byId.insert d.id d, t.byName.insert d.name d.id⟩ r' where
  ids := by
    have fresh : d.id ∉ t.byId.keys := h.ids ▸ notMem_ids_of_get?_eq_none unknown
    rw [Assoc.keys_insert fresh, h.ids, same, List.map_append, List.map_singleton]
  byId id := by
    rw [Assoc.get?_insert, h.byId, get?_of_append same]
    by_cases own : d.id = id
    · subst own
      simp [unknown]
    · simp [own]
  byName name := by
    rw [Assoc.get?_insert, h.byName, named?_of_append same]
    by_cases own : d.name = name <;> simp [own]

theorem offer (d : Definition) :
    (t.offer d).1 = (r.offer d).1 ∧ Represents (t.offer d).2 (r.offer d).2 := by
  cases known : r.get? d.id with
  | some first =>
    rw [offer_of_known ((h.byId d.id).trans known), Registry.offer_of_known known]
    exact ⟨rfl, h⟩
  | none =>
    obtain ⟨r', done, same⟩ := Registry.offer_of_unknown known
    rw [offer_of_unknown ((h.byId d.id).trans known), done]
    exact ⟨rfl, h.append known same⟩

theorem offerAll (ds : List Definition) : Represents (t.offerAll ds) (r.offerAll ds) := by
  induction ds generalizing t r with
  | nil => exact h
  | cons d ds ih => exact ih (h.offer d).2

theorem named? (name : String) : t.named? name = r.named? name := by
  rw [Tables.named?, h.byName]
  cases named : r.named? name with
  | none => rfl
  | some d =>
    rw [Option.map_some, Option.bind_some, h.byId]
    exact get?_of_mem (mem_of_named? named)

theorem size : t.size = r.size := by
  have keys := congrArg List.length h.ids
  rwa [Assoc.keys, List.length_map, List.length_map] at keys

end Represents

theorem offer_of_refused (refused : (t.offer d).1 ≠ none) : (t.offer d).2 = t := by
  cases known : t.byId.get? d.id with
  | some first => rw [offer_of_known known]
  | none =>
    rw [offer_of_unknown known] at refused
    exact absurd rfl refused

/-- The tables answer every question as the registry does, and a refusal leaves both of them as they
are. -/
structure Answers (t : Tables) (r : Registry) : Prop where
  get? : ∀ id, t.get? id = r.get? id
  named? : ∀ name, t.named? name = r.named? name
  size : t.size = r.size
  refusal : ∀ d, (t.offer d).1 = (r.offer d).1
  kept : ∀ d, (t.offer d).1 ≠ none → (t.offer d).2 = t

theorem Represents.answers (h : Represents t r) : Answers t r where
  get? := h.byId
  named? := h.named?
  size := h.size
  refusal d := (h.offer d).1
  kept _ := offer_of_refused

end Refinement

end Tables

end Registry

namespace Codec

variable {r : Registry} {name : String} {fields : Fields} {sender : Sender} {p : Packet}
  {m : Message}

theorem name_of_unpack {d : Definition} (known : r.get? p.kind = some d)
    (unpacked : unpack r p = .ok m) : m.name = d.name := by
  simp only [unpack, known] at unpacked
  split at unpacked
  · cases unpacked
  · cases unpacked
    rfl

theorem name_of_packNamed (packed : packNamed r name fields sender = .ok p)
    (unpacked : unpack r p = .ok m) : m.name = name := by
  cases named : r.named? name with
  | none =>
    rw [packNamed, named] at packed
    cases packed
  | some d =>
    rw [packNamed, named] at packed
    have known := Registry.get?_of_mem (Registry.mem_of_named? named)
    obtain ⟨payload, -, rfl⟩ := stamp_of_pack known packed
    rw [name_of_unpack known unpacked, Registry.name_of_named? named]

end Codec

namespace Registry

/-- After any kinds have been offered to an empty registry, a kind is refused exactly if one with
its identifier was accepted before, which is named, and nothing changes then.  An identifier leads
to the first kind offered with it, and there are as many kinds as identifiers.  A name leads to the
last kind accepted under it, and what is packed by name is unpacked under that name.  Two tables
that are kept up by the same calls agree with the registry. -/
theorem registry_of_offers (ds : List Definition) :
    let r := empty.offerAll ds
    (∀ d cause, (r.offer d).1 = some cause ↔
        ∃ first ∈ empty.accepted ds, first.id = d.id ∧ cause = .duplicateId d.id first.name d.name)
      ∧ (∀ d, (r.offer d).1 ≠ none → (r.offer d).2 = r)
      ∧ (∀ id, r.get? id = ds.find? (·.id == id))
      ∧ r.size = (ds.map Definition.id).toFinset.card
      ∧ (∀ name, r.named? name = ((empty.accepted ds).filter (·.name == name)).getLast?
        ∧ ∀ d ∈ r.named? name, d.name = name)
      ∧ (∀ name fields sender p m, Codec.packNamed r name fields sender = .ok p →
        Codec.unpack r p = .ok m → m.name = name)
      ∧ (Tables.empty.offerAll ds).Answers r := by
  intro r
  have definitions : r.definitions = empty.accepted ds := definitions_offerAll empty ds
  refine ⟨fun d cause => ?_, fun d => offer_of_refused, fun id => ?_, size_offerAll ds,
    fun name => ⟨?_, fun d => name_of_named?⟩, fun _ _ _ _ _ => Codec.name_of_packNamed,
    (Tables.represents_empty.offerAll ds).answers⟩
  · rw [offer_eq_some_iff, ← definitions]
    constructor
    · rintro ⟨first, known, rfl⟩
      exact ⟨first, mem_of_get? known, id_of_get? known, rfl⟩
    · rintro ⟨first, isMember, own, rfl⟩
      exact ⟨first, own ▸ get?_of_mem isMember, rfl⟩
  · rw [get?_offerAll]
    rfl
  · rw [named?_eq_getLast?, definitions]

theorem registry_of_clashes :
    let a := Definition.make 5 "A" [.scalar "x" .u8] none
    let b := Definition.make 5 "B" [.scalar "y" .u8] none
    let c := Definition.make 6 "A" [.scalar "z" .u16] none
    let r := empty.offerAll [a, b, c]
    (r.offer b).1 = some (.duplicateId 5 "A" "B") ∧ (r.offer b).2 = r
      ∧ r.get? 5 = some a ∧ r.size = 2 ∧ r.named? "A" = some c ∧ r.named? "B" = none
      ∧ (∃ p m, Codec.packNamed r "A" .empty ⟨0, 1, 1⟩ = .ok p ∧ Codec.unpack r p = .ok m
        ∧ m.name = "A")
      ∧ (Tables.empty.offerAll [a, b, c]).Answers r := by
  intro a b c r
  obtain ⟨refused, kept, byId, size, byName, packs, tables⟩ := registry_of_offers [a, b, c]
  have clash : (r.offer b).1 = some (.duplicateId 5 "A" "B") :=
    (refused b _).mpr ⟨a, by decide +kernel, rfl, rfl⟩
  have packed : Codec.packNamed r "A" .empty ⟨0, 1, 1⟩ = .ok (Codec.stamp c ⟨0, 1, 1⟩ [0, 0]) := by
    decide +kernel
  have unpacked : Codec.unpack r (Codec.stamp c ⟨0, 1, 1⟩ [0, 0]) =
      .ok ⟨6, "A", ⟨[("z", .u16 0)]⟩⟩ := by
    decide +kernel
  have refusal : (r.offer b).1 ≠ none := fun free => nomatch clash.symm.trans free
  exact ⟨clash, kept b refusal, byId 5, size, (byName "A").1.trans (by decide +kernel),
    (byName "B").1.trans (by decide +kernel),
    ⟨_, _, packed, unpacked, packs _ _ _ _ _ packed unpacked⟩, tables⟩

end Registry

end VehicleLink
