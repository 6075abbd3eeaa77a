import VehicleLink.Proofs.Layout
import VehicleLink.Proofs.RoundTrip

namespace VehicleLink

theorem Registry.exists_named?_of_mem {r : Registry} {d : Definition} (h : d ∈ r.definitions) :
    ∃ d', r.named? d.name = some d' ∧ d'.name = d.name := by
  cases named : r.named? d.name with
  | none =>
    have missing := List.find?_eq_none.mp named d (List.mem_reverse.mpr h)
    simp at missing
  | some d' => exact ⟨d', rfl, name_of_named? named⟩

namespace Dialect

/-- A kind that is found by its identifier has that identifier and arrays of 1 to 255 elements,
its wire order is the stable one by width, its payload is as long as its fields together and fits
into a byte, and its name leads to a kind of that name.  There are as many kinds as the document
defines, under as many identifiers. -/
theorem wellFormed_and_named_of_load {text : String} {r : Registry} (h : load text = .ok r) :
    (∀ id d, r.get? id = some d →
      d.id = id
        ∧ (∀ f ∈ d.declared, ∀ n ∈ f.arrayLength, 1 ≤ n.toNat ∧ n.toNat ≤ 255)
        ∧ Layout.Orders d.wire d.declared
        ∧ d.payloadLength = (d.declared.map fun f => f.primitive.size * f.count).sum
        ∧ d.payloadLength ≤ 255
        ∧ ∃ d', r.named? d.name = some d' ∧ d'.name = d.name)
      ∧ ∃ list, definitions text = .ok list ∧ r.size = list.length
        ∧ (list.map Definition.id).Nodup := by
  constructor
  · intro id d found
    have isMember := Registry.mem_of_get? found
    obtain ⟨counted, short⟩ := wellFormed_of_load h d isMember
    refine ⟨Registry.id_of_get? found, ?_, Layout.orders_order d.declared,
      Layout.size_order d.declared, short, Registry.exists_named?_of_mem isMember⟩
    intro f declared n isLength
    have positive : 0 < n.toNat := by
      simpa [Field.count, Option.mem_def.mp isLength] using Field.count_pos (counted f declared)
    exact ⟨positive, Nat.le_of_lt_succ n.toNat_lt⟩
  · obtain ⟨list, read, inserted⟩ := ok_of_bind h
    have same := Registry.definitions_of_ofList inserted
    exact ⟨list, read, congrArg List.length same, same ▸ r.distinct⟩

theorem wellFormed_and_named_of_echoes :
    let r : Registry := ⟨[Codec.echo], by decide⟩
    load Codec.echoes = .ok r ∧ r.get? 7 = some Codec.echo
      ∧ Codec.echo.id = 7 ∧ Layout.Orders Codec.echo.wire Codec.echo.declared
      ∧ Codec.echo.payloadLength = 3 + 2 * 2 + 4
      ∧ (∃ d', r.named? "ECHO" = some d' ∧ d'.name = "ECHO")
      ∧ ∃ list, definitions Codec.echoes = .ok list ∧ r.size = list.length
        ∧ (list.map Definition.id).Nodup := by
  intro r
  have found : r.get? 7 = some Codec.echo := by decide
  obtain ⟨kinds, counted⟩ := wellFormed_and_named_of_load Codec.load_echoes
  obtain ⟨own, -, orders, length, -, named⟩ := kinds 7 _ found
  exact ⟨Codec.load_echoes, found, own, orders, length, named, counted⟩

end Dialect

end VehicleLink
