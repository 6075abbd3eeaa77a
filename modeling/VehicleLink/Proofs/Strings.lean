import Mathlib.Data.List.TakeWhile
import VehicleLink.Proofs.Packing
import VehicleLink.Proofs.Text.Shorten

namespace VehicleLink

theorem takeWhile_rightpad {α : Type} {keep : α → Bool} {fill : α} (stops : keep fill = false)
    (n : Nat) (l : List α) : (l.rightpad n fill).takeWhile keep = l.takeWhile keep := by
  have none : (List.replicate (n - l.length) fill).takeWhile keep = [] := by
    rw [List.takeWhile_replicate, stops]
    rfl
  rw [List.rightpad, List.takeWhile_append, none, List.append_nil]
  split
  · next whole => exact ((List.takeWhile_prefix keep).eq_of_length whole).symm
  · rfl

namespace Definition

variable {d : Definition} {f : Field}

theorem keys_eq_places (d : Definition) : d.keys = d.places.map Prod.snd := by
  rw [keys, slots_eq_places, List.map_map]
  exact List.map_congr_left fun x _ => x.1.key_slot x.2

theorem mem_places {key : String} (declared : f ∈ d.declared) (isKey : key ∈ f.keys) :
    (f, key) ∈ d.places :=
  List.mem_flatMap.mpr ⟨f, Layout.mem_order.mpr declared, List.mem_map_of_mem isKey⟩

end Definition

theorem Field.name_mem_keys {f : Field} (isText : f.primitive = .char) : f.name ∈ f.keys := by
  simp [keys, isText]

namespace Codec

variable {r : Registry} {d : Definition} {kind : UInt8} {fields : Fields} {p : Packet} {f : Field}

theorem fits_of_text {bytes : List UInt8} (distinct : d.keys.Nodup) (declared : f ∈ d.declared)
    (isText : f.primitive = .char) (given : fields.get? f.name = some (.text bytes))
    (others : ∀ x ∈ d.places, x.2 ≠ f.name → ∀ v ∈ fields.get? x.2, x.1.primitive.CanHold v) :
    Fits fields d.places := by
  intro x isPlace v isGiven
  by_cases named : x.2 = f.name
  · have own : (f, f.name) ∈ d.places := Definition.mem_places declared (Field.name_mem_keys isText)
    rw [Definition.keys_eq_places] at distinct
    obtain rfl : x = (f, f.name) := List.inj_on_of_nodup_map distinct isPlace own named
    obtain rfl : v = .text bytes := Option.some.inj (isGiven.symm.trans given)
    rw [isText]
    exact ⟨bytes, rfl⟩
  · exact others x isPlace named v isGiven

theorem text?_of_pack {bytes : List UInt8} {sender : Sender} (wellFormed : d.WellFormed)
    (known : r.get? kind = some d) (distinct : d.keys.Nodup) (declared : f ∈ d.declared)
    (isText : f.primitive = .char) (given : fields.get? f.name = some (.text bytes))
    (packed : pack r kind fields sender = .ok p) :
    ∃ m, unpack r p = .ok m
      ∧ m.text? f.name = some (Utf8.decodeLossy ((bytes.take f.count).takeWhile (· ≠ 0))) := by
  have length := (sound_of_pack wellFormed known packed).1
  obtain ⟨payload, written, rfl⟩ := stamp_of_pack known packed
  refine ⟨_, unpack_stamp known (Nat.le_of_eq length.symm), ?_⟩
  have isSlot := d.slot_mem_slots declared (Field.name_mem_keys isText)
  obtain ⟨piece, encoded, read⟩ := get?_unpackSlots_of_packSlots written distinct .empty isSlot
  have slot : f.slot f.name = .text f.name f.count := by rw [Field.slot, isText]
  rw [f.key_slot, given, slot] at encoded
  rw [f.key_slot, slot] at read
  obtain ⟨whole, supplied, rfl⟩ := Slot.encode_text encoded
  cases supplied
  rw [Message.text?, Message.get?, read]
  exact congrArg (some <| Utf8.decodeLossy ·) (takeWhile_rightpad rfl _ _)

/-- A string that is packed into a text field under a loaded dialect, with whatever else the kind
can hold, is unpacked as its bytes that fit, up to the first zero.  If it has no zero and fits, that
is the string itself.  In any case it is the characters before the first zero that fit, and a
replacement character at most behind them, if one is cut apart. -/
theorem text_survives {text s : String} (loaded : Dialect.load text = .ok r)
    (known : r.get? kind = some d) (distinct : (d.declared.flatMap Field.keys).Nodup)
    (declared : f ∈ d.declared) (isText : f.primitive = .char)
    (given : fields.get? f.name = some (.ofString s))
    (others : ∀ x ∈ d.places, x.2 ≠ f.name → ∀ v ∈ fields.get? x.2, x.1.primitive.CanHold v)
    (sender : Sender) :
    ∃ p m, pack r kind fields sender = .ok p ∧ unpack r p = .ok m
      ∧ m.text? f.name =
        some (Utf8.decodeLossy (((Utf8.encode s).take f.count).takeWhile (· ≠ 0)))
      ∧ m.text? f.name =
        some (String.ofList (Utf8.shorten f.count (s.toList.takeWhile (· ≠ '\x00'))))
      ∧ ('\x00' ∉ s.toList → (Utf8.encode s).length ≤ f.count → m.text? f.name = some s)
      ∧ ('\x00' ∉ s.toList → ∃ shown, shown <+: s.toList
        ∧ (m.text? f.name = some (String.ofList shown)
          ∨ m.text? f.name = some (String.ofList (shown ++ ['\uFFFD'])))) := by
  have wellFormed := Dialect.wellFormed_of_load loaded d (Registry.mem_of_get? known)
  have distinct' := d.keys_perm.nodup_iff.mpr distinct
  obtain ⟨p, packed⟩ : ∃ p, pack r kind fields sender = .ok p :=
    pack_of_fits known (fits_of_text distinct' declared isText given others)
  obtain ⟨m, unpacked, read⟩ :=
    text?_of_pack wellFormed known distinct' declared isText given packed
  have shortened : m.text? f.name =
      some (String.ofList (Utf8.shorten f.count (s.toList.takeWhile (· ≠ '\x00')))) := by
    rw [read, ← List.take_takeWhile, Utf8.encode, Utf8.takeWhile_encode, Utf8.decodeLossy_take]
  have whole (zeroFree : '\x00' ∉ s.toList) : s.toList.takeWhile (· ≠ '\x00') = s.toList :=
    List.takeWhile_eq_self_iff.mpr fun c isMember =>
      decide_eq_true fun zero => zeroFree (zero ▸ isMember)
  refine ⟨p, m, packed, unpacked, read, shortened, fun zeroFree fits => ?_, fun zeroFree => ?_⟩
  · rw [shortened, whole zeroFree, Utf8.shorten_eq_self fits, String.ofList_toList]
  · rw [shortened, whole zeroFree]
    obtain ⟨shown, isPrefix, same⟩ := Utf8.exists_shorten_eq f.count s.toList
    exact ⟨shown, isPrefix, same.imp (congrArg (some <| String.ofList ·))
      (congrArg (some <| String.ofList ·))⟩

def priced : Fields := ⟨[("n0", .int (IntType.u16.read 7)), ("tag", .ofString "5\u20AC")]⟩

theorem text_survives_priced :
    let r : Registry := ⟨[echo], by decide⟩
    Dialect.load echoes = .ok r ∧ r.get? 7 = some echo
      ∧ (echo.declared.flatMap Field.keys).Nodup ∧ .array "tag" .char 3 ∈ echo.declared
      ∧ priced.get? "tag" = some (.ofString "5\u20AC")
      ∧ (∀ x ∈ echo.places, x.2 ≠ "tag" → ∀ v ∈ priced.get? x.2, x.1.primitive.CanHold v)
      ∧ ∃ p m, pack r 7 priced ⟨0, 1, 1⟩ = .ok p ∧ unpack r p = .ok m
        ∧ m.text? "tag" = some "5\uFFFD" := by
  intro r
  have known : r.get? 7 = some echo := by decide
  have distinct : (echo.declared.flatMap Field.keys).Nodup := by decide
  have declared : .array "tag" .char 3 ∈ echo.declared := by decide
  have given : priced.get? "tag" = some (.ofString "5\u20AC") := by decide
  have others : ∀ x ∈ echo.places, x.2 ≠ "tag" →
      ∀ v ∈ priced.get? x.2, x.1.primitive.CanHold v := by
    have places : echo.places = [(.scalar "x" .single, "x"), (.array "n" .u16 2, "n0"),
      (.array "n" .u16 2, "n1"), (.array "tag" .char 3, "tag")] := by decide
    have absent : priced.get? "x" = none ∧ priced.get? "n1" = none := by decide
    have held : ∀ v ∈ priced.get? "n0", Primitive.u16.CanHold v := by
      rintro v ⟨⟩
      rw [Primitive.CanHold, ← Value.exists_toInt?_iff]
      exact ⟨7, rfl, by decide⟩
    rw [places]
    simpa [absent, Field.array] using held
  obtain ⟨p, m, packed, unpacked, -, shortened, -⟩ :=
    text_survives load_echoes known distinct declared rfl given others ⟨0, 1, 1⟩
  have shown : Utf8.shorten 3 ("5\u20AC".toList.takeWhile (· ≠ '\x00')) = ['5', '\uFFFD'] := by
    decide
  exact ⟨load_echoes, known, distinct, declared, given, others, p, m, packed, unpacked,
    shortened.trans (congrArg (some <| String.ofList ·) shown)⟩

end Codec

end VehicleLink
