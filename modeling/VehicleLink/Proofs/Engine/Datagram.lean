import VehicleLink.Proofs.Decoding
import VehicleLink.Proofs.Engine.Changes
import VehicleLink.Proofs.Stream.Resync

namespace VehicleLink

def Frame.Short (r : Registry) (f : Frame) : Prop :=
  ∃ d ∈ r.get? f.packet.kind, f.packet.payload.length < d.payloadLength

namespace Stream

theorem item_cases {r : Registry} {s : List UInt8} {item : Item} (isItem : item ∈ (drain r true s).1) :
    (∃ f, item = .ok f ∧ f.packet.Sound r) ∨ (∃ p, item = .error (.unknownKind p))
      ∨ ∃ expected actual, item = .error (.checksum expected actual) := by
  obtain ⟨classified, places, same, located⟩ := resynced_drain r s
  obtain isFramed | mismatch := classified item isItem
  · cases item with
    | ok f =>
      have isPlace : .ok f ∈ places.map Place.item := by
        rw [same]
        exact List.mem_filter.mpr ⟨isItem, isFramed⟩
      obtain ⟨x, isPlace, isFrame⟩ := List.mem_map.mp isPlace
      have fits := located.fits x isPlace
      rw [Place.Fits, isFrame] at fits
      exact .inl ⟨f, rfl, (Codec.decode_eq_ok_iff.mp fits.2).1⟩
    | error cause =>
      cases cause with
      | unknownKind p => exact .inr (.inl ⟨p, rfl⟩)
      | _ => cases isFramed
  · exact .inr (.inr mismatch)

end Stream

namespace Codec

variable {r : Registry} {f : Frame}

theorem unpack_short (h : f.Short r) : ∃ cause, unpack r f.packet = .error cause := by
  obtain ⟨d, known, short⟩ := h
  rw [unpack, Option.mem_def.mp known]
  exact ⟨_, if_pos short⟩

theorem short_or_unpack (h : f.packet.Sealed r) :
    f.Short r ∨ ∃ m, unpack r f.packet = .ok m := by
  obtain ⟨seed, registered, -⟩ := h
  obtain ⟨d, known, -⟩ := Option.map_eq_some_iff.mp registered
  obtain short | long := Nat.lt_or_ge f.packet.payload.length d.payloadLength
  · exact .inl ⟨d, known, short⟩
  · exact .inr ⟨_, unpack_of_get? known long⟩

end Codec

namespace Engine

inductive Takes (e : Engine) : Item → Engine → Prop
  | mismatch (expected actual : UInt16) : Takes e (.error (.checksum expected actual)) e
  | stranger (p : Packet) :
    Takes e (.error (.unknownKind p))
      { e with vehicle.telemetry.unknown := e.vehicle.telemetry.unknown.insert p.kind p }
  | short {f : Frame} : f.Short e.registry →
    Takes e (.ok f)
      { e with
        subscribers := e.subscribers.map (·.offer f.raw)
        vehicle.telemetry.identity := e.vehicle.telemetry.identity.or
          (some ⟨f.packet.header.system, f.packet.header.component⟩) }
  | message {f : Frame} {m : Message} : Codec.unpack e.registry f.packet = .ok m →
    Takes e (.ok f) (e.receive (.ok f))

inductive TakesAll : Engine → List Item → Engine → Prop
  | nil {e} : TakesAll e [] e
  | cons {e e' e'' item items} : Takes e item e' → TakesAll e' items e'' →
    TakesAll e (item :: items) e''

variable {e e' : Engine} {item : Item} {items : List Item}

theorem identify_eq (t : Telemetry) (p : Packet) :
    t.identify p =
      { t with identity := t.identity.or (some ⟨p.header.system, p.header.component⟩) } := by
  obtain ⟨identity, _, _, _, _⟩ := t
  cases identity <;> rfl

theorem receive_short {f : Frame} (h : f.Short e.registry) :
    e.receive (.ok f) =
      { e with
        subscribers := e.subscribers.map (·.offer f.raw)
        vehicle.telemetry.identity := e.vehicle.telemetry.identity.or
          (some ⟨f.packet.header.system, f.packet.header.component⟩) } := by
  obtain ⟨cause, failed⟩ := Codec.unpack_short h
  simp only [receive, handleFrame, Telemetry.receive, failed, identify_eq]

theorem Takes.eq_receive (h : e.Takes item e') : e' = e.receive item := by
  cases h with
  | mismatch => rfl
  | stranger => rfl
  | short lacking => exact (receive_short lacking).symm
  | message => rfl

theorem takes_receive {s : List UInt8} (isItem : item ∈ (Stream.drain e.registry true s).1) :
    e.Takes item (e.receive item) := by
  obtain ⟨f, rfl, isSound⟩ | ⟨p, rfl⟩ | ⟨expected, actual, rfl⟩ := Stream.item_cases isItem
  · obtain lacking | ⟨m, unpacked⟩ := Codec.short_or_unpack isSound.isSealed
    · rw [receive_short lacking]
      exact .short lacking
    · exact .message unpacked
  · exact .stranger p
  · exact .mismatch expected actual

theorem TakesAll.eq_receiveAll (h : e.TakesAll items e') : e' = e.receiveAll items := by
  induction h with
  | nil => rfl
  | cons takes _ ih => rw [ih, takes.eq_receive]; rfl

theorem takesAll_receiveAll {r : Registry} {s : List UInt8} (registry : e.registry = r)
    (h : ∀ item ∈ items, item ∈ (Stream.drain r true s).1) :
    e.TakesAll items (e.receiveAll items) := by
  induction items generalizing e with
  | nil => exact .nil
  | cons item rest ih =>
    obtain ⟨isItem, later⟩ := List.forall_mem_cons.mp h
    rw [← registry] at isItem
    have kept : (e.receive item).registry = r := (registry_receiveAll e [item]).trans registry
    exact .cons (takes_receive isItem) (ih kept later)

theorem TakesAll.eq_of_unframed (h : e.TakesAll items e')
    (unframed : ∀ item ∈ items, Stream.framed item = false) : e' = e := by
  induction h with
  | nil => rfl
  | @cons _ _ _ item _ takes _ ih =>
    obtain ⟨first, later⟩ := List.forall_mem_cons.mp unframed
    rw [ih later]
    cases takes with
    | mismatch => rfl
    | _ => cases first

/-- A datagram does to an engine what its items do one after the other, and nothing if there is
neither a frame nor a packet of a kind that is not registered among them. -/
theorem datagram_effect (e : Engine) (bytes : List UInt8) :
    let items := (Stream.drain e.registry true bytes).1
    (e.datagram bytes).2 = items.countP Except.isOk
      ∧ (∀ e', e.TakesAll items e' ↔ e' = (e.datagram bytes).1)
      ∧ ((∀ item ∈ items, Stream.framed item = false) → (e.datagram bytes).1 = e) := by
  intro items
  have takesAll : e.TakesAll items (e.datagram bytes).1 :=
    takesAll_receiveAll rfl fun _ isItem => isItem
  refine ⟨rfl, fun e' => ⟨TakesAll.eq_receiveAll, fun same => same ▸ takesAll⟩, fun unframed => ?_⟩
  exact takesAll.eq_of_unframed unframed

theorem datagram_effect_mismatch :
    let r : Registry := ⟨[⟨7, "PING", [.scalar "tag" .u8], 42⟩], by decide⟩
    let p : Packet := ⟨⟨1, 0, 1, 1, 7⟩, [0], 0⟩
    let e := start r {} .ready
    (∀ item ∈ (Stream.drain r true p.bytes).1, Stream.framed item = false)
      ∧ (Stream.drain r true p.bytes).1.length = 1 ∧ (e.datagram p.bytes).1 = e := by
  intro r p e
  have failed : Codec.checkSeed r p = .error (.checksum (Checksum.ofBody p.body 42) 0) := by
    decide +kernel
  have found : (Stream.drain r true p.bytes).1 =
      [.error (.checksum (Checksum.ofBody p.body 42) 0)] := by
    rw [← List.append_nil p.bytes, Stream.drain_unsealed (by decide) failed,
      Stream.drain_of_noise (by decide)]
  have unframed : ∀ item ∈ (Stream.drain r true p.bytes).1, Stream.framed item = false := by
    intro item isItem
    rw [found] at isItem
    rw [List.mem_singleton.mp isItem]
    rfl
  have length : (Stream.drain r true p.bytes).1.length = 1 := congrArg List.length found
  exact ⟨unframed, length, (datagram_effect e p.bytes).2.2 unframed⟩

end Engine

end VehicleLink
