import VehicleLink.Proofs.Engine.Telemetry

namespace VehicleLink

namespace Single

theorem truncate_ofNat {n : Nat} (isByte : n < 256) : (ofNat n).truncate = some ↑n := by
  revert n
  decide +kernel

theorem ofNat_byte_inj {a b : UInt8} : ofNat a.toNat = ofNat b.toNat ↔ a = b := by
  refine ⟨fun same => ?_, fun same => same ▸ rfl⟩
  have truncated := congrArg truncate same
  rw [truncate_ofNat a.toNat_lt, truncate_ofNat b.toNat_lt] at truncated
  exact UInt8.toNat_inj.mp (Int.ofNat.inj (Option.some.inj truncated))

end Single

namespace FlightMode

variable (main sub : UInt8)

theorem ofWords?_words (mode : FlightMode) : ofWords? mode.words.1 mode.words.2 = some mode := by
  cases mode <;> rfl

def resent : UInt8 × UInt8 := ((ofWords? main sub).map words).getD (0, 0)

theorem ofWords?_resent : ofWords? (resent main sub).1 (resent main sub).2 = ofWords? main sub := by
  rw [resent]
  cases named : ofWords? main sub with
  | none => rfl
  | some mode => exact ofWords?_words mode

theorem resent_eq_iff : resent main sub = (main, sub)
    ↔ (main, sub) = (0, 0) ∨ ∃ mode : FlightMode, mode.words = (main, sub) := by
  rw [resent]
  constructor
  · cases ofWords? main sub with
    | none => exact fun same => .inl same.symm
    | some mode => exact fun same => .inr ⟨mode, same⟩
  · rintro (same | ⟨mode, same⟩)
    · obtain ⟨rfl, rfl⟩ := Prod.mk.inj same
      rfl
    · have named := ofWords?_words mode
      rw [same] at named
      rw [named]
      exact same

end FlightMode

namespace Message

def isArmed (m : Message) : Bool :=
  ((m.natural? "base_mode").getD 0).toUInt8 &&& ModeFlag.armed ≠ 0

def modeWord (m : Message) : UInt32 := ((m.natural? "custom_mode").getD 0).toUInt32

def stance (m : Message) : Bool × Option FlightMode := (m.isArmed, FlightMode.ofWord? m.modeWord)

end Message

namespace Telemetry

open Engine (unpacked)

def stance (t : Telemetry) : Bool × Option FlightMode := (t.armed, t.mode)

variable (t : Telemetry) (r : Registry)

theorem stance_note (m : Message) :
    (t.note m).stance = if m.name = "HEARTBEAT" then m.stance else t.stance := by
  rw [note]
  dsimp only
  split
  · next armed mode same =>
    have named : m.name = "HEARTBEAT" := Incoming.name_of_source? (by rw [same]; rfl)
    have told : Incoming.ofMessage m = .heartbeat m.isArmed (FlightMode.ofWord? m.modeWord) := by
      rw [Incoming.ofMessage, named]
      rfl
    obtain ⟨rfl, rfl⟩ := Incoming.heartbeat.inj (same.symm.trans told)
    rw [if_pos named]
    rfl
  · next other =>
    have unnamed : m.name ≠ "HEARTBEAT" := fun named => by
      refine other m.isArmed (FlightMode.ofWord? m.modeWord) ?_
      rw [Incoming.ofMessage, named]
      rfl
    rw [if_neg unnamed]
    rfl

theorem stance_receive (item : Item) : (t.receive r item).stance =
    (((unpacked r [item]).find? (·.name = "HEARTBEAT")).map Message.stance).getD t.stance := by
  cases item with
  | error cause => cases cause <;> rfl
  | ok f =>
    rw [receive, Engine.identify_eq, unpacked, List.filterMap_cons]
    dsimp only [Except.toOption, Option.bind_some]
    cases Codec.unpack r f.packet with
    | error => rfl
    | ok m =>
      dsimp only
      rw [stance_note, List.filterMap_nil, List.find?_singleton]
      by_cases named : m.name = "HEARTBEAT"
      · rw [if_pos named, if_pos (decide_eq_true named)]
        rfl
      · rw [if_neg named, if_neg (by simpa using named)]
        rfl

theorem stance_receiveAll (items : List Item) : (t.receiveAll r items).stance =
    (((unpacked r items).reverse.find? (·.name = "HEARTBEAT")).map Message.stance).getD
      t.stance := by
  induction items generalizing t with
  | nil => rfl
  | cons item rest ih =>
    rw [receiveAll, List.foldl_cons, ← receiveAll, ih, stance_receive,
      Engine.unpacked_cons r item rest, List.reverse_append, reverse_unpacked_singleton,
      List.find?_append, Option.map_or, Option.getD_or]

end Telemetry

namespace Engine

theorem submit_queue (e : Engine) (opcode : UInt16) (arguments : Arguments) (watched : Bool) :
    ∃ handle,
      (e.submit opcode arguments watched).1.queue = e.queue.push opcode arguments handle := by
  rw [submit]
  split <;> exact ⟨_, rfl⟩

theorem arguments_setMode (mode : Option FlightMode) (armed : Bool) :
    ∃ base : UInt8, (base &&& ModeFlag.armed ≠ 0 ↔ armed)
      ∧ (Arguments.setMode mode armed)[0] = .ofNat base.toNat
      ∧ (Arguments.setMode mode armed)[1] =
        .ofNat ((mode.map FlightMode.words).getD (0, 0)).1.toNat
      ∧ (Arguments.setMode mode armed)[2] =
        .ofNat ((mode.map FlightMode.words).getD (0, 0)).2.toNat := by
  refine ⟨_, ?_, rfl, rfl, rfl⟩
  cases mode with
  | none => cases armed <;> decide
  | some mode => cases armed <;> cases mode <;> decide

/-- A request for an arm state alone keeps the mode of the last heartbeat by its name.  It keeps the
words of that mode if they are those of a name, and otherwise changes them. -/
theorem setMode_keeps_iff (r : Registry) (c : EngineConfig) (receiver : Receiver)
    (actions : List Action) (arm : Option Bool) (watched : Bool) (heartbeat : Message) :
    let e := (start r c receiver).steps actions
    let main := FlightMode.mainOf heartbeat.modeWord
    let sub := FlightMode.subOf heartbeat.modeWord
    (unpacked r ((start r c receiver).intake actions)).reverse.find? (·.name = "HEARTBEAT")
        = some heartbeat →
      ∃ (arguments : Arguments) (handle : Option Nat),
        (e.perform (.setMode none arm watched)).1.queue =
            e.queue.push Opcode.setMode arguments handle
          ∧ (∃ base : UInt8, arguments[0] = .ofNat base.toNat
            ∧ (base &&& ModeFlag.armed ≠ 0 ↔ arm.getD heartbeat.isArmed))
          ∧ (∃ main' sub' : UInt8, arguments[1] = .ofNat main'.toNat
            ∧ arguments[2] = .ofNat sub'.toNat
            ∧ FlightMode.ofWords? main' sub' = FlightMode.ofWords? main sub)
          ∧ (arguments[1] = .ofNat main.toNat ∧ arguments[2] = .ofNat sub.toNat
            ↔ (main, sub) = (0, 0) ∨ ∃ mode : FlightMode, mode.words = (main, sub)) := by
  intro e main sub isLast
  have told : e.vehicle.telemetry.stance = heartbeat.stance := by
    rw [telemetry_steps, Telemetry.stance_receiveAll]
    exact isLast ▸ rfl
  obtain ⟨armed, mode⟩ := Prod.mk.inj told
  obtain ⟨handle, queued⟩ := e.submit_queue Opcode.setMode
    (Arguments.setMode (FlightMode.ofWord? heartbeat.modeWord) (arm.getD heartbeat.isArmed)) watched
  obtain ⟨base, isArmed, first, second, third⟩ :=
    arguments_setMode (FlightMode.ofWord? heartbeat.modeWord) (arm.getD heartbeat.isArmed)
  refine ⟨_, handle, ?_, ⟨base, first, isArmed⟩, ⟨_, _, second, third, ?_⟩, ?_⟩
  · rw [← queued, ← armed, ← mode]
    rfl
  · exact FlightMode.ofWords?_resent main sub
  · rw [second, third, Single.ofNat_byte_inj, Single.ofNat_byte_inj]
    exact Prod.ext_iff.symm.trans (FlightMode.resent_eq_iff main sub)

def steerable : Registry :=
  ⟨[⟨0, "HEARTBEAT", [.scalar "base_mode" .u8, .scalar "custom_mode" .u32], 50⟩], by decide⟩

def beacon (main sub : UInt8) : Action := arrival 0 [0, 0, main, sub, 0]

theorem setMode_keeps_hold :
    let e := (start steerable {} .ready).steps [beacon 4 3]
    ∃ (arguments : Arguments) (handle : Option Nat),
      (e.perform (.setMode none (some true) false)).1.queue =
          e.queue.push Opcode.setMode arguments handle
        ∧ arguments[1] = .ofNat 4 ∧ arguments[2] = .ofNat 3 := by
  let items := (start steerable {} .ready).intake [beacon 4 3]
  let heard := (unpacked steerable items).reverse.find? (·.name = "HEARTBEAT")
  have word : heard.map Message.modeWord = some 0x03040000 := by decide +kernel
  obtain ⟨heartbeat, isLast, told⟩ := Option.map_eq_some_iff.mp word
  obtain ⟨arguments, handle, queued, -, -, keeps⟩ :=
    setMode_keeps_iff steerable {} .ready [beacon 4 3] (some true) false heartbeat isLast
  rw [told] at keeps
  exact ⟨arguments, handle, queued, keeps.mpr (.inr ⟨.hold, rfl⟩)⟩

theorem setMode_changes_unnamed :
    let e := (start steerable {} .ready).steps [beacon 6 0]
    let items := (start steerable {} .ready).intake [beacon 6 0]
    ((unpacked steerable items).reverse.find? (·.name = "HEARTBEAT")).map Message.modeWord
        = some 0x00060000
      ∧ (e.perform (.setMode none (some true) false)).1.queue.pending.map
          (fun c => (c.opcode, c.arguments[1], c.arguments[2]))
        = [(Opcode.setMode, .ofNat 0, .ofNat 0)]
      ∧ Single.ofNat (FlightMode.mainOf 0x00060000).toNat ≠ .ofNat 0 := by
  decide +kernel

end Engine

end VehicleLink
