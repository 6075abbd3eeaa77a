import Mathlib
import VehicleLink.Config.Station
import VehicleLink.Proofs.Config.Sections
import VehicleLink.Proofs.Json.Acceptance
import VehicleLink.Proofs.Text.Utf8

namespace VehicleLink

open Setting (keys given Gives)

variable {entries : List (Option String × Json)} {parts chosen : List String}

namespace Json

variable {v : Json} {bound : Nat}

def IsBelow (bound : Nat) (v : Json) : Prop := ∃ n < bound, v = .number (some n)

theorem below?_eq_none (h : ¬v.IsBelow bound) : v.below? bound = none := by
  rw [below?.eq_def]
  split
  · next n => exact if_neg fun inside => h ⟨n, inside, rfl⟩
  · rfl

theorem below?_time (n : UInt64) :
    (number (some n.toNat)).below? EngineConfig.times = some n.toNat := if_pos n.toNat_lt

theorem below?_count (n : UInt32) :
    (number (some n.toNat)).below? UInt32.size = some n.toNat := if_pos n.toNat_lt

theorem below?_byte (n : UInt8) :
    (number (some n.toNat)).below? UInt8.size = some n.toNat := if_pos n.toNat_lt

def optional : Option String → Json
  | none => .null
  | some text => .string (some text)

theorem optionalText?_optional (text : Option String) :
    (optional text).optionalText? = some text := by
  cases text <;> rfl

end Json

namespace EngineConfig

/-- Where the value for a key comes from: `c` if the key is chosen, the defaults otherwise. -/
def source (c : EngineConfig) (chosen : List String) (key : String) : EngineConfig :=
  if key ∈ chosen then c else {}

def pick (c : EngineConfig) (chosen : List String) : EngineConfig where
  tick := (c.source chosen "tick_ms").tick
  paramTimeout := (c.source chosen "param_timeout_ms").paramTimeout
  commandRetries := (c.source chosen "command_retries").commandRetries
  paramRequestSpacing := (c.source chosen "param_request_spacing_ms").paramRequestSpacing
  paramSettle := (c.source chosen "param_settle_ms").paramSettle
  paramReadAttempts := (c.source chosen "param_read_attempts").paramReadAttempts
  paramReadDelay := (c.source chosen "param_read_delay_ms").paramReadDelay
  system := (c.source chosen "system_id").system
  component := (c.source chosen "component_id").component
  heartbeatTimeout := (c.source chosen "heartbeat_timeout_ms").heartbeatTimeout
  telemetryTimeout := (c.source chosen "telemetry_timeout_ms").telemetryTimeout
  overrideResend := (c.source chosen "rc_resend_ms").overrideResend

def natural? (c : EngineConfig) : String → Option Nat
  | "tick_ms" => some c.tick.toNat
  | "param_timeout_ms" => some c.paramTimeout.toNat
  | "command_retries" => some c.commandRetries.toNat
  | "param_request_spacing_ms" => some c.paramRequestSpacing.toNat
  | "param_settle_ms" => some c.paramSettle.toNat
  | "param_read_attempts" => some c.paramReadAttempts.toNat
  | "param_read_delay_ms" => some c.paramReadDelay.toNat
  | "system_id" => some c.system.toNat
  | "component_id" => some c.component.toNat
  | "heartbeat_timeout_ms" => some c.heartbeatTimeout.toNat
  | "telemetry_timeout_ms" => some c.telemetryTimeout.toNat
  | "rc_resend_ms" => some c.overrideResend.toNat
  | _ => none

def Holds (c : EngineConfig) (key : String) (v : Json) : Prop :=
  ∃ n, c.natural? key = some n ∧ v = .number (some n)

def bound : String → Nat
  | "command_retries" | "param_read_attempts" => 2 ^ 32
  | "system_id" | "component_id" => 2 ^ 8
  | _ => 2 ^ 64

def Faulty (entries : List (Option String × Json)) : Prop :=
  ¬(given settings entries).Nodup ∨
    ∃ key ∈ keys settings, ∃ v, (some key, v) ∈ entries ∧ ¬v.IsBelow (bound key)

theorem assign_pick (c : EngineConfig) : ∀ s ∈ settings, ∀ v seen, c.Holds s.key v →
    s.assign v (c.pick seen) = some (c.pick (s.key :: seen)) := by
  simp only [settings, List.forall_mem_cons]
  refine ⟨?_, ?_, ?_, ?_, ?_, ?_, ?_, ?_, ?_, ?_, ?_, ?_, nofun⟩
  all_goals
    rintro v seen ⟨n, ⟨⟩, rfl⟩
    simp [pick, source, Json.below?_time, Json.below?_count, Json.below?_byte]

theorem assign_eq_none : ∀ s ∈ settings, ∀ v : Json, ¬v.IsBelow (bound s.key) →
    ∀ start, s.assign v start = none := by
  simp only [settings, List.forall_mem_cons]
  refine ⟨?_, ?_, ?_, ?_, ?_, ?_, ?_, ?_, ?_, ?_, ?_, ?_, nofun⟩
  all_goals
    intro v large start
    exact congrArg (Option.bind · _) (Json.below?_eq_none large)

theorem pick_congr (c : EngineConfig) (l l' : List String)
    (alike : ∀ key ∈ keys settings, key ∈ l ↔ key ∈ l') : c.pick l = c.pick l' := by
  simp only [keys, settings, List.map_cons, List.forall_mem_cons] at alike
  simp only [pick, source, alike]

theorem ofJson?_eq_pick (c : EngineConfig) (gives : Gives settings c.Holds chosen entries) :
    ofJson? (.object entries) = some (c.pick chosen) :=
  Setting.read_eq_pick c.assign_pick gives c.pick_congr

theorem ofJson?_eq_none (faulty : Faulty entries) : ofJson? (.object entries) = none := by
  rcases faulty with twice | ⟨key, known, v, isMember, unfit⟩
  · exact Setting.readMembers_eq_none_of_twice .nil (by rwa [List.append_nil]) _
  · refine Setting.readMembers_eq_none_of_unfit isMember known ?_ _
    rintro s isSetting rfl
    exact assign_eq_none s isSetting v unfit

end EngineConfig

namespace Station

def source (c : Station) (chosen : List String) (key : String) : Station :=
  if key ∈ chosen then c else {}

def pick (c : Station) (parts chosen : List String) : Station where
  master := (c.source chosen "master").master
  remote := (c.source chosen "remote").remote
  baud := (c.source chosen "baud").baud
  dialect := (c.source chosen "schema").dialect
  log := (c.source chosen "log").log
  engine := if "engine" ∈ chosen then c.engine.pick parts else {}

def Holds (c : Station) (parts : List String) (key : String) (v : Json) : Prop :=
  match key with
  | "master" => v = .string (some c.master)
  | "remote" => v = .optional c.remote
  | "baud" => v = .number (some c.baud.toNat)
  | "schema" => v = .optional c.dialect
  | "log" => v = .string (some c.log)
  | "engine" =>
    ∃ entries, v = .object entries ∧ Gives EngineConfig.settings c.engine.Holds parts entries
  | _ => False

def Faulty (entries : List (Option String × Json)) : Prop :=
  ¬(given settings entries).Nodup ∨
    (∃ v, (some "baud", v) ∈ entries ∧ ¬v.IsBelow (2 ^ 32)) ∨
    ∃ inner, (some "engine", .object inner) ∈ entries ∧ EngineConfig.Faulty inner

theorem assign_pick (c : Station) (parts : List String) : ∀ s ∈ settings, ∀ v seen,
    c.Holds parts s.key v →
      s.assign v (c.pick parts seen) = some (c.pick parts (s.key :: seen)) := by
  simp only [settings, List.forall_mem_cons]
  refine ⟨?_, ?_, ?_, ?_, ?_, ?_, nofun⟩
  case refine_6 =>
    rintro v seen ⟨entries, rfl, gives⟩
    simp [pick, source, EngineConfig.ofJson?_eq_pick c.engine gives]
  all_goals
    rintro v seen ⟨⟩
    simp [pick, source, Json.text?, Json.below?_count, Json.optionalText?_optional]

theorem pick_congr (c : Station) (parts l l' : List String)
    (alike : ∀ key ∈ keys settings, key ∈ l ↔ key ∈ l') : c.pick parts l = c.pick parts l' := by
  simp only [keys, settings, List.map_cons, List.forall_mem_cons] at alike
  simp only [pick, source, alike]

theorem read_eq_pick (c : Station) (gives : Gives settings (c.Holds parts) chosen entries) :
    Setting.read settings {} (.object entries) = some (c.pick parts chosen) :=
  Setting.read_eq_pick (c.assign_pick parts) gives (c.pick_congr parts)

theorem read_eq_none (faulty : Faulty entries) :
    Setting.read settings {} (.object entries) = none := by
  rcases faulty with twice | ⟨v, isMember, unfit⟩ | ⟨inner, isMember, faulty⟩
  · exact Setting.readMembers_eq_none_of_twice .nil (by rwa [List.append_nil]) _
  · have unread : v.below? UInt32.size = none := Json.below?_eq_none unfit
    refine Setting.readMembers_eq_none_of_unfit isMember (by decide) ?_ _
    simp [settings, unread]
  · refine Setting.readMembers_eq_none_of_unfit isMember (by decide) ?_ _
    simp [settings, EngineConfig.ofJson?_eq_none faulty]

theorem ofBytes_encode (text : String) :
    ofBytes (Utf8.encode text) = (ofString? text).elim (.error .invalid) .ok := by
  rw [ofBytes, Utf8.decode?_encode]
  dsimp only
  cases ofString? text <;> rfl

/-- An engine and a station load from every document that gives some of their settings, and
neither loads from one that is faulty. -/
theorem sections_load :
    (∀ (c : EngineConfig) (chosen : List String) (entries : List (Option String × Json))
      (text : String), Json.Writes (.element (.object entries)) text.toList →
      Gives EngineConfig.settings c.Holds chosen entries →
      EngineConfig.ofString? text = some (c.pick chosen)) ∧
    (∀ (entries : List (Option String × Json)) (text : String),
      Json.Writes (.element (.object entries)) text.toList → EngineConfig.Faulty entries →
      EngineConfig.ofString? text = none) ∧
    (∀ (c : Station) (parts chosen : List String) (entries : List (Option String × Json))
      (text : String), Json.Writes (.element (.object entries)) text.toList →
      Gives settings (c.Holds parts) chosen entries →
      ofBytes (Utf8.encode text) = .ok (c.pick parts chosen)) ∧
    (∀ (entries : List (Option String × Json)) (text : String),
      Json.Writes (.element (.object entries)) text.toList → Faulty entries →
      ofBytes (Utf8.encode text) = .error .invalid) := by
  refine ⟨fun c chosen entries text writes gives => ?_, fun entries text writes faulty => ?_,
    fun c parts chosen entries text writes gives => ?_, fun entries text writes faulty => ?_⟩
  · rw [EngineConfig.ofString?, Json.ofString?_eq_some writes]
    exact EngineConfig.ofJson?_eq_pick c gives
  · rw [EngineConfig.ofString?, Json.ofString?_eq_some writes]
    exact EngineConfig.ofJson?_eq_none faulty
  · have loads : ofString? text = some (c.pick parts chosen) := by
      rw [ofString?, Json.ofString?_eq_some writes]
      exact c.read_eq_pick gives
    rw [ofBytes_encode, loads, Option.elim_some]
  · have fails : ofString? text = none := by
      rw [ofString?, Json.ofString?_eq_some writes]
      exact read_eq_none faulty
    rw [ofBytes_encode, fails, Option.elim_none]

theorem sections_load_partly :
    EngineConfig.ofString? "\x7b\"?\": [-1.5e2, \x7b\x7d], \"system_id\": 7\x7d" =
      some { system := 7 } ∧
    EngineConfig.ofString? "\x7b\"system_id\": 256\x7d" = none ∧
    ofBytes (Utf8.encode
        "\x7b\"engine\": \x7b\"tick_ms\": 1\x7d, \"ж\": 0, \"b\\u0061ud\": 9600\x7d") =
      .ok { baud := 9600, engine := { tick := 1 } } ∧
    ofBytes (Utf8.encode "\x7b\"log\": \"off\", \"log\": \"off\"\x7d") = .error .invalid := by
  obtain ⟨engine, engineFaulty, station, stationFaulty⟩ := sections_load
  refine ⟨?_, ?_, ?_, ?_⟩
  · refine engine { system := 7 } ["system_id"]
      [(some "?", .array [.number none, .object []]), (some "system_id", .number (some 7))] _
      (Json.ofString?_eq_some_iff.mp (by cbv)) ⟨by simp, by decide, by decide, ?_⟩
    simp [keys, EngineConfig.settings, EngineConfig.Holds, EngineConfig.natural?]
  · refine engineFaulty [(some "system_id", .number (some 256))] _
      (Json.ofString?_eq_some_iff.mp (by cbv)) (.inr ⟨"system_id", by decide, _, .head _, ?_⟩)
    rintro ⟨n, small, ⟨⟩⟩
    exact absurd small (by decide)
  · have inner : Gives EngineConfig.settings (EngineConfig.Holds { tick := 1 }) ["tick_ms"]
        [(some "tick_ms", .number (some 1))] := by
      refine ⟨by simp, by decide, by decide, ?_⟩
      simp [keys, EngineConfig.settings, EngineConfig.Holds, EngineConfig.natural?]
    refine station { baud := 9600, engine := { tick := 1 } } ["tick_ms"] ["baud", "engine"]
      [(some "engine", .object [(some "tick_ms", .number (some 1))]), (some "ж", .number (some 0)),
        (some "baud", .number (some 9600))] _
      (Json.ofString?_eq_some_iff.mp (by cbv)) ⟨by simp, by decide, by decide, ?_⟩
    simpa [keys, settings, Holds] using inner
  · exact stationFaulty [(some "log", .string (some "off")), (some "log", .string (some "off"))] _
      (Json.ofString?_eq_some_iff.mp (by cbv)) (.inl (by decide))

end Station

end VehicleLink
