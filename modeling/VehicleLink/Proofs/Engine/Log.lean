import VehicleLink.Proofs.Engine.Telemetry

namespace VehicleLink

def Message.logEntry? (m : Message) : Option LogEntry := do
  guard (m.name = "STATUSTEXT")
  return ⟨← m.byte? "severity", ← m.text? "text"⟩

namespace Incoming

variable {m : Message} {entry : LogEntry}

theorem ofLog?_eq (name : m.name = "STATUSTEXT") : ofLog? m = m.logEntry?.map .log := by
  simp [ofLog?, Message.logEntry?, name, Option.map_bind]

theorem ofMessage_eq_log_iff : ofMessage m = .log entry ↔ m.logEntry? = some entry := by
  by_cases name : m.name = "STATUSTEXT"
  · have read : ofMessage m = (m.logEntry?.map .log).getD .other := by
      rw [← ofLog?_eq name, ofMessage, name]
      rfl
    rw [read]
    cases m.logEntry? <;> simp
  · refine iff_of_false (fun read => name (name_of_source? (by rw [read]; rfl))) ?_
    simp [Message.logEntry?, name]

end Incoming

namespace Engine

def logged (r : Registry) (items : List Item) : List LogEntry :=
  (unpacked r items).filterMap Message.logEntry?

def retain (log : List LogEntry) (entry : LogEntry) : List LogEntry :=
  (if log.length < syslogCapacity then log else log.drop 1) ++ [entry]

structure Newest (kept all : List LogEntry) : Prop where
  isSuffix : kept <:+ all
  length : kept.length = min all.length syslogCapacity

namespace Newest

variable {kept all : List LogEntry}

theorem empty : Newest [] [] := ⟨List.suffix_refl _, rfl⟩

theorem concat (h : Newest kept all) (entry : LogEntry) :
    Newest (retain kept entry) (all ++ [entry]) := by
  have room := h.length
  rw [retain]
  split
  · next below =>
    obtain rfl : kept = all := h.isSuffix.eq_of_length (by omega)
    refine ⟨List.suffix_refl _, ?_⟩
    rw [List.length_append, List.length_singleton]
    omega
  · next full =>
    obtain ⟨older, within⟩ := (List.drop_suffix 1 kept).trans h.isSuffix
    refine ⟨⟨older, by rw [← List.append_assoc, within]⟩, ?_⟩
    have capacity : 0 < syslogCapacity := by decide
    simp only [List.length_append, List.length_drop, List.length_singleton]
    omega

theorem append (h : Newest kept all) (entries : List LogEntry) :
    Newest (entries.foldl retain kept) (all ++ entries) := by
  induction entries generalizing kept all with
  | nil => rwa [List.append_nil]
  | cons entry rest ih =>
    rw [List.append_cons]
    exact ih (h.concat entry)

end Newest

variable (e : Engine)

theorem syslog_act (m : Message) :
    (e.act (.ofMessage m)).syslog = ([m].filterMap Message.logEntry?).foldl retain e.syslog := by
  rw [List.filterMap_cons]
  cases read : Incoming.ofMessage m with
  | log entry =>
    rw [Incoming.ofMessage_eq_log_iff.mp read]
    rfl
  | heartbeat | acknowledgement | capabilities | parameter | other =>
    have silent : m.logEntry? = none := by
      refine Option.eq_none_iff_forall_ne_some.mpr fun entry reads => ?_
      cases read.symm.trans (Incoming.ofMessage_eq_log_iff.mpr reads)
    rw [silent]
    rfl

theorem syslog_receive (item : Item) :
    (e.receive item).syslog = (logged e.registry [item]).foldl retain e.syslog := by
  cases item with
  | error => rfl
  | ok f =>
    rw [receive]
    dsimp only
    rw [handleFrame, logged, unpacked, List.filterMap_cons]
    dsimp only [Except.toOption, Option.bind_some]
    cases Codec.unpack e.registry f.packet with
    | error => rfl
    | ok m => exact syslog_act _ m

theorem logged_append (r : Registry) (items later : List Item) :
    logged r (items ++ later) = logged r items ++ logged r later := by
  rw [logged, unpacked, List.filterMap_append, List.filterMap_append]
  rfl

theorem syslog_receiveAll (items : List Item) :
    (e.receiveAll items).syslog = (logged e.registry items).foldl retain e.syslog := by
  induction items generalizing e with
  | nil => rfl
  | cons item rest ih =>
    have registry : (e.receive item).registry = e.registry := registry_receiveAll e [item]
    rw [← List.singleton_append, logged_append, List.foldl_append, ← syslog_receive, ← registry]
    exact ih (e.receive item)

section Steps

variable {e}

theorem syslog_step {action : Action} (untaken : action ≠ .call .takeLog) :
    (e.step action).syslog = (logged e.registry (e.items action)).foldl retain e.syslog := by
  rw [← syslog_receiveAll]
  rcases e.step_parts action with rfl | rfl | rfl | ⟨kinds, rfl⟩ | keeps
  · rcases runTicks_one e with ⟨-, same⟩ | ⟨-, ticked⟩
    · rw [step, same]
      rfl
    · obtain ⟨_, _, _, _, _, same⟩ := ticked.rest
      rw [step, same]
      rfl
  · obtain ⟨_, _, _, same⟩ := e.applyNext_eq
    rw [step, same]
    rfl
  · rfl
  · rfl
  · exact keeps.syslog untaken

theorem syslog_steps {actions : List Action} (untaken : .call .takeLog ∉ actions) :
    (e.steps actions).syslog = (logged e.registry (e.intake actions)).foldl retain e.syslog := by
  induction actions generalizing e with
  | nil => rfl
  | cons action rest ih =>
    obtain ⟨other, later⟩ := List.ne_and_not_mem_of_not_mem_cons untaken
    rw [intake, logged_append, List.foldl_append, ← syslog_step other.symm,
      ← registry_step e action]
    exact ih later

end Steps

theorem registry_steps (actions : List Action) : (e.steps actions).registry = e.registry :=
  steps_induction (P := (·.registry = e.registry))
    (fun e action same => (registry_step e action).trans same) rfl actions

/-- In whatever order the activities come, the log that is taken holds the last of the entries
that have come since it was last taken, or since the start, as many as there is room for, with the
oldest first.  Taken again at once, it is empty. -/
theorem newest_of_untaken (r : Registry) (c : EngineConfig) (receiver : Receiver)
    {past since : List Action} (taken : ∀ last ∈ past.getLast?, last = .call .takeLog)
    (untaken : .call .takeLog ∉ since) :
    let e := (start r c receiver).steps past
    let entries := logged r (e.intake since)
    ∃ log, ((e.steps since).perform .takeLog).2 = .entries log
      ∧ log <:+ entries ∧ log.length = min entries.length 200
      ∧ (((e.steps since).perform .takeLog).1.perform .takeLog).2 = .entries [] := by
  intro e entries
  have fresh : e.syslog = [] := by
    rcases List.eq_nil_or_concat past with rfl | ⟨before, last, rfl⟩
    · rfl
    · obtain rfl : last = .call .takeLog := taken last (by simp)
      dsimp only [e]
      rw [List.concat_eq_append, steps_append]
      rfl
  have newest : Newest (e.steps since).syslog entries := by
    rw [syslog_steps untaken, fresh, registry_steps]
    exact Newest.empty.append entries
  exact ⟨_, rfl, newest.isSuffix, newest.length, rfl⟩

def chatty : Registry :=
  ⟨[⟨253, "STATUSTEXT", [.scalar "severity" .u8, .array "text" .char 2], 83⟩], by decide⟩

def remark (severity : Nat) : Action := arrival 253 [.ofNat severity, 65, 0]

def chatter : List Action := .tick :: arrival 253 [9] :: (List.range 203).map remark

def remarks (first count : Nat) : List LogEntry :=
  (List.range' first count).map fun severity => ⟨.ofNat severity, "A"⟩

theorem newest_of_chatter :
    let past := [remark 9, .call .takeLog]
    let e := (start chatty {} .ready).steps past
    (∀ last ∈ past.getLast?, last = .call .takeLog) ∧ .call .takeLog ∉ chatter
      ∧ logged chatty (e.intake chatter) = remarks 0 203
      ∧ ((e.steps chatter).perform .takeLog).2 = .entries (remarks 3 200) := by
  intro past e
  have taken : ∀ last ∈ past.getLast?, last = .call .takeLog := by
    rintro last ⟨⟩
    rfl
  have untaken : .call .takeLog ∉ chatter := by simp [chatter, remark, arrival]
  have entries : logged chatty (e.intake chatter) = remarks 0 203 := by decide +kernel
  obtain ⟨log, answer, isSuffix, length, -⟩ :=
    newest_of_untaken chatty {} .ready taken untaken
  have last : log = remarks 3 200 := by
    rw [List.suffix_iff_eq_drop.mp isSuffix, length, entries]
    decide +kernel
  exact ⟨taken, untaken, entries, last ▸ answer⟩

end Engine

end VehicleLink
