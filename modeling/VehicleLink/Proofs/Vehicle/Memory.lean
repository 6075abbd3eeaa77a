import VehicleLink.Proofs.Parameters.Table
import VehicleLink.Vehicle.Incoming

/-! What is known of a vehicle for one connection only, its capabilities and its parameters.  It
is a replay of what has happened, and nothing from before a loss is in it. -/

namespace VehicleLink

inductive Occurrence
  | heard (m : Message)
  /-- No heartbeats come any more, and that is acted on. -/
  | lost
  | refreshed
  | started (now : Nat)
  | expired
  deriving DecidableEq

namespace Occurrence

def isLoss : Occurrence → Bool
  | lost => true
  | _ => false

def isReset : Occurrence → Bool
  | lost => true
  | refreshed => true
  | _ => false

def report? : Occurrence → Option ParamReport
  | heard m =>
    match Incoming.ofMessage m with
    | .parameter p => if m.name = "PARAM_VALUE" then some p else none
    | _ => none
  | _ => none

def sinceLoss (past : List Occurrence) : List Occurrence := past.takeWhile (!·.isLoss)

def sinceReset (past : List Occurrence) : List Occurrence := past.takeWhile (!·.isReset)

def Informed (span : List Occurrence) : Prop :=
  ∃ m, heard m ∈ span ∧ m.name = "AUTOPILOT_VERSION"

/-- A round was given up that began before. -/
def Expired (span : List Occurrence) : Prop :=
  ∃ later earlier now, span = later ++ expired :: earlier ∧ started now ∈ earlier

def Covered (span : List Occurrence) : Prop :=
  ∃ last ∈ (span.filterMap report?).head?,
    ∀ index < last.count, ∃ report ∈ span.filterMap report?, report.index = index

section Spans

variable {past new : List Occurrence} {o : Occurrence}

theorem sinceReset_append (kept : ∀ o ∈ new, o.isReset = false) :
    sinceReset (new ++ past) = new ++ sinceReset past :=
  List.takeWhile_append_of_pos fun o isNew => by simp [kept o isNew]

theorem sinceReset_cons (kept : o.isReset = false) :
    sinceReset (o :: past) = o :: sinceReset past :=
  List.takeWhile_cons_of_pos (by simp [kept])

theorem Informed.cons (h : Informed (sinceLoss past)) (kept : o.isLoss = false) :
    Informed (sinceLoss (o :: past)) := by
  obtain ⟨m, isHeard, name⟩ := h
  have grown : sinceLoss (o :: past) = o :: sinceLoss past :=
    List.takeWhile_cons_of_pos (by simp [kept])
  exact ⟨m, grown ▸ List.mem_cons_of_mem _ isHeard, name⟩

theorem Expired.append (h : Expired past) : Expired (new ++ past) := by
  obtain ⟨later, earlier, now, rfl, begun⟩ := h
  exact ⟨new ++ later, earlier, now, (List.append_assoc _ _ _).symm, begun⟩

end Spans

end Occurrence

structure Memory where
  params : Parameters
  capabilities : Option UInt64

namespace Memory

def empty : Memory := ⟨.empty, none⟩

def after (k : Memory) : Occurrence → Memory
  | .heard m =>
    match Incoming.ofMessage m with
    | .capabilities bits => { k with capabilities := some bits }
    | .parameter p => { k with params := (k.params.begin p.count).record p.index p.name p.value }
    | _ => k
  | .lost => empty
  | .refreshed => { k with params := .empty }
  | .started now => { k with params := k.params.markStarted now }
  | .expired => { k with params := k.params.force }

def replay (k : Memory) (new : List Occurrence) : Memory := new.foldr (fun o k => k.after o) k

theorem replay_append (k : Memory) (new past : List Occurrence) :
    k.replay (new ++ past) = (k.replay past).replay new :=
  List.foldr_append

end Memory

namespace Incoming

def source? : Incoming → Option String
  | heartbeat _ _ => some "HEARTBEAT"
  | acknowledgement _ _ => some "COMMAND_ACK"
  | capabilities _ => some "AUTOPILOT_VERSION"
  | parameter _ => some "PARAM_VALUE"
  | log _ => some "STATUSTEXT"
  | other => none

theorem source?_getD {incoming? : Option Incoming} {name name' : String}
    (source : ∀ i ∈ incoming?, i.source? = some name)
    (h : (incoming?.getD other).source? = some name') : name = name' := by
  cases incoming? with
  | none => cases h
  | some i => exact Option.some.inj ((source i rfl).symm.trans h)

theorem name_of_source? {m : Message} {name : String} (h : (ofMessage m).source? = some name) :
    m.name = name := by
  have acknowledges : ∀ i ∈ ofAcknowledgement? m, i.source? = some "COMMAND_ACK" := by
    simp only [ofAcknowledgement?, Option.mem_def, Option.bind_eq_bind, Option.bind_eq_some_iff]
    rintro _ ⟨_, _, _, _, ⟨⟩⟩
    rfl
  have reports : ∀ i ∈ ofParameter? m, i.source? = some "PARAM_VALUE" := by
    simp only [ofParameter?, Option.mem_def, Option.bind_eq_bind, Option.bind_eq_some_iff]
    rintro _ ⟨_, _, _, _, _, _, _, _, ⟨⟩⟩
    rfl
  have logs : ∀ i ∈ ofLog? m, i.source? = some "STATUSTEXT" := by
    simp only [ofLog?, Option.mem_def, Option.bind_eq_bind, Option.bind_eq_some_iff]
    rintro _ ⟨_, _, _, _, ⟨⟩⟩
    rfl
  rw [ofMessage] at h
  split at h
  · next same => exact same.trans (Option.some.inj h)
  · next same => exact same.trans (source?_getD acknowledges h)
  · next same => exact same.trans (Option.some.inj h)
  · next same => exact same.trans (source?_getD reports h)
  · next same => exact same.trans (source?_getD logs h)
  · cases h

end Incoming

namespace Memory

open Occurrence

/-- Whatever is known has been told since the last loss, and the parameters since the last
reset. -/
structure Recalls (past : List Occurrence) (k : Memory) : Prop where
  informed : k.capabilities.isSome → Informed (sinceLoss past)
  started : k.params.isStarted → ∃ now, started now ∈ sinceReset past
  forced : k.params.forced → expired ∈ sinceReset past
  total : k.params.total = ((sinceReset past).filterMap report?).head?.map ParamReport.count
  indices : ∀ index ∈ k.params.arrived,
    ∃ report ∈ (sinceReset past).filterMap report?, report.index = index

namespace Recalls

variable {past : List Occurrence} {k : Memory}

theorem empty : Recalls [] empty :=
  ⟨nofun, nofun, nofun, rfl, by simp [Memory.empty, Parameters.empty]⟩

theorem idle (h : Recalls past k) {o : Occurrence} (linked : o.isLoss = false)
    (kept : o.isReset = false) (silent : o.report? = none) : Recalls (o :: past) k where
  informed known := (h.informed known).cons linked
  started begun := by
    obtain ⟨now, isStarted⟩ := h.started begun
    exact ⟨now, sinceReset_cons kept ▸ List.mem_cons_of_mem _ isStarted⟩
  forced forced := sinceReset_cons kept ▸ List.mem_cons_of_mem _ (h.forced forced)
  total := by rw [sinceReset_cons kept, List.filterMap_cons_none silent, h.total]
  indices := by
    rw [sinceReset_cons kept, List.filterMap_cons_none silent]
    exact h.indices

theorem report (h : Recalls past k) {o : Occurrence} {p : ParamReport}
    (linked : o.isLoss = false) (kept : o.isReset = false) (reports : o.report? = some p) :
    Recalls (o :: past)
      { k with params := (k.params.begin p.count).record p.index p.name p.value } where
  informed known := (h.informed known).cons linked
  started begun := by
    obtain ⟨now, isStarted⟩ := h.started begun
    exact ⟨now, sinceReset_cons kept ▸ List.mem_cons_of_mem _ isStarted⟩
  forced forced := sinceReset_cons kept ▸ List.mem_cons_of_mem _ (h.forced forced)
  total := by
    rw [sinceReset_cons kept, List.filterMap_cons_some reports]
    rfl
  indices index isThere := by
    rw [sinceReset_cons kept, List.filterMap_cons_some reports]
    by_cases same : p.index = index
    · exact ⟨p, List.mem_cons_self, same⟩
    · have old : index ∈ k.params.arrived :=
        ((Parameters.mem_arrived_record ..).mp isThere).resolve_left fun named => same named.1
      obtain ⟨report, isReport, named⟩ := h.indices index old
      exact ⟨report, List.mem_cons_of_mem _ isReport, named⟩

theorem heard (h : Recalls past k) (m : Message) :
    Recalls (heard m :: past) (k.after (heard m)) := by
  rw [after]
  split
  · next bits same =>
    have name : m.name = "AUTOPILOT_VERSION" := Incoming.name_of_source? (by rw [same]; rfl)
    have kept := h.idle (o := .heard m) rfl rfl (by rw [report?, same])
    exact { kept with informed := fun _ => ⟨m, by simp [sinceLoss, isLoss], name⟩ }
  · next p same =>
    have name : m.name = "PARAM_VALUE" := Incoming.name_of_source? (by rw [same]; rfl)
    exact h.report rfl rfl (by simp [report?, same, name])
  · next noReport =>
    refine h.idle rfl rfl ?_
    rw [report?]
    split
    · next p same => exact absurd same (noReport p)
    · rfl

theorem after (h : Recalls past k) (o : Occurrence) : Recalls (o :: past) (k.after o) := by
  cases o with
  | heard m => exact h.heard m
  | lost =>
    exact ⟨nofun, nofun, nofun, rfl, by simp [Memory.after, Memory.empty, Parameters.empty]⟩
  | refreshed =>
    exact ⟨fun known => (h.informed known).cons rfl, nofun, nofun, rfl,
      by simp [Memory.after, Parameters.empty]⟩
  | started now =>
    have kept := h.idle (o := .started now) rfl rfl rfl
    exact { kept with started := fun _ => ⟨now, by simp [sinceReset, isReset]⟩ }
  | expired =>
    have kept := h.idle (o := .expired) rfl rfl rfl
    exact { kept with forced := fun _ => by simp [sinceReset, isReset] }

theorem replay (past : List Occurrence) : Recalls past (Memory.empty.replay past) := by
  induction past with
  | nil => exact empty
  | cons o rest ih => exact ih.after o

end Recalls

end Memory

namespace Parameters

theorem arrived_of_isComplete {p : Parameters} (complete : p.isComplete)
    (kept : p.forced = false) : ∃ total ∈ p.total, ∀ index < total, index ∈ p.arrived := by
  rcases p.isComplete_iff.mp complete with forced | ⟨known, none⟩
  · cases kept.symm.trans forced
  · obtain ⟨total, announced⟩ := Option.isSome_iff_exists.mp known
    refine ⟨total, announced, fun index below => ?_⟩
    by_contra absent
    have isMissing : index ∈ p.missing := mem_missing.mpr ⟨total, announced, below, absent⟩
    rw [none] at isMissing
    cases isMissing

theorem of_expire {p : Parameters} {now timeout : Nat} (gives : (p.expire now timeout).2.isSome) :
    p.isStarted ∧ (p.expire now timeout).1 = p.force := by
  rcases p.expire_cases now timeout with ⟨-, ⟨⟨start, started, -⟩, -⟩, same⟩ | ⟨-, same⟩
  · rw [same, isStarted, started]
    exact ⟨rfl, rfl⟩
  · rw [same] at gives
    cases gives

end Parameters

theorem Memory.Recalls.covered {past : List Occurrence} {k : Memory} (h : Recalls past k)
    (complete : k.params.isComplete) (kept : .expired ∉ Occurrence.sinceReset past) :
    Occurrence.Covered (Occurrence.sinceReset past) := by
  have unforced : k.params.forced = false :=
    Bool.eq_false_iff.mpr fun forced => kept (h.forced forced)
  obtain ⟨total, announced, all⟩ := Parameters.arrived_of_isComplete complete unforced
  rw [h.total] at announced
  obtain ⟨last, isLast, rfl⟩ := Option.map_eq_some_iff.mp announced
  exact ⟨last, isLast, fun index below => h.indices index (all index below)⟩

end VehicleLink
