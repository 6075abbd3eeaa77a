import Mathlib.Data.List.Induction
import Mathlib.Data.List.TakeWhile
import VehicleLink.Proofs.Parameters.Table

/-! A parameter table over its lifetime.  All that can be read off it is said by the calls since the
last reset. -/

namespace VehicleLink.Parameters

structure Entry where
  index : UInt16
  name : String
  value : Single
  deriving DecidableEq

inductive Call
  | begin (total : UInt16)
  | record (entry : Entry)
  | force
  | markStarted (now : Nat)
  | expire (now timeout : Nat)
  | reset
  deriving DecidableEq

def after (p : Parameters) : Call → Parameters
  | .begin total => p.begin total
  | .record entry => p.record entry.index entry.name entry.value
  | .force => p.force
  | .markStarted now => p.markStarted now
  | .expire now timeout => (p.expire now timeout).1
  | .reset => empty

def run (p : Parameters) (calls : List Call) : Parameters := calls.foldl after p

namespace Call

def total? : Call → Option UInt16
  | begin total => some total
  | _ => none

def entry? : Call → Option Entry
  | record entry => some entry
  | _ => none

def start? : Call → Option Nat
  | markStarted now => some now
  | _ => none

/-- The calls since the last reset, newest first. -/
def span (calls : List Call) : List Call := calls.reverse.takeWhile (· ≠ reset)

def entries (span : List Call) : List Entry := span.filterMap entry?

def Lacks (span : List Call) (index : UInt16) : Prop :=
  (∃ total ∈ span.findSome? total?, index < total) ∧ ∀ entry ∈ entries span, entry.index ≠ index

/-- The table counts as complete whatever has arrived: somebody has said so, or its time was up
while the total was unknown or something was lacking. -/
inductive GivenUp : List Call → Prop
  | force {past} : GivenUp (force :: past)
  | expire {past now timeout start} : past.findSome? start? = some start → start + timeout < now →
    (past.findSome? total? = none ∨ ∃ index, Lacks past index) →
    GivenUp (expire now timeout :: past)
  | before {call past} : GivenUp past → GivenUp (call :: past)

variable {call : Call} {past : List Call}

theorem entries_record (e : Entry) (past : List Call) :
    entries (record e :: past) = e :: entries past := rfl

theorem entries_of_silent (silent : call.entry? = none) : entries (call :: past) = entries past :=
  List.filterMap_cons_none silent

theorem givenUp_cons : GivenUp (call :: past) ↔
    call = force
      ∨ (∃ now timeout, call = expire now timeout
        ∧ (∃ start ∈ past.findSome? start?, start + timeout < now)
        ∧ (past.findSome? total? = none ∨ ∃ index, Lacks past index))
      ∨ GivenUp past := by
  constructor
  · rintro (_ | ⟨started, late, incomplete⟩ | ⟨before⟩)
    · exact .inl rfl
    · exact .inr (.inl ⟨_, _, rfl, ⟨_, started, late⟩, incomplete⟩)
    · exact .inr (.inr before)
  · rintro (rfl | ⟨now, timeout, rfl, ⟨start, started, late⟩, incomplete⟩ | before)
    · exact .force
    · exact .expire started late incomplete
    · exact .before before

theorem span_append_of_reset (calls : List Call) : span (calls ++ [reset]) = [] := by
  rw [span, List.reverse_concat, List.takeWhile_cons_of_neg (by simp)]

theorem span_append (kept : call ≠ reset) (calls : List Call) :
    span (calls ++ [call]) = call :: span calls := by
  rw [span, List.reverse_concat, List.takeWhile_cons_of_pos (by simpa using kept), span]

end Call

open Call

/-- The table holds what the calls have said, and what was said last where they differ. -/
structure Replays (past : List Call) (p : Parameters) : Prop where
  total : p.total = past.findSome? total?
  startedAt : p.startedAt = past.findSome? start?
  get? : ∀ name, p.get? name = ((entries past).find? (·.name = name)).map Entry.value
  atIndex? : ∀ index, p.atIndex? index =
    ((entries past).find? fun e => e.index = index ∧ e.index ≠ noIndex).map Entry.value
  arrived : ∀ index, index ∈ p.arrived ↔ ∃ e ∈ entries past, e.index = index ∧ e.index ≠ noIndex
  forced : p.forced ↔ GivenUp past

namespace Replays

variable {past : List Call} {p : Parameters}

theorem empty : Replays [] empty where
  total := rfl
  startedAt := rfl
  get? _ := by simp [Parameters.get?, Parameters.empty, entries]
  atIndex? _ := by simp [Parameters.atIndex?, Parameters.empty, entries]
  arrived _ := by simp [Parameters.empty, entries]
  forced := ⟨nofun, nofun⟩

theorem coherent (h : Replays past p) (index : UInt16) :
    index ∈ p.arrived ↔ (p.atIndex? index).isSome := by
  rw [h.arrived, h.atIndex?, Option.isSome_map, List.find?_isSome]
  simp only [decide_eq_true_eq]

theorem mem_missing (h : Replays past p) (index : UInt16) :
    index ∈ p.missing ↔ Lacks past index := by
  rw [Parameters.mem_missing, h.total, Lacks, h.arrived]
  constructor
  · rintro ⟨total, announced, below, absent⟩
    refine ⟨⟨total, announced, below⟩, fun e recorded same => absent ⟨e, recorded, same, ?_⟩⟩
    exact same ▸ ne_noIndex_of_lt below
  · rintro ⟨⟨total, announced, below⟩, absent⟩
    refine ⟨total, announced, below, ?_⟩
    rintro ⟨e, recorded, same, -⟩
    exact absent e recorded same

theorem overdue (h : Replays past p) {now timeout : Nat} : p.Overdue now timeout ↔
    (∃ start ∈ past.findSome? start?, start + timeout < now)
      ∧ (past.findSome? total? = none ∨ ∃ index, Lacks past index) := by
  rw [Overdue, h.startedAt, h.total]
  simp only [ne_eq, List.eq_nil_iff_forall_not_mem, not_forall, not_not, h.mem_missing]

theorem of_eq {call : Call} {p' : Parameters} (h : Replays past p) (silent : call.entry? = none)
    (byName : p'.byName = p.byName) (byIndex : p'.byIndex = p.byIndex)
    (arrived : p'.arrived = p.arrived) (total : p'.total = (call :: past).findSome? total?)
    (startedAt : p'.startedAt = (call :: past).findSome? start?)
    (forced : p'.forced ↔ GivenUp (call :: past)) : Replays (call :: past) p' where
  total := total
  startedAt := startedAt
  get? name := by
    rw [entries_of_silent silent, Parameters.get?, byName]
    exact h.get? name
  atIndex? index := by
    rw [entries_of_silent silent, Parameters.atIndex?, byIndex]
    exact h.atIndex? index
  arrived := by
    rw [entries_of_silent silent, arrived]
    exact h.arrived
  forced := forced

theorem record (h : Replays past p) (e : Entry) :
    Replays (.record e :: past) (p.record e.index e.name e.value) where
  total := h.total
  startedAt := h.startedAt
  get? name := by
    rw [get?_record, entries_record, h.get?]
    by_cases same : e.name = name
    · rw [if_pos same, List.find?_cons_of_pos (by simpa using same), Option.map_some]
    · rw [if_neg same, List.find?_cons_of_neg (by simpa using same)]
  atIndex? index := by
    rw [atIndex?_record, entries_record, h.atIndex?]
    by_cases same : e.index = index ∧ e.index ≠ noIndex
    · rw [if_pos same, List.find?_cons_of_pos (by simpa using same), Option.map_some]
    · rw [if_neg same, List.find?_cons_of_neg (by simpa using same)]
  arrived index := by
    rw [mem_arrived_record, entries_record, h.arrived, List.exists_mem_cons_iff]
  forced := h.forced.trans (by simp [givenUp_cons])

theorem expire (h : Replays past p) (now timeout : Nat) :
    Replays (.expire now timeout :: past) (p.expire now timeout).1 := by
  rcases p.expire_cases now timeout with ⟨-, overdue, same⟩ | ⟨onTime, same⟩
  · rw [same]
    refine h.of_eq rfl rfl rfl rfl h.total h.startedAt (iff_of_true rfl (givenUp_cons.mpr ?_))
    exact .inr (.inl ⟨now, timeout, rfl, h.overdue.mp overdue⟩)
  · rw [same]
    refine h.of_eq rfl rfl rfl rfl h.total h.startedAt ⟨fun given => ?_, fun given => ?_⟩
    · exact .before (h.forced.mp given)
    · rcases givenUp_cons.mp given with forces | ⟨_, _, ⟨⟩, overdue⟩ | before
      · cases forces
      · exact onTime (h.overdue.mpr overdue)
      · exact h.forced.mpr before

theorem after (h : Replays past p) {call : Call} (kept : call ≠ .reset) :
    Replays (call :: past) (p.after call) := by
  cases call with
  | begin total =>
    exact h.of_eq rfl rfl rfl rfl rfl h.startedAt (h.forced.trans (by simp [givenUp_cons]))
  | record e => exact h.record e
  | force =>
    exact h.of_eq rfl rfl rfl rfl h.total h.startedAt (iff_of_true rfl .force)
  | markStarted now =>
    exact h.of_eq rfl rfl rfl rfl h.total rfl (h.forced.trans (by simp [givenUp_cons]))
  | expire now timeout => exact h.expire now timeout
  | reset => exact absurd rfl kept

theorem run (calls : List Call) : Replays (span calls) (Parameters.empty.run calls) := by
  induction calls using List.reverseRecOn with
  | nil => exact .empty
  | append_singleton earlier call ih =>
    rw [Parameters.run, List.foldl_concat, ← Parameters.run]
    by_cases resets : call = .reset
    · rw [resets, span_append_of_reset]
      exact .empty
    · rw [span_append resets]
      exact ih.after resets

end Replays

structure Refines (past : List Call) (p : Parameters) : Prop extends Replays past p where
  coherent : ∀ index, index ∈ p.arrived ↔ (p.atIndex? index).isSome
  ascending : p.missing.Pairwise (· < ·)
  mem_missing : ∀ index, index ∈ p.missing ↔ Lacks past index
  received : ∀ total ∈ p.total, p.snapshot.received + p.missing.length = total.toNat
  isComplete : p.isComplete ↔ p.forced ∨ p.total.isSome ∧ p.missing = []
  progress_le : p.progress ≤ 100
  progress_eq : ∀ total ∈ p.total, 0 < total →
    p.progress = 100 * p.snapshot.received / total.toNat
  progress_eq_hundred : ∀ total ∈ p.total, p.progress = 100 ↔ p.missing = []

/-- Whatever calls come in whatever order, those since the last reset say what the table holds. -/
theorem refines_run (calls : List Call) : Refines (span calls) (empty.run calls) := by
  have replays := Replays.run calls
  exact {
    toReplays := replays
    coherent := replays.coherent
    ascending := pairwise_missing _
    mem_missing := replays.mem_missing
    received := fun _ announced => received_add_missing announced
    isComplete := isComplete_iff _
    progress_le := progress_le _
    progress_eq := fun _ announced positive => by
      rw [progress_of_pos announced positive, Nat.mul_comm, snapshot]
    progress_eq_hundred := fun _ announced => progress_eq_hundred_iff announced }

example :
    let p := empty.run [.record ⟨1, "B", .one⟩, .begin 3, .record ⟨7, "H", .one⟩,
      .record ⟨1, "B", .one⟩]
    p.missing = [0, 2] ∧ p.received = 1 ∧ p.progress = 33 := by decide +kernel

end VehicleLink.Parameters
