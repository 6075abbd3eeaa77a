import VehicleLink.Proofs.Parameters.Calls

namespace VehicleLink.Parameters

namespace Call

structure Due (past : List Call) (now timeout : Nat) : Prop where
  late : ∃ start ∈ past.findSome? start?, start + timeout < now
  waiting : ¬ GivenUp past
  lacking : past.findSome? total? = none ∨ ∃ index, Lacks past index

end Call

open Call

structure Preserves (p p' : Parameters) : Prop where
  total : p'.total = p.total
  missing : p'.missing = p.missing
  get? : ∀ name, p'.get? name = p.get? name
  atIndex? : ∀ index, p'.atIndex? index = p.atIndex? index

theorem preserves_force (p : Parameters) : Preserves p p.force :=
  ⟨rfl, rfl, fun _ => rfl, fun _ => rfl⟩

def answer (p : Parameters) : Call → Option (List UInt16)
  | .expire now timeout => (p.expire now timeout).2
  | _ => none

def expirations (p : Parameters) : List Call → List (List UInt16)
  | [] => []
  | call :: calls => (p.answer call).toList ++ (p.after call).expirations calls

section Once

variable {p : Parameters} {call : Call} {calls : List Call}

theorem answer_of_forced (forced : p.forced) (call : Call) : p.answer call = none := by
  cases call with
  | expire now timeout =>
    rcases p.expire_cases now timeout with ⟨unforced, -, -⟩ | ⟨-, same⟩
    · cases unforced.symm.trans forced
    · rw [answer, same]
  | _ => rfl

theorem forced_after (forced : p.forced) (kept : call ≠ .reset) : (p.after call).forced := by
  cases call with
  | expire now timeout =>
    rcases p.expire_cases now timeout with ⟨-, -, same⟩ | ⟨-, same⟩
    · rw [after, same]
      rfl
    · rw [after, same]
      exact forced
  | reset => exact absurd rfl kept
  | force => rfl
  | begin | record | markStarted => exact forced

theorem forced_of_answer {given : List UInt16} (told : p.answer call = some given) :
    (p.after call).forced := by
  cases call with
  | expire now timeout =>
    rcases p.expire_cases now timeout with ⟨-, -, same⟩ | ⟨-, same⟩
    · rw [after, same]
      rfl
    · rw [answer, same] at told
      cases told
  | _ => cases told

theorem expirations_of_forced (forced : p.forced) (kept : .reset ∉ calls) :
    p.expirations calls = [] := by
  induction calls generalizing p with
  | nil => rfl
  | cons call calls ih =>
    obtain ⟨first, others⟩ := List.ne_and_not_mem_of_not_mem_cons kept
    rw [expirations, answer_of_forced forced, ih (forced_after forced first.symm) others]
    rfl

theorem length_expirations_le (p : Parameters) (kept : .reset ∉ calls) :
    (p.expirations calls).length ≤ 1 := by
  induction calls generalizing p with
  | nil => exact Nat.zero_le 1
  | cons call calls ih =>
    have others := (List.ne_and_not_mem_of_not_mem_cons kept).2
    rw [expirations]
    cases told : p.answer call with
    | none => exact ih (p.after call) others
    | some given =>
      rw [expirations_of_forced (forced_of_answer told) others]
      exact Nat.le_refl 1

end Once

theorem Replays.due_iff {past : List Call} {p : Parameters} (h : Replays past p)
    (now timeout : Nat) : Due past now timeout ↔ p.forced = false ∧ p.Overdue now timeout := by
  rw [← Bool.not_eq_true, h.forced, h.overdue]
  exact ⟨fun due => ⟨due.waiting, due.late, due.lacking⟩,
    fun ⟨waiting, late, lacking⟩ => ⟨late, waiting, lacking⟩⟩

/-- A round is given up exactly when it is due by the calls since the last reset.  The answer lists
what is missing, and the table counts as complete from then on and is otherwise as it was.  Until
the next reset no other round is given up. -/
theorem expire_once_when_due (calls : List Call) (now timeout : Nat) :
    let p := empty.run calls
    let p' := (p.expire now timeout).1
    let answer := (p.expire now timeout).2
    (p.forced ↔ GivenUp (span calls))
      ∧ (answer.isSome ↔ Due (span calls) now timeout)
      ∧ (∀ given ∈ answer, given = p.missing ∧ (p.total = none → given = [])
        ∧ p'.isComplete ∧ Preserves p p')
      ∧ (answer = none → p' = p)
      ∧ ∀ later, .reset ∉ later → (p.expirations later).length ≤ 1 := by
  intro p
  have replays : Replays (span calls) p := .run calls
  have due := replays.due_iff now timeout
  dsimp only
  refine ⟨replays.forced, ?_⟩
  rcases p.expire_cases now timeout with ⟨unforced, overdue, same⟩ | ⟨onTime, same⟩
  · rw [same]
    refine ⟨iff_of_true rfl (due.mpr ⟨unforced, overdue⟩), ?_, nofun,
      fun _ => length_expirations_le p⟩
    rintro _ ⟨⟩
    exact ⟨rfl, missing_of_unknown, p.force.isComplete_iff.mpr (.inl rfl), preserves_force p⟩
  · rw [same]
    refine ⟨iff_of_false Bool.false_ne_true fun isDue => ?_, nofun, fun _ => rfl,
      fun _ => length_expirations_le p⟩
    obtain ⟨unforced, overdue⟩ := due.mp isDue
    cases unforced.symm.trans (onTime overdue)

theorem expire_once_of_gaps :
    let p := empty.run [.begin 3, .record ⟨1, "B", .one⟩, .markStarted 0]
    let later : List Call := [.expire 10000 10000, .expire 10001 10000, .begin 4,
      .markStarted 20000, .expire 40000 10000]
    (p.expire 10001 10000).2 = some [0, 2] ∧ (p.expire 10001 10000).1.isComplete
      ∧ Preserves p (p.expire 10001 10000).1
      ∧ .reset ∉ later ∧ (p.expirations later).length ≤ 1 := by
  intro p later
  have fires : (p.expire 10001 10000).2 = some [0, 2] := by decide +kernel
  have kept : .reset ∉ later := by decide
  obtain ⟨-, -, given, -, once⟩ :=
    expire_once_when_due [.begin 3, .record ⟨1, "B", .one⟩, .markStarted 0] 10001 10000
  obtain ⟨-, -, complete, preserves⟩ := given [0, 2] fires
  exact ⟨fires, complete, preserves, kept, once later kept⟩

end VehicleLink.Parameters
