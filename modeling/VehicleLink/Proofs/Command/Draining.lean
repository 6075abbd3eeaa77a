import Mathlib.Algebra.Order.BigOperators.Group.List
import Mathlib.Algebra.Order.Ring.Nat
import VehicleLink.Proofs.Command.Outcomes

namespace VehicleLink

/-- The ticks that a command at the head may still take, the one that removes it included. -/
def Command.allowance (c : Command) (retries : Nat) : Nat := retries + 1 - c.attempts + 1

theorem Command.allowance_le (c : Command) (retries : Nat) : c.allowance retries ≤ retries + 2 := by
  rw [allowance]
  omega

namespace Queue

def allowance (q : Queue) : Nat := (q.pending.map (·.allowance q.retries)).sum

theorem allowance_of_pending {q : Queue} {c : Command} {rest : List Command}
    (pending : q.pending = c :: rest) :
    q.allowance = c.allowance q.retries + (rest.map (·.allowance q.retries)).sum := by
  rw [allowance, pending, List.map_cons, List.sum_cons]

theorem length_le_allowance (q : Queue) : q.pending.length ≤ q.allowance := by
  rw [allowance, ← List.length_map (·.allowance q.retries)]
  refine List.length_le_sum_of_one_le _ fun n isAllowance => ?_
  obtain ⟨c, -, rfl⟩ := List.mem_map.mp isAllowance
  exact Nat.succ_le_succ (Nat.zero_le _)

theorem allowance_le (q : Queue) : q.allowance ≤ q.pending.length * (q.retries + 2) := by
  have each : ∀ n ∈ q.pending.map (·.allowance q.retries), n ≤ q.retries + 2 := by
    intro n isAllowance
    obtain ⟨c, -, rfl⟩ := List.mem_map.mp isAllowance
    exact c.allowance_le q.retries
  simpa [allowance] using List.sum_le_card_nsmul _ _ each

namespace Session

def ticks (actions : List Action) : Nat :=
  actions.countP fun
    | .tick _ => true
    | _ => false

theorem ticks_cons (action : Action) (rest : List Action) :
    ticks (action :: rest) = ticks [action] + ticks rest := by
  rw [ticks, ← List.singleton_append, List.countP_append]
  rfl

theorem ticks_tick (delivered : Bool) : ticks [.tick delivered] = 1 := rfl

theorem retries_step (s : Session) (action : Action) :
    (s.step action).1.queue.retries = s.queue.retries := by
  generalize moved : (s.step action).1 = s'
  have move : s.Move action s' := moved ▸ s.move_step action
  cases move <;> rfl

theorem retries_run (s : Session) (actions : List Action) :
    (s.run actions).queue.retries = s.queue.retries := by
  induction actions generalizing s with
  | nil => rfl
  | cons action rest ih => exact (ih _).trans (s.retries_step action)

def Settled (s : Session) : Prop := s.closed = true → s.queue.pending = []

theorem Settled.step {s : Session} (h : s.Settled) (action : Action) :
    (s.step action).1.Settled := by
  generalize moved : (s.step action).1 = s'
  have move : s.Move action s' := moved ▸ s.move_step action
  cases move with
  | closed => exact h
  | unmatched => exact h
  | idle => exact h
  | cancelled => exact fun _ => rfl
  | pushed isOpen | answered isOpen | settled isOpen | sent isOpen | forgotten isOpen
  | released isOpen => exact fun isClosed => by cases isOpen.symm.trans isClosed

theorem Settled.run {s : Session} (h : s.Settled) (actions : List Action) :
    (s.run actions).Settled := by
  induction actions generalizing s with
  | nil => exact h
  | cons action rest ih => exact ih (h.step action)

theorem allowance_step {s : Session} (h : s.Settled) {action : Action}
    (noPush : pushed [action] = []) :
    (s.step action).1.queue.allowance ≤ s.queue.allowance - ticks [action] := by
  generalize moved : (s.step action).1 = s'
  have move : s.Move action s' := moved ▸ s.move_step action
  cases move with
  | closed isClosed => simp [allowance, h isClosed]
  | pushed => cases noPush
  | answered _ pending => exact Nat.le_of_eq (allowance_of_pending pending).symm
  | unmatched => exact Nat.le_refl _
  | idle _ pending => simp [allowance, pending]
  | settled _ pending =>
    rw [allowance_of_pending pending, Command.allowance, ticks_tick]
    simp only [allowance]
    omega
  | sent _ pending goes =>
    -- What is sent has an attempt left, so that the subtraction does not stop at zero.
    have within := Command.attempts_le_of_verdict goes
    rw [allowance_of_pending pending, allowance_of_pending rfl, ticks_tick]
    simp only [Command.allowance]
    omega
  | forgotten => exact Nat.le_refl _
  | released => exact Nat.le_refl _
  | cancelled => exact Nat.zero_le _

theorem allowance_run {s : Session} (h : s.Settled) {actions : List Action}
    (noPush : pushed actions = []) :
    (s.run actions).queue.allowance ≤ s.queue.allowance - ticks actions := by
  induction actions generalizing s with
  | nil => exact Nat.le_refl _
  | cons action rest ih =>
    rw [pushed_cons, List.append_eq_nil_iff] at noPush
    have now := allowance_step h noPush.1
    have later := ih (h.step action) noPush.2
    rw [ticks_cons]
    exact Nat.le_trans later (by omega)

theorem pending_eq_nil_of_ticks {s : Session} (h : s.Settled) {actions : List Action}
    (noPush : pushed actions = []) (enough : s.queue.allowance ≤ ticks actions) :
    (s.run actions).queue.pending = [] := by
  have left := allowance_run h noPush
  have length := (s.run actions).queue.length_le_allowance
  exact List.length_eq_zero_iff.mp (by omega)

/-- Whatever was done before, and whatever is sent and acknowledged meanwhile, the queue drains as
long as the ticks go on and nothing is pushed. -/
theorem drains (retries : Nat) (actions later : List Action) (noPush : pushed later = [])
    (enough : ((start retries).run actions).queue.pending.length * (retries + 2) ≤ ticks later) :
    (((start retries).run actions).run later).queue.pending = [] := by
  have settled : (start retries).Settled := nofun
  refine pending_eq_nil_of_ticks (settled.run actions) noPush ?_
  have most := ((start retries).run actions).queue.allowance_le
  rw [retries_run] at most
  exact Nat.le_trans most enough

def wavering : List Action :=
  [.tick false, .acknowledge 176 .accepted, .acknowledge 176 .temporarilyRejected, .tick true,
    .tick true, .acknowledge 300 .pending, .tick false, .tick true, .tick true]

theorem drains_wavering :
    let pushes := [.push 300 (.replicate 7 .zero), .push 176 (.replicate 7 .zero)]
    ((start 1).run pushes).queue.pending.length = 2
      ∧ pushed wavering = [] ∧ ticks wavering = 6
      ∧ (((start 1).run pushes).run wavering).queue.pending = [] :=
  ⟨by decide, rfl, rfl, drains 1 _ wavering rfl (by decide)⟩

end Session

end Queue

end VehicleLink
