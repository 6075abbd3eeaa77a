import Mathlib.Data.List.Induction
import VehicleLink.Proofs.Engine.Phases

namespace VehicleLink.Engine

namespace Leaves

variable {e e' e'' : Engine}

theorem of_hears (h : Hears e e') : Leaves e e' := by
  obtain ⟨_, _, _, _, _, _, _, _, rfl⟩ := h.rest
  exact of_eq rfl rfl rfl

theorem dispatch (e : Engine) : Leaves e e.dispatch := by
  have ticked (e : Engine) (queue : Queue) : Leaves e { e with queue } := of_eq rfl rfl rfl
  rw [Engine.dispatch]
  cases e.queue.due? with
  | none =>
    dsimp only
    split
    · exact (ticked e _).trans (finish _ _ rfl)
    · exact ticked e _
  | some c =>
    have sent := send e (.command c.opcode c.arguments (confirmation c.attempts))
    dsimp only
    split
    · exact sent.trans ((ticked _ _).trans (finish _ _ rfl))
    · exact sent.trans (ticked _ _)

theorem tick (e : Engine) : Leaves e (e.step .tick) := by
  rw [Engine.step]
  rcases e.tick_cases with ⟨-, same⟩ | ⟨t, -, -, same⟩
  · rw [same]
    exact refl e
  · have found : Leaves e { e with handler.timer := some (t.next e.now) }.advancePhase :=
      of_eq rfl rfl rfl
    rw [same, tickHandler, actOnPhase]
    refine found.trans ?_
    split
    · exact refl _
    · exact send _ _
    · obtain ⟨_, _, _, same, -⟩ := syncParameters_eq
        { e with handler.timer := some (t.next e.now) }.advancePhase
      rw [same]
      exact of_eq rfl rfl rfl
    · exact dispatch _

theorem step (e : Engine) {action : Action}
    (noSet : ∀ name value, action ≠ .call (.setParam name value))
    (noErrand : ∀ ids, action ≠ .errands ids) : Leaves e (e.step action) := by
  rcases e.step_parts action with rfl | rfl | rfl | ⟨_, rfl⟩ | keeps
  · exact tick e
  · obtain ⟨_, _, _, same⟩ := e.applyNext_eq
    rw [Engine.step, same]
    exact of_eq rfl rfl rfl
  · exact of_eq rfl rfl rfl
  · exact of_eq rfl rfl rfl
  · exact (of_hears (.receiveAll e _)).trans (keeps.leaves noSet noErrand)

end Leaves

def readBack (e : Engine) (name : String) (value : Single) : Except ParamError Unit :=
  match e.param? name with
  | .error cause => .error cause
  | .ok actual => if actual.same value then .ok () else .error (.setFailed name value actual)

def ReadsBack (e : Engine) (j : Job) (d : Completion) : Prop :=
  ∃ name value, j.errand = .verify name value ∧ d = ⟨j.id, e.now, .set (e.readBack name value)⟩

/-- What is read back was set before, and what is set now gets an identifier of its own. -/
structure Sets (e e' : Engine) : Prop where
  nextId : e.nextId ≤ e'.nextId
  jobs : ∀ j ∈ e'.jobs, j.errand.isVerify →
    j ∈ e.jobs ∨ j.id = e.nextId ∧ e.nextId < e'.nextId
  finished : ∀ d ∈ e'.finished, d.result.isSet →
    d ∈ e.finished ∨ (d.id = e.nextId ∧ e.nextId < e'.nextId)
      ∨ ∃ j ∈ e.jobs, j.wake ≤ e.now ∧ e.ReadsBack j d

theorem Leaves.sets {e e' : Engine} (h : Leaves e e') : Sets e e' :=
  ⟨h.nextId, fun j isJob verifies => .inl (h.jobs j isJob verifies),
    fun d isDone isSet => .inl (h.finished d isDone isSet)⟩

section Errands

variable (e : Engine)

theorem resumeJob_cases (j : Job) :
    (∀ i ∈ (e.resumeJob j).jobs, i.errand.isVerify → i ∈ e.jobs)
      ∧ ∀ d ∈ (e.resumeJob j).finished, d.result.isSet → d ∈ e.finished ∨ e.ReadsBack j d := by
  cases verifies : j.errand.isVerify with
  | false =>
    have leaves := Leaves.resumeJob e verifies
    exact ⟨leaves.jobs, fun d isDone isSet => .inl (leaves.finished d isDone isSet)⟩
  | true =>
    obtain ⟨name, value, errand⟩ : ∃ name value, j.errand = .verify name value := by
      cases errand : j.errand with
      | verify name value => exact ⟨name, value, rfl⟩
      | _ => simp [errand, Errand.isVerify] at verifies
    have told : e.resumeJob j = e.finish j.id (.set (e.readBack name value)) := by
      rw [resumeJob, errand]
      rfl
    rw [told]
    refine ⟨fun _ isJob _ => isJob, fun d isDone _ => ?_⟩
    rcases List.mem_cons.mp isDone with new | old
    · exact .inr ⟨name, value, errand, new⟩
    · exact .inl old

theorem readsBack_resumeJob {j i : Job} {d : Completion} (h : (e.resumeJob j).ReadsBack i d) :
    e.ReadsBack i d := by
  obtain ⟨_, _, _, same⟩ := (Errs.resumeJob e j).rest
  rw [same] at h
  exact h

theorem resumeJobs_cases (due : List Job) :
    let e' := due.foldl resumeJob e
    (∀ j ∈ e'.jobs, j.errand.isVerify → j ∈ e.jobs)
      ∧ ∀ d ∈ e'.finished, d.result.isSet → d ∈ e.finished ∨ ∃ j ∈ due, e.ReadsBack j d := by
  induction due generalizing e with
  | nil => exact ⟨fun _ isJob _ => isJob, fun _ isDone _ => .inl isDone⟩
  | cons j rest ih =>
    obtain ⟨jobs, finished⟩ := ih (e.resumeJob j)
    obtain ⟨jobsFirst, finishedFirst⟩ := e.resumeJob_cases j
    refine ⟨fun i isJob verifies => jobsFirst i (jobs i isJob verifies) verifies, ?_⟩
    intro d isDone isSet
    rcases finished d isDone isSet with before | ⟨i, isRest, later⟩
    · refine (finishedFirst d before isSet).imp_right fun now => ?_
      exact ⟨j, List.mem_cons_self, now⟩
    · exact .inr ⟨i, List.mem_cons_of_mem _ isRest, e.readsBack_resumeJob later⟩

theorem sets_errands (ids : List Nat) : Sets e (e.step (.errands ids)) := by
  rw [step, runErrands, List.partition_eq_filter_filter]
  generalize isDue : (fun j : Job => decide (j.wake ≤ e.now ∧ j.id ∈ ids)) = due
  dsimp only
  obtain ⟨_, _, _, same⟩ :=
    (Errs.resumeJobs (e.jobs.filter due) { e with jobs := e.jobs.filter (not ∘ due) }).rest
  obtain ⟨jobs, finished⟩ := resumeJobs_cases { e with jobs := e.jobs.filter (not ∘ due) }
    (e.jobs.filter due)
  refine ⟨?_, fun j isJob verifies => .inl ?_, fun d isDone isSet => ?_⟩
  · exact Nat.le_of_eq (congrArg Engine.nextId same).symm
  · exact (List.mem_filter.mp (jobs j isJob verifies)).1
  · rcases finished d isDone isSet with before | ⟨j, isMember, told⟩
    · exact .inl before
    · obtain ⟨isJob, awake⟩ := List.mem_filter.mp isMember
      subst isDue
      exact .inr (.inr ⟨j, isJob, (of_decide_eq_true awake).1, told⟩)

theorem setParam_cases (id : Nat) (name : String) (value : Single) :
    (∃ outbound cause, e.setParam id name value =
        { e with outbound }.finish id (.set (.error (.transport cause))))
      ∨ ∃ outbound : Outbound, (∃ t, outbound.sent = t :: e.outbound.sent
          ∧ t.message = .setParameter name value ∧ t.target = e.target)
        ∧ (e.config.paramSettle.toNat = 0 ∧ e.setParam id name value =
            { e with outbound }.finish id (.set (e.readBack name value))
          ∨ e.setParam id name value =
            { e with outbound }.sleep id e.config.paramSettle.toNat (.verify name value)) := by
  rw [setParam, send]
  rcases e.sendTo_cases e.target (.setParameter name value) with
    ⟨outbound, cause, sent⟩ | ⟨outbound, onLink, sent⟩
  · rw [sent]
    exact .inl ⟨outbound, cause, rfl⟩
  · rw [sent]
    refine .inr ⟨outbound, onLink, ?_⟩
    dsimp only
    split
    · next zero => exact .inl ⟨zero, rfl⟩
    · exact .inr rfl

theorem step_setParam (name : String) (value : Single) :
    let e₁ := e.step (.call (.setParam name value))
    (e₁.nextId = e.nextId + 1 ∧ e₁.now = e.now ∧ e₁.params = e.params)
      ∧ ((∃ cause, e₁.jobs = e.jobs
          ∧ e₁.finished = ⟨e.nextId, e.now, .set (.error (.transport cause))⟩ :: e.finished)
        ∨ (∃ t, e₁.outbound.sent = t :: e.outbound.sent ∧ t.message = .setParameter name value
            ∧ t.target = e.target)
          ∧ (e.config.paramSettle.toNat = 0 ∧ e₁.jobs = e.jobs
              ∧ e₁.finished = ⟨e.nextId, e.now, .set (e₁.readBack name value)⟩ :: e.finished
            ∨ e₁.finished = e.finished
              ∧ e₁.jobs = e.jobs ++ [⟨e.nextId, e.now + Timer.span e.config.paramSettle.toNat,
                .verify name value⟩])) := by
  intro e₁
  have call : e₁ = { e with nextId := e.nextId + 1 }.setParam e.nextId name value := rfl
  rw [call]
  rcases setParam_cases { e with nextId := e.nextId + 1 } e.nextId name value with
    ⟨outbound, cause, same⟩ | ⟨outbound, onLink, ⟨zero, same⟩ | same⟩
  · rw [same]
    exact ⟨⟨rfl, rfl, rfl⟩, .inl ⟨cause, rfl, rfl⟩⟩
  · rw [same]
    exact ⟨⟨rfl, rfl, rfl⟩, .inr ⟨onLink, .inl ⟨zero, rfl, rfl⟩⟩⟩
  · rw [same]
    exact ⟨⟨rfl, rfl, rfl⟩, .inr ⟨onLink, .inr ⟨rfl, rfl⟩⟩⟩

theorem sets_setParam (name : String) (value : Single) :
    Sets e (e.step (.call (.setParam name value))) := by
  obtain ⟨⟨nextId, -⟩, told⟩ := e.step_setParam name value
  have issues : e.nextId < (e.step (.call (.setParam name value))).nextId :=
    nextId ▸ Nat.lt_succ_self _
  refine ⟨Nat.le_of_lt issues, fun j isJob _ => ?_, fun d isDone _ => ?_⟩
  · rcases told with ⟨_, jobs, -⟩ | ⟨-, ⟨-, jobs, -⟩ | ⟨-, jobs⟩⟩
    · exact .inl (jobs ▸ isJob)
    · exact .inl (jobs ▸ isJob)
    · rw [jobs] at isJob
      refine (List.mem_append.mp isJob).imp_right fun new => ?_
      obtain rfl := List.mem_singleton.mp new
      exact ⟨rfl, issues⟩
  · have first {first : Completion}
        (finished : (e.step (.call (.setParam name value))).finished = first :: e.finished)
        (own : first.id = e.nextId) : d ∈ e.finished ∨ d.id = e.nextId := by
      rw [finished] at isDone
      rcases List.mem_cons.mp isDone with rfl | old
      · exact .inr own
      · exact .inl old
    rcases told with ⟨_, -, finished⟩ | ⟨-, ⟨-, -, finished⟩ | ⟨finished, -⟩⟩
    · exact (first finished rfl).imp_right fun own => .inl ⟨own, issues⟩
    · exact (first finished rfl).imp_right fun own => .inl ⟨own, issues⟩
    · exact .inl (finished ▸ isDone)

end Errands

theorem sets_step (e : Engine) (action : Action) : Sets e (e.step action) := by
  by_cases sets : ∃ name value, action = .call (.setParam name value)
  · obtain ⟨name, value, rfl⟩ := sets
    exact sets_setParam e name value
  by_cases resumes : ∃ ids, action = .errands ids
  · obtain ⟨ids, rfl⟩ := resumes
    exact sets_errands e ids
  refine (Leaves.step e (fun name value same => ?_) fun ids same => ?_).sets
  · exact sets ⟨name, value, same⟩
  · exact resumes ⟨ids, same⟩

structure Issued (e : Engine) : Prop where
  jobs : ∀ j ∈ e.jobs, j.errand.isVerify → j.id < e.nextId
  finished : ∀ d ∈ e.finished, d.result.isSet → d.id < e.nextId

theorem Issued.of_sets {e e' : Engine} (h : Issued e) (sets : Sets e e') : Issued e' where
  jobs j isJob verifies := by
    rcases sets.jobs j isJob verifies with old | ⟨new, below⟩
    · exact Nat.lt_of_lt_of_le (h.jobs j old verifies) sets.nextId
    · rwa [new]
  finished d isDone isSet := by
    rcases sets.finished d isDone isSet with old | ⟨new, below⟩ | ⟨j, isJob, -, told⟩
    · exact Nat.lt_of_lt_of_le (h.finished d old isSet) sets.nextId
    · rwa [new]
    · obtain ⟨name, value, errand, rfl⟩ := told
      exact Nat.lt_of_lt_of_le (h.jobs j isJob (by rw [errand]; rfl)) sets.nextId

theorem issued_steps (r : Registry) (c : EngineConfig) (receiver : Receiver)
    (actions : List Action) : Issued ((start r c receiver).steps actions) :=
  steps_induction (P := Issued) (fun e action h => h.of_sets (sets_step e action))
    ⟨by simp [start], by simp [start]⟩ actions

/-- The action that comes after these is the one that tells it, or, if there are none, it is told
from the beginning. -/
def ToldAfter (e : Engine) (between actions : List Action) (d : Completion) : Prop :=
  between = [] ∧ d ∈ e.finished
    ∨ ∃ action, between ++ [action] <+: actions ∧ d ∉ (e.steps between).finished
      ∧ d ∈ ((e.steps between).step action).finished

structure Awaits (allows : Job → Prop) (id : Nat) (e : Engine) : Prop where
  issued : id < e.nextId
  jobs : ∀ j ∈ e.jobs, j.errand.isVerify → j.id = id → allows j

section Waiting

variable {allows : Job → Prop} {id : Nat} {e : Engine}

theorem awaits_step (action : Action) (h : Awaits allows id e) :
    Awaits allows id (e.step action) := by
  have sets := sets_step e action
  refine ⟨Nat.lt_of_lt_of_le h.issued sets.nextId, fun j isJob verifies own => ?_⟩
  rcases sets.jobs j isJob verifies with old | ⟨new, -⟩
  · exact h.jobs j old verifies own
  · exact absurd (own.symm.trans new) (Nat.ne_of_lt h.issued)

theorem awaits_steps (actions : List Action) (h : Awaits allows id e) :
    Awaits allows id (e.steps actions) :=
  steps_induction (fun _ action => awaits_step action) h actions

theorem told_steps (h : Awaits allows id e) (actions : List Action) {d : Completion}
    (isDone : d ∈ (e.steps actions).finished) (isSet : d.result.isSet) (own : d.id = id) :
    d ∈ e.finished ∨ ∃ between, e.ToldAfter between actions d
      ∧ ∃ j, allows j ∧ j.wake ≤ (e.steps between).now ∧ (e.steps between).ReadsBack j d := by
  induction actions using List.reverseRecOn with
  | nil => exact .inl isDone
  | append_singleton earlier action ih =>
    -- Of the actions after which it is told, the first is the one that tells it.
    by_cases old : d ∈ (e.steps earlier).finished
    · refine (ih old).imp_right fun ⟨between, toldAfter, read⟩ => ⟨between, ?_, read⟩
      refine toldAfter.imp_right fun ⟨teller, isPrefix, told⟩ => ⟨teller, ?_, told⟩
      exact isPrefix.trans (List.prefix_append _ _)
    · have awaits := awaits_steps earlier h
      rw [steps_append] at isDone
      have told : d ∈ ((e.steps earlier).step action).finished := isDone
      refine .inr ⟨earlier, .inr ⟨action, List.prefix_rfl, old, told⟩, ?_⟩
      rcases (sets_step _ action).finished d told isSet with
        before | ⟨new, -⟩ | ⟨j, isJob, awake, read⟩
      · exact absurd before old
      · exact absurd (own.symm.trans new) (Nat.ne_of_lt awaits.issued)
      · refine ⟨j, ?_, awake, read⟩
        obtain ⟨name, value, errand, rfl⟩ := read
        exact awaits.jobs j isJob (by rw [errand]; rfl) own

end Waiting

namespace Issued

variable {e e₁ : Engine} {d : Completion}

theorem told_once (h : Issued e) (nextId : e.nextId < e₁.nextId) (jobs : e₁.jobs = e.jobs)
    {first : Completion} (finished : e₁.finished = first :: e.finished) {actions : List Action}
    (isDone : d ∈ (e₁.steps actions).finished) (isSet : d.result.isSet) (own : d.id = e.nextId) :
    d = first := by
  have awaits : Awaits (fun _ => False) e.nextId e₁ := by
    refine ⟨nextId, fun j isJob verifies same => ?_⟩
    exact Nat.lt_irrefl _ (same ▸ h.jobs j (jobs ▸ isJob) verifies)
  rcases told_steps awaits actions isDone isSet own with told | ⟨_, _, _, impossible, _⟩
  · rw [finished] at told
    rcases List.mem_cons.mp told with new | old
    · exact new
    · exact absurd own (Nat.ne_of_lt (h.finished d old isSet))
  · cases impossible

theorem told_later (h : Issued e) (nextId : e.nextId < e₁.nextId) {j : Job}
    (jobs : e₁.jobs = e.jobs ++ [j]) (finished : e₁.finished = e.finished)
    {actions : List Action} (isDone : d ∈ (e₁.steps actions).finished) (isSet : d.result.isSet)
    (own : d.id = e.nextId) :
    ∃ between, e₁.ToldAfter between actions d ∧ j.wake ≤ (e₁.steps between).now
      ∧ (e₁.steps between).ReadsBack j d := by
  have awaits : Awaits (· = j) e.nextId e₁ := by
    refine ⟨nextId, fun i isJob verifies same => ?_⟩
    rw [jobs] at isJob
    rcases List.mem_append.mp isJob with old | new
    · exact absurd same (Nat.ne_of_lt (h.jobs i old verifies))
    · exact List.mem_singleton.mp new
  rcases told_steps awaits actions isDone isSet own with told | ⟨between, toldAfter, _, rfl, read⟩
  · rw [finished] at told
    exact absurd own (Nat.ne_of_lt (h.finished d told isSet))
  · exact ⟨between, toldAfter, read⟩

end Issued

end VehicleLink.Engine
