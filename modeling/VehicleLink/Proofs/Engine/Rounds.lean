import VehicleLink.Proofs.Engine.Passes
import VehicleLink.Proofs.Engine.Override
import VehicleLink.Proofs.Parameters.Table

namespace VehicleLink

theorem Timer.span_eq_zero_iff {delay : Nat} : span delay = 0 ↔ delay = 0 := by
  rw [span, Nat.min_eq_zero_iff]
  exact or_iff_left (by decide)

namespace Engine

def pause (e : Engine) : Nat := Timer.span e.config.paramRequestSpacing.toNat

def InTime (e : Engine) : Prop :=
  ∃ started ∈ e.params.startedAt, e.now ≤ started + e.config.paramTimeout.toNat

def Asks (allows : UInt16 → Nat → Prop) (e e' : Engine) : Prop :=
  Emits (fun t => ∀ index, t.message = .requestParameter index → allows index t.time) e e'

section Asking

variable {allows : UInt16 → Nat → Prop} {e : Engine}

theorem asks_of_message {m : Outgoing} (other : ∀ index, m ≠ .requestParameter index)
    (target : Target) : Asks allows e (e.sendTo target m).1 :=
  (emits_sendTo e target m).mono fun _ sent index asks =>
    absurd (sent.1.symm.trans asks) (other index)

theorem asks_sendTo {index : UInt16} (allowed : allows index e.now) (target : Target) :
    Asks allows e (e.sendTo target (.requestParameter index)).1 := by
  refine (emits_sendTo e target (.requestParameter index)).mono ?_
  rintro t ⟨message, time⟩ index' asks
  cases message.symm.trans asks
  exact time ▸ allowed

theorem Asks.of_last {e' : Engine} {index : UInt16} {time : Nat} (h : Asks allows e e')
    (sent : e.outbound.sent.length < e'.outbound.sent.length)
    (last : e'.outbound.sent.head?.map (fun t => (t.message, t.time)) =
      some (.requestParameter index, time)) : allows index time := by
  obtain ⟨new, grown, within⟩ := h
  rw [grown] at sent last
  cases new with
  | nil => exact absurd sent (Nat.lt_irrefl _)
  | cons t rest =>
    obtain ⟨message, same⟩ := Prod.mk.inj (Option.some.inj last)
    exact same ▸ within t List.mem_cons_self index message

end Asking

section Passes

variable (target : Target) (indices : List UInt16)

theorem pass_requestMissing (e : Engine) :
    ∀ p ∈ (e.requestMissing target indices).handler.pass,
      0 < e.pause ∧ p.wake = e.now + e.pause ∧ ∃ index, indices = index :: p.rest := by
  intro p isPass
  induction indices generalizing e with
  | nil => cases isPass
  | cons index rest ih =>
    obtain ⟨outbound, sent⟩ := sendTo_eq e target (.requestParameter index)
    rw [requestMissing, sent] at isPass
    dsimp only at isPass
    split at isPass
    · cases isPass
    split at isPass
    · next noPause =>
      have paused := (ih { e with outbound } isPass).1
      exact absurd (Timer.span_eq_zero_iff.mpr noPause) (Nat.ne_of_gt paused)
    · next paused =>
      cases isPass
      exact ⟨Nat.pos_of_ne_zero (mt Timer.span_eq_zero_iff.mp paused), rfl, index, rfl⟩

theorem asks_requestMissing (e : Engine) :
    Asks (fun index time => ∃ k : Nat, indices[k]? = some index ∧ time = e.now + k * e.pause) e
      (e.requestMissing target indices) := by
  induction indices generalizing e with
  | nil => exact .of_sent_eq rfl
  | cons index rest ih =>
    have first : Asks
        (fun i time => ∃ k : Nat, (index :: rest)[k]? = some i ∧ time = e.now + k * e.pause) e
        (e.sendTo target (.requestParameter index)).1 :=
      asks_sendTo ⟨0, rfl, by simp⟩ target
    obtain ⟨outbound, sent⟩ := sendTo_eq e target (.requestParameter index)
    rw [requestMissing]
    split
    · exact .of_sent_eq rfl
    rw [sent] at first ⊢
    dsimp only
    split
    · next noPause =>
      have noPause : e.pause = 0 := Timer.span_eq_zero_iff.mpr noPause
      refine first.trans ((ih { e with outbound }).mono fun t made i asks => ?_)
      obtain ⟨k, position, time⟩ := made i asks
      have time : t.time = e.now + k * e.pause := time
      exact ⟨k + 1, position, by rw [time, noPause, Nat.mul_zero, Nat.mul_zero]⟩
    · exact first.trans (.of_sent_eq rfl)

end Passes

variable (e : Engine)

theorem syncParameters_cases (unsynced : e.params.isComplete = false) :
    (e.syncParameters.handler = e.handler ∧ Asks (fun _ _ => False) e e.syncParameters)
      ∨ e.InTime ∧ e.syncParameters = e.requestMissing e.target e.params.missing := by
  -- The list of all parameters is no request for a single one.
  have listed (e : Engine) : (e.send .requestParameters).1.handler = e.handler
      ∧ Asks (fun _ _ => False) e (e.send .requestParameters).1 := by
    refine ⟨?_, asks_of_message (by simp) e.target⟩
    obtain ⟨outbound, sent⟩ := sendTo_eq e e.target .requestParameters
    rw [send.eq_def, sent]
  rw [syncParameters]
  split
  · exact .inl (listed { e with params := e.params.markStarted e.now })
  · next isStarted =>
    have begun : e.params.startedAt ≠ none := by simpa [Parameters.isStarted] using isStarted
    obtain ⟨started, isStart⟩ := Option.ne_none_iff_exists'.mp begun
    rcases e.params.expire_cases e.now e.config.paramTimeout.toNat with
      ⟨-, -, gives⟩ | ⟨overdue, gives⟩
    · rw [gives]
      exact .inl ⟨rfl, .of_sent_eq rfl⟩
    · rw [gives]
      dsimp only
      split
      · exact .inl (listed e)
      · refine .inr ⟨⟨started, isStart, Nat.not_lt.mp fun late => ?_⟩, rfl⟩
        have incomplete := mt e.params.isComplete_iff.mpr (by simp [unsynced])
        refine incomplete (.inl (overdue ⟨⟨started, isStart, late⟩, ?_⟩))
        by_contra complete
        rw [not_or, not_not, ← ne_eq, Option.ne_none_iff_isSome] at complete
        exact incomplete (.inr complete)

/-- When a pass that begins now asks for a parameter: each pause before it counts. -/
def Schedules (index : UInt16) (time : Nat) : Prop :=
  e.InTime ∧ ∃ k : Nat, e.params.missing[k]? = some index ∧ time = e.now + k * e.pause

def Paces (p : Pass) : Prop :=
  e.InTime ∧ ∃ k : Nat, p.rest = e.params.missing.drop k ∧ p.wake = e.now + k * e.pause

theorem unsynced_advancePhase (phase : e.advancePhase.vehicle.phase = .syncingParameters) :
    e.params.isComplete = false := by
  have settled := e.vehicle.nextPhase_advance e.params.isComplete
  cases synced : e.params.isComplete with
  | false => rfl
  | true =>
    rw [advancePhase, synced] at phase
    rw [synced, phase, Vehicle.nextPhase, phase] at settled
    cases settled

theorem asks_actOnPhase (idle : e.handler.pass = none)
    (unsynced : e.vehicle.phase = .syncingParameters → e.params.isComplete = false) :
    (∀ p ∈ e.actOnPhase.handler.pass, e.Paces p ∧ e.now < p.wake)
      ∧ Asks e.Schedules e e.actOnPhase := by
  by_cases phase : e.vehicle.phase = .syncingParameters
  · have syncs : e.actOnPhase = e.syncParameters := by rw [actOnPhase, phase]
    rw [syncs]
    rcases e.syncParameters_cases (unsynced phase) with ⟨same, silent⟩ | ⟨inTime, begins⟩
    · refine ⟨fun p isPass => ?_, silent.mono fun t none index asks => (none index asks).elim⟩
      rw [same, idle] at isPass
      cases isPass
    · rw [begins]
      refine ⟨fun p isPass => ?_, (asks_requestMissing _ _ e).mono fun t made index asks =>
        ⟨inTime, made index asks⟩⟩
      obtain ⟨paused, wake, index, missing⟩ := pass_requestMissing _ _ e p isPass
      refine ⟨⟨inTime, 1, ?_, by rw [wake, Nat.one_mul]⟩, by omega⟩
      rw [missing, List.drop_one, List.tail_cons]
  · have acts := e.acts_actOnPhase
    refine ⟨fun p isPass => ?_, acts.tries.justified.mono fun t justified index asks => ?_⟩
    · rcases acts.pass p isPass with old | ⟨found, -⟩
      · cases idle.symm.trans old
      · exact absurd found phase
    · rw [asks] at justified
      exact absurd (justifies_requestParameter_iff.mp justified).1 phase

theorem asks_tick (due : e.ticks = true) :
    (∀ p ∈ (e.step .tick).handler.pass, e.advancePhase.Paces p ∧ e.now < p.wake)
      ∧ Asks e.advancePhase.Schedules e (e.step .tick) := by
  rcases e.tick_cases with ⟨early, -⟩ | ⟨t, -, idle, same⟩
  · cases early.symm.trans due
  · rw [step, same, tickHandler]
    exact asks_actOnPhase _ idle e.unsynced_advancePhase

theorem asks_resume {f : Engine} (config : e.config = f.config)
    (paced : ∀ p ∈ e.handler.pass, f.Paces p ∧ e.now ≤ p.wake) :
    (∀ p ∈ (e.step .resume).handler.pass, f.Paces p ∧ e.now < p.wake)
      ∧ Asks f.Schedules e (e.step .resume) := by
  have pause : e.pause = f.pause := by rw [Engine.pause, config, Engine.pause]
  rw [step, resumePass]
  split
  · next p isPass =>
    obtain ⟨⟨inTime, k, rest, wake⟩, notPast⟩ := paced p isPass
    split
    · next awake =>
      have now : e.now = f.now + k * f.pause := by omega
      refine ⟨fun p' isPass' => ?_,
        (asks_requestMissing _ _ e).mono fun t made index asks => ⟨inTime, ?_⟩⟩
      · obtain ⟨paused, wake', index, missing⟩ := pass_requestMissing _ _ e p' isPass'
        refine ⟨⟨inTime, k + 1, ?_, ?_⟩, by omega⟩
        · rw [← List.tail_drop, ← rest, missing, List.tail_cons]
        · rw [wake', now, pause, Nat.succ_mul, Nat.add_assoc]
      · obtain ⟨j, position, time⟩ := made index asks
        rw [rest, List.getElem?_drop] at position
        exact ⟨k + j, position, by rw [time, now, pause, Nat.add_mul, Nat.add_assoc]⟩
    · next asleep =>
      refine ⟨fun p' isPass' => ?_, .refl e⟩
      cases isPass.symm.trans isPass'
      exact ⟨⟨inTime, k, rest, wake⟩, Nat.not_le.mp asleep⟩
  · next idle =>
    refine ⟨fun p isPass => ?_, .refl e⟩
    cases idle.symm.trans isPass

end Engine

end VehicleLink
