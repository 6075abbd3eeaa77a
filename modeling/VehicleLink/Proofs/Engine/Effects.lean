import VehicleLink.Engine.Session
import VehicleLink.Proofs.Command.Moves
import VehicleLink.Proofs.Engine.Attempts

namespace VehicleLink

namespace Queue

/-- The commands, whatever has been answered to them, and how many have come so far. -/
def plan (q : Queue) : List Command × Nat :=
  (q.pending.map fun c => { c with status := .pending }, q.arrivals)

theorem exists_of_plan_eq {q q' : Queue} (h : q'.plan = q.plan) {c' : Command}
    (isPending : c' ∈ q'.pending) : ∃ c ∈ q.pending, c' = { c with status := c'.status } := by
  have planned : { c' with status := .pending } ∈ q'.plan.1 := List.mem_map_of_mem isPending
  rw [h] at planned
  obtain ⟨c, isPending, same⟩ := List.mem_map.mp planned
  refine ⟨c, isPending, ?_⟩
  cases c
  cases c'
  simpa [eq_comm] using same

theorem plan_acknowledge (q : Queue) (opcode : UInt16) (status : AckStatus) :
    (q.acknowledge opcode status).1.plan = q.plan := by
  rw [acknowledge]
  split
  · next pending =>
    split
    · simp [plan, pending]
    · rfl
  · rfl

end Queue

/-- No attempt to send was made meanwhile: whatever was attempted had been attempted as often
before. -/
def Queue.Unattempted (q q' : Queue) : Prop :=
  ∀ c' ∈ q'.pending, 0 < c'.attempts →
    ∃ c ∈ q.pending, c.arrival = c'.arrival ∧ c.attempts = c'.attempts

namespace Queue.Unattempted

variable {q q' q'' : Queue}

theorem of_pending_eq (h : q'.pending = q.pending) : q.Unattempted q' :=
  fun c isPending _ => ⟨c, h ▸ isPending, rfl, rfl⟩

theorem refl (q : Queue) : q.Unattempted q := of_pending_eq rfl

theorem trans (h : q.Unattempted q') (h' : q'.Unattempted q'') : q.Unattempted q'' := by
  intro c'' isPending attempted
  obtain ⟨c', isPending', same', tries'⟩ := h' c'' isPending attempted
  obtain ⟨c, isPending, same, tries⟩ := h c' isPending' (tries' ▸ attempted)
  exact ⟨c, isPending, same.trans same', tries.trans tries'⟩

theorem push (q : Queue) (opcode : UInt16) (arguments : Arguments) (handle : Option Nat) :
    q.Unattempted (q.push opcode arguments handle) := by
  intro c isPending attempted
  rcases List.mem_cons.mp ((enqueue_perm _ _).mem_iff.mp isPending) with rfl | old
  · exact absurd attempted (Nat.lt_irrefl 0)
  · exact ⟨c, old, rfl, rfl⟩

theorem of_plan_eq (h : q'.plan = q.plan) : q.Unattempted q' := by
  intro c' isPending _
  obtain ⟨c, isPending, same⟩ := exists_of_plan_eq h isPending
  rw [same]
  exact ⟨c, isPending, rfl, rfl⟩

end Queue.Unattempted

def Errand.isVerify : Errand → Bool
  | .verify _ _ => true
  | _ => false

def Result.isSet : Result → Bool
  | .set _ => true
  | _ => false

namespace Engine

/-- No parameter is set or read back. -/
structure Leaves (e e' : Engine) : Prop where
  nextId : e.nextId ≤ e'.nextId
  jobs : ∀ j ∈ e'.jobs, j.errand.isVerify → j ∈ e.jobs
  finished : ∀ d ∈ e'.finished, d.result.isSet → d ∈ e.finished

namespace Leaves

variable {e e' e'' : Engine}

theorem of_le (nextId : e.nextId ≤ e'.nextId) (jobs : e'.jobs = e.jobs)
    (finished : e'.finished = e.finished) : Leaves e e' :=
  ⟨nextId, fun _ isJob _ => jobs ▸ isJob, fun _ isDone _ => finished ▸ isDone⟩

theorem of_eq (nextId : e'.nextId = e.nextId) (jobs : e'.jobs = e.jobs)
    (finished : e'.finished = e.finished) : Leaves e e' :=
  of_le (Nat.le_of_eq nextId.symm) jobs finished

theorem refl (e : Engine) : Leaves e e := of_eq rfl rfl rfl

theorem trans (h : Leaves e e') (h' : Leaves e' e'') : Leaves e e'' where
  nextId := Nat.le_trans h.nextId h'.nextId
  jobs j isJob verifies := h.jobs j (h'.jobs j isJob verifies) verifies
  finished d isDone isSet := h.finished d (h'.finished d isDone isSet) isSet

theorem finish (e : Engine) (id : Nat) {result : Result} (other : result.isSet = false) :
    Leaves e (e.finish id result) where
  nextId := Nat.le_refl _
  jobs _ isJob _ := isJob
  finished := by
    rintro d isDone isSet
    rcases List.mem_cons.mp isDone with rfl | old
    · cases other.symm.trans isSet
    · exact old

theorem sleep (e : Engine) (id delay : Nat) {errand : Errand} (other : errand.isVerify = false) :
    Leaves e (e.sleep id delay errand) where
  nextId := Nat.le_refl _
  jobs := by
    rintro j isJob verifies
    rcases List.mem_append.mp isJob with old | new
    · exact old
    · obtain rfl := List.mem_singleton.mp new
      cases other.symm.trans verifies
  finished _ isDone _ := isDone

theorem send (e : Engine) (m : Outgoing) : Leaves e (e.send m).1 := by
  obtain ⟨outbound, same⟩ := sendTo_eq e e.target m
  rw [Engine.send, same]
  exact of_eq rfl rfl rfl

end Leaves

def fetches (e : Engine) (index : UInt16) : Nat → List Attempt
  | 0 => []
  | attempts + 1 =>
    if (e.params.atIndex? index).isSome then []
    else
      ⟨e.target, .requestParameter index⟩ ::
        match e.send (.requestParameter index) with
        | (_, .error _) => []
        | (e, .ok _) =>
          if e.config.paramReadDelay.toNat = 0 then fetches e index attempts else []

def resumption (e : Engine) (j : Job) : List Attempt :=
  match j.errand with
  | .fetch index attempts => e.fetches index attempts
  | _ => []

def resumptions (e : Engine) : List Job → List Attempt
  | [] => []
  | j :: rest => e.resumption j ++ (e.resumeJob j).resumptions rest

/-- Errands may change what is asleep and what has finished, and try to send some messages. -/
structure Errs (tried : List Attempt) (e e' : Engine) : Prop where
  rest : ∃ outbound jobs finished, e' = { e with outbound, jobs, finished }
  tries : Tries tried e e'

namespace Errs

variable {tried tried' : List Attempt} {e e' e'' : Engine}

theorem refl (e : Engine) : Errs [] e e := ⟨⟨_, _, _, rfl⟩, .refl e⟩

theorem trans (h : Errs tried e e') (h' : Errs tried' e' e'') : Errs (tried ++ tried') e e'' := by
  refine ⟨?_, h.tries.trans h'.tries⟩
  obtain ⟨_, _, _, rfl⟩ := h.rest
  obtain ⟨_, _, _, rfl⟩ := h'.rest
  exact ⟨_, _, _, rfl⟩

theorem finish (e : Engine) (id : Nat) (result : Result) : Errs [] e (e.finish id result) :=
  ⟨⟨_, _, _, rfl⟩, .rest rfl⟩

theorem sleep (e : Engine) (id delay : Nat) (errand : Errand) :
    Errs [] e (e.sleep id delay errand) :=
  ⟨⟨_, _, _, rfl⟩, .rest rfl⟩

theorem send (e : Engine) (m : Outgoing) : Errs [⟨e.target, m⟩] e (e.send m).1 := by
  refine ⟨?_, .send e e.target m⟩
  obtain ⟨outbound, same⟩ := sendTo_eq e e.target m
  exact ⟨outbound, _, _, same⟩

theorem verify (e : Engine) (id : Nat) (name : String) (value : Single) :
    Errs [] e (e.verify id name value) :=
  finish e id _

theorem setParam (e : Engine) (id : Nat) (name : String) (value : Single) :
    Errs [⟨e.target, .setParameter name value⟩] e (e.setParam id name value) := by
  have sent := send e (.setParameter name value)
  rw [Engine.setParam]
  split
  · next sending =>
    rw [sending] at sent
    exact sent.trans (finish _ _ _)
  · next sending =>
    rw [sending] at sent
    dsimp only
    split
    · exact sent.trans (verify _ _ _ _)
    · exact sent.trans (sleep _ _ _ _)

end Errs

/-- Errands that set no parameter. -/
structure Queries (tried : List Attempt) (e e' : Engine) : Prop
    extends Errs tried e e', Leaves e e'

namespace Queries

variable {tried tried' : List Attempt} {e e' e'' : Engine}

theorem trans (h : Queries tried e e') (h' : Queries tried' e' e'') :
    Queries (tried ++ tried') e e'' :=
  ⟨h.toErrs.trans h'.toErrs, h.toLeaves.trans h'.toLeaves⟩

theorem finish (e : Engine) (id : Nat) {result : Result} (other : result.isSet = false) :
    Queries [] e (e.finish id result) :=
  ⟨.finish e id result, .finish e id other⟩

theorem sleep (e : Engine) (id delay : Nat) {errand : Errand} (other : errand.isVerify = false) :
    Queries [] e (e.sleep id delay errand) :=
  ⟨.sleep e id delay errand, .sleep e id delay other⟩

theorem send (e : Engine) (m : Outgoing) : Queries [⟨e.target, m⟩] e (e.send m).1 :=
  ⟨.send e m, .send e m⟩

theorem fetchParam (e : Engine) (id : Nat) (index : UInt16) (attempts : Nat) :
    Queries (e.fetches index attempts) e (e.fetchParam id index attempts) := by
  induction attempts generalizing e with
  | zero => exact finish _ _ rfl
  | succ attempts ih =>
    have sent := send e (.requestParameter index)
    rw [Engine.fetchParam, fetches]
    cases e.params.atIndex? index with
    | some value => exact finish _ _ rfl
    | none =>
      rw [if_neg (by simp)]
      cases attempted : e.send (.requestParameter index) with
      | mk after result =>
        rw [attempted] at sent
        cases result with
        | error => exact sent.trans (finish _ _ rfl)
        | ok =>
          dsimp only
          split
          · exact sent.trans (ih _)
          · exact sent.trans (sleep _ _ _ rfl)

theorem awaitParams (e : Engine) (id delay attempts : Nat) :
    Queries [] e (e.awaitParams id delay attempts) := by
  induction attempts generalizing e with
  | zero => exact finish _ _ rfl
  | succ attempts ih =>
    rw [Engine.awaitParams]
    split
    · exact finish _ _ rfl
    · split
      · exact ih e
      · exact sleep _ _ _ rfl

end Queries

namespace Errs

variable {tried : List Attempt} {e e' : Engine}

theorem resumeJob (e : Engine) (j : Job) : Errs (e.resumption j) e (e.resumeJob j) := by
  rw [resumption, Engine.resumeJob]
  cases j.errand with
  | verify name value => exact verify _ _ _ _
  | fetch index attempts => exact (Queries.fetchParam _ _ _ _).toErrs
  | await attempts delay => exact (Queries.awaitParams _ _ _ _).toErrs

theorem resumeJobs (jobs : List Job) (e : Engine) :
    Errs (e.resumptions jobs) e (jobs.foldl Engine.resumeJob e) := by
  induction jobs generalizing e with
  | nil => exact refl e
  | cons j rest ih => exact (resumeJob e j).trans (ih _)

theorem target_eq (h : Errs tried e e') : e'.target = e.target := by
  obtain ⟨_, _, _, rfl⟩ := h.rest
  rfl

end Errs

theorem Leaves.resumeJob (e : Engine) {j : Job} (other : j.errand.isVerify = false) :
    Leaves e (e.resumeJob j) := by
  rw [Engine.resumeJob]
  split
  · next errand =>
    rw [errand] at other
    cases other
  · exact (Queries.fetchParam e _ _ _).toLeaves
  · exact (Queries.awaitParams e _ _ _).toLeaves

theorem of_mem_fetches {e : Engine} {index : UInt16} {attempts : Nat} {a : Attempt}
    (isTried : a ∈ e.fetches index attempts) :
    a.target = e.target ∧ a.message = .requestParameter index := by
  induction attempts generalizing e with
  | zero => cases isTried
  | succ attempts ih =>
    have sent := Errs.send e (.requestParameter index)
    rw [fetches] at isTried
    split at isTried
    · cases isTried
    rcases List.mem_cons.mp isTried with rfl | later
    · exact ⟨rfl, rfl⟩
    split at later
    · cases later
    next attempted =>
    rw [attempted] at sent
    split at later
    · exact (ih later).imp_left (·.trans sent.target_eq)
    · cases later

theorem of_mem_resumptions {e : Engine} {jobs : List Job} {a : Attempt}
    (isTried : a ∈ e.resumptions jobs) :
    a.target = e.target ∧ ∃ index, a.message = .requestParameter index := by
  induction jobs generalizing e with
  | nil => cases isTried
  | cons j rest ih =>
    rcases List.mem_append.mp isTried with first | later
    · rw [resumption] at first
      split at first
      · exact (of_mem_fetches first).imp_right fun asks => ⟨_, asks⟩
      · cases first
    · exact (ih later).imp_left (·.trans (Errs.resumeJob e j).target_eq)

def Reads (e e' : Engine) : Prop :=
  ∃ readers finished, e' = { e with readers, finished }
    ∧ ∀ d ∈ finished, d ∈ e.finished ∨ ∃ result, d.result = .read result

namespace Reads

variable {e e' e'' : Engine}

theorem of_readers (e : Engine) (readers : Assoc Nat Reader) : Reads e { e with readers } :=
  ⟨_, _, rfl, fun _ isDone => .inl isDone⟩

theorem refl (e : Engine) : Reads e e := of_readers e e.readers

theorem trans (h : Reads e e') (h' : Reads e' e'') : Reads e e'' := by
  obtain ⟨_, _, rfl, told⟩ := h
  obtain ⟨_, _, rfl, told'⟩ := h'
  exact ⟨_, _, rfl, fun d isDone => (told' d isDone).elim (told d) .inr⟩

theorem finish (e : Engine) (id : Nat) (result : Except WireError Unit) :
    Reads e (e.finish id (.read result)) := by
  refine ⟨_, _, rfl, fun d isDone => ?_⟩
  rcases List.mem_cons.mp isDone with rfl | old
  · exact .inr ⟨result, rfl⟩
  · exact .inl old

theorem endReader (e : Engine) (id : Nat) (r : Reader) (result : Except WireError Unit) :
    Reads e (e.endReader id r result) :=
  (of_readers e _).trans (finish _ id result)

theorem failRead (e : Engine) (id : Nat) (reason : String) : Reads e (e.failRead id reason).1 := by
  rw [Engine.failRead]
  split
  · exact refl e
  · repeat' split
    · exact refl e
    · exact refl e
    · exact endReader e id _ _

theorem openReader (e : Engine) (id : Nat) : Reads e (e.openReader id) := by
  rw [Engine.openReader]
  dsimp only
  split
  · exact (of_readers e _).trans (finish _ id _)
  · exact of_readers e _

theorem endAllReaders (e : Engine) : Reads e e.endAllReaders := by
  rw [Engine.endAllReaders]
  generalize e.readers.entries = entries
  induction entries generalizing e with
  | nil => exact refl e
  | cons entry rest ih =>
    refine trans ?_ (ih _)
    dsimp only
    split
    · exact refl e
    · exact endReader e _ _ _

end Reads

theorem Leaves.of_reads {e e' : Engine} (h : Reads e e') : Leaves e e' := by
  obtain ⟨_, _, rfl, told⟩ := h
  refine ⟨Nat.le_refl _, fun _ isJob _ => isJob, fun d isDone isSet => ?_⟩
  rcases told d isDone with old | ⟨_, isRead⟩
  · exact old
  · rw [isRead] at isSet
    cases isSet

/-- What is received may change anything but the phase and the link, what is to be sent and what
runs by itself. -/
structure Hears (e e' : Engine) : Prop where
  rest : ∃ telemetry capabilities params queue monitor events syslog subscribers,
    e' = { e with
      vehicle := { e.vehicle with telemetry, capabilities }
      params, queue, monitor, events, syslog, subscribers }
  known : e.vehicle.capabilities.isSome → e'.vehicle.capabilities.isSome
  plan : e'.queue.plan = e.queue.plan

namespace Hears

variable {e e' e'' : Engine}

theorem refl (e : Engine) : Hears e e := ⟨⟨_, _, _, _, _, _, _, _, rfl⟩, id, rfl⟩

theorem trans (h : Hears e e') (h' : Hears e' e'') : Hears e e'' := by
  refine ⟨?_, fun some => h'.known (h.known some), h'.plan.trans h.plan⟩
  obtain ⟨_, _, _, _, _, _, _, _, rfl⟩ := h.rest
  obtain ⟨_, _, _, _, _, _, _, _, rfl⟩ := h'.rest
  exact ⟨_, _, _, _, _, _, _, _, rfl⟩

theorem press_eq (h : Hears e e') : e'.press = e.press := by
  obtain ⟨_, _, _, _, _, _, _, _, rfl⟩ := h.rest
  rfl

theorem see (e : Engine) (kind : UInt8) : Hears e (e.see kind) :=
  ⟨⟨_, _, _, _, _, _, _, _, rfl⟩, id, rfl⟩

theorem act (e : Engine) (m : Incoming) : Hears e (e.act m) := by
  cases m with
  | heartbeat => exact refl e
  | acknowledgement opcode status =>
    exact ⟨⟨_, _, _, _, _, _, _, _, rfl⟩, id, e.queue.plan_acknowledge _ _⟩
  | capabilities => exact ⟨⟨_, _, _, _, _, _, _, _, rfl⟩, fun _ => rfl, rfl⟩
  | parameter => exact ⟨⟨_, _, _, _, _, _, _, _, rfl⟩, id, rfl⟩
  | log => exact ⟨⟨_, _, _, _, _, _, _, _, rfl⟩, id, rfl⟩
  | other => exact refl e

theorem handleFrame (e : Engine) (f : Frame) : Hears e (e.handleFrame f) := by
  have fanned : Hears e { e with subscribers := e.subscribers.map (·.offer f.raw) } :=
    ⟨⟨_, _, _, _, _, _, _, _, rfl⟩, id, rfl⟩
  rw [Engine.handleFrame]
  split
  · exact fanned.trans ((see _ _).trans (act _ _))
  · exact fanned

theorem receive (e : Engine) (item : Item) : Hears e (e.receive item) := by
  have noted : Hears e
      { e with vehicle.telemetry := e.vehicle.telemetry.receive e.registry item } :=
    ⟨⟨_, _, _, _, _, _, _, _, rfl⟩, id, rfl⟩
  cases item with
  | ok f => exact noted.trans (handleFrame _ f)
  | error => exact noted

theorem receiveAll (e : Engine) (items : List Item) : Hears e (e.receiveAll items) := by
  induction items generalizing e with
  | nil => exact refl e
  | cons item rest ih => exact (receive e item).trans (ih _)

end Hears

theorem applyNext_eq (e : Engine) :
    ∃ vehicle params events, e.applyNext = { e with vehicle, params, events } := by
  rw [applyNext]
  split
  · rw [applyHealth]
    repeat' split
    all_goals exact ⟨_, _, _, rfl⟩
  · exact ⟨_, _, _, rfl⟩

section Overriding

variable (e : Engine)

theorem engageOverride_eq (channels : Channels) (timeout : Nat) :
    ∃ outbound, (e.engageOverride channels timeout).1 =
      { e with channels := some ⟨channels, timeout, e.now⟩, outbound } :=
  sendTo_eq { e with channels := some ⟨channels, timeout, e.now⟩ } e.target
    (.overrideChannels channels)

theorem runOverride_cases :
    (∃ overrideTimer channels, e.runOverride = { e with overrideTimer, channels }
        ∧ ∀ o ∈ channels, o ∈ e.channels)
      ∨ ∃ overrideTimer, ∃ o ∈ e.channels, o.hasExpired e.now = false
        ∧ e.runOverride =
          ({ e with overrideTimer }.sendTo e.target (.overrideChannels o.channels)).1 := by
  rw [runOverride]
  split
  · next timer _ =>
    split
    · rw [resendOverride]
      split
      · exact .inl ⟨_, _, rfl, fun _ isEngaged => isEngaged⟩
      · next o engaged =>
        split
        · exact .inl ⟨_, none, rfl, nofun⟩
        · next lasts => exact .inr ⟨_, o, engaged, by simpa using lasts, rfl⟩
    · exact .inl ⟨_, _, rfl, fun _ isEngaged => isEngaged⟩
  · exact .inl ⟨_, _, rfl, fun _ isEngaged => isEngaged⟩

theorem runOverride_eq :
    ∃ overrideTimer channels outbound,
      e.runOverride = { e with overrideTimer, channels, outbound }
        ∧ ∀ o ∈ channels, o ∈ e.channels := by
  rcases e.runOverride_cases with ⟨_, _, same, kept⟩ | ⟨overrideTimer, o, -, -, same⟩
  · rw [same]
    exact ⟨_, _, e.outbound, rfl, kept⟩
  · obtain ⟨outbound, sent⟩ :=
      sendTo_eq { e with overrideTimer } e.target (.overrideChannels o.channels)
    exact ⟨_, _, outbound, same.trans sent, fun _ isEngaged => isEngaged⟩

def resent (e : Engine) : List Attempt :=
  match e.channels with
  | none => []
  | some o => if o.hasExpired e.now then [] else [⟨e.target, .overrideChannels o.channels⟩]

theorem of_mem_resent {a : Attempt} (isTried : a ∈ e.resent) :
    a.target = e.target ∧ ∃ channels, a.message = .overrideChannels channels := by
  rw [resent] at isTried
  split at isTried
  · cases isTried
  · split at isTried
    · cases isTried
    · obtain rfl := List.mem_singleton.mp isTried
      exact ⟨rfl, _, rfl⟩

theorem tries_resendOverride : Tries e.resent e e.resendOverride := by
  rw [resent, resendOverride]
  cases e.channels with
  | none => exact .refl e
  | some o =>
    dsimp only
    split
    · exact .rest rfl
    · exact .send e _ _

theorem tries_runOverride :
    Tries (if e.overrideTimer.any (·.due ≤ e.now) then e.resent else []) e e.runOverride := by
  rw [runOverride]
  cases e.overrideTimer with
  | none => exact .refl e
  | some timer =>
    simp only [Option.any_some, decide_eq_true_eq]
    split
    · exact (tries_resendOverride { e with overrideTimer := some (timer.next e.now) }).after rfl
    · exact .refl e

end Overriding

end Engine

end VehicleLink
