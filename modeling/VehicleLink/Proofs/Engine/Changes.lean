import VehicleLink.Proofs.Engine.Interleaving
import VehicleLink.Proofs.Health.Tidings

/-! What each activity changes and tries to send.  Two things can be said of all of them: most only
take in the items they were given, and hardly any of them sends anything. -/

namespace VehicleLink

def Outgoing.isCommand : Outgoing → Bool
  | .command _ _ _ => true
  | _ => false

def Outgoing.isOverride : Outgoing → Bool
  | .overrideChannels _ => true
  | _ => false

theorem Outgoing.isOverride_of_name {m : Outgoing} (h : m.name = "RC_CHANNELS_OVERRIDE") :
    m.isOverride := by
  cases m with
  | overrideChannels => rfl
  | _ => simp [name] at h

namespace Engine

def reading? (e : Engine) (id : Nat) : Option Reader :=
  (e.readers.get? id).filter fun r => !r.closed && !r.ended

/-- The items that an action takes in, oldest first. -/
def items (e : Engine) : Action → List Item
  | .receive item => [item]
  | .call (.datagram bytes) => (Stream.drain e.registry true bytes).1
  | .call (.chunk id bytes) =>
    match e.reading? id with
    | some r =>
      if bytes.isEmpty then (Stream.drain e.registry true r.buffer).1
      else (Stream.drain e.registry false (r.buffer ++ bytes)).1
    | none => []
  | .call (.closeReader id) =>
    match e.reading? id with
    | some r => (Stream.drain e.registry true r.buffer).1
    | none => []
  | _ => []

theorem registry_receiveAll (e : Engine) (items : List Item) :
    (e.receiveAll items).registry = e.registry := by
  obtain ⟨_, _, _, _, _, _, _, _, same⟩ := (Hears.receiveAll e items).rest
  rw [same]

section Readers

variable (e : Engine) (readers : Assoc Nat Reader)

theorem handleFrame_readers (f : Frame) :
    { e with readers }.handleFrame f = { e.handleFrame f with readers } := by
  simp only [handleFrame]
  cases Codec.unpack e.registry f.packet with
  | error => rfl
  | ok m =>
    dsimp only
    cases Incoming.ofMessage m <;> rfl

theorem receive_readers (item : Item) :
    { e with readers }.receive item = { e.receive item with readers } := by
  cases item with
  | ok f =>
    exact handleFrame_readers
      { e with vehicle.telemetry := e.vehicle.telemetry.receive e.registry (.ok f) } readers f
  | error => rfl

theorem receiveAll_readers (items : List Item) :
    { e with readers }.receiveAll items = { e.receiveAll items with readers } := by
  induction items generalizing e with
  | nil => rfl
  | cons item rest ih =>
    rw [receiveAll, List.foldl_cons, receive_readers]
    exact ih _

end Readers

namespace Reads

theorem chunk (e : Engine) (id : Nat) (bytes : List UInt8) :
    Reads (e.receiveAll (e.items (.call (.chunk id bytes)))) (e.chunk id bytes).1 := by
  rw [items, reading?, Engine.chunk]
  cases e.readers.get? id with
  | none => exact refl e
  | some r =>
    cases closed : r.closed with
    | true =>
      simp only [Option.filter_some, closed]
      exact refl e
    | false =>
      cases ended : r.ended with
      | true =>
        simp only [Option.filter_some, closed, ended]
        exact refl e
      | false =>
        simp only [Option.filter_some, closed, ended]
        cases bytes.isEmpty with
        | true => exact endReader _ id _ _
        | false =>
          simp only [feed, Bool.false_eq_true, if_false]
          rw [receiveAll_readers e (e.readers.insert id _)]
          exact of_readers _ _

theorem closeReader (e : Engine) (id : Nat) :
    Reads (e.receiveAll (e.items (.call (.closeReader id)))) (e.closeReader id).1 := by
  rw [items, reading?, Engine.closeReader]
  cases e.readers.get? id with
  | none => exact refl e
  | some r =>
    cases closed : r.closed with
    | true =>
      simp only [Option.filter_some, closed]
      exact refl e
    | false =>
      cases ended : r.ended with
      | true =>
        simp only [Option.filter_some, closed, ended]
        exact of_readers e _
      | false =>
        simp only [Option.filter_some, closed, ended]
        exact endReader _ id _ _

end Reads

def order? (e : Engine) : Action → Option (UInt16 × Arguments)
  | .call (.submit opcode arguments _) => some (opcode, arguments)
  | .call (.setMode mode arm _) =>
    let t := e.vehicle.telemetry
    some (Opcode.setMode, .setMode (mode.or t.mode) (arm.getD t.armed))
  | .call (.setHome latitude longitude altitude relative _) =>
    some (Opcode.setHome, .setHome latitude longitude altitude relative)
  | _ => none

def overriding? (e : Engine) : Action → Option (Option Override)
  | .call (.engageOverride channels timeout) => some (some ⟨channels, timeout, e.now⟩)
  | .call .releaseOverride => some none
  | _ => none

def attempted (e : Engine) : Action → List Attempt
  | .tick => if e.ticks then e.advancePhase.asked else []
  | .resume => e.resumed
  | .resend => if e.overrideTimer.any (·.due ≤ e.now) then e.resent else []
  | .errands ids => e.pursued ids
  | .call (.engageOverride channels _) => [⟨e.target, .overrideChannels channels⟩]
  | .call (.setParam name value) => [⟨e.target, .setParameter name value⟩]
  | .call (.fetchParam index) =>
    { e with nextId := e.nextId + 1 }.fetches index e.config.paramReadAttempts.toNat
  | _ => []

inductive Prompts (e : Engine) : Action → Attempt → Prop
  | tick {m} : e.ticks → e.advancePhase.Justifies m → Prompts e .tick ⟨e.target, m⟩
  | resume {p index} : p ∈ e.handler.pass → index ∈ p.rest →
    Prompts e .resume ⟨p.target, .requestParameter index⟩
  | resend {channels} : Prompts e .resend ⟨e.target, .overrideChannels channels⟩
  | errands {ids index} : Prompts e (.errands ids) ⟨e.target, .requestParameter index⟩
  | engage {channels timeout} :
    Prompts e (.call (.engageOverride channels timeout)) ⟨e.target, .overrideChannels channels⟩
  | set {name value} :
    Prompts e (.call (.setParam name value)) ⟨e.target, .setParameter name value⟩
  | fetch {index} : Prompts e (.call (.fetchParam index)) ⟨e.target, .requestParameter index⟩

namespace Prompts

variable {e : Engine} {action : Action} {a : Attempt}

theorem of_mem (isTried : a ∈ e.attempted action) : e.Prompts action a := by
  obtain ⟨target, m⟩ := a
  cases action with
  | tick =>
    rw [attempted] at isTried
    split at isTried
    · next due =>
      obtain ⟨rfl, justified⟩ := justifies_of_mem_asked isTried
      exact .tick due justified
    · cases isTried
  | resume =>
    obtain ⟨p, isPass, rfl, index, isMember, rfl⟩ := of_mem_resumed isTried
    exact .resume isPass isMember
  | resend =>
    rw [attempted] at isTried
    split at isTried
    · obtain ⟨rfl, channels, rfl⟩ := e.of_mem_resent isTried
      exact .resend
    · cases isTried
  | errands ids =>
    obtain ⟨rfl, index, rfl⟩ := of_mem_resumptions isTried
    exact .errands
  | call request =>
    cases request with
    | engageOverride =>
      cases List.mem_singleton.mp isTried
      exact .engage
    | setParam =>
      cases List.mem_singleton.mp isTried
      exact .set
    | fetchParam =>
      obtain ⟨rfl, rfl⟩ := of_mem_fetches isTried
      exact .fetch
    | _ => cases isTried
  | _ => cases isTried

theorem target (h : e.Prompts action a) :
    a.target = e.target ∨ ∃ p ∈ e.handler.pass, a.target = p.target := by
  cases h with
  | resume isPass => exact .inr ⟨_, isPass, rfl⟩
  | _ => exact .inl rfl

theorem isOverride (h : e.Prompts action a) (other : action ≠ .resend)
    (noOverride : ∀ channels timeout, action ≠ .call (.engageOverride channels timeout)) :
    a.message.isOverride = false := by
  cases h with
  | tick _ justified => cases justified <;> rfl
  | resend => exact absurd rfl other
  | engage => exact absurd rfl (noOverride _ _)
  | _ => rfl

end Prompts

def Action.isSilent : Action → Bool
  | .tick | .resume | .resend | .errands _ => false
  | .call (.engageOverride _ _) | .call (.setParam _ _) | .call (.fetchParam _) => false
  | _ => true

/-- What an action leaves alone when its items have been taken in, unless it is one of those that
are named. -/
structure Keeps (action : Action) (e e' : Engine) : Prop where
  registry : e'.registry = e.registry
  now : (∀ ms, action ≠ .call (.advance ms)) → e'.now = e.now
  vehicle : e'.vehicle = e.vehicle
  params : e'.params = e.params
  events : e'.events = e.events
  monitor : e.monitor.Tells e'.monitor []
  handler : action ≠ .resume → e'.handler = e.handler ∨ e'.handler = ⟨none, none⟩
  pass : ∀ p' ∈ e'.handler.pass, ∃ p ∈ e.handler.pass, p'.target = p.target ∧ p'.rest ⊆ p.rest
  unattempted : e.queue.Unattempted e'.queue
  plan : e.order? action = none → e'.queue.plan = e.queue.plan
  channels : action ≠ .resend → e.overriding? action = none → e'.channels = e.channels
  syslog : action ≠ .call .takeLog → e'.syslog = e.syslog
  press : action.isSilent → e'.press = e.press
  leaves : (∀ name value, action ≠ .call (.setParam name value)) →
    (∀ ids, action ≠ .errands ids) → Leaves e e'

namespace Keeps

variable {action : Action} {e e' : Engine}

theorem refl (action : Action) (e : Engine) : Keeps action e e where
  registry := rfl
  now _ := rfl
  vehicle := rfl
  params := rfl
  events := rfl
  monitor := .refl _
  handler _ := .inl rfl
  pass p isPass := ⟨p, isPass, rfl, List.Subset.refl _⟩
  unattempted := .refl _
  plan _ := rfl
  channels _ _ := rfl
  syslog _ := rfl
  press _ := rfl
  leaves _ _ := .refl e

theorem of_reads {nextId : Nat} (issued : e.nextId ≤ nextId) (h : Reads { e with nextId } e') :
    Keeps action e e' := by
  have counted : Leaves e { e with nextId } := .of_le issued rfl rfl
  have leaves := counted.trans (.of_reads h)
  obtain ⟨_, _, rfl, -⟩ := h
  exact { refl action e with leaves := fun _ _ => leaves }

theorem of_errs {tried : List Attempt} {nextId : Nat} (h : Errs tried { e with nextId } e')
    (silent : action.isSilent → tried = [])
    (leaves : (∀ name value, action ≠ .call (.setParam name value)) →
      (∀ ids, action ≠ .errands ids) → Leaves e e') : Keeps action e e' := by
  have tries := h.tries
  obtain ⟨_, _, _, rfl⟩ := h.rest
  exact { refl action e with
    press := fun isSilent => tries.press_eq (silent isSilent)
    leaves }

theorem submit (e : Engine) {opcode : UInt16} {arguments : Arguments} (watched : Bool)
    (order : e.order? action = some (opcode, arguments)) :
    Keeps action e (e.submit opcode arguments watched).1 := by
  have ordered {P : Prop} (none : e.order? action = none) : P := nomatch order.symm.trans none
  rw [Engine.submit]
  split
  · exact { refl action e with
      unattempted := .push _ _ _ _
      plan := ordered
      leaves := fun _ _ => .of_le (Nat.le_succ _) rfl rfl }
  · exact { refl action e with
      unattempted := .push _ _ _ _
      plan := ordered
      leaves := fun _ _ => .of_eq rfl rfl rfl }

theorem attend (e : Engine) (subscribers : List Subscriber) (last : Option LastCommand)
    (receiver : Receiver) (held : List (List UInt8)) :
    Keeps action e
      { e with
        subscribers
        queue.last := last
        outbound.receiver := receiver
        outbound.held := held } :=
  { refl action e with leaves := fun _ _ => .of_eq rfl rfl rfl }

theorem engageOverride (e : Engine) (channels : Channels) (timeout : Nat) :
    Keeps (.call (.engageOverride channels timeout)) e (e.engageOverride channels timeout).1 := by
  obtain ⟨_, same⟩ := e.engageOverride_eq channels timeout
  rw [same]
  exact { refl _ e with
    channels := nofun
    press := nofun
    leaves := fun _ _ => .of_eq rfl rfl rfl }

theorem takeRaw (e : Engine) (index : Nat) : Keeps action e (e.takeRaw index).1 := by
  rw [Engine.takeRaw]
  split
  · exact attend e _ _ _ _
  · exact refl _ e

theorem shutdown (e : Engine) : Keeps action e e.shutdown := by
  have ended := Reads.endAllReaders
    { e with
      monitor := e.monitor.cancel
      handler := ⟨none, none⟩
      overrideTimer := none
      cancelled := true }
  rw [← Engine.shutdown] at ended
  have leaves := Leaves.of_reads ended
  obtain ⟨_, _, same, -⟩ := ended
  rw [same] at leaves ⊢
  exact { refl _ e with
    monitor := .cancel _
    handler := fun _ => .inr rfl
    pass := nofun
    leaves := fun _ _ => ⟨leaves.nextId, leaves.jobs, leaves.finished⟩ }

theorem call (e : Engine) {request : Request} (noRefresh : request ≠ .refresh) :
    Keeps (.call request) (e.receiveAll (e.items (.call request))) (e.step (.call request)) := by
  have counted : Leaves e { e with nextId := e.nextId + 1 } := .of_le (Nat.le_succ _) rfl rfl
  cases request with
  | refresh => exact absurd rfl noRefresh
  | advance ms =>
    exact { refl _ e with
      now := fun noWait => absurd rfl (noWait ms)
      leaves := fun _ _ => .of_eq rfl rfl rfl }
  | datagram => exact refl _ _
  | submit => exact submit e _ rfl
  | setMode => exact submit e _ rfl
  | setHome => exact submit e _ rfl
  | engageOverride channels timeout => exact engageOverride e channels timeout
  | releaseOverride =>
    exact { refl _ e with
      channels := nofun
      leaves := fun _ _ => .of_eq rfl rfl rfl }
  | setParam name value =>
    exact of_errs (.setParam _ e.nextId name value) nofun fun other _ =>
      absurd rfl (other name value)
  | fetchParam index =>
    have queries := Queries.fetchParam { e with nextId := e.nextId + 1 } e.nextId index
      e.config.paramReadAttempts.toNat
    exact of_errs queries.toErrs nofun fun _ _ => counted.trans queries.toLeaves
  | awaitParams attempts delay =>
    have queries := Queries.awaitParams { e with nextId := e.nextId + 1 } e.nextId delay attempts
    exact of_errs queries.toErrs (fun _ => rfl) fun _ _ => counted.trans queries.toLeaves
  | takeLog =>
    exact { refl _ e with
      syslog := fun other => absurd rfl other
      leaves := fun _ _ => .of_eq rfl rfl rfl }
  | clearLast | subscribe | closeOutbound | drainOutbound => exact attend e _ _ _ _
  | takeRaw index => exact takeRaw e index
  | openReader => exact of_reads (Nat.le_succ _) (.openReader _ _)
  | chunk id bytes => exact of_reads (Nat.le_refl _) (.chunk e id bytes)
  | failRead id reason => exact of_reads (Nat.le_refl _) (.failRead e id reason)
  | closeReader id => exact of_reads (Nat.le_refl _) (.closeReader e id)
  | shutdown => exact shutdown e

theorem resumePass (e : Engine) : Keeps .resume e e.resumePass := by
  obtain ⟨_, _, same, within⟩ := e.resumePass_eq
  rw [same]
  exact { refl _ e with
    handler := fun other => absurd rfl other
    pass := within
    press := nofun
    leaves := fun _ _ => .of_eq rfl rfl rfl }

theorem runOverride (e : Engine) : Keeps .resend e e.runOverride := by
  obtain ⟨_, _, _, same, -⟩ := e.runOverride_eq
  rw [same]
  exact { refl _ e with
    channels := fun other => absurd rfl other
    press := nofun
    leaves := fun _ _ => .of_eq rfl rfl rfl }

end Keeps

/-- Apart from taking in its items only four actions do anything to what is known of the vehicle:
the ticks of the handler, the watchdogs, the health task, and a refresh of the parameters. -/
theorem step_parts (e : Engine) (action : Action) :
    action = .tick ∨ action = .deliver ∨ action = .call .refresh ∨ (∃ kinds, action = .watch kinds)
      ∨ Keeps action (e.receiveAll (e.items action)) (e.step action) := by
  cases action with
  | tick => exact .inl rfl
  | deliver => exact .inr (.inl rfl)
  | watch kinds => exact .inr (.inr (.inr (.inl ⟨kinds, rfl⟩)))
  | receive item => exact .inr (.inr (.inr (.inr (.refl _ _))))
  | resume => exact .inr (.inr (.inr (.inr (.resumePass e))))
  | resend => exact .inr (.inr (.inr (.inr (.runOverride e))))
  | errands ids =>
    exact .inr (.inr (.inr (.inr (.of_errs (e.errs_runErrands ids) nofun fun _ other =>
      absurd rfl (other ids)))))
  | call request =>
    by_cases refreshes : request = .refresh
    · exact .inr (.inr (.inl (congrArg _ refreshes)))
    · exact .inr (.inr (.inr (.inr (.call e refreshes))))

theorem tries_call (e : Engine) (request : Request) :
    Tries (e.attempted (.call request)) e (e.step (.call request)) := by
  have press_eq (isSilent : (Action.call request).isSilent) (noRefresh : request ≠ .refresh) :
      (e.step (.call request)).press = e.press :=
    ((Keeps.call e noRefresh).press isSilent).trans (Hears.receiveAll e _).press_eq
  cases request with
  | engageOverride channels timeout =>
    let engaged := { e with channels := some ⟨channels, timeout, e.now⟩ }
    exact .after (.send engaged engaged.target (.overrideChannels channels)) rfl
  | setParam name value =>
    have errs := Errs.setParam { e with nextId := e.nextId + 1 } e.nextId name value
    exact errs.tries.after rfl
  | fetchParam index =>
    have queries := Queries.fetchParam { e with nextId := e.nextId + 1 } e.nextId index
      e.config.paramReadAttempts.toNat
    exact queries.tries.after rfl
  | refresh => exact .rest rfl
  | _ => exact .rest (press_eq rfl Request.noConfusion)

theorem tries_step (e : Engine) (action : Action) :
    Tries (e.attempted action) e (e.step action) := by
  cases action with
  | tick =>
    rw [attempted, step]
    rcases runTicks_one e with ⟨early, same⟩ | ⟨due, ticked⟩
    · rw [same, if_neg (by simp [early])]
      exact .refl e
    · rw [if_pos due]
      exact ticked.tries
  | resume => exact tries_resumePass e
  | resend => exact e.tries_runOverride
  | errands ids => exact (e.errs_runErrands ids).tries
  | receive item => exact .rest (Hears.receive e item).press_eq
  | watch kinds => exact .rest rfl
  | deliver =>
    obtain ⟨_, _, _, same⟩ := e.applyNext_eq
    rw [step, same]
    exact .rest rfl
  | call request => exact e.tries_call request

end Engine

end VehicleLink
