import VehicleLink.Engine.Basic

/-! The attempts of an engine to send messages, and the frames that come of them.  An attempt that
fails puts nothing on the link, but spends its number as well. -/

namespace VehicleLink

structure Attempt where
  target : Target
  message : Outgoing
  deriving DecidableEq

namespace Engine

def Emits (P : Transmission → Prop) (e e' : Engine) : Prop :=
  ∃ new, e'.outbound.sent = new ++ e.outbound.sent ∧ ∀ t ∈ new, P t

namespace Emits

variable {P Q : Transmission → Prop} {e e' e'' : Engine}

theorem of_sent_eq (h : e'.outbound.sent = e.outbound.sent) : Emits P e e' :=
  ⟨[], h, by simp⟩

theorem refl (e : Engine) : Emits P e e := of_sent_eq rfl

theorem mono (h : Emits P e e') (weaker : ∀ t, P t → Q t) : Emits Q e e' := by
  obtain ⟨new, sent, holds⟩ := h
  exact ⟨new, sent, fun t isNew => weaker t (holds t isNew)⟩

theorem trans (h : Emits P e e') (h' : Emits P e' e'') : Emits P e e'' := by
  obtain ⟨new, sent, holds⟩ := h
  obtain ⟨new', sent', holds'⟩ := h'
  refine ⟨new' ++ new, by rw [sent', sent, List.append_assoc], ?_⟩
  intro t isNew
  exact (List.mem_append.mp isNew).elim (holds' t) (holds t)

theorem and (h : Emits P e e') (h' : Emits Q e e') : Emits (fun t => P t ∧ Q t) e e' := by
  obtain ⟨new, sent, holds⟩ := h
  obtain ⟨new', sent', holds'⟩ := h'
  obtain rfl : new = new' := List.append_cancel_right (sent.symm.trans sent')
  exact ⟨new, sent, fun t isNew => ⟨holds t isNew, holds' t isNew⟩⟩

end Emits

section Sending

variable (e : Engine) (target : Target) (m : Outgoing)

theorem of_offer {o o' : Outbound} {t : Transmission} (h : Outbound.offer o t = .ok o') :
    o'.attempts = o.attempts ∧ o'.sent = t :: o.sent := by
  rw [Outbound.offer] at h
  split at h
  · cases h
  · cases h
    exact ⟨rfl, rfl⟩
  · split at h
    · cases h
      exact ⟨rfl, rfl⟩
    · cases h

theorem sendTo_eq : ∃ outbound : Outbound, (e.sendTo target m).1 = { e with outbound } := by
  rw [sendTo]
  split
  · exact ⟨_, rfl⟩
  · split <;> exact ⟨_, rfl⟩

theorem attempts_sendTo :
    (e.sendTo target m).1.outbound.attempts = e.outbound.attempts + 1 := by
  rw [sendTo]
  split
  · rfl
  · split
    · rfl
    · next offered => exact (of_offer offered).1

theorem sent_sendTo :
    (e.sendTo target m).1.outbound.sent = e.outbound.sent
      ∨ ∃ frame, e.frame m target = .ok frame
        ∧ (e.sendTo target m).1.outbound.sent =
          ⟨e.now, e.outbound.attempts, m, target, frame⟩ :: e.outbound.sent := by
  rw [sendTo]
  split
  · exact .inl rfl
  · next frame framed =>
    split
    · exact .inl rfl
    · next offered => exact .inr ⟨frame, framed, (of_offer offered).2⟩

theorem sendTo_cases (target : Target) (m : Outgoing) :
    (∃ outbound cause, e.sendTo target m = ({ e with outbound }, .error cause))
      ∨ ∃ outbound : Outbound, (∃ t, outbound.sent = t :: e.outbound.sent ∧ t.message = m
          ∧ t.target = target)
        ∧ e.sendTo target m = ({ e with outbound }, .ok ()) := by
  rw [sendTo]
  split
  · exact .inl ⟨_, _, rfl⟩
  · split
    · exact .inl ⟨_, _, rfl⟩
    · next outbound offered =>
      exact .inr ⟨outbound, ⟨_, (of_offer offered).2, rfl, rfl⟩, rfl⟩

theorem emits_sendTo : Emits (fun t => t.message = m ∧ t.time = e.now) e (e.sendTo target m).1 := by
  rcases sent_sendTo e target m with none | ⟨frame, -, one⟩
  · exact .of_sent_eq none
  · refine ⟨[_], one, ?_⟩
    rintro t isNew
    obtain rfl := List.mem_singleton.mp isNew
    exact ⟨rfl, rfl⟩

end Sending

/-- What frames are made with, and those that have been put on the link. -/
def press (e : Engine) : Registry × EngineConfig × Nat × List Transmission :=
  (e.registry, e.config, e.outbound.attempts, e.outbound.sent)

/-- These are all the attempts to send that are made meanwhile, one after the other. -/
inductive Tries : List Attempt → Engine → Engine → Prop
  | rest {e e'} : e'.press = e.press → Tries [] e e'
  | send (e target m) : Tries [⟨target, m⟩] e (e.sendTo target m).1
  | trans {tried tried' e e' e''} : Tries tried e e' → Tries tried' e' e'' →
    Tries (tried ++ tried') e e''

def Prints (e : Engine) (t : Transmission) : Prop :=
  { e with outbound.attempts := t.attempt }.frame t.message t.target = .ok t.frame

/-- The transmissions have numbers of their own, in the order in which they were put on the
link. -/
structure Numbered (e : Engine) : Prop where
  decreasing : e.outbound.sent.Pairwise fun t t' => t'.attempt < t.attempt
  below : ∀ t ∈ e.outbound.sent, t.attempt < e.outbound.attempts

namespace Tries

variable {tried : List Attempt} {e e' e'' : Engine}

theorem refl (e : Engine) : Tries [] e e := .rest rfl

theorem after (h : Tries tried e' e'') (same : e'.press = e.press) : Tries tried e e'' :=
  .trans (.rest same) h

theorem before (h : Tries tried e e') (same : e''.press = e'.press) : Tries tried e e'' := by
  have both := h.trans (.rest same)
  rwa [List.append_nil] at both

theorem press_eq (h : Tries tried e e') (none : tried = []) : e'.press = e.press := by
  induction h with
  | rest same => exact same
  | send => cases none
  | trans _ _ ih ih' =>
    obtain ⟨first, later⟩ := List.append_eq_nil_iff.mp none
    exact (ih' later).trans (ih first)

theorem kept (h : Tries tried e e') : e'.registry = e.registry ∧ e'.config = e.config := by
  induction h with
  | rest same =>
    simp only [press, Prod.mk.injEq] at same
    exact ⟨same.1, same.2.1⟩
  | send e target m =>
    obtain ⟨_, same⟩ := sendTo_eq e target m
    rw [same]
    exact ⟨rfl, rfl⟩
  | trans _ _ ih ih' => exact ⟨ih'.1.trans ih.1, ih'.2.trans ih.2⟩

theorem attempts (h : Tries tried e e') :
    e'.outbound.attempts = e.outbound.attempts + tried.length := by
  induction h with
  | rest same =>
    simp only [press, Prod.mk.injEq] at same
    exact same.2.2.1
  | send e target m => exact attempts_sendTo e target m
  | trans _ _ ih ih' => rw [ih', ih, List.length_append, Nat.add_assoc]

theorem prints (h : Tries tried e e') {t : Transmission} (printed : e'.Prints t) :
    e.Prints t := by
  obtain ⟨registry, config⟩ := h.kept
  simpa only [Prints, frame, sender, registry, config] using printed

theorem emits (h : Tries tried e e') :
    Emits
      (fun t => e.Prints t ∧ ∃ k, tried[k]? = some ⟨t.target, t.message⟩
        ∧ t.attempt = e.outbound.attempts + k)
      e e' := by
  induction h with
  | rest same =>
    simp only [press, Prod.mk.injEq] at same
    exact .of_sent_eq same.2.2.2
  | send e target m =>
    rcases sent_sendTo e target m with none | ⟨frame, framed, one⟩
    · exact .of_sent_eq none
    · refine ⟨[_], one, fun t isNew => ?_⟩
      obtain rfl := List.mem_singleton.mp isNew
      exact ⟨framed, 0, rfl, rfl⟩
  | @trans tried tried' e e' e'' first second ih ih' =>
    refine (ih.mono ?_).trans (ih'.mono ?_)
    · rintro t ⟨printed, k, isTried, number⟩
      have within : k < tried.length := (List.getElem?_eq_some_iff.mp isTried).1
      exact ⟨printed, k, (List.getElem?_append_left within).trans isTried, number⟩
    · rintro t ⟨printed, k, isTried, number⟩
      refine ⟨first.prints printed, tried.length + k, ?_, ?_⟩
      · rw [List.getElem?_append_right (Nat.le_add_right _ _), Nat.add_sub_cancel_left, isTried]
      · rw [number, first.attempts, Nat.add_assoc]

theorem emits_of (h : Tries tried e e') {P : Target → Outgoing → Prop}
    (all : ∀ a ∈ tried, P a.target a.message) : Emits (fun t => P t.target t.message) e e' := by
  refine h.emits.mono ?_
  rintro t ⟨-, k, isTried, -⟩
  exact all _ (List.mem_of_getElem? isTried)

theorem numbered (h : Tries tried e e') (before : Numbered e) : Numbered e' := by
  induction h with
  | rest same =>
    simp only [press, Prod.mk.injEq] at same
    obtain ⟨-, -, attempts, sent⟩ := same
    exact ⟨sent ▸ before.decreasing, by rw [sent, attempts]; exact before.below⟩
  | send e target m =>
    have below (t : Transmission) (isSent : t ∈ e.outbound.sent) :
        t.attempt < e.outbound.attempts + 1 := Nat.lt_succ_of_lt (before.below t isSent)
    rcases sent_sendTo e target m with none | ⟨frame, -, one⟩
    · exact ⟨none ▸ before.decreasing, by rw [none, attempts_sendTo]; exact below⟩
    · refine ⟨one ▸ List.pairwise_cons.mpr ⟨before.below, before.decreasing⟩, ?_⟩
      rw [one, attempts_sendTo]
      exact List.forall_mem_cons.mpr ⟨Nat.lt_succ_self _, below⟩
  | trans _ _ ih ih' => exact ih' (ih before)

end Tries

end Engine

end VehicleLink
