import VehicleLink.Config.Station
import VehicleLink.Proofs.Dialect.Tags

namespace VehicleLink

namespace Link

inductive Host : List Char → Prop
  | named {cs : List Char} (nonempty : cs ≠ [])
      (letters : ∀ c ∈ cs, c.isAlpha ∨ c.isDigit ∨ c = '.' ∨ c = '-') : Host cs
  | bracketed {cs : List Char} (nonempty : cs ≠ [])
      (digits : ∀ c ∈ cs, isHexDigit c ∨ c = ':') : Host ('[' :: (cs ++ [']']))

structure Port (cs : List Char) : Prop where
  nonempty : cs ≠ []
  short : cs.length ≤ 5
  digits : ∀ c ∈ cs, DecimalDigit.isDigit c

variable {cs host port : List Char}

theorem isHostChar_iff {c : Char} :
    isHostChar c ↔ c.isAlpha ∨ c.isDigit ∨ c = '.' ∨ c = '-' := by
  simp [isHostChar, Char.isAlphanum, or_assoc]

theorem isHost_iff (cs : List Char) : isHost cs ↔ Host cs := by
  rw [isHost.eq_def]
  split
  · next inner =>
    simp only [Bool.and_eq_true, beq_iff_eq, Bool.not_eq_true', List.isEmpty_eq_false_iff,
      List.all_eq_true, Bool.or_eq_true, and_assoc]
    constructor
    · rintro ⟨closed, nonempty, digits⟩
      obtain ⟨inner, rfl⟩ := List.getLast?_eq_some_iff.mp closed
      rw [List.dropLast_concat] at nonempty digits
      exact .bracketed nonempty digits
    · rintro (⟨-, letters⟩ | ⟨nonempty, digits⟩)
      · exact absurd (letters '[' List.mem_cons_self) (by decide)
      · rw [List.getLast?_concat, List.dropLast_concat]
        exact ⟨rfl, nonempty, digits⟩
  · next unbracketed =>
    simp only [Bool.and_eq_true, Bool.not_eq_true', List.isEmpty_eq_false_iff, List.all_eq_true,
      isHostChar_iff]
    constructor
    · exact fun ⟨nonempty, letters⟩ => .named nonempty letters
    · rintro (⟨nonempty, letters⟩ | _)
      · exact ⟨nonempty, letters⟩
      · exact absurd rfl (unbracketed _)

section

variable (isPort : Port port) (host)
include isPort

/-- Read from its end, an address shows the port first: no colon is a digit. -/
theorem takeWhile_reverse_append :
    (host ++ ':' :: port).reverse.takeWhile DecimalDigit.isDigit = port.reverse := by
  rw [List.reverse_append, List.reverse_cons, List.append_assoc]
  exact Markup.takeWhile_append_of_head (by simpa using isPort.digits) (by simp; decide)

theorem dropWhile_reverse_append :
    (host ++ ':' :: port).reverse.dropWhile DecimalDigit.isDigit = ':' :: host.reverse := by
  rw [List.reverse_append, List.reverse_cons, List.append_assoc]
  exact Markup.dropWhile_append_of_head (by simpa using isPort.digits) (by simp; decide)

end

theorem isSocket_append (isHost : Host host) (isPort : Port port) :
    isSocket (host ++ ':' :: port) := by
  simp only [isSocket, takeWhile_reverse_append host isPort, dropWhile_reverse_append host isPort,
    List.reverse_reverse, (isHost_iff host).mpr isHost, Bool.and_true, Bool.and_eq_true,
    decide_eq_true_eq, List.length_reverse, isPort.short, and_true]
  simpa using isPort.nonempty

theorem exists_of_isSocket (h : isSocket cs) : ∃ host port, cs = host ++ ':' :: port
    ∧ Host host ∧ Port port := by
  have parts := List.takeWhile_append_dropWhile (p := DecimalDigit.isDigit) (l := cs.reverse)
  simp only [isSocket] at h
  split at h
  · next host behind =>
    simp only [Bool.and_eq_true, Bool.not_eq_true', List.isEmpty_eq_false_iff,
      decide_eq_true_eq] at h
    obtain ⟨⟨nonempty, short⟩, isHost⟩ := h
    refine ⟨host.reverse, (cs.reverse.takeWhile DecimalDigit.isDigit).reverse, ?_,
      (isHost_iff _).mp isHost, by simpa using nonempty, by simpa using short, fun c isMember => ?_⟩
    · rw [behind] at parts
      simpa using (congrArg List.reverse parts).symm
    · exact List.mem_takeWhile_imp (List.mem_reverse.mp isMember)
  · cases h

theorem split_unique {host' port' : List Char} (isPort : Port port) (isPort' : Port port')
    (same : host ++ ':' :: port = host' ++ ':' :: port') : host = host' ∧ port = port' := by
  have ports : port.reverse = port'.reverse := by
    rw [← takeWhile_reverse_append host isPort, same, takeWhile_reverse_append host' isPort']
  obtain rfl := List.reverse_inj.mp ports
  exact ⟨List.append_cancel_right same, rfl⟩

theorem isSocket_iff (cs : List Char) :
    isSocket cs ↔ ∃! parts : List Char × List Char,
      cs = parts.1 ++ ':' :: parts.2 ∧ Host parts.1 ∧ Port parts.2 := by
  constructor
  · intro h
    obtain ⟨host, port, split, isHost, isPort⟩ := exists_of_isSocket h
    refine ⟨(host, port), ⟨split, isHost, isPort⟩, fun parts other => ?_⟩
    obtain ⟨hosts, ports⟩ := split_unique other.2.2 isPort (other.1.symm.trans split)
    exact Prod.ext hosts ports
  · rintro ⟨⟨host, port⟩, ⟨rfl, isHost, isPort⟩, -⟩
    exact isSocket_append isHost isPort

theorem isSocket_concat {c : Char} (h : DecimalDigit.isDigit c = false) :
    isSocket (cs ++ [c]) = false := by
  have none : (cs ++ [c]).reverse.takeWhile DecimalDigit.isDigit = [] := by simp [h]
  simp only [isSocket, none]
  split <;> rfl

variable {address : String}

theorem ofAddress_eq_udp_iff : ofAddress address = .udp address ↔ isSocket address.toList := by
  rw [ofAddress]
  split
  · next socket => simp [socket]
  · next device => simpa using device

theorem ofAddress_eq_serial_iff :
    ofAddress address = .serial address ↔ isSocket address.toList = false := by
  rw [ofAddress]
  split
  · next socket => simp [socket]
  · next device => simpa using device

end Link

namespace Station

open Link

/-- The link is a socket if and only if the address can be split into a host and a port, and then
there is one way to split it.  Any other address is a serial device, in particular one that goes
on behind its digits, if only by a line break. -/
theorem link_grammar (s : Station) :
    (s.link = .udp s.master ↔ ∃! parts : List Char × List Char,
        s.master.toList = parts.1 ++ ':' :: parts.2 ∧ Host parts.1 ∧ Port parts.2)
      ∧ (s.link = .serial s.master ↔ ¬ ∃ host port,
        s.master.toList = host ++ ':' :: port ∧ Host host ∧ Port port)
      ∧ ∀ c : {c : Char // DecimalDigit.isDigit c = false},
        { s with master := s.master.push c }.link = .serial (s.master.push c) := by
  refine ⟨?_, ?_, fun c => ?_⟩
  · exact ofAddress_eq_udp_iff.trans (isSocket_iff _)
  · rw [link, ofAddress_eq_serial_iff, ← Bool.not_eq_true]
    exact not_congr ⟨exists_of_isSocket, fun ⟨host, port, split, isHost, isPort⟩ =>
      split ▸ isSocket_append isHost isPort⟩
  · rw [link, ofAddress_eq_serial_iff, String.toList_push]
    exact isSocket_concat c.2

end Station

end VehicleLink
