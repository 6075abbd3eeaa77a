import Mathlib.Data.List.Perm.Basic
import VehicleLink.Config.Setting

namespace VehicleLink.Setting

variable {σ : Type} {settings : List (Setting σ)} {entries : List (Option String × Json)}
  {seen : List String} {key : String} {v : Json}

def keys (settings : List (Setting σ)) : List String := settings.map (·.key)

def given (settings : List (Setting σ)) (entries : List (Option String × Json)) : List String :=
  entries.filterMap fun entry => entry.1.filter (· ∈ keys settings)

/-- Members that give the chosen settings, once each and with values that will do.  Anything may
stand under other keys, if these are texts at all. -/
structure Gives (settings : List (Setting σ)) (holds : String → Json → Prop)
    (chosen : List String) (entries : List (Option String × Json)) : Prop where
  texts : ∀ entry ∈ entries, entry.1 ≠ none
  once : (given settings entries).Nodup
  complete : ∀ key ∈ keys settings, key ∈ given settings entries ↔ key ∈ chosen
  values : ∀ entry ∈ entries, ∀ key ∈ entry.1, key ∈ keys settings → holds key entry.2

theorem given_cons_of_known (h : key ∈ keys settings) :
    given settings ((some key, v) :: entries) = key :: given settings entries :=
  List.filterMap_cons_some (by simp [h])

theorem given_cons_of_unknown (h : key ∉ keys settings) :
    given settings ((some key, v) :: entries) = given settings entries :=
  List.filterMap_cons_none (by simp [h])

theorem find?_eq_none (h : key ∉ keys settings) : settings.find? (·.key == key) = none := by
  simpa [keys] using h

theorem exists_find?_eq (h : key ∈ keys settings) :
    ∃ s ∈ settings, s.key = key ∧ settings.find? (·.key == key) = some s := by
  obtain ⟨s, isMember, rfl⟩ := List.mem_map.mp h
  obtain ⟨s', found⟩ := Option.isSome_iff_exists.mp
    (List.find?_isSome (p := (·.key == s.key)) |>.mpr ⟨s, isMember, beq_self_eq_true _⟩)
  exact ⟨s', List.mem_of_find?_eq_some found, by simpa using List.find?_some found, found⟩

theorem readMembers_of_unknown (h : key ∉ keys settings) (start : σ) :
    readMembers settings seen ((some key, v) :: entries) start =
      readMembers settings seen entries start := by
  rw [readMembers, find?_eq_none h]

theorem readMembers_of_known (h : key ∈ keys settings) :
    ∃ s ∈ settings, s.key = key ∧
      ∀ start, readMembers settings seen ((some key, v) :: entries) start =
        if key ∈ seen then none
        else (s.assign v start).bind (readMembers settings (key :: seen) entries) := by
  obtain ⟨s, isMember, same, found⟩ := exists_find?_eq h
  exact ⟨s, isMember, same, fun start => by rw [readMembers, found]⟩

theorem readMembers_eq_none_of_later (known : key ∈ keys settings)
    (h : key ∉ seen → ∀ next, readMembers settings (key :: seen) entries next = none) (start : σ) :
    readMembers settings seen ((some key, v) :: entries) start = none := by
  obtain ⟨s, -, -, reads⟩ := readMembers_of_known known
  rw [reads]
  split
  · rfl
  · next unseen =>
    cases s.assign v start with
    | none => rfl
    | some next => exact h unseen next

theorem readMembers_eq_none_of_twice (fresh : seen.Nodup)
    (h : ¬(given settings entries ++ seen).Nodup) (start : σ) :
    readMembers settings seen entries start = none := by
  induction entries generalizing seen start with
  | nil => exact absurd fresh h
  | cons entry entries ih =>
    obtain ⟨_ | key, v⟩ := entry
    · rw [readMembers]
    by_cases known : key ∈ keys settings
    · rw [given_cons_of_known known, List.cons_append, List.perm_middle.symm.nodup_iff] at h
      exact readMembers_eq_none_of_later known
        (fun unseen next => ih (List.nodup_cons.mpr ⟨unseen, fresh⟩) h next) start
    · rw [given_cons_of_unknown known] at h
      rw [readMembers_of_unknown known]
      exact ih fresh h start

theorem readMembers_eq_none_of_unfit (isMember : (some key, v) ∈ entries)
    (known : key ∈ keys settings)
    (unfit : ∀ s ∈ settings, s.key = key → ∀ start, s.assign v start = none) (start : σ) :
    readMembers settings seen entries start = none := by
  induction entries generalizing seen start with
  | nil => cases isMember
  | cons entry entries ih =>
    rcases List.mem_cons.mp isMember with rfl | isLater
    · obtain ⟨s, isSetting, same, reads⟩ := readMembers_of_known known
      rw [reads, unfit s isSetting same, Option.bind_none, ite_self]
    · obtain ⟨_ | key', v'⟩ := entry
      · rw [readMembers]
      by_cases known' : key' ∈ keys settings
      · exact readMembers_eq_none_of_later known' (fun _ next => ih isLater next) start
      · rw [readMembers_of_unknown known']
        exact ih isLater start

section Reading

variable {holds : String → Json → Prop} {chosen : List String} {pick : List String → σ}
  (step : ∀ s ∈ settings, ∀ v seen, holds s.key v →
    s.assign v (pick seen) = some (pick (s.key :: seen)))
include step

theorem readMembers_eq_pick (texts : ∀ entry ∈ entries, entry.1 ≠ none)
    (values : ∀ entry ∈ entries, ∀ key ∈ entry.1, key ∈ keys settings → holds key entry.2)
    (once : (given settings entries).Nodup) (fresh : ∀ key ∈ given settings entries, key ∉ seen) :
    readMembers settings seen entries (pick seen) =
      some (pick ((given settings entries).reverse ++ seen)) := by
  induction entries generalizing seen with
  | nil => rfl
  | cons entry entries ih =>
    obtain ⟨value, values⟩ := List.forall_mem_cons.mp values
    have later {seen} := @ih seen (List.forall_mem_cons.mp texts).2 values
    obtain ⟨_ | key, v⟩ := entry
    · exact absurd rfl (texts _ List.mem_cons_self)
    by_cases known : key ∈ keys settings
    · rw [given_cons_of_known known] at once fresh ⊢
      obtain ⟨unlike, once'⟩ := List.nodup_cons.mp once
      have fresh' : ∀ k ∈ given settings entries, k ∉ key :: seen := fun k isGiven =>
        List.not_mem_cons_of_ne_of_not_mem (ne_of_mem_of_not_mem isGiven unlike)
          (fresh k (List.mem_cons_of_mem _ isGiven))
      obtain ⟨s, isSetting, rfl, reads⟩ := readMembers_of_known known
      rw [reads, if_neg (fresh s.key List.mem_cons_self),
        step s isSetting v seen (value s.key rfl known), Option.bind_some,
        later once' fresh', List.reverse_cons, List.append_assoc, List.singleton_append]
    · rw [given_cons_of_unknown known] at once fresh ⊢
      rw [readMembers_of_unknown known]
      exact later once fresh

theorem read_eq_pick (gives : Gives settings holds chosen entries)
    (alike : ∀ l l' : List String, (∀ key ∈ keys settings, key ∈ l ↔ key ∈ l') → pick l = pick l') :
    read settings (pick []) (.object entries) = some (pick chosen) := by
  have reads : readMembers settings [] entries (pick []) =
      some (pick ((given settings entries).reverse ++ [])) :=
    readMembers_eq_pick step gives.texts gives.values gives.once nofun
  rw [read, reads]
  congr 1
  exact alike _ _ fun key known => by simp [gives.complete key known]

end Reading

end VehicleLink.Setting
