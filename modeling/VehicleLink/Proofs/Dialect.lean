import VehicleLink.Dialect.Reader
import VehicleLink.Proofs.Schema

namespace VehicleLink

theorem FieldType.arrayLength_of_parse? {text : String} {type : FieldType}
    (h : parse? text = some type) : type.arrayLength ≠ some 0 := by
  simp only [parse?] at h
  split at h
  · obtain ⟨p, -, h⟩ := Option.bind_eq_some_iff.mp h
    cases h
    exact nofun
  · obtain ⟨_, -, h⟩ := Option.bind_eq_some_iff.mp h
    obtain ⟨length, -, h⟩ := Option.bind_eq_some_iff.mp h
    obtain ⟨_, nonzero, h⟩ := Option.bind_eq_some_iff.mp h
    obtain ⟨p, -, h⟩ := Option.bind_eq_some_iff.mp h
    cases h
    intro zero
    simp only [Option.some.injEq] at zero
    simp [zero, guard] at nonzero

namespace Dialect

def Draft.Counted (d : Draft) : Prop := ∀ f ∈ d.fields, f.arrayLength ≠ some 0

theorem Draft.counted_addField {d d' : Draft} {attributes : Attributes} (h : d.Counted)
    (added : d.addField attributes = .ok d') : d'.Counted := by
  obtain ⟨name, -, added⟩ := ok_of_bind added
  obtain ⟨type, -, added⟩ := ok_of_bind added
  split at added
  · next parsed isType =>
    cases added
    intro f isField
    rcases List.mem_append.mp isField with old | new
    · exact h f old
    · obtain rfl := List.mem_singleton.mp new
      exact FieldType.arrayLength_of_parse? isType
  · cases added

theorem Draft.wellFormed_finish {d : Draft} {definition : Definition} (h : d.Counted)
    (finished : d.finish = .ok definition) : definition.WellFormed := by
  rw [finish] at finished
  split at finished
  · next short =>
    cases finished
    exact ⟨h, short⟩
  · cases finished

namespace Progress

structure WellFormed (p : Progress) : Prop where
  drafted : ∀ d ∈ p.draft, d.Counted
  defined : ∀ d ∈ p.definitions, d.WellFormed

theorem wellFormed_start : start.WellFormed := ⟨nofun, nofun⟩

variable {p p' : Progress}

theorem WellFormed.readField (h : p.WellFormed) {rest : List Char}
    (read : p.readField rest = .ok p') : p'.WellFormed := by
  rw [Progress.readField] at read
  split at read
  · next d isDraft =>
    split at read
    · cases read
      exact h
    · obtain ⟨d', added, read⟩ := ok_of_bind read
      cases read
      refine ⟨?_, h.defined⟩
      rintro _ ⟨⟩
      exact Draft.counted_addField (h.drafted d isDraft) added
  · cases read
    exact h

theorem WellFormed.finishMessage (h : p.WellFormed) (read : p.finishMessage = .ok p') :
    p'.WellFormed := by
  rw [Progress.finishMessage] at read
  split at read
  · next d isDraft =>
    obtain ⟨definition, finished, read⟩ := ok_of_bind read
    cases read
    refine ⟨nofun, fun d' isDefined => ?_⟩
    rcases List.mem_append.mp isDefined with old | new
    · exact h.defined d' old
    · obtain rfl := List.mem_singleton.mp new
      exact Draft.wellFormed_finish (h.drafted d isDraft) finished
  · cases read
    exact h

theorem WellFormed.read (h : p.WellFormed) {tag : Markup.Tag} (read : p.read tag = .ok p') :
    p'.WellFormed := by
  cases tag with
  | start name rest =>
    have opened : WellFormed { p with opened := name :: p.opened } := ⟨h.drafted, h.defined⟩
    simp only [Progress.read] at read
    split at read
    · obtain ⟨d, started, read⟩ := ok_of_bind read
      cases read
      refine ⟨?_, h.defined⟩
      rintro _ ⟨⟩
      obtain ⟨_, -, started⟩ := ok_of_bind started
      obtain ⟨_, -, started⟩ := ok_of_bind started
      obtain ⟨_, -, started⟩ := ok_of_bind started
      obtain ⟨_, -, started⟩ := ok_of_bind started
      cases started
      exact nofun
    · split at read
      · exact opened.readField read
      · cases read
        exact opened
  | single name rest =>
    simp only [Progress.read] at read
    split at read
    · exact h.readField read
    · split at read
      · cases read
        refine ⟨?_, h.defined⟩
        intro d isDraft
        obtain ⟨old, isOld, rfl⟩ := Option.map_eq_some_iff.mp isDraft
        exact h.drafted old isOld
      · cases read
        exact h
  | finish name =>
    simp only [Progress.read] at read
    split at read
    · cases read
    · next top opened _ =>
      split at read
      · cases read
      · have closed : WellFormed { p with opened } := ⟨h.drafted, h.defined⟩
        split at read
        · exact closed.finishMessage read
        · cases read
          exact closed

end Progress

theorem wellFormed_of_definitions {text : String} {list : List Definition}
    (h : definitions text = .ok list) : ∀ d ∈ list, d.WellFormed := by
  obtain ⟨p, read, h⟩ := ok_of_bind h
  have kept : p.WellFormed :=
    kept_of_foldlM (fun _ _ _ before read => before.read read) read Progress.wellFormed_start
  split at h
  · cases h
    exact kept.defined
  · cases h

theorem wellFormed_of_load {text : String} {r : Registry} (h : load text = .ok r) :
    ∀ d ∈ r.definitions, d.WellFormed := by
  obtain ⟨list, read, inserted⟩ := ok_of_bind h
  rw [Registry.definitions_of_ofList inserted]
  exact wellFormed_of_definitions read

end Dialect

end VehicleLink
