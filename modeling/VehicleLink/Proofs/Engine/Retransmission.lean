import VehicleLink.Proofs.Engine.History
import VehicleLink.Proofs.Parameters.Merging

namespace VehicleLink

namespace Memory

open Occurrence

theorem params_heard (k : Memory) (m : Message) :
    (k.after (.heard m)).params = k.params.learnAll (report? (.heard m)).toList := by
  rcases hears : Incoming.ofMessage m with _ | _ | _ | p | _ | _
  case parameter =>
    have name : m.name = "PARAM_VALUE" := Incoming.name_of_source? (by rw [hears]; rfl)
    simp only [after, report?, hears, if_pos name]
    rfl
  all_goals
    simp only [after, report?, hears]
    rfl

theorem params_heardAll (k : Memory) (messages : List Message) :
    (messages.foldl (fun k m => k.after (.heard m)) k).params =
      k.params.learnAll ((messages.map .heard).filterMap report?) := by
  induction messages generalizing k with
  | nil => rfl
  | cons m rest ih =>
    rw [List.foldl_cons, ih, params_heard, List.map_cons]
    cases reported : report? (.heard m) with
    | none => rw [List.filterMap_cons_none reported]; rfl
    | some r => rw [List.filterMap_cons_some reported]; rfl

end Memory

namespace Engine

def told (r : Registry) (items : List Item) : List ParamReport :=
  ((unpacked r items).map .heard).filterMap Occurrence.report?

theorem params_receiveAll (e : Engine) (items : List Item) :
    (e.receiveAll items).params = e.params.learnAll (told e.registry items) := by
  have remembers : (e.receiveAll items).params =
      (e.memory.replay ((unpacked e.registry items).map .heard).reverse).params :=
    congrArg Memory.params (memory_receiveAll e items)
  rw [remembers, Memory.replay, List.foldr_reverse, List.foldl_map, Memory.params_heardAll]
  rfl

/-- Reports that agree with each other all stand in the table in the end.  In which order they come,
how often, and between what other messages makes no difference. -/
theorem params_alike_of_told (e : Engine) {items items' : List Item}
    (consistent : Consistent (told e.registry items))
    (same : ∀ report, report ∈ told e.registry items ↔ report ∈ told e.registry items') :
    (e.params.Merges (told e.registry items) (e.receiveAll items).params)
      ∧ (e.receiveAll items).params.Alike (e.receiveAll items').params := by
  have consistent' : Consistent (told e.registry items') := consistent.mono fun r => (same r).mpr
  have merges := Parameters.Merges.learnAll e.params consistent
  have merges' := Parameters.Merges.learnAll e.params consistent'
  rw [params_receiveAll, params_receiveAll]
  exact ⟨merges, merges.alike merges' same⟩

def reported (letter high : UInt8) (index : List UInt8) : Item :=
  .ok ⟨⟨⟨24, 0, 1, 1, 22⟩,
    [0, 0, 0, high, 2, 0] ++ index ++ letter :: List.replicate 15 0, 0⟩, []⟩

theorem params_alike_of_repeats :
    let e := (start scarce {} .ready).receiveAll [reported 65 63 [0, 0]]
    let items := [reported 65 64 [0, 0], reported 66 65 [1, 0], reported 65 64 [255, 255]]
    let items' := [reported 65 64 [255, 255], reported 66 65 [1, 0], .error (.badStart 0),
      reported 65 64 [0, 0], reported 66 65 [1, 0]]
    Consistent (told e.registry items)
      ∧ (∀ report, report ∈ told e.registry items ↔ report ∈ told e.registry items')
      ∧ (e.receiveAll items).params.snapshot =
        ⟨some 2, 2, [("A", ⟨0x40000000⟩), ("B", ⟨0x41000000⟩)], [], false⟩
      ∧ (e.receiveAll items).params.Alike (e.receiveAll items').params := by
  intro e items items'
  have consistent : Consistent (told e.registry items) :=
    ⟨by decide +kernel, by decide +kernel, by decide +kernel⟩
  have kept : ∀ report ∈ told e.registry items, report ∈ told e.registry items' := by
    decide +kernel
  have added : ∀ report ∈ told e.registry items', report ∈ told e.registry items := by
    decide +kernel
  have same := fun report => Iff.intro (kept report) (added report)
  exact ⟨consistent, same, by decide +kernel, (params_alike_of_told e consistent same).2⟩

end Engine

end VehicleLink
