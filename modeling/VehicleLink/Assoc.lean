namespace VehicleLink

structure Assoc (κ ν : Type) where
  entries : List (κ × ν)
  deriving DecidableEq, Repr

namespace Assoc

variable {κ ν : Type} [DecidableEq κ]

def empty : Assoc κ ν := ⟨[]⟩

instance : EmptyCollection (Assoc κ ν) := ⟨empty⟩

instance : Inhabited (Assoc κ ν) := ⟨empty⟩

def find (k : κ) : List (κ × ν) → Option ν
  | [] => none
  | (k', v) :: rest => if k' = k then some v else find k rest

def put (k : κ) (v : ν) : List (κ × ν) → List (κ × ν)
  | [] => [(k, v)]
  | (k', v') :: rest => if k' = k then (k, v) :: rest else (k', v') :: put k v rest

def get? (m : Assoc κ ν) (k : κ) : Option ν := find k m.entries

def insert (m : Assoc κ ν) (k : κ) (v : ν) : Assoc κ ν := ⟨put k v m.entries⟩

def keys (m : Assoc κ ν) : List κ := m.entries.map (·.1)

def values (m : Assoc κ ν) : List ν := m.entries.map (·.2)

def size (m : Assoc κ ν) : Nat := m.entries.length

def ofList (entries : List (κ × ν)) : Assoc κ ν :=
  entries.foldl (fun m e => m.insert e.1 e.2) empty

def mapValues (m : Assoc κ ν) (f : ν → ν) : Assoc κ ν :=
  ⟨m.entries.map fun e => (e.1, f e.2)⟩

theorem get?_insert (m : Assoc κ ν) (k k' : κ) (v : ν) :
    (m.insert k v).get? k' = if k = k' then some v else m.get? k' := by
  obtain ⟨entries⟩ := m
  simp only [insert, get?]
  induction entries with
  | nil => by_cases h : k = k' <;> simp [put, find, h]
  | cons e rest ih =>
    by_cases h : e.1 = k
    · subst h
      by_cases h' : e.1 = k' <;> simp [put, find, h']
    · by_cases h' : e.1 = k'
      · subst h'
        simp [put, find, h, Ne.symm h]
      · simp [put, find, h, h', ih]

@[simp] theorem get?_insert_self (m : Assoc κ ν) (k : κ) (v : ν) :
    (m.insert k v).get? k = some v := by
  simp [get?_insert]

theorem get?_mapValues (m : Assoc κ ν) (f : ν → ν) (k : κ) :
    (m.mapValues f).get? k = (m.get? k).map f := by
  obtain ⟨entries⟩ := m
  simp only [mapValues, get?]
  induction entries with
  | nil => rfl
  | cons e rest ih => by_cases h : e.1 = k <;> simp [find, h, ih]

end Assoc

end VehicleLink
