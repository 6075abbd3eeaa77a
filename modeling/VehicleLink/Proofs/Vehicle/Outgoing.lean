import Mathlib.Data.List.Nodup
import VehicleLink.Dialect.Builtin
import VehicleLink.Proofs.RoundTrip
import VehicleLink.Vehicle.Outgoing

namespace VehicleLink

namespace Assoc

variable {κ ν : Type} [DecidableEq κ] {k : κ} {v : ν}

theorem mem_of_get?_insertAll {entries : List (κ × ν)} {m : Assoc κ ν}
    (h : (entries.foldl (fun m e => m.insert e.1 e.2) m).get? k = some v) :
    (k, v) ∈ entries ∨ m.get? k = some v := by
  induction entries generalizing m with
  | nil => exact .inr h
  | cons e rest ih =>
    rcases ih h with isRest | found
    · exact .inl (List.mem_cons_of_mem _ isRest)
    · rw [get?_insert] at found
      split at found
      · next same =>
        cases found
        exact .inl (same ▸ List.mem_cons_self)
      · exact .inr found

theorem mem_of_get?_ofList {entries : List (κ × ν)} (h : (ofList entries).get? k = some v) :
    (k, v) ∈ entries :=
  (mem_of_get?_insertAll h).resolve_right nofun

theorem get?_insertAll_of_notMem {entries : List (κ × ν)} (m : Assoc κ ν)
    (fresh : k ∉ entries.map Prod.fst) :
    (entries.foldl (fun m e => m.insert e.1 e.2) m).get? k = m.get? k := by
  induction entries generalizing m with
  | nil => rfl
  | cons e rest ih =>
    obtain ⟨other, later⟩ := List.ne_and_not_mem_of_not_mem_cons fresh
    rw [List.foldl_cons, ih _ later, get?_insert, if_neg (Ne.symm other)]

theorem get?_insertAll_of_mem {entries : List (κ × ν)} (m : Assoc κ ν)
    (distinct : (entries.map Prod.fst).Nodup) (isEntry : (k, v) ∈ entries) :
    (entries.foldl (fun m e => m.insert e.1 e.2) m).get? k = some v := by
  induction entries generalizing m with
  | nil => cases isEntry
  | cons e rest ih =>
    obtain ⟨fresh, distinct⟩ := List.nodup_cons.mp distinct
    rcases List.mem_cons.mp isEntry with rfl | isRest
    · rw [List.foldl_cons, get?_insertAll_of_notMem _ fresh, get?_insert_self]
    · exact ih _ distinct isRest

theorem get?_ofList_of_mem {entries : List (κ × ν)} (distinct : (entries.map Prod.fst).Nodup)
    (isEntry : (k, v) ∈ entries) : (ofList entries).get? k = some v :=
  get?_insertAll_of_mem empty distinct isEntry

end Assoc

theorem IntType.value_read_i16 (word : UInt16) :
    (i16.read word.toNat).value = word.toInt16.toInt := by
  rw [Int16.toInt, UInt16.toBitVec_toInt16, BitVec.toInt_eq_toNat_bmod, UInt16.toNat_toBitVec]
  simp only [read, ofWord, isSigned, modulus, if_true]

namespace Value

def primitive : Value → Primitive
  | .int n => .number (.int n.type)
  | .single _ => .single
  | .double _ => .double
  | .text _ => .char

def fitted (count : Nat) : Value → Value
  | .text bytes => .text ((bytes.take count).rightpad count 0)
  | v => v

theorem isOwnWidth_primitive (v : Value) : v.primitive.isOwnWidth v = true := by
  cases v <;> rfl

theorem eq_fitted_of_delivers {v w : Value} {count : Nat}
    (h : v.primitive.Delivers count (some v) w) : w = v.fitted count := by
  cases v with
  | int n =>
    obtain ⟨⟨type, value, inRange⟩, rfl, rfl, same⟩ := h
    obtain rfl : n.value = value := Option.some.inj same
    rfl
  | single => exact h
  | double => exact h
  | text =>
    obtain ⟨_, supplied, rfl⟩ := h
    cases supplied
    rfl

end Value

namespace Definition

variable {d : Definition} {f : Field} {key : String}

def shape? (d : Definition) (key : String) : Option (Primitive × Nat) :=
  (d.declared.find? (key ∈ ·.keys)).map fun f => (f.primitive, f.count)

theorem shape?_of_declared (distinct : (d.declared.flatMap Field.keys).Nodup)
    (declared : f ∈ d.declared) (isKey : key ∈ f.keys) :
    d.shape? key = some (f.primitive, f.count) := by
  rw [shape?]
  generalize d.declared = fields at distinct declared
  induction fields with
  | nil => cases declared
  | cons g rest ih =>
    rw [List.flatMap_cons, List.nodup_append] at distinct
    rcases List.mem_cons.mp declared with rfl | isRest
    · rw [List.find?_cons_of_pos (by simpa using isKey)]
      rfl
    · have later : key ∈ rest.flatMap Field.keys := List.mem_flatMap.mpr ⟨f, isRest, isKey⟩
      have other : key ∉ g.keys := fun isFirst => distinct.2.2 key isFirst key later rfl
      rw [List.find?_cons_of_neg (by simpa using other)]
      exact ih distinct.2.1 isRest

theorem declared_of_shape? {p : Primitive} {count : Nat} (h : d.shape? key = some (p, count)) :
    ∃ f ∈ d.declared, key ∈ f.keys ∧ f.primitive = p ∧ f.count = count := by
  obtain ⟨f, found, same⟩ := Option.map_eq_some_iff.mp h
  cases same
  exact ⟨f, List.mem_of_find?_eq_some found, by simpa using List.find?_some found, rfl, rfl⟩

end Definition

namespace Registry

def shape? (r : Registry) (name key : String) : Option (Primitive × Nat) :=
  (r.named? name).bind (·.shape? key)

end Registry

namespace Dialect

theorem wellFormed_of_builtin : ∀ d ∈ builtin.definitions, d.WellFormed := by
  have checked : ∀ d ∈ builtin.definitions,
      (∀ f ∈ d.declared, f.arrayLength ≠ some 0) ∧ d.payloadLength ≤ 255 := by
    decide +kernel
  exact fun d isDefined => ⟨(checked d isDefined).1, (checked d isDefined).2⟩

theorem distinct_of_builtin :
    ∀ d ∈ builtin.definitions, (d.declared.flatMap Field.keys).Nodup := by
  decide +kernel

end Dialect

/-- The fields hold what was meant.  Parameter names go out in sixteen bytes. -/
def Message.Conveys (msg : Message) : Outgoing → Prop
  | .command opcode arguments confirmation =>
    msg.get? "command" = some (.u16 opcode)
      ∧ msg.get? "confirmation" = some (.u8 confirmation)
      ∧ ∀ i, (h : i < 7) → msg.get? ("param" ++ toString (i + 1)) = some (.single arguments[i])
  | .requestParameters => True
  | .requestParameter index =>
    ∃ n : Integer, msg.get? "param_index" = some (.int n) ∧ n.type = .i16
      ∧ n.value = index.toInt16.toInt
  | .setParameter name value =>
    msg.get? "param_id" = some (.text (((Utf8.encode name).take 16).rightpad 16 0))
      ∧ msg.get? "param_value" = some (.single value)
      ∧ msg.get? "param_type" = some (.u8 Outgoing.realParameter)
  | .overrideChannels channels =>
    ∀ i, (h : i < 8) → msg.get? ("chan" ++ toString (i + 1) ++ "_raw") = some (.u16 channels[i])

structure Message.Says (msg : Message) (target : Target) (m : Outgoing) : Prop where
  name : msg.name = m.name
  system : msg.get? "target_system" = some (.u8 target.system)
  component : msg.get? "target_component" = some (.u8 target.component)
  content : msg.Conveys m

namespace Outgoing

def entries (m : Outgoing) (target : Target) : List (String × Value) :=
  ("target_system", .u8 target.system) :: ("target_component", .u8 target.component) :: m.content

section Numbered

variable {before after : String} {values : List Value}

theorem mem_numbered {i : Nat} {v : Value} (h : values[i]? = some v) :
    (before ++ toString (i + 1) ++ after, v) ∈ numbered before after values := by
  obtain ⟨isIndex, rfl⟩ := List.getElem?_eq_some_iff.mp h
  exact List.mem_mapIdx.mpr ⟨i, isIndex, rfl⟩

theorem forms_numbered {p : Primitive} (same : ∀ v ∈ values, v.primitive = p) :
    (numbered before after values).map (fun e => (e.1, e.2.primitive)) =
      (List.range values.length).map fun i => (before ++ toString (i + 1) ++ after, p) := by
  refine List.ext_getElem (by simp [numbered]) fun i h _ => ?_
  have isIndex : i < values.length := by simpa [numbered] using h
  simpa [numbered] using same values[i] (List.getElem_mem isIndex)

end Numbered

def forms (m : Outgoing) : List (String × Primitive) :=
  ("target_system", .u8) :: ("target_component", .u8) ::
    match m with
    | .command _ _ _ =>
      ("command", .u16) :: ("confirmation", .u8) ::
        (List.range 7).map fun i => ("param" ++ toString (i + 1) ++ "", .single)
    | .requestParameters => []
    | .requestParameter _ => [("param_id", .char), ("param_index", .i16)]
    | .setParameter _ _ => [("param_id", .char), ("param_value", .single), ("param_type", .u8)]
    | .overrideChannels _ =>
      (List.range 8).map fun i => ("chan" ++ toString (i + 1) ++ "_raw", .u16)

theorem forms_entries (m : Outgoing) (target : Target) :
    (m.entries target).map (fun e => (e.1, e.2.primitive)) = m.forms := by
  cases m with
  | command opcode arguments confirmation =>
    simp only [entries, content, List.map_cons]
    rw [forms_numbered (p := .single) (by simp [Value.primitive])]
    simp only [List.length_map, Vector.length_toList]
    rfl
  | overrideChannels channels =>
    simp only [entries, content, List.map_cons]
    rw [forms_numbered (p := .u16) (by simp [Value.primitive, Value.u16, IntType.read])]
    simp only [List.length_map, Vector.length_toList]
    rfl
  | requestParameters => rfl
  | requestParameter index => rfl
  | setParameter name value => rfl

theorem declared_forms (m : Outgoing) :
    (m.forms.map Prod.fst).Nodup
      ∧ ∀ e ∈ m.forms, (Dialect.builtin.shape? m.name e.1).map Prod.fst = some e.2 := by
  cases m <;> dsimp only [forms, name] <;> decide +kernel

variable {m : Outgoing} {target : Target} {d : Definition}

theorem get?_fields {key : String} {v : Value} :
    (m.fields target).get? key = some v ↔ (key, v) ∈ m.entries target := by
  refine ⟨Assoc.mem_of_get?_ofList, Assoc.get?_ofList_of_mem ?_⟩
  have distinct := m.declared_forms.1
  rwa [← m.forms_entries target, List.map_map] at distinct

theorem shape_of_mem_entries {key : String} {v : Value}
    (named : Dialect.builtin.named? m.name = some d) (isEntry : (key, v) ∈ m.entries target) :
    ∃ count, d.shape? key = some (v.primitive, count) := by
  have isForm : (key, v.primitive) ∈ m.forms := by
    rw [← m.forms_entries target]
    exact List.mem_map_of_mem isEntry
  have declared := m.declared_forms.2 _ isForm
  rw [Registry.shape?, named] at declared
  obtain ⟨⟨_, count⟩, found, rfl⟩ := Option.map_eq_some_iff.mp declared
  exact ⟨count, found⟩

theorem named_of_builtin (m : Outgoing) :
    ∃ d, Dialect.builtin.named? m.name = some d := by
  have declared := m.declared_forms.2 ("target_system", .u8) List.mem_cons_self
  rw [Registry.shape?] at declared
  cases named : Dialect.builtin.named? m.name with
  | none =>
    rw [named] at declared
    cases declared
  | some d => exact ⟨d, rfl⟩

theorem carries_of_delivers {msg : Message} (named : Dialect.builtin.named? m.name = some d)
    (delivers : msg.Delivers d (m.fields target)) {key : String} {v : Value}
    (isEntry : (key, v) ∈ m.entries target) :
    ∃ count, d.shape? key = some (v.primitive, count) ∧ msg.get? key = some (v.fitted count) := by
  obtain ⟨count, shape⟩ := shape_of_mem_entries named isEntry
  obtain ⟨f, declared, isKey, type, length⟩ := Definition.declared_of_shape? shape
  obtain ⟨w, read, fits⟩ := delivers.values f declared key isKey
  rw [get?_fields.mpr isEntry, type, length] at fits
  exact ⟨count, shape, Value.eq_fitted_of_delivers fits ▸ read⟩

theorem says_of_delivers {msg : Message} (named : Dialect.builtin.named? m.name = some d)
    (delivers : msg.Delivers d (m.fields target)) : msg.Says target m := by
  have reads {key : String} {v : Value} (isEntry : (key, v) ∈ m.entries target)
      (same : ∀ count, v.fitted count = v) : msg.get? key = some v := by
    obtain ⟨count, -, read⟩ := carries_of_delivers named delivers isEntry
    rw [read, same]
  have holds {key : String} {v : Value} (isContent : (key, v) ∈ m.content)
      (same : ∀ count, v.fitted count = v) : msg.get? key = some v :=
    reads (List.mem_cons_of_mem _ (List.mem_cons_of_mem _ isContent)) same
  refine ⟨delivers.name.trans (Registry.name_of_named? named),
    reads (by simp [entries]) fun _ => rfl, reads (by simp [entries]) fun _ => rfl, ?_⟩
  cases m with
  | command opcode arguments confirmation =>
    refine ⟨holds (by simp [content]) fun _ => rfl, holds (by simp [content]) fun _ => rfl, ?_⟩
    intro i h
    have isNumbered : ("param" ++ toString (i + 1) ++ "", Value.single arguments[i]) ∈
        numbered "param" "" (arguments.toList.map .single) := mem_numbered (by simp [h])
    rw [String.append_empty] at isNumbered
    exact holds (List.mem_cons_of_mem _ (List.mem_cons_of_mem _ isNumbered)) fun _ => rfl
  | requestParameters => trivial
  | requestParameter index =>
    exact ⟨_, holds (v := .i16 index) (by simp [content]) fun _ => rfl, rfl,
      IntType.value_read_i16 index⟩
  | setParameter text value =>
    have isText : ("param_id", Value.ofString text) ∈ (setParameter text value).entries target := by
      simp [entries, content]
    obtain ⟨count, shape, read⟩ := carries_of_delivers named delivers isText
    have declared : Dialect.builtin.shape? "PARAM_SET" "param_id" = some (.char, 16) := by
      decide +kernel
    obtain rfl : count = 16 := by
      rw [Registry.shape?, ← name, named, Option.bind_some, shape] at declared
      exact congrArg Prod.snd (Option.some.inj declared)
    exact ⟨read, holds (by simp [content]) fun _ => rfl, holds (by simp [content]) fun _ => rfl⟩
  | overrideChannels channels =>
    intro i h
    exact holds (mem_numbered (v := .u16 channels[i]) (by simp [h])) fun _ => rfl

theorem isOwnWidth_fields (named : Dialect.builtin.named? m.name = some d) {f : Field}
    (declared : f ∈ d.declared) {key : String} (isKey : key ∈ f.keys) {v : Value}
    (given : (m.fields target).get? key = some v) : f.primitive.isOwnWidth v = true := by
  obtain ⟨count, shape⟩ := shape_of_mem_entries named (get?_fields.mp given)
  have distinct := Dialect.distinct_of_builtin d (Registry.mem_of_named? named)
  rw [Definition.shape?_of_declared distinct declared isKey] at shape
  have same : f.primitive = v.primitive := congrArg Prod.fst (Option.some.inj shape)
  exact same ▸ v.isOwnWidth_primitive

theorem says_of_pack {sender : Sender} {p : Packet}
    (packed : Codec.packNamed Dialect.builtin m.name (m.fields target) sender = .ok p) :
    p.Sound Dialect.builtin
      ∧ (⟨p.header.sequence, p.header.system, p.header.component⟩ : Sender) = sender
      ∧ ∃ msg, Codec.unpack Dialect.builtin p = .ok msg ∧ msg.Says target m := by
  obtain ⟨d, named⟩ := m.named_of_builtin
  have isDefined := Registry.mem_of_named? named
  have wellFormed := Dialect.wellFormed_of_builtin d isDefined
  have known := Registry.get?_of_mem isDefined
  rw [Codec.packNamed, named] at packed
  obtain ⟨msg, unpacked, delivers⟩ :=
    Codec.delivers_of_pack wellFormed known (Dialect.distinct_of_builtin d isDefined)
      (fun f declared key isKey v given => isOwnWidth_fields named declared isKey given) packed
  refine ⟨(Codec.sound_of_pack wellFormed known packed).2, ?_,
    msg, unpacked, says_of_delivers named delivers⟩
  obtain ⟨payload, -, rfl⟩ := Codec.stamp_of_pack known packed
  rfl

end Outgoing

end VehicleLink
