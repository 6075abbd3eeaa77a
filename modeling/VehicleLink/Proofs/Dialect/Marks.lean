import VehicleLink.Proofs.Dialect

namespace VehicleLink

namespace Markup

namespace Tag

def isField : Tag → Bool
  | .start name _ | .single name _ => name = "field".toList
  | .finish _ => false

def isMessage : Tag → Bool
  | .start name _ | .finish name => name = "message".toList
  | .single _ _ => false

def isMark : Tag → Bool
  | .single name _ => name = "extensions".toList
  | .start _ _ | .finish _ => false

end Tag

/-- The fields that a mark in front of these tags hides: those up to the next mark or the end of
the message. -/
def hiddenFields (ts : List Tag) : List Tag :=
  (ts.takeWhile fun t => !(t.isMessage || t.isMark)).filter Tag.isField

theorem hiddenFields_cons (t : Tag) (ts : List Tag) :
    hiddenFields (t :: ts) =
      if t.isMessage || t.isMark then []
      else if t.isField then t :: hiddenFields ts
      else hiddenFields ts := by
  by_cases stops : (t.isMessage || t.isMark) = true
  · rw [hiddenFields, List.takeWhile_cons_of_neg (by simp [stops]), if_pos stops, List.filter_nil]
  · rw [hiddenFields, List.takeWhile_cons_of_pos (by simp [stops]), if_neg stops,
      List.filter_cons, hiddenFields]

theorem hiddenFields_append {inner : List Tag} (inside : ∀ t ∈ inner, t.isMessage = false)
    (rest : List Tag) :
    hiddenFields (inner ++ .finish "message".toList :: rest) = hiddenFields inner := by
  induction inner with
  | nil => rfl
  | cons t inner ih =>
    rw [List.cons_append, hiddenFields_cons, hiddenFields_cons, ih fun t isMember =>
      inside t (List.mem_cons_of_mem _ isMember)]

theorem Tag.stops_eq_false_of_isField {t : Tag} (h : t.isField) :
    (t.isMessage || t.isMark) = false := by
  have noMessage : "field".toList ≠ "message".toList := mt String.toList_inj.mp (by decide)
  have noMark : "field".toList ≠ "extensions".toList := mt String.toList_inj.mp (by decide)
  cases t <;> simp_all [isField, isMessage, isMark]

end Markup

namespace Dialect

open Markup

variable {ts inner rest : List Tag} {t : Tag}

def Progress.outcome (p : Progress) (ts : List Tag) : Except DialectError (List Definition) :=
  (ts.foldlM Progress.read p).map Progress.definitions

namespace Progress

variable {p q : Progress} {d : Draft}

theorem outcome_append (p : Progress) (ts ts' : List Tag) :
    p.outcome (ts ++ ts') = ts.foldlM read p >>= (·.outcome ts') := by
  rw [outcome, List.foldlM_append]
  cases ts.foldlM read p <;> rfl

theorem outcome_cons (p : Progress) (t : Tag) (ts : List Tag) :
    p.outcome (t :: ts) = p.read t >>= (·.outcome ts) := by
  rw [outcome, List.foldlM_cons]
  cases p.read t <;> rfl

def marked (p : Progress) : Progress :=
  { p with draft := p.draft.map fun d => { d with extended := true } }

def Collects (p : Progress) : Prop := ∃ d ∈ p.draft, d.extended = false

theorem marked_eq_self (h : ¬ p.Collects) : p.marked = p := by
  obtain ⟨opened, _ | d, definitions⟩ := p
  · rfl
  · have extended : d.extended = true := by
      simpa [Collects] using h
    simp only [marked, Option.map_some, ← extended]

theorem marked_marked (p : Progress) : p.marked.marked = p.marked := by
  obtain ⟨opened, _ | d, definitions⟩ := p <;> rfl

theorem finishMessage_marked (p : Progress) : p.marked.finishMessage = p.finishMessage := by
  obtain ⟨opened, _ | d, definitions⟩ := p <;> rfl

theorem read_marked (p : Progress) (plain : t.isField = false) :
    p.marked.read t = if t.isMessage || t.isMark then p.read t else (p.read t).map marked := by
  cases t with
  | start name rest =>
    have noField : name ≠ "field".toList := by simpa [Tag.isField] using plain
    by_cases message : name = "message".toList
    · simp only [read, Tag.isMessage, if_pos message, decide_eq_true message, Bool.true_or, if_true]
      rfl
    · simp only [read, Tag.isMessage, Tag.isMark, if_neg message, if_neg noField,
        decide_eq_false message, Bool.or_false, Bool.false_eq_true, if_false]
      rfl
  | single name rest =>
    have noField : name ≠ "field".toList := by simpa [Tag.isField] using plain
    by_cases mark : name = "extensions".toList
    · simp only [read, Tag.isMark, if_neg noField, if_pos mark, decide_eq_true mark, Bool.or_true,
        if_true]
      exact congrArg Except.ok (marked_marked p)
    · simp only [read, Tag.isMessage, Tag.isMark, if_neg noField, if_neg mark,
        decide_eq_false mark, Bool.or_false, Bool.false_eq_true, if_false]
      rfl
  | finish name =>
    obtain ⟨_ | ⟨top, opened⟩, draft, definitions⟩ := p
    · simp only [read, marked]
      split <;> rfl
    · by_cases same : top = name
      · by_cases message : name = "message".toList
        · simp only [read, marked, Tag.isMessage, ne_eq, same, not_true, if_false, if_pos message,
            decide_eq_true message, Bool.true_or, if_true]
          exact finishMessage_marked ⟨opened, draft, definitions⟩
        · simp only [read, marked, Tag.isMessage, Tag.isMark, ne_eq, same, not_true, if_false,
            if_neg message, decide_eq_false message, Bool.or_false, Bool.false_eq_true]
          rfl
      · simp only [read, marked, ne_eq, same, not_false_eq_true, if_true]
        split <;> rfl

theorem outcome_marked (none : hiddenFields ts = []) : p.marked.outcome ts = p.outcome ts := by
  induction ts generalizing p with
  | nil => rfl
  | cons t ts ih =>
    rw [hiddenFields_cons] at none
    rw [outcome_cons, outcome_cons]
    cases field : t.isField with
    | true => simp [Tag.stops_eq_false_of_isField field, field] at none
    | false =>
      rw [read_marked p field]
      cases stops : t.isMessage || t.isMark with
      | true => rw [if_pos rfl]
      | false =>
        simp only [stops, field, Bool.false_eq_true, if_false] at none ⊢
        cases p.read t with
        | error e => rfl
        | ok q => exact ih none

theorem readField_inside {behind : List Char} (isDraft : p.draft = some d)
    (h : p.readField behind = .ok q) :
    q.definitions = p.definitions ∧ ∃ d', q.draft = some d' ∧ d'.extended = d.extended
      ∧ d'.fields.length = d.fields.length + if d.extended then 0 else 1 := by
  simp only [readField, isDraft] at h
  split at h
  · next extended =>
    cases h
    exact ⟨rfl, d, isDraft, rfl, by simp [extended]⟩
  · next within =>
    obtain ⟨d', added, h⟩ := ok_of_bind h
    cases h
    obtain ⟨_, -, added⟩ := ok_of_bind added
    obtain ⟨_, -, added⟩ := ok_of_bind added
    split at added
    · cases added
      exact ⟨rfl, _, rfl, rfl, by simp [within]⟩
    · cases added

theorem read_inside (isDraft : p.draft = some d) (inside : t.isMessage = false)
    (h : p.read t = .ok q) :
    q.definitions = p.definitions ∧ ∃ d', q.draft = some d' ∧ d'.extended = (d.extended || t.isMark)
      ∧ d'.fields.length = d.fields.length + if d.extended || !t.isField then 0 else 1 := by
  have unread (noMark : t.isMark = false) (noField : t.isField = false)
      (same : q.definitions = p.definitions ∧ q.draft = p.draft) :
      q.definitions = p.definitions ∧ ∃ d', q.draft = some d'
        ∧ d'.extended = (d.extended || t.isMark)
        ∧ d'.fields.length = d.fields.length + if d.extended || !t.isField then 0 else 1 :=
    ⟨same.1, d, same.2.trans isDraft, by simp [noMark], by simp [noField]⟩
  cases t with
  | start name behind =>
    have noMessage : name ≠ "message".toList := of_decide_eq_false inside
    simp only [read, if_neg noMessage] at h
    split at h
    · next field =>
      have isField : (Tag.start name behind).isField = true := decide_eq_true field
      obtain ⟨same, d', isDraft', extended, counted⟩ :=
        @readField_inside { p with opened := name :: p.opened } _ _ _ isDraft h
      exact ⟨same, d', isDraft', by simp [Tag.isMark, extended], by simp [isField, counted]⟩
    · next noField =>
      cases h
      exact unread rfl (decide_eq_false noField) ⟨rfl, rfl⟩
  | single name behind =>
    simp only [read] at h
    split at h
    · next field =>
      have isField : (Tag.single name behind).isField = true := decide_eq_true field
      have noMark := (Bool.or_eq_false_iff.mp (Tag.stops_eq_false_of_isField isField)).2
      obtain ⟨same, d', isDraft', extended, counted⟩ := readField_inside isDraft h
      exact ⟨same, d', isDraft', by simp [noMark, extended], by simp [isField, counted]⟩
    · next noField =>
      have noField : (Tag.single name behind).isField = false := decide_eq_false noField
      split at h
      · next mark =>
        have isMark : (Tag.single name behind).isMark = true := decide_eq_true mark
        cases h
        exact ⟨rfl, { d with extended := true }, by rw [isDraft, Option.map_some], by simp [isMark],
          by simp [noField]⟩
      · next noMark =>
        cases h
        exact unread (decide_eq_false noMark) noField ⟨rfl, rfl⟩
  | finish name =>
    have noMessage : name ≠ "message".toList := of_decide_eq_false inside
    simp only [read, if_neg noMessage] at h
    split at h
    · cases h
    · split at h
      · cases h
      · cases h
        exact unread rfl rfl ⟨rfl, rfl⟩

theorem run_inside (isDraft : p.draft = some d) (inside : ∀ t ∈ ts, t.isMessage = false)
    (h : ts.foldlM read p = .ok q) :
    q.definitions = p.definitions ∧ ∃ d', q.draft = some d' ∧ d'.fields.length =
      d.fields.length + if d.extended then 0 else (hiddenFields ts).length := by
  induction ts generalizing p d with
  | nil =>
    cases h
    exact ⟨rfl, d, isDraft, by simp [hiddenFields]⟩
  | cons t ts ih =>
    obtain ⟨here, inside⟩ := List.forall_mem_cons.mp inside
    obtain ⟨p', first, h⟩ := ok_of_bind h
    obtain ⟨same, d', isDraft', extended, counted⟩ := read_inside isDraft here first
    obtain ⟨same', d'', isDraft'', counted'⟩ := ih isDraft' inside h
    refine ⟨same'.trans same, d'', isDraft'', ?_⟩
    rw [counted', counted, extended, hiddenFields_cons, here, Bool.false_or]
    cases field : t.isField with
    | true =>
      have noMark := (Bool.or_eq_false_iff.mp (Tag.stops_eq_false_of_isField field)).2
      cases d.extended <;> simp [noMark, Nat.add_assoc, Nat.add_comm 1]
    | false => cases d.extended <;> cases t.isMark <;> simp

theorem read_finish_message (isDraft : p.draft = some d)
    (h : p.read (.finish "message".toList) = .ok q) :
    ∃ definition : Definition, q.definitions = p.definitions ++ [definition]
      ∧ definition.declared = d.fields := by
  simp only [read, if_true] at h
  split at h
  · cases h
  · split at h
    · cases h
    · simp only [finishMessage, isDraft] at h
      obtain ⟨definition, finished, h⟩ := ok_of_bind h
      cases h
      rw [Draft.finish] at finished
      split at finished
      · cases finished
        exact ⟨_, rfl, rfl⟩
      · cases finished

theorem definitions_of_readField {behind : List Char} (h : p.readField behind = .ok q) :
    q.definitions = p.definitions := by
  rw [readField] at h
  split at h
  · split at h
    · cases h
      rfl
    · obtain ⟨_, -, h⟩ := ok_of_bind h
      cases h
      rfl
  · cases h
    rfl

theorem definitions_prefix_of_read (h : p.read t = .ok q) : p.definitions <+: q.definitions := by
  cases t with
  | start name behind =>
    simp only [read] at h
    split at h
    · obtain ⟨_, -, h⟩ := ok_of_bind h
      cases h
      exact List.prefix_rfl
    · split at h
      · exact (definitions_of_readField h) ▸ List.prefix_rfl
      · cases h
        exact List.prefix_rfl
  | single name behind =>
    simp only [read] at h
    split at h
    · exact (definitions_of_readField h) ▸ List.prefix_rfl
    · split at h <;> cases h <;> exact List.prefix_rfl
  | finish name =>
    simp only [read] at h
    split at h
    · cases h
    · split at h
      · cases h
      · split at h
        · rw [finishMessage] at h
          split at h
          · obtain ⟨definition, -, h⟩ := ok_of_bind h
            cases h
            exact List.prefix_append _ _
          · cases h
            exact List.prefix_rfl
        · cases h
          exact List.prefix_rfl

/-- What becomes of an open message: it has the fields read before and, unless a mark stood before
them, the fields up to the next mark. -/
theorem declared_of_outcome {list : List Definition} (isDraft : p.draft = some d)
    (inside : ∀ t ∈ inner, t.isMessage = false)
    (h : p.outcome (inner ++ .finish "message".toList :: rest) = .ok list) :
    ∃ definition : Definition, p.definitions ++ [definition] <+: list
      ∧ definition.declared.length =
        d.fields.length + if d.extended then 0 else (hiddenFields inner).length := by
  rw [outcome_append] at h
  obtain ⟨p', first, h⟩ := ok_of_bind h
  obtain ⟨same, d', isDraft', counted⟩ := run_inside isDraft inside first
  rw [outcome_cons] at h
  obtain ⟨p'', closed, h⟩ := ok_of_bind h
  obtain ⟨definition, defined, declared⟩ := read_finish_message isDraft' closed
  obtain ⟨q, others, rfl⟩ : ∃ q, rest.foldlM read p'' = .ok q ∧ q.definitions = list := by
    rw [outcome] at h
    cases others : rest.foldlM read p'' with
    | error e =>
      rw [others] at h
      cases h
    | ok q =>
      rw [others] at h
      cases h
      exact ⟨q, rfl, rfl⟩
  refine ⟨definition, ?_, declared ▸ counted⟩
  rw [← same, ← defined]
  exact kept_of_foldlM (motive := fun q => p''.definitions <+: q.definitions)
    (fun _ _ _ before read => before.trans (definitions_prefix_of_read read)) others List.prefix_rfl

theorem hiddenFields_eq_nil_of_outcome {list : List Definition} (isDraft : p.draft = some d)
    (collects : d.extended = false) (inside : ∀ t ∈ inner, t.isMessage = false)
    (h : p.outcome (inner ++ .finish "message".toList :: rest) = .ok list)
    (h' : p.marked.outcome (inner ++ .finish "message".toList :: rest) = .ok list) :
    hiddenFields inner = [] := by
  have marked : p.marked.draft = some { d with extended := true } := by
    rw [Progress.marked, isDraft, Option.map_some]
  obtain ⟨definition, place, counted⟩ := declared_of_outcome isDraft inside h
  obtain ⟨definition', place', counted'⟩ := declared_of_outcome marked inside h'
  have lists : p.definitions ++ [definition] = p.definitions ++ [definition'] :=
    List.prefix_of_prefix_length_le place place' (by simp [Progress.marked]) |>.eq_of_length
      (by simp [Progress.marked])
  have same : definition = definition' := by simpa using lists
  rw [same] at counted
  simp only [collects, if_true, Bool.false_eq_true, if_false] at counted counted'
  exact List.length_eq_zero_iff.mp (by omega)

end Progress

end Dialect

end VehicleLink
