import Diorama.Proofs.Toml.Keys
import Diorama.Settings.Reading

/-!
# Settings as they are written

A document writes some of the settings (`written?`). It is read exactly if it has no other sections
and keys and every value that it writes is accepted (`Key.Accepts`); then each setting is the
written one, or the standard one if none is written (`ofEntries_eq_some_iff`). In a document that is
not read, one can point at what is wrong (`ofEntries_eq_none_iff`).

Every stage of reading changes the settings that it writes and no other (`Changes`). Stages that
write different settings compose (`Changes.bind`, `changes_entries`), so a section is read from its
entries and a document from its sections by the same argument.
-/

namespace Diorama.Settings

open Toml (Value Entries)

/-- The settings that a document may write. -/
inductive Key where
  | columnSpacing
  | rowSpacing
  | workloadDepth
  | serviceDepth
  | cubeSize
  | strict
deriving DecidableEq

namespace Key

def sectionName : Key → String
  | columnSpacing | rowSpacing | workloadDepth | serviceDepth => "layout"
  | cubeSize => "export"
  | strict => "parser"

def name : Key → String
  | columnSpacing => "column_spacing"
  | rowSpacing => "row_spacing"
  | workloadDepth => "workload_depth"
  | serviceDepth => "service_depth"
  | cubeSize => "cube_size"
  | strict => "strict"

/-- The place of a key in its section, if the section is written as a list. -/
def place : Key → Nat
  | columnSpacing | cubeSize | strict => 0
  | rowSpacing => 1
  | workloadDepth => 2
  | serviceDepth => 3

theorem forall_iff {P : Key → Prop} :
    (∀ key, P key) ↔ P columnSpacing ∧ P rowSpacing ∧ P workloadDepth ∧ P serviceDepth ∧
      P cubeSize ∧ P strict := by
  constructor
  · intro h
    exact ⟨h _, h _, h _, h _, h _, h _⟩
  · rintro ⟨hColumn, hRow, hWorkload, hService, hSize, hStrict⟩ (_ | _) <;> assumption

end Key

/-- What a setting may be. -/
inductive Setting where
  | number (x : Double)
  | switch (b : Bool)
deriving DecidableEq

/-- The setting under a key. -/
def get (s : Settings) : Key → Setting
  | .columnSpacing => .number s.spacing.column
  | .rowSpacing => .number s.spacing.row
  | .workloadDepth => .number s.spacing.workloadDepth
  | .serviceDepth => .number s.spacing.serviceDepth
  | .cubeSize => .number s.cubeSize
  | .strict => .switch s.strict

theorem ext_get {s s' : Settings} (h : ∀ key, s'.get key = s.get key) : s' = s := by
  obtain ⟨⟨column, row, workloadDepth, serviceDepth⟩, cubeSize, strict⟩ := s
  obtain ⟨⟨column', row', workloadDepth', serviceDepth'⟩, cubeSize', strict'⟩ := s'
  simpa [Key.forall_iff, get, and_assoc] using h

/-- A key accepts a value as a setting: whole numbers of 64 bits and numbers with a point or an
exponent where a number is asked for, and truth values where a switch is. -/
inductive Key.Accepts : Key → Value → Setting → Prop
  | whole {key : Key} {n : Int} {x : Double} : key ≠ strict →
      -0x8000000000000000 ≤ n → n < 0x10000000000000000 → x = .ofInt n →
      Accepts key (.integer n) (.number x)
  | float {key : Key} {x : Double} : key ≠ strict → Accepts key (.float x) (.number x)
  | switch {b : Bool} : Accepts strict (.boolean b) (.switch b)

/-- A reader of values finds exactly the settings that a key accepts. -/
def Key.IsReadBy {α : Type} (key : Key) (read? : Value → Option α) (wrap : α → Setting) : Prop :=
  ∀ value setting, key.Accepts value setting ↔ ∃ x, read? value = some x ∧ setting = wrap x

theorem isReadBy_number? {key : Key} (hKey : key ≠ .strict) : key.IsReadBy number? .number := by
  intro value setting
  constructor
  · intro h
    cases h with
    | whole _ hLeast hGreatest hNumber =>
      refine ⟨_, ?_, rfl⟩
      rw [number?, if_pos, hNumber]
      exact ⟨hLeast, hGreatest⟩
    | float => exact ⟨_, rfl, rfl⟩
    | switch => contradiction
  · rintro ⟨x, hx, rfl⟩
    cases value with
    | integer n =>
      rw [number?, Option.ite_none_right_eq_some] at hx
      obtain ⟨⟨hLeast, hGreatest⟩, hx⟩ := hx
      exact .whole hKey hLeast hGreatest (Option.some.inj hx).symm
    | float y =>
      rw [← Option.some.inj hx]
      exact .float hKey
    | _ => cases hx

theorem isReadBy_switch? : Key.strict.IsReadBy switch? .switch := by
  intro value setting
  constructor
  · intro h
    cases h with
    | whole => contradiction
    | float => contradiction
    | switch => exact ⟨_, rfl, rfl⟩
  · rintro ⟨b, hb, rfl⟩
    cases value with
    | boolean c =>
      cases hb
      exact .switch
    | _ => cases hb

theorem Key.Accepts.unique {key : Key} {value : Value} {setting setting' : Setting}
    (h : key.Accepts value setting) (h' : key.Accepts value setting') : setting' = setting := by
  cases h with
  | whole _ _ _ hNumber =>
    obtain ⟨_, _, _, hNumber'⟩ := h'
    rw [hNumber, hNumber']
  | float _ => cases h'; rfl
  | switch => cases h'; rfl

/-! ### What is written -/

/-- What the value of its section writes under a key: in a table the value under its name, in a list
the one at its place. -/
def Key.within (key : Key) : Value → Option Value
  | .table _ entries => entries.lookup key.name
  | .array _ items => items[key.place]?
  | _ => none

/-- What a document writes under a key. -/
def written? (entries : Entries) (key : Key) : Option Value :=
  (entries.lookup key.sectionName).bind key.within

/-- A setting becomes the written one if something is written, and else stays what it was. -/
inductive Key.Turns (key : Key) : Option Value → Setting → Setting → Prop
  | written {value : Value} {before after : Setting} :
      key.Accepts value after → key.Turns (some value) before after
  | kept {setting : Setting} : key.Turns none setting setting

def Follow (written : Key → Option Value) (before after : Settings) : Prop :=
  ∀ key : Key, key.Turns (written key) (before.get key) (after.get key)

/-- A stage of reading succeeds exactly on what has the right form, with the settings that follow
what is written. -/
def Changes (stage : Settings → Option Settings) (form : Prop) (written : Key → Option Value) :
    Prop :=
  ∀ s s', stage s = some s' ↔ form ∧ Follow written s s'

section Turns

variable {key : Key} {written written' : Option Value} {before between after : Setting}

theorem Key.turns_some_iff {value : Value} :
    key.Turns (some value) before after ↔ key.Accepts value after := by
  constructor
  · rintro ⟨h⟩
    exact h
  · exact .written

theorem Key.turns_none_iff : key.Turns none before after ↔ after = before := by
  constructor
  · rintro ⟨⟩
    rfl
  · rintro rfl
    exact .kept

theorem Key.Turns.trans (h : key.Turns written before between)
    (h' : key.Turns written' between after) (hApart : written = none ∨ written' = none) :
    key.Turns (written.or written') before after := by
  cases h with
  | kept => exact h'
  | written hAccepts =>
    obtain rfl := hApart.resolve_left (by simp)
    cases h'
    exact .written hAccepts

theorem Key.Turns.of_or (h : key.Turns (written.or written') before after)
    (hApart : written = none ∨ written' = none) (hFirst : key.Turns written before between) :
    key.Turns written' between after := by
  cases hFirst with
  | kept => exact h
  | written hAccepts =>
    obtain rfl := hApart.resolve_left (by simp)
    obtain rfl := (turns_some_iff.mp h).unique hAccepts
    exact .kept

end Turns

/-- The settings that are made of written values. -/
def update (s : Settings) (written : Key → Option Value) : Settings where
  spacing :=
    { column := ((written .columnSpacing).bind number?).getD s.spacing.column
      row := ((written .rowSpacing).bind number?).getD s.spacing.row
      workloadDepth := ((written .workloadDepth).bind number?).getD s.spacing.workloadDepth
      serviceDepth := ((written .serviceDepth).bind number?).getD s.spacing.serviceDepth }
  cubeSize := ((written .cubeSize).bind number?).getD s.cubeSize
  strict := ((written .strict).bind switch?).getD s.strict

theorem Key.IsReadBy.turns {α : Type} {key : Key} {read? : Value → Option α} {wrap : α → Setting}
    (hRead : key.IsReadBy read? wrap) {written : Option Value}
    (h : ∀ value ∈ written, ∃ setting, key.Accepts value setting) (x : α) :
    key.Turns written (wrap x) (wrap ((written.bind read?).getD x)) := by
  cases written with
  | none => exact .kept
  | some value =>
    obtain ⟨setting, hAccepts⟩ := h value rfl
    obtain ⟨y, hy, rfl⟩ := (hRead value setting).mp hAccepts
    rw [Option.bind_some, hy, Option.getD_some]
    exact .written hAccepts

/-- Written values that are accepted have settings that follow them. -/
theorem follow_update {written : Key → Option Value}
    (h : ∀ key, ∀ value ∈ written key, ∃ setting, key.Accepts value setting) (s : Settings) :
    Follow written s (s.update written) := by
  intro key
  cases key with
  | strict => exact isReadBy_switch?.turns (h _) _
  | _ => exact (isReadBy_number? (by simp)).turns (h _) _

theorem follow_none_iff {s s' : Settings} : Follow (fun _ => none) s s' ↔ s = s' := by
  simp only [Follow, Key.turns_none_iff]
  constructor
  · intro h
    exact (ext_get h).symm
  · rintro rfl key
    rfl

theorem Changes.bind {first second : Settings → Option Settings} {form form' : Prop}
    {written written' : Key → Option Value} (h : Changes first form written)
    (h' : Changes second form' written')
    (hApart : ∀ key, written key = none ∨ written' key = none) :
    Changes (fun s => first s >>= second) (form ∧ form')
      (fun key => (written key).or (written' key)) := by
  intro s s'
  constructor
  · intro hBoth
    obtain ⟨t, hFirst, hSecond⟩ := Option.bind_eq_some_iff.mp hBoth
    obtain ⟨hForm, hFollow⟩ := (h s t).mp hFirst
    obtain ⟨hForm', hFollow'⟩ := (h' t s').mp hSecond
    exact ⟨⟨hForm, hForm'⟩, fun key => (hFollow key).trans (hFollow' key) (hApart key)⟩
  · rintro ⟨⟨hForm, hForm'⟩, hFollow⟩
    have hUpdate : Follow written s (s.update written) := by
      refine follow_update (fun key value hValue => ?_) s
      have hKey : key.Turns ((written key).or (written' key)) _ _ := hFollow key
      rw [Option.mem_def.mp hValue, Option.some_or, Key.turns_some_iff] at hKey
      exact ⟨_, hKey⟩
    refine Option.bind_eq_some_iff.mpr ⟨_, (h s _).mpr ⟨hForm, hUpdate⟩, (h' _ s').mpr ⟨hForm', ?_⟩⟩
    exact fun key => (hFollow key).of_or (hApart key) (hUpdate key)

/-- Stages that write different settings, one after the other. -/
theorem changes_foldlM {α : Type} {step : Settings → α → Option Settings} {form : α → Prop}
    {written : α → Key → Option Value} {stages : List α}
    (hStages : ∀ stage ∈ stages, Changes (step · stage) (form stage) (written stage))
    (hApart : stages.Pairwise fun a b => ∀ key, written a key = none ∨ written b key = none) :
    Changes (fun s => stages.foldlM step s) (∀ stage ∈ stages, form stage)
      (fun key => stages.findSome? (written · key)) := by
  induction stages with
  | nil =>
    intro s s'
    simp [follow_none_iff]
  | cons stage stages ih =>
    rw [List.forall_mem_cons] at hStages
    rw [List.pairwise_cons] at hApart
    have hBoth := hStages.1.bind (ih hStages.2 hApart.2) fun key => ?_
    · intro s s'
      simp only [List.foldlM_cons, List.forall_mem_cons, findSome?_cons_eq_or]
      exact hBoth s s'
    · rcases hStage : written stage key with _ | value
      · exact .inl rfl
      · refine .inr (List.findSome?_eq_none_iff.mpr fun later hLater => ?_)
        exact (hApart.1 later hLater key).resolve_left (by simp [hStage])

/-- Stages that belong to the entries of a list without repeated keys. What they write is found by
looking it up. -/
theorem changes_entries {α β : Type} [DecidableEq α] {entries : List (α × β)}
    (hNodup : (entries.map Prod.fst).Nodup) {step : Settings → α × β → Option Settings}
    {form : α × β → Prop} (place : Key → Option α) (value? : Key → β → Option Value)
    (hEntries : ∀ entry ∈ entries, Changes (step · entry) (form entry)
      fun key => if place key = some entry.1 then value? key entry.2 else none) :
    Changes (fun s => entries.foldlM step s) (∀ entry ∈ entries, form entry)
      fun key => (place key).bind fun a => (entries.lookup a).bind (value? key) := by
  have hApart : entries.Pairwise fun a b => ∀ key,
      (if place key = some a.1 then value? key a.2 else none) = none ∨
        (if place key = some b.1 then value? key b.2 else none) = none := by
    refine (List.pairwise_map.mp hNodup).imp fun {a b} hNe key => ?_
    by_cases hPlace : place key = some a.1
    · refine .inr (if_neg fun hOther => hNe ?_)
      exact Option.some.inj (hPlace.symm.trans hOther)
    · exact .inl (if_neg hPlace)
  have hWritten : (fun key => entries.findSome? fun entry =>
      if place key = some entry.1 then value? key entry.2 else none) =
      fun key => (place key).bind fun a => (entries.lookup a).bind (value? key) := by
    funext key
    cases place key with
    | none => simp
    | some a =>
      simp only [Option.some.injEq, Option.bind_some, eq_comm (a := a)]
      exact findSome?_ite_eq_bind hNodup a (value? key)
  rw [← hWritten]
  exact changes_foldlM hEntries hApart

/-! ### Fields -/

namespace Key

/-- The field that reads a key. -/
def field : Key → Field
  | columnSpacing => spacingField "column_spacing" fun s x => { s with column := x }
  | rowSpacing => spacingField "row_spacing" fun s x => { s with row := x }
  | workloadDepth => spacingField "workload_depth" fun s x => { s with workloadDepth := x }
  | serviceDepth => spacingField "service_depth" fun s x => { s with serviceDepth := x }
  | cubeSize => numberField "cube_size" fun s x => { s with cubeSize := x }
  | strict => ⟨"strict", fun value s => (switch? value).map fun b => { s with strict := b }⟩

/-- The keys of a section, in their order. -/
def inSection (name : String) : List Key :=
  [columnSpacing, rowSpacing, workloadDepth, serviceDepth, cubeSize, strict].filter
    (·.sectionName = name)

theorem mem_inSection_iff {name : String} {key : Key} :
    key ∈ inSection name ↔ key.sectionName = name := by
  cases key <;> simp [inSection]

theorem nodup_inSection (name : String) : (inSection name).Nodup :=
  List.Nodup.filter _ (by decide)

theorem getElem?_inSection (key : Key) : (inSection key.sectionName)[key.place]? = some key := by
  cases key <;> decide

theorem key_field (key : Key) : key.field.key = key.name := by cases key <;> rfl

/-- Names of sections and keys tell keys apart. -/
theorem eq_of_names {key key' : Key} (hSection : key'.sectionName = key.sectionName)
    (hName : key'.name = key.name) : key' = key := by
  cases key <;> cases key' <;> first | rfl | simp [name] at hName

end Key

theorem lookup_sections (name : String) : sections.lookup name =
    if Key.inSection name = [] then none else some ((Key.inSection name).map Key.field) := by
  by_cases hLayout : name = "layout"
  · subst hLayout; rfl
  by_cases hExport : name = "export"
  · subst hExport; rfl
  by_cases hParser : name = "parser"
  · subst hParser; rfl
  have hEmpty : Key.inSection name = [] := by
    simp [Key.inSection, Key.sectionName, Ne.symm hLayout, Ne.symm hExport, Ne.symm hParser]
  rw [hEmpty, if_pos rfl]
  refine List.lookup_eq_none_iff.mpr fun entry hEntry => ?_
  simp only [sections, List.mem_cons, List.not_mem_nil, or_false] at hEntry
  rcases hEntry with rfl | rfl | rfl <;> simpa

/-- One key with its value. -/
def single (key : Key) (value : Value) (other : Key) : Option Value :=
  if other = key then some value else none

theorem follow_single_iff {key : Key} {value : Value} {s s' : Settings} :
    Follow (single key value) s s' ↔
      key.Accepts value (s'.get key) ∧ ∀ other, other ≠ key → s'.get other = s.get other := by
  constructor
  · intro h
    refine ⟨?_, fun other hOther => ?_⟩
    · have hKey := h key
      rwa [single, if_pos rfl, Key.turns_some_iff] at hKey
    · have hKey := h other
      rwa [single, if_neg hOther, Key.turns_none_iff] at hKey
  · rintro ⟨hKey, hOthers⟩ other
    rw [single]
    split
    · next hOther =>
      subst hOther
      exact .written hKey
    · next hOther => exact Key.turns_none_iff.mpr (hOthers other hOther)

/-- A value that is read is put under its key. -/
theorem Key.IsReadBy.changes {α : Type} {key : Key} {read? : Value → Option α}
    {wrap : α → Setting} (hRead : key.IsReadBy read? wrap) {set : Settings → α → Settings}
    (hSet : ∀ s x other, (set s x).get other = if other = key then wrap x else s.get other)
    (value : Value) :
    Changes (fun s => (read? value).map (set s)) True (single key value) := by
  intro s s'
  rw [true_and, Option.map_eq_some_iff, follow_single_iff]
  constructor
  · rintro ⟨x, hx, rfl⟩
    refine ⟨?_, fun other hOther => ?_⟩
    · rw [hSet, if_pos rfl]
      exact (hRead value _).mpr ⟨x, hx, rfl⟩
    · rw [hSet, if_neg hOther]
  · rintro ⟨hKey, hOthers⟩
    obtain ⟨x, hx, hWrap⟩ := (hRead value _).mp hKey
    refine ⟨x, hx, ext_get fun other => ?_⟩
    rw [hSet]
    split
    · next hOther => rw [hOther, hWrap]
    · next hOther => exact (hOthers other hOther).symm

theorem changes_field (key : Key) (value : Value) :
    Changes (key.field.set value) True (single key value) := by
  cases key with
  | strict => exact isReadBy_switch?.changes (fun s b other => by cases other <;> rfl) value
  | _ =>
    exact (isReadBy_number? (by simp)).changes (fun s x other => by cases other <;> rfl) value

/-! ### Sections -/

/-- The value of a section has the right form: a table of known keys, or a list. -/
inductive IsSection (name : String) : Value → Prop
  | table {form : Toml.TableForm} {entries : Entries} : (∃ key : Key, key.sectionName = name) →
      (∀ entry ∈ entries, ∃ key : Key, key.sectionName = name ∧ key.name = entry.1) →
      IsSection name (.table form entries)
  | list {grows : Bool} {items : List Value} : (∃ key : Key, key.sectionName = name) →
      IsSection name (.array grows items)

theorem find?_fields (name keyName : String) :
    ((Key.inSection name).map Key.field).find? (·.key = keyName) =
      ((Key.inSection name).find? (·.name = keyName)).map Key.field := by
  rw [List.find?_map]
  simp only [Function.comp_def, Key.key_field]

/-- The name of a key, if it belongs to a section. -/
def Key.nameIn (name : String) (key : Key) : Option String :=
  if key.sectionName = name then some key.name else none

theorem Key.nameIn_eq_some_iff {name keyName : String} {key : Key} :
    key.nameIn name = some keyName ↔ key.sectionName = name ∧ key.name = keyName := by
  simp [nameIn]

/-- An entry of a section writes the key of its name. -/
theorem changes_entry (name : String) (entry : String × Value) :
    Changes
      (fun s => do
        let field ← ((Key.inSection name).map Key.field).find? (·.key = entry.1)
        field.set entry.2 s)
      (∃ key : Key, key.sectionName = name ∧ key.name = entry.1)
      fun key => if key.nameIn name = some entry.1 then some entry.2 else none := by
  rw [find?_fields]
  cases hFind : (Key.inSection name).find? (·.name = entry.1) with
  | none =>
    intro s s'
    refine iff_of_false (by simp) ?_
    rintro ⟨⟨key, hSection, hName⟩, -⟩
    have := List.find?_eq_none.mp hFind key (Key.mem_inSection_iff.mpr hSection)
    exact this (by simpa using hName)
  | some key =>
    have hSection := Key.mem_inSection_iff.mp (List.mem_of_find?_eq_some hFind)
    have hName : key.name = entry.1 := by simpa using List.find?_some hFind
    have hSingle : (fun other : Key => if other.nameIn name = some entry.1 then
        some entry.2 else none) = single key entry.2 := by
      funext other
      have hOther : other.nameIn name = some entry.1 ↔ other = key := by
        rw [Key.nameIn_eq_some_iff]
        constructor
        · rintro ⟨hSection', hName'⟩
          exact Key.eq_of_names (hSection'.trans hSection.symm) (hName'.trans hName.symm)
        · rintro rfl
          exact ⟨hSection, hName⟩
      simp only [hOther, single]
    rw [hSingle]
    intro s s'
    have hField := changes_field key entry.2 s s'
    rw [true_and] at hField
    rw [and_iff_right ⟨key, hSection, hName⟩]
    exact hField

theorem changes_table {name : String} {entries : Entries}
    (hNodup : (entries.map Prod.fst).Nodup) :
    Changes
      (fun s => entries.foldlM (fun s (key, value) => do
        let field ← ((Key.inSection name).map Key.field).find? (·.key = key)
        field.set value s) s)
      (∀ entry ∈ entries, ∃ key : Key, key.sectionName = name ∧ key.name = entry.1)
      fun key => if key.sectionName = name then entries.lookup key.name else none := by
  have hWritten :
      (fun key : Key => if key.sectionName = name then entries.lookup key.name else none) =
      fun key => (key.nameIn name).bind fun keyName => (entries.lookup keyName).bind some := by
    funext key
    rw [Key.nameIn]
    split <;> simp
  rw [hWritten]
  exact changes_entries hNodup (Key.nameIn name) (fun _ => some) fun entry _ =>
    changes_entry name entry

theorem changes_list (name : String) (items : List Value) :
    Changes
      (fun s => (((Key.inSection name).map Key.field).zip items).foldlM
        (fun s (field, value) => field.set value s) s)
      True
      fun key => if key.sectionName = name then items[key.place]? else none := by
  have hNodup := nodup_map_fst_zip (Key.nodup_inSection name) items
  have hWritten : (fun key : Key => if key.sectionName = name then items[key.place]? else none) =
      fun key => (some key).bind fun other =>
        (((Key.inSection name).zip items).lookup other).bind some := by
    funext key
    rw [Option.bind_some, Option.bind_fun_some]
    split
    · next hSection =>
      subst hSection
      exact (lookup_zip (Key.nodup_inSection _) (Key.getElem?_inSection key) items).symm
    · next hSection =>
      refine (List.lookup_eq_none_iff.mpr fun entry hEntry => ?_).symm
      have hKey := Key.mem_inSection_iff.mp (List.of_mem_zip hEntry).1
      have : key ≠ entry.1 := by
        rintro rfl
        exact hSection hKey
      simpa using this
  have hEntry (entry : Key × Value) : Changes (entry.1.field.set entry.2) True
      fun key => if some key = some entry.1 then some entry.2 else none := by
    simp only [Option.some.injEq]
    exact changes_field entry.1 entry.2
  have hFold := changes_entries hNodup some (fun _ => some) fun entry _ => hEntry entry
  rw [hWritten]
  intro s s'
  dsimp only
  rw [List.zip_map_left, List.foldlM_map]
  simpa using hFold s s'

/-- A section is read if it has the right form, and its keys become what it writes. -/
theorem changes_section (name : String) {value : Value} (hValue : value.HasDistinctKeys) :
    Changes
      (fun s => do
        let fields ← sections.lookup name
        readSection fields value s)
      (IsSection name value)
      fun key => if key.sectionName = name then key.within value else none := by
  rw [lookup_sections]
  by_cases hEmpty : Key.inSection name = []
  · have hUnknown : ¬ ∃ key : Key, key.sectionName = name := by
      rintro ⟨key, hKey⟩
      simpa [hEmpty] using Key.mem_inSection_iff.mpr hKey
    intro s s'
    rw [if_pos hEmpty]
    refine iff_of_false (by simp) ?_
    rintro ⟨hKnown | hKnown, -⟩
    · exact hUnknown hKnown
    · exact hUnknown hKnown
  · obtain ⟨known, hKnown⟩ := List.exists_mem_of_ne_nil _ hEmpty
    have hKnown : ∃ key : Key, key.sectionName = name := ⟨known, Key.mem_inSection_iff.mp hKnown⟩
    intro s s'
    dsimp only
    rw [if_neg hEmpty, Option.bind_eq_bind, Option.bind_some]
    cases value with
    | table form entries =>
      have hNodup := (Toml.Value.hasDistinctKeys_table_iff.mp hValue).nodup
      refine (changes_table hNodup s s').trans (and_congr_left fun _ => ?_)
      constructor
      · exact .table hKnown
      · rintro ⟨-, hKeys⟩
        exact hKeys
    | array grows items =>
      exact (changes_list name items s s').trans (and_congr_left fun _ =>
        iff_of_true trivial (.list hKnown))
    | _ =>
      refine iff_of_false (by simp [readSection]) ?_
      rintro ⟨⟨⟩, -⟩

/-! ### Documents -/

theorem ofEntries_eq_some_iff_follow {entries : Entries} (hEntries : entries.HasDistinctKeys)
    {s : Settings} :
    ofEntries entries = some s ↔
      (∀ entry ∈ entries, IsSection entry.1 entry.2) ∧ Follow (written? entries) standard s :=
  changes_entries hEntries.nodup (fun key => some key.sectionName) Key.within
    (fun entry hEntry => by
      simpa using changes_section entry.1 (hEntries.values entry hEntry)) standard s

/-- What can be wrong with a document. -/
inductive Misfit (entries : Entries) : Prop
  | unknownSection {name : String} {value : Value} : (name, value) ∈ entries →
      (∀ key : Key, key.sectionName ≠ name) → Misfit entries
  | noSection {name : String} {value : Value} : (name, value) ∈ entries →
      value.isContainer = false → Misfit entries
  | unknownKey {name : String} {form : Toml.TableForm} {inner : Entries} {entry : String × Value} :
      (name, .table form inner) ∈ entries → entry ∈ inner →
      (∀ key : Key, key.sectionName = name → key.name ≠ entry.1) → Misfit entries
  | unaccepted {key : Key} {value : Value} : written? entries key = some value →
      (∀ setting, ¬ key.Accepts value setting) → Misfit entries

theorem isSection_of_not_misfit {entries : Entries} (h : ¬ Misfit entries) :
    ∀ entry ∈ entries, IsSection entry.1 entry.2 := by
  rintro ⟨name, value⟩ hEntry
  have hKnown : ∃ key : Key, key.sectionName = name := by
    by_contra hUnknown
    exact h (.unknownSection hEntry (not_exists.mp hUnknown))
  cases value with
  | table form inner =>
    refine .table hKnown fun entry hInner => ?_
    by_contra hUnknown
    refine h (.unknownKey hEntry hInner fun key hSection hName => ?_)
    exact hUnknown ⟨key, hSection, hName⟩
  | array grows items => exact .list hKnown
  | _ => exact absurd (.noSection hEntry rfl) h

theorem Misfit.not_read {entries : Entries} (h : Misfit entries) {s : Settings}
    (hSections : ∀ entry ∈ entries, IsSection entry.1 entry.2)
    (hFollow : Follow (written? entries) standard s) : False := by
  cases h with
  | unknownSection hEntry hUnknown =>
    rcases hSections _ hEntry with ⟨⟨key, hKey⟩, -⟩ | ⟨key, hKey⟩
    · exact hUnknown key hKey
    · exact hUnknown key hKey
  | noSection hEntry hFlat =>
    have hSection := hSections _ hEntry
    cases hSection
    · cases hFlat
    · cases hFlat
  | unknownKey hEntry hInner hUnknown =>
    obtain ⟨-, hKeys⟩ := hSections _ hEntry
    obtain ⟨key, hSection, hName⟩ := hKeys _ hInner
    exact hUnknown key hSection hName
  | @unaccepted key value hWritten hUnaccepted =>
    have hKey := hFollow key
    rw [hWritten, Key.turns_some_iff] at hKey
    exact hUnaccepted _ hKey

/-- **Each setting is the written one or the standard one**, in every document without a misfit. -/
theorem ofEntries_eq_some_iff {entries : Entries} (hEntries : entries.HasDistinctKeys)
    {s : Settings} :
    ofEntries entries = some s ↔ ¬ Misfit entries ∧ Follow (written? entries) standard s := by
  rw [ofEntries_eq_some_iff_follow hEntries]
  constructor
  · rintro ⟨hSections, hFollow⟩
    exact ⟨fun hMisfit => hMisfit.not_read hSections hFollow, hFollow⟩
  · rintro ⟨hFits, hFollow⟩
    exact ⟨isSection_of_not_misfit hFits, hFollow⟩

theorem ofEntries_eq_none_iff {entries : Entries} (hEntries : entries.HasDistinctKeys) :
    ofEntries entries = none ↔ Misfit entries := by
  rw [Option.eq_none_iff_forall_ne_some]
  constructor
  · intro hNone
    by_contra hFits
    have hAccepted : ∀ key, ∀ value ∈ written? entries key,
        ∃ setting, key.Accepts value setting := by
      intro key value hWritten
      by_contra hUnaccepted
      exact hFits (.unaccepted hWritten (not_exists.mp hUnaccepted))
    exact hNone _ ((ofEntries_eq_some_iff hEntries).mpr ⟨hFits, follow_update hAccepted standard⟩)
  · intro hMisfit s hRead
    exact ((ofEntries_eq_some_iff hEntries).mp hRead).1 hMisfit

end Diorama.Settings
