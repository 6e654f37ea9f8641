import Diorama.Proofs.List.Lookup
import Diorama.Toml.Reading

/-!
# Keys of TOML documents

No table of a document has a key twice, however deep it lies (`hasDistinctKeys_of_read?`). A line
adds to a table in few ways, and each of them keeps this: a value is put in the place of the old one
(`set`), only a new key is added (`add`), and on the way to a table nothing else changes
(`descend`). So a document says one thing about each key (`lookup_eq_some_iff_mem`).
-/

namespace Diorama.Toml

/-- Lists and tables hold other values. -/
def Value.isContainer : Value → Bool
  | .array .. | .table .. => true
  | _ => false

/-- No table in a value has a key twice. -/
inductive Value.HasDistinctKeys : Value → Prop
  | scalar {value : Value} : value.isContainer = false → value.HasDistinctKeys
  | array {grows : Bool} {items : List Value} :
      (∀ item ∈ items, item.HasDistinctKeys) → (Value.array grows items).HasDistinctKeys
  | table {form : TableForm} {entries : Entries} :
      (entries.map Prod.fst).Nodup → (∀ entry ∈ entries, entry.2.HasDistinctKeys) →
      (Value.table form entries).HasDistinctKeys

structure Entries.HasDistinctKeys (entries : Entries) : Prop where
  nodup : (entries.map Prod.fst).Nodup
  values : ∀ entry ∈ entries, entry.2.HasDistinctKeys

theorem Value.hasDistinctKeys_array_iff {grows : Bool} {items : List Value} :
    (Value.array grows items).HasDistinctKeys ↔ ∀ item ∈ items, item.HasDistinctKeys := by
  constructor
  · rintro (h | h)
    · cases h
    · exact h
  · exact .array

theorem Value.hasDistinctKeys_table_iff {form : TableForm} {entries : Entries} :
    (Value.table form entries).HasDistinctKeys ↔ entries.HasDistinctKeys := by
  constructor
  · rintro (h | _ | ⟨hNodup, hValues⟩)
    · cases h
    · exact ⟨hNodup, hValues⟩
  · intro h
    exact .table h.nodup h.values

/-! ### Ways of adding -/

namespace Entries.HasDistinctKeys

variable {entries entries' : Entries}

theorem nil : Entries.HasDistinctKeys [] := ⟨List.nodup_nil, by simp⟩

theorem lookup (h : entries.HasDistinctKeys) {key : String} {value : Value}
    (hLookup : List.lookup key entries = some value) : value.HasDistinctKeys :=
  h.values _ (mem_of_lookup_eq_some hLookup)

theorem append (h : entries.HasDistinctKeys) {key : String} {value : Value}
    (hValue : value.HasDistinctKeys) (hNew : ¬ entries.any (·.1 = key)) :
    Entries.HasDistinctKeys (entries ++ [(key, value)]) := by
  have hFresh : key ∉ entries.map Prod.fst := by simpa using hNew
  constructor
  · rw [List.map_append]
    exact List.nodup_append_comm.mp (List.nodup_cons.mpr ⟨hFresh, h.nodup⟩)
  · exact List.forall_mem_append.mpr ⟨h.values, by simpa using hValue⟩

theorem set (h : entries.HasDistinctKeys) (key : String) {value : Value}
    (hValue : value.HasDistinctKeys) : (entries.set key value).HasDistinctKeys := by
  rw [Entries.set]
  split
  · -- Only values change, so the keys are what they were.
    constructor
    · rw [map_fst_map fun entry _ => by dsimp only; split <;> rfl]
      exact h.nodup
    · intro entry hEntry
      obtain ⟨old, hOld, rfl⟩ := List.mem_map.mp hEntry
      dsimp only
      split
      · exact hValue
      · exact h.values old hOld
  · next hNew => exact h.append hValue hNew

theorem add (h : entries.HasDistinctKeys) {key : String} {value : Value}
    (hValue : value.HasDistinctKeys) (hAdd : entries.add key value = some entries') :
    entries'.HasDistinctKeys := by
  rw [Entries.add] at hAdd
  split at hAdd
  · cases hAdd
  · next hNew =>
    cases hAdd
    exact h.append hValue hNew

/-- A change at the end of a path keeps what it keeps of the table there. -/
theorem descend {dotted : Bool} {change : TableForm → Entries → Option Entries}
    (hChange : ∀ {form inner inner'}, Entries.HasDistinctKeys inner →
      change form inner = some inner' → Entries.HasDistinctKeys inner')
    {path : List String} {form : TableForm} (h : entries.HasDistinctKeys)
    (hDescend : Entries.descend dotted change path form entries = some entries') :
    entries'.HasDistinctKeys := by
  induction path generalizing form entries entries' with
  | nil => exact hChange h hDescend
  | cons key path ih =>
    rw [Entries.descend] at hDescend
    split at hDescend
    · obtain ⟨inner, hInner, hSet⟩ := Option.bind_eq_some_iff.mp hDescend
      cases hSet
      exact h.set key (Value.hasDistinctKeys_table_iff.mpr (ih nil hInner))
    · next form inner hLookup =>
      split at hDescend
      · cases hDescend
      · obtain ⟨inner', hInner, hSet⟩ := Option.bind_eq_some_iff.mp hDescend
        cases hSet
        have hOld := Value.hasDistinctKeys_table_iff.mp (h.lookup hLookup)
        exact h.set key (Value.hasDistinctKeys_table_iff.mpr (ih hOld hInner))
    · next items hLookup =>
      have hItems := Value.hasDistinctKeys_array_iff.mp (h.lookup hLookup)
      split at hDescend
      · next form inner hLast =>
        obtain ⟨inner', hInner, hSet⟩ := Option.bind_eq_some_iff.mp hDescend
        cases hSet
        have hOld := Value.hasDistinctKeys_table_iff.mp (hItems _ (List.mem_of_getLast? hLast))
        have hTable : (Value.table form inner').HasDistinctKeys :=
          Value.hasDistinctKeys_table_iff.mpr (ih hOld hInner)
        refine h.set key (Value.hasDistinctKeys_array_iff.mpr (List.forall_mem_append.mpr ⟨?_, ?_⟩))
        · exact fun item hItem => hItems item (List.dropLast_subset items hItem)
        · simpa using hTable
      · cases hDescend
    · cases hDescend

theorem addDotted (h : entries.HasDistinctKeys) {path : List String} {key : String} {value : Value}
    (hValue : value.HasDistinctKeys) (hAdd : entries.addDotted path key value = some entries') :
    entries'.HasDistinctKeys := by
  refine h.descend (fun hInner hChange => ?_) hAdd
  split at hChange
  · cases hChange
  · exact hInner.add hValue hChange

theorem addUnder (h : entries.HasDistinctKeys) {header path : List String} {key : String}
    {value : Value} (hValue : value.HasDistinctKeys)
    (hAdd : entries.addUnder header path key value = some entries') : entries'.HasDistinctKeys :=
  h.descend (fun hInner hChange => hInner.addDotted hValue hChange) hAdd

theorem openTable (h : entries.HasDistinctKeys) {path : List String} {key : String}
    (hOpen : entries.openTable path key = some entries') : entries'.HasDistinctKeys := by
  refine h.descend (fun hInner hChange => ?_) hOpen
  split at hChange
  · cases hChange
    exact hInner.set key (Value.hasDistinctKeys_table_iff.mpr nil)
  · next old hLookup =>
    cases hChange
    have hOld := Value.hasDistinctKeys_table_iff.mp (hInner.lookup hLookup)
    exact hInner.set key (Value.hasDistinctKeys_table_iff.mpr hOld)
  · cases hChange

theorem openListed (h : entries.HasDistinctKeys) {path : List String} {key : String}
    (hOpen : entries.openListed path key = some entries') : entries'.HasDistinctKeys := by
  have hNew : (Value.table .header []).HasDistinctKeys := Value.hasDistinctKeys_table_iff.mpr nil
  refine h.descend (fun hInner hChange => ?_) hOpen
  split at hChange
  · cases hChange
    exact hInner.set key (Value.hasDistinctKeys_array_iff.mpr (by simpa using hNew))
  · next items hLookup =>
    cases hChange
    have hItems := Value.hasDistinctKeys_array_iff.mp (hInner.lookup hLookup)
    exact hInner.set key (Value.hasDistinctKeys_array_iff.mpr
      (List.forall_mem_append.mpr ⟨hItems, by simpa using hNew⟩))
  · cases hChange

end Entries.HasDistinctKeys

/-! ### Reading -/

theorem isContainer_of_wholeNumber? {text : List Char} {value : Value}
    (h : wholeNumber? text = some value) : value.isContainer = false := by
  unfold wholeNumber? at h
  split at h
  · cases h; rfl
  · split at h
    · cases h; rfl
    · cases h

theorem isContainer_of_float? {text : List Char} {value : Value} (h : float? text = some value) :
    value.isContainer = false := by
  simp only [float?] at h
  split at h
  · cases h; rfl
  split at h
  · cases h; rfl
  obtain ⟨whole, _, h⟩ := Option.bind_eq_some_iff.mp h
  obtain ⟨fraction, _, h⟩ := Option.bind_eq_some_iff.mp h
  obtain ⟨power, _, h⟩ := Option.bind_eq_some_iff.mp h
  split at h
  · cases h
  obtain ⟨decimal, _, h⟩ := Option.bind_eq_some_iff.mp h
  cases h
  split <;> rfl

theorem isContainer_of_takeScalar? {text rest : List Char} {value : Value}
    (h : takeScalar? text = some (value, rest)) : value.isContainer = false := by
  obtain ⟨scalar, hScalar, hPair⟩ := Option.map_eq_some_iff.mp h
  cases hPair
  unfold scalar? at hScalar
  split at hScalar
  · cases hScalar; rfl
  split at hScalar
  · cases hScalar; rfl
  split at hScalar
  · cases hScalar; rfl
  rcases Option.or_eq_some_iff.mp hScalar with hWhole | ⟨_, hFloat⟩
  · exact isContainer_of_wholeNumber? hWhole
  · exact isContainer_of_float? hFloat

/-- Text and scalars have no keys. -/
theorem hasDistinctKeys_of_unnested {text rest : List Char} {value : Value}
    (h : (if opensLong text then (long? text).map fun (s, rest) => (.text s, rest)
      else ((quoted? text).map fun (s, rest) => (Value.text s, rest)).or (takeScalar? text)) =
        some (value, rest)) : value.HasDistinctKeys := by
  split at h
  · obtain ⟨_, _, hPair⟩ := Option.map_eq_some_iff.mp h
    cases hPair
    exact .scalar rfl
  · rcases Option.or_eq_some_iff.mp h with h | ⟨_, h⟩
    · obtain ⟨_, _, hPair⟩ := Option.map_eq_some_iff.mp h
      cases hPair
      exact .scalar rfl
    · exact .scalar (isContainer_of_takeScalar? h)

/-- What the three readers of nested values give, by induction on what bounds them. -/
theorem hasDistinctKeys_of_readers (bound : Nat) :
    (∀ {depth text value rest}, value? bound depth text = some (value, rest) →
      value.HasDistinctKeys) ∧
    (∀ {depth text items rest}, items? bound depth text = some (items, rest) →
      ∀ item ∈ items, Value.HasDistinctKeys item) ∧
    (∀ {depth entries text entries' rest}, Entries.HasDistinctKeys entries →
      pairs? bound depth entries text = some (entries', rest) →
      Entries.HasDistinctKeys entries') := by
  induction bound with
  | zero => simp [value?, items?, pairs?]
  | succ bound ih =>
    obtain ⟨ihValue, ihItems, ihPairs⟩ := ih
    refine ⟨fun h => ?value, fun h => ?items, fun hEntries h => ?pairs⟩
    case value =>
      rw [value?.eq_def] at h
      dsimp only at h
      split at h
      · obtain ⟨⟨items, _⟩, hItems, hPair⟩ := Option.map_eq_some_iff.mp h
        cases hPair
        exact .array (ihItems hItems)
      · obtain ⟨⟨entries, _⟩, hEntries, hPair⟩ := Option.map_eq_some_iff.mp h
        cases hPair
        exact Value.hasDistinctKeys_table_iff.mpr (ihPairs .nil hEntries)
      · exact hasDistinctKeys_of_unnested h
    case items =>
      rw [items?.eq_def] at h
      dsimp only at h
      split at h
      · cases h; simp
      · obtain ⟨⟨item, _⟩, hItem, h⟩ := Option.bind_eq_some_iff.mp h
        dsimp only at h
        split at h
        · obtain ⟨⟨items, _⟩, hItems, hPair⟩ := Option.bind_eq_some_iff.mp h
          cases hPair
          exact List.forall_mem_cons.mpr ⟨ihValue hItem, ihItems hItems⟩
        · cases h
          simpa using ihValue hItem
        · cases h
    case pairs =>
      rw [pairs?.eq_def] at h
      dsimp only at h
      split at h
      · cases h; exact hEntries
      · obtain ⟨⟨⟨path, key⟩, _⟩, _, h⟩ := Option.bind_eq_some_iff.mp h
        dsimp only at h
        split at h
        · obtain ⟨⟨value, _⟩, hValue, h⟩ := Option.bind_eq_some_iff.mp h
          obtain ⟨added, hAdded, h⟩ := Option.bind_eq_some_iff.mp h
          have hAdded := hEntries.addDotted (ihValue hValue) hAdded
          dsimp only at h
          split at h
          · exact ihPairs hAdded h
          · cases h; exact hAdded
          · cases h
        · cases h

theorem hasDistinctKeys_of_readLine {p p' : Progress} {text rest : List Char}
    (hEntries : p.entries.HasDistinctKeys) (h : readLine p text = some (p', rest)) :
    p'.entries.HasDistinctKeys := by
  unfold readLine at h
  split at h
  · obtain ⟨⟨⟨path, key⟩, _⟩, _, h⟩ := Option.bind_eq_some_iff.mp h
    dsimp only at h
    split at h
    · obtain ⟨opened, hOpened, h⟩ := Option.bind_eq_some_iff.mp h
      obtain ⟨_, _, hPair⟩ := Option.bind_eq_some_iff.mp h
      cases hPair
      exact hEntries.openListed hOpened
    · cases h
  · obtain ⟨⟨⟨path, key⟩, _⟩, _, h⟩ := Option.bind_eq_some_iff.mp h
    dsimp only at h
    split at h
    · obtain ⟨opened, hOpened, h⟩ := Option.bind_eq_some_iff.mp h
      obtain ⟨_, _, hPair⟩ := Option.bind_eq_some_iff.mp h
      cases hPair
      exact hEntries.openTable hOpened
    · cases h
  · obtain ⟨⟨⟨path, key⟩, _⟩, _, h⟩ := Option.bind_eq_some_iff.mp h
    dsimp only at h
    split at h
    · obtain ⟨⟨value, _⟩, hValue, h⟩ := Option.bind_eq_some_iff.mp h
      obtain ⟨added, hAdded, h⟩ := Option.bind_eq_some_iff.mp h
      obtain ⟨_, _, hPair⟩ := Option.bind_eq_some_iff.mp h
      cases hPair
      exact hEntries.addUnder ((hasDistinctKeys_of_readers _).1 hValue) hAdded
    · cases h

theorem hasDistinctKeys_of_readLines {bound : Nat} {p : Progress} {text : List Char}
    {entries : Entries} (hEntries : p.entries.HasDistinctKeys)
    (h : readLines bound p text = some entries) : entries.HasDistinctKeys := by
  induction bound generalizing p text with
  | zero =>
    unfold readLines at h
    split at h
    · cases h; exact hEntries
    · cases h
    · contradiction
  | succ bound ih =>
    unfold readLines at h
    split at h
    · cases h; exact hEntries
    · contradiction
    · next hBound _ =>
      cases hBound
      obtain ⟨⟨p', rest⟩, hLine, h⟩ := Option.bind_eq_some_iff.mp h
      exact ih (hasDistinctKeys_of_readLine hEntries hLine) h

/-- **A document says one thing about each key.** No table of what is read has a key twice. -/
theorem hasDistinctKeys_of_read? {document : String} {entries : Entries}
    (h : read? document = some entries) : entries.HasDistinctKeys :=
  hasDistinctKeys_of_readLines .nil h

end Diorama.Toml
