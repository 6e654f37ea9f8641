import Mathlib.Data.List.Nodup

/-!
# Looking up

In a list of pairs without repeated keys, a key leads to one value alone (`lookup_eq_some_iff_mem`).
-/

namespace Diorama

variable {α β γ : Type}

theorem findSome?_cons_eq_or (f : α → Option β) (a : α) (l : List α) :
    (a :: l).findSome? f = (f a).or (l.findSome? f) := by
  rw [List.findSome?_cons]
  cases f a <;> rfl

theorem nodup_map_fst_zip {keys : List α} (hNodup : keys.Nodup) (values : List β) :
    ((keys.zip values).map Prod.fst).Nodup := by
  rw [List.zip_eq_zip_take_min, List.map_fst_zip (by simp)]
  exact hNodup.sublist (List.take_sublist _ _)

theorem map_fst_map {entries : List (α × β)} {f : α × β → α × γ}
    (h : ∀ entry ∈ entries, (f entry).1 = entry.1) :
    (entries.map f).map Prod.fst = entries.map Prod.fst := by
  rw [List.map_map]
  exact List.map_congr_left h

variable [DecidableEq α] {entries : List (α × β)} {key : α} {value : β}

theorem mem_of_lookup_eq_some (h : entries.lookup key = some value) : (key, value) ∈ entries := by
  obtain ⟨before, after, rfl, _⟩ := List.lookup_eq_some_iff.mp h
  simp

theorem lookup_eq_some_iff_mem (hNodup : (entries.map Prod.fst).Nodup) :
    entries.lookup key = some value ↔ (key, value) ∈ entries := by
  refine ⟨mem_of_lookup_eq_some, fun h => ?_⟩
  obtain ⟨before, after, rfl⟩ := List.append_of_mem h
  refine List.lookup_eq_some_iff.mpr ⟨before, after, rfl, fun entry hEntry => ?_⟩
  rw [List.map_append, List.nodup_append] at hNodup
  have := hNodup.2.2 entry.1 (List.mem_map_of_mem hEntry) key (by simp)
  simpa using this.symm

theorem lookup_zip {keys : List α} (hNodup : keys.Nodup) {i : Nat} (hKey : keys[i]? = some key)
    (values : List β) : (keys.zip values).lookup key = values[i]? := by
  ext value
  rw [lookup_eq_some_iff_mem (nodup_map_fst_zip hNodup values), List.mem_iff_getElem?]
  constructor
  · rintro ⟨j, hPair⟩
    obtain ⟨hOther, hValue⟩ := List.getElem?_zip_eq_some.mp hPair
    obtain ⟨hLength, -⟩ := List.getElem?_eq_some_iff.mp hOther
    have hPlace : j = i := (List.getElem?_inj hLength hNodup).mp (hOther.trans hKey.symm)
    exact hPlace ▸ hValue
  · intro hValue
    exact ⟨i, List.getElem?_zip_eq_some.mpr ⟨hKey, hValue⟩⟩

/-- At most one pair answers, so it does not matter that the first answer counts. -/
theorem findSome?_ite_eq_bind (hNodup : (entries.map Prod.fst).Nodup) (key : α)
    (f : β → Option γ) :
    entries.findSome? (fun entry => if entry.1 = key then f entry.2 else none) =
      (entries.lookup key).bind f := by
  induction entries with
  | nil => rfl
  | cons entry entries ih =>
    rw [List.map_cons, List.nodup_cons] at hNodup
    rw [findSome?_cons_eq_or, ih hNodup.2, List.lookup_cons]
    by_cases hKey : entry.1 = key
    · have hNone : entries.lookup key = none := by
        refine List.lookup_eq_none_iff.mpr fun other hOther => ?_
        have : other.1 ≠ key := by
          rintro rfl
          exact hNodup.1 (hKey ▸ List.mem_map_of_mem hOther)
        simpa using this.symm
      simp [hKey, hNone]
    · rw [if_neg hKey]
      simp [beq_false_of_ne (Ne.symm hKey)]

end Diorama
