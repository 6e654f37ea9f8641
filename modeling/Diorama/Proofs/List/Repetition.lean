import Mathlib.Data.List.Basic
import Mathlib.Data.List.Induction

/-!
# Lists without repetitions

Dropping repetitions leaves every item in its first place (`eraseDups_concat`), and each of them once
(`nodup_eraseDups`). `firsts` tells which places these are.
-/

namespace Diorama

variable {α : Type} [DecidableEq α]

theorem eraseDups_concat (l : List α) (a : α) :
    (l ++ [a]).eraseDups = if a ∈ l then l.eraseDups else l.eraseDups ++ [a] := by
  rw [List.eraseDups_append, List.cons_removeAll, List.nil_removeAll]
  by_cases h : a ∈ l
  · simp [h]
  · simp only [List.contains_eq_mem, h, decide_false, if_false]
    rfl

theorem nodup_eraseDups (l : List α) : l.eraseDups.Nodup := by
  induction hLength : l.length using Nat.strongRecOn generalizing l with
  | ind n ih =>
    cases l with
    | nil => exact List.nodup_nil
    | cons a l =>
      rw [List.eraseDups_cons, List.nodup_cons, List.mem_eraseDups]
      refine ⟨by simp, ih _ ?_ _ rfl⟩
      rw [← hLength, List.length_cons]
      exact Nat.lt_succ_of_le (List.length_filter_le _ l)

theorem eraseDups_eq_self {l : List α} (h : l.Nodup) : l.eraseDups = l := by
  induction l with
  | nil => rfl
  | cons a l ih =>
    obtain ⟨ha, hl⟩ := List.nodup_cons.mp h
    have hFilter : (l.filter fun b => !b == a) = l := by
      rw [List.filter_eq_self]
      intro b hb
      have hNe : b ≠ a := by
        rintro rfl
        exact ha hb
      simp [hNe]
    rw [List.eraseDups_cons, hFilter, ih hl]

theorem filter_eraseDups (p : α → Bool) (l : List α) :
    l.eraseDups.filter p = (l.filter p).eraseDups := by
  induction l using List.reverseRecOn with
  | nil => rfl
  | append_singleton l a ih =>
    rw [eraseDups_concat, List.filter_append]
    by_cases hp : p a = true
    · rw [List.filter_cons_of_pos hp, List.filter_nil, eraseDups_concat]
      by_cases h : a ∈ l
      · rw [if_pos h, if_pos (List.mem_filter.mpr ⟨h, hp⟩), ih]
      · rw [if_neg h, if_neg fun h' => h (List.mem_of_mem_filter h'), List.filter_append, ih,
          List.filter_cons_of_pos hp, List.filter_nil]
    · rw [List.filter_cons_of_neg hp, List.filter_nil, List.append_nil]
      split_ifs
      · exact ih
      · rw [List.filter_append, ih, List.filter_cons_of_neg hp, List.filter_nil, List.append_nil]

theorem eraseDups_map {β : Type} [DecidableEq β] {f : α → β} (hf : f.Injective) (l : List α) :
    (l.map f).eraseDups = l.eraseDups.map f := by
  induction l using List.reverseRecOn with
  | nil => rfl
  | append_singleton l a ih =>
    rw [List.map_append, List.map_singleton, eraseDups_concat, eraseDups_concat, ih]
    by_cases h : a ∈ l
    · rw [if_pos h, if_pos (List.mem_map_of_mem h)]
    · rw [if_neg h, if_neg (mt (List.mem_map_of_injective hf).mp h), List.map_append,
        List.map_singleton]

/-- For every place of a list whether its item is not in a place before. -/
def firsts (l : List α) : List Bool := l.mapIdx fun i a => a ∉ l.take i

theorem firsts_concat (l : List α) (a : α) : firsts (l ++ [a]) = firsts l ++ [decide (a ∉ l)] := by
  rw [firsts, firsts, List.mapIdx_concat, List.take_left' rfl]
  congr 1
  refine List.ext_getElem? fun i => ?_
  rw [List.getElem?_mapIdx, List.getElem?_mapIdx]
  by_cases hi : i < l.length
  · rw [List.take_append_of_le_length (Nat.le_of_lt hi)]
  · rw [List.getElem?_eq_none (by omega), Option.map_none, Option.map_none]

end Diorama
