import Mathlib.Data.List.TakeWhile

/-!
# Runs

A run is a list that is not empty and all of whose items are of one class. Where the items behind a run
are of another class, run and rest are found again in their concatenation
(`takeWhile_append_of_endsRun`, `dropWhile_append_of_endsRun`), so that a list has one such split
(`eq_of_append_eq_append`).
-/

namespace Diorama

variable {α : Type} {p : α → Bool}

def IsRun (p : α → Bool) (l : List α) : Prop := l ≠ [] ∧ ∀ a ∈ l, p a = true

/-- No run goes on here. -/
def EndsRun (p : α → Bool) (rest : List α) : Prop := ∀ a ∈ rest.head?, p a = false

theorem endsRun_cons {a : α} {rest : List α} (h : p a = false) : EndsRun p (a :: rest) := by
  intro b hb
  rw [List.head?_cons, Option.mem_some_iff] at hb
  rwa [← hb]

theorem EndsRun.append_of_isRun {q : α → Bool} {l rest : List α} (h : ∀ a, q a = true → p a = false)
    (hRun : IsRun q l) : EndsRun p (l ++ rest) := by
  cases l with
  | nil => exact absurd rfl hRun.1
  | cons a l => exact endsRun_cons (h a (hRun.2 a List.mem_cons_self))

/-- Items that may be missing do not go on with a run either, if what follows them does not. -/
theorem EndsRun.append {q : α → Bool} {l rest : List α} (h : ∀ a, q a = true → p a = false)
    (hItems : ∀ a ∈ l, q a = true) (hRest : EndsRun p rest) : EndsRun p (l ++ rest) := by
  cases l with
  | nil => exact hRest
  | cons a l => exact endsRun_cons (h a (hItems a List.mem_cons_self))

theorem endsRun_dropWhile (l : List α) : EndsRun p (l.dropWhile p) := by
  intro a ha
  have hHead := List.head?_dropWhile_not p l
  rw [Option.mem_def.mp ha] at hHead
  simpa using hHead

theorem isRun_takeWhile {l : List α} (h : l.takeWhile p ≠ []) : IsRun p (l.takeWhile p) :=
  ⟨h, fun _ => List.mem_takeWhile_imp⟩

section

variable {l rest : List α} (hItems : ∀ a ∈ l, p a = true) (hRest : EndsRun p rest)

include hItems hRest

theorem takeWhile_append_of_endsRun : (l ++ rest).takeWhile p = l := by
  rw [List.takeWhile_append_of_pos hItems]
  cases rest with
  | nil => simp
  | cons a rest => simp [hRest a rfl]

theorem dropWhile_append_of_endsRun : (l ++ rest).dropWhile p = rest := by
  rw [List.dropWhile_append_of_pos hItems]
  cases rest with
  | nil => rfl
  | cons a rest => simp [hRest a rfl]

/-- **A list has one split into items of a class and a rest that does not go on with them.** -/
theorem eq_of_append_eq_append {l' rest' : List α} (hItems' : ∀ a ∈ l', p a = true)
    (hRest' : EndsRun p rest') (h : l ++ rest = l' ++ rest') : l = l' ∧ rest = rest' := by
  have hTake := congrArg (List.takeWhile p) h
  rw [takeWhile_append_of_endsRun hItems hRest, takeWhile_append_of_endsRun hItems' hRest'] at hTake
  rw [hTake] at h
  exact ⟨hTake, List.append_cancel_left h⟩

end

end Diorama
