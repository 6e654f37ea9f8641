import Mathlib.Algebra.Group.Nat.Defs

/-!
# Blocks of one length

A list that is put together from blocks of one length has as many items as its blocks have together
(`length_flatMap_of_length`), and a block is found again at its place (`take_drop_flatMap_of_length`).
-/

namespace Diorama

variable {α β : Type} {f : α → List β} {size : Nat}

theorem length_flatMap_of_length (hSize : ∀ a, (f a).length = size) (items : List α) :
    (items.flatMap f).length = size * items.length := by
  induction items with
  | nil => rfl
  | cons a items ih =>
    rw [List.flatMap_cons, List.length_append, hSize, ih, List.length_cons, Nat.mul_succ,
      Nat.add_comm]

theorem drop_flatMap_of_length (hSize : ∀ a, (f a).length = size) (items : List α) (k : Nat) :
    (items.flatMap f).drop (size * k) = (items.drop k).flatMap f := by
  induction k generalizing items with
  | zero => rfl
  | succ k ih =>
    cases items with
    | nil => simp
    | cons a items =>
      rw [List.flatMap_cons, Nat.mul_succ, Nat.add_comm, ← List.drop_drop,
        List.drop_left' (hSize a), ih, List.drop_succ_cons]

/-- The block of the `k`-th item. -/
theorem take_drop_flatMap_of_length (hSize : ∀ a, (f a).length = size) {items : List α} {k : Nat}
    {a : α} (hAt : items[k]? = some a) : ((items.flatMap f).drop (size * k)).take size = f a := by
  obtain ⟨hk, rfl⟩ := List.getElem?_eq_some_iff.mp hAt
  rw [drop_flatMap_of_length hSize, List.drop_eq_getElem_cons hk, List.flatMap_cons,
    List.take_left' (hSize _)]

end Diorama
