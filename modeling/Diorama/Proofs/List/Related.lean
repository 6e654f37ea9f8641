import Mathlib.Data.List.Forall2

/-!
# Lists related item by item

What `List.Forall₂` says about an item of one list and the item in its place in the other one.
-/

namespace Diorama

variable {α β : Type} {R S : α → β → Prop} {l : List α} {l' : List β}

theorem forall₂_imp_of_mem (h : List.Forall₂ R l l')
    (hImp : ∀ a ∈ l, ∀ b ∈ l', R a b → S a b) : List.Forall₂ S l l' := by
  induction h with
  | nil => exact .nil
  | cons hFirst _ ih =>
    refine .cons (hImp _ List.mem_cons_self _ List.mem_cons_self hFirst) (ih fun a ha b hb => ?_)
    exact hImp a (List.mem_cons_of_mem _ ha) b (List.mem_cons_of_mem _ hb)

theorem forall₂_congr_of_mem (h : ∀ a ∈ l, ∀ b ∈ l', R a b ↔ S a b) :
    List.Forall₂ R l l' ↔ List.Forall₂ S l l' := by
  constructor
  · intro hR
    exact forall₂_imp_of_mem hR fun a ha b hb => (h a ha b hb).mp
  · intro hS
    exact forall₂_imp_of_mem hS fun a ha b hb => (h a ha b hb).mpr

theorem exists_of_mem_forall₂ (h : List.Forall₂ R l l') {a : α} (ha : a ∈ l) : ∃ b ∈ l', R a b := by
  induction h with
  | nil => cases ha
  | @cons first first' _ _ hFirst _ ih =>
    rcases List.mem_cons.mp ha with rfl | ha
    · exact ⟨first', List.mem_cons_self, hFirst⟩
    · obtain ⟨b, hb, hab⟩ := ih ha
      exact ⟨b, List.mem_cons_of_mem _ hb, hab⟩

/-- Where the first list is split, the second one is split in the same place. -/
theorem exists_of_forall₂_append {before after : List α} (h : List.Forall₂ R (before ++ after) l') :
    ∃ before' after', List.Forall₂ R before before' ∧ List.Forall₂ R after after' ∧
      l' = before' ++ after' := by
  have hSplit := List.forall₂_take_append _ _ _ h.flip
  have hRest := List.forall₂_drop_append _ _ _ h.flip
  exact ⟨_, _, hSplit.flip, hRest.flip, (List.take_append_drop _ _).symm⟩

/-- An item of the second list splits the first one where it splits the second. -/
theorem exists_of_forall₂_append_cons {before : List β}
    {b : β} {after : List β} (h : List.Forall₂ R l (before ++ b :: after)) :
    ∃ before' a after', l = before' ++ a :: after' ∧ List.Forall₂ R before' before ∧ R a b := by
  induction before generalizing l with
  | nil =>
    obtain ⟨a, after', hab, -, rfl⟩ := List.forall₂_cons_right_iff.mp h
    exact ⟨[], a, after', rfl, .nil, hab⟩
  | cons b' before ih =>
    obtain ⟨a', l', hFirst, hRest, rfl⟩ := List.forall₂_cons_right_iff.mp h
    obtain ⟨before', a, after', rfl, hBefore, hab⟩ := ih hRest
    exact ⟨a' :: before', a, after', rfl, .cons hFirst hBefore, hab⟩

end Diorama
