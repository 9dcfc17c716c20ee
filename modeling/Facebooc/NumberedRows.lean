import Mathlib.Data.List.Induction

set_option autoImplicit false

namespace NumberedRows

section

variable {Item Row : Type} (row : Nat → Item → Row)

-- Rows that are made of the items of a list and their positions.
theorem find_number (id : Row → Int) (ids : ∀ i item, id (row i item) = i + 1) (items : List Item) (j : Nat) :
    (items.mapIdx row).find? (fun r => id r = j + 1) = items[j]?.map (row j) := by
  induction items using List.reverseRecOn with
  | nil => rfl
  | append_singleton items item ih =>
      rw [List.mapIdx_concat, List.find?_append, ih, List.getElem?_append]
      by_cases inside : j < items.length
      · rw [if_pos inside, List.getElem?_eq_getElem inside]
        rfl
      · rw [if_neg inside, List.getElem?_eq_none (Nat.le_of_not_lt inside), Option.map_none, Option.none_or]
        by_cases last : j = items.length
        · rw [last, Nat.sub_self, List.find?_cons_of_pos (by simp [ids])]
          rfl
        · have beyond : j - items.length ≠ 0 := by omega
          have other : ¬ id (row items.length item) = j + 1 := by
            rw [ids]
            omega
          rw [List.find?_cons_of_neg (by simpa using other)]
          simp [beyond]

theorem find_item (p : Row → Bool) (q : Item → Bool) (same : ∀ i item, p (row i item) = q item) (items : List Item) :
    (items.mapIdx row).find? p = (items.findIdx? q).bind fun i => items[i]?.map (row i) := by
  induction items using List.reverseRecOn with
  | nil => rfl
  | append_singleton items item ih =>
      rw [List.mapIdx_concat, List.find?_append, ih, List.findIdx?_append]
      cases found : items.findIdx? q with
      | some i =>
          have inside := (List.findIdx?_eq_some_iff_findIdx_eq.mp found).1
          simp [inside, List.getElem?_append_left]
      | none =>
          cases chosen : q item with
          | false => simp [same, chosen, List.findIdx?_cons]
          | true => simp [same, chosen, List.findIdx?_cons]

theorem any_item (p : Row → Bool) (q : Item → Bool) (same : ∀ i item, p (row i item) = q item) (items : List Item) :
    (items.mapIdx row).any p = items.any q := by
  induction items using List.reverseRecOn with
  | nil => rfl
  | append_singleton items item ih => rw [List.mapIdx_concat, List.any_append, List.any_append, ih]; simp [same]

theorem largest_number (id : Row → Int) (ids : ∀ i item, id (row i item) = i + 1) (items : List Item) :
    ((items.mapIdx row).map id).foldl max 0 = items.length := by
  induction items using List.reverseRecOn with
  | nil => rfl
  | append_singleton items item ih =>
      rw [List.mapIdx_concat, List.map_append, List.foldl_append, ih]
      simp only [List.map_cons, List.map_nil, List.foldl_cons, List.foldl_nil, ids, List.length_append, List.length_singleton]
      omega

end

theorem find_also {α : Type} (p q : α → Bool) (items : List α) (a : α) (found : items.find? p = some a) (also_ : q a = true) :
    items.find? (fun item => p item && q item) = some a := by
  obtain ⟨holds, before, after, split, others⟩ := List.find?_eq_some_iff_append.mp found
  refine List.find?_eq_some_iff_append.mpr ⟨by simp [holds, also_], before, after, split, fun b member => ?_⟩
  have no := others b member
  simp only [Bool.not_eq_true'] at no ⊢
  simp [no]

end NumberedRows
