import Mathlib.Data.List.Count

set_option autoImplicit false

namespace LeftJoin

variable {α β : Type}

def joinRow (on : α → β → Bool) (right : List β) (x : α) : List (α × Option β) :=
  if right.any (on x) then (right.filter (on x)).map fun y => (x, some y) else [(x, none)]

def leftJoin (on : α → β → Bool) (left : List α) (right : List β) : List (α × Option β) :=
  left.flatMap (joinRow on right)

-- The left columns of the joined rows a condition lets through.
def select (on : α → β → Bool) (keep : α → Option β → Bool) (left : List α) (right : List β) : List α :=
  ((leftJoin on left right).filter fun row => keep row.1 row.2).map Prod.fst

def hits (on : α → β → Bool) (keep : α → Option β → Bool) (right : List β) (x : α) : Nat :=
  if right.any (on x) then (right.filter fun y => on x y && keep x (some y)).length else if keep x none then 1 else 0

theorem join_row_select (on : α → β → Bool) (keep : α → Option β → Bool) (right : List β) (x : α) :
    ((joinRow on right x).filter fun row => keep row.1 row.2).map Prod.fst = List.replicate (hits on keep right x) x := by
  rw [joinRow, hits]
  by_cases matched : right.any (on x) = true
  · rw [if_pos matched, if_pos matched, List.filter_map, List.map_map, List.filter_filter]
    simp only [Function.comp_def, Bool.and_comm, List.map_const']
  · rw [if_neg matched, if_neg matched]
    cases kept : keep x none with
    | true => simp [kept]
    | false => simp [kept]

theorem select_replicate (on : α → β → Bool) (keep : α → Option β → Bool) (left : List α) (right : List β) :
    select on keep left right = left.flatMap fun x => List.replicate (hits on keep right x) x := by
  induction left with
  | nil => rfl
  | cons x left ih =>
      rw [List.flatMap_cons, ← join_row_select, ← ih, select, leftJoin, List.flatMap_cons, List.filter_append,
        List.map_append]
      rfl

theorem mem_select (on : α → β → Bool) (keep : α → Option β → Bool) (left : List α) (right : List β) (x : α) :
    x ∈ select on keep left right ↔ x ∈ left ∧ 0 < hits on keep right x := by
  rw [select_replicate, List.mem_flatMap]
  constructor
  · rintro ⟨y, member, inside⟩
    obtain ⟨positive, rfl⟩ := List.mem_replicate.mp inside
    exact ⟨member, Nat.pos_of_ne_zero positive⟩
  · rintro ⟨member, positive⟩
    exact ⟨x, member, List.mem_replicate.mpr ⟨by omega, rfl⟩⟩

theorem count_select [DecidableEq α] (on : α → β → Bool) (keep : α → Option β → Bool) (left : List α) (right : List β)
    (x : α) : (select on keep left right).count x = left.count x * hits on keep right x := by
  rw [select_replicate]
  induction left with
  | nil => simp
  | cons y left ih =>
      rw [List.flatMap_cons, List.count_append, ih, List.count_cons, List.count_replicate]
      by_cases same : y = x
      · subst same
        simp [Nat.add_mul, Nat.add_comm]
      · simp [same]

end LeftJoin
