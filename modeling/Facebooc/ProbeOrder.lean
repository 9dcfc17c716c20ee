import Facebooc.LinearProbe
import Mathlib.Data.Nat.Find
import Mathlib.Tactic.Common

set_option autoImplicit false

namespace LinearProbe

-- Which of several matching elements a search meets: the one the fewest steps
-- from its start, which need not be the first one of the array.

def FirstHit {α : Type} (t : List (Option α)) (stop : α → Bool) (h : Nat) (x : α) : Prop :=
  ∃ d < t.length, Passed t stop h d ∧ t[(h + d) % t.length]? = some (some x) ∧ stop x = true

structure Lowest {α : Type} (t : List (Option α)) (stop : α → Bool) (start j : Nat) (x : α) : Prop where
  from_start : start ≤ j
  slot : t[j]? = some (some x)
  stops : stop x = true
  earlier : ∀ i, start ≤ i → i < j → ∀ y, t[i]? = some (some y) → stop y = false

theorem walk_cases (n h d : Nat) (home : h < n) (bound : d < n) :
    (h + d) % n = h + d ∧ h + d < n ∨ (h + d) % n + n = h + d ∧ (h + d) % n < h := by
  by_cases straight : h + d < n
  · exact .inl ⟨Nat.mod_eq_of_lt straight, straight⟩
  · have wrapped : (h + d) % n = h + d - n := by
      rw [Nat.mod_eq_sub_mod (by omega), Nat.mod_eq_of_lt (by omega)]
    exact .inr ⟨by omega, by omega⟩

theorem lowest_exists {α : Type} (t : List (Option α)) (stop : α → Bool) (start i : Nat) (y : α) (from_start : start ≤ i)
    (slot : t[i]? = some (some y)) (stops : stop y = true) : ∃ j x, Lowest t stop start j x := by
  classical
  have present : ∃ j, start ≤ j ∧ ∃ x, t[j]? = some (some x) ∧ stop x = true := ⟨i, from_start, y, slot, stops⟩
  obtain ⟨low, x, found, wanted⟩ := Nat.find_spec present
  refine ⟨Nat.find present, x, low, found, wanted, ?_⟩
  intro k above below z seen
  by_contra goes
  exact Nat.find_min present below ⟨above, z, seen, by simpa using goes⟩

theorem lowest_find {α : Type} (t : List (Option α)) (stop : α → Bool) (j : Nat) (x : α) (lowest : Lowest t stop 0 j x) :
    (contents t).find? stop = some x := by
  have skipped : (contents (t.take j)).find? stop = none := by
    apply List.find?_eq_none.mpr
    intro y member stops
    obtain ⟨i, inside, slot⟩ := (mem_contents_take t j y).mp member
    rw [lowest.earlier i (Nat.zero_le i) inside y slot] at stops
    cases stops
  rw [contents_at t j _ lowest.slot, List.find?_append, skipped]
  simp [lowest.stops]

theorem reached_first_hit {α : Type} (t : List (Option α)) (stop : α → Bool) (h j : Nat) (x : α) (reached : Reached t h j)
    (slot : t[j]? = some (some x)) (stops : stop x = true)
    (earlier : ∀ d < t.length, (h + d) % t.length = j → ∀ k < d, ∀ y,
      t[(h + k) % t.length]? = some (some y) → stop y = false) : FirstHit t stop h x := by
  obtain ⟨d, bound, atJ, chain⟩ := reached
  refine ⟨d, bound, ?_, by rw [atJ, slot], stops⟩
  intro k less
  obtain ⟨y, seen⟩ := chain k less
  exact ⟨y, seen, earlier d bound atJ k less y seen⟩

-- From the start of the search on, the search and the array agree.
theorem lowest_behind {α : Type} (home : α → Nat) (t : List (Option α)) (stop : α → Bool) (h j : Nat) (x : α)
    (closed : Closed home t) (homes : ∀ y, stop y = true → home y = h) (inside : h < t.length)
    (lowest : Lowest t stop h j x) : FirstHit t stop h x := by
  have reached : Reached t h j := homes x lowest.stops ▸ closed j x lowest.slot
  apply reached_first_hit t stop h j x reached lowest.slot lowest.stops
  intro d bound atJ k less y seen
  have after := lowest.from_start
  rcases walk_cases t.length h d inside bound with ⟨straight, _⟩ | ⟨_, before⟩
  · have here : (h + k) % t.length = h + k := Nat.mod_eq_of_lt (by omega)
    rw [here] at seen
    exact lowest.earlier (h + k) (by omega) (by omega) y seen
  · omega

-- An element in front of the start is met only if none stands behind it.
theorem lowest_front {α : Type} (home : α → Nat) (t : List (Option α)) (stop : α → Bool) (h j : Nat) (x : α)
    (closed : Closed home t) (homes : ∀ y, stop y = true → home y = h) (inside : h < t.length)
    (behind : ∀ i, h ≤ i → ∀ y, t[i]? = some (some y) → stop y = false) (lowest : Lowest t stop 0 j x) :
    FirstHit t stop h x := by
  have reached : Reached t h j := homes x lowest.stops ▸ closed j x lowest.slot
  apply reached_first_hit t stop h j x reached lowest.slot lowest.stops
  intro d bound atJ k less y seen
  rcases walk_cases t.length h k inside (by omega) with ⟨straight, _⟩ | ⟨wrapped, _⟩
  · rw [straight] at seen
    exact behind (h + k) (by omega) y seen
  · apply lowest.earlier ((h + k) % t.length) (Nat.zero_le _) ?_ y seen
    rcases walk_cases t.length h d inside bound with ⟨_, _⟩ | ⟨_, _⟩ <;> omega

theorem set_first_hit {α : Type} (t : List (Option α)) (stop : α → Bool) (h i : Nat) (x y : α) (hole : Hole t i)
    (first : FirstHit t stop h x) : FirstHit (t.set i (some y)) stop h x := by
  obtain ⟨d, bound, passed, slot, stops⟩ := first
  have away : ∀ k, Occupied t ((h + k) % t.length) → i ≠ (h + k) % t.length := by
    intro k full same
    exact hole_not_occupied _ _ (same ▸ hole) full
  refine ⟨d, by rwa [List.length_set], ?_, ?_, stops⟩
  · exact passed_set t stop h d i _ passed fun k less => away k (passed_occupied t stop h d passed k less)
  · rw [List.length_set, List.getElem?_set_ne (away d ⟨x, slot⟩), slot]

theorem place_keeps_first {α : Type} (home : α → Nat) (t : List (Option α)) (stop : α → Bool) (h : Nat) (x y : α)
    (room : (contents t).length < t.length) (inside : home y < t.length) (first : FirstHit t stop h x) :
    FirstHit (place home y t) stop h x := by
  obtain ⟨d, _, _, hole, same⟩ := place_cases home y t room inside
  rw [same]
  exact set_first_hit t stop h _ x y hole first

theorem place_is_first {α : Type} (home : α → Nat) (t : List (Option α)) (stop : α → Bool) (x : α)
    (room : (contents t).length < t.length) (inside : home x < t.length) (absent : ∀ y ∈ contents t, stop y = false)
    (stops : stop x = true) : FirstHit (place home x t) stop (home x) x := by
  obtain ⟨d, bound, passed, hole, placed⟩ := place_cases home x t room inside
  have unmatched : Passed t stop (home x) d := by
    intro k less
    obtain ⟨y, seen, _⟩ := passed k less
    exact ⟨y, seen, absent y ((mem_contents t y).mpr ⟨_, seen⟩)⟩
  rw [placed]
  refine ⟨d, by rwa [List.length_set], ?_, ?_, stops⟩
  · apply passed_set t stop (home x) d _ _ unmatched
    intro k less same
    exact hole_not_occupied _ _ (same ▸ hole) (passed_occupied t _ _ d passed k less)
  · rw [List.length_set, List.getElem?_set_self (List.getElem?_eq_some_iff.mp hole).1]

theorem place_all_keeps_first {α : Type} (home : α → Nat) (stop : α → Bool) (h : Nat) (xs : List α)
    (t : List (Option α)) (x : α) (closed : Closed home t) (room : (contents t).length + xs.length < t.length)
    (inside : ∀ y ∈ xs, home y < t.length) (first : FirstHit t stop h x) :
    FirstHit (xs.foldl (fun u y => place home y u) t) stop h x := by
  refine place_all_keeps home (fun u => FirstHit u stop h x) ?_ xs t closed room inside first
  intro u y roomy homed before
  exact place_keeps_first home u stop h x y roomy homed before

-- In a table filled from a list, the first match of the list is met first.
theorem place_all_first {α : Type} (home : α → Nat) (stop : α → Bool) (xs : List α) (t : List (Option α)) (x : α)
    (closed : Closed home t) (room : (contents t).length + xs.length < t.length) (inside : ∀ y ∈ xs, home y < t.length)
    (absent : ∀ y ∈ contents t, stop y = false) (found : xs.find? stop = some x) :
    FirstHit (xs.foldl (fun u y => place home y u) t) stop (home x) x := by
  induction xs generalizing t with
  | nil => cases found
  | cons y xs ih =>
      obtain ⟨placed, tail, rest⟩ := place_next home y xs t closed room inside
      rw [List.foldl_cons]
      cases wanted : stop y with
      | true =>
          rw [List.find?_cons_of_pos wanted] at found
          cases found
          exact place_all_keeps_first home stop (home x) xs _ x placed.closed tail rest
            (place_is_first home t stop x (by omega) (inside x (by simp)) absent wanted)
      | false =>
          rw [List.find?_cons_of_neg (by simp [wanted])] at found
          apply ih (place home y t) placed.closed tail rest ?_ found
          intro z member
          rcases List.mem_cons.mp (placed.contents.mem_iff.mp member) with same | old
          · rw [same, wanted]
          · exact absent z old

end LinearProbe
