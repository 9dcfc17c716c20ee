import Facebooc.LinearProbe
import Mathlib.Data.Finset.Card
import Mathlib.Data.Finset.Range
import Mathlib.Order.Interval.Finset.Nat
import Mathlib.Data.Nat.Find
import Mathlib.Tactic.Common

set_option autoImplicit false

namespace LinearProbe

-- Which slots are taken depends on the homes of the stored elements alone, and
-- not on the order in which they came.

def steps (n h s : Nat) : Nat := (s + (n - h % n)) % n

-- Some stretch of slots that ends in s is the home of at least as many of the
-- elements as it has slots.
def Crowded {α : Type} (home : α → Nat) (n : Nat) (xs : List α) (s : Nat) : Prop :=
  ∃ d < n, d < (xs.filter fun x => decide (steps n (home x) s ≤ d)).length

instance {α : Type} (home : α → Nat) (n : Nat) (xs : List α) (s : Nat) : Decidable (Crowded home n xs s) :=
  inferInstanceAs (Decidable (∃ d < n, _))

theorem crowded_perm {α : Type} (home : α → Nat) (n : Nat) (xs ys : List α) (s : Nat) (same : xs.Perm ys) :
    Crowded home n xs s ↔ Crowded home n ys s := by
  have lengths : ∀ d, (xs.filter fun x => decide (steps n (home x) s ≤ d)).length =
      (ys.filter fun x => decide (steps n (home x) s ≤ d)).length := fun d => (same.filter _).length_eq
  simp only [Crowded, lengths]

theorem steps_lt (n h s : Nat) (positive : 0 < n) : steps n h s < n := Nat.mod_lt _ positive

theorem walk_steps (n h s : Nat) (bound : s < n) : (h + steps n h s) % n = s := by
  have reduced := Nat.mod_lt h (show 0 < n by omega)
  calc (h + steps n h s) % n = (h + (s + (n - h % n))) % n := Nat.add_mod_mod _ _ _
    _ = (h % n + (s + (n - h % n))) % n := (Nat.mod_add_mod h n _).symm
    _ = (s + n) % n := by congr 1; omega
    _ = s := by rw [Nat.add_mod_right, Nat.mod_eq_of_lt bound]

theorem steps_unique (n h s d : Nat) (bound : d < n) (arrives : (h + d) % n = s) : steps n h s = d := by
  have inside : s < n := arrives ▸ Nat.mod_lt _ (by omega)
  apply walk_injective n h _ d (steps_lt n h s (by omega)) bound
  rw [walk_steps n h s inside, arrives]

theorem steps_compose (n h j s e k : Nat) (eBound : e < n) (kBound : k < n) (first : (h + e) % n = j)
    (second : (j + k) % n = s) : e + k = steps n h s ∨ e + k = steps n h s + n := by
  have whole : (h + (e + k)) % n = s := by
    rw [← second, ← first, Nat.mod_add_mod, Nat.add_assoc]
  by_cases straight : e + k < n
  · exact .inl (steps_unique n h s (e + k) straight whole).symm
  · have wrapped : (h + (e + k - n)) % n = s := by
      rw [← whole, ← Nat.add_mod_right (h + (e + k - n)) n]
      congr 1
      omega
    have distance := steps_unique n h s (e + k - n) (by omega) wrapped
    omega

theorem steps_injective (n i j s : Nat) (iBound : i < n) (jBound : j < n) (inside : s < n)
    (same : steps n i s = steps n j s) : i = j := by
  have arrive : (i + steps n i s) % n = (j + steps n i s) % n := by
    rw [walk_steps n i s inside, same, walk_steps n j s inside]
  have residues : i % n = j % n := Nat.ModEq.add_right_cancel' _ arrive
  rwa [Nat.mod_eq_of_lt iBound, Nat.mod_eq_of_lt jBound] at residues

theorem steps_onto (n s k : Nat) (inside : s < n) (bound : k < n) : ∃ j < n, steps n j s = k := by
  obtain ⟨j, jBound, arrives⟩ := walk_onto n k s inside
  refine ⟨j, jBound, steps_unique n j s k bound ?_⟩
  rw [Nat.add_comm, arrives]

def matching {α : Type} (t : List (Option α)) (p : α → Bool) : Finset Nat :=
  (Finset.range t.length).filter fun j => (t.getD j none).any p = true

theorem mem_matching {α : Type} (t : List (Option α)) (p : α → Bool) (j : Nat) :
    j ∈ matching t p ↔ ∃ x, t[j]? = some (some x) ∧ p x = true := by
  simp only [matching, Finset.mem_filter, Finset.mem_range, List.getD_eq_getElem?_getD]
  constructor
  · intro member
    obtain ⟨bound, wanted⟩ := member
    rw [List.getElem?_eq_getElem bound] at wanted ⊢
    cases slot : t[j] with
    | none => simp [slot] at wanted
    | some x => exact ⟨x, rfl, by simpa [slot] using wanted⟩
  · intro stored
    obtain ⟨x, slot, wanted⟩ := stored
    exact ⟨(List.getElem?_eq_some_iff.mp slot).1, by simp [slot, wanted]⟩

theorem matching_snoc {α : Type} (t : List (Option α)) (slot : Option α) (p : α → Bool) :
    matching (t ++ [slot]) p = if slot.any p = true then insert t.length (matching t p) else matching t p := by
  ext j
  have last : t.length ∈ matching (t ++ [slot]) p ↔ slot.any p = true := by
    simp [matching]
  by_cases here : j = t.length
  · subst here
    by_cases wanted : slot.any p = true <;> simp [last, wanted, mem_matching]
  · have same : (t ++ [slot])[j]? = t[j]? ∨ t.length < j := by
      rcases Nat.lt_or_gt_of_ne here with before | after
      · exact .inl (List.getElem?_append_left before)
      · exact .inr after
    have unchanged : j ∈ matching (t ++ [slot]) p ↔ j ∈ matching t p := by
      rcases same with agree | after
      · rw [mem_matching, mem_matching, agree]
      · simp only [matching, Finset.mem_filter, Finset.mem_range, List.length_append, List.length_singleton]
        omega
    by_cases wanted : slot.any p = true <;> simp [unchanged, wanted, here]

theorem matching_card {α : Type} (t : List (Option α)) (p : α → Bool) :
    ((contents t).filter p).length = (matching t p).card := by
  induction t using List.reverseRecOn with
  | nil => rfl
  | append_singleton t slot ih =>
      have fresh : t.length ∉ matching t p := by simp [matching]
      rw [contents, List.reduceOption_append, List.filter_append, List.length_append, ← contents, ih, matching_snoc]
      cases slot with
      | none => simp
      | some x =>
          by_cases wanted : p x = true
          · simp [wanted, Finset.card_insert_of_notMem fresh]
          · simp [wanted]

-- Where the element in slot j stands between its home and s.
theorem stored_steps {α : Type} (home : α → Nat) (t : List (Option α)) (j s : Nat) (x : α) (closed : Closed home t)
    (inside : s < t.length) (slot : t[j]? = some (some x)) :
    ∃ e < t.length, (home x + e) % t.length = j ∧ (∀ k < e, Occupied t ((home x + k) % t.length)) ∧
      (e + steps t.length j s = steps t.length (home x) s ∨
        e + steps t.length j s = steps t.length (home x) s + t.length) := by
  obtain ⟨e, eBound, atJ, chain⟩ := closed j x slot
  exact ⟨e, eBound, atJ, chain, steps_compose t.length (home x) j s e _ eBound (steps_lt _ _ _ (by omega)) atJ
    (walk_steps _ _ _ inside)⟩

theorem hole_not_crowded {α : Type} (home : α → Nat) (t : List (Option α)) (s : Nat) (closed : Closed home t)
    (hole : Hole t s) : ¬ Crowded home t.length (contents t) s := by
  intro crowded
  obtain ⟨d, dBound, many⟩ := crowded
  have inside : s < t.length := (List.getElem?_eq_some_iff.mp hole).1
  rw [matching_card] at many
  -- All of them stand in the d slots in front of s.
  have few : (matching t fun x => decide (steps t.length (home x) s ≤ d)).card ≤ (Finset.Icc 1 d).card := by
    apply Finset.card_le_card_of_injOn fun j => steps t.length j s
    · intro j member
      obtain ⟨x, slot, near⟩ := (mem_matching t _ j).mp member
      have near := of_decide_eq_true near
      obtain ⟨e, eBound, atJ, chain, distance⟩ := stored_steps home t j s x closed inside slot
      have short : e < steps t.length (home x) s := by
        rcases Nat.lt_trichotomy e (steps t.length (home x) s) with less | same | more
        · exact less
        · rw [same, walk_steps _ _ _ inside] at atJ
          exact absurd ⟨x, atJ ▸ slot⟩ (hole_not_occupied t s hole)
        · have full := chain _ more
          rw [walk_steps _ _ _ inside] at full
          exact absurd full (hole_not_occupied t s hole)
      have below := steps_lt t.length j s (by omega)
      simp only [Finset.coe_Icc, Set.mem_Icc]
      omega
    · intro i iMember j jMember same
      obtain ⟨x, xSlot, _⟩ := (mem_matching t _ i).mp iMember
      obtain ⟨y, ySlot, _⟩ := (mem_matching t _ j).mp jMember
      exact steps_injective t.length i j s (List.getElem?_eq_some_iff.mp xSlot).1
        (List.getElem?_eq_some_iff.mp ySlot).1 inside same
  rw [Nat.card_Icc] at few
  omega

theorem nearest_hole {α : Type} (t : List (Option α)) (s : Nat) (room : (contents t).length < t.length)
    (inside : s < t.length) :
    ∃ g < t.length, Hole t g ∧ ∀ j < t.length, steps t.length j s < steps t.length g s → Occupied t j := by
  classical
  obtain ⟨d, _, hole⟩ := room_has_hole t s room
  have present : ∃ c, ∃ g < t.length, Hole t g ∧ steps t.length g s = c :=
    ⟨_, _, Nat.mod_lt _ (by omega), hole, rfl⟩
  obtain ⟨g, gBound, gHole, distance⟩ := Nat.find_spec present
  refine ⟨g, gBound, gHole, ?_⟩
  intro j jBound nearer
  rcases hole_or_occupied t j jBound with empty | full
  · rw [distance] at nearer
    exact absurd ⟨j, jBound, empty, rfl⟩ (Nat.find_min present nearer)
  · exact full

theorem occupied_crowded {α : Type} (home : α → Nat) (t : List (Option α)) (s : Nat) (closed : Closed home t)
    (room : (contents t).length < t.length) (full : Occupied t s) : Crowded home t.length (contents t) s := by
  obtain ⟨y, slot⟩ := full
  have inside : s < t.length := (List.getElem?_eq_some_iff.mp slot).1
  obtain ⟨g, gBound, gHole, nearest⟩ := nearest_hole t s room inside
  have apart : steps t.length g s ≠ 0 := by
    intro zero
    have here := walk_steps t.length g s inside
    rw [zero, Nat.add_zero, Nat.mod_eq_of_lt gBound] at here
    exact hole_not_occupied t g gHole ⟨y, here ▸ slot⟩
  have gSteps := steps_lt t.length g s (by omega)
  refine ⟨steps t.length g s - 1, by omega, ?_⟩
  rw [matching_card]
  -- The run of full slots that ends in s is the stretch.
  have run : (Finset.range (steps t.length g s)).card ≤
      (matching t fun x => decide (steps t.length (home x) s ≤ steps t.length g s - 1)).card := by
    choose back backBound backSteps using fun k : Fin t.length => steps_onto t.length s k inside k.2
    apply Finset.card_le_card_of_injOn fun k => if bound : k < t.length then back ⟨k, bound⟩ else 0
    · intro k member
      have less : k < steps t.length g s := by simpa using member
      have bound : k < t.length := by omega
      have distance : steps t.length (back ⟨k, bound⟩) s = k := backSteps ⟨k, bound⟩
      obtain ⟨x, stored⟩ := nearest (back ⟨k, bound⟩) (backBound _) (by omega)
      simp only [dif_pos bound, Finset.mem_coe, mem_matching]
      refine ⟨x, stored, decide_eq_true ?_⟩
      obtain ⟨e, eBound, _, chain, onward⟩ := stored_steps home t _ s x closed inside stored
      have gap := steps_compose t.length (home x) g s (steps t.length (home x) g) (steps t.length g s)
        (steps_lt _ _ _ (by omega)) gSteps (walk_steps _ _ _ gBound) (walk_steps _ _ _ inside)
      have beyond : e ≤ steps t.length (home x) g := by
        by_contra crossed
        have taken := chain _ (Nat.lt_of_not_le crossed)
        rw [walk_steps _ _ _ gBound] at taken
        exact hole_not_occupied t g gHole taken
      have far := steps_lt t.length (home x) g (by omega)
      omega
    · intro i iMember j jMember same
      have iLess : i < steps t.length g s := by simpa using iMember
      have jLess : j < steps t.length g s := by simpa using jMember
      have iBound : i < t.length := by omega
      have jBound : j < t.length := by omega
      simp only [dif_pos iBound, dif_pos jBound] at same
      have distances := congrArg (fun b => steps t.length b s) same
      simp only [backSteps] at distances
      exact distances
  rw [Finset.card_range] at run
  omega

theorem hole_iff_not_crowded {α : Type} (home : α → Nat) (t : List (Option α)) (s : Nat) (closed : Closed home t)
    (room : (contents t).length < t.length) (inside : s < t.length) :
    Hole t s ↔ ¬ Crowded home t.length (contents t) s := by
  constructor
  · exact hole_not_crowded home t s closed
  · intro free
    rcases hole_or_occupied t s inside with hole | full
    · exact hole
    · exact absurd (occupied_crowded home t s closed room full) free

theorem place_keeps_slot {α : Type} (home : α → Nat) (x : α) (t : List (Option α)) (i : Nat) (y : α)
    (room : (contents t).length < t.length) (inside : home x < t.length) (slot : t[i]? = some (some y)) :
    (place home x t)[i]? = some (some y) := by
  obtain ⟨d, _, _, hole, placed⟩ := place_cases home x t room inside
  have apart : (home x + d) % t.length ≠ i := by
    intro same
    exact hole_not_occupied _ _ hole (same ▸ ⟨y, slot⟩)
  rw [placed, List.getElem?_set_ne apart, slot]

theorem place_in_home {α : Type} (home : α → Nat) (x : α) (t : List (Option α)) (room : (contents t).length < t.length)
    (inside : home x < t.length) (free : Hole t (home x)) : (place home x t)[home x]? = some (some x) := by
  obtain ⟨d, _, passed, _, placed⟩ := place_cases home x t room inside
  have start : (home x + 0) % t.length = home x := Nat.mod_eq_of_lt inside
  cases d with
  | zero =>
      rw [placed, start]
      exact List.getElem?_set_self inside
  | succ d =>
      have full := passed_occupied t _ _ _ passed 0 (Nat.succ_pos d)
      rw [start] at full
      exact absurd full (hole_not_occupied t _ free)

theorem place_all_keeps_slot {α : Type} (home : α → Nat) (xs : List α) (t : List (Option α)) (i : Nat) (y : α)
    (closed : Closed home t) (room : (contents t).length + xs.length < t.length) (inside : ∀ x ∈ xs, home x < t.length)
    (slot : t[i]? = some (some y)) : (xs.foldl (fun u x => place home x u) t)[i]? = some (some y) := by
  refine place_all_keeps home (fun u => u[i]? = some (some y)) ?_ xs t closed room inside slot
  intro u x roomy homed before
  exact place_keeps_slot home x u i y roomy homed before

-- An element is rehashed into its home slot unless the ones before it crowd it.
theorem place_all_home {α : Type} (home : α → Nat) (n : Nat) (front rest : List α) (x : α)
    (room : front.length + (rest.length + 1) < n) (inside : ∀ y, home y < n) (absent : x ∉ front) :
    ((front ++ x :: rest).foldl (fun u y => place home y u) (List.replicate n none))[home x]? = some (some x) ↔
      ¬ Crowded home n front (home x) := by
  have empty : (contents (List.replicate n (none : Option α))).length = 0 := by rw [contents_empty]; rfl
  obtain ⟨slots, closed, kept⟩ := place_all home front (List.replicate n none) (closed_empty home n)
    (by rw [empty, List.length_replicate]; omega) (by intro y _; rw [List.length_replicate]; exact inside y)
  rw [contents_empty, List.append_nil] at kept
  rw [List.length_replicate] at slots
  rw [List.foldl_append, List.foldl_cons]
  generalize front.foldl (fun u y => place home y u) (List.replicate n none) = before at slots closed kept ⊢
  have count := kept.length_eq
  have placed := place_placed home x before closed (by omega) (by rw [slots]; exact inside x)
  have more := placed.contents.length_eq
  simp only [List.length_cons] at more
  have later : ∀ (i : Nat) (y : α), (place home x before)[i]? = some (some y) →
      (rest.foldl (fun u y => place home y u) (place home x before))[i]? = some (some y) := by
    intro i y slot
    apply place_all_keeps_slot home rest _ i y placed.closed (by rw [placed.length]; omega) ?_ slot
    intro z _
    rw [placed.length, slots]
    exact inside z
  have free := hole_iff_not_crowded home before (home x) closed (by omega) (by rw [slots]; exact inside x)
  rw [slots, crowded_perm home n _ _ _ kept] at free
  rw [← free]
  constructor
  · intro atHome
    rcases hole_or_occupied before (home x) (by rw [slots]; exact inside x) with hole | ⟨y, slot⟩
    · exact hole
    · have other := later _ y (place_keeps_slot home x before _ y (by omega) (by rw [slots]; exact inside x) slot)
      rw [atHome] at other
      cases other
      exact absurd (kept.mem_iff.mp ((mem_contents before x).mpr ⟨_, slot⟩)) absent
  · intro hole
    exact later _ x (place_in_home home x before (by omega) (by rw [slots]; exact inside x) hole)

end LinearProbe
