import Mathlib.Combinatorics.Pigeonhole
import Mathlib.Data.Finset.Card
import Mathlib.Data.Finset.Prod
import Mathlib.Data.Nat.ModEq
import Mathlib.Tactic.Ring

set_option autoImplicit false

namespace ModularWindow

section Sides

variable {α : Type} (points : Finset α) (threshold : α → Nat)

def reached (x : Nat) : Finset α := points.filter fun p => threshold p ≤ x

-- Two numbers with equally many thresholds below them lie on the same side of
-- every threshold.
theorem same_side_of_le (x y : Nat) (ordered : x ≤ y)
    (count : (reached points threshold x).card = (reached points threshold y).card) :
    ∀ p ∈ points, threshold p ≤ x ↔ threshold p ≤ y := by
  intro p member
  have sub : reached points threshold x ⊆ reached points threshold y := by
    intro q below
    obtain ⟨inside, low⟩ := Finset.mem_filter.mp below
    exact Finset.mem_filter.mpr ⟨inside, Nat.le_trans low ordered⟩
  have same := Finset.eq_of_subset_of_card_le sub (Nat.le_of_eq count.symm)
  constructor
  · intro low
    exact Nat.le_trans low ordered
  · intro low
    have below : p ∈ reached points threshold x := by
      rw [same]
      exact Finset.mem_filter.mpr ⟨member, low⟩
    exact (Finset.mem_filter.mp below).2

theorem same_side (x y : Nat) (count : (reached points threshold x).card = (reached points threshold y).card) :
    ∀ p ∈ points, threshold p ≤ x ↔ threshold p ≤ y := by
  rcases Nat.le_total x y with ordered | ordered
  · exact same_side_of_le points threshold x y ordered count
  · intro p member
    exact (same_side_of_le points threshold y x ordered count.symm p member).symm

end Sides

theorem add_mod_wrap (m x d : Nat) (xLow : x < m) (dLow : d < m) :
    (x + d) % m = if m - d ≤ x then x + d - m else x + d := by
  split
  · rename_i wraps
    rw [Nat.mod_eq_sub_mod (by omega)]
    exact Nat.mod_eq_of_lt (by omega)
  · exact Nat.mod_eq_of_lt (by omega)

theorem digit_congr (a b r s e : Nat) (rLow : r < a) (sLow : s < a) (eLow : e < a) (side : a - e ≤ r ↔ a - e ≤ s)
    (digit : r % b = s % b) : (r + e) % a % b = (s + e) % a % b := by
  rw [add_mod_wrap a r e rLow eLow, add_mod_wrap a s e sLow eLow]
  by_cases wraps : a - e ≤ r
  · rw [if_pos wraps, if_pos (side.mp wraps)]
    have up : a - e ≤ s := side.mp wraps
    have same : (r + e - a) + a ≡ (s + e - a) + a [MOD b] := by
      rw [Nat.sub_add_cancel (by omega), Nat.sub_add_cancel (by omega)]
      exact Nat.ModEq.add_right e digit
    exact Nat.ModEq.add_right_cancel' a same
  · rw [if_neg wraps, if_neg fun up => wraps (side.mpr up)]
    exact Nat.ModEq.add_right e digit

-- What is added modulo a when d is added modulo m, without a wrap and with one.
def shift (m a d : Nat) (wraps : Bool) : Nat := (if wraps then d + (a - 1) * m else d) % a

theorem shifted (m a x d : Nat) (positive : 0 < a) (xLow : x < m) (dLow : d < m) :
    (x + d) % m % a = (x % a + shift m a d (decide (m - d ≤ x))) % a := by
  rw [add_mod_wrap m x d xLow dLow, shift, ← Nat.add_mod]
  by_cases wraps : m - d ≤ x
  · rw [if_pos wraps, if_pos (decide_eq_true wraps)]
    obtain ⟨k, same⟩ : ∃ k, a = k + 1 := ⟨a - 1, by omega⟩
    have whole : x + (d + (a - 1) * m) = (x + d - m) + a * m := by
      subst same
      rw [Nat.add_sub_cancel, Nat.add_mul, Nat.one_mul]
      omega
    rw [whole, Nat.add_mul_mod_self_left]
  · rw [if_neg wraps, if_neg (by simp [wraps])]

section Windows

variable (m a b c width : Nat)

def step (s : Nat) : Nat := c * s % m

def wraps (x : Nat) : Finset Nat := reached (Finset.range width) (fun s => m - step m c s) x

def carries (x : Nat) : Finset (Nat × Bool) :=
  reached (Finset.range width ×ˢ Finset.univ) (fun p => a - shift m a (step m c p.1) p.2) (x % a)

-- All that the digits of a window depend on.
def windowClass (x : Nat) : Nat × Nat × Nat := (x % a % b, (wraps m c width x).card, (carries m a c width x).card)

def classes : Finset (Nat × Nat × Nat) :=
  Finset.range b ×ˢ (Finset.range (width + 1) ×ˢ Finset.range (width * 2 + 1))

theorem window_class_mem (x : Nat) (bPositive : 0 < b) : windowClass m a b c width x ∈ classes b width := by
  have wrapCount : (wraps m c width x).card ≤ width := by
    have bound := Finset.card_filter_le (Finset.range width) fun s => m - step m c s ≤ x
    rwa [Finset.card_range] at bound
  have carryCount : (carries m a c width x).card ≤ width * 2 := by
    have bound := Finset.card_filter_le (Finset.range width ×ˢ (Finset.univ : Finset Bool))
      fun p => a - shift m a (step m c p.1) p.2 ≤ x % a
    rwa [Finset.card_product, Finset.card_range, Finset.card_univ, Fintype.card_bool] at bound
  simp only [classes, windowClass, Finset.mem_product, Finset.mem_range]
  exact ⟨Nat.mod_lt _ bPositive, by omega, by omega⟩

theorem window_class_congr (x y s : Nat) (aPositive : 0 < a) (xLow : x < m) (yLow : y < m) (inside : s < width)
    (same : windowClass m a b c width x = windowClass m a b c width y) :
    (x + step m c s) % m % a % b = (y + step m c s) % m % a % b := by
  simp only [windowClass, Prod.mk.injEq] at same
  obtain ⟨digit, wrapCount, carryCount⟩ := same
  have mPositive : 0 < m := by omega
  have low : step m c s < m := Nat.mod_lt _ mPositive
  have wrap := same_side _ _ _ _ wrapCount s (Finset.mem_range.mpr inside)
  have carry := same_side _ _ _ _ carryCount (s, decide (m - step m c s ≤ x))
    (Finset.mem_product.mpr ⟨Finset.mem_range.mpr inside, Finset.mem_univ _⟩)
  rw [shifted m a x _ aPositive xLow low, shifted m a y _ aPositive yLow low, ← decide_eq_decide.mpr wrap]
  exact digit_congr a b _ _ _ (Nat.mod_lt _ aPositive) (Nat.mod_lt _ aPositive) (Nat.mod_lt _ aPositive) carry digit

-- Multiples of c, reduced modulo m and then modulo a: among so many windows of
-- them, two have the same last digits in base b.
theorem window_repeats (start : Nat → Nat) (mPositive : 0 < m) (aPositive : 0 < a) (bPositive : 0 < b) :
    ∃ i j, i < j ∧ j ≤ b * ((width + 1) * (width * 2 + 1)) ∧
      ∀ s < width, c * (start i + s) % m % a % b = c * (start j + s) % m % a % b := by
  let x := fun i => c * start i % m
  -- There are more windows than classes of them.
  have many : (classes b width).card < (Finset.range (b * ((width + 1) * (width * 2 + 1)) + 1)).card := by
    simp only [classes, Finset.card_product, Finset.card_range]
    exact Nat.lt_succ_self _
  obtain ⟨i, iLow, j, jLow, distinct, same⟩ := Finset.exists_ne_map_eq_of_card_lt_of_maps_to many
    (f := fun i => windowClass m a b c width (x i)) fun i _ => window_class_mem m a b c width (x i) bPositive
  have digits : ∀ s < width, c * (start i + s) % m % a % b = c * (start j + s) % m % a % b := by
    intro s inside
    have congr := window_class_congr m a b c width (x i) (x j) s aPositive (Nat.mod_lt _ mPositive)
      (Nat.mod_lt _ mPositive) inside same
    rwa [step, ← Nat.add_mod, ← Nat.add_mod, ← Nat.mul_add, ← Nat.mul_add] at congr
  have iBound := Finset.mem_range.mp iLow
  have jBound := Finset.mem_range.mp jLow
  rcases Nat.lt_or_gt_of_ne distinct with before | behind
  · exact ⟨i, j, before, Nat.le_of_lt_succ jBound, digits⟩
  · exact ⟨j, i, behind, Nat.le_of_lt_succ iBound, fun s inside => (digits s inside).symm⟩

end Windows

end ModularWindow
