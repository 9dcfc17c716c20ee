import Mathlib.Data.List.Basic
import Mathlib.Tactic.Common

set_option autoImplicit false

namespace SixBits

-- A byte string cut into groups of six bits. The last group is filled up with
-- zero bits, and `none` marks fill the groups up to a multiple of four.
def sixBits : List UInt8 → List (Option Nat)
  | [] => []
  | [a] => [some (a.toNat / 4), some (a.toNat % 4 * 16), none, none]
  | [a, b] => [some (a.toNat / 4), some (a.toNat % 4 * 16 + b.toNat / 16), some (b.toNat % 16 * 4), none]
  | a :: b :: c :: rest =>
      some (a.toNat / 4) :: some (a.toNat % 4 * 16 + b.toNat / 16) :: some (b.toNat % 16 * 4 + c.toNat / 64) ::
        some (c.toNat % 64) :: sixBits rest

-- What the groups of a non-empty byte string look like: the filled up bits are
-- zero.
inductive Canonical : List (Option Nat) → Prop where
  | one (v0 v1 : Nat) (low0 : v0 < 64) (low1 : v1 < 64) (zeros : v1 % 16 = 0) :
      Canonical [some v0, some v1, none, none]
  | two (v0 v1 v2 : Nat) (low0 : v0 < 64) (low1 : v1 < 64) (low2 : v2 < 64) (zeros : v2 % 4 = 0) :
      Canonical [some v0, some v1, some v2, none]
  | three (v0 v1 v2 v3 : Nat) (low0 : v0 < 64) (low1 : v1 < 64) (low2 : v2 < 64) (low3 : v3 < 64) :
      Canonical [some v0, some v1, some v2, some v3]
  | more (v0 v1 v2 v3 : Nat) (rest : List (Option Nat)) (low0 : v0 < 64) (low1 : v1 < 64) (low2 : v2 < 64)
      (low3 : v3 < 64) (later : Canonical rest) : Canonical (some v0 :: some v1 :: some v2 :: some v3 :: rest)

theorem byte_of (n : Nat) (low : n < 256) : (UInt8.ofNat n).toNat = n := UInt8.toNat_ofNat_of_lt' low

theorem six_bits_length (data : List UInt8) : (sixBits data).length = (data.length + 2) / 3 * 4 := by
  induction data using sixBits.induct with
  | case1 => rfl
  | case2 a => simp [sixBits]
  | case3 a b => simp [sixBits]
  | case4 a b c rest ih =>
      simp only [sixBits, List.length_cons, ih]
      omega

-- Groups in front of a multiple of three bytes do not see what follows.
theorem six_bits_append (front rest : List UInt8) (aligned : front.length % 3 = 0) :
    sixBits (front ++ rest) = sixBits front ++ sixBits rest := by
  induction front using sixBits.induct with
  | case1 => rfl
  | case2 a => simp at aligned
  | case3 a b => simp at aligned
  | case4 a b c front ih =>
      simp only [List.length_cons] at aligned
      simp only [List.cons_append, sixBits, ih (by omega)]

theorem six_bits_full (data : List UInt8) (aligned : data.length % 3 = 0) : none ∉ sixBits data := by
  induction data using sixBits.induct with
  | case1 => exact List.not_mem_nil
  | case2 a => simp at aligned
  | case3 a b => simp at aligned
  | case4 a b c rest ih =>
      simp only [List.length_cons] at aligned
      simpa [sixBits] using ih (by omega)

theorem six_bits_padded (data : List UInt8) (odd : data.length % 3 ≠ 0) : none ∈ sixBits data := by
  induction data using sixBits.induct with
  | case1 => simp at odd
  | case2 a => simp [sixBits]
  | case3 a b => simp [sixBits]
  | case4 a b c rest ih =>
      simp only [List.length_cons] at odd
      simpa [sixBits] using ih (by omega)

theorem six_bits_canonical (data : List UInt8) (nonempty : data ≠ []) : Canonical (sixBits data) := by
  induction data using sixBits.induct with
  | case1 => exact absurd rfl nonempty
  | case2 a =>
      have low := a.toNat_lt
      exact .one _ _ (by omega) (by omega) (by omega)
  | case3 a b =>
      have lowA := a.toNat_lt
      have lowB := b.toNat_lt
      exact .two _ _ _ (by omega) (by omega) (by omega) (by omega)
  | case4 a b c rest ih =>
      have lowA := a.toNat_lt
      have lowB := b.toNat_lt
      have lowC := c.toNat_lt
      by_cases last : rest = []
      · subst last
        exact .three _ _ _ _ (by omega) (by omega) (by omega) (by omega)
      · exact .more _ _ _ _ _ (by omega) (by omega) (by omega) (by omega) (ih last)

theorem canonical_low (groups : List (Option Nat)) (canonical : Canonical groups) : ∀ v, some v ∈ groups → v < 64 := by
  induction canonical with
  | one v0 v1 low0 low1 zeros => simp [low0, low1]
  | two v0 v1 v2 low0 low1 low2 zeros => simp [low0, low1, low2]
  | three v0 v1 v2 v3 low0 low1 low2 low3 => simp [low0, low1, low2, low3]
  | more v0 v1 v2 v3 rest low0 low1 low2 low3 later ih => simpa [low0, low1, low2, low3] using ih

theorem triple_back (v0 v1 v2 v3 : Nat) (rest : List UInt8) (low0 : v0 < 64) (low1 : v1 < 64) (low2 : v2 < 64)
    (low3 : v3 < 64) : sixBits (UInt8.ofNat (v0 * 4 + v1 / 16) :: UInt8.ofNat (v1 % 16 * 16 + v2 / 4) ::
      UInt8.ofNat (v2 % 4 * 64 + v3) :: rest) = some v0 :: some v1 :: some v2 :: some v3 :: sixBits rest := by
  have first : (v0 * 4 + v1 / 16) / 4 = v0 := by omega
  have second : (v0 * 4 + v1 / 16) % 4 * 16 + (v1 % 16 * 16 + v2 / 4) / 16 = v1 := by omega
  have third : (v1 % 16 * 16 + v2 / 4) % 16 * 4 + (v2 % 4 * 64 + v3) / 64 = v2 := by omega
  have fourth : (v2 % 4 * 64 + v3) % 64 = v3 := by omega
  rw [sixBits, byte_of _ (by omega), byte_of _ (by omega), byte_of _ (by omega), first, second, third, fourth]

-- Every canonical text comes from a byte string.
theorem canonical_onto (groups : List (Option Nat)) (canonical : Canonical groups) :
    ∃ data, data ≠ [] ∧ sixBits data = groups := by
  induction canonical with
  | one v0 v1 low0 low1 zeros =>
      refine ⟨[UInt8.ofNat (v0 * 4 + v1 / 16)], by simp, ?_⟩
      have first : (v0 * 4 + v1 / 16) / 4 = v0 := by omega
      have second : (v0 * 4 + v1 / 16) % 4 * 16 = v1 := by omega
      rw [sixBits, byte_of _ (by omega), first, second]
  | two v0 v1 v2 low0 low1 low2 zeros =>
      refine ⟨[UInt8.ofNat (v0 * 4 + v1 / 16), UInt8.ofNat (v1 % 16 * 16 + v2 / 4)], by simp, ?_⟩
      have first : (v0 * 4 + v1 / 16) / 4 = v0 := by omega
      have second : (v0 * 4 + v1 / 16) % 4 * 16 + (v1 % 16 * 16 + v2 / 4) / 16 = v1 := by omega
      have third : (v1 % 16 * 16 + v2 / 4) % 16 * 4 = v2 := by omega
      rw [sixBits, byte_of _ (by omega), byte_of _ (by omega), first, second, third]
  | three v0 v1 v2 v3 low0 low1 low2 low3 => exact ⟨_, List.cons_ne_nil _ _, triple_back v0 v1 v2 v3 [] low0 low1 low2 low3⟩
  | more v0 v1 v2 v3 rest low0 low1 low2 low3 later ih =>
      obtain ⟨data, _, same⟩ := ih
      exact ⟨_, List.cons_ne_nil _ _, by rw [triple_back v0 v1 v2 v3 data low0 low1 low2 low3, same]⟩

end SixBits
