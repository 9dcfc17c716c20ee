import Facebooc.HashMapInvariant
import Facebooc.ProbeOrder

set_option autoImplicit false

namespace Facebooc

open CMemory LinearProbe

def GrowthTransparent {V : Type} (map : HashMap V) : Prop :=
  ∃ grown done, hashMapExpand map = .ok (grown, done) ∧ ∀ key, hashMapGet grown key = hashMapGet map key

-- A lookup starts at the home slot of the key, the rehash at slot 0. They pick
-- different pairs of a repeated key when its pairs lie on both sides of the home
-- slot: that is, when a cluster runs over the end of the array.
def WrapsAlike {V : Type} (map : HashMap V) : Prop :=
  ∀ key i j front back, Lowest map.entries (sameKey key) 0 i front →
    Lowest map.entries (sameKey key) (getIndex map.cap key) j back → front.value = back.value

theorem same_key_homes {V : Type} (cap : Nat) (key : List UInt8) :
    ∀ entry : SPair V, sameKey key entry = true → homeOf cap entry = getIndex cap key := by
  intro entry wanted
  rw [homeOf, ← of_decide_eq_true wanted]

theorem first_hit_get {V : Type} (map : HashMap V) (key : List UInt8) (entry : SPair V)
    (slots : map.entries.length = map.cap)
    (first : FirstHit map.entries (sameKey key) (getIndex map.cap key) entry) :
    hashMapGet map key = .ok (some entry.value) := by
  obtain ⟨d, bound, passed, slot, stops⟩ := first
  exact chain_get map key d entry slots (by rwa [← slots]) passed slot (of_decide_eq_true stops)

theorem get_behind {V : Type} (map : HashMap V) (key : List UInt8) (j : Nat) (back : SPair V) (inv : RepInv map)
    (lowest : Lowest map.entries (sameKey key) (getIndex map.cap key) j back) :
    hashMapGet map key = .ok (some back.value) := by
  apply first_hit_get map key back inv.slots
  exact lowest_behind (homeOf map.cap) map.entries (sameKey key) _ j back inv.closed (same_key_homes map.cap key)
    (home_inside map key inv) lowest

theorem get_front {V : Type} (map : HashMap V) (key : List UInt8) (i : Nat) (front : SPair V) (inv : RepInv map)
    (behind : ¬ ∃ j back, Lowest map.entries (sameKey key) (getIndex map.cap key) j back)
    (lowest : Lowest map.entries (sameKey key) 0 i front) : hashMapGet map key = .ok (some front.value) := by
  apply first_hit_get map key front inv.slots
  apply lowest_front (homeOf map.cap) map.entries (sameKey key) _ i front inv.closed (same_key_homes map.cap key)
    (home_inside map key inv) ?_ lowest
  intro k above entry slot
  by_contra stops
  exact behind (lowest_exists map.entries (sameKey key) _ k entry above slot (by simpa using stops))

theorem rehashed_get {V : Type} (map : HashMap V) (key : List UInt8) (i : Nat) (front : SPair V) (inv : RepInv map)
    (lowest : Lowest map.entries (sameKey key) 0 i front) :
    hashMapGet { map with entries := rehashed map, cap := map.cap * 2 } key = .ok (some front.value) := by
  have low := inv.atLeast
  apply first_hit_get _ key front (rehashed_table map inv).1
  have home := same_key_homes (map.cap * 2) key front lowest.stops
  have first := place_all_first (homeOf (map.cap * 2)) (sameKey key) (contents map.entries)
    (List.replicate (map.cap * 2) none) front (closed_empty _ _)
    (by rw [List.length_replicate]; exact contents_room map inv)
    (by intro entry _; rw [List.length_replicate]; exact get_index_lt _ _ (by omega))
    (by rw [contents_empty]; simp) (lowest_find _ _ i front lowest)
  rwa [home] at first

theorem rehashed_get_absent {V : Type} (map : HashMap V) (key : List UInt8) (inv : RepInv map)
    (fits : map.cap * 2 * 8 < 2 ^ 64) (absent : ∀ entry ∈ contents map.entries, entry.key ≠ key) :
    hashMapGet { map with entries := rehashed map, cap := map.cap * 2 } key = hashMapGet map key := by
  have grown := rehashed_grown map inv fits
  rw [absent_get map key inv absent]
  apply absent_get _ key grown.inv
  intro entry member
  exact absent entry (grown.kept.mem_iff.mp member)

theorem rehashed_transparent {V : Type} (map : HashMap V) (inv : RepInv map) (fits : map.cap * 2 * 8 < 2 ^ 64) :
    (∀ key, hashMapGet { map with entries := rehashed map, cap := map.cap * 2 } key = hashMapGet map key) ↔
      WrapsAlike map := by
  constructor
  · intro same key i j front back frontLowest backLowest
    have agree := same key
    rw [rehashed_get map key i front inv frontLowest, get_behind map key j back inv backLowest] at agree
    simpa using agree
  · intro alike key
    by_cases present : ∃ entry ∈ contents map.entries, entry.key = key
    · obtain ⟨entry, member, same⟩ := present
      obtain ⟨k, slot⟩ := (mem_contents _ entry).mp member
      obtain ⟨i, front, frontLowest⟩ :=
        lowest_exists map.entries (sameKey key) 0 k entry (Nat.zero_le k) slot (decide_eq_true same.symm)
      rw [rehashed_get map key i front inv frontLowest]
      by_cases behind : ∃ j back, Lowest map.entries (sameKey key) (getIndex map.cap key) j back
      · obtain ⟨j, back, backLowest⟩ := behind
        rw [get_behind map key j back inv backLowest, alike key i j front back frontLowest backLowest]
      · rw [get_front map key i front inv behind frontLowest]
    · apply rehashed_get_absent map key inv fits
      intro entry member same
      exact present ⟨entry, member, same⟩

theorem distinct_wraps_alike {V : Type} (map : HashMap V)
    (distinct : ((contents map.entries).map SPair.key).Nodup) : WrapsAlike map := by
  intro key i j front back frontLowest backLowest
  have frontMember := (mem_contents _ front).mpr ⟨i, frontLowest.slot⟩
  have backMember := (mem_contents _ back).mpr ⟨j, backLowest.slot⟩
  have same : front.key = back.key :=
    (of_decide_eq_true frontLowest.stops).symm.trans (of_decide_eq_true backLowest.stops)
  exact congrArg SPair.value (List.inj_on_of_nodup_map distinct frontMember backMember same)

theorem growth_exact {V : Type} (map : HashMap V) (reachable : Reachable map) :
    GrowthTransparent map ↔ map.cap * 2 * 8 < 2 ^ 64 ∧ WrapsAlike map := by
  have inv := reachable_rep_inv map reachable
  by_cases fits : map.cap * 2 * 8 < 2 ^ 64
  · have grew := expand_fits map inv (reachable_distinct map reachable) fits
    constructor
    · intro transparent
      obtain ⟨grown, done, run, same⟩ := transparent
      cases grew.symm.trans run
      exact ⟨fits, (rehashed_transparent map inv fits).mp same⟩
    · intro condition
      exact ⟨_, true, grew, (rehashed_transparent map inv fits).mpr condition.2⟩
  · constructor
    · intro transparent
      obtain ⟨grown, done, run, _⟩ := transparent
      cases (expand_too_big map inv fits).symm.trans run
    · intro condition
      exact absurd condition.1 fits

theorem growth_exact_two : ∃ map : HashMap Nat, contents map.entries = [⟨1, ascii "/", 10⟩, ⟨2, ascii "o", 20⟩] ∧
    GrowthTransparent map := by
  refine ⟨_, by decide +kernel, (growth_exact _ slash_o_reachable).mpr ⟨by decide +kernel, ?_⟩⟩
  exact distinct_wraps_alike _ (by decide +kernel)

-- Three pairs with the key "/", whose home slot is 62 of 64: the third one
-- wraps to slot 0 and is the first one that the rehash moves.
theorem growth_changes : ∃ map : HashMap Nat, Reachable map ∧ hashMapGet map (ascii "/") = .ok (some 10) ∧
    (∃ grown, hashMapExpand map = .ok (grown, true) ∧ hashMapGet grown (ascii "/") = .ok (some 30)) ∧
    ¬ GrowthTransparent map := by
  let one : HashMap Nat := ⟨(hashMapNew : HashMap Nat).entries.set 62 (some ⟨1, ascii "/", 10⟩), 64, 1⟩
  let two : HashMap Nat := ⟨one.entries.set 63 (some ⟨2, ascii "/", 20⟩), 64, 2⟩
  let three : HashMap Nat := ⟨two.entries.set 0 (some ⟨3, ascii "/", 30⟩), 64, 3⟩
  have second : Reachable two :=
    insert_move_reachable one two ⟨2, ascii "/", 20⟩ slash_reachable (by decide +kernel) (by decide +kernel)
  have third : Reachable three :=
    insert_move_reachable two three ⟨3, ascii "/", 30⟩ second (by decide +kernel) (by decide +kernel)
  have grew := expand_fits three (reachable_rep_inv three third) (reachable_distinct three third) (by decide +kernel)
  have before : hashMapGet three (ascii "/") = .ok (some 10) := by decide +kernel
  have after : hashMapGet { three with entries := rehashed three, cap := three.cap * 2 } (ascii "/") = .ok (some 30) := by
    decide +kernel
  refine ⟨three, third, before, ⟨_, grew, after⟩, ?_⟩
  intro transparent
  obtain ⟨grown, done, run, same⟩ := transparent
  cases grew.symm.trans run
  have agree := same (ascii "/")
  rw [before, after] at agree
  cases agree

end Facebooc
