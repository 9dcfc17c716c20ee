import Facebooc.Crowding
import Facebooc.HashMapGrowth

set_option autoImplicit false

namespace Facebooc

open CMemory LinearProbe

-- A pair object that is already in the table: refused, with one reference to it
-- left and nothing else changed.
def ReinsertLaw {V : Type} (map : HashMap V) (p : SPair V) : Prop :=
  ∃ next, hashMapInsertMove map p = .ok (next, false) ∧ (addrs next.entries).count p.addr = 1 ∧
    hashMapSize next = hashMapSize map ∧ ∀ key, hashMapGet next key = hashMapGet map key

theorem move_loop_finds {V : Type} (entries : List (Option (SPair V))) (p : SPair V) (h d fuel e : Nat)
    (bound : d < entries.length) (full : ∀ k < d, Occupied entries ((h + k) % entries.length))
    (slot : entries[(h + d) % entries.length]? = some (some p)) (budget : fuel + e = entries.length) (before : e < d) :
    hashMapMoveLoop entries entries.length p fuel ((h + e) % entries.length) = .ok (entries, false) := by
  induction fuel generalizing e with
  | zero => omega
  | succ fuel ih =>
      obtain ⟨here, seen⟩ := full e before
      rw [hashMapMoveLoop, seen, next_walk entries.length h e (by omega)]
      dsimp only
      rcases Nat.eq_or_lt_of_le (Nat.succ_le_of_lt before) with arrived | earlier
      · rw [← arrived] at slot
        simp [slot]
      · obtain ⟨entry, ahead⟩ := full (e + 1) earlier
        rw [ahead]
        dsimp only
        by_cases found : Option.map SPair.addr (some entry) = some p.addr
        · rw [if_pos found]
        · rw [if_neg found]
          exact ih (e + 1) (by omega) earlier

theorem move_loop_stores {V : Type} (entries : List (Option (SPair V))) (p : SPair V) (h d fuel e : Nat)
    (bound : d < entries.length)
    (others : ∀ k < d, ∃ entry, entries[(h + k) % entries.length]? = some (some entry) ∧ (0 < k → entry.addr ≠ p.addr))
    (hole : Hole entries ((h + d) % entries.length)) (budget : fuel + e = entries.length) (before : e ≤ d) :
    hashMapMoveLoop entries entries.length p fuel ((h + e) % entries.length) =
      .ok (entries.set ((h + d) % entries.length) (some p), true) := by
  induction fuel generalizing e with
  | zero => omega
  | succ fuel ih =>
      rcases Nat.eq_or_lt_of_le before with arrived | earlier
      · rw [hashMapMoveLoop, arrived, hole]
      · obtain ⟨here, seen, _⟩ := others e earlier
        rw [hashMapMoveLoop, seen, next_walk entries.length h e (by omega)]
        dsimp only
        rcases Nat.eq_or_lt_of_le (Nat.succ_le_of_lt earlier) with last | ahead
        · have rest := ih (e + 1) (by omega) (by omega)
          rw [← last] at hole rest ⊢
          rw [hole]
          simpa using rest
        · obtain ⟨entry, slot, differ⟩ := others (e + 1) ahead
          rw [slot]
          dsimp only
          rw [if_neg (by simpa using differ (Nat.succ_pos e))]
          exact ih (e + 1) (by omega) (by omega)

theorem move_entry_rejects {V : Type} (entries : List (Option (SPair V))) (cap : Nat) (p : SPair V)
    (ready : Probeable entries cap) (stored : p ∈ contents entries)
    (away : entries[getIndex cap p.key]? ≠ some (some p)) : hashMapMoveEntry entries cap p = .ok (entries, false) := by
  obtain ⟨rfl, room, closed⟩ := ready
  obtain ⟨j, slot⟩ := (mem_contents entries p).mp stored
  obtain ⟨d, bound, atJ, chain⟩ := closed j p slot
  have start : (getIndex entries.length p.key + 0) % entries.length = getIndex entries.length p.key :=
    Nat.mod_eq_of_lt (get_index_lt _ _ (by omega))
  have farther : 0 < d := by
    apply Nat.pos_of_ne_zero
    intro zero
    rw [zero, homeOf, start] at atJ
    exact away (atJ ▸ slot)
  have found := move_loop_finds entries p (getIndex entries.length p.key) d entries.length 0 bound chain
    (by rw [atJ, slot]) (Nat.add_zero _) farther
  rwa [start] at found

theorem move_entry_duplicates {V : Type} (entries : List (Option (SPair V))) (cap : Nat) (p : SPair V)
    (ready : Probeable entries cap) (distinct : (addrs entries).Nodup)
    (atHome : entries[getIndex cap p.key]? = some (some p)) :
    ∃ new, hashMapMoveEntry entries cap p = .ok (new, true) ∧ (contents new).Perm (p :: contents entries) := by
  have ends := probeable_ends entries cap (fun _ => false) p.key ready
  obtain ⟨rfl, room, closed⟩ := ready
  have inside := get_index_lt entries.length p.key (by omega)
  have start : (getIndex entries.length p.key + 0) % entries.length = getIndex entries.length p.key :=
    Nat.mod_eq_of_lt inside
  generalize probe entries (fun _ => false) entries.length (getIndex entries.length p.key) = last at ends
  cases ends with
  | hit d x bound passed slot stops => cases stops
  | hole d bound passed hole =>
      refine ⟨_, ?_, contents_fill entries _ p hole⟩
      have stores := move_loop_stores entries p (getIndex entries.length p.key) d entries.length 0 bound ?_ hole
        (Nat.add_zero _) (Nat.zero_le d)
      · rwa [start] at stores
      · intro k less
        obtain ⟨entry, slot, _⟩ := passed k less
        refine ⟨entry, slot, ?_⟩
        intro farther same
        have back := (contents_unique entries SPair.addr _ _ entry p distinct slot atHome same).trans start.symm
        have zero := walk_injective entries.length _ k 0 (by omega) (by omega) back
        omega

theorem insert_move_stored {V : Type} (map grown : HashMap V) (p : SPair V) (grew : hashMapGrow map = .ok (grown, true))
    (step : Grown map grown) (distinct : (addrs map.entries).Nodup) (stored : p ∈ contents map.entries) :
    (grown.entries[getIndex grown.cap p.key]? ≠ some (some p) → hashMapInsertMove map p = .ok (grown, false)) ∧
      (grown.entries[getIndex grown.cap p.key]? = some (some p) → ∃ next, hashMapInsertMove map p = .ok (next, true)) := by
  have ready := rep_inv_probeable grown step.inv
  constructor
  · intro away
    have rejected := move_entry_rejects grown.entries grown.cap p ready (step.kept.mem_iff.mpr stored) away
    simp [hashMapInsertMove, grew, rejected, bind, Except.bind]
  · intro atHome
    have separate : (addrs grown.entries).Nodup := ((step.kept.map SPair.addr).nodup_iff).mpr distinct
    obtain ⟨new, moved, _⟩ := move_entry_duplicates grown.entries grown.cap p ready separate atHome
    exact ⟨_, by simp only [hashMapInsertMove, grew, moved, bind, Except.bind]; rfl⟩

theorem law_of_grown {V : Type} (map grown : HashMap V) (p : SPair V) (grew : hashMapGrow map = .ok (grown, true))
    (step : Grown map grown) (distinct : (addrs map.entries).Nodup) (stored : p ∈ contents map.entries) :
    ReinsertLaw map p ↔ grown.entries[getIndex grown.cap p.key]? ≠ some (some p) ∧
      ∀ key, hashMapGet grown key = hashMapGet map key := by
  obtain ⟨rejects, duplicates⟩ := insert_move_stored map grown p grew step distinct stored
  constructor
  · intro law
    obtain ⟨next, run, _, _, same⟩ := law
    by_cases atHome : grown.entries[getIndex grown.cap p.key]? = some (some p)
    · obtain ⟨other, moved⟩ := duplicates atHome
      cases moved.symm.trans run
    · cases (rejects atHome).symm.trans run
      exact ⟨atHome, same⟩
  · intro condition
    obtain ⟨away, same⟩ := condition
    have size : hashMapSize grown = hashMapSize map := congrArg (fun len : Nat => Int.bmod len (2 ^ 32)) step.len
    refine ⟨grown, rejects away, ?_, size, same⟩
    rw [addrs, (step.kept.map SPair.addr).count_eq]
    exact List.count_eq_one_of_mem distinct (List.mem_map_of_mem stored)

-- The first comparison is with the slot behind the home slot, so only a pair
-- that stands in its home slot is not found. If the array has to grow first,
-- its slot in the doubled array counts, and the growth must not be seen.
def Displaced {V : Type} (map : HashMap V) (p : SPair V) : Prop :=
  if map.len < map.cap / 2 then map.entries[getIndex map.cap p.key]? ≠ some (some p)
  else map.cap * 2 * 8 < 2 ^ 64 ∧ WrapsAlike map ∧ ∃ i : Nat, map.entries[i]? = some (some p) ∧
    Crowded (homeOf (map.cap * 2)) (map.cap * 2) (contents (map.entries.take i)) (getIndex (map.cap * 2) p.key)

theorem rehashed_home {V : Type} (map : HashMap V) (p : SPair V) (i : Nat) (inv : RepInv map)
    (distinct : (addrs map.entries).Nodup) (slot : map.entries[i]? = some (some p)) :
    (rehashed map)[getIndex (map.cap * 2) p.key]? = some (some p) ↔
      ¬ Crowded (homeOf (map.cap * 2)) (map.cap * 2) (contents (map.entries.take i)) (getIndex (map.cap * 2) p.key) := by
  have low := inv.atLeast
  have room := contents_room map inv
  have split : contents map.entries = contents (map.entries.take i) ++ p :: contents (map.entries.drop (i + 1)) :=
    contents_at map.entries i _ slot
  rw [contents_empty, split] at room
  simp only [List.length_append, List.length_cons, List.length_nil] at room
  have absent : p ∉ contents (map.entries.take i) := by
    intro member
    obtain ⟨j, less, earlier⟩ := (mem_contents_take _ i p).mp member
    exact absurd (contents_unique map.entries SPair.addr j i p p distinct earlier slot rfl) (by omega)
  rw [rehashed, split]
  exact place_all_home (homeOf (map.cap * 2)) (map.cap * 2) _ _ p (by omega)
    (fun entry => get_index_lt _ _ (by omega)) absent

theorem reinsert_exact {V : Type} (map : HashMap V) (p : SPair V) (reachable : Reachable map)
    (stored : p ∈ contents map.entries) : ReinsertLaw map p ↔ Displaced map p := by
  have inv := reachable_rep_inv map reachable
  have distinct := reachable_distinct map reachable
  have shifted : map.cap >>> 1 = map.cap / 2 := Nat.shiftRight_eq_div_pow _ _
  by_cases spare : map.len < map.cap / 2
  · have grew : hashMapGrow map = .ok (map, true) := by rw [hashMapGrow, if_neg (by omega)]
    rw [Displaced, if_pos spare, law_of_grown map map p grew ⟨inv, spare, rfl, List.Perm.refl _⟩ distinct stored]
    simp
  · rw [Displaced, if_neg spare]
    by_cases fits : map.cap * 2 * 8 < 2 ^ 64
    · have grew : hashMapGrow map = .ok ({ map with entries := rehashed map, cap := map.cap * 2 }, true) := by
        rw [hashMapGrow, if_pos (by omega), expand_fits map inv distinct fits]
      obtain ⟨i, slot⟩ := (mem_contents map.entries p).mp stored
      have home := rehashed_home map p i inv distinct slot
      rw [law_of_grown map _ p grew (rehashed_grown map inv fits) distinct stored, rehashed_transparent map inv fits]
      constructor
      · intro law
        exact ⟨fits, law.2, i, slot, not_not.mp (mt home.mpr law.1)⟩
      · intro condition
        obtain ⟨_, alike, j, atJ, crowded⟩ := condition
        cases contents_unique map.entries SPair.addr j i p p distinct atJ slot rfl
        exact ⟨fun atHome => home.mp atHome crowded, alike⟩
    · constructor
      · intro law
        obtain ⟨next, run, _⟩ := law
        have failed : hashMapGrow map = .error .null := by
          rw [hashMapGrow, if_pos (by omega), expand_too_big map inv fits]
        simp [hashMapInsertMove, failed, bind, Except.bind] at run
      · intro condition
        exact absurd condition.1 fits

theorem reinsert_exact_second : ∃ map : HashMap Nat, contents map.entries = [⟨1, ascii "/", 10⟩, ⟨2, ascii "o", 20⟩] ∧
    ReinsertLaw map ⟨2, ascii "o", 20⟩ ∧ ¬ ReinsertLaw map ⟨1, ascii "/", 10⟩ := by
  have second := (reinsert_exact _ ⟨2, ascii "o", 20⟩ slash_o_reachable (by decide +kernel)).mpr
  have first := (reinsert_exact _ ⟨1, ascii "/", 10⟩ slash_o_reachable (by decide +kernel)).mp
  refine ⟨_, by decide +kernel, second ?_, fun law => ?_⟩
  · rw [Displaced, if_pos (by decide)]
    decide +kernel
  · have away := first law
    rw [Displaced, if_pos (by decide)] at away
    exact away (by decide +kernel)

-- The same object inserted twice into a new map: slot 62 is its home slot.
theorem reinsert_fails :
    let p : SPair Nat := ⟨1, ascii "/", 10⟩
    let one : HashMap Nat := ⟨(hashMapNew : HashMap Nat).entries.set 62 (some p), 64, 1⟩
    let twice : HashMap Nat := ⟨one.entries.set 63 (some p), 64, 2⟩
    hashMapInsertMove hashMapNew p = .ok (one, true) ∧ hashMapInsertMove one p = .ok (twice, true) ∧
      addrs twice.entries = [1, 1] ∧ hashMapSize twice = 2 ∧ ¬ ReinsertLaw one p := by
  have again : hashMapInsertMove (⟨(hashMapNew : HashMap Nat).entries.set 62 (some ⟨1, ascii "/", 10⟩), 64, 1⟩ : HashMap Nat)
      ⟨1, ascii "/", 10⟩ = .ok (⟨((hashMapNew : HashMap Nat).entries.set 62 (some ⟨1, ascii "/", 10⟩)).set 63
        (some ⟨1, ascii "/", 10⟩), 64, 2⟩, true) := by decide +kernel
  refine ⟨by decide +kernel, again, by decide +kernel, by decide +kernel, ?_⟩
  intro law
  obtain ⟨next, run, _⟩ := law
  cases again.symm.trans run

end Facebooc
