import Facebooc.HashMap
import Mathlib.Data.List.Nodup
import Mathlib.Tactic.Common

set_option autoImplicit false

namespace Facebooc

open CMemory LinearProbe

theorem get_index_lt (cap : Nat) (key : List UInt8) (positive : 0 < cap) : getIndex cap key < cap := by
  have bound : getIndex cap key ≤ cap - 1 := Nat.and_le_right
  omega

abbrev homeOf {V : Type} (cap : Nat) (entry : SPair V) : Nat := getIndex cap entry.key

def sameKey {V : Type} (key : List UInt8) (entry : SPair V) : Bool := decide (key = entry.key)

-- The three loops of the source are the library's probe with three stopping
-- tests; each lemma says what the loop makes of the place where it stops.
theorem get_loop_stop {V : Type} (entries : List (Option (SPair V))) (key : List UInt8) (rounds index : Nat) :
    match probe entries (sameKey key) rounds index with
    | .hole _ => hashMapGetLoop entries entries.length key rounds index = .ok none
    | .hit _ entry => hashMapGetLoop entries entries.length key rounds index = .ok (some entry.value)
    | .lost => True := by
  induction rounds generalizing index with
  | zero => trivial
  | succ rounds ih =>
      rw [probe, hashMapGetLoop]
      cases entries[index]? with
      | none => trivial
      | some slot =>
          cases slot with
          | none => rfl
          | some entry =>
              by_cases same : key = entry.key
              · simp [sameKey, same]
              · simpa [sameKey, same] using ih (next entries.length index)

theorem set_loop_stop {V : Type} (entries : List (Option (SPair V))) (p : SPair V) (fresh rounds index : Nat)
    (distinct : ∀ entry ∈ contents entries, p.addr ≠ entry.addr) :
    match probe entries (sameKey p.key) rounds index with
    | .hole i => hashMapSetLoop entries entries.length p fresh rounds index =
        .ok (entries.set i (some { p with addr := fresh }), true)
    | .hit i _ => hashMapSetLoop entries entries.length p fresh rounds index =
        .ok (entries.set i (some { p with addr := fresh }), true)
    | .lost => True := by
  induction rounds generalizing index with
  | zero => trivial
  | succ rounds ih =>
      rw [probe, hashMapSetLoop]
      cases slotEq : entries[index]? with
      | none => trivial
      | some slot =>
          cases slot with
          | none => rfl
          | some entry =>
              have other := distinct entry ((mem_contents entries entry).mpr ⟨index, slotEq⟩)
              by_cases same : p.key = entry.key
              · simp [sameKey, same, other]
              · simpa [sameKey, same, other] using ih (next entries.length index)

theorem move_loop_stop {V : Type} (entries : List (Option (SPair V))) (p : SPair V) (rounds index i : Nat)
    (distinct : ∀ entry ∈ contents entries, p.addr ≠ entry.addr)
    (ends : probe entries (fun _ => false) rounds index = .hole i) :
    hashMapMoveLoop entries entries.length p rounds index = .ok (entries.set i (some p), true) := by
  induction rounds generalizing index with
  | zero => cases ends
  | succ rounds ih =>
      rcases probe_hole_cases entries rounds index i ends with ⟨empty, here⟩ | ⟨entry, slot, taken, behind, onward⟩
      · rw [hashMapMoveLoop, empty, here]
      · have other : slot.map SPair.addr ≠ some p.addr := by
          intro same
          obtain ⟨e, rfl, address⟩ := Option.map_eq_some_iff.mp same
          exact distinct e ((mem_contents entries e).mpr ⟨_, behind⟩) address.symm
        simp only [hashMapMoveLoop, taken, behind, if_neg other]
        exact ih (next entries.length index) onward

theorem move_loop_ends {V : Type} (entries : List (Option (SPair V))) (p : SPair V) (rounds index i : Nat)
    (ends : probe entries (fun _ => false) rounds index = .hole i) :
    ∃ result, hashMapMoveLoop entries entries.length p rounds index = .ok result := by
  induction rounds generalizing index with
  | zero => cases ends
  | succ rounds ih =>
      rcases probe_hole_cases entries rounds index i ends with ⟨empty, _⟩ | ⟨entry, slot, taken, behind, onward⟩
      · rw [hashMapMoveLoop, empty]
        exact ⟨_, rfl⟩
      · simp only [hashMapMoveLoop, taken, behind]
        by_cases found : slot.map SPair.addr = some p.addr
        · exact ⟨_, if_pos found⟩
        · simp only [if_neg found]
          exact ih (next entries.length index) onward

theorem set_loop_ends {V : Type} (entries : List (Option (SPair V))) (p : SPair V) (fresh rounds index i : Nat)
    (ends : probe entries (fun _ => false) rounds index = .hole i) :
    ∃ result, hashMapSetLoop entries entries.length p fresh rounds index = .ok result := by
  induction rounds generalizing index with
  | zero => cases ends
  | succ rounds ih =>
      rcases probe_hole_cases entries rounds index i ends with ⟨empty, _⟩ | ⟨entry, slot, taken, _, onward⟩
      · rw [hashMapSetLoop, empty]
        exact ⟨_, rfl⟩
      · simp only [hashMapSetLoop, taken]
        by_cases found : p.addr = entry.addr
        · exact ⟨_, if_pos found⟩
        · by_cases same : p.key = entry.key
          · exact ⟨(entries.set index (some { p with addr := fresh }), true), by simp [found, same]⟩
          · simp only [if_neg found, if_neg same]
            exact ih (next entries.length index) onward

def addrs {V : Type} (entries : List (Option (SPair V))) : List Nat := (contents entries).map SPair.addr

theorem addrs_distinct {V : Type} (entries : List (Option (SPair V))) (p : SPair V) (fresh : p.addr ∉ addrs entries) :
    ∀ entry ∈ contents entries, p.addr ≠ entry.addr := by
  intro entry member same
  exact fresh (same ▸ List.mem_map_of_mem member)

-- What a search needs of a slot array to end, and to end in the right place.
structure Probeable {V : Type} (entries : List (Option (SPair V))) (cap : Nat) : Prop where
  slots : entries.length = cap
  room : (contents entries).length < cap
  closed : Closed (homeOf cap) entries

theorem probeable_ends {V : Type} (entries : List (Option (SPair V))) (cap : Nat) (stop : SPair V → Bool)
    (key : List UInt8) (ready : Probeable entries cap) :
    ProbeEnds entries stop (getIndex cap key) (probe entries stop cap (getIndex cap key)) := by
  obtain ⟨rfl, room, _⟩ := ready
  exact probe_ends entries stop _ room (get_index_lt _ key (by omega))

theorem probe_hole {V : Type} (entries : List (Option (SPair V))) (cap : Nat) (key : List UInt8)
    (ready : Probeable entries cap) : ∃ i, probe entries (fun _ => false) cap (getIndex cap key) = .hole i := by
  have ends := probeable_ends entries cap (fun _ => false) key ready
  generalize probe entries (fun _ => false) cap (getIndex cap key) = stop at ends
  cases ends with
  | hole d bound passed hole => exact ⟨_, rfl⟩
  | hit d x bound passed slot stops => cases stops

theorem move_entry_ends {V : Type} (entries : List (Option (SPair V))) (cap : Nat) (p : SPair V)
    (ready : Probeable entries cap) : ∃ result, hashMapMoveEntry entries cap p = .ok result := by
  obtain ⟨i, ends⟩ := probe_hole entries cap p.key ready
  obtain ⟨rfl, _, _⟩ := ready
  exact move_loop_ends entries p _ _ i ends

theorem set_entry_ends {V : Type} (entries : List (Option (SPair V))) (cap : Nat) (p : SPair V) (fresh : Nat)
    (ready : Probeable entries cap) : ∃ result, hashMapSetEntry entries cap p fresh = .ok result := by
  obtain ⟨i, ends⟩ := probe_hole entries cap p.key ready
  obtain ⟨rfl, _, _⟩ := ready
  exact set_loop_ends entries p fresh _ _ i ends

theorem move_entry_place {V : Type} (entries : List (Option (SPair V))) (cap : Nat) (p : SPair V)
    (ready : Probeable entries cap) (fresh : p.addr ∉ addrs entries) :
    hashMapMoveEntry entries cap p = .ok (place (homeOf cap) p entries, true) := by
  obtain ⟨i, ends⟩ := probe_hole entries cap p.key ready
  obtain ⟨rfl, _, _⟩ := ready
  rw [place, homeOf, ends]
  exact move_loop_stop entries p _ _ i (addrs_distinct entries p fresh) ends

theorem place_ready {V : Type} (entries : List (Option (SPair V))) (cap : Nat) (p : SPair V)
    (ready : Probeable entries cap) : Placed (homeOf cap) p entries (place (homeOf cap) p entries) := by
  obtain ⟨rfl, room, closed⟩ := ready
  exact place_placed _ p entries closed room (get_index_lt _ p.key (by omega))

-- Overwriting swaps one stored pair for the copy; otherwise the copy is added.
inductive Written {V : Type} (p : SPair V) (old new : List (SPair V)) : Prop where
  | added (absent : ∀ entry ∈ old, entry.key ≠ p.key) (now : new.Perm (p :: old))
  | replaced (gone : SPair V) (rest : List (SPair V)) (same : gone.key = p.key)
      (was : old.Perm (gone :: rest)) (now : new.Perm (p :: rest))

theorem set_entry_written {V : Type} (entries : List (Option (SPair V))) (cap : Nat) (p : SPair V) (fresh : Nat)
    (ready : Probeable entries cap) (distinct : p.addr ∉ addrs entries) :
    ∃ new, hashMapSetEntry entries cap p fresh = .ok (new, true) ∧ new.length = cap ∧
      Closed (homeOf cap) new ∧ Written { p with addr := fresh } (contents entries) (contents new) := by
  have ends := probeable_ends entries cap (sameKey p.key) p.key ready
  obtain ⟨rfl, room, closed⟩ := ready
  have result := set_loop_stop entries p fresh entries.length (getIndex entries.length p.key)
    (addrs_distinct entries p distinct)
  generalize probe entries (sameKey p.key) entries.length (getIndex entries.length p.key) = stop at ends result
  cases ends with
  | hole d bound passed hole =>
      have placed := set_placed (homeOf entries.length) entries (sameKey p.key) { p with addr := fresh } d closed
        bound passed hole
      refine ⟨_, result, placed.length, placed.closed, .added ?_ placed.contents⟩
      intro entry member same
      have excluded := hole_excludes (homeOf entries.length) entries (sameKey p.key) _ d closed
        (fun e wanted => by simp only [homeOf, ← of_decide_eq_true wanted]) bound passed hole entry member
      simp [sameKey, same] at excluded
  | hit d entry bound passed slot stops =>
      have same : p.key = entry.key := of_decide_eq_true stops
      obtain ⟨rest, was, now⟩ := contents_replace entries _ { p with addr := fresh } entry slot
      refine ⟨_, result, List.length_set .., ?_, .replaced entry rest same.symm was now⟩
      exact closed_set _ entries _ _ closed ⟨d, bound, rfl, passed_occupied entries _ _ d passed⟩

structure RepInv {V : Type} (map : HashMap V) : Prop where
  power : ∃ e, map.cap = 2 ^ e
  atLeast : 64 ≤ map.cap
  fits : map.cap * 8 < 2 ^ 64
  slots : map.entries.length = map.cap
  load : (contents map.entries).length ≤ map.len
  half : map.len ≤ map.cap / 2
  closed : Closed (homeOf map.cap) map.entries

theorem rep_inv_probeable {V : Type} (map : HashMap V) (inv : RepInv map) : Probeable map.entries map.cap := by
  refine ⟨inv.slots, ?_, inv.closed⟩
  have low := inv.atLeast
  have load := inv.load
  have half := inv.half
  omega

theorem rep_inv_new {V : Type} : RepInv (hashMapNew : HashMap V) where
  power := ⟨6, rfl⟩
  atLeast := Nat.le_refl 64
  fits := by change 64 * 8 < 2 ^ 64; decide
  slots := List.length_replicate
  load := by rw [hashMapNew, contents_empty]; exact Nat.le_refl 0
  half := Nat.zero_le _
  closed := closed_empty _ _

theorem expand_loop_places {V : Type} (newCap : Nat) (rest new : List (Option (SPair V))) (slots : new.length = newCap)
    (closed : Closed (homeOf newCap) new) (room : (contents new).length + (contents rest).length < newCap)
    (distinct : (addrs rest ++ addrs new).Nodup) :
    hashMapExpandLoop newCap rest new =
      .ok ((contents rest).foldl (fun table entry => place (homeOf newCap) entry table) new) := by
  induction rest generalizing new with
  | nil => rfl
  | cons slot rest ih =>
      cases slot with
      | none =>
          simp only [addrs, contents_none] at room distinct ⊢
          exact ih new slots closed room distinct
      | some entry =>
          simp only [addrs, contents_some, List.map_cons, List.cons_append, List.nodup_cons,
            List.length_cons] at room distinct
          obtain ⟨unused, others⟩ := distinct
          have ready : Probeable new newCap := ⟨slots, by omega, closed⟩
          have fresh : entry.addr ∉ addrs new := fun member => unused (List.mem_append_right _ member)
          have placed := place_ready new newCap entry ready
          have addresses : (addrs rest ++ addrs (place (homeOf newCap) entry new)).Perm
              (entry.addr :: (addrs rest ++ addrs new)) :=
            ((placed.contents.map SPair.addr).append_left (addrs rest)).trans List.perm_middle
          have count := placed.contents.length_eq
          simp only [List.length_cons] at count
          rw [hashMapExpandLoop, move_entry_place new newCap entry ready fresh]
          simp only [contents_some, List.foldl_cons]
          exact ih (place (homeOf newCap) entry new) (placed.length.trans slots) placed.closed (by omega)
            (addresses.nodup_iff.mpr (List.nodup_cons.mpr ⟨unused, others⟩))

-- Growing keeps the stored pairs and leaves strictly less than half the slots
-- accounted for. It can only fail by an array too big to ask for.
structure Grown {V : Type} (map grown : HashMap V) : Prop where
  inv : RepInv grown
  spare : grown.len < grown.cap / 2
  len : grown.len = map.len
  kept : (contents grown.entries).Perm (contents map.entries)

theorem doubled_cap (cap : Nat) (fits : cap * 8 < 2 ^ 64) : (cap <<< 1) % 2 ^ 64 = cap * 2 := by
  rw [Nat.shiftLeft_eq, Nat.pow_one]
  exact Nat.mod_eq_of_lt (by omega)

-- The pairs in array order, placed one after another into twice the slots.
def rehashed {V : Type} (map : HashMap V) : List (Option (SPair V)) :=
  (contents map.entries).foldl (fun table entry => place (homeOf (map.cap * 2)) entry table)
    (List.replicate (map.cap * 2) none)

theorem contents_room {V : Type} (map : HashMap V) (inv : RepInv map) :
    (contents (List.replicate (map.cap * 2) (none : Option (SPair V)))).length + (contents map.entries).length <
      map.cap * 2 := by
  rw [contents_empty]
  have low := inv.atLeast
  have load := inv.load
  have half := inv.half
  simp only [List.length_nil]
  omega

theorem rehashed_table {V : Type} (map : HashMap V) (inv : RepInv map) :
    (rehashed map).length = map.cap * 2 ∧ Closed (homeOf (map.cap * 2)) (rehashed map) ∧
      (contents (rehashed map)).Perm (contents map.entries) := by
  have low := inv.atLeast
  have table := place_all (homeOf (map.cap * 2)) (contents map.entries) (List.replicate (map.cap * 2) none)
    (closed_empty _ _) (by rw [List.length_replicate]; exact contents_room map inv)
    (fun entry _ => by rw [List.length_replicate]; exact get_index_lt _ _ (by omega))
  simp only [contents_empty, List.append_nil, List.length_replicate] at table
  exact table

theorem expand_fits {V : Type} (map : HashMap V) (inv : RepInv map) (distinct : (addrs map.entries).Nodup)
    (fits : map.cap * 2 * 8 < 2 ^ 64) :
    hashMapExpand map = .ok ({ map with entries := rehashed map, cap := map.cap * 2 }, true) := by
  have filled := expand_loop_places (map.cap * 2) map.entries (List.replicate (map.cap * 2) none)
    List.length_replicate (closed_empty _ _) (contents_room map inv)
    (by simpa [addrs, contents_empty] using distinct)
  simp only [hashMapExpand, doubled_cap map.cap inv.fits, callocEntries, if_pos fits, bind, Except.bind, filled]
  rw [if_neg (by omega)]
  rfl

theorem rehashed_grown {V : Type} (map : HashMap V) (inv : RepInv map) (fits : map.cap * 2 * 8 < 2 ^ 64) :
    Grown map { map with entries := rehashed map, cap := map.cap * 2 } := by
  obtain ⟨slots, closed, kept⟩ := rehashed_table map inv
  obtain ⟨e, power⟩ := inv.power
  have low := inv.atLeast
  have load := inv.load
  have half := inv.half
  exact {
    inv := {
      power := ⟨e + 1, by rw [power, Nat.pow_succ]⟩
      atLeast := by change 64 ≤ map.cap * 2; omega
      fits := fits
      slots := slots
      load := by change _ ≤ map.len; rw [kept.length_eq]; exact load
      half := by change map.len ≤ map.cap * 2 / 2; omega
      closed := closed }
    spare := by change map.len < map.cap * 2 / 2; omega
    len := rfl
    kept := kept }

theorem expand_grown {V : Type} (map : HashMap V) (inv : RepInv map) (distinct : (addrs map.entries).Nodup)
    (fits : map.cap * 2 * 8 < 2 ^ 64) : ∃ grown, hashMapExpand map = .ok (grown, true) ∧ Grown map grown :=
  ⟨_, expand_fits map inv distinct fits, rehashed_grown map inv fits⟩

theorem expand_too_big {V : Type} (map : HashMap V) (inv : RepInv map) (big : ¬ map.cap * 2 * 8 < 2 ^ 64) :
    hashMapExpand map = .error .null := by
  simp only [hashMapExpand, doubled_cap map.cap inv.fits, callocEntries, if_neg big, bind, Except.bind]
  rw [if_neg (by omega)]

theorem grow_grown {V : Type} (map : HashMap V) (inv : RepInv map) (distinct : (addrs map.entries).Nodup) :
    (∃ grown, hashMapGrow map = .ok (grown, true) ∧ Grown map grown) ∨
      (2 ^ 59 ≤ map.len ∧ hashMapGrow map = .error .null) := by
  have shifted : map.cap >>> 1 = map.cap / 2 := Nat.shiftRight_eq_div_pow _ _
  by_cases full : map.len ≥ map.cap >>> 1
  · rw [hashMapGrow, if_pos full]
    by_cases fits : map.cap * 2 * 8 < 2 ^ 64
    · exact .inl (expand_grown map inv distinct fits)
    · exact .inr ⟨by omega, expand_too_big map inv fits⟩
  · rw [hashMapGrow, if_neg full]
    exact .inl ⟨map, rfl, inv, by omega, rfl, List.Perm.refl _⟩

theorem written_perm {V : Type} (p : SPair V) (old older new : List (SPair V)) (same : old.Perm older)
    (written : Written p old new) : Written p older new := by
  cases written with
  | added absent now =>
      exact .added (fun entry member => absent entry (same.mem_iff.mpr member)) (now.trans (same.cons p))
  | replaced gone rest key was now => exact .replaced gone rest key (same.symm.trans was) now

theorem written_length {V : Type} (p : SPair V) (old new : List (SPair V)) (written : Written p old new) :
    new.length ≤ old.length + 1 := by
  cases written with
  | added _ now => exact Nat.le_of_eq now.length_eq
  | replaced gone rest _ was now =>
      have before := was.length_eq
      have after := now.length_eq
      simp only [List.length_cons] at before after
      omega

theorem grown_store {V : Type} (map grown : HashMap V) (new : List (Option (SPair V))) (step : Grown map grown)
    (slots : new.length = grown.cap) (closed : Closed (homeOf grown.cap) new)
    (count : (contents new).length ≤ (contents grown.entries).length + 1) :
    RepInv { grown with entries := new, len := grown.len + 1 } where
  power := step.inv.power
  atLeast := step.inv.atLeast
  fits := step.inv.fits
  slots := slots
  load := Nat.le_trans count (Nat.succ_le_succ step.inv.load)
  half := step.spare
  closed := closed

structure Inserted {V : Type} (map next : HashMap V) : Prop where
  inv : RepInv next
  len : next.len = map.len + 1

theorem insert_steps {V : Type} (map : HashMap V) (p : SPair V) (fresh : Nat) (inv : RepInv map)
    (distinct : (addrs map.entries).Nodup) (unused : p.addr ∉ addrs map.entries) :
    (∃ next, hashMapInsert map p fresh = .ok (next, true) ∧ Inserted map next ∧
        Written { p with addr := fresh } (contents map.entries) (contents next.entries)) ∨
      (2 ^ 59 ≤ map.len ∧ hashMapInsert map p fresh = .error .null) := by
  rcases grow_grown map inv distinct with ⟨grown, grew, step⟩ | ⟨many, failed⟩
  · have absent : p.addr ∉ addrs grown.entries := fun member =>
      unused ((step.kept.map SPair.addr).mem_iff.mp member)
    obtain ⟨new, wrote, slots, closed, written⟩ :=
      set_entry_written grown.entries grown.cap p fresh (rep_inv_probeable grown step.inv) absent
    refine .inl ⟨{ grown with entries := new, len := grown.len + 1 }, ?_, ⟨?_, ?_⟩, ?_⟩
    · simp [hashMapInsert, grew, wrote, bind, Except.bind]
    · exact grown_store map grown new step slots closed (written_length _ _ _ written)
    · exact congrArg (· + 1) step.len
    · exact written_perm _ _ _ _ step.kept written
  · exact .inr ⟨many, by simp [hashMapInsert, failed, bind, Except.bind]⟩

theorem insert_move_steps {V : Type} (map : HashMap V) (p : SPair V) (inv : RepInv map)
    (distinct : (addrs map.entries).Nodup) (unused : p.addr ∉ addrs map.entries) :
    (∃ next, hashMapInsertMove map p = .ok (next, true) ∧ Inserted map next ∧
        (contents next.entries).Perm (p :: contents map.entries)) ∨
      (2 ^ 59 ≤ map.len ∧ hashMapInsertMove map p = .error .null) := by
  rcases grow_grown map inv distinct with ⟨grown, grew, step⟩ | ⟨many, failed⟩
  · have absent : p.addr ∉ addrs grown.entries := fun member =>
      unused ((step.kept.map SPair.addr).mem_iff.mp member)
    have ready := rep_inv_probeable grown step.inv
    have moved := move_entry_place grown.entries grown.cap p ready absent
    have placed := place_ready grown.entries grown.cap p ready
    refine .inl ⟨{ grown with entries := place (homeOf grown.cap) p grown.entries, len := grown.len + 1 }, ?_, ⟨?_, ?_⟩, ?_⟩
    · simp [hashMapInsertMove, grew, moved, bind, Except.bind]
    · exact grown_store map grown _ step (placed.length.trans step.inv.slots) placed.closed
        (Nat.le_of_eq placed.contents.length_eq)
    · exact congrArg (· + 1) step.len
    · exact placed.contents.trans (step.kept.cons p)
  · exact .inr ⟨many, by simp [hashMapInsertMove, failed, bind, Except.bind]⟩

-- The calls of a run. `fresh` is the address malloc returns for the copy that
-- Hash_map_insert stores.
inductive Op (V : Type) where
  | insert (p : SPair V) (fresh : Nat)
  | insertMove (p : SPair V)

def Op.pair {V : Type} : Op V → SPair V
  | .insert p _ => p
  | .insertMove p => p

def Op.apply {V : Type} (map : HashMap V) : Op V → Except Fault (HashMap V × Bool)
  | .insert p fresh => hashMapInsert map p fresh
  | .insertMove p => hashMapInsertMove map p

-- Every pair object handed in differs from the stored ones, and live objects
-- have pairwise distinct addresses. Nothing is said about keys.
inductive Reachable {V : Type} : HashMap V → Prop where
  | new : Reachable hashMapNew
  | step (map next : HashMap V) (op : Op V) (stored : Bool) (previous : Reachable map)
      (unused : op.pair.addr ∉ addrs map.entries) (run : op.apply map = .ok (next, stored))
      (distinct : (addrs next.entries).Nodup) : Reachable next

theorem reachable_distinct {V : Type} (map : HashMap V) (reachable : Reachable map) : (addrs map.entries).Nodup := by
  cases reachable with
  | new => rw [addrs, hashMapNew, contents_empty]; exact List.nodup_nil
  | step previous next op stored reached unused run distinct => exact distinct

theorem op_inserted {V : Type} (map next : HashMap V) (op : Op V) (stored : Bool) (inv : RepInv map)
    (distinct : (addrs map.entries).Nodup) (unused : op.pair.addr ∉ addrs map.entries)
    (run : op.apply map = .ok (next, stored)) : Inserted map next := by
  cases op with
  | insert p fresh =>
      rcases insert_steps map p fresh inv distinct unused with ⟨result, same, inserted, _⟩ | ⟨_, failed⟩
      · cases same.symm.trans run
        exact inserted
      · cases failed.symm.trans run
  | insertMove p =>
      rcases insert_move_steps map p inv distinct unused with ⟨result, same, inserted, _⟩ | ⟨_, failed⟩
      · cases same.symm.trans run
        exact inserted
      · cases failed.symm.trans run

theorem reachable_rep_inv {V : Type} (map : HashMap V) (reachable : Reachable map) : RepInv map := by
  induction reachable with
  | new => exact rep_inv_new
  | step map next op stored previous unused run _ inv =>
      exact (op_inserted map next op stored inv (reachable_distinct map previous) unused run).inv

theorem chain_get {V : Type} (map : HashMap V) (key : List UInt8) (d : Nat) (entry : SPair V)
    (slots : map.entries.length = map.cap) (bound : d < map.cap)
    (passed : Passed map.entries (sameKey key) (getIndex map.cap key) d)
    (slot : map.entries[(getIndex map.cap key + d) % map.entries.length]? = some (some entry)) (same : key = entry.key) :
    hashMapGet map key = .ok (some entry.value) := by
  have result := get_loop_stop map.entries key map.entries.length (getIndex map.cap key)
  have found := probe_hit map.entries (sameKey key) (getIndex map.cap key) d entry
    (by rw [slots]; exact get_index_lt _ _ (by omega)) (by omega) passed slot (decide_eq_true same)
  rw [found, slots] at result
  exact result

theorem insert_move_reachable {V : Type} (map next : HashMap V) (p : SPair V) (reachable : Reachable map)
    (unused : p.addr ∉ addrs map.entries) (run : hashMapInsertMove map p = .ok (next, true)) : Reachable next := by
  have distinct := reachable_distinct map reachable
  rcases insert_move_steps map p (reachable_rep_inv map reachable) distinct unused with ⟨other, moved, _, now⟩ | ⟨_, failed⟩
  · cases moved.symm.trans run
    apply Reachable.step map _ (.insertMove p) true reachable unused run
    exact ((now.map SPair.addr).nodup_iff).mpr (List.nodup_cons.mpr ⟨unused, distinct⟩)
  · cases failed.symm.trans run

theorem get_spec {V : Type} (map : HashMap V) (key : List UInt8) (inv : RepInv map) :
    (hashMapGet map key = .ok none ∧ ∀ entry ∈ contents map.entries, entry.key ≠ key) ∨
      ∃ entry ∈ contents map.entries, entry.key = key ∧ hashMapGet map key = .ok (some entry.value) := by
  have ready := rep_inv_probeable map inv
  have ends := probeable_ends map.entries map.cap (sameKey key) key ready
  have result := get_loop_stop map.entries key map.cap (getIndex map.cap key)
  rw [ready.slots] at result
  rw [hashMapGet]
  generalize probe map.entries (sameKey key) map.cap (getIndex map.cap key) = stop at ends result
  cases ends with
  | hole d bound passed hole =>
      refine .inl ⟨result, ?_⟩
      intro entry member same
      have excluded := hole_excludes (homeOf map.cap) map.entries (sameKey key) _ d ready.closed
        (fun e wanted => by rw [homeOf, ← of_decide_eq_true wanted]) bound passed hole entry member
      simp [sameKey, same] at excluded
  | hit d entry bound passed slot stops =>
      exact .inr ⟨entry, (mem_contents map.entries entry).mpr ⟨_, slot⟩, (of_decide_eq_true stops).symm, result⟩

theorem home_inside {V : Type} (map : HashMap V) (key : List UInt8) (inv : RepInv map) :
    getIndex map.cap key < map.entries.length := by
  have low := inv.atLeast
  rw [inv.slots]
  exact get_index_lt _ _ (by omega)

theorem absent_get {V : Type} (map : HashMap V) (key : List UInt8) (inv : RepInv map)
    (absent : ∀ entry ∈ contents map.entries, entry.key ≠ key) : hashMapGet map key = .ok none := by
  rcases get_spec map key inv with ⟨result, _⟩ | ⟨entry, member, same, _⟩
  · exact result
  · exact absurd same (absent entry member)

theorem get_total {V : Type} (map : HashMap V) (key : List UInt8) (inv : RepInv map) :
    ∃ value, hashMapGet map key = .ok value := by
  rcases get_spec map key inv with ⟨result, _⟩ | ⟨entry, _, _, result⟩
  · exact ⟨none, result⟩
  · exact ⟨some entry.value, result⟩

theorem grow_never_loops {V : Type} (map : HashMap V) (inv : RepInv map) (distinct : (addrs map.entries).Nodup) :
    hashMapGrow map = .error .null ∨ ∃ grown, hashMapGrow map = .ok (grown, true) ∧ RepInv grown := by
  rcases grow_grown map inv distinct with ⟨grown, grew, step⟩ | ⟨_, failed⟩
  · exact .inr ⟨grown, grew, step.inv⟩
  · exact .inl failed

theorem op_never_loops {V : Type} (map : HashMap V) (op : Op V) (inv : RepInv map)
    (distinct : (addrs map.entries).Nodup) : op.apply map ≠ .error .loop := by
  rcases grow_never_loops map inv distinct with failed | ⟨grown, grew, grownInv⟩
  · cases op <;> simp [Op.apply, hashMapInsert, hashMapInsertMove, failed, bind, Except.bind]
  · have ready := rep_inv_probeable grown grownInv
    cases op with
    | insert p fresh =>
        obtain ⟨result, wrote⟩ := set_entry_ends grown.entries grown.cap p fresh ready
        simp [Op.apply, hashMapInsert, grew, wrote, bind, Except.bind]
    | insertMove p =>
        obtain ⟨result, moved⟩ := move_entry_ends grown.entries grown.cap p ready
        simp [Op.apply, hashMapInsertMove, grew, moved, bind, Except.bind]

theorem expand_never_loops {V : Type} (map : HashMap V) (inv : RepInv map) (distinct : (addrs map.entries).Nodup) :
    hashMapExpand map ≠ .error .loop := by
  by_cases fits : map.cap * 2 * 8 < 2 ^ 64
  · obtain ⟨grown, grew, _⟩ := expand_grown map inv distinct fits
    simp [grew]
  · rw [expand_too_big map inv fits]
    simp

-- Every map the two insertions can build, whatever keys are repeated.
theorem hash_map_invariant {V : Type} (map : HashMap V) (reachable : Reachable map) :
    ((∃ e, map.cap = 2 ^ e) ∧ 64 ≤ map.cap ∧ map.entries.length = map.cap) ∧
    ((contents map.entries).length ≤ map.len ∧ map.len ≤ map.cap / 2) ∧
    (∀ j entry, map.entries[j]? = some (some entry) → Reached map.entries (getIndex map.cap entry.key) j) ∧
    (∀ key, ∃ value, hashMapGet map key = .ok value) ∧
    (∀ p, ∃ result, hashMapMoveEntry map.entries map.cap p = .ok result) ∧
    (∀ p fresh, ∃ result, hashMapSetEntry map.entries map.cap p fresh = .ok result) ∧
    hashMapExpand map ≠ .error .loop ∧ ∀ op : Op V, op.apply map ≠ .error .loop := by
  have inv := reachable_rep_inv map reachable
  have distinct := reachable_distinct map reachable
  have ready := rep_inv_probeable map inv
  exact ⟨⟨inv.power, inv.atLeast, inv.slots⟩, ⟨inv.load, inv.half⟩, inv.closed,
    fun key => get_total map key inv, fun p => move_entry_ends _ _ p ready,
    fun p fresh => set_entry_ends _ _ p fresh ready, expand_never_loops map inv distinct,
    fun op => op_never_loops map op inv distinct⟩

theorem hash_map_invariant_repeated : ∃ map : HashMap Nat, contents map.entries =
      [⟨2, ascii "/", 20⟩, ⟨3, ascii "/", 30⟩] ∧ map.len = 2 ∧
    ((contents map.entries).length ≤ map.len ∧ map.len ≤ map.cap / 2) ∧
    (∀ j entry, map.entries[j]? = some (some entry) → Reached map.entries (getIndex map.cap entry.key) j) ∧
    (∀ key, ∃ value, hashMapGet map key = .ok value) ∧ ∀ op : Op Nat, op.apply map ≠ .error .loop := by
  let one := (hashMapNew : HashMap Nat).entries.set 62 (some ⟨2, ascii "/", 20⟩)
  let two := one.set 63 (some ⟨3, ascii "/", 30⟩)
  have first : Reachable ⟨one, 64, 1⟩ :=
    .step hashMapNew _ (.insert ⟨1, ascii "/", 20⟩ 2) true .new (by decide +kernel) (by decide +kernel) (by decide +kernel)
  have second : Reachable ⟨two, 64, 2⟩ :=
    insert_move_reachable _ _ ⟨3, ascii "/", 30⟩ first (by decide +kernel) (by decide +kernel)
  obtain ⟨_, load, closed, lookup, _, _, _, ends⟩ := hash_map_invariant ⟨two, 64, 2⟩ second
  exact ⟨⟨two, 64, 2⟩, by decide +kernel, rfl, load, closed, lookup, ends⟩

-- 62 of 64 is the home slot of "/" and of "o".
theorem slash_reachable :
    Reachable (⟨(hashMapNew : HashMap Nat).entries.set 62 (some ⟨1, ascii "/", 10⟩), 64, 1⟩ : HashMap Nat) :=
  insert_move_reachable hashMapNew _ ⟨1, ascii "/", 10⟩ .new (by decide +kernel) (by decide +kernel)

theorem slash_o_reachable :
    Reachable (⟨((hashMapNew : HashMap Nat).entries.set 62 (some ⟨1, ascii "/", 10⟩)).set 63
      (some ⟨2, ascii "o", 20⟩), 64, 2⟩ : HashMap Nat) :=
  insert_move_reachable _ _ ⟨2, ascii "o", 20⟩ slash_reachable (by decide +kernel) (by decide +kernel)

end Facebooc
