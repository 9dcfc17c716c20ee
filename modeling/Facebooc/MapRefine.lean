import Facebooc.Map
import Facebooc.RbTreeOps

set_option autoImplicit false

namespace Facebooc

open CMemory TreeZipper

-- What the component is for: the live pairs, each key once. A key that is live
-- is not inserted again.
def liveAfter {V : Type} (live : List (Pair V)) : MapOp V → List (Pair V)
  | .insert p => if p.key ∈ live.map Pair.key then live else p :: live
  | .insertMove p => if p.key ∈ live.map Pair.key then live else p :: live
  | .erase key => live.filter fun p => decide (p.key ≠ key)

structure MapRight {V : Type} (m : Map V) (live : List (Pair V)) : Prop where
  found : ∀ p ∈ live, mapGet m p.key = .ok p.value
  missing : ∀ key, key ∉ live.map Pair.key → mapGet m key = .ok none
  size : mapSize m = .ok live.length

-- A property of the map and the live pairs in every state of a run.
def MapRun {V : Type} (right : Map V → List (Pair V) → Prop) : Map V → List (Pair V) → List (MapOp V) → Prop
  | m, live, [] => right m live
  | m, live, op :: rest => right m live ∧
      ∃ next done, op.apply m = .ok (next, done) ∧ MapRun right next (liveAfter live op) rest

theorem map_run_start {V : Type} (right : Map V → List (Pair V) → Prop) (m : Map V) (live : List (Pair V))
    (ops : List (MapOp V)) (run : MapRun right m live ops) : right m live := by
  cases ops with
  | nil => exact run
  | cons op rest => exact run.1

-- The induction over a run: an invariant that every operation keeps.
theorem map_run_invariant {V : Type} (right inv : Map V → List (Pair V) → Prop) (allowed : MapOp V → Prop)
    (state : ∀ m live, inv m live → right m live)
    (step : ∀ m live op, allowed op → inv m live →
      ∃ next done, op.apply m = .ok (next, done) ∧ inv next (liveAfter live op))
    (m : Map V) (live : List (Pair V)) (ops : List (MapOp V)) (all : ∀ op ∈ ops, allowed op) (start : inv m live) :
    MapRun right m live ops := by
  induction ops generalizing m live with
  | nil => exact state m live start
  | cons op rest ih =>
      obtain ⟨next, done, run, kept⟩ := step m live op (all op (by simp)) start
      exact ⟨state m live start, next, done, run,
        ih next (liveAfter live op) (fun later member => all later (by simp [member])) kept⟩

-- Keys in a window of 2^31 from base on, where the int difference is the
-- difference.
def offset (base key : UInt64) : Nat := (key - base).toNat

def Close (base key : UInt64) : Prop := offset base key < 2 ^ 31

theorem key_difference (base a b : UInt64) : ((b - a).toNat : Int) = (offset base b : Int) - offset base a ∨
    ((b - a).toNat : Int) = (offset base b : Int) - offset base a + 2 ^ 64 := by
  have aBound := a.toNat_lt
  have bBound := b.toNat_lt
  have baseBound := base.toNat_lt
  simp only [offset, UInt64.toNat_sub]
  omega

theorem wrap_small (x d : Int) (low : -2 ^ 31 < d) (high : d < 2 ^ 31) (same : x = d ∨ x = d + 2 ^ 64) :
    Int.bmod x (2 ^ 32) = d := by
  rw [Int.bmod_def]
  simp only [Nat.reducePow, Nat.cast_ofNat]
  split <;> omega

theorem wrap_zero (x : Int) (zero : Int.bmod x (2 ^ 32) = 0) : x % 2 ^ 32 = 0 := by
  rw [Int.bmod_def] at zero
  simp only [Nat.reducePow, Nat.cast_ofNat] at zero
  split at zero <;> omega

theorem cmpf_close {V : Type} (base : UInt64) (a b : Pair V) (aClose : Close base a.key) (bClose : Close base b.key) :
    cmpf a b = (offset base b.key : Int) - offset base a.key := by
  rw [Close] at aClose bClose
  exact wrap_small _ _ (by omega) (by omega) (key_difference base a.key b.key)

theorem cmpf_zero {V : Type} (a b : Pair V) (same : cmpf a b = 0) : a.key.toNat % 2 ^ 32 = b.key.toNat % 2 ^ 32 := by
  have aBound := a.key.toNat_lt
  have bBound := b.key.toNat_lt
  have multiple := wrap_zero _ same
  simp only [UInt64.toNat_sub] at multiple
  omega

theorem offset_injective (base a b : UInt64) (same : offset base a = offset base b) : a = b := by
  have equal : a - base = b - base := UInt64.toNat_inj.mp same
  exact (UInt64.sub_left_inj base).mp equal

-- The tree holds the live pairs, the largest offset leftmost.
structure MapInv {V : Type} (base : UInt64) (m : Map V) (live : List (Pair V)) : Prop where
  shape : ∃ tree, m = some tree ∧ RbInv tree ∧ (inorder tree.root).Perm live ∧
    (inorder tree.root).Pairwise fun p q => offset base q.key < offset base p.key
  close : ∀ p ∈ live, Close base p.key

theorem map_guides {V : Type} (base : UInt64) (data : Pair V) (pairs : List (Pair V)) (dataClose : Close base data.key)
    (close : ∀ p ∈ pairs, Close base p.key)
    (sorted : pairs.Pairwise fun p q => offset base q.key < offset base p.key) :
    Guides (fun key => orient (cmpf data key)) pairs := by
  apply sorted.imp_of_mem
  intro p q pMember qMember less reached
  have pSide := cmpf_close base data p dataClose (close p pMember)
  have qSide := cmpf_close base data q dataClose (close q qMember)
  apply (orient_lt _).mpr
  by_contra beyond
  exact reached ((orient_gt _).mpr (by omega))

theorem map_keys_distinct {V : Type} (base : UInt64) (m : Map V) (live : List (Pair V)) (inv : MapInv base m live) :
    live.Pairwise fun p q => p.key ≠ q.key := by
  obtain ⟨tree, _, _, perm, sorted⟩ := inv.shape
  apply (perm.pairwise_iff fun {p q} (apart : p.key ≠ q.key) => apart.symm).mp
  apply sorted.imp
  intro p q less same
  rw [same] at less
  exact Nat.lt_irrefl _ less

theorem map_search_live {V : Type} (base : UInt64) (tree : RbTree (Pair V)) (live : List (Pair V)) (p : Pair V)
    (key : UInt64) (inv : MapInv base (some tree) live) (member : p ∈ live) (same : p.key = key) :
    ∃ tag left right path, rbtreeSearch cmpf tree ⟨key, none⟩ = some (.node tag left p right, path) := by
  obtain ⟨other, whole, _, perm, sorted⟩ := inv.shape
  cases whole
  subst same
  have pClose := inv.close p member
  have guides := map_guides base ⟨p.key, none⟩ _ pClose (fun q stored => inv.close q (perm.mem_iff.mp stored)) sorted
  have zero : cmpf (⟨p.key, none⟩ : Pair V) p = 0 := by
    rw [cmpf_close base ⟨p.key, none⟩ p pClose pClose]
    exact Int.sub_self _
  obtain ⟨tag, left, right, path, found⟩ :=
    descend_complete _ tree.root p guides (perm.mem_iff.mpr member) ((orient_eq _).mpr zero)
  exact ⟨tag, left, right, path, by rw [search_descend, found]⟩

-- With no stored key equal in its low 32 bits nothing stops the search.
theorem map_search_missing {V : Type} (tree : RbTree (Pair V)) (key : UInt64)
    (absent : ∀ p ∈ inorder tree.root, cmpf ⟨key, none⟩ p ≠ 0) : rbtreeSearch cmpf tree ⟨key, none⟩ = none := by
  have missed := descend_misses (fun own => orient (cmpf ⟨key, none⟩ own)) tree.root ([] : RbPath (Pair V))
    fun p member stopped => absent p member ((orient_eq _).mp stopped)
  rw [search_descend]
  generalize descend (fun own => orient (cmpf ⟨key, none⟩ own)) tree.root [] = walk at missed ⊢
  obtain ⟨node, path⟩ := walk
  simp only at missed
  rw [missed]

theorem map_get_missing {V : Type} (tree : RbTree (Pair V)) (key : UInt64)
    (absent : ∀ p ∈ inorder tree.root, cmpf ⟨key, none⟩ p ≠ 0) : mapGet (some tree) key = .error .null := by
  simp only [mapGet, map_search_missing tree key absent]

theorem close_absent {V : Type} (base key : UInt64) (p : Pair V) (keyClose : Close base key) (pClose : Close base p.key)
    (apart : p.key ≠ key) : cmpf ⟨key, none⟩ p ≠ 0 := by
  intro zero
  have distance := (cmpf_close base ⟨key, none⟩ p keyClose pClose).symm.trans zero
  dsimp only at distance
  exact apart (offset_injective base p.key key (by omega))

-- What the code does with close keys: everything but the answer for a missing key.
structure MapRightButMissing {V : Type} (base : UInt64) (m : Map V) (live : List (Pair V)) : Prop where
  found : ∀ p ∈ live, mapGet m p.key = .ok p.value
  missing : ∀ key, Close base key → key ∉ live.map Pair.key → mapGet m key = .error .null
  size : mapSize m = .ok live.length

theorem map_inv_right {V : Type} (base : UInt64) (m : Map V) (live : List (Pair V)) (inv : MapInv base m live) :
    MapRightButMissing base m live := by
  obtain ⟨tree, whole, rbInv, perm, sorted⟩ := inv.shape
  subst whole
  constructor
  · intro p member
    obtain ⟨tag, left, right, path, found⟩ := map_search_live base tree live p p.key inv member rfl
    simp only [mapGet, found]
  · intro key keyClose absent
    apply map_get_missing tree key
    intro p stored
    have member := perm.mem_iff.mp stored
    apply close_absent base key p keyClose (inv.close p member)
    intro same
    exact absent (same ▸ List.mem_map_of_mem member)
  · rw [mapSize, rbInv.counted, perm.length_eq]

theorem insert_node_ok {V : Type} (tree next : RbTree (Pair V)) (p : Pair V) (stored : Option (Pair V))
    (run : rbtreeInsert cmpf tree p = .ok (next, stored)) : mapInsertNode (some tree) p = .ok (some next, true) := by
  simp only [mapInsertNode, run, bind, Except.bind]

theorem erase_ok {V : Type} (tree next : RbTree (Pair V)) (key : UInt64) (deleted : Option (Pair V))
    (run : rbtreeDelete cmpf tree ⟨key, none⟩ = .ok (next, deleted)) :
    mapErase (some tree) key = .ok (some next, deleted.isSome) := by
  simp only [mapErase, run, bind, Except.bind]

theorem map_inv_new {V : Type} (base : UInt64) : MapInv base (mapNew : Map V) [] where
  shape := ⟨rbtreeInit, rfl, rb_inv_init, List.Perm.refl _, List.Pairwise.nil⟩
  close := by simp

theorem insert_node_step {V : Type} (base : UInt64) (m : Map V) (live : List (Pair V)) (p : Pair V)
    (pClose : Close base p.key) (inv : MapInv base m live) :
    ∃ next, mapInsertNode m p = .ok (next, true) ∧
      MapInv base next (if p.key ∈ live.map Pair.key then live else p :: live) := by
  obtain ⟨tree, whole, rbInv, perm, sorted⟩ := inv.shape
  subst whole
  have close : ∀ q ∈ inorder tree.root, Close base q.key := fun q stored => inv.close q (perm.mem_iff.mp stored)
  have guides := map_guides base p _ pClose close sorted
  -- In the window equal differences are equal keys, so the tree refuses p only
  -- where its key is live.
  rcases insert_spec cmpf tree p rbInv with ⟨run, q, stored, zero⟩ | ⟨next, pre, post, run, placed⟩
  · have same : p.key = q.key := by
      rw [cmpf_close base p q pClose (close q stored)] at zero
      exact offset_injective base p.key q.key (by omega)
    have present : p.key ∈ live.map Pair.key := same ▸ List.mem_map_of_mem (perm.mem_iff.mp stored)
    rw [if_pos present]
    exact ⟨some tree, insert_node_ok tree tree p none run, inv⟩
  · obtain ⟨behind, ahead⟩ := placed.ordered guides
    have larger : ∀ q ∈ pre, offset base p.key < offset base q.key := by
      intro q member
      have side := (orient_gt _).mp (behind q member)
      rw [cmpf_close base p q pClose (close q (by simp [placed.was, member]))] at side
      omega
    have smaller : ∀ q ∈ post, offset base q.key < offset base p.key := by
      intro q member
      have side := (orient_lt _).mp (ahead q member)
      rw [cmpf_close base p q pClose (close q (by simp [placed.was, member]))] at side
      omega
    have absent : p.key ∉ live.map Pair.key := by
      intro present
      obtain ⟨q, member, same⟩ := List.mem_map.mp present
      have stored := perm.mem_iff.mpr member
      rw [placed.was] at stored
      rcases List.mem_append.mp stored with front | back
      · exact absurd (larger q front) (by rw [same]; omega)
      · exact absurd (smaller q back) (by rw [same]; omega)
    rw [if_neg absent]
    refine ⟨some next, insert_node_ok tree next p (some p) run, ⟨next, rfl, placed.inv, ?_, ?_⟩, ?_⟩
    · rw [placed.now]
      apply List.perm_middle.trans
      rw [← placed.was]
      exact perm.cons p
    · rw [placed.was] at sorted
      obtain ⟨preSorted, postSorted, across⟩ := List.pairwise_append.mp sorted
      rw [placed.now]
      apply List.pairwise_append.mpr
      refine ⟨preSorted, List.pairwise_cons.mpr ⟨smaller, postSorted⟩, ?_⟩
      intro q front r back
      rcases List.mem_cons.mp back with rfl | later
      · exact larger q front
      · exact across q front r later
    · intro q member
      rcases List.mem_cons.mp member with rfl | old
      · exact pClose
      · exact inv.close q old

theorem map_inv_perm {V : Type} (base : UInt64) (m : Map V) (live other : List (Pair V)) (perm : live.Perm other)
    (inv : MapInv base m live) : MapInv base m other := by
  obtain ⟨tree, whole, rbInv, stored, sorted⟩ := inv.shape
  exact ⟨⟨tree, whole, rbInv, stored.trans perm, sorted⟩, fun p member => inv.close p (perm.mem_iff.mpr member)⟩

theorem filter_absent {V : Type} (key : UInt64) (live : List (Pair V)) (absent : ∀ p ∈ live, p.key ≠ key) :
    live.filter (fun p => decide (p.key ≠ key)) = live := by
  apply List.filter_eq_self.mpr
  intro p member
  exact decide_eq_true (absent p member)

theorem erase_step {V : Type} (base : UInt64) (m : Map V) (live : List (Pair V)) (key : UInt64)
    (keyClose : Close base key) (inv : MapInv base m live) :
    ∃ next done, mapErase m key = .ok (next, done) ∧
      MapInv base next (live.filter fun p => decide (p.key ≠ key)) := by
  obtain ⟨tree, whole, rbInv, perm, sorted⟩ := inv.shape
  subst whole
  rcases delete_spec cmpf tree ⟨key, none⟩ rbInv with ⟨run, missed⟩ | ⟨next, own, pre, post, run, zero, nextInv, was, now⟩
  · have absent : ∀ p ∈ live, p.key ≠ key := by
      intro p member same
      obtain ⟨tag, left, right, path, found⟩ := map_search_live base tree live p key inv member same
      rw [missed] at found
      cases found
    rw [filter_absent key live absent]
    exact ⟨some tree, false, erase_ok tree tree key none run, inv⟩
  · have rest : live.Perm (own :: (pre ++ post)) := perm.symm.trans (was ▸ List.perm_middle)
    have ownMember : own ∈ live := rest.mem_iff.mpr (by simp)
    have same : own.key = key := by
      by_contra apart
      exact close_absent base key own keyClose (inv.close own ownMember) apart zero
    have distinct := map_keys_distinct base _ _ (map_inv_perm base (some tree) live _ rest inv)
    have others : ∀ p ∈ pre ++ post, p.key ≠ key := by
      intro p member
      rw [← same]
      exact ((List.pairwise_cons.mp distinct).1 p member).symm
    have left : (live.filter fun p => decide (p.key ≠ key)).Perm (pre ++ post) := by
      have filtered := rest.filter fun p => decide (p.key ≠ key)
      rwa [List.filter_cons_of_neg (by simp [same]), filter_absent key _ others] at filtered
    refine ⟨some next, true, erase_ok tree next key (some own) run, ⟨next, rfl, nextInv, ?_, ?_⟩, ?_⟩
    · rw [now]
      exact left.symm
    · rw [now]
      rw [was] at sorted
      exact sorted.sublist (List.Sublist.append_left (List.sublist_cons_self own post) pre)
    · intro p member
      exact inv.close p (List.mem_filter.mp member).1

theorem map_step {V : Type} (base : UInt64) (m : Map V) (live : List (Pair V)) (op : MapOp V)
    (close : Close base op.key) (inv : MapInv base m live) :
    ∃ next done, op.apply m = .ok (next, done) ∧ MapInv base next (liveAfter live op) := by
  cases op with
  | insert p =>
      obtain ⟨next, run, kept⟩ := insert_node_step base m live p close inv
      exact ⟨next, true, run, kept⟩
  | insertMove p =>
      obtain ⟨next, run, kept⟩ := insert_node_step base m live p close inv
      exact ⟨next, true, run, kept⟩
  | erase key => exact erase_step base m live key close inv

-- Any keys: what is stored was inserted, and neither operation faults.
structure Avoids {V : Type} (key : UInt64) (m : Map V) : Prop where
  shape : ∃ tree, m = some tree ∧ RbInv tree ∧
    ∀ p ∈ inorder tree.root, p.key.toNat % 2 ^ 32 ≠ key.toNat % 2 ^ 32

theorem insert_node_avoids {V : Type} (key : UInt64) (m : Map V) (p : Pair V)
    (apart : p.key.toNat % 2 ^ 32 ≠ key.toNat % 2 ^ 32) (avoids : Avoids key m) :
    ∃ next, mapInsertNode m p = .ok (next, true) ∧ Avoids key next := by
  obtain ⟨tree, whole, rbInv, others⟩ := avoids.shape
  subst whole
  rcases insert_spec cmpf tree p rbInv with ⟨run, _⟩ | ⟨next, pre, post, run, placed⟩
  · exact ⟨some tree, insert_node_ok tree tree p none run, avoids⟩
  · refine ⟨some next, insert_node_ok tree next p (some p) run, ⟨next, rfl, placed.inv, ?_⟩⟩
    intro q stored
    rw [placed.now] at stored
    rcases List.mem_cons.mp (List.perm_middle.mem_iff.mp stored) with rfl | old
    · exact apart
    · exact others q (placed.was ▸ old)

theorem erase_avoids {V : Type} (key target : UInt64) (m : Map V) (avoids : Avoids key m) :
    ∃ next done, mapErase m target = .ok (next, done) ∧ Avoids key next := by
  obtain ⟨tree, whole, rbInv, others⟩ := avoids.shape
  subst whole
  rcases delete_spec cmpf tree ⟨target, none⟩ rbInv with ⟨run, _⟩ | ⟨next, own, pre, post, run, _, nextInv, was, now⟩
  · exact ⟨some tree, false, erase_ok tree tree target none run, avoids⟩
  · refine ⟨some next, true, erase_ok tree next target (some own) run, ⟨next, rfl, nextInv, ?_⟩⟩
    intro q stored
    apply others q
    rw [was]
    rw [now] at stored
    exact List.perm_middle.mem_iff.mpr (List.mem_cons_of_mem own stored)

theorem avoids_step {V : Type} (key : UInt64) (m : Map V) (op : MapOp V)
    (apart : ∀ p, op.pair = some p → p.key.toNat % 2 ^ 32 ≠ key.toNat % 2 ^ 32) (avoids : Avoids key m) :
    ∃ next done, op.apply m = .ok (next, done) ∧ Avoids key next := by
  cases op with
  | insert p =>
      obtain ⟨next, run, kept⟩ := insert_node_avoids key m p (apart p rfl) avoids
      exact ⟨next, true, run, kept⟩
  | insertMove p =>
      obtain ⟨next, run, kept⟩ := insert_node_avoids key m p (apart p rfl) avoids
      exact ⟨next, true, run, kept⟩
  | erase target => exact erase_avoids key target m avoids

theorem avoids_get {V : Type} (key : UInt64) (m : Map V) (avoids : Avoids key m) : mapGet m key = .error .null := by
  obtain ⟨tree, whole, _, others⟩ := avoids.shape
  subst whole
  apply map_get_missing tree key
  intro p stored zero
  exact others p stored (cmpf_zero _ _ zero).symm

-- A missing key is never answered with NULL: the empty map already dereferences
-- it, and so does every later state as long as no inserted key shares the low
-- half of the missing one. What is left of the refinement, the answers for keys
-- that are in the map, holds while the keys keep within 2^31 of each other.
theorem map_refines_never {V : Type} (ops : List (MapOp V)) :
    ¬ MapRun MapRight (mapNew : Map V) [] ops ∧
    (∀ key, (∀ op ∈ ops, ∀ p, op.pair = some p → p.key.toNat % 2 ^ 32 ≠ key.toNat % 2 ^ 32) →
      MapRun (fun m _ => mapGet m key = .error .null) (mapNew : Map V) [] ops) ∧
    ∀ base, (∀ op ∈ ops, Close base op.key) → MapRun (MapRightButMissing base) (mapNew : Map V) [] ops := by
  refine ⟨?_, ?_, ?_⟩
  · intro run
    have answer := (map_run_start MapRight mapNew [] ops run).missing 0 (by simp)
    cases answer
  · intro key apart
    apply map_run_invariant _ (fun m _ => Avoids key m) _ (fun m _ => avoids_get key m)
      (fun m _ op allowed avoids => avoids_step key m op allowed avoids) mapNew [] ops apart
    exact ⟨rbtreeInit, rfl, rb_inv_init, by simp [rbtreeInit, inorder]⟩
  · intro base close
    exact map_run_invariant _ (MapInv base) (fun op => Close base op.key) (map_inv_right base) (map_step base) mapNew []
      ops close (map_inv_new base)

-- A missing key in the empty map; the key 2^32 behind the key 0; and eight live
-- keys no two of which agree in their low halves, of which one is lost.
theorem map_refines_fails :
    ¬ MapRun MapRight (mapNew : Map Nat) [] [] ∧ mapGet (mapNew : Map Nat) 7 = .error .null ∧
    (do let first ← mapInsert mapNew ⟨0, some 10⟩
        let second ← mapInsert first.1 ⟨4294967296, some 20⟩
        let got ← mapGet second.1 4294967296
        let size ← mapSize second.1
        .ok (got, size)) = .ok (some 10, 1) ∧
    (do let full ← [5, 12, 1, 11, 6, 9, 10, 8].foldlM
          (fun m n => (mapInsert m ⟨n * 268435456, some n.toNat⟩).map Prod.fst) mapNew
        let size ← mapSize full
        .ok (size, mapGet full 268435456)) = .ok (8, .error .null) := by
  refine ⟨?_, by decide +kernel, by decide +kernel, by decide +kernel⟩
  intro run
  have answer := run.missing 7 (by simp)
  cases answer

end Facebooc
