import Facebooc.HashMapInvariant
import Mathlib.Logic.Function.Basic

set_option autoImplicit false

namespace Facebooc

open CMemory LinearProbe

-- What the component is for: a finite map from texts to values.
abbrev FinMap (V : Type) := List UInt8 → Option V

def FinMap.empty {V : Type} : FinMap V := fun _ => none

def FinMap.put {V : Type} (f : FinMap V) (key : List UInt8) (value : V) : FinMap V := Function.update f key (some value)

theorem put_same {V : Type} (f : FinMap V) (key : List UInt8) (value : V) : f.put key value key = some value :=
  Function.update_self ..

theorem put_other {V : Type} (f : FinMap V) (key other : List UInt8) (value : V) (apart : other ≠ key) :
    f.put key value other = f other :=
  Function.update_of_ne apart ..

-- The table stores exactly the bindings of f, each key once.
structure Represents {V : Type} (map : HashMap V) (f : FinMap V) : Prop where
  inv : RepInv map
  distinct : (addrs map.entries).Nodup
  keys : ((contents map.entries).map SPair.key).Nodup
  agree : ∀ key value, f key = some value ↔ ∃ entry ∈ contents map.entries, entry.key = key ∧ entry.value = value

theorem represents_new {V : Type} : Represents (hashMapNew : HashMap V) FinMap.empty where
  inv := rep_inv_new
  distinct := reachable_distinct _ .new
  keys := by rw [hashMapNew, contents_empty]; exact List.nodup_nil
  agree := by simp [hashMapNew, contents_empty, FinMap.empty]

theorem represents_get {V : Type} (map : HashMap V) (f : FinMap V) (key : List UInt8) (rep : Represents map f) :
    hashMapGet map key = .ok (f key) := by
  rcases get_spec map key rep.inv with ⟨result, absent⟩ | ⟨entry, member, same, result⟩
  · rw [result]
    cases bound : f key with
    | none => rfl
    | some value =>
        obtain ⟨entry, member, same, _⟩ := (rep.agree key value).mp bound
        exact absurd same (absent entry member)
  · rw [result, (rep.agree key entry.value).mpr ⟨entry, member, same, rfl⟩]

theorem represents_absent {V : Type} (map : HashMap V) (f : FinMap V) (key : List UInt8) (rep : Represents map f)
    (absent : f key = none) : ∀ entry ∈ contents map.entries, entry.key ≠ key := by
  intro entry member same
  have bound := (rep.agree key entry.value).mpr ⟨entry, member, same, rfl⟩
  rw [absent] at bound
  cases bound

theorem represents_added {V : Type} (map next : HashMap V) (f : FinMap V) (p : SPair V) (rep : Represents map f)
    (absent : f p.key = none) (inv : RepInv next) (unused : p.addr ∉ addrs map.entries)
    (now : (contents next.entries).Perm (p :: contents map.entries)) : Represents next (f.put p.key p.value) where
  inv := inv
  distinct := ((now.map SPair.addr).nodup_iff).mpr (List.nodup_cons.mpr ⟨unused, rep.distinct⟩)
  keys := by
    refine ((now.map SPair.key).nodup_iff).mpr (List.nodup_cons.mpr ⟨?_, rep.keys⟩)
    intro member
    obtain ⟨entry, stored, same⟩ := List.mem_map.mp member
    exact represents_absent map f p.key rep absent entry stored same
  agree := by
    intro key value
    by_cases here : key = p.key
    · subst here
      rw [put_same]
      constructor
      · intro bound
        exact ⟨p, now.mem_iff.mpr (by simp), rfl, Option.some.inj bound⟩
      · rintro ⟨entry, member, same, rfl⟩
        rcases List.mem_cons.mp (now.mem_iff.mp member) with rfl | old
        · rfl
        · exact absurd same (represents_absent map f p.key rep absent entry old)
    · rw [put_other _ _ _ _ here, rep.agree]
      constructor
      · rintro ⟨entry, member, same⟩
        exact ⟨entry, now.mem_iff.mpr (by simp [member]), same⟩
      · rintro ⟨entry, member, same, value⟩
        rcases List.mem_cons.mp (now.mem_iff.mp member) with rfl | old
        · exact absurd same.symm here
        · exact ⟨entry, old, same, value⟩

-- The address an insertion leaves in the table: the caller's for a move, the
-- copy's otherwise.
def Op.stored {V : Type} : Op V → Nat
  | .insert _ fresh => fresh
  | .insertMove p => p.addr

-- A later call neither is handed nor allocates an object that lives in the table.
def Op.Separate {V : Type} (earlier later : Op V) : Prop :=
  earlier.stored ≠ later.stored ∧ earlier.stored ≠ later.pair.addr

def runOps {V : Type} : HashMap V → List (Op V) → Except Fault (HashMap V)
  | map, [] => .ok map
  | map, op :: rest => do
      let done ← op.apply map
      runOps done.1 rest

def FinMap.putAll {V : Type} (f : FinMap V) (ops : List (Op V)) : FinMap V :=
  ops.foldl (fun g op => g.put op.pair.key op.pair.value) f

theorem op_represents {V : Type} (map : HashMap V) (f : FinMap V) (op : Op V) (rep : Represents map f)
    (absent : f op.pair.key = none) (short : map.len < 2 ^ 31) (handed : op.pair.addr ∉ addrs map.entries)
    (allocated : op.stored ∉ addrs map.entries) :
    ∃ next, op.apply map = .ok (next, true) ∧ Represents next (f.put op.pair.key op.pair.value) ∧
      next.len = map.len + 1 ∧ (addrs next.entries).Perm (op.stored :: addrs map.entries) := by
  cases op with
  | insert p fresh =>
      rcases insert_steps map p fresh rep.inv rep.distinct handed with ⟨next, run, inserted, written⟩ | ⟨many, _⟩
      · cases written with
        | added _ now =>
            exact ⟨next, run, represents_added map next f { p with addr := fresh } rep absent inserted.inv allocated now,
              inserted.len, now.map SPair.addr⟩
        | replaced gone rest same was _ =>
            exact absurd same (represents_absent map f p.key rep absent gone (was.mem_iff.mpr (by simp)))
      · omega
  | insertMove p =>
      rcases insert_move_steps map p rep.inv rep.distinct handed with ⟨next, run, inserted, now⟩ | ⟨many, _⟩
      · exact ⟨next, run, represents_added map next f p rep absent inserted.inv handed now, inserted.len,
          now.map SPair.addr⟩
      · omega

theorem run_represents {V : Type} (ops : List (Op V)) (map : HashMap V) (f : FinMap V) (rep : Represents map f)
    (short : map.len + ops.length < 2 ^ 31) (keys : (ops.map fun op => op.pair.key).Nodup)
    (absent : ∀ op ∈ ops, f op.pair.key = none) (separate : ops.Pairwise Op.Separate)
    (live : ∀ op ∈ ops, op.pair.addr ∉ addrs map.entries ∧ op.stored ∉ addrs map.entries) :
    ∃ last, runOps map ops = .ok last ∧ Represents last (f.putAll ops) ∧ last.len = map.len + ops.length := by
  induction ops generalizing map f with
  | nil => exact ⟨map, rfl, rep, rfl⟩
  | cons op rest ih =>
      simp only [List.map_cons, List.nodup_cons, List.length_cons] at keys short
      obtain ⟨apart, separate⟩ := List.pairwise_cons.mp separate
      have here := live op (by simp)
      obtain ⟨next, run, nextRep, nextLen, nextAddrs⟩ :=
        op_represents map f op rep (absent op (by simp)) (by omega) here.1 here.2
      obtain ⟨last, rerun, lastRep, lastLen⟩ := ih next (f.put op.pair.key op.pair.value) nextRep (by omega) keys.2
        (by
          intro later member
          have other : later.pair.key ≠ op.pair.key := fun same =>
            keys.1 (same ▸ List.mem_map_of_mem (f := fun op => op.pair.key) member)
          rw [put_other _ _ _ _ other]
          exact absent later (by simp [member]))
        separate
        (by
          intro later member
          have old := live later (by simp [member])
          have new := apart later member
          constructor
          · intro stored
            rcases List.mem_cons.mp (nextAddrs.mem_iff.mp stored) with same | earlier
            · exact new.2 same.symm
            · exact old.1 earlier
          · intro stored
            rcases List.mem_cons.mp (nextAddrs.mem_iff.mp stored) with same | earlier
            · exact new.1 same.symm
            · exact old.2 earlier)
      refine ⟨last, ?_, lastRep, by rw [lastLen, nextLen, List.length_cons]; omega⟩
      simp only [runOps, run, bind, Except.bind]
      exact rerun

theorem put_all_other {V : Type} (ops : List (Op V)) (f : FinMap V) (key : List UInt8)
    (other : ∀ op ∈ ops, op.pair.key ≠ key) : f.putAll ops key = f key := by
  induction ops generalizing f with
  | nil => rfl
  | cons op rest ih =>
      have here := other op (by simp)
      rw [FinMap.putAll, List.foldl_cons]
      exact (ih _ fun later member => other later (by simp [member])).trans (put_other _ _ _ _ (Ne.symm here))

theorem put_all_bound {V : Type} (ops : List (Op V)) (f : FinMap V) (op : Op V)
    (keys : (ops.map fun op => op.pair.key).Nodup) (member : op ∈ ops) :
    f.putAll ops op.pair.key = some op.pair.value := by
  induction ops generalizing f with
  | nil => simp at member
  | cons head rest ih =>
      simp only [List.map_cons, List.nodup_cons] at keys
      rw [FinMap.putAll, List.foldl_cons]
      rcases List.mem_cons.mp member with rfl | later
      · refine (put_all_other rest _ op.pair.key ?_).trans (put_same ..)
        intro late lateMember same
        exact keys.1 (same ▸ List.mem_map_of_mem (f := fun op => op.pair.key) lateMember)
      · exact ih _ keys.2 later

def FinMap.putTable {V : Type} (f : FinMap V) (table : List (List UInt8 × V)) : FinMap V :=
  table.foldl (fun g entry => g.put entry.1 entry.2) f

theorem put_table_find {V : Type} (table : List (List UInt8 × V)) (f : FinMap V) (key : List UInt8)
    (names : (table.map Prod.fst).Nodup) :
    f.putTable table key = ((table.find? fun entry => entry.1 = key).map Prod.snd).or (f key) := by
  induction table generalizing f with
  | nil => rfl
  | cons entry rest ih =>
      simp only [List.map_cons, List.nodup_cons] at names
      rw [FinMap.putTable, List.foldl_cons, ← FinMap.putTable, ih _ names.2]
      by_cases here : entry.1 = key
      · have later : (rest.find? fun entry => entry.1 = key) = none := by
          refine List.find?_eq_none.mpr fun other member same => names.1 ?_
          rw [here, ← of_decide_eq_true same]
          exact List.mem_map_of_mem member
        rw [later, List.find?_cons_of_pos (by simp [here]), here, put_same]
        rfl
      · rw [List.find?_cons_of_neg (by simp [here]), put_other _ _ _ _ (Ne.symm here)]

theorem hash_map_size_small {V : Type} (map : HashMap V) (short : map.len < 2 ^ 31) : hashMapSize map = map.len := by
  exact Int.bmod_eq_of_le (by omega) (by omega)

-- Any calls with pairwise distinct keys, copying or moving, in any order and
-- across any number of growths.
theorem hash_map_refines {V : Type} (ops : List (Op V)) (short : ops.length < 2 ^ 31)
    (keys : (ops.map fun op => op.pair.key).Nodup) (separate : ops.Pairwise Op.Separate) :
    ∃ map, runOps hashMapNew ops = .ok map ∧
      (∀ op ∈ ops, hashMapGet map op.pair.key = .ok (some op.pair.value)) ∧
      (∀ key, (∀ op ∈ ops, op.pair.key ≠ key) → hashMapGet map key = .ok none) ∧
      hashMapSize map = ops.length := by
  have none_live : ∀ op ∈ ops, op.pair.addr ∉ addrs (hashMapNew : HashMap V).entries ∧
      op.stored ∉ addrs (hashMapNew : HashMap V).entries := by
    intro op member
    simp [addrs, hashMapNew, contents_empty]
  obtain ⟨map, run, rep, len⟩ := run_represents ops hashMapNew FinMap.empty represents_new
    (by simpa [hashMapNew] using short) keys (fun _ _ => rfl) separate none_live
  have count : map.len = ops.length := by simpa [hashMapNew] using len
  refine ⟨map, run, ?_, ?_, ?_⟩
  · intro op member
    rw [represents_get map _ _ rep, put_all_bound ops _ op keys member]
  · intro key other
    rw [represents_get map _ _ rep, put_all_other ops _ key other]
    rfl
  · rw [hash_map_size_small map (by omega), count]

theorem hash_map_refines_two : ∃ map, runOps (hashMapNew : HashMap Nat)
      [.insertMove ⟨1, [108, 105, 107, 101], 5⟩, .insert ⟨2, [], 7⟩ 3] = .ok map ∧
    (∀ op ∈ [Op.insertMove ⟨1, [108, 105, 107, 101], 5⟩, Op.insert ⟨2, [], 7⟩ 3],
      hashMapGet map op.pair.key = .ok (some op.pair.value)) ∧
    (∀ key, (∀ op ∈ [Op.insertMove ⟨1, [108, 105, 107, 101], 5⟩, Op.insert (⟨2, [], 7⟩ : SPair Nat) 3],
      op.pair.key ≠ key) → hashMapGet map key = .ok none) ∧
    hashMapSize map = 2 :=
  hash_map_refines [.insertMove ⟨1, [108, 105, 107, 101], 5⟩, .insert ⟨2, [], 7⟩ 3] (by simp) (by decide)
    (by simp [Op.Separate, Op.stored, Op.pair])

end Facebooc
