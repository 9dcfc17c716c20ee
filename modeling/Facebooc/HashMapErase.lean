import Facebooc.HashMapInvariant

set_option autoImplicit false

namespace Facebooc

open CMemory LinearProbe

def HasKey {V : Type} (map : HashMap V) (key : List UInt8) : Prop := ∃ entry ∈ contents map.entries, entry.key = key

-- What a deletion is for: the key is gone, the others are as before, and the
-- size follows.
structure Erased {V : Type} (map : HashMap V) (key : List UInt8) (next : HashMap V) : Prop where
  gone : hashMapGet next key = .ok none
  others : ∀ other, other ≠ key → hashMapGet next other = hashMapGet map other
  counted : HasKey map key → hashMapSize next = hashMapSize map - 1
  uncounted : ¬ HasKey map key → hashMapSize next = hashMapSize map

def EraseLaw {V : Type} (map : HashMap V) (key : List UInt8) : Prop :=
  ∃ next done, hashMapErase map key = .ok (next, done) ∧ Erased map key next

-- With another key in the slot no number of rounds is enough.
theorem erase_loop_stuck {V : Type} (key : List UInt8) (index rounds : Nat) (entries : List (Option (SPair V)))
    (entry : SPair V) (slot : entries[index]? = some (some entry)) (other : key ≠ entry.key) :
    hashMapEraseLoop key index rounds entries = .error .loop := by
  induction rounds with
  | zero => rfl
  | succ rounds ih =>
      rw [hashMapEraseLoop, slot]
      dsimp only
      rw [if_neg other, ih]

theorem stored_home_full {V : Type} (map : HashMap V) (key : List UInt8) (inv : RepInv map)
    (stored : HasKey map key) : ¬ Hole map.entries (getIndex map.cap key) := by
  intro hole
  obtain ⟨entry, member, same⟩ := stored
  have low := inv.atLeast
  have start : (getIndex map.cap key + 0) % map.entries.length = getIndex map.cap key :=
    Nat.mod_eq_of_lt (home_inside map key inv)
  have excluded := hole_excludes (homeOf map.cap) map.entries (sameKey key) (getIndex map.cap key) 0 inv.closed
    (fun x wanted => by rw [homeOf, ← of_decide_eq_true wanted]) (by rw [inv.slots]; omega)
    (fun k less => absurd less (Nat.not_lt_zero k)) (by rw [start]; exact hole) entry member
  simp [sameKey, same] at excluded

theorem erase_empty_home {V : Type} (map : HashMap V) (key : List UInt8) (inv : RepInv map)
    (empty : Hole map.entries (getIndex map.cap key)) : hashMapErase map key = .ok (map, true) ∧ Erased map key map := by
  have absent : ¬ HasKey map key := fun stored => stored_home_full map key inv stored empty
  have lookup : hashMapGet map key = .ok none := by
    apply absent_get map key inv
    intro entry member same
    exact absent ⟨entry, member, same⟩
  constructor
  · rw [hashMapErase, hashMapEraseLoop, empty]
    rfl
  · exact {
      gone := lookup
      others := fun _ _ => rfl
      counted := fun stored => absurd stored absent
      uncounted := fun _ => rfl }

-- The length is written nowhere in the deletion.
theorem erase_size {V : Type} (map next : HashMap V) (key : List UInt8) (done : Bool)
    (run : hashMapErase map key = .ok (next, done)) : hashMapSize next = hashMapSize map := by
  obtain ⟨left, _, same⟩ := (except_bind_ok _ _ _).mp run
  cases same
  rfl

theorem erase_full_home {V : Type} (map : HashMap V) (key : List UInt8) (entry : SPair V)
    (slot : map.entries[getIndex map.cap key]? = some (some entry)) : ¬ EraseLaw map key := by
  intro law
  obtain ⟨next, done, run, erased⟩ := law
  by_cases same : key = entry.key
  · have stored : HasKey map key := ⟨entry, (mem_contents _ _).mpr ⟨_, slot⟩, same.symm⟩
    have counted := erased.counted stored
    rw [erase_size map next key done run] at counted
    omega
  · rw [hashMapErase, erase_loop_stuck key _ _ _ entry slot same] at run
    cases run

-- Whatever keys the insertions have repeated: only a key whose home slot is
-- empty is erased as announced, and no stored key ever is.
theorem erase_exact {V : Type} (map : HashMap V) (key : List UInt8) (reachable : Reachable map) :
    (EraseLaw map key ↔ map.entries[getIndex map.cap key]? = some none) ∧ (HasKey map key → ¬ EraseLaw map key) := by
  have inv := reachable_rep_inv map reachable
  have exact_home : EraseLaw map key ↔ map.entries[getIndex map.cap key]? = some none := by
    constructor
    · intro law
      rcases hole_or_occupied map.entries _ (home_inside map key inv) with empty | ⟨entry, slot⟩
      · exact empty
      · exact absurd law (erase_full_home map key entry slot)
    · intro empty
      obtain ⟨run, erased⟩ := erase_empty_home map key inv empty
      exact ⟨map, true, run, erased⟩
  refine ⟨exact_home, ?_⟩
  intro stored law
  exact stored_home_full map key inv stored (exact_home.mp law)

theorem erase_exact_slash : ∃ map : HashMap Nat, contents map.entries = [⟨1, ascii "/", 10⟩] ∧
    (HasKey map (ascii "/") → ¬ EraseLaw map (ascii "/")) ∧ ¬ EraseLaw map (ascii "o") ∧
    EraseLaw map (ascii "home") := by
  refine ⟨_, by decide +kernel, (erase_exact _ (ascii "/") slash_reachable).2, ?_, ?_⟩
  · intro law
    exact absurd ((erase_exact _ (ascii "o") slash_reachable).1.mp law) (by decide +kernel)
  · exact (erase_exact _ (ascii "home") slash_reachable).1.mpr (by decide +kernel)

-- One pair in its home slot, which is 62 of 64 for "/" and "o" and the last one
-- for the third key.
theorem erase_fails :
    let one : HashMap Nat := ⟨(hashMapNew : HashMap Nat).entries.set 62 (some ⟨1, ascii "/", 10⟩), 64, 1⟩
    let last : HashMap Nat := ⟨(hashMapNew : HashMap Nat).entries.set 63 (some ⟨1, [96], 10⟩), 64, 1⟩
    hashMapInsertMove hashMapNew ⟨1, ascii "/", 10⟩ = .ok (one, true) ∧
      hashMapErase one (ascii "/") = .ok ({ (hashMapNew : HashMap Nat) with len := 1 }, true) ∧
      ¬ EraseLaw one (ascii "/") ∧ hashMapErase one (ascii "o") = .error .loop ∧
      hashMapInsertMove hashMapNew ⟨1, [96], 10⟩ = .ok (last, true) ∧ hashMapErase last [96] = .error .bounds := by
  refine ⟨by decide +kernel, by decide +kernel, ?_, by decide +kernel, by decide +kernel, by decide +kernel⟩
  exact erase_full_home _ (ascii "/") ⟨1, ascii "/", 10⟩ (by decide +kernel)

end Facebooc
