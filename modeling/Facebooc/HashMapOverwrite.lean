import Facebooc.HashMapRefine
import Facebooc.TemplateContext

set_option autoImplicit false

namespace Facebooc

open CMemory LinearProbe

-- What template.h promises of setting a key again, for either insertion.
def OverwriteLaw {V : Type} (map : HashMap V) (p : SPair V) (result : Except Fault (HashMap V × Bool)) : Prop :=
  ∃ next stored, result = .ok (next, stored) ∧ hashMapGet next p.key = .ok (some p.value) ∧
    (∀ key, key ≠ p.key → hashMapGet next key = hashMapGet map key) ∧ hashMapSize next = hashMapSize map

-- The copy is written where the search for its key ends, so it is found there.
theorem set_entry_get {V : Type} (map : HashMap V) (p : SPair V) (fresh : Nat) (len : Nat) (inv : RepInv map)
    (unused : p.addr ∉ addrs map.entries) (new : List (Option (SPair V)))
    (wrote : hashMapSetEntry map.entries map.cap p fresh = .ok (new, true)) :
    hashMapGet { map with entries := new, len := len } p.key = .ok (some p.value) := by
  have ready := rep_inv_probeable map inv
  have low := inv.atLeast
  have ends := probeable_ends map.entries map.cap (sameKey p.key) p.key ready
  have result := set_loop_stop map.entries p fresh map.cap (getIndex map.cap p.key)
    (addrs_distinct map.entries p unused)
  rw [ready.slots] at result
  have written : ∀ d, d < map.entries.length → Passed map.entries (sameKey p.key) (getIndex map.cap p.key) d →
      new = map.entries.set ((getIndex map.cap p.key + d) % map.entries.length) (some { p with addr := fresh }) →
      hashMapGet { map with entries := new, len := len } p.key = .ok (some p.value) := by
    rintro d bound passed rfl
    have apart : ∀ k < d, (getIndex map.cap p.key + d) % map.entries.length ≠
        (getIndex map.cap p.key + k) % map.entries.length := by
      intro k less same
      exact Nat.lt_irrefl k (by rwa [walk_injective _ _ d k bound (by omega) same] at less)
    exact chain_get { map with entries := _, len := len } p.key d { p with addr := fresh }
      ((List.length_set ..).trans ready.slots) (by rw [← ready.slots]; exact bound) (passed_set _ _ _ d _ _ passed apart)
      (by rw [List.length_set, List.getElem?_set_self (Nat.mod_lt _ (by omega))]) rfl
  rw [hashMapSetEntry] at wrote
  generalize probe map.entries (sameKey p.key) map.cap (getIndex map.cap p.key) = stop at ends result
  cases ends with
  | hole d bound passed hole =>
      have same := wrote.symm.trans result
      exact written d bound passed (by simpa using same)
  | hit d entry bound passed slot stops =>
      have same := wrote.symm.trans result
      exact written d bound passed (by simpa using same)

-- A moved pair goes to the end of its chain, behind every pair with its key.
theorem place_get {V : Type} (map : HashMap V) (p : SPair V) (len : Nat) (inv : RepInv map)
    (present : ∃ entry ∈ contents map.entries, entry.key = p.key) :
    ∃ entry ∈ contents map.entries, entry.key = p.key ∧
      hashMapGet { map with entries := place (homeOf map.cap) p map.entries, len := len } p.key =
        .ok (some entry.value) := by
  have ready := rep_inv_probeable map inv
  have low := inv.atLeast
  have ends := probeable_ends map.entries map.cap (sameKey p.key) p.key ready
  have spot := probeable_ends map.entries map.cap (fun _ => false) p.key ready
  rw [place, homeOf, ready.slots]
  generalize probe map.entries (fun _ => false) map.cap (getIndex map.cap p.key) = last at spot
  generalize probe map.entries (sameKey p.key) map.cap (getIndex map.cap p.key) = stop at ends
  cases spot with
  | hit e x eBound ePassed eSlot stops => cases stops
  | hole e eBound ePassed eHole =>
      cases ends with
      | hole d bound passed hole =>
          obtain ⟨entry, member, same⟩ := present
          have excluded := hole_excludes (homeOf map.cap) map.entries (sameKey p.key) _ d ready.closed
            (fun x wanted => by rw [homeOf, ← of_decide_eq_true wanted]) bound passed hole entry member
          simp [sameKey, same] at excluded
      | hit d entry bound passed slot stops =>
          refine ⟨entry, (mem_contents _ _).mpr ⟨_, slot⟩, (of_decide_eq_true stops).symm, ?_⟩
          have away : ∀ k, Occupied map.entries ((getIndex map.cap p.key + k) % map.entries.length) →
              (getIndex map.cap p.key + e) % map.entries.length ≠ (getIndex map.cap p.key + k) % map.entries.length := by
            intro k full same
            exact hole_not_occupied _ _ (same ▸ eHole) full
          exact chain_get { map with entries := _, len := len } p.key d entry
            ((List.length_set ..).trans ready.slots) (by rw [← ready.slots]; exact bound)
            (passed_set _ _ _ d _ _ passed fun k less => away k (passed_occupied _ _ _ d passed k less))
            (by rw [List.length_set, List.getElem?_set_ne (away d ⟨entry, slot⟩), slot]) (of_decide_eq_true stops)

theorem insert_overwrites {V : Type} (map next : HashMap V) (p : SPair V) (fresh : Nat) (stored : Bool)
    (reachable : Reachable map) (unused : p.addr ∉ addrs map.entries)
    (run : hashMapInsert map p fresh = .ok (next, stored)) :
    hashMapGet next p.key = .ok (some p.value) ∧ next.len = map.len + 1 := by
  have inv := reachable_rep_inv map reachable
  have distinct := reachable_distinct map reachable
  refine ⟨?_, (op_inserted map next (.insert p fresh) stored inv distinct unused run).len⟩
  rcases grow_grown map inv distinct with ⟨grown, grew, step⟩ | ⟨_, failed⟩
  · have absent : p.addr ∉ addrs grown.entries := fun member =>
      unused ((step.kept.map SPair.addr).mem_iff.mp member)
    obtain ⟨new, wrote, _⟩ := set_entry_written grown.entries grown.cap p fresh (rep_inv_probeable grown step.inv) absent
    simp only [hashMapInsert, grew, wrote, bind, Except.bind] at run
    cases run
    exact set_entry_get grown p fresh (grown.len + 1) step.inv absent new wrote
  · simp [hashMapInsert, failed, bind, Except.bind] at run

theorem insert_move_keeps_old {V : Type} (map next : HashMap V) (p : SPair V) (stored : Bool)
    (reachable : Reachable map) (unused : p.addr ∉ addrs map.entries)
    (present : ∃ entry ∈ contents map.entries, entry.key = p.key)
    (run : hashMapInsertMove map p = .ok (next, stored)) :
    (∃ entry ∈ contents map.entries, entry.key = p.key ∧ hashMapGet next p.key = .ok (some entry.value)) ∧
      next.len = map.len + 1 := by
  have inv := reachable_rep_inv map reachable
  have distinct := reachable_distinct map reachable
  refine ⟨?_, (op_inserted map next (.insertMove p) stored inv distinct unused run).len⟩
  rcases grow_grown map inv distinct with ⟨grown, grew, step⟩ | ⟨_, failed⟩
  · have absent : p.addr ∉ addrs grown.entries := fun member =>
      unused ((step.kept.map SPair.addr).mem_iff.mp member)
    have moved := move_entry_place grown.entries grown.cap p (rep_inv_probeable grown step.inv) absent
    simp only [hashMapInsertMove, grew, moved, bind, Except.bind] at run
    cases run
    obtain ⟨old, oldMember, oldKey⟩ := present
    obtain ⟨entry, member, same, result⟩ := place_get grown p (grown.len + 1) step.inv
      ⟨old, step.kept.mem_iff.mpr oldMember, oldKey⟩
    exact ⟨entry, step.kept.mem_iff.mp member, same, result⟩
  · simp [hashMapInsertMove, failed, bind, Except.bind] at run

theorem size_grows {V : Type} (map next : HashMap V) (more : next.len = map.len + 1) :
    hashMapSize next ≠ hashMapSize map := by
  intro same
  have zero : Int.bmod ((next.len : Int) - map.len) (2 ^ 32) = 0 := Int.bmod_eq_bmod_iff_bmod_sub_eq_zero.mp same
  have one : (next.len : Int) - map.len = 1 := by omega
  rw [one] at zero
  exact absurd zero (by decide)

theorem get_present {V : Type} (map : HashMap V) (key : List UInt8) (old : V) (inv : RepInv map)
    (bound : hashMapGet map key = .ok (some old)) : ∃ entry ∈ contents map.entries, entry.key = key := by
  rcases get_spec map key inv with ⟨absent, _⟩ | ⟨entry, member, same, _⟩
  · rw [absent] at bound
    cases bound
  · exact ⟨entry, member, same⟩

theorem len_refutes_overwrite {V : Type} (map : HashMap V) (p : SPair V) (result : Except Fault (HashMap V × Bool))
    (grows : ∀ next stored, result = .ok (next, stored) → next.len = map.len + 1) : ¬ OverwriteLaw map p result := by
  rintro ⟨next, stored, run, _, _, size⟩
  exact size_grows map next (grows next stored run) size

theorem template_set_keeps_old (template next : Template) (key : List UInt8) (value old : Page)
    (reachable : Reachable template.context) (present : hashMapGet template.context (cstr key) = .ok (some old))
    (run : templateSet template key value = .ok next) :
    ∃ entry ∈ contents template.context.entries, entry.key = cstr key ∧
      hashMapGet next.context (cstr key) = .ok (some entry.value) := by
  obtain ⟨done, moved, same⟩ := (except_bind_ok _ _ _).mp run
  cases same
  have bound := get_present template.context (cstr key) old (reachable_rep_inv _ reachable) present
  exact (insert_move_keeps_old template.context done.1 _ done.2 reachable (fresh_addr_unused _) bound moved).1

-- The promise fails on every table and every key that is already set: either
-- call counts the key again, and the moving call, which templateSet makes, does
-- not even show its value.
theorem overwrite_never {V : Type} (map : HashMap V) (p : SPair V) (old : V) (fresh : Nat) (reachable : Reachable map)
    (unused : p.addr ∉ addrs map.entries) (present : hashMapGet map p.key = .ok (some old)) :
    ¬ OverwriteLaw map p (hashMapInsert map p fresh) ∧ ¬ OverwriteLaw map p (hashMapInsertMove map p) ∧
      (∀ next stored, hashMapInsertMove map p = .ok (next, stored) →
        ∃ entry ∈ contents map.entries, entry.key = p.key ∧ hashMapGet next p.key = .ok (some entry.value)) ∧
      ∀ (template next : Template) (key : List UInt8) (value shown : Page), Reachable template.context →
        hashMapGet template.context (cstr key) = .ok (some shown) → templateSet template key value = .ok next →
          ∃ entry ∈ contents template.context.entries, entry.key = cstr key ∧
            hashMapGet next.context (cstr key) = .ok (some entry.value) := by
  have bound := get_present map p.key old (reachable_rep_inv map reachable) present
  refine ⟨?_, ?_, ?_, ?_⟩
  · exact len_refutes_overwrite map p _ fun next stored run =>
      (insert_overwrites map next p fresh stored reachable unused run).2
  · exact len_refutes_overwrite map p _ fun next stored run =>
      (insert_move_keeps_old map next p stored reachable unused bound run).2
  · exact fun next stored run => (insert_move_keeps_old map next p stored reachable unused bound run).1
  · exact fun template next key value shown made set run => template_set_keeps_old template next key value shown made set run

theorem one_pair_represents {V : Type} (p : SPair V) :
    ∃ map, hashMapInsertMove hashMapNew p = .ok (map, true) ∧ Reachable map ∧
      Represents map (FinMap.empty.put p.key p.value) ∧ addrs map.entries = [p.addr] := by
  have none_live : addrs (hashMapNew : HashMap V).entries = [] := by simp [addrs, hashMapNew, contents_empty]
  obtain ⟨map, run, rep, _, stored⟩ := op_represents hashMapNew FinMap.empty (.insertMove p) represents_new rfl
    (by simp [hashMapNew]) (by simp [none_live]) (by simp [none_live])
  rw [none_live] at stored
  exact ⟨map, run, .step _ map (.insertMove p) true .new (by simp [none_live]) run rep.distinct, rep,
    List.perm_singleton.mp stored⟩

theorem one_pair_reachable {V : Type} (p : SPair V) :
    ∃ map, hashMapInsertMove hashMapNew p = .ok (map, true) ∧ Reachable map ∧
      hashMapGet map p.key = .ok (some p.value) ∧ addrs map.entries = [p.addr] := by
  obtain ⟨map, run, reachable, rep, live⟩ := one_pair_represents p
  refine ⟨map, run, reachable, ?_, live⟩
  rw [represents_get map _ _ rep, put_same]

theorem overwrite_never_active : ∃ map : HashMap (List UInt8),
    let p : SPair (List UInt8) := ⟨2, ascii "active", ascii "login"⟩
    hashMapInsertMove hashMapNew ⟨1, ascii "active", ascii "home"⟩ = .ok (map, true) ∧
    ¬ OverwriteLaw map p (hashMapInsert map p 3) ∧ ¬ OverwriteLaw map p (hashMapInsertMove map p) ∧
      (∀ next stored, hashMapInsertMove map p = .ok (next, stored) →
        ∃ entry ∈ contents map.entries, entry.key = p.key ∧ hashMapGet next p.key = .ok (some entry.value)) ∧
      ∀ (template next : Template) (key : List UInt8) (value shown : Page), Reachable template.context →
        hashMapGet template.context (cstr key) = .ok (some shown) → templateSet template key value = .ok next →
          ∃ entry ∈ contents template.context.entries, entry.key = cstr key ∧
            hashMapGet next.context (cstr key) = .ok (some entry.value) := by
  obtain ⟨map, run, reachable, present, live⟩ := one_pair_reachable ⟨1, ascii "active", ascii "home"⟩
  exact ⟨map, run, overwrite_never map ⟨2, ascii "active", ascii "login"⟩ (ascii "home") 3 reachable
    (by rw [live]; decide) present⟩

-- templateSet(t, "active", "home"), then templateSet(t, "active", "login").
theorem overwrite_fails :
    (do let first ← templateSet (templateNew (ascii "x")) (ascii "active") (literal "home")
        let second ← templateSet first (ascii "active") (literal "login")
        hashMapGet second.context (ascii "active")) = .ok (some (literal "home")) ∧
    ∃ map : HashMap (List UInt8),
      let p : SPair (List UInt8) := ⟨2, ascii "active", ascii "login"⟩
      Reachable map ∧ p.addr ∉ addrs map.entries ∧ hashMapGet map p.key = .ok (some (ascii "home")) ∧
      ¬ OverwriteLaw map p (hashMapInsert map p 3) ∧ ¬ OverwriteLaw map p (hashMapInsertMove map p) := by
  refine ⟨by decide +kernel, ?_⟩
  obtain ⟨map, run, reachable, present, live⟩ := one_pair_reachable ⟨1, ascii "active", ascii "home"⟩
  have unused : 2 ∉ addrs map.entries := by rw [live]; decide
  refine ⟨map, reachable, unused, present, ?_, ?_⟩
  · exact len_refutes_overwrite map _ _ fun next stored wrote =>
      (insert_overwrites map next ⟨2, _, _⟩ 3 stored reachable unused wrote).2
  · exact len_refutes_overwrite map _ _ fun next stored moved =>
      (insert_move_keeps_old map next ⟨2, _, _⟩ stored reachable unused
        (get_present map _ _ (reachable_rep_inv map reachable) present) moved).2

end Facebooc
