import Facebooc.Template

set_option autoImplicit false

namespace Facebooc

open CMemory LinearProbe

theorem fresh_addr_unused {V : Type} (map : HashMap V) : freshAddr map ∉ addrs map.entries := by
  have bounded : ∀ (addresses : List Nat) (low : Nat), low ≤ addresses.foldl max low ∧
      ∀ a ∈ addresses, a ≤ addresses.foldl max low := by
    intro addresses
    induction addresses with
    | nil => simp
    | cons a rest ih =>
        intro low
        have here := ih (max low a)
        simp only [List.foldl_cons, List.mem_cons, forall_eq_or_imp]
        exact ⟨by omega, by omega, here.2⟩
  intro member
  have bound := (bounded (addrs map.entries) 0).2 _ member
  rw [freshAddr] at bound
  omega

structure Usable (template : Template) : Prop where
  inv : RepInv template.context
  distinct : (addrs template.context.entries).Nodup

theorem usable_new (filename : List UInt8) : Usable (templateNew filename) :=
  ⟨rep_inv_new, reachable_distinct _ .new⟩

-- Every value of the context is one that was there or one that was set.
structure Filled (template next : Template) (pairs : List (String × Page)) : Prop where
  usable : Usable next
  filename : next.filename = template.filename
  len : next.context.len = template.context.len + pairs.length
  values : ∀ entry ∈ contents next.context.entries,
    entry ∈ contents template.context.entries ∨ ∃ pair ∈ pairs, entry.value = pageCstr pair.2

theorem template_set_filled (template : Template) (key : String) (value : Page) (usable : Usable template)
    (few : template.context.len < 2 ^ 59) :
    ∃ next, templateSet template (ascii key) value = .ok next ∧ Filled template next [(key, value)] := by
  have unused := fresh_addr_unused template.context
  rcases insert_move_steps template.context ⟨freshAddr template.context, cstr (ascii key), pageCstr value⟩ usable.inv
    usable.distinct unused with ⟨next, run, inserted, now⟩ | ⟨many, _⟩
  · refine ⟨{ template with context := next }, by simp only [templateSet, run, bind, Except.bind], ?_⟩
    refine ⟨⟨inserted.inv, ?_⟩, rfl, inserted.len, ?_⟩
    · exact ((now.map SPair.addr).nodup_iff).mpr (List.nodup_cons.mpr ⟨unused, usable.distinct⟩)
    · intro entry member
      rcases List.mem_cons.mp (now.mem_iff.mp member) with rfl | old
      · exact .inr ⟨(key, value), List.mem_singleton_self _, rfl⟩
      · exact .inl old
  · omega

theorem template_set_all_filled (pairs : List (String × Page)) (template : Template) (usable : Usable template)
    (few : template.context.len + pairs.length ≤ 2 ^ 59) :
    ∃ next, templateSetAll template pairs = .ok next ∧ Filled template next pairs := by
  induction pairs generalizing template with
  | nil => exact ⟨template, rfl, usable, rfl, rfl, fun entry member => .inl member⟩
  | cons pair rest ih =>
      obtain ⟨key, value⟩ := pair
      rw [List.length_cons] at few
      obtain ⟨first, set, firstFilled⟩ := template_set_filled template key value usable (by omega)
      have firstLen := firstFilled.len
      rw [List.length_singleton] at firstLen
      obtain ⟨last, setAll, lastFilled⟩ := ih first firstFilled.usable (by omega)
      refine ⟨last, by simp only [templateSetAll, set, setAll, bind, Except.bind], lastFilled.usable,
        lastFilled.filename.trans firstFilled.filename, ?_, ?_⟩
      · rw [lastFilled.len, firstLen, List.length_cons]
        omega
      · intro entry member
        rcases lastFilled.values entry member with earlier | ⟨found, inRest, same⟩
        · rcases firstFilled.values entry earlier with old | ⟨found, here, same⟩
          · exact .inl old
          · rw [List.mem_singleton.mp here] at same
            exact .inr ⟨(key, value), List.mem_cons_self, same⟩
        · exact .inr ⟨found, List.mem_cons_of_mem _ inRest, same⟩

theorem template_new_filled (pairs : List (String × Page)) (filename : List UInt8) (few : pairs.length ≤ 2 ^ 59) :
    ∃ next, templateSetAll (templateNew filename) pairs = .ok next ∧ Filled (templateNew filename) next pairs :=
  template_set_all_filled pairs (templateNew filename) (usable_new filename)
    (by change 0 + pairs.length ≤ 2 ^ 59; omega)

theorem new_filled_values (filename : List UInt8) (next : Template) (pairs : List (String × Page))
    (filled : Filled (templateNew filename) next pairs) :
    ∀ entry ∈ contents next.context.entries, ∃ pair ∈ pairs, entry.value = pageCstr pair.2 := by
  intro entry member
  rcases filled.values entry member with old | set
  · rw [templateNew, hashMapNew, contents_empty] at old
    cases old
  · exact set

end Facebooc
