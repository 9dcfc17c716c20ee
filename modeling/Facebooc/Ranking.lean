import Mathlib.Data.List.NodupEquivFin
import Mathlib.Data.List.Sort
import Mathlib.Data.Finset.Max
import Mathlib.Tactic.Common

set_option autoImplicit false

namespace Ranking

variable {α β : Type} [DecidableEq α] [LinearOrder β] (key : α → β)

-- An ordering of the rows by descending key; rows with equal keys may stand in
-- any order.
structure Ranked (rows order : List α) : Prop where
  perm : order.Perm rows
  sorted : order.Pairwise fun a b => key b ≤ key a

def TopK (n : Nat) (rows out : List α) : Prop := ∃ order, Ranked key rows order ∧ out = order.take n

def newer (rows : List α) (x : α) : List α := rows.filter fun y => key x < key y

def rank (rows : List α) : List α := rows.insertionSort fun a b => key b ≤ key a

omit [DecidableEq α] in
theorem rank_ranked (rows : List α) : Ranked key rows (rank key rows) := by
  have total : Std.Total fun a b : α => key b ≤ key a := ⟨fun a b => le_total (key b) (key a)⟩
  have trans : IsTrans α fun a b => key b ≤ key a := ⟨fun _ _ _ first second => le_trans second first⟩
  exact ⟨List.perm_insertionSort _ rows, List.pairwise_insertionSort _ rows⟩

omit [DecidableEq α] in
theorem mem_newer (rows : List α) (x y : α) : y ∈ newer key rows x ↔ y ∈ rows ∧ key x < key y := by
  simp [newer]

omit [DecidableEq α] in
-- Whatever is newer than the row at i stands in front of it.
theorem newer_in_front (order : List α) (i : Nat) (x y : α) (sorted : order.Pairwise fun a b => key b ≤ key a)
    (here : order[i]? = some x) (member : y ∈ order) (less : key x < key y) : y ∈ order.take i := by
  obtain ⟨j, at_j⟩ := List.mem_iff_getElem?.mp member
  by_cases before : j < i
  · exact List.mem_of_getElem? ((List.getElem?_take_of_lt before).trans at_j)
  · by_cases same : j = i
    · rw [same, here] at at_j
      rw [Option.some.inj at_j] at less
      exact absurd less (lt_irrefl _)
    · obtain ⟨iBound, iIs⟩ := List.getElem?_eq_some_iff.mp here
      obtain ⟨jBound, jIs⟩ := List.getElem?_eq_some_iff.mp at_j
      have below := List.pairwise_iff_getElem.mp sorted i j iBound jBound (by omega)
      rw [iIs, jIs] at below
      exact absurd less (not_lt.mpr below)

-- Rows that repeat a candidate come too late to repeat it in the first n.
theorem top_distinct (n : Nat) (rows candidates order : List α) (ranked : Ranked key rows order)
    (members : ∀ x, x ∈ rows ↔ x ∈ candidates) (distinct : candidates.Nodup)
    (late : ∀ x, 2 ≤ rows.count x → n ≤ (newer key candidates x).length + 1) : (order.take n).Nodup := by
  rw [List.nodup_iff_getElem?_ne_getElem?]
  intro i j less bound same
  rw [List.length_take] at bound
  rw [List.getElem?_take_of_lt (by omega), List.getElem?_take_of_lt (by omega)] at same
  obtain ⟨x, here⟩ : ∃ x, order[i]? = some x := ⟨_, List.getElem?_eq_getElem (by omega)⟩
  have there : order[j]? = some x := same.symm.trans here
  have twice : 2 ≤ rows.count x := by
    rw [← ranked.perm.count_eq, ← List.duplicate_iff_two_le_count, List.duplicate_iff_exists_distinct_get]
    obtain ⟨iBound, iIs⟩ := List.getElem?_eq_some_iff.mp here
    obtain ⟨jBound, jIs⟩ := List.getElem?_eq_some_iff.mp there
    exact ⟨⟨i, iBound⟩, ⟨j, jBound⟩, less, iIs.symm, jIs.symm⟩
  have front : newer key candidates x ⊆ order.take i := by
    intro y member
    obtain ⟨inside, above⟩ := (mem_newer key candidates x y).mp member
    exact newer_in_front key order i x y ranked.sorted here
      (ranked.perm.mem_iff.mpr ((members y).mpr inside)) above
  have few := (List.subperm_of_subset (distinct.filter _) front).length_le
  have room := late x twice
  rw [List.length_take] at few
  change (newer key candidates x).length ≤ _ at few
  omega

theorem top_of_distinct (n : Nat) (rows candidates order : List α) (ranked : Ranked key rows order)
    (members : ∀ x, x ∈ rows ↔ x ∈ candidates) (distinct : candidates.Nodup) (front : (order.take n).Nodup) :
    TopK key n candidates (order.take n) := by
  let others := candidates.filter fun x => x ∉ order.take n
  have inOrder : ∀ x, x ∈ order ↔ x ∈ candidates := fun x => ranked.perm.mem_iff.trans (members x)
  have ordered := rank_ranked key others
  have memOthers : ∀ x, x ∈ rank key others ↔ x ∈ candidates ∧ x ∉ order.take n := by
    intro x
    rw [ordered.perm.mem_iff]
    simp [others]
  -- The front of the order, and the other candidates by themselves behind it.
  refine ⟨order.take n ++ rank key others, ⟨?_, ?_⟩, ?_⟩
  · have whole : (order.take n ++ rank key others).Nodup := by
      rw [List.nodup_append']
      refine ⟨front, ordered.perm.nodup_iff.mpr (distinct.filter _), ?_⟩
      exact fun x inFront inOthers => ((memOthers x).mp inOthers).2 inFront
    rw [List.perm_ext_iff_of_nodup whole distinct]
    intro x
    rw [List.mem_append, memOthers]
    by_cases inFront : x ∈ order.take n
    · simp [inFront, (inOrder x).mp (List.mem_of_mem_take inFront)]
    · simp [inFront]
  · rw [List.pairwise_append]
    refine ⟨ranked.sorted.sublist (List.take_sublist n order), ordered.sorted, ?_⟩
    intro a inFront b inOthers
    obtain ⟨candidate, notFront⟩ := (memOthers b).mp inOthers
    have sorted := ranked.sorted
    rw [← List.take_append_drop n order, List.pairwise_append] at sorted
    have behind : b ∈ order.drop n := by
      have inside := (inOrder b).mpr candidate
      rw [← List.take_append_drop n order, List.mem_append] at inside
      exact inside.resolve_left notFront
    exact sorted.2.2 a inFront b behind
  · by_cases enough : n ≤ order.length
    · rw [List.take_left' (by rw [List.length_take]; omega)]
    · have whole : order.take n = order := List.take_of_length_le (by omega)
      have none_left : rank key others = [] := by
        refine List.eq_nil_iff_forall_not_mem.mpr fun x member => ?_
        obtain ⟨candidate, notFront⟩ := (memOthers x).mp member
        exact notFront (by rw [whole]; exact (inOrder x).mpr candidate)
      rw [none_left, List.append_nil, List.take_take, Nat.min_self]

omit [DecidableEq α] in
theorem top_nodup (n : Nat) (candidates out : List α) (distinct : candidates.Nodup) (top : TopK key n candidates out) :
    out.Nodup := by
  obtain ⟨order, ranked, rfl⟩ := top
  exact (ranked.perm.nodup_iff.mpr distinct).sublist (List.take_sublist n order)

-- The newest row that is repeated: the rows above it stand there once each.
theorem newest_repeated (rows : List α) (x : α) (twice : 2 ≤ rows.count x) :
    ∃ q, 2 ≤ rows.count q ∧ key x ≤ key q ∧ ∀ y, 2 ≤ rows.count y → key y ≤ key q := by
  have inside : x ∈ (rows.filter fun y => 2 ≤ rows.count y).toFinset := by
    simp only [List.mem_toFinset, List.mem_filter, decide_eq_true_eq]
    exact ⟨List.count_pos_iff.mp (by omega), twice⟩
  obtain ⟨q, member, newest⟩ := Finset.exists_max_image _ key ⟨x, inside⟩
  simp only [List.mem_toFinset, List.mem_filter, decide_eq_true_eq] at member newest
  exact ⟨q, member.2, newest x ⟨List.count_pos_iff.mp (by omega), twice⟩,
    fun y repeated => newest y ⟨List.count_pos_iff.mp (by omega), repeated⟩⟩

theorem repeated_front (rows : List α) (q : α) (twice : 2 ≤ rows.count q) :
    ∃ tail, Ranked key rows (rank key (newer key rows q) ++ q :: q :: tail) := by
  let rest := rows.filter fun y => !decide (key q < key y)
  have twiceRest : 2 ≤ rest.count q := by
    rw [List.count_filter (by simp)]
    exact twice
  have first : q ∈ rest := List.count_pos_iff.mp (by omega)
  have second : q ∈ rest.erase q := List.count_pos_iff.mp (by rw [List.count_erase_self]; omega)
  have ordered := rank_ranked key ((rest.erase q).erase q)
  have front := rank_ranked key (newer key rows q)
  have inTail : ∀ b ∈ rank key ((rest.erase q).erase q), key b ≤ key q := by
    intro b member
    have inRest := List.mem_of_mem_erase (List.mem_of_mem_erase (ordered.perm.mem_iff.mp member))
    simpa [rest] using (List.mem_filter.mp inRest).2
  refine ⟨rank key ((rest.erase q).erase q), ⟨?_, ?_⟩⟩
  · have split : (newer key rows q ++ rest).Perm rows := List.filter_append_perm _ rows
    have pulled : (q :: q :: rank key ((rest.erase q).erase q)).Perm rest :=
      ((((ordered.perm.cons q).trans (List.perm_cons_erase second).symm).cons q).trans (List.perm_cons_erase first).symm)
    exact (front.perm.append pulled).trans split
  · rw [List.pairwise_append]
    refine ⟨front.sorted, ?_, ?_⟩
    · refine List.pairwise_cons.mpr ⟨?_, List.pairwise_cons.mpr ⟨inTail, ordered.sorted⟩⟩
      intro b member
      rcases List.mem_cons.mp member with rfl | inside
      · exact le_refl _
      · exact inTail b inside
    · intro a inFront b member
      have above := ((mem_newer key rows q a).mp (front.perm.mem_iff.mp inFront)).2
      rcases List.mem_cons.mp member with rfl | inside
      · exact le_of_lt above
      · rcases List.mem_cons.mp inside with rfl | inTailMember
        · exact le_of_lt above
        · exact le_trans (inTail b inTailMember) (le_of_lt above)

-- Ranking rows with repetitions gives the right front, in whatever order ties
-- are put, exactly when every repeated row has n - 1 newer ones.
theorem top_iff_late (n : Nat) (rows candidates : List α) (members : ∀ x, x ∈ rows ↔ x ∈ candidates)
    (distinct : candidates.Nodup) :
    (∀ out, TopK key n rows out → TopK key n candidates out) ↔
      ∀ x, 2 ≤ rows.count x → n ≤ (newer key candidates x).length + 1 := by
  constructor
  · intro right x twice
    by_contra early
    obtain ⟨q, repeated, above, newest⟩ := newest_repeated key rows x twice
    obtain ⟨tail, ranked⟩ := repeated_front key rows q repeated
    have front := top_nodup key n candidates _ distinct (right _ ⟨_, ranked, rfl⟩)
    have once : (newer key rows q).Nodup := by
      rw [List.nodup_iff_count_le_one]
      intro y
      by_contra more
      have inside : y ∈ newer key rows q := List.count_pos_iff.mp (by omega)
      have copies : (newer key rows q).count y ≤ rows.count y := List.filter_sublist.count_le y
      exact absurd ((mem_newer key rows q y).mp inside).2 (not_lt.mpr (newest y (by omega)))
    have within : newer key rows q ⊆ newer key candidates x := by
      intro y member
      obtain ⟨inside, higher⟩ := (mem_newer key rows q y).mp member
      exact (mem_newer key candidates x y).mpr ⟨(members y).mp inside, lt_of_le_of_lt above higher⟩
    have few := (List.subperm_of_subset once within).length_le
    have size := (rank_ranked key (newer key rows q)).perm.length_eq
    obtain ⟨room, more⟩ := Nat.exists_eq_add_of_le (by omega : (rank key (newer key rows q)).length + 2 ≤ n)
    rw [more, Nat.add_assoc, List.take_length_add_append, Nat.add_comm 2 room] at front
    refine List.nodup_iff_sublist.mp front q ?_
    exact ((List.nil_sublist _).cons_cons q |>.cons_cons q).trans (List.sublist_append_right _ _)
  · rintro late out ⟨order, ranked, rfl⟩
    exact top_of_distinct key n rows candidates order ranked members distinct
      (top_distinct key n rows candidates order ranked members distinct late)

end Ranking
