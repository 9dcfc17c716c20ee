import Facebooc.RbBalance
import Facebooc.TreeWalk

set_option autoImplicit false

namespace Facebooc

open CMemory Runs TreeZipper

-- What a comparison like strcmp promises.
structure Compares {α : Type} (cmp : α → α → Int) : Prop where
  flip : ∀ a b, cmp a b < 0 ↔ 0 < cmp b a
  trans : ∀ a b c, cmp a b ≤ 0 → cmp b c ≤ 0 → cmp a c ≤ 0

-- The set the calls so far stand for: no two of its keys compare equal.
def setAfter {α : Type} (cmp : α → α → Int) (keys : List α) : RbCall α → List α
  | .insert data => if ∃ own ∈ keys, cmp data own = 0 then keys else data :: keys
  | .delete key => keys.filter fun own => decide (cmp key own ≠ 0)

abbrev Sorted {α : Type} (cmp : α → α → Int) (keys : List α) : Prop := keys.Pairwise fun a b => cmp a b < 0

structure OrderedSet {α : Type} (cmp : α → α → Int) (tree : RbTree α) (keys : List α) : Prop where
  inv : RbInv tree
  perm : (inorder tree.root).Perm keys
  sorted : Sorted cmp (inorder tree.root)

section

variable {α : Type} (cmp : α → α → Int) (lawful : Compares cmp)

include lawful

theorem compares_swap (a b : α) : cmp a b ≤ 0 ↔ 0 ≤ cmp b a := by
  have there := lawful.flip b a
  omega

theorem compares_below (a b c : α) (first : cmp a b ≤ 0) (second : cmp b c < 0) : cmp a c < 0 := by
  by_contra reached
  have back := lawful.trans c a b ((compares_swap cmp lawful c a).mpr (by omega)) first
  have apart := (compares_swap cmp lawful c b).mp back
  omega

theorem sorted_guides (key : α) (keys : List α) (sorted : Sorted cmp keys) : Guides (fun own => orient (cmp key own)) keys := by
  apply sorted.imp
  intro a b less reached
  apply (orient_lt _).mpr
  apply compares_below cmp lawful key a b ?_ less
  by_contra beyond
  exact reached ((orient_gt _).mpr (by omega))

theorem sorted_single (key own : α) (pre post : List α) (same : cmp key own = 0) (sorted : Sorted cmp (pre ++ own :: post)) :
    (pre ++ own :: post).filter (fun other => decide (cmp key other ≠ 0)) = pre ++ post := by
  obtain ⟨_, rest, across⟩ := List.pairwise_append.mp sorted
  have below : ∀ other ∈ pre, cmp key other ≠ 0 := by
    intro other member zero
    have less := compares_below cmp lawful key other own (by omega) (across other member own List.mem_cons_self)
    omega
  have above : ∀ other ∈ post, cmp key other ≠ 0 := by
    intro other member zero
    have less := compares_below cmp lawful key own other (by omega) ((List.pairwise_cons.mp rest).1 other member)
    omega
  rw [List.filter_append, List.filter_cons, if_neg (by simp [same]), List.filter_eq_self.mpr, List.filter_eq_self.mpr]
  · simpa using above
  · simpa using below

theorem search_found (tree : RbTree α) (key own : α) (sorted : Sorted cmp (inorder tree.root)) (member : own ∈ inorder tree.root)
    (same : cmp key own = 0) : ∃ tag left right path, rbtreeSearch cmp tree key = some (.node tag left own right, path) := by
  obtain ⟨tag, left, right, path, found⟩ :=
    descend_complete _ tree.root own (sorted_guides cmp lawful key _ sorted) member ((orient_eq _).mpr same)
  exact ⟨tag, left, right, path, by rw [search_descend, found]⟩

theorem insert_ordered (tree : RbTree α) (keys : List α) (data : α) (held : OrderedSet cmp tree keys) :
    ∃ next, rbtreeInsert cmp tree data = .ok (next, if ∃ own ∈ keys, cmp data own = 0 then none else some data) ∧
      OrderedSet cmp next (setAfter cmp keys (.insert data)) := by
  rw [setAfter]
  rcases insert_spec cmp tree data held.inv with ⟨run, own, member, same⟩ | ⟨next, pre, post, run, placed⟩
  · have present : ∃ own ∈ keys, cmp data own = 0 := ⟨own, held.perm.mem_iff.mp member, same⟩
    rw [if_pos present, if_pos present]
    exact ⟨tree, run, held⟩
  · obtain ⟨behind, ahead⟩ := placed.ordered (sorted_guides cmp lawful data _ held.sorted)
    have larger : ∀ own ∈ pre, cmp own data < 0 :=
      fun own member => (lawful.flip own data).mpr ((orient_gt _).mp (behind own member))
    have smaller : ∀ own ∈ post, cmp data own < 0 := fun own member => (orient_lt _).mp (ahead own member)
    have absent : ¬ ∃ own ∈ keys, cmp data own = 0 := by
      rintro ⟨own, member, same⟩
      have stored := held.perm.mem_iff.mpr member
      rw [placed.was] at stored
      rcases List.mem_append.mp stored with front | back
      · have less := (lawful.flip own data).mp (larger own front)
        omega
      · have less := smaller own back
        omega
    rw [if_neg absent, if_neg absent]
    refine ⟨next, run, placed.inv, ?_, ?_⟩
    · rw [placed.now]
      apply List.perm_middle.trans
      rw [← placed.was]
      exact held.perm.cons data
    · have sorted := held.sorted
      rw [placed.was] at sorted
      obtain ⟨preSorted, postSorted, across⟩ := List.pairwise_append.mp sorted
      rw [placed.now]
      refine List.pairwise_append.mpr ⟨preSorted, List.pairwise_cons.mpr ⟨smaller, postSorted⟩, ?_⟩
      intro a front b back
      rcases List.mem_cons.mp back with rfl | later
      · exact larger a front
      · exact across a front b later

theorem delete_ordered (tree : RbTree α) (keys : List α) (key : α) (held : OrderedSet cmp tree keys) :
    (rbtreeDelete cmp tree key = .ok (tree, none) ∧ (∀ own ∈ keys, cmp key own ≠ 0) ∨
      ∃ next own, rbtreeDelete cmp tree key = .ok (next, some own) ∧ own ∈ keys ∧ cmp key own = 0 ∧
        OrderedSet cmp next (setAfter cmp keys (.delete key))) := by
  rcases delete_spec cmp tree key held.inv with ⟨run, missed⟩ | ⟨next, own, pre, post, run, same, inv, was, now⟩
  · refine .inl ⟨run, fun own member same => ?_⟩
    obtain ⟨tag, left, right, path, found⟩ :=
      search_found cmp lawful tree key own held.sorted (held.perm.mem_iff.mpr member) same
    rw [missed] at found
    cases found
  · have sorted := held.sorted
    have perm := held.perm
    rw [was] at sorted perm
    refine .inr ⟨next, own, run, perm.mem_iff.mp (by simp), same, inv, ?_, ?_⟩
    · rw [now, ← sorted_single cmp lawful key own pre post same sorted]
      exact perm.filter _
    · rw [now]
      exact sorted.sublist (List.Sublist.append_left (List.sublist_cons_self own post) pre)

theorem delete_step (tree : RbTree α) (keys : List α) (key : α) (held : OrderedSet cmp tree keys) :
    ∃ next deleted, rbtreeDelete cmp tree key = .ok (next, deleted) ∧ OrderedSet cmp next (setAfter cmp keys (.delete key)) := by
  rcases delete_ordered cmp lawful tree keys key held with ⟨run, absent⟩ | ⟨next, own, run, _, _, kept⟩
  · refine ⟨tree, none, run, ?_⟩
    rw [setAfter, List.filter_eq_self.mpr]
    · exact held
    · intro own member
      exact decide_eq_true (absent own member)
  · exact ⟨next, some own, run, kept⟩

theorem call_ordered (tree : RbTree α) (keys : List α) (call : RbCall α) (held : OrderedSet cmp tree keys) :
    ∃ next, rbCall cmp tree call = .ok next ∧ OrderedSet cmp next (setAfter cmp keys call) := by
  cases call with
  | insert data =>
      obtain ⟨next, run, kept⟩ := insert_ordered cmp lawful tree keys data held
      exact ⟨next, by rw [rbCall, run]; rfl, kept⟩
  | delete key =>
      obtain ⟨next, deleted, run, kept⟩ := delete_step cmp lawful tree keys key held
      exact ⟨next, by rw [rbCall, run]; rfl, kept⟩

theorem ordered_run (calls : List (RbCall α)) :
    ∃ tree, run (rbNext cmp) (.ok rbtreeInit) calls = .ok tree ∧ OrderedSet cmp tree (calls.foldl (setAfter cmp) []) := by
  apply rb_run_induct cmp (fun past tree => OrderedSet cmp tree (past.foldl (setAfter cmp) [])) _ _ calls
  · exact ⟨rb_inv_init, List.Perm.refl _, List.Pairwise.nil⟩
  · intro past tree call held
    rw [List.foldl_append]
    exact call_ordered cmp lawful tree _ call held

end

theorem search_missing {α : Type} (cmp : α → α → Int) (tree : RbTree α) (key : α)
    (absent : ∀ own ∈ inorder tree.root, cmp key own ≠ 0) : rbtreeSearch cmp tree key = none := by
  have missed := descend_misses (fun own => orient (cmp key own)) tree.root ([] : RbPath α)
    fun own member stopped => absent own member ((orient_eq _).mp stopped)
  rw [search_descend]
  generalize descend (fun own => orient (cmp key own)) tree.root [] = walk at missed ⊢
  obtain ⟨node, path⟩ := walk
  cases node with
  | nil => rfl
  | node tag left own right => cases missed

-- What each call answers where the tree stands for a set.
structure AnswersAs {α : Type} (cmp : α → α → Int) (tree : RbTree α) (keys : List α) : Prop where
  count : tree.count = keys.length
  found : ∀ key, ∀ own ∈ keys, cmp key own = 0 →
    (∃ tag left right path, rbtreeSearch cmp tree key = some (.node tag left own right, path)) ∧
      ∃ next, rbtreeDelete cmp tree key = .ok (next, some own)
  missing : ∀ key, (∀ own ∈ keys, cmp key own ≠ 0) →
    rbtreeSearch cmp tree key = none ∧ rbtreeDelete cmp tree key = .ok (tree, none)
  inserted : ∀ data, ∃ next, rbtreeInsert cmp tree data =
    .ok (next, if ∃ own ∈ keys, cmp data own = 0 then none else some data)

theorem ordered_answers {α : Type} (cmp : α → α → Int) (lawful : Compares cmp) (tree : RbTree α) (keys : List α)
    (held : OrderedSet cmp tree keys) : AnswersAs cmp tree keys where
  count := held.inv.counted.trans held.perm.length_eq
  found := by
    intro key own member same
    have stored := held.perm.mem_iff.mpr member
    refine ⟨search_found cmp lawful tree key own held.sorted stored same, ?_⟩
    rcases delete_ordered cmp lawful tree keys key held with ⟨_, absent⟩ | ⟨next, other, run, here, equal, _⟩
    · exact absurd same (absent own member)
    · have single : other = own :=
        guides_unique _ _ other own (sorted_guides cmp lawful key _ held.sorted) (held.perm.mem_iff.mpr here) stored
          ((orient_eq _).mpr equal) ((orient_eq _).mpr same)
      exact ⟨next, single ▸ run⟩
  missing := by
    intro key absent
    refine ⟨search_missing cmp tree key fun own stored => absent own (held.perm.mem_iff.mp stored), ?_⟩
    rcases delete_ordered cmp lawful tree keys key held with ⟨run, _⟩ | ⟨_, own, _, member, same, _⟩
    · exact run
    · exact absurd same (absent own member)
  inserted := by
    intro data
    obtain ⟨next, run, _⟩ := insert_ordered cmp lawful tree keys data held
    exact ⟨next, run⟩

theorem rb_run_ordered_set {α : Type} (cmp : α → α → Int) (lawful : Compares cmp) (calls : List (RbCall α)) :
    ∃ tree, run (rbNext cmp) (.ok rbtreeInit) calls = .ok tree ∧ AnswersAs cmp tree (calls.foldl (setAfter cmp) []) := by
  obtain ⟨tree, ran, held⟩ := ordered_run cmp lawful calls
  exact ⟨tree, ran, ordered_answers cmp lawful tree _ held⟩

theorem compares_difference : Compares fun a b : Int => a - b where
  flip := by omega
  trans := by omega

theorem rb_run_ordered_set_three :
    ∃ tree, run (rbNext fun a b : Int => a - b) (.ok rbtreeInit) [.insert 2, .insert 1, .insert 2, .delete 5,
      .insert 3] = .ok tree ∧
      AnswersAs (fun a b => a - b) tree [3, 1, 2] :=
  rb_run_ordered_set _ compares_difference _

-- The walk to the floor: the temporary match is the last key passed on the way.
def LastPassed {α : Type} (whole : RbNode α) (path : RbPath α) : Option (RbNode α × RbPath α) → Prop
  | none => before path = []
  | some (node, place) => plug node place = whole ∧
      ∃ tag left own right front, node = .node tag left own right ∧ before path = front ++ [own]

theorem find_last_passed {α : Type} (cmp : α → α → Int) (key : α) (tree : RbNode α) (path : RbPath α)
    (result : Option (RbNode α × RbPath α)) (passed : LastPassed (plug tree path) path result)
    (missed : (descend (fun own => orient (cmp key own)) tree path).1 = .nil) :
    (rbtreeFindLessEqual cmp key tree path result).1 = false ∧
      LastPassed (plug tree path) (descend (fun own => orient (cmp key own)) tree path).2
        (rbtreeFindLessEqual cmp key tree path result).2 := by
  induction tree generalizing path result with
  | nil => exact ⟨rfl, passed⟩
  | node tag left own right leftIh rightIh =>
      rw [descend] at missed ⊢
      rw [rbtreeFindLessEqual]
      by_cases same : cmp key own = 0
      · rw [(orient_eq _).mpr same] at missed
        cases missed
      · rw [if_neg same]
        by_cases less : cmp key own < 0
        · rw [(orient_lt _).mpr less] at missed ⊢
          rw [if_pos less]
          apply leftIh _ _ _ missed
          cases result with
          | none => exact (List.append_nil _).trans passed
          | some found =>
              obtain ⟨whole, foundTag, low, last, high, front, shape, sequence⟩ := passed
              exact ⟨whole, foundTag, low, last, high, front, shape, (List.append_nil _).trans sequence⟩
        · rw [(orient_gt _).mpr (by omega)] at missed ⊢
          rw [if_neg less]
          apply rightIh _ _ _ missed
          exact ⟨rfl, tag, left, own, right, before path ++ inorder left, rfl, (List.append_assoc _ _ _).symm⟩

-- The largest key that is not above the one asked for.
structure IsFloor {α : Type} (cmp : α → α → Int) (keys : List α) (key own : α) : Prop where
  member : own ∈ keys
  below : 0 ≤ cmp key own
  largest : ∀ other ∈ keys, 0 ≤ cmp key other → 0 ≤ cmp own other

structure FindsFloor {α : Type} (cmp : α → α → Int) (tree : RbTree α) (keys : List α) (key : α) : Prop where
  exactly : (rbtreeFindLessEqual cmp key tree.root [] none).1 = true ↔ ∃ own ∈ keys, cmp key own = 0
  nothing : (rbtreeFindLessEqual cmp key tree.root [] none).2 = none ↔ ∀ own ∈ keys, cmp key own < 0
  floor : ∀ node path, (rbtreeFindLessEqual cmp key tree.root [] none).2 = some (node, path) →
    plug node path = tree.root ∧ ∃ tag left own right, node = .node tag left own right ∧ IsFloor cmp keys key own

theorem compares_self {α : Type} (cmp : α → α → Int) (lawful : Compares cmp) (a : α) : cmp a a = 0 := by
  have same := lawful.flip a a
  omega

theorem equal_floor {α : Type} (cmp : α → α → Int) (lawful : Compares cmp) (keys : List α) (key own : α)
    (stored : own ∈ keys) (same : cmp key own = 0) : IsFloor cmp keys key own := by
  refine ⟨stored, by omega, ?_⟩
  intro other _ below
  by_contra beyond
  have less := compares_below cmp lawful key own other (by omega) (by omega)
  omega

-- Where no key compares equal, the last of those below is the floor.
theorem last_below_floor {α : Type} (cmp : α → α → Int) (lawful : Compares cmp) (keys front back : List α) (key own : α)
    (perm : (front ++ own :: back).Perm keys) (sorted : Sorted cmp (front ++ own :: back))
    (below : 0 < cmp key own) (ahead : ∀ other ∈ back, cmp key other < 0) : IsFloor cmp keys key own := by
  refine ⟨perm.mem_iff.mp (by simp), Int.le_of_lt below, ?_⟩
  intro other member near
  rcases List.mem_append.mp (perm.mem_iff.mpr member) with earlier | rest
  · have less := (List.pairwise_append.mp sorted).2.2 other earlier own List.mem_cons_self
    exact Int.le_of_lt ((lawful.flip other own).mp less)
  · rcases List.mem_cons.mp rest with rfl | later
    · rw [compares_self cmp lawful]
    · have far := ahead other later
      omega

-- The walk ended between two keys.
theorem between_finds_floor {α : Type} (cmp : α → α → Int) (lawful : Compares cmp) (tree : RbTree α) (keys : List α) (key : α)
    (held : OrderedSet cmp tree keys) (above : RbPath α) (sequence : inorder tree.root = before above ++ after above)
    (behind : ∀ other ∈ before above, 0 < cmp key other) (ahead : ∀ other ∈ after above, cmp key other < 0)
    (missed : (rbtreeFindLessEqual cmp key tree.root [] none).1 = false)
    (passed : LastPassed tree.root above (rbtreeFindLessEqual cmp key tree.root [] none).2) : FindsFloor cmp tree keys key := by
  have sorted := held.sorted
  have perm := held.perm
  rw [sequence] at sorted perm
  have side : ∀ other ∈ keys, other ∈ before above ∨ other ∈ after above := fun other member =>
    List.mem_append.mp (perm.mem_iff.mpr member)
  refine ⟨iff_of_false (by rw [missed]; decide) ?_, ⟨?_, ?_⟩, ?_⟩
  · rintro ⟨own, member, same⟩
    rcases side own member with front | back
    · have far := behind own front
      omega
    · have far := ahead own back
      omega
  · intro nothing own member
    rw [nothing] at passed
    rcases side own member with front | back
    · rw [(passed : before above = [])] at front
      cases front
    · exact ahead own back
  · intro all
    cases place : (rbtreeFindLessEqual cmp key tree.root [] none).2 with
    | none => rfl
    | some found =>
        rw [place] at passed
        obtain ⟨_, _, _, own, _, front, _, last⟩ := passed
        have near := behind own (by simp [last])
        have far := all own (perm.mem_iff.mp (by simp [last]))
        omega
  · intro node path place
    rw [place] at passed
    obtain ⟨here, tag, left, own, right, front, shape, last⟩ := passed
    rw [last, List.append_assoc] at sorted perm
    exact ⟨here, tag, left, own, right, shape,
      last_below_floor cmp lawful keys front (after above) key own perm sorted (behind own (by simp [last])) ahead⟩

theorem ordered_finds_floor {α : Type} (cmp : α → α → Int) (lawful : Compares cmp) (tree : RbTree α) (keys : List α) (key : α)
    (held : OrderedSet cmp tree keys) : FindsFloor cmp tree keys key := by
  have guides := sorted_guides cmp lawful key _ held.sorted
  have walk := descend_narrows (fun own => orient (cmp key own)) tree.root [] guides (narrowed_nil _)
  have whole := descend_plug (fun own => orient (cmp key own)) tree.root []
  have exactly := find_descend cmp key tree.root [] none
  have passes := find_last_passed cmp key tree.root [] none rfl
  have stops := descend_stops (fun own => orient (cmp key own)) tree.root []
  generalize descend (fun own => orient (cmp key own)) tree.root [] = stop at walk whole exactly passes stops
  obtain ⟨last, above⟩ := stop
  simp only [plug] at walk whole exactly passes stops
  -- The walk ends below a leaf, or at a key that compares equal.
  rcases stops with rfl | ⟨tag, left, own, right, rfl, same⟩
  · obtain ⟨missed, passed⟩ := passes rfl
    have sequence : inorder tree.root = before above ++ after above := by
      rw [← whole, inorder_plug]
      rfl
    exact between_finds_floor cmp lawful tree keys key held above sequence
      (fun other member => (orient_gt _).mp (walk.behind other member))
      (fun other member => (orient_lt _).mp (walk.ahead other member)) missed passed
  · have zero := (orient_eq _).mp same
    have stored : own ∈ keys := by
      apply held.perm.mem_iff.mp
      rw [← whole, inorder_plug]
      simp [inorder]
    refine ⟨?_, ?_, ?_⟩
    · rw [exactly]
      exact iff_of_true rfl ⟨own, stored, zero⟩
    · rw [exactly]
      refine iff_of_false (by simp) fun all => ?_
      have less := all own stored
      omega
    · rw [exactly]
      intro node path place
      cases place
      exact ⟨whole, tag, left, own, right, rfl, equal_floor cmp lawful keys key own stored zero⟩

theorem rb_run_floor {α : Type} (cmp : α → α → Int) (lawful : Compares cmp) (calls : List (RbCall α)) :
    ∃ tree, run (rbNext cmp) (.ok rbtreeInit) calls = .ok tree ∧
      ∀ key, FindsFloor cmp tree (calls.foldl (setAfter cmp) []) key := by
  obtain ⟨tree, ran, held⟩ := ordered_run cmp lawful calls
  exact ⟨tree, ran, fun key => ordered_finds_floor cmp lawful tree _ key held⟩

theorem rb_run_floor_three :
    ∃ tree, run (rbNext fun a b : Int => a - b) (.ok rbtreeInit) [.insert 2, .insert 9, .insert 5] = .ok tree ∧
      ∀ key, FindsFloor (fun a b => a - b) tree [5, 9, 2] key :=
  rb_run_floor _ compares_difference _

-- Walking through the tree, and the macro RBTREE_FOR as the keys its body sees.
def rbtreeFirst {α : Type} (tree : RbTree α) : Place Color α := lowest tree.root []

def rbtreeLast {α : Type} (tree : RbTree α) : Place Color α := highest tree.root []

def rbtreeNext {α : Type} (node : Place Color α) : Place Color α := onward node

def rbtreePrevious {α : Type} (node : Place Color α) : Place Color α := backward node

def rbtreeFor {α : Type} (fuel : Nat) (tree : RbTree α) : Option (List α) := keysMet rbtreeNext fuel (rbtreeFirst tree)

-- The same loop from the other end.
def rbtreeForBack {α : Type} (fuel : Nat) (tree : RbTree α) : Option (List α) := keysMet rbtreePrevious fuel (rbtreeLast tree)

def traversePost {α β : Type} (func : β → α → β) : RbNode α → β → β
  | .nil, arg => arg
  | .node _ left key right, arg => func (traversePost func right (traversePost func left arg)) key

def traversePostorder {α β : Type} (tree : RbTree α) (func : β → α → β) (arg : β) : β := traversePost func tree.root arg

theorem traverse_post_fold {α β : Type} (func : β → α → β) (tree : RbNode α) (arg : β) :
    traversePost func tree arg = (postorder tree).foldl func arg := by
  induction tree generalizing arg with
  | nil => rfl
  | node tag left key right leftIh rightIh => simp [traversePost, postorder, leftIh, rightIh]

-- The calls come as from a list with the keys below every node in front of its
-- own.
structure ChildrenFirst {α : Type} (tree : RbTree α) (visited : List α) : Prop where
  calls : ∀ (β : Type) (func : β → α → β) (arg : β), traversePostorder tree func arg = visited.foldl func arg
  below : ∀ tag left own right path, plug (.node tag left own right) path = tree.root →
    ∃ earlier children later, visited = earlier ++ children ++ own :: later ∧ children.Perm (inorder left ++ inorder right)

theorem postorder_children_first {α : Type} (tree : RbTree α) : ChildrenFirst tree (postorder tree.root) where
  calls := fun β func arg => traverse_post_fold func tree.root arg
  below := by
    intro tag left own right path whole
    obtain ⟨earlier, later, sequence⟩ := postorder_plug (.node tag left own right) path
    rw [whole] at sequence
    refine ⟨earlier, postorder left ++ postorder right, later, ?_, (postorder_perm left).append (postorder_perm right)⟩
    rw [sequence]
    simp [postorder]

structure Traversed {α : Type} (cmp : α → α → Int) (tree : RbTree α) (keys : List α) : Prop where
  increasing : ∃ visited, rbtreeFor tree.count tree = some visited ∧ rbtreeForBack tree.count tree = some visited.reverse ∧
    Sorted cmp visited ∧ visited.Perm keys
  childrenFirst : ∃ visited, ChildrenFirst tree visited ∧ visited.Perm keys
  returns : ∀ node : Place Color α, node.1 ≠ .nil → rbtreeNext node ≠ (.nil, []) → rbtreePrevious (rbtreeNext node) = node

theorem rb_run_traversed {α : Type} (cmp : α → α → Int) (lawful : Compares cmp) (calls : List (RbCall α)) :
    ∃ tree, run (rbNext cmp) (.ok rbtreeInit) calls = .ok tree ∧ Traversed cmp tree (calls.foldl (setAfter cmp) []) := by
  obtain ⟨tree, ran, held⟩ := ordered_run cmp lawful calls
  have enough : (inorder tree.root).length ≤ tree.count := Nat.le_of_eq held.inv.counted.symm
  refine ⟨tree, ran, ⟨inorder tree.root, ?_, ?_, held.sorted, held.perm⟩, ?_, backward_onward⟩
  · exact keys_met_lowest _ _ enough
  · exact keys_met_highest _ _ enough
  · exact ⟨_, postorder_children_first tree, (postorder_perm tree.root).trans held.perm⟩

theorem rb_run_traversed_three :
    ∃ tree, run (rbNext fun a b : Int => a - b) (.ok rbtreeInit) [.insert 2, .insert 9, .insert 5] = .ok tree ∧
      Traversed (fun a b => a - b) tree [5, 9, 2] :=
  rb_run_traversed _ compares_difference _

end Facebooc
