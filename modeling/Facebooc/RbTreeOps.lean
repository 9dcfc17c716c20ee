import Facebooc.RbTreeOrder

set_option autoImplicit false

namespace Facebooc

open CMemory TreeZipper

def orient (r : Int) : Ordering := if r = 0 then .eq else if r < 0 then .lt else .gt

theorem orient_eq (r : Int) : orient r = .eq ↔ r = 0 := by
  by_cases same : r = 0
  · simp [orient, same]
  · by_cases less : r < 0 <;> simp [orient, same, less]

theorem orient_lt (r : Int) : orient r = .lt ↔ r < 0 := by
  by_cases same : r = 0
  · simp [orient, same]
  · by_cases less : r < 0 <;> simp [orient, same, less]

theorem orient_gt (r : Int) : orient r = .gt ↔ 0 < r := by
  by_cases same : r = 0
  · simp [orient, same]
  · by_cases less : r < 0
    · simp [orient, same, less, Int.le_of_lt less]
    · simp only [orient, same, less, if_false, true_iff]
      omega

-- Both walks of the source are the library's.
theorem insert_place_descend {α : Type} (cmp : α → α → Int) (data : α) (tree : RbNode α) (path : RbPath α) :
    rbtreeInsertPlace cmp data tree path =
      match descend (fun key => orient (cmp data key)) tree path with
      | (.nil, place) => some place
      | (.node _ _ _ _, _) => none := by
  induction tree generalizing path with
  | nil => rfl
  | node tag left key right leftIh rightIh =>
      rw [rbtreeInsertPlace, descend]
      by_cases same : cmp data key = 0
      · rw [if_pos same, (orient_eq _).mpr same]
      · rw [if_neg same]
        by_cases less : cmp data key < 0
        · rw [if_pos less, (orient_lt _).mpr less]
          exact leftIh _
        · rw [if_neg less, (orient_gt _).mpr (by omega)]
          exact rightIh _

theorem find_descend {α : Type} (cmp : α → α → Int) (key : α) (tree : RbNode α) (path : RbPath α)
    (result : Option (RbNode α × RbPath α)) :
    match descend (fun own => orient (cmp key own)) tree path with
    | (.nil, _) => (rbtreeFindLessEqual cmp key tree path result).1 = false
    | (.node tag left own right, place) =>
        rbtreeFindLessEqual cmp key tree path result = (true, some (.node tag left own right, place)) := by
  induction tree generalizing path result with
  | nil => rfl
  | node tag left own right leftIh rightIh =>
      rw [rbtreeFindLessEqual, descend]
      by_cases same : cmp key own = 0
      · rw [if_pos same, (orient_eq _).mpr same]
      · rw [if_neg same]
        by_cases less : cmp key own < 0
        · rw [if_pos less, (orient_lt _).mpr less]
          exact leftIh _ result
        · rw [if_neg less, (orient_gt _).mpr (by omega)]
          exact rightIh _ _

theorem search_descend {α : Type} (cmp : α → α → Int) (tree : RbTree α) (key : α) :
    rbtreeSearch cmp tree key =
      match descend (fun own => orient (cmp key own)) tree.root [] with
      | (.nil, _) => none
      | (.node tag left own right, place) => some (.node tag left own right, place) := by
  have found := find_descend cmp key tree.root [] none
  rw [rbtreeSearch]
  generalize rbtreeFindLessEqual cmp key tree.root [] none = result at found ⊢
  generalize descend (fun own => orient (cmp key own)) tree.root [] = walk at found ⊢
  obtain ⟨exact, last⟩ := result
  obtain ⟨node, place⟩ := walk
  cases node with
  | nil =>
      simp only at found
      rw [found]
  | node tag left own right =>
      simp only at found
      rw [found]

-- What holds whatever the comparison does: the fix-ups find the shape they need.
structure RbInv {α : Type} (tree : RbTree α) : Prop where
  black : color tree.root = .black
  counted : tree.count = (inorder tree.root).length

theorem rb_inv_init {α : Type} : RbInv (rbtreeInit : RbTree α) where
  black := rfl
  counted := rfl

-- A new key stands where the walk ended.
structure InsertedAt {α : Type} (cmp : α → α → Int) (tree next : RbTree α) (data : α) (pre post : List α) : Prop where
  inv : RbInv next
  was : inorder tree.root = pre ++ post
  now : inorder next.root = pre ++ data :: post
  ordered : Guides (fun key => orient (cmp data key)) (inorder tree.root) →
    (∀ key ∈ pre, orient (cmp data key) = .gt) ∧ ∀ key ∈ post, orient (cmp data key) = .lt

theorem insert_spec {α : Type} (cmp : α → α → Int) (tree : RbTree α) (data : α) (inv : RbInv tree) :
    (rbtreeInsert cmp tree data = .ok (tree, none) ∧ ∃ key ∈ inorder tree.root, cmp data key = 0) ∨
      ∃ next pre post, rbtreeInsert cmp tree data = .ok (next, some data) ∧ InsertedAt cmp tree next data pre post := by
  have place := insert_place_descend cmp data tree.root []
  have whole := descend_plug (fun key => orient (cmp data key)) tree.root []
  have narrows := fun guides => descend_narrows (fun key => orient (cmp data key)) tree.root [] guides (narrowed_nil _)
  have stops := descend_stops (fun key => orient (cmp data key)) tree.root []
  generalize descend (fun key => orient (cmp data key)) tree.root [] = walk at place whole narrows stops
  obtain ⟨node, path⟩ := walk
  simp only [plug] at place whole narrows stops
  rcases stops with rfl | ⟨tag, left, key, right, rfl, same⟩
  · have sequence : inorder tree.root = before path ++ after path := by
      rw [← whole, inorder_plug]
      rfl
    have black : rootColor .black path = .black := by
      have rootBlack := inv.black
      rwa [← whole, color_plug] at rootBlack
    obtain ⟨root, done, now, rootBlack⟩ := insert_fixup_settled (.node .red .nil data .nil) path (by simp) black
    rw [inorder_plug] at now
    refine .inr ⟨⟨root, tree.count + 1⟩, before path, after path, ?_, ⟨⟨rootBlack, ?_⟩, sequence, now, ?_⟩⟩
    · simp only [rbtreeInsert, place, done, bind, Except.bind]
    · have count := inv.counted
      rw [sequence] at count
      simp only [now, List.length_append, inorder, List.nil_append, List.length_cons, List.length_nil] at count ⊢
      omega
    · intro guides
      exact ⟨(narrows guides).behind, (narrows guides).ahead⟩
  · refine .inl ⟨by simp only [rbtreeInsert, place], key, ?_, (orient_eq _).mp same⟩
    rw [← whole, inorder_plug]
    simp [inorder]

theorem root_color_append {α : Type} (tag : Color) (lower upper : RbPath α) :
    rootColor tag (lower ++ upper) = rootColor (rootColor tag lower) upper := by
  induction lower generalizing tag with
  | nil => rfl
  | cons frame lower ih => exact ih frame.tag

-- The position to unlink has a child at most on one side, and without its own
-- key it stands for the sequence without the deleted one.
theorem swap_smallest_spec {α : Type} (tag : Color) (left : RbNode α) (own : α) (right : RbNode α) (path : RbPath α) :
    let place := rbtreeSwapSmallest (.node tag left own right) path
    (leftChild place.1 = .nil ∨ rightChild place.1 = .nil) ∧ rootColor (color place.1) place.2 = rootColor tag path ∧
      before place.2 ++ (inorder (leftChild place.1) ++ (inorder (rightChild place.1) ++ after place.2)) =
        before path ++ (inorder left ++ (inorder right ++ after path)) := by
  cases left with
  | nil => exact ⟨.inl rfl, rfl, rfl⟩
  | node leftTag leftLeft leftKey leftRight =>
      cases right with
      | nil => exact ⟨.inr rfl, rfl, rfl⟩
      | node rightTag rightLeft rightKey rightRight =>
          obtain ⟨lefts, sequence⟩ := leftmost_spec rightTag rightKey rightRight rightLeft [] rfl
          refine ⟨.inl rfl, ?_, ?_⟩
          · simp only [rbtreeSwapSmallest, root_color_append]
            rfl
          · simp only [rbtreeSwapSmallest, leftChild, rightChild, before_append, after_append, lefts]
            simp only [before, after, inorder, List.append_nil, List.nil_append, List.append_assoc, List.cons_append] at sequence ⊢
            have shifted := congrArg (· ++ after path) sequence
            simp only [List.cons_append, List.append_assoc] at shifted
            rw [shifted]

theorem inorder_only_child {α : Type} (node : RbNode α) (single : leftChild node = .nil ∨ rightChild node = .nil) :
    inorder (onlyChild node) = inorder (leftChild node) ++ inorder (rightChild node) := by
  rw [onlyChild]
  cases leftEq : leftChild node with
  | nil => rfl
  | node tag left key right =>
      rcases single with missing | missing
      · rw [leftEq] at missing
        cases missing
      · simp [missing, inorder]

theorem unlink_settled {α : Type} (node : RbNode α) (path : RbPath α)
    (single : leftChild node = .nil ∨ rightChild node = .nil) (black : rootColor (color node) path = .black) :
    Settled (before path ++ (inorder (leftChild node) ++ (inorder (rightChild node) ++ after path)))
      (rbtreeUnlink node path) := by
  have rootBlack := root_black _ _ black
  have sequence : inorder (plug (onlyChild node) path) =
      before path ++ (inorder (leftChild node) ++ (inorder (rightChild node) ++ after path)) := by
    rw [inorder_plug, inorder_only_child node single, List.append_assoc]
  rw [rbtreeUnlink, ← sequence]
  by_cases red : color node = .red
  · rw [if_pos red]
    refine ⟨_, rfl, rfl, ?_⟩
    cases path with
    | nil =>
        rw [red] at black
        cases black
    | cons frame up =>
        rw [color_plug]
        exact black
  · rw [if_neg red]
    by_cases childRed : color (onlyChild node) = .red
    · rw [if_pos childRed]
      refine ⟨_, rfl, inorder_plug_congr _ _ path (inorder_paint .black _), ?_⟩
      rw [color_plug, color_paint_black, rootBlack]
    · rw [if_neg childRed]
      apply delete_fixup_settled (onlyChild node) path ?_ rootBlack
      cases tag : color (onlyChild node) with
      | black => rfl
      | red => exact absurd tag childRed

theorem delete_spec {α : Type} (cmp : α → α → Int) (tree : RbTree α) (key : α) (inv : RbInv tree) :
    (rbtreeDelete cmp tree key = .ok (tree, none) ∧ rbtreeSearch cmp tree key = none) ∨
      ∃ next own pre post, rbtreeDelete cmp tree key = .ok (next, some own) ∧ cmp key own = 0 ∧ RbInv next ∧
        inorder tree.root = pre ++ own :: post ∧ inorder next.root = pre ++ post := by
  have search := search_descend cmp tree key
  have whole := descend_plug (fun own => orient (cmp key own)) tree.root []
  have stops := descend_stops (fun own => orient (cmp key own)) tree.root []
  generalize descend (fun own => orient (cmp key own)) tree.root [] = walk at search whole stops
  obtain ⟨node, path⟩ := walk
  simp only [plug] at search whole stops
  rcases stops with rfl | ⟨tag, left, own, right, rfl, same⟩
  · exact .inl ⟨by rw [rbtreeDelete, search], search⟩
  · obtain ⟨single, colors, sequence⟩ := swap_smallest_spec tag left own right path
    have black : rootColor tag path = .black := by
      have rootBlack := inv.black
      rwa [← whole, color_plug] at rootBlack
    obtain ⟨root, done, now, rootBlack⟩ := unlink_settled _ _ single (colors.trans black)
    rw [sequence] at now
    have was : inorder tree.root = (before path ++ inorder left) ++ own :: (inorder right ++ after path) := by
      rw [← whole, inorder_plug]
      simp [inorder]
    have rest : inorder root = (before path ++ inorder left) ++ (inorder right ++ after path) := by
      rw [now, List.append_assoc]
    refine .inr ⟨⟨root, tree.count - 1⟩, own, _, _, ?_, (orient_eq _).mp same, ⟨rootBlack, ?_⟩, was, rest⟩
    · simp only [rbtreeDelete, search, done, bind, Except.bind]
    · have count := inv.counted
      rw [was] at count
      simp only [rest, List.length_append, List.length_cons] at count ⊢
      omega

end Facebooc
