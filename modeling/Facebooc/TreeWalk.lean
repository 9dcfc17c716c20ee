import Facebooc.TreeZipper

set_option autoImplicit false

namespace TreeZipper

section

variable {γ α : Type}

-- Walking along the keys of a tree one position at a time. The nil tree stands
-- for having left it.
abbrev Place (γ α : Type) := Tree γ α × List (Frame γ α)

def lowest : Tree γ α → List (Frame γ α) → Place γ α
  | .node tag (.node lowTag far low beside) key right, path =>
      lowest (.node lowTag far low beside) (⟨.left, tag, key, right⟩ :: path)
  | tree, path => (tree, path)

def highest : Tree γ α → List (Frame γ α) → Place γ α
  | .node tag left key (.node highTag beside high far), path =>
      highest (.node highTag beside high far) (⟨.right, tag, key, left⟩ :: path)
  | tree, path => (tree, path)

-- Up to the first node on whose given side the position does not lie.
def climb (side : Side) (tree : Tree γ α) : List (Frame γ α) → Place γ α
  | [] => (.nil, [])
  | frame :: up => if frame.side = side then climb side (frame.close tree) up else (frame.close tree, up)

def onward : Place γ α → Place γ α
  | (.nil, _) => (.nil, [])
  | (.node tag left key .nil, path) => climb .right (.node tag left key .nil) path
  | (.node tag left key right, path) => lowest right (⟨.right, tag, key, left⟩ :: path)

def backward : Place γ α → Place γ α
  | (.nil, _) => (.nil, [])
  | (.node tag .nil key right, path) => climb .left (.node tag .nil key right) path
  | (.node tag left key right, path) => highest left (⟨.left, tag, key, right⟩ :: path)

-- The keys met on the way, as long as there is fuel.
def keysMet (step : Place γ α → Place γ α) : Nat → Place γ α → Option (List α)
  | _, (.nil, _) => some []
  | 0, _ => none
  | fuel + 1, (.node tag left key right, path) =>
      (keysMet step fuel (step (.node tag left key right, path))).map (key :: ·)

-- The keys from a position on.
def toCome : Place γ α → List α
  | (.nil, _) => []
  | (.node _ _ key right, path) => key :: (inorder right ++ after path)

theorem to_come_lowest (tree : Tree γ α) (path : List (Frame γ α)) (full : tree ≠ .nil) :
    toCome (lowest tree path) = inorder tree ++ after path := by
  induction tree generalizing path with
  | nil => exact absurd rfl full
  | node tag left key right leftIh _ =>
      cases left with
      | nil => rfl
      | node lowTag far low beside =>
          rw [lowest, leftIh _ (by simp)]
          simp [inorder, after]

theorem to_come_climb (tree : Tree γ α) (path : List (Frame γ α)) : toCome (climb .right tree path) = after path := by
  induction path generalizing tree with
  | nil => rfl
  | cons frame up ih =>
      rw [climb, after]
      cases side : frame.side with
      | right => exact ih _
      | left => simp [Frame.close, side, toCome]

theorem to_come_onward (tag : γ) (left : Tree γ α) (key : α) (right : Tree γ α) (path : List (Frame γ α)) :
    toCome (onward (.node tag left key right, path)) = inorder right ++ after path := by
  cases right with
  | nil => exact to_come_climb _ path
  | node rightTag near own far =>
      rw [onward]
      · exact to_come_lowest _ _ (by simp)
      · simp

theorem keys_met_to_come (fuel : Nat) (place : Place γ α) (enough : (toCome place).length ≤ fuel) :
    keysMet onward fuel place = some (toCome place) := by
  induction fuel generalizing place with
  | zero =>
      obtain ⟨tree, path⟩ := place
      cases tree with
      | nil => rfl
      | node tag left key right => exact absurd enough (by simp [toCome])
  | succ fuel ih =>
      obtain ⟨tree, path⟩ := place
      cases tree with
      | nil => rfl
      | node tag left key right =>
          have next := to_come_onward tag left key right path
          rw [keysMet, ih _ (by rw [next]; simpa [toCome] using enough), next]
          rfl

-- The tree seen from behind.
def mirror : Tree γ α → Tree γ α
  | .nil => .nil
  | .node tag left key right => .node tag (mirror right) key (mirror left)

def Side.other : Side → Side
  | .left => .right
  | .right => .left

def Frame.mirror (frame : Frame γ α) : Frame γ α := ⟨frame.side.other, frame.tag, frame.key, TreeZipper.mirror frame.other⟩

def mirrorPlace (place : Place γ α) : Place γ α := (mirror place.1, place.2.map Frame.mirror)

theorem inorder_mirror (tree : Tree γ α) : inorder (mirror tree) = (inorder tree).reverse := by
  induction tree with
  | nil => rfl
  | node tag left key right leftIh rightIh => simp [mirror, inorder, leftIh, rightIh]

theorem close_mirror (frame : Frame γ α) (tree : Tree γ α) : frame.mirror.close (mirror tree) = mirror (frame.close tree) := by
  cases side : frame.side <;> simp [Frame.close, Frame.mirror, side, Side.other, mirror]

theorem highest_mirror (tree : Tree γ α) (path : List (Frame γ α)) :
    mirrorPlace (highest tree path) = lowest (mirror tree) (path.map Frame.mirror) := by
  induction tree generalizing path with
  | nil => rfl
  | node tag left key right _ rightIh =>
      cases right with
      | nil => rfl
      | node highTag beside high far => exact rightIh _

theorem climb_mirror (tree : Tree γ α) (path : List (Frame γ α)) :
    mirrorPlace (climb .left tree path) = climb .right (mirror tree) (path.map Frame.mirror) := by
  induction path generalizing tree with
  | nil => rfl
  | cons frame up ih =>
      rw [climb, List.map_cons, climb, close_mirror]
      cases side : frame.side with
      | left => simpa [Frame.mirror, side, Side.other] using ih (frame.close tree)
      | right => simp [Frame.mirror, side, Side.other, mirrorPlace]

theorem backward_mirror (place : Place γ α) : mirrorPlace (backward place) = onward (mirrorPlace place) := by
  obtain ⟨tree, path⟩ := place
  cases tree with
  | nil => rfl
  | node tag left key right =>
      cases left with
      | nil => exact climb_mirror _ path
      | node leftTag far own near => exact highest_mirror _ _

theorem keys_met_mirror (fuel : Nat) (place : Place γ α) : keysMet backward fuel place = keysMet onward fuel (mirrorPlace place) := by
  induction fuel generalizing place with
  | zero =>
      obtain ⟨tree, path⟩ := place
      cases tree <;> rfl
  | succ fuel ih =>
      obtain ⟨tree, path⟩ := place
      cases tree with
      | nil => rfl
      | node tag left key right =>
          rw [keysMet, ih, backward_mirror]
          rfl

theorem keys_met_lowest (fuel : Nat) (tree : Tree γ α) (enough : (inorder tree).length ≤ fuel) :
    keysMet onward fuel (lowest tree []) = some (inorder tree) := by
  cases tree with
  | nil => cases fuel <;> rfl
  | node tag left key right =>
      have start := to_come_lowest (.node tag left key right) [] (by simp)
      rw [after, List.append_nil] at start
      rw [keys_met_to_come fuel _ (by rw [start]; exact enough), start]

theorem keys_met_highest (fuel : Nat) (tree : Tree γ α) (enough : (inorder tree).length ≤ fuel) :
    keysMet backward fuel (highest tree []) = some (inorder tree).reverse := by
  rw [keys_met_mirror, highest_mirror, List.map_nil, keys_met_lowest, inorder_mirror]
  rwa [inorder_mirror, List.length_reverse]

theorem climb_lowest (tree : Tree γ α) (path : List (Frame γ α)) :
    climb .left (lowest tree path).1 (lowest tree path).2 = climb .left tree path := by
  induction tree generalizing path with
  | nil => rfl
  | node tag left key right leftIh _ =>
      cases left with
      | nil => rfl
      | node lowTag far low beside => exact leftIh _

theorem lowest_shape (tree : Tree γ α) (path : List (Frame γ α)) (full : tree ≠ .nil) :
    ∃ tag key right up, lowest tree path = (.node tag .nil key right, up) := by
  induction tree generalizing path with
  | nil => exact absurd rfl full
  | node tag left key right leftIh _ =>
      cases left with
      | nil => exact ⟨tag, key, right, path, rfl⟩
      | node lowTag far low beside => exact leftIh _ (by simp)

theorem close_full (frame : Frame γ α) (tree : Tree γ α) : frame.close tree ≠ .nil := by
  cases side : frame.side <;> simp [Frame.close, side]

-- A climb that stops has the place it started from on the way back down.
theorem climb_back (tree : Tree γ α) (path : List (Frame γ α)) (full : tree ≠ .nil) :
    climb .right tree path = (.nil, []) ∨ backward (climb .right tree path) = highest tree path := by
  induction path generalizing tree with
  | nil => exact .inl rfl
  | cons frame up ih =>
      obtain ⟨side, tag, key, other⟩ := frame
      cases tree with
      | nil => exact absurd rfl full
      | node low near own far =>
          cases side with
          | left => exact .inr rfl
          | right => exact ih _ (close_full _ _)

theorem backward_onward (place : Place γ α) (full : place.1 ≠ .nil) (more : onward place ≠ (.nil, [])) :
    backward (onward place) = place := by
  obtain ⟨tree, path⟩ := place
  cases tree with
  | nil => exact absurd rfl full
  | node tag left key right =>
      cases right with
      | nil => exact (climb_back _ path full).resolve_left more
      | node rightTag near own far =>
          have there := climb_lowest (.node rightTag near own far) (⟨.right, tag, key, left⟩ :: path)
          obtain ⟨lowTag, low, beside, up, stop⟩ :=
            lowest_shape (.node rightTag near own far) (⟨.right, tag, key, left⟩ :: path) (by simp)
          rw [stop] at there
          rw [onward, stop]
          · exact there
          · simp

-- Both children in front of their parent.
def postorder : Tree γ α → List α
  | .nil => []
  | .node _ left key right => postorder left ++ postorder right ++ [key]

theorem postorder_perm (tree : Tree γ α) : (postorder tree).Perm (inorder tree) := by
  induction tree with
  | nil => exact List.Perm.refl _
  | node tag left key right leftIh rightIh =>
      rw [postorder, List.append_assoc]
      exact leftIh.append ((List.perm_append_singleton key _).trans (rightIh.cons key))

theorem postorder_plug (tree : Tree γ α) (path : List (Frame γ α)) :
    ∃ earlier later, postorder (plug tree path) = earlier ++ postorder tree ++ later := by
  induction path generalizing tree with
  | nil => exact ⟨[], [], by simp [plug]⟩
  | cons frame up ih =>
      obtain ⟨earlier, later, whole⟩ := ih (frame.close tree)
      rw [plug, whole]
      cases side : frame.side with
      | left => exact ⟨earlier, postorder frame.other ++ frame.key :: later, by simp [Frame.close, side, postorder]⟩
      | right => exact ⟨earlier ++ postorder frame.other, frame.key :: later, by simp [Frame.close, side, postorder]⟩

end

end TreeZipper
