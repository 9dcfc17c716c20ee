import Facebooc.RbTree
import Mathlib.Order.Compare
import Mathlib.Tactic.Common

set_option autoImplicit false

namespace Facebooc

open CMemory TreeZipper

-- Colours and rotations leave the in-order sequence alone. None of this needs
-- the comparison to be an order, nor the tree to be balanced.

@[simp] theorem inorder_paint {α : Type} (tag : Color) (tree : RbNode α) : inorder (paint tag tree) = inorder tree := by
  cases tree <;> rfl

@[simp] theorem inorder_paint_parent {α : Type} (tag : Color) (frame : Frame Color α) (child : RbNode α) :
    inorder ((paintParent tag frame).close child) = inorder (frame.close child) := by
  cases side : frame.side <;> simp [paintParent, Frame.close, side, inorder]

@[simp] theorem inorder_paint_other {α : Type} (tag : Color) (frame : Frame Color α) (child : RbNode α) :
    inorder ((paintOther tag frame).close child) = inorder (frame.close child) := by
  cases side : frame.side <;> simp [paintOther, Frame.close, side, inorder]

theorem inorder_close_congr {α : Type} (frame : Frame Color α) (child other : RbNode α)
    (same : inorder child = inorder other) : inorder (frame.close child) = inorder (frame.close other) := by
  cases side : frame.side <;> simp [Frame.close, side, inorder, same]

theorem color_paint_black {α : Type} (tree : RbNode α) : color (paint .black tree) = .black := by
  cases tree <;> rfl

theorem rotate_left_node {α : Type} (tag : Color) (left : RbNode α) (key : α) (right : RbNode α) (full : right ≠ .nil) :
    ∃ top, rbtreeRotateLeft (.node tag left key right) = .ok top ∧ top ≠ .nil ∧
      inorder top = inorder (.node tag left key right) := by
  cases right with
  | nil => exact absurd rfl full
  | node rightTag inner rightKey outer => exact ⟨_, rfl, by simp, by simp [inorder]⟩

theorem rotate_right_node {α : Type} (tag : Color) (left : RbNode α) (key : α) (right : RbNode α) (full : left ≠ .nil) :
    ∃ top, rbtreeRotateRight (.node tag left key right) = .ok top ∧ top ≠ .nil ∧
      inorder top = inorder (.node tag left key right) := by
  cases left with
  | nil => exact absurd rfl full
  | node leftTag outer leftKey inner => exact ⟨_, rfl, by simp, by simp [inorder]⟩

theorem close_not_nil {α : Type} (frame : Frame Color α) (child : RbNode α) : frame.close child ≠ .nil := by
  cases side : frame.side <;> simp [Frame.close, side]

theorem paint_not_nil {α : Type} (tag : Color) (tree : RbNode α) (full : tree ≠ .nil) : paint tag tree ≠ .nil := by
  cases tree with
  | nil => exact absurd rfl full
  | node own left key right => simp [paint]

-- The colour of the root, seen from a position.
def rootColor {α : Type} (child : Color) : RbPath α → Color
  | [] => child
  | frame :: up => rootColor frame.tag up

theorem color_close {α : Type} (frame : Frame Color α) (child : RbNode α) : color (frame.close child) = frame.tag := by
  cases side : frame.side <;> simp [Frame.close, side, color]

theorem color_plug {α : Type} (tree : RbNode α) (path : RbPath α) :
    color (plug tree path) = rootColor (color tree) path := by
  induction path generalizing tree with
  | nil => rfl
  | cons frame up ih => rw [plug, ih, color_close, rootColor]

theorem root_black {α : Type} (tag : Color) (path : RbPath α) (black : rootColor tag path = .black) :
    rootColor .black path = .black := by
  cases path with
  | nil => rfl
  | cons frame up => exact black

theorem turn_inner_ok {α : Type} (side : Side) (parent : Frame Color α) (node : RbNode α) (full : node ≠ .nil) :
    ∃ turned, turnInner side parent node = .ok turned ∧ turned ≠ .nil ∧ inorder turned = inorder (parent.close node) := by
  have unturned : ∃ turned, Except.ok (parent.close node) = (Except.ok turned : Except Fault (RbNode α)) ∧ turned ≠ .nil ∧
      inorder turned = inorder (parent.close node) := ⟨_, rfl, close_not_nil _ _, rfl⟩
  cases inner : parent.side with
  | left =>
      have closed : parent.close node = .node parent.tag node parent.key parent.other := by simp [Frame.close, inner]
      cases side with
      | left => simpa only [turnInner, inner] using unturned
      | right =>
          obtain ⟨top, turn, topFull, same⟩ := rotate_right_node parent.tag node parent.key parent.other full
          exact ⟨top, by simpa only [turnInner, inner, closed] using turn, topFull, by rw [closed, same]⟩
  | right =>
      have closed : parent.close node = .node parent.tag parent.other parent.key node := by simp [Frame.close, inner]
      cases side with
      | right => simpa only [turnInner, inner] using unturned
      | left =>
          obtain ⟨top, turn, topFull, same⟩ := rotate_left_node parent.tag parent.other parent.key node full
          exact ⟨top, by simpa only [turnInner, inner, closed] using turn, topFull, by rw [closed, same]⟩

theorem rotate_away_ok {α : Type} (grandparent : Frame Color α) (child : RbNode α) (full : child ≠ .nil) :
    ∃ top, rotateAway grandparent.side (grandparent.close child) = .ok top ∧
      inorder top = inorder (grandparent.close child) := by
  cases side : grandparent.side with
  | left =>
      obtain ⟨top, turn, _, same⟩ := rotate_right_node grandparent.tag child grandparent.key grandparent.other full
      exact ⟨top, by simpa only [rotateAway, Frame.close, side] using turn, by simpa only [Frame.close, side] using same⟩
  | right =>
      obtain ⟨top, turn, _, same⟩ := rotate_left_node grandparent.tag grandparent.other grandparent.key child full
      exact ⟨top, by simpa only [rotateAway, Frame.close, side] using turn, by simpa only [Frame.close, side] using same⟩

-- A fix-up step ends well: nothing faults, the sequence stays, the root is black.
def Settled {α : Type} (keys : List α) (result : Except Fault (RbNode α)) : Prop :=
  ∃ root, result = .ok root ∧ inorder root = keys ∧ color root = .black

theorem painted_settled {α : Type} (tree : RbNode α) (keys : List α) (same : inorder tree = keys) :
    Settled keys (.ok (paint .black tree)) :=
  ⟨_, rfl, by rw [inorder_paint, same], color_paint_black tree⟩

theorem insert_fixup_settled {α : Type} (node : RbNode α) (path : RbPath α) (full : node ≠ .nil)
    (black : rootColor .black path = .black) :
    Settled (inorder (plug node path)) (rbtreeInsertFixup node path) := by
  induction node, path using rbtreeInsertFixup.induct with
  | case1 node => exact painted_settled node _ rfl
  | case2 node parent red => simp [rootColor, red] at black
  | case3 node parent other =>
      rw [rbtreeInsertFixup, if_neg other]
      exact painted_settled _ _ rfl
  | case4 node parent grandparent up parentBlack =>
      rw [rbtreeInsertFixup, if_pos parentBlack]
      exact painted_settled _ _ rfl
  | case5 node parent grandparent up parentRed uncleRed ih =>
      rw [rbtreeInsertFixup, if_neg parentRed, if_pos uncleRed]
      obtain ⟨root, done, same, rootBlack⟩ := ih (close_not_nil _ _) (root_black grandparent.tag up black)
      refine ⟨root, done, same.trans ?_, rootBlack⟩
      apply inorder_plug_congr
      rw [inorder_paint_parent, inorder_paint_other]
      apply inorder_close_congr
      rw [inorder_paint_parent]
  | case6 node parent grandparent up parentRed uncleBlack =>
      rw [rbtreeInsertFixup, if_neg parentRed, if_neg uncleBlack]
      obtain ⟨turned, turn, turnedFull, turnedSame⟩ := turn_inner_ok grandparent.side parent node full
      obtain ⟨top, raise, topSame⟩ := rotate_away_ok (paintParent .red grandparent) (paint .black turned)
        (paint_not_nil _ _ turnedFull)
      have side : (paintParent .red grandparent).side = grandparent.side := rfl
      rw [side] at raise
      simp only [turn, raise, bind, Except.bind]
      apply painted_settled
      apply inorder_plug_congr
      rw [topSame, inorder_paint_parent]
      apply inorder_close_congr
      rw [inorder_paint, turnedSame]

theorem turn_sibling_ok {α : Type} (side : Side) (sibling : RbNode α) (full : sibling ≠ .nil) :
    ∃ turned, turnSibling side sibling = .ok turned ∧ turned ≠ .nil ∧ inorder turned = inorder sibling := by
  have unturned : ∃ turned, (Except.ok sibling : Except Fault (RbNode α)) = .ok turned ∧ turned ≠ .nil ∧
      inorder turned = inorder sibling := ⟨sibling, rfl, full, rfl⟩
  cases sibling with
  | nil => exact absurd rfl full
  | node tag left key right =>
      cases side with
      | left =>
          rw [turnSibling]
          by_cases inner : color (.node tag left key right) = .black ∧ color left = .red ∧ color right = .black
          · have present : paint .black left ≠ .nil := by
              apply paint_not_nil
              intro missing
              simp [missing, color] at inner
            obtain ⟨top, turn, topFull, same⟩ := rotate_right_node .red (paint .black left) key right present
            rw [leftChild, rightChild, if_pos inner]
            exact ⟨top, turn, topFull, by simpa [inorder] using same⟩
          · rw [leftChild, rightChild, if_neg inner]
            exact unturned
      | right =>
          rw [turnSibling]
          by_cases inner : color (.node tag left key right) = .black ∧ color right = .red ∧ color left = .black
          · have present : paint .black right ≠ .nil := by
              apply paint_not_nil
              intro missing
              simp [missing, color] at inner
            obtain ⟨top, turn, topFull, same⟩ := rotate_left_node .red left key (paint .black right) present
            rw [leftChild, rightChild, if_pos inner]
            exact ⟨top, turn, topFull, by simpa [inorder] using same⟩
          · rw [leftChild, rightChild, if_neg inner]
            exact unturned

-- The frames a rotation leaves: the parent keeps its colour below the sibling.
theorem rotate_parent_ok {α : Type} (parent : Frame Color α) (full : parent.other ≠ .nil) :
    ∃ lower upper, rotateParent parent = .ok [lower, upper] ∧ lower.tag = parent.tag ∧ upper.tag = color parent.other ∧
      ∀ child, inorder (plug child [lower, upper]) = inorder (parent.close child) := by
  obtain ⟨side, tag, key, other⟩ := parent
  cases other with
  | nil => exact absurd rfl full
  | node siblingTag left siblingKey right =>
      cases side with
      | left => exact ⟨_, _, rfl, rfl, rfl, fun child => by simp [plug, Frame.close, inorder]⟩
      | right => exact ⟨_, _, rfl, rfl, rfl, fun child => by simp [plug, Frame.close, inorder]⟩

theorem color_paint {α : Type} (tag : Color) (tree : RbNode α) (full : tree ≠ .nil) : color (paint tag tree) = tag := by
  cases tree with
  | nil => exact absurd rfl full
  | node own left key right => rfl

theorem sibling_black_nil {α : Type} : siblingBlack (.nil : RbNode α) = true := rfl

theorem paint_outer {α : Type} (side : Side) (tag : Color) (sibling : RbNode α) (full : sibling ≠ .nil) :
    paintOuter side tag sibling ≠ .nil ∧ color (paintOuter side tag sibling) = tag ∧
      inorder (paintOuter side tag sibling) = inorder sibling := by
  cases sibling with
  | nil => exact absurd rfl full
  | node own left key right =>
      cases side with
      | left =>
          have shape : paintOuter .left tag (.node own left key right) = .node tag left key (paint .black right) := rfl
          simp [shape, color, inorder]
      | right =>
          have shape : paintOuter .right tag (.node own left key right) = .node tag (paint .black left) key right := rfl
          simp [shape, color, inorder]

theorem delete_settle_settled {α : Type} (child : RbNode α) (parent : Frame Color α) (up : RbPath α)
    (unbalanced : parent.tag = .red ∨ siblingBlack parent.other = false)
    (black : rootColor parent.tag up = .black) :
    Settled (inorder (plug child (parent :: up))) (rbtreeDeleteSettle child parent up) := by
  rw [rbtreeDeleteSettle]
  by_cases recolor : parent.tag = .red ∧ siblingBlack parent.other
  · rw [if_pos recolor]
    refine ⟨_, rfl, ?_, ?_⟩
    · rw [plug, plug]
      apply inorder_plug_congr
      rw [inorder_paint_parent, inorder_paint_other]
    · rw [color_plug]
      exact root_black parent.tag up black
  · rw [if_neg recolor]
    have full : parent.other ≠ .nil := by
      intro missing
      rw [missing, sibling_black_nil] at unbalanced recolor
      simp at unbalanced recolor
      exact recolor unbalanced
    obtain ⟨turned, turn, turnedFull, turnedSame⟩ := turn_sibling_ok parent.side parent.other full
    obtain ⟨paintedFull, paintedTag, paintedSame⟩ := paint_outer parent.side parent.tag turned turnedFull
    obtain ⟨lower, upper, rotated, _, upperTag, same⟩ :=
      rotate_parent_ok (paintParent .black { parent with other := paintOuter parent.side parent.tag turned }) paintedFull
    simp only [turn, rotated, bind, Except.bind]
    refine ⟨_, rfl, ?_, ?_⟩
    · rw [plug_append]
      apply inorder_plug_congr
      rw [same, inorder_paint_parent]
      cases side : parent.side <;>
        simp only [Frame.close, side, inorder, ← turnedSame, ← paintedSame]
    · rw [color_plug]
      have top : upper.tag = parent.tag := upperTag.trans paintedTag
      change rootColor upper.tag up = .black
      rw [top, black]

theorem delete_fixup_settled {α : Type} (child : RbNode α) (path : RbPath α) (childBlack : color child = .black)
    (black : rootColor .black path = .black) :
    Settled (inorder (plug child path)) (rbtreeDeleteFixup child path) := by
  induction path generalizing child with
  | nil => exact ⟨child, rfl, rfl, childBlack⟩
  | cons parent up ih =>
      rw [rbtreeDeleteFixup]
      by_cases siblingRed : color parent.other = .red
      · have full : parent.other ≠ .nil := by
          intro missing
          simp [missing, color] at siblingRed
        obtain ⟨lower, upper, rotated, lowerTag, upperTag, same⟩ :=
          rotate_parent_ok (paintParent .red (paintOther .black parent)) (paint_not_nil .black _ full)
        have topBlack : upper.tag = .black := upperTag.trans (color_paint .black _ full)
        rw [if_pos siblingRed]
        simp only [rotated, bind, Except.bind]
        have settled := delete_settle_settled child lower ([upper] ++ up) (.inl lowerTag) (by
          change rootColor upper.tag up = .black
          rw [topBlack]
          exact root_black parent.tag up black)
        have sequence : inorder (plug child (lower :: ([upper] ++ up))) = inorder (plug child (parent :: up)) := by
          rw [← List.cons_append, plug_append]
          apply inorder_plug_congr
          rw [same, inorder_paint_parent, inorder_paint_other]
        rwa [sequence] at settled
      · rw [if_neg siblingRed]
        by_cases goUp : parent.tag = .black ∧ siblingBlack parent.other
        · rw [if_pos goUp]
          have closedBlack : color ((paintOther .red parent).close child) = .black := by
            rw [color_close]
            exact goUp.1
          obtain ⟨root, done, same, rootBlack⟩ := ih _ closedBlack (root_black parent.tag up black)
          refine ⟨root, done, same.trans ?_, rootBlack⟩
          apply inorder_plug_congr
          rw [inorder_paint_other]
        · rw [if_neg goUp]
          apply delete_settle_settled child parent up ?_ black
          cases tag : parent.tag with
          | red => exact .inl rfl
          | black => exact .inr (by simpa [tag] using goUp)

end Facebooc
