import Facebooc.CMemory
import Facebooc.TreeZipper

set_option autoImplicit false

namespace Facebooc

open CMemory TreeZipper

-- src/rbtree.c. RBTREE_NULL is nil: it is black and its own child, and the code
-- only ever writes the colour black into it. A pointer to a node is a position:
-- the subtree under it and the frames its parent pointers lead through.

inductive Color where
  | black
  | red
deriving DecidableEq, Repr

abbrev RbNode (α : Type) := Tree Color α

abbrev RbPath (α : Type) := List (Frame Color α)

structure RbTree (α : Type) where
  root : RbNode α
  count : Nat
deriving DecidableEq, Repr

def rbtreeInit {α : Type} : RbTree α := ⟨.nil, 0⟩

def color {α : Type} : RbNode α → Color
  | .nil => .black
  | .node tag _ _ _ => tag

def leftChild {α : Type} : RbNode α → RbNode α
  | .nil => .nil
  | .node _ left _ _ => left

def rightChild {α : Type} : RbNode α → RbNode α
  | .nil => .nil
  | .node _ _ _ right => right

def paint {α : Type} (tag : Color) : RbNode α → RbNode α
  | .nil => .nil
  | .node _ left key right => .node tag left key right

def paintLeft {α : Type} (tag : Color) : RbNode α → RbNode α
  | .nil => .nil
  | .node own left key right => .node own (paint tag left) key right

def paintRight {α : Type} (tag : Color) : RbNode α → RbNode α
  | .nil => .nil
  | .node own left key right => .node own left key (paint tag right)

def paintParent {α : Type} (tag : Color) (frame : Frame Color α) : Frame Color α := { frame with tag := tag }

-- The other child of the parent: the uncle, or the sibling.
def paintOther {α : Type} (tag : Color) (frame : Frame Color α) : Frame Color α :=
  { frame with other := paint tag frame.other }

-- Rotating where the child to come up is RBTREE_NULL would hang the tree under
-- the shared null node.
def rbtreeRotateLeft {α : Type} : RbNode α → Except Fault (RbNode α)
  | .node tag left key (.node rightTag inner rightKey outer) =>
      .ok (.node rightTag (.node tag left key inner) rightKey outer)
  | _ => .error .null

def rbtreeRotateRight {α : Type} : RbNode α → Except Fault (RbNode α)
  | .node tag (.node leftTag outer leftKey inner) key right =>
      .ok (.node leftTag outer leftKey (.node tag inner key right))
  | _ => .error .null

-- A node on the inner side of its parent is brought to the outer side, where
-- `side` is the one the parent stands on; then the grandparent goes down.
def turnInner {α : Type} (side : Side) (parent : Frame Color α) (node : RbNode α) : Except Fault (RbNode α) :=
  match side, parent.side with
  | .left, .right => rbtreeRotateLeft (parent.close node)
  | .right, .left => rbtreeRotateRight (parent.close node)
  | _, _ => .ok (parent.close node)

def rotateAway {α : Type} (side : Side) (grandparent : RbNode α) : Except Fault (RbNode α) :=
  match side with
  | .left => rbtreeRotateRight grandparent
  | .right => rbtreeRotateLeft grandparent

-- A red parent without a grandparent would have the null node painted and
-- rotated. After the rotations the parent is black and the loop ends.
def rbtreeInsertFixup {α : Type} : RbNode α → RbPath α → Except Fault (RbNode α)
  | node, [] => .ok (paint .black node)
  | node, [parent] =>
      if parent.tag = .red then .error .null else .ok (paint .black (plug node [parent]))
  | node, parent :: grandparent :: up =>
      if parent.tag = .black then .ok (paint .black (plug node (parent :: grandparent :: up)))
      else if color grandparent.other = .red then
        rbtreeInsertFixup ((paintParent .red (paintOther .black grandparent)).close ((paintParent .black parent).close node)) up
      else do
        let turned ← turnInner grandparent.side parent node
        let top ← rotateAway grandparent.side ((paintParent .red grandparent).close (paint .black turned))
        .ok (paint .black (plug top up))

-- The walk to the new parent; none is the duplicate.
def rbtreeInsertPlace {α : Type} (cmp : α → α → Int) (data : α) : RbNode α → RbPath α → Option (RbPath α)
  | .nil, path => some path
  | .node tag left key right, path =>
      if cmp data key = 0 then none
      else if cmp data key < 0 then rbtreeInsertPlace cmp data left (⟨.left, tag, key, right⟩ :: path)
      else rbtreeInsertPlace cmp data right (⟨.right, tag, key, left⟩ :: path)

-- The tree is changed in place, so it comes back with the returned node.
def rbtreeInsert {α : Type} (cmp : α → α → Int) (tree : RbTree α) (data : α) : Except Fault (RbTree α × Option α) :=
  match rbtreeInsertPlace cmp data tree.root [] with
  | none => .ok (tree, none)
  | some path => do
      let root ← rbtreeInsertFixup (.node .red .nil data .nil) path
      .ok (⟨root, tree.count + 1⟩, some data)

-- The last position is the temporary match.
def rbtreeFindLessEqual {α : Type} (cmp : α → α → Int) (key : α) :
    RbNode α → RbPath α → Option (RbNode α × RbPath α) → Bool × Option (RbNode α × RbPath α)
  | .nil, _, result => (false, result)
  | .node tag left own right, path, result =>
      if cmp key own = 0 then (true, some (.node tag left own right, path))
      else if cmp key own < 0 then rbtreeFindLessEqual cmp key left (⟨.left, tag, own, right⟩ :: path) result
      else rbtreeFindLessEqual cmp key right (⟨.right, tag, own, left⟩ :: path) (some (.node tag left own right, path))

def rbtreeSearch {α : Type} (cmp : α → α → Int) (tree : RbTree α) (key : α) : Option (RbNode α × RbPath α) :=
  match rbtreeFindLessEqual cmp key tree.root [] none with
  | (true, result) => result
  | (false, _) => none

-- The rotation at child_parent with the child as the hole: the sibling comes up
-- and the parent goes down on the side of the child.
def rotateParent {α : Type} : Frame Color α → Except Fault (RbPath α)
  | ⟨.left, tag, key, .node siblingTag inner siblingKey outer⟩ =>
      .ok [⟨.left, tag, key, inner⟩, ⟨.left, siblingTag, siblingKey, outer⟩]
  | ⟨.right, tag, key, .node siblingTag outer siblingKey inner⟩ =>
      .ok [⟨.right, tag, key, inner⟩, ⟨.right, siblingTag, siblingKey, outer⟩]
  | _ => .error .null

def siblingBlack {α : Type} (sibling : RbNode α) : Bool :=
  color sibling == .black && color (leftChild sibling) == .black && color (rightChild sibling) == .black

-- A red child on the inner side of a black sibling is rotated to its outer side.
def turnSibling {α : Type} (side : Side) (sibling : RbNode α) : Except Fault (RbNode α) :=
  match side with
  | .right =>
      if color sibling = .black ∧ color (rightChild sibling) = .red ∧ color (leftChild sibling) = .black then
        rbtreeRotateLeft (paintRight .black (paint .red sibling))
      else .ok sibling
  | .left =>
      if color sibling = .black ∧ color (leftChild sibling) = .red ∧ color (rightChild sibling) = .black then
        rbtreeRotateRight (paintLeft .black (paint .red sibling))
      else .ok sibling

def paintOuter {α : Type} (side : Side) (tag : Color) (sibling : RbNode α) : RbNode α :=
  match side with
  | .right => paintLeft .black (paint tag sibling)
  | .left => paintRight .black (paint tag sibling)

-- What stands behind the loop of rbtree_delete_fixup.
def rbtreeDeleteSettle {α : Type} (child : RbNode α) (parent : Frame Color α) (up : RbPath α) :
    Except Fault (RbNode α) :=
  if parent.tag = .red ∧ siblingBlack parent.other then
    .ok (plug child (paintParent .black (paintOther .red parent) :: up))
  else do
    let sibling ← turnSibling parent.side parent.other
    let turned ← rotateParent (paintParent .black { parent with other := paintOuter parent.side parent.tag sibling })
    .ok (plug child (turned ++ up))

-- Behind a red sibling the parent is red, so that round is the last one. The
-- test child_parent->right == child takes the wrong side only where child and
-- sibling are both RBTREE_NULL, and both sides then do the same.
def rbtreeDeleteFixup {α : Type} : RbNode α → RbPath α → Except Fault (RbNode α)
  | child, [] => .ok child
  | child, parent :: up =>
      if color parent.other = .red then do
        let turned ← rotateParent (paintParent .red (paintOther .black parent))
        match turned with
        | lower :: upper => rbtreeDeleteSettle child lower (upper ++ up)
        | [] => .error .null
      else if parent.tag = .black ∧ siblingBlack parent.other then
        rbtreeDeleteFixup ((paintOther .red parent).close child) up
      else rbtreeDeleteSettle child parent up

-- The position that is unlinked: with two children it trades places, but not
-- colours, with the smallest node on its right.
def rbtreeSwapSmallest {α : Type} (node : RbNode α) (path : RbPath α) : RbNode α × RbPath α :=
  match node with
  | .node tag (.node leftTag leftLeft leftKey leftRight) own (.node rightTag rightLeft rightKey rightRight) =>
      let low := leftmost rightTag rightKey rightRight rightLeft []
      (.node low.1 .nil own low.2.2.1,
        low.2.2.2 ++ ⟨.right, tag, low.2.1, .node leftTag leftLeft leftKey leftRight⟩ :: path)
  | other => (other, path)

def onlyChild {α : Type} (node : RbNode α) : RbNode α :=
  match leftChild node with
  | .nil => rightChild node
  | left => left

def rbtreeUnlink {α : Type} (node : RbNode α) (path : RbPath α) : Except Fault (RbNode α) :=
  let child := onlyChild node
  if color node = .red then .ok (plug child path)
  else if color child = .red then .ok (plug (paint .black child) path)
  else rbtreeDeleteFixup child path

def rbtreeDelete {α : Type} (cmp : α → α → Int) (tree : RbTree α) (key : α) : Except Fault (RbTree α × Option α) :=
  match rbtreeSearch cmp tree key with
  | some (.node tag left own right, path) => do
      let place := rbtreeSwapSmallest (.node tag left own right) path
      let root ← rbtreeUnlink place.1 place.2
      .ok (⟨root, tree.count - 1⟩, some own)
  | _ => .ok (tree, none)

end Facebooc
