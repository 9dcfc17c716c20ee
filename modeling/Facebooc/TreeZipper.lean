import Mathlib.Data.List.Perm.Basic
import Mathlib.Data.List.Nodup
import Mathlib.Tactic.Common

set_option autoImplicit false

namespace TreeZipper

-- Binary trees with a tag at every node, taken apart at a position: a subtree
-- and the frames above it, the nearest first. Parent pointers are the frames.

inductive Tree (γ α : Type) where
  | nil
  | node (tag : γ) (left : Tree γ α) (key : α) (right : Tree γ α)
deriving DecidableEq, Repr

inductive Side where
  | left
  | right
deriving DecidableEq, Repr

structure Frame (γ α : Type) where
  side : Side
  tag : γ
  key : α
  other : Tree γ α
deriving DecidableEq, Repr

def Frame.close {γ α : Type} (frame : Frame γ α) (child : Tree γ α) : Tree γ α :=
  match frame.side with
  | .left => .node frame.tag child frame.key frame.other
  | .right => .node frame.tag frame.other frame.key child

def plug {γ α : Type} (tree : Tree γ α) : List (Frame γ α) → Tree γ α
  | [] => tree
  | frame :: up => plug (frame.close tree) up

def inorder {γ α : Type} : Tree γ α → List α
  | .nil => []
  | .node _ left key right => inorder left ++ key :: inorder right

-- What stands in front of a position and behind it.
def before {γ α : Type} : List (Frame γ α) → List α
  | [] => []
  | frame :: up => before up ++ match frame.side with
    | .left => []
    | .right => inorder frame.other ++ [frame.key]

def after {γ α : Type} : List (Frame γ α) → List α
  | [] => []
  | frame :: up => (match frame.side with
    | .left => frame.key :: inorder frame.other
    | .right => []) ++ after up

theorem plug_append {γ α : Type} (tree : Tree γ α) (lower upper : List (Frame γ α)) :
    plug tree (lower ++ upper) = plug (plug tree lower) upper := by
  induction lower generalizing tree with
  | nil => rfl
  | cons frame lower ih => exact ih (frame.close tree)

theorem inorder_plug {γ α : Type} (tree : Tree γ α) (path : List (Frame γ α)) :
    inorder (plug tree path) = before path ++ (inorder tree ++ after path) := by
  induction path generalizing tree with
  | nil => simp [plug, before, after]
  | cons frame up ih =>
      rw [plug, ih]
      cases side : frame.side <;> simp [Frame.close, side, before, after, inorder]

theorem inorder_plug_congr {γ α : Type} (tree other : Tree γ α) (path : List (Frame γ α))
    (same : inorder tree = inorder other) : inorder (plug tree path) = inorder (plug other path) := by
  rw [inorder_plug, inorder_plug, same]

theorem before_append {γ α : Type} (lower upper : List (Frame γ α)) :
    before (lower ++ upper) = before upper ++ before lower := by
  induction lower with
  | nil => simp [before]
  | cons frame lower ih => simp [before, ih]

theorem after_append {γ α : Type} (lower upper : List (Frame γ α)) :
    after (lower ++ upper) = after lower ++ after upper := by
  induction lower with
  | nil => rfl
  | cons frame lower ih => simp [after, ih]

-- The walk of every lookup: `go` says where the goal lies from a key.
def descend {γ α : Type} (go : α → Ordering) : Tree γ α → List (Frame γ α) → Tree γ α × List (Frame γ α)
  | .nil, path => (.nil, path)
  | .node tag left key right, path =>
      match go key with
      | .eq => (.node tag left key right, path)
      | .lt => descend go left (⟨.left, tag, key, right⟩ :: path)
      | .gt => descend go right (⟨.right, tag, key, left⟩ :: path)

theorem descend_plug {γ α : Type} (go : α → Ordering) (tree : Tree γ α) (path : List (Frame γ α)) :
    plug (descend go tree path).1 (descend go tree path).2 = plug tree path := by
  induction tree generalizing path with
  | nil => rfl
  | node tag left key right leftIh rightIh =>
      rw [descend]
      cases go key with
      | eq => rfl
      | lt => exact leftIh _
      | gt => exact rightIh _

theorem descend_stops {γ α : Type} (go : α → Ordering) (tree : Tree γ α) (path : List (Frame γ α)) :
    (descend go tree path).1 = .nil ∨
      ∃ tag left key right, (descend go tree path).1 = .node tag left key right ∧ go key = .eq := by
  induction tree generalizing path with
  | nil => exact .inl rfl
  | node tag left key right leftIh rightIh =>
      rw [descend]
      cases here : go key with
      | eq => exact .inr ⟨tag, left, key, right, rfl, here⟩
      | lt => exact leftIh _
      | gt => exact rightIh _

-- Without any order: a walk that no key can stop ends below a leaf.
theorem descend_misses {γ α : Type} (go : α → Ordering) (tree : Tree γ α) (path : List (Frame γ α))
    (absent : ∀ key ∈ inorder tree, go key ≠ .eq) : (descend go tree path).1 = .nil := by
  induction tree generalizing path with
  | nil => rfl
  | node tag left key right leftIh rightIh =>
      rw [descend]
      cases here : go key with
      | eq => exact absurd here (absent key (by simp [inorder]))
      | lt => exact leftIh _ fun other member => absent other (by simp [inorder, member])
      | gt => exact rightIh _ fun other member => absent other (by simp [inorder, member])

-- The goal lies at one place of the list: what is not behind it has all the
-- rest behind it.
def Guides {α : Type} (go : α → Ordering) (keys : List α) : Prop :=
  keys.Pairwise fun a b => go a ≠ .gt → go b = .lt

theorem guides_unique {α : Type} (go : α → Ordering) (keys : List α) (a b : α) (guides : Guides go keys)
    (aMember : a ∈ keys) (bMember : b ∈ keys) (aHere : go a = .eq) (bHere : go b = .eq) : a = b := by
  induction keys with
  | nil => cases aMember
  | cons key keys ih =>
      obtain ⟨beyond, rest⟩ := List.pairwise_cons.mp guides
      have single : ∀ other ∈ keys, go key = .eq → go other ≠ .eq := by
        intro other later here there
        have far := beyond other later (by simp [here])
        rw [there] at far
        cases far
      rcases List.mem_cons.mp aMember with rfl | aLater
      · rcases List.mem_cons.mp bMember with rfl | bLater
        · rfl
        · exact absurd bHere (single b bLater aHere)
      · rcases List.mem_cons.mp bMember with rfl | bLater
        · exact absurd aHere (single a aLater bHere)
        · exact ih rest aLater bLater

structure Narrowed {γ α : Type} (go : α → Ordering) (path : List (Frame γ α)) : Prop where
  behind : ∀ key ∈ before path, go key = .gt
  ahead : ∀ key ∈ after path, go key = .lt

theorem descend_narrows {γ α : Type} (go : α → Ordering) (tree : Tree γ α) (path : List (Frame γ α))
    (guides : Guides go (inorder tree)) (narrowed : Narrowed go path) :
    Narrowed go (descend go tree path).2 := by
  induction tree generalizing path with
  | nil => exact narrowed
  | node tag left key right leftIh rightIh =>
      obtain ⟨leftGuides, rest, across⟩ := List.pairwise_append.mp guides
      obtain ⟨beyond, rightGuides⟩ := List.pairwise_cons.mp rest
      rw [descend]
      cases here : go key with
      | eq => exact narrowed
      | lt =>
          apply leftIh _ leftGuides
          constructor
          · simpa [before] using narrowed.behind
          · intro other member
            simp only [after, List.cons_append, List.mem_cons, List.mem_append] at member
            rcases member with rfl | inside | above
            · exact here
            · exact beyond other inside (by simp [here])
            · exact narrowed.ahead other above
      | gt =>
          apply rightIh _ rightGuides
          constructor
          · intro other member
            simp only [before, List.mem_append, List.mem_singleton] at member
            rcases member with above | inside | rfl
            · exact narrowed.behind other above
            · by_contra near
              have far := across other inside key (by simp) near
              rw [here] at far
              cases far
            · exact here
          · simpa [after] using narrowed.ahead

theorem narrowed_nil {γ α : Type} (go : α → Ordering) : Narrowed go ([] : List (Frame γ α)) where
  behind := by simp [before]
  ahead := by simp [after]

-- A walk from the root meets a key at the goal if there is one.
theorem descend_complete {γ α : Type} (go : α → Ordering) (tree : Tree γ α) (key : α) (guides : Guides go (inorder tree))
    (member : key ∈ inorder tree) (wanted : go key = .eq) :
    ∃ tag left right path, descend go tree [] = (.node tag left key right, path) := by
  have narrowed := descend_narrows go tree [] guides (narrowed_nil go)
  have whole := descend_plug go tree []
  rcases descend_stops go tree [] with missed | ⟨tag, left, found, right, stopped, here⟩
  · rw [plug] at whole
    rw [← whole, inorder_plug, missed] at member
    simp only [inorder, List.nil_append, List.mem_append] at member
    rcases member with behind | ahead
    · rw [narrowed.behind key behind] at wanted
      cases wanted
    · rw [narrowed.ahead key ahead] at wanted
      cases wanted
  · refine ⟨tag, left, right, (descend go tree []).2, ?_⟩
    have same : found = key := by
      apply guides_unique go (inorder tree) found key guides ?_ member here wanted
      rw [plug] at whole
      rw [← whole, inorder_plug, stopped]
      simp [inorder]
    rw [← same, ← stopped]

-- The leftmost node of a tree and the frames that lead to it.
def leftmost {γ α : Type} (tag : γ) (key : α) (right : Tree γ α) :
    Tree γ α → List (Frame γ α) → γ × α × Tree γ α × List (Frame γ α)
  | .nil, path => (tag, key, right, path)
  | .node lowTag left low beside, path => leftmost lowTag low beside left (⟨.left, tag, key, right⟩ :: path)

theorem leftmost_spec {γ α : Type} (tag : γ) (key : α) (right left : Tree γ α) (path : List (Frame γ α))
    (lefts : before path = []) :
    let low := leftmost tag key right left path
    before low.2.2.2 = [] ∧ low.2.1 :: (inorder low.2.2.1 ++ after low.2.2.2) =
      inorder left ++ key :: (inorder right ++ after path) := by
  induction left generalizing tag key right path with
  | nil => exact ⟨lefts, rfl⟩
  | node lowTag far low beside leftIh _ =>
      have step := leftIh lowTag low beside (⟨.left, tag, key, right⟩ :: path) (by simp [before, lefts])
      rw [leftmost]
      refine ⟨step.1, step.2.trans ?_⟩
      simp [inorder, after]

end TreeZipper
