import Facebooc.BlackHeight
import Facebooc.RbTreeOps
import Facebooc.Runs

set_option autoImplicit false

namespace Facebooc

open CMemory Runs TreeZipper

-- Neither the comparison nor the keys play a part in the colours.
def IsBlack (tag : Color) : Prop := tag = .black

abbrev Even {α : Type} (n : Nat) (tree : RbNode α) : Prop := Balanced IsBlack n tree

abbrev Holds {α : Type} (n : Nat) (path : RbPath α) : Prop := Hangs IsBlack False n path

abbrev HoldsRed {α : Type} (n : Nat) (path : RbPath α) : Prop := Hangs IsBlack True n path

structure RedBlack {α : Type} (tree : RbTree α) : Prop where
  inv : RbInv tree
  even : ∃ n, Even n tree.root

theorem black_top {α : Type} (tree : RbNode α) : BlackTop IsBlack tree ↔ color tree = .black := by
  cases tree with
  | nil => exact iff_of_true trivial rfl
  | node tag left key right => exact Iff.rfl

theorem not_black (tag : Color) : ¬ IsBlack tag ↔ tag = .red := by
  cases tag with
  | black => exact iff_of_false (fun other => other rfl) (by decide)
  | red => exact iff_of_true (by rw [IsBlack]; decide) rfl

theorem even_black {α : Type} (n : Nat) (left : RbNode α) (key : α) (right : RbNode α) :
    Even n (.node .black left key right) ↔ ∃ m, n = m + 1 ∧ Even m left ∧ Even m right := by
  rw [Even, TreeZipper.Balanced]
  constructor
  · rintro (⟨_, m, same, lefts, rights⟩ | ⟨other, _⟩)
    · exact ⟨m, same, lefts, rights⟩
    · exact absurd rfl other
  · rintro ⟨m, same, lefts, rights⟩
    exact .inl ⟨rfl, m, same, lefts, rights⟩

theorem even_red {α : Type} (n : Nat) (left : RbNode α) (key : α) (right : RbNode α) :
    Even n (.node .red left key right) ↔ (color left = .black ∧ color right = .black) ∧ Even n left ∧ Even n right := by
  rw [Even, TreeZipper.Balanced]
  constructor
  · rintro (⟨dark, _⟩ | ⟨_, leftTop, rightTop, lefts, rights⟩)
    · cases dark
    · exact ⟨⟨(black_top left).mp leftTop, (black_top right).mp rightTop⟩, lefts, rights⟩
  · rintro ⟨⟨leftTop, rightTop⟩, lefts, rights⟩
    exact .inr ⟨(not_black .red).mpr rfl, (black_top left).mpr leftTop, (black_top right).mpr rightTop, lefts, rights⟩

theorem holds_cons {α : Type} (n : Nat) (frame : Frame Color α) (up : RbPath α) :
    Holds n (frame :: up) ↔ Even n frame.other ∧ ((frame.tag = .black ∧ Holds (n + 1) up) ∨
      (frame.tag = .red ∧ color frame.other = .black ∧ HoldsRed n up)) := by
  rw [Holds, Hangs, black_top, not_black]
  constructor
  · rintro ⟨other, ⟨tag, above⟩ | ⟨tag, _, top, above⟩⟩
    · exact ⟨other, .inl ⟨tag, above⟩⟩
    · exact ⟨other, .inr ⟨tag, top, above⟩⟩
  · rintro ⟨other, ⟨tag, above⟩ | ⟨tag, top, above⟩⟩
    · exact ⟨other, .inl ⟨tag, above⟩⟩
    · exact ⟨other, .inr ⟨tag, fun impossible => impossible, top, above⟩⟩

theorem holds_red_cons {α : Type} (n : Nat) (frame : Frame Color α) (up : RbPath α) :
    HoldsRed n (frame :: up) ↔ Even n frame.other ∧ frame.tag = .black ∧ Holds (n + 1) up := by
  rw [HoldsRed, Hangs]
  constructor
  · rintro ⟨other, ⟨tag, above⟩ | ⟨_, light, _⟩⟩
    · exact ⟨other, tag, above⟩
    · exact absurd trivial light
  · rintro ⟨other, tag, above⟩
    exact ⟨other, .inl ⟨tag, above⟩⟩

theorem holds_weaker {α : Type} (n : Nat) (path : RbPath α) (holds : HoldsRed n path) : Holds n path :=
  hangs_darker IsBlack True False n path (fun _ => trivial) holds

theorem plug_red {α : Type} (tree : RbNode α) (path : RbPath α) (n : Nat) (even : Even n tree) (holds : HoldsRed n path) :
    ∃ m, Even m (plug tree path) :=
  balanced_plug IsBlack tree path n even (hangs_darker IsBlack True _ n path (fun _ => trivial) holds)

theorem plug_black {α : Type} (tree : RbNode α) (path : RbPath α) (n : Nat) (even : Even n tree) (top : color tree = .black)
    (holds : Holds n path) : ∃ m, Even m (plug tree path) :=
  balanced_plug IsBlack tree path n even
    (hangs_darker IsBlack False _ n path (fun light => light ((black_top tree).mpr top)) holds)

theorem even_paint_black {α : Type} (n : Nat) (tree : RbNode α) (even : Even n tree) : ∃ m, Even m (paint .black tree) := by
  cases tree with
  | nil => exact ⟨n, even⟩
  | node tag left key right =>
      cases tag with
      | black => exact ⟨n, even⟩
      | red =>
          obtain ⟨_, lefts, rights⟩ := (even_red n left key right).mp even
          exact ⟨n + 1, (even_black _ left key right).mpr ⟨n, rfl, lefts, rights⟩⟩

theorem close_even_black {α : Type} (n : Nat) (frame : Frame Color α) (child : RbNode α) (below : Even n child)
    (other : Even n frame.other) : Even (n + 1) ((paintParent .black frame).close child) := by
  cases side : frame.side <;> simp only [paintParent, Frame.close, side]
  · exact (even_black _ _ _ _).mpr ⟨n, rfl, below, other⟩
  · exact (even_black _ _ _ _).mpr ⟨n, rfl, other, below⟩

theorem close_even_red {α : Type} (n : Nat) (frame : Frame Color α) (child : RbNode α) (below : Even n child)
    (other : Even n frame.other) (top : color child = .black) (otherTop : color frame.other = .black) :
    Even n ((paintParent .red frame).close child) := by
  cases side : frame.side <;> simp only [paintParent, Frame.close, side]
  · exact (even_red _ _ _ _).mpr ⟨⟨top, otherTop⟩, below, other⟩
  · exact (even_red _ _ _ _).mpr ⟨⟨otherTop, top⟩, other, below⟩

theorem even_painted_red {α : Type} (n : Nat) (tree : RbNode α) (even : Even n tree) (red : color tree = .red) :
    Even (n + 1) (paint .black tree) := by
  cases tree with
  | nil => cases red
  | node tag left key right =>
      cases red
      obtain ⟨_, lefts, rights⟩ := (even_red n left key right).mp even
      exact (even_black _ left key right).mpr ⟨n, rfl, lefts, rights⟩

-- The two rotations put the black grandparent's colour on top of two red nodes.
theorem rotations_even {α : Type} (n : Nat) (node turned top : RbNode α) (parent grandparent : Frame Color α)
    (even : Even n node) (red : color node = .red) (parentRed : parent.tag = .red) (other : Even n parent.other)
    (otherTop : color parent.other = .black)
    (uncle : Even n grandparent.other) (uncleTop : color grandparent.other = .black)
    (turn : turnInner grandparent.side parent node = .ok turned)
    (raise : rotateAway grandparent.side ((paintParent .red grandparent).close (paint .black turned)) = .ok top) :
    Even (n + 1) top ∧ color top = .black := by
  obtain ⟨side, tag, key, uncleTree⟩ := grandparent
  obtain ⟨inner, parentTag, parentKey, beside⟩ := parent
  cases parentRed
  cases node with
  | nil => cases red
  | node nodeTag left nodeKey right =>
      cases red
      obtain ⟨⟨leftTop, rightTop⟩, lefts, rights⟩ := (even_red n left nodeKey right).mp even
      have pair : ∀ (a b c d : RbNode α) (low mid high : α), Even n a ∧ Even n b ∧ Even n c ∧ Even n d →
          color a = .black ∧ color b = .black ∧ color c = .black ∧ color d = .black →
          Even (n + 1) (.node .black (.node .red a low b) mid (.node .red c high d)) := by
        intro a b c d low mid high evens tops
        exact (even_black _ _ _ _).mpr ⟨n, rfl, (even_red _ _ _ _).mpr ⟨⟨tops.1, tops.2.1⟩, evens.1, evens.2.1⟩,
          (even_red _ _ _ _).mpr ⟨tops.2.2, evens.2.2⟩⟩
      cases side <;> cases inner <;> cases turn <;> cases raise
      · exact ⟨pair left right beside uncleTree _ _ _ ⟨lefts, rights, other, uncle⟩
        ⟨leftTop, rightTop, otherTop, uncleTop⟩, rfl⟩
      · exact ⟨pair beside left right uncleTree _ _ _ ⟨other, lefts, rights, uncle⟩
        ⟨otherTop, leftTop, rightTop, uncleTop⟩, rfl⟩
      · exact ⟨pair uncleTree left right beside _ _ _ ⟨uncle, lefts, rights, other⟩
        ⟨uncleTop, leftTop, rightTop, otherTop⟩, rfl⟩
      · exact ⟨pair uncleTree beside left right _ _ _ ⟨uncle, other, lefts, rights⟩
        ⟨uncleTop, otherTop, leftTop, rightTop⟩, rfl⟩

-- A red node below a red parent, the only fault, goes up until it is gone.
theorem insert_fixup_even {α : Type} (node : RbNode α) (path : RbPath α) (n : Nat) (even : Even n node)
    (red : color node = .red) (holds : Holds n path) (root : RbNode α) (done : rbtreeInsertFixup node path = .ok root) :
    ∃ m, Even m root := by
  induction node, path using rbtreeInsertFixup.induct generalizing n with
  | case1 node =>
      rw [rbtreeInsertFixup] at done
      cases done
      exact even_paint_black n node even
  | case2 node parent parentRed =>
      rw [rbtreeInsertFixup, if_pos parentRed] at done
      cases done
  | case3 node parent parentBlack =>
      rw [rbtreeInsertFixup, if_neg parentBlack] at done
      cases done
      obtain ⟨other, ⟨tag, above⟩ | ⟨tag, _⟩⟩ := (holds_cons n parent []).mp holds
      · obtain ⟨m, whole⟩ := plug_red node [parent] n even ((holds_red_cons n parent []).mpr ⟨other, tag, above⟩)
        exact even_paint_black m _ whole
      · exact absurd tag parentBlack
  | case4 node parent grandparent up parentBlack =>
      rw [rbtreeInsertFixup, if_pos parentBlack] at done
      cases done
      obtain ⟨other, ⟨tag, above⟩ | ⟨tag, _⟩⟩ := (holds_cons n parent _).mp holds
      · obtain ⟨m, whole⟩ := plug_red node _ n even ((holds_red_cons n parent _).mpr ⟨other, tag, above⟩)
        exact even_paint_black m _ whole
      · rw [parentBlack] at tag
        cases tag
  | case5 node parent grandparent up parentRed uncleRed ih =>
      -- A red uncle: the grandparent becomes the red node.
      rw [rbtreeInsertFixup, if_neg parentRed, if_pos uncleRed] at done
      obtain ⟨other, ⟨tag, _⟩ | ⟨tag, top, above⟩⟩ := (holds_cons n parent _).mp holds
      · exact absurd tag parentRed
      · obtain ⟨uncle, _, higher⟩ := (holds_red_cons n grandparent up).mp above
        have lower := close_even_black n parent node even other
        have raised := close_even_red (n + 1) (paintOther .black grandparent) _ lower (even_painted_red n _ uncle uncleRed)
          (color_close _ _) (color_paint_black _)
        exact ih (n + 1) raised (color_close _ _) higher done
  | case6 node parent grandparent up parentRed uncleBlack =>
      -- A black uncle: the rotations are the last round.
      rw [rbtreeInsertFixup, if_neg parentRed, if_neg uncleBlack] at done
      obtain ⟨turned, turn, done⟩ := (except_bind_ok _ _ _).mp done
      obtain ⟨top, raise, done⟩ := (except_bind_ok _ _ _).mp done
      cases done
      obtain ⟨other, ⟨tag, _⟩ | ⟨tag, otherTop, above⟩⟩ := (holds_cons n parent _).mp holds
      · exact absurd tag parentRed
      · obtain ⟨uncle, _, higher⟩ := (holds_red_cons n grandparent up).mp above
        have uncleTop : color grandparent.other = .black := by
          cases tag : color grandparent.other with
          | black => rfl
          | red => exact absurd tag uncleBlack
        obtain ⟨topEven, topBlack⟩ :=
          rotations_even n node turned top parent grandparent even red tag other otherTop uncle uncleTop turn raise
        obtain ⟨m, whole⟩ := plug_black top up (n + 1) topEven topBlack higher
        exact even_paint_black m _ whole

theorem even_not_nil {α : Type} (n : Nat) (tree : RbNode α) (even : Even (n + 1) tree) : tree ≠ .nil := by
  rintro rfl
  exact absurd (even : n + 1 = 0) (Nat.succ_ne_zero n)

theorem even_children {α : Type} (n : Nat) (left : RbNode α) (key : α) (right : RbNode α)
    (even : Even (n + 1) (.node .black left key right)) : Even n left ∧ Even n right := by
  obtain ⟨m, same, lefts, rights⟩ := (even_black _ left key right).mp even
  cases same
  exact ⟨lefts, rights⟩

theorem some_child_red {α : Type} (left : RbNode α) (key : α) (right : RbNode α)
    (someRed : siblingBlack (.node .black left key right) = false) : color left = .red ∨ color right = .red := by
  change (Color.black == .black && color left == .black && color right == .black) = false at someRed
  cases leftTag : color left with
  | red => exact .inl rfl
  | black =>
      cases rightTag : color right with
      | red => exact .inr rfl
      | black =>
          rw [leftTag, rightTag] at someRed
          cases someRed

-- What the rotations behind the loop are given: a black sibling with a red
-- child. The outer child of the new sibling is painted black.
theorem turn_sibling_even {α : Type} (n : Nat) (side : Side) (left right turned : RbNode α) (key : α)
    (lefts : Even n left) (rights : Even n right) (someRed : siblingBlack (.node .black left key right) = false)
    (turn : turnSibling side (.node .black left key right) = .ok turned) :
    ∃ inner siblingKey outer, Even n inner ∧ Even (n + 1) outer ∧ color outer = .black ∧ ∀ tag parentKey,
      rotateParent ⟨side, .black, parentKey, paintOuter side tag turned⟩ =
        .ok [⟨side, .black, parentKey, inner⟩, ⟨side, tag, siblingKey, outer⟩] := by
  have rotated : ∀ far : RbNode α, color far = .red → Even n far → Even (n + 1) (paint .black far) ∧
      color (paint .black far) = .black := fun far red even => ⟨even_painted_red n far even red, color_paint_black far⟩
  cases side with
  | left =>
      cases outerTag : color right with
      | red =>
          rw [turnSibling, if_neg (by simp [rightChild, outerTag])] at turn
          cases turn
          have outer := rotated right outerTag rights
          exact ⟨left, key, paint .black right, lefts, outer.1, outer.2, fun tag parentKey => rfl⟩
      | black =>
          -- Only the inner child is red, and is rotated to the outer side.
          have innerTag := (some_child_red left key right someRed).resolve_right (by rw [outerTag]; decide)
          rw [turnSibling, if_pos ⟨rfl, innerTag, outerTag⟩] at turn
          cases left with
          | nil => cases innerTag
          | node tag far low near =>
              cases innerTag
              cases turn
              obtain ⟨_, fars, nears⟩ := (even_red n far low near).mp lefts
              exact ⟨far, low, .node .black near key right, fars, (even_black _ _ _ _).mpr ⟨n, rfl, nears, rights⟩, rfl,
                fun tag parentKey => rfl⟩
  | right =>
      cases outerTag : color left with
      | red =>
          rw [turnSibling, if_neg (by simp [leftChild, outerTag])] at turn
          cases turn
          have outer := rotated left outerTag lefts
          exact ⟨right, key, paint .black left, rights, outer.1, outer.2, fun tag parentKey => rfl⟩
      | black =>
          have innerTag := (some_child_red left key right someRed).resolve_left (by rw [outerTag]; decide)
          rw [turnSibling, if_pos ⟨rfl, innerTag, outerTag⟩] at turn
          cases right with
          | nil => cases innerTag
          | node tag near low far =>
              cases innerTag
              cases turn
              obtain ⟨_, nears, fars⟩ := (even_red n near low far).mp rights
              exact ⟨far, low, .node .black left key near, fars, (even_black _ _ _ _).mpr ⟨n, rfl, lefts, nears⟩, rfl,
                fun tag parentKey => rfl⟩

-- The child is one black node short of what its place asks for.
theorem delete_settle_even {α : Type} (n : Nat) (child : RbNode α) (parent : Frame Color α) (up : RbPath α) (root : RbNode α)
    (even : Even n child) (holds : Holds (n + 1) (parent :: up)) (black : color parent.other = .black)
    (unbalanced : parent.tag = .red ∨ siblingBlack parent.other = false)
    (done : rbtreeDeleteSettle child parent up = .ok root) : ∃ m, Even m root := by
  obtain ⟨side, tag, key, other⟩ := parent
  obtain ⟨others, above⟩ := (holds_cons (n + 1) _ up).mp holds
  cases other with
  | nil => exact absurd rfl (even_not_nil n .nil others)
  | node siblingTag left siblingKey right =>
      cases black
      obtain ⟨lefts, rights⟩ := even_children n left siblingKey right others
      rw [rbtreeDeleteSettle] at done
      by_cases recolor : tag = .red ∧ siblingBlack (.node .black left siblingKey right)
      · rw [if_pos recolor] at done
        cases done
        obtain ⟨rfl, tops⟩ := recolor
        simp only [siblingBlack, leftChild, rightChild, Bool.and_eq_true, beq_iff_eq] at tops
        have painted : Even n (.node .red left siblingKey right) := (even_red _ _ _ _).mpr ⟨⟨tops.1.2, tops.2⟩, lefts, rights⟩
        have closed := close_even_black n ⟨side, .red, key, .node .red left siblingKey right⟩ child even painted
        rcases above with ⟨tag, _⟩ | ⟨_, _, higher⟩
        · cases tag
        · exact plug_black _ up (n + 1) closed (color_close _ _) (holds_weaker _ _ higher)
      · rw [if_neg recolor] at done
        have someRed : siblingBlack (.node .black left siblingKey right) = false := by
          rcases unbalanced with red | some
          · exact Bool.eq_false_iff.mpr fun all => recolor ⟨red, all⟩
          · exact some
        obtain ⟨turned, turn, done⟩ := (except_bind_ok _ _ _).mp done
        obtain ⟨inner, newKey, outer, inners, outers, top, rotate⟩ :=
          turn_sibling_even n side left right turned siblingKey lefts rights someRed turn
        obtain ⟨frames, rotated, done⟩ := (except_bind_ok _ _ _).mp done
        cases (rotate tag key).symm.trans rotated
        cases done
        have lower := close_even_black n ⟨side, .black, key, inner⟩ child even inners
        refine plug_black _ (⟨side, tag, newKey, outer⟩ :: up) (n + 1) lower (color_close _ _)
          ((holds_cons _ _ _).mpr ⟨outers, ?_⟩)
        rcases above with dark | ⟨light, _, higher⟩
        · exact .inl dark
        · exact .inr ⟨light, top, higher⟩

theorem delete_fixup_even {α : Type} (n : Nat) (child : RbNode α) (path : RbPath α) (root : RbNode α) (even : Even n child)
    (black : color child = .black) (holds : Holds (n + 1) path) (done : rbtreeDeleteFixup child path = .ok root) :
    ∃ m, Even m root := by
  induction path generalizing child n with
  | nil =>
      cases done
      exact ⟨n, even⟩
  | cons parent up ih =>
      obtain ⟨others, above⟩ := (holds_cons (n + 1) parent up).mp holds
      rw [rbtreeDeleteFixup] at done
      by_cases siblingRed : color parent.other = .red
      · rw [if_pos siblingRed] at done
        obtain ⟨side, tag, key, other⟩ := parent
        rcases above with ⟨tagBlack, higher⟩ | ⟨_, top, _⟩
        · cases other with
          | nil => cases siblingRed
          | node siblingTag left siblingKey right =>
              cases siblingRed
              obtain ⟨⟨leftTop, rightTop⟩, lefts, rights⟩ := (even_red _ left siblingKey right).mp others
              -- The new parent is red, and its sibling is black.
              cases side with
              | left =>
                  have lower : Holds (n + 1) (⟨.left, .red, key, left⟩ :: ⟨.left, .black, siblingKey, right⟩ :: up) :=
                    (holds_cons _ _ _).mpr ⟨lefts, .inr ⟨rfl, leftTop, (holds_red_cons _ _ _).mpr ⟨rights, rfl, higher⟩⟩⟩
                  exact delete_settle_even n child _ _ root even lower leftTop (.inl rfl) done
              | right =>
                  have lower : Holds (n + 1) (⟨.right, .red, key, right⟩ :: ⟨.right, .black, siblingKey, left⟩ :: up) :=
                    (holds_cons _ _ _).mpr ⟨rights, .inr ⟨rfl, rightTop, (holds_red_cons _ _ _).mpr ⟨lefts, rfl, higher⟩⟩⟩
                  exact delete_settle_even n child _ _ root even lower rightTop (.inl rfl) done
        · rw [siblingRed] at top
          cases top
      · rw [if_neg siblingRed] at done
        have siblingTop : color parent.other = .black := by
          cases tag : color parent.other with
          | black => rfl
          | red => exact absurd tag siblingRed
        by_cases goUp : parent.tag = .black ∧ siblingBlack parent.other
        · rw [if_pos goUp] at done
          -- The sibling gives up its black too, and the missing one is the parent's.
          obtain ⟨side, tag, key, other⟩ := parent
          cases other with
          | nil => exact absurd rfl (even_not_nil n .nil others)
          | node siblingTag left siblingKey right =>
              cases siblingTop
              obtain ⟨rfl, tops⟩ := goUp
              simp only [siblingBlack, leftChild, rightChild, Bool.and_eq_true, beq_iff_eq] at tops
              obtain ⟨lefts, rights⟩ := even_children n left siblingKey right others
              have painted : Even n (.node .red left siblingKey right) :=
                (even_red _ _ _ _).mpr ⟨⟨tops.1.2, tops.2⟩, lefts, rights⟩
              have closed := close_even_black n ⟨side, .black, key, .node .red left siblingKey right⟩ child even painted
              rcases above with ⟨_, higher⟩ | ⟨tag, _⟩
              · exact ih (n + 1) _ closed (color_close _ _) higher done
              · cases tag
        · rw [if_neg goUp] at done
          apply delete_settle_even n child parent up root even holds siblingTop ?_ done
          cases tag : parent.tag with
          | red => exact .inl rfl
          | black => exact .inr (Bool.eq_false_iff.mpr fun all => goUp ⟨tag, all⟩)

-- The node that is unlinked has the colours of its place, and what is above it
-- does too.
theorem swap_smallest_even {α : Type} (tag : Color) (left : RbNode α) (own : α) (right : RbNode α) (path : RbPath α) (n : Nat)
    (even : Even n (plug (.node tag left own right) path)) :
    ∃ low lefts rights above m, rbtreeSwapSmallest (.node tag left own right) path = (.node low lefts own rights, above) ∧
      Even m (.node low lefts own rights) ∧ Hangs IsBlack (¬ IsBlack low) m above := by
  obtain ⟨k, here, hangs⟩ := balanced_unplug IsBlack _ path n even
  cases left with
  | nil => exact ⟨tag, _, _, path, k, rfl, here, hangs⟩
  | node leftTag leftLeft leftKey leftRight =>
      cases right with
      | nil => exact ⟨tag, _, _, path, k, rfl, here, hangs⟩
      | node rightTag rightLeft rightKey rightRight =>
          have smallest := fun j => leftmost_hangs IsBlack rightTag rightKey rightRight rightLeft []
            (⟨.right, tag, (leftmost rightTag rightKey rightRight rightLeft []).2.1,
              .node leftTag leftLeft leftKey leftRight⟩ :: path) j
          rcases here with ⟨dark, j, rfl, lefts, rights⟩ | ⟨light, leftTop, rightTop, lefts, rights⟩
          · obtain ⟨m, low, above⟩ := smallest j rights ⟨lefts, .inl ⟨dark, hangs_darker IsBlack _ _ _ _ False.elim hangs⟩⟩
            exact ⟨_, _, _, _, m, rfl, low own, above⟩
          · obtain ⟨m, low, above⟩ := smallest k rights
              ⟨lefts, .inr ⟨light, fun red => red rightTop, leftTop, hangs_darker IsBlack _ _ _ _ (fun _ => light) hangs⟩⟩
            exact ⟨_, _, _, _, m, rfl, low own, above⟩

-- The only child stands for both, and weighs nothing.
theorem only_child_even {α : Type} (left : RbNode α) (key : α) (right : RbNode α) (tag : Color)
    (single : left = .nil ∨ right = .nil) :
    (∀ m, Even m left → Even m right → m = 0 ∧ Even 0 (onlyChild (.node tag left key right))) ∧
      (color left = .black → color right = .black → color (onlyChild (.node tag left key right)) = .black) := by
  rcases single with rfl | rfl
  · refine ⟨fun m lefts rights => ?_, fun _ top => top⟩
    cases (lefts : m = 0)
    exact ⟨rfl, rights⟩
  · have child : onlyChild (.node tag left key .nil) = left := by cases left <;> rfl
    rw [child]
    refine ⟨fun m lefts rights => ?_, fun top _ => top⟩
    cases (rights : m = 0)
    exact ⟨rfl, lefts⟩

theorem unlink_even {α : Type} (tag : Color) (left : RbNode α) (key : α) (right : RbNode α) (path : RbPath α) (n : Nat)
    (root : RbNode α) (single : left = .nil ∨ right = .nil) (even : Even n (.node tag left key right))
    (hangs : Hangs IsBlack (¬ IsBlack tag) n path) (done : rbtreeUnlink (.node tag left key right) path = .ok root) :
    ∃ m, Even m root := by
  obtain ⟨light, dark⟩ := only_child_even left key right tag single
  have own : color (.node tag left key right) = tag := rfl
  rw [rbtreeUnlink, own] at done
  cases tag with
  | red =>
      obtain ⟨⟨leftTop, rightTop⟩, lefts, rights⟩ := (even_red n left key right).mp even
      obtain ⟨rfl, child⟩ := light n lefts rights
      rw [if_pos rfl] at done
      cases done
      apply plug_black _ path 0 child (dark leftTop rightTop)
      exact hangs_darker IsBlack _ False 0 path False.elim hangs
  | black =>
      obtain ⟨m, rfl, lefts, rights⟩ := (even_black n left key right).mp even
      obtain ⟨rfl, child⟩ := light m lefts rights
      have holds : Holds 1 path := hangs_darker IsBlack _ False 1 path False.elim hangs
      rw [if_neg (by decide)] at done
      cases childTag : color (onlyChild (.node .black left key right)) with
      | red =>
          rw [if_pos childTag] at done
          cases done
          exact plug_black _ path 1 (even_painted_red 0 _ child childTag) (color_paint_black _) holds
      | black =>
          rw [if_neg (by rw [childTag]; decide)] at done
          exact delete_fixup_even 0 _ path root child childTag holds done

theorem red_black_init {α : Type} : RedBlack (rbtreeInit : RbTree α) where
  inv := rb_inv_init
  even := ⟨0, rfl⟩

theorem insert_red_black {α : Type} (cmp : α → α → Int) (tree : RbTree α) (data : α) (valid : RedBlack tree) :
    ∃ next stored, rbtreeInsert cmp tree data = .ok (next, stored) ∧ RedBlack next := by
  rcases insert_spec cmp tree data valid.inv with ⟨run, _⟩ | ⟨next, _, _, run, placed⟩
  · exact ⟨tree, none, run, valid⟩
  · refine ⟨next, some data, run, placed.inv, ?_⟩
    obtain ⟨n, even⟩ := valid.even
    have place := insert_place_descend cmp data tree.root []
    have whole := descend_plug (fun key => orient (cmp data key)) tree.root []
    rw [rbtreeInsert, place] at run
    generalize descend (fun key => orient (cmp data key)) tree.root [] = walk at run whole
    obtain ⟨node, path⟩ := walk
    cases node with
    | node tag left key right => cases run
    | nil =>
        obtain ⟨root, done, same⟩ := (except_bind_ok _ _ _).mp run
        cases same
        rw [plug] at whole
        rw [← whole] at even
        obtain ⟨m, zero, hangs⟩ := balanced_unplug IsBlack .nil path n even
        cases (zero : m = 0)
        have fresh : Even 0 (.node .red .nil data .nil) := (even_red _ _ _ _).mpr ⟨⟨rfl, rfl⟩, rfl, rfl⟩
        exact insert_fixup_even _ path 0 fresh rfl (hangs_darker IsBlack _ False 0 path False.elim hangs) root done

theorem delete_red_black {α : Type} (cmp : α → α → Int) (tree : RbTree α) (key : α) (valid : RedBlack tree) :
    ∃ next deleted, rbtreeDelete cmp tree key = .ok (next, deleted) ∧ RedBlack next := by
  rcases delete_spec cmp tree key valid.inv with ⟨run, _⟩ | ⟨next, gone, _, _, run, _, inv, _⟩
  · exact ⟨tree, none, run, valid⟩
  · refine ⟨next, some gone, run, inv, ?_⟩
    obtain ⟨n, even⟩ := valid.even
    have search := search_descend cmp tree key
    have whole := descend_plug (fun own => orient (cmp key own)) tree.root []
    rw [rbtreeDelete, search] at run
    generalize descend (fun own => orient (cmp key own)) tree.root [] = walk at run whole
    obtain ⟨node, path⟩ := walk
    cases node with
    | nil => cases run
    | node tag left found right =>
        obtain ⟨root, done, same⟩ := (except_bind_ok _ _ _).mp run
        cases same
        rw [plug] at whole
        rw [← whole] at even
        obtain ⟨low, lefts, rights, above, m, place, here, hangs⟩ := swap_smallest_even tag left gone right path n even
        have single := (swap_smallest_spec tag left gone right path).1
        rw [place] at done single
        exact unlink_even low lefts gone rights above m root single here hangs done

-- Runs of insertions and deletions.
inductive RbCall (α : Type) where
  | insert (data : α)
  | delete (key : α)

def rbCall {α : Type} (cmp : α → α → Int) (tree : RbTree α) : RbCall α → Except Fault (RbTree α)
  | .insert data => (rbtreeInsert cmp tree data).map Prod.fst
  | .delete key => (rbtreeDelete cmp tree key).map Prod.fst

def rbNext {α : Type} (cmp : α → α → Int) (state : Except Fault (RbTree α)) (call : RbCall α) : Except Fault (RbTree α) :=
  state.bind fun tree => rbCall cmp tree call

theorem call_red_black {α : Type} (cmp : α → α → Int) (tree : RbTree α) (call : RbCall α) (valid : RedBlack tree) :
    ∃ next, rbCall cmp tree call = .ok next ∧ RedBlack next := by
  cases call with
  | insert data =>
      obtain ⟨next, stored, run, kept⟩ := insert_red_black cmp tree data valid
      exact ⟨next, by rw [rbCall, run]; rfl, kept⟩
  | delete key =>
      obtain ⟨next, deleted, run, kept⟩ := delete_red_black cmp tree key valid
      exact ⟨next, by rw [rbCall, run]; rfl, kept⟩

-- What every call keeps, and that no call fails.
theorem rb_run_induct {α : Type} (cmp : α → α → Int) (inv : List (RbCall α) → RbTree α → Prop) (start : inv [] rbtreeInit)
    (kept : ∀ past tree call, inv past tree → ∃ next, rbCall cmp tree call = .ok next ∧ inv (past ++ [call]) next)
    (calls : List (RbCall α)) : ∃ tree, run (rbNext cmp) (.ok rbtreeInit) calls = .ok tree ∧ inv calls tree := by
  refine history_invariant (rbNext cmp) (fun _ _ => True) (fun past state => ∃ tree, state = .ok tree ∧ inv past tree) _
    ⟨_, rfl, start⟩ ?_ calls (along_true _ _ _)
  rintro past state call ⟨tree, rfl, valid⟩ _
  exact kept past tree call valid

theorem rb_run_balanced {α : Type} (cmp : α → α → Int) (calls : List (RbCall α)) :
    ∃ tree, run (rbNext cmp) (.ok rbtreeInit) calls = .ok tree ∧ RedBlack tree :=
  rb_run_induct cmp (fun _ => RedBlack) red_black_init (fun _ tree call => call_red_black cmp tree call) calls

-- How far a search or an insertion goes down.
structure Shallow {α : Type} (cmp : α → α → Int) (tree : RbTree α) : Prop where
  height : height tree.root ≤ 2 * Nat.log 2 (tree.count + 1)
  search : ∀ key node path, rbtreeSearch cmp tree key = some (node, path) → path.length < 2 * Nat.log 2 (tree.count + 1)
  insert : ∀ data path, rbtreeInsertPlace cmp data tree.root [] = some path → path.length ≤ 2 * Nat.log 2 (tree.count + 1)

theorem red_black_shallow {α : Type} (cmp : α → α → Int) (tree : RbTree α) (valid : RedBlack tree) : Shallow cmp tree := by
  obtain ⟨n, even⟩ := valid.even
  have tall := balanced_height IsBlack tree.root n even ((black_top tree.root).mpr valid.inv.black)
  rw [← valid.inv.counted] at tall
  refine ⟨tall, ?_, ?_⟩
  · intro key node path found
    have walk := (descend_height (fun own => orient (cmp key own)) tree.root ([] : RbPath α)).2
    rw [search_descend] at found
    generalize descend (fun own => orient (cmp key own)) tree.root [] = stop at found walk
    obtain ⟨last, above⟩ := stop
    cases last with
    | nil => cases found
    | node tag left own right =>
        cases found
        have inside := walk (fun missing => by cases missing)
        simp only [List.length_nil] at inside
        omega
  · intro data path placed
    have walk := (descend_height (fun own => orient (cmp data own)) tree.root ([] : RbPath α)).1
    rw [insert_place_descend] at placed
    generalize descend (fun own => orient (cmp data own)) tree.root [] = stop at placed walk
    obtain ⟨last, above⟩ := stop
    cases last with
    | node tag left own right => cases placed
    | nil =>
        cases placed
        simp only [List.length_nil] at walk
        omega

theorem rb_run_shallow {α : Type} (cmp : α → α → Int) (calls : List (RbCall α)) :
    ∃ tree, run (rbNext cmp) (.ok rbtreeInit) calls = .ok tree ∧ Shallow cmp tree := by
  obtain ⟨tree, ran, valid⟩ :=
    rb_run_induct cmp (fun _ => RedBlack) red_black_init (fun _ tree call => call_red_black cmp tree call) calls
  exact ⟨tree, ran, red_black_shallow cmp tree valid⟩

end Facebooc
