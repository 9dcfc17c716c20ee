import Facebooc.TreeZipper
import Mathlib.Algebra.Group.Nat.Defs
import Mathlib.Data.Nat.Log

set_option autoImplicit false

namespace TreeZipper

section

variable {γ α : Type} (black : γ → Prop)

def BlackTop : Tree γ α → Prop
  | .nil => True
  | .node tag _ _ _ => black tag

-- Every way down passes the same number of black tags, and no two others in a
-- row.
def Balanced : Nat → Tree γ α → Prop
  | n, .nil => n = 0
  | n, .node tag left _ right =>
      (black tag ∧ ∃ m, n = m + 1 ∧ Balanced m left ∧ Balanced m right) ∨
      (¬ black tag ∧ BlackTop black left ∧ BlackTop black right ∧ Balanced n left ∧ Balanced n right)

-- The same of the frames above a hole for a tree of a given black height, whose
-- top may be `light`.
def Hangs : Prop → Nat → List (Frame γ α) → Prop
  | _, _, [] => True
  | light, n, frame :: up =>
      Balanced black n frame.other ∧
      ((black frame.tag ∧ Hangs False (n + 1) up) ∨
       (¬ black frame.tag ∧ ¬ light ∧ BlackTop black frame.other ∧ Hangs True n up))

def height : Tree γ α → Nat
  | .nil => 0
  | .node _ left _ right => max (height left) (height right) + 1

theorem hangs_darker (light darker : Prop) (n : Nat) (path : List (Frame γ α)) (weaker : darker → light)
    (hangs : Hangs black light n path) : Hangs black darker n path := by
  cases path with
  | nil => trivial
  | cons frame up =>
      obtain ⟨other, dark | ⟨tag, notLight, top, above⟩⟩ := hangs
      · exact ⟨other, .inl dark⟩
      · exact ⟨other, .inr ⟨tag, fun dark => notLight (weaker dark), top, above⟩⟩

theorem balanced_plug (tree : Tree γ α) (path : List (Frame γ α)) (n : Nat) (balanced : Balanced black n tree)
    (hangs : Hangs black (¬ BlackTop black tree) n path) : ∃ m, Balanced black m (plug tree path) := by
  induction path generalizing tree n with
  | nil => exact ⟨n, balanced⟩
  | cons frame up ih =>
      obtain ⟨other, ⟨tag, above⟩ | ⟨tag, top, otherTop, above⟩⟩ := hangs
      · apply ih (frame.close tree) (n + 1)
        · cases side : frame.side <;> simp only [Frame.close, side, Balanced]
          · exact .inl ⟨tag, n, rfl, balanced, other⟩
          · exact .inl ⟨tag, n, rfl, other, balanced⟩
        · apply hangs_darker black False _ _ _ _ above
          cases side : frame.side <;> simp [Frame.close, side, BlackTop, tag]
      · have dark := Classical.not_not.mp top
        apply ih (frame.close tree) n
        · cases side : frame.side <;> simp only [Frame.close, side, Balanced]
          · exact .inr ⟨tag, dark, otherTop, balanced, other⟩
          · exact .inr ⟨tag, otherTop, dark, other, balanced⟩
        · exact hangs_darker black True _ _ _ (fun _ => trivial) above

theorem balanced_unplug (tree : Tree γ α) (path : List (Frame γ α)) (m : Nat) (balanced : Balanced black m (plug tree path)) :
    ∃ n, Balanced black n tree ∧ Hangs black (¬ BlackTop black tree) n path := by
  induction path generalizing tree with
  | nil => exact ⟨m, balanced, trivial⟩
  | cons frame up ih =>
      obtain ⟨k, whole, above⟩ := ih (frame.close tree) balanced
      cases side : frame.side with
      | left =>
          simp only [Frame.close, side, Balanced, BlackTop] at whole above
          rcases whole with ⟨tag, n, rfl, here, other⟩ | ⟨tag, top, otherTop, here, other⟩
          · exact ⟨n, here, other, .inl ⟨tag, hangs_darker black _ _ _ _ False.elim above⟩⟩
          · exact ⟨k, here, other, .inr ⟨tag, fun light => light top, otherTop,
            hangs_darker black _ _ _ _ (fun _ => tag) above⟩⟩
      | right =>
          simp only [Frame.close, side, Balanced, BlackTop] at whole above
          rcases whole with ⟨tag, n, rfl, other, here⟩ | ⟨tag, otherTop, top, other, here⟩
          · exact ⟨n, here, other, .inl ⟨tag, hangs_darker black _ _ _ _ False.elim above⟩⟩
          · exact ⟨k, here, other, .inr ⟨tag, fun light => light top, otherTop,
            hangs_darker black _ _ _ _ (fun _ => tag) above⟩⟩

-- Trees that differ in one key only: the shape decides.
theorem leftmost_hangs (tag : γ) (key : α) (right left : Tree γ α) (inner outer : List (Frame γ α)) (n : Nat)
    (balanced : Balanced black n (.node tag left key right)) (hangs : Hangs black (¬ black tag) n (inner ++ outer)) :
    let low := leftmost tag key right left inner
    ∃ m, (∀ other, Balanced black m (.node low.1 .nil other low.2.2.1)) ∧
      Hangs black (¬ black low.1) m (low.2.2.2 ++ outer) := by
  induction left generalizing tag key right inner n with
  | nil => exact ⟨n, fun _ => balanced, hangs⟩
  | node lowTag far low beside leftIh _ =>
      rw [leftmost]
      rcases balanced with ⟨dark, m, rfl, below, other⟩ | ⟨light, top, otherTop, below, other⟩
      · apply leftIh lowTag low beside (⟨.left, tag, key, right⟩ :: inner) m below
        exact ⟨other, .inl ⟨dark, hangs_darker black _ _ _ _ False.elim hangs⟩⟩
      · apply leftIh lowTag low beside (⟨.left, tag, key, right⟩ :: inner) n below
        exact ⟨other, .inr ⟨light, fun darker => darker top, otherTop, hangs_darker black _ _ _ _ (fun _ => light) hangs⟩⟩

theorem height_bound (tree : Tree γ α) (n : Nat) (balanced : Balanced black n tree) :
    height tree ≤ 2 * n + 1 ∧ (BlackTop black tree → height tree ≤ 2 * n) := by
  induction tree generalizing n with
  | nil => exact ⟨Nat.zero_le _, fun _ => Nat.zero_le _⟩
  | node tag left key right leftIh rightIh =>
      rw [height]
      rcases balanced with ⟨dark, m, rfl, below, other⟩ | ⟨light, top, otherTop, below, other⟩
      · have lower := (leftIh m below).1
        have beside := (rightIh m other).1
        omega
      · have lower := (leftIh n below).2 top
        have beside := (rightIh n other).2 otherTop
        exact ⟨by omega, fun dark => absurd dark light⟩

theorem size_bound (tree : Tree γ α) (n : Nat) (balanced : Balanced black n tree) : 2 ^ n ≤ (inorder tree).length + 1 := by
  induction tree generalizing n with
  | nil =>
      rw [(balanced : n = 0)]
      exact Nat.le_refl 1
  | node tag left key right leftIh rightIh =>
      rw [inorder, List.length_append, List.length_cons]
      rcases balanced with ⟨_, m, rfl, below, other⟩ | ⟨_, _, _, below, other⟩
      · have lower := leftIh m below
        have beside := rightIh m other
        rw [Nat.pow_succ]
        omega
      · have lower := leftIh n below
        omega

theorem balanced_height (tree : Tree γ α) (n : Nat) (balanced : Balanced black n tree) (top : BlackTop black tree) :
    height tree ≤ 2 * Nat.log 2 ((inorder tree).length + 1) := by
  have weight : n ≤ Nat.log 2 ((inorder tree).length + 1) :=
    (Nat.le_log_iff_pow_le (by decide) (Nat.succ_ne_zero _)).mpr (size_bound black tree n balanced)
  have tall := (height_bound black tree n balanced).2 top
  omega

end

section

variable {γ α : Type}

-- A walk down passes at most as many keys as the tree is high.
theorem descend_height (go : α → Ordering) (tree : Tree γ α) (path : List (Frame γ α)) :
    (descend go tree path).2.length ≤ path.length + height tree ∧
      ((descend go tree path).1 ≠ .nil → (descend go tree path).2.length + 1 ≤ path.length + height tree) := by
  induction tree generalizing path with
  | nil => exact ⟨Nat.le_refl _, fun full => absurd rfl full⟩
  | node tag left key right leftIh rightIh =>
      rw [descend, height]
      cases go key with
      | eq => exact ⟨by simp only; omega, fun _ => by simp only; omega⟩
      | lt =>
          have lower := leftIh (⟨.left, tag, key, right⟩ :: path)
          simp only [List.length_cons] at lower ⊢
          exact ⟨by omega, fun full => by have inside := lower.2 full; omega⟩
      | gt =>
          have lower := rightIh (⟨.right, tag, key, left⟩ :: path)
          simp only [List.length_cons] at lower ⊢
          exact ⟨by omega, fun full => by have inside := lower.2 full; omega⟩

end

end TreeZipper
