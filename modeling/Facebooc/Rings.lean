import Mathlib.Data.List.Nodup

set_option autoImplicit false

namespace Rings

section

variable {Node : Type}

-- The links lead from one node to another, through the nodes in between.
def Trail (next : Node → Option Node) : Node → List Node → Node → Prop
  | first, [], last => next first = some last
  | first, node :: nodes, last => next first = some node ∧ Trail next node nodes last

-- Both kinds of links lead from the head through all nodes and back to it, in
-- opposite orders.
structure Ring (next prev : Node → Option Node) (head : Node) (nodes : List Node) : Prop where
  forward : Trail next head nodes head
  backward : Trail prev head nodes.reverse head
  distinct : (head :: nodes).Nodup

theorem trail_append (next : Node → Option Node) (first middle last : Node) (front back : List Node)
    (reaches : Trail next first front middle) (leaves : Trail next middle back last) :
    Trail next first (front ++ middle :: back) last := by
  induction front generalizing first with
  | nil => exact ⟨reaches, leaves⟩
  | cons node front ih => exact ⟨reaches.1, ih node reaches.2⟩

theorem trail_from (next other : Node → Option Node) (first again last : Node) (nodes : List Node)
    (trail : Trail next first nodes last) (start : other again = next first) (kept : ∀ node ∈ nodes, other node = next node) :
    Trail other again nodes last := by
  induction nodes generalizing first again with
  | nil => exact start.trans trail
  | cons node nodes ih =>
      refine ⟨start.trans trail.1, ih node node trail.2 (kept node List.mem_cons_self) ?_⟩
      exact fun later member => kept later (List.mem_cons_of_mem node member)

theorem trail_link (next : Node → Option Node) (first last : Node) (nodes : List Node) (trail : Trail next first nodes last) :
    ∃ node ∈ last :: nodes, next first = some node := by
  cases nodes with
  | nil => exact ⟨last, List.mem_cons_self, trail⟩
  | cons node nodes => exact ⟨node, List.mem_cons_of_mem last List.mem_cons_self, trail.1⟩

-- The last link of a trail may lead elsewhere.
theorem trail_redirect (next other : Node → Option Node) (first last elsewhere : Node) (nodes : List Node)
    (trail : Trail next first nodes last) (distinct : (first :: nodes).Nodup)
    (turned : other ((first :: nodes).getLast (List.cons_ne_nil first nodes)) = some elsewhere)
    (kept : ∀ node ∈ first :: nodes, node ≠ (first :: nodes).getLast (List.cons_ne_nil first nodes) → other node = next node) :
    Trail other first nodes elsewhere := by
  induction nodes generalizing first with
  | nil => exact turned
  | cons node nodes ih =>
      have separate := List.nodup_cons.mp distinct
      have end_same : (first :: node :: nodes).getLast (List.cons_ne_nil _ _) = (node :: nodes).getLast (List.cons_ne_nil _ _) :=
        List.getLast_cons _
      rw [end_same] at turned kept
      have moved : first ≠ (node :: nodes).getLast (List.cons_ne_nil _ _) := fun same =>
        separate.1 (same ▸ List.getLast_mem _)
      refine ⟨(kept first List.mem_cons_self moved).trans trail.1, ih node trail.2 separate.2 turned ?_⟩
      exact fun later member => kept later (List.mem_cons_of_mem first member)

theorem ring_flip (next prev : Node → Option Node) (head : Node) (nodes : List Node) (ring : Ring next prev head nodes) :
    Ring prev next head nodes.reverse := by
  refine ⟨ring.backward, ?_, ?_⟩
  · rw [List.reverse_reverse]
    exact ring.forward
  · rw [List.nodup_cons, List.mem_reverse, List.nodup_reverse, ← List.nodup_cons]
    exact ring.distinct

-- The node behind the head is where the way back ends.
theorem ring_first (next prev : Node → Option Node) (head first : Node) (nodes : List Node) (ring : Ring next prev head nodes)
    (link : next head = some first) : (head :: nodes.reverse).getLast (List.cons_ne_nil _ _) = first := by
  have forward := ring.forward
  cases nodes with
  | nil => exact Option.some.inj (forward.symm.trans link)
  | cons node nodes =>
      simp only [List.reverse_cons, ← List.cons_append, List.getLast_append_singleton]
      exact Option.some.inj (forward.1.symm.trans link)

theorem ring_insert [DecidableEq Node] (next prev after before : Node → Option Node) (head first fresh : Node) (nodes : List Node)
    (ring : Ring next prev head nodes) (link : next head = some first) (new : fresh ∉ head :: nodes)
    (nexts : ∀ node, after node = if node = head then some fresh else if node = fresh then some first else next node)
    (prevs : ∀ node, before node = if node = fresh then some head else if node = first then some fresh else prev node) :
    Ring after before head (fresh :: nodes) := by
  have separate := List.nodup_cons.mp ring.distinct
  have outside : ∀ node ∈ head :: nodes, node ≠ fresh := fun node member same => new (same ▸ member)
  have inside : first ∈ head :: nodes := by
    obtain ⟨node, member, again⟩ := trail_link next head head nodes ring.forward
    rwa [Option.some.inj (link.symm.trans again)]
  have head_next : after head = some fresh := by rw [nexts, if_pos rfl]
  have fresh_next : after fresh = some first := by rw [nexts, if_neg (outside head List.mem_cons_self).symm, if_pos rfl]
  have next_kept : ∀ node, node ≠ head → node ≠ fresh → after node = next node := fun node notHead notFresh => by
    rw [nexts, if_neg notHead, if_neg notFresh]
  have first_prev : before first = some fresh := by rw [prevs, if_neg (outside first inside), if_pos rfl]
  have fresh_prev : before fresh = some head := by rw [prevs, if_pos rfl]
  have prev_kept : ∀ node, node ≠ first → node ≠ fresh → before node = prev node := fun node notFirst notFresh => by
    rw [prevs, if_neg notFresh, if_neg notFirst]
  refine ⟨⟨head_next, ?_⟩, ?_, ?_⟩
  · apply trail_from next after head fresh head nodes ring.forward (fresh_next.trans link.symm)
    intro node member
    exact next_kept node (fun same => separate.1 (same ▸ member)) (outside node (List.mem_cons_of_mem head member))
  · have ended := ring_first next prev head first nodes ring link
    have flipped := ring_flip next prev head nodes ring
    have back : Trail before head nodes.reverse fresh := by
      apply trail_redirect prev before head head fresh nodes.reverse ring.backward flipped.distinct
      · rw [ended]
        exact first_prev
      · intro node member different
        rw [ended] at different
        rw [List.mem_cons, List.mem_reverse, ← List.mem_cons] at member
        exact prev_kept node different (outside node member)
    rw [List.reverse_cons]
    exact trail_append before head fresh head nodes.reverse [] back fresh_prev
  · rw [List.nodup_cons, List.mem_cons, List.nodup_cons, not_or]
    rw [List.mem_cons, not_or] at new
    exact ⟨⟨Ne.symm new.1, separate.1⟩, new.2, separate.2⟩

end

end Rings
