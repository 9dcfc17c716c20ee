import Facebooc.CMemory
import Facebooc.Rings
import Facebooc.Runs

set_option autoImplicit false

namespace Facebooc

open CMemory Rings Runs

-- include/list.h. Nodes are named by their addresses, 0 is NULL; what a node is
-- embedded in plays no part.
structure ListLinks where
  next : Nat
  prev : Nat
deriving DecidableEq, Repr

abbrev ListHeap := Nat → Option ListLinks

def listRead (heap : ListHeap) (p : Nat) : Except Fault ListLinks :=
  match heap p with
  | none => .error .null
  | some links => .ok links

def listWrite (heap : ListHeap) (p : Nat) (links : ListLinks) : ListHeap := fun q => if q = p then some links else heap q

def setNext (heap : ListHeap) (p q : Nat) : Except Fault ListHeap := do
  let links ← listRead heap p
  .ok (listWrite heap p { links with next := q })

def setPrev (heap : ListHeap) (p q : Nat) : Except Fault ListHeap := do
  let links ← listRead heap p
  .ok (listWrite heap p { links with prev := q })

-- src/list.c
def listCtor (heap : ListHeap) (head : Nat) : Except Fault ListHeap := do
  let heap ← setNext heap head head
  setPrev heap head head

def listInsertHead (heap : ListHeap) (head newNode : Nat) : Except Fault ListHeap :=
  if head = 0 ∨ newNode = 0 then .ok heap
  else do
    let next := (← listRead heap head).next
    let heap ← setPrev heap next newNode
    let heap ← setNext heap newNode next
    let heap ← setPrev heap newNode head
    setNext heap head newNode

def listInsertTail (heap : ListHeap) (head newNode : Nat) : Except Fault ListHeap := do
  let prev := (← listRead heap head).prev
  let heap ← setNext heap prev newNode
  let heap ← setNext heap newNode head
  let heap ← setPrev heap newNode prev
  setPrev heap head newNode

-- list_for_each with a body that only looks at the node: the nodes it is given.
def listForEachLoop (heap : ListHeap) (head : Nat) : Nat → Nat → Except Fault (List Nat)
  | 0, _ => .error .loop
  | rounds + 1, node =>
      if node = head then .ok []
      else do
        let links ← listRead heap node
        let rest ← listForEachLoop heap head rounds links.next
        .ok (node :: rest)

def listForEach (heap : ListHeap) (head rounds : Nat) : Except Fault (List Nat) := do
  let links ← listRead heap head
  listForEachLoop heap head rounds links.next

-- list_for_each_safe with a body that may do anything to its node.
def listForEachSafeLoop (body : ListHeap → Nat → ListHeap) (head : Nat) :
    Nat → ListHeap → Nat → Nat → Except Fault (List Nat × ListHeap)
  | 0, _, _, _ => .error .loop
  | rounds + 1, heap, node, safe =>
      if node = head then .ok ([], heap)
      else do
        let heap := body heap node
        let links ← listRead heap safe
        let (rest, heap) ← listForEachSafeLoop body head rounds heap safe links.next
        .ok (node :: rest, heap)

def listForEachSafe (body : ListHeap → Nat → ListHeap) (heap : ListHeap) (head rounds : Nat) :
    Except Fault (List Nat × ListHeap) := do
  let links ← listRead heap head
  let safe ← listRead heap links.next
  listForEachSafeLoop body head rounds heap links.next safe.next

-- A body that changes at most the node it is given.
def OwnNode (body : ListHeap → Nat → ListHeap) : Prop := ∀ heap node p, p ≠ node → body heap node p = heap p

-- The counter is an int.
def listSizeLoop (heap : ListHeap) (head : Nat) : Nat → Nat → Int → Except Fault Int
  | 0, _, _ => .error .loop
  | rounds + 1, cur, counter =>
      if cur = head then .ok counter
      else do
        let links ← listRead heap cur
        listSizeLoop heap head rounds links.next (Int.bmod (counter + 1) (2 ^ 32))

def listSize (heap : ListHeap) (head rounds : Nat) : Except Fault Int := do
  let links ← listRead heap head
  listSizeLoop heap head rounds links.next 0

def listIsEmpty (heap : ListHeap) (head : Nat) : Except Fault Int :=
  if head = 0 then .ok 1
  else do
    let links ← listRead heap head
    .ok (if links.next = head then 1 else 0)

inductive ListCall where
  | insertHead (node : Nat)
  | insertTail (node : Nat)
deriving DecidableEq, Repr

def ListCall.node : ListCall → Nat
  | .insertHead node => node
  | .insertTail node => node

-- A run of insertions; it ends at the first one that faults.
def listCall (head : Nat) (state : Except Fault ListHeap) (call : ListCall) : Except Fault ListHeap :=
  state.bind fun heap =>
    match call with
    | .insertHead node => listInsertHead heap head node
    | .insertTail node => listInsertTail heap head node

def insertOrder (nodes : List Nat) : ListCall → List Nat
  | .insertHead node => node :: nodes
  | .insertTail node => nodes ++ [node]

def listOrder (calls : List ListCall) : List Nat := run insertOrder [] calls

-- The head and the nodes are different objects of their own.
structure FreshNodes (heap : ListHeap) (head : Nat) (calls : List ListCall) : Prop where
  distinct : (head :: calls.map ListCall.node).Nodup
  allocated : ∀ p ∈ head :: calls.map ListCall.node, p ≠ 0 ∧ (heap p).isSome

def nextOf (heap : ListHeap) (p : Nat) : Option Nat := (heap p).map ListLinks.next

def prevOf (heap : ListHeap) (p : Nat) : Option Nat := (heap p).map ListLinks.prev

-- What the insertions leave, but for the size.
structure ListExact (heap : ListHeap) (head : Nat) (calls : List ListCall) : Prop where
  ring : Ring (nextOf heap) (prevOf heap) head (listOrder calls)
  inserted : (listOrder calls).Perm (calls.map ListCall.node)
  visited : ∀ rounds, calls.length < rounds → listForEach heap head rounds = .ok (listOrder calls)
  empty : listIsEmpty heap head = .ok (if calls = [] then 1 else 0)

def SizeExact (heap : ListHeap) (head : Nat) (calls : List ListCall) : Prop :=
  ∀ rounds, calls.length < rounds → listSize heap head rounds = .ok calls.length

def ListCorrect (heap : ListHeap) (head : Nat) (calls : List ListCall) : Prop :=
  ∃ after, run (listCall head) (listCtor heap head) calls = .ok after ∧ ListExact after head calls ∧ SizeExact after head calls

theorem list_read_next (heap : ListHeap) (p q : Nat) (link : nextOf heap p = some q) :
    ∃ links, listRead heap p = .ok links ∧ links.next = q := by
  obtain ⟨links, here, same⟩ := Option.map_eq_some_iff.mp link
  exact ⟨links, by rw [listRead, here], same⟩

theorem list_read_prev (heap : ListHeap) (p q : Nat) (link : prevOf heap p = some q) :
    ∃ links, listRead heap p = .ok links ∧ links.prev = q := by
  obtain ⟨links, here, same⟩ := Option.map_eq_some_iff.mp link
  exact ⟨links, by rw [listRead, here], same⟩

theorem set_next_links (heap : ListHeap) (p q : Nat) (there : (heap p).isSome) :
    ∃ after, setNext heap p q = .ok after ∧ (∀ r, nextOf after r = if r = p then some q else nextOf heap r) ∧
      (∀ r, prevOf after r = prevOf heap r) ∧ ∀ r, (after r).isSome = (heap r).isSome := by
  obtain ⟨links, here⟩ := Option.isSome_iff_exists.mp there
  refine ⟨listWrite heap p { links with next := q }, ?_, ?_, ?_, ?_⟩
  · simp only [setNext, listRead, here, bind, Except.bind]
  all_goals
    intro r
    by_cases same : r = p
    · simp [nextOf, prevOf, listWrite, same, here]
    · simp [nextOf, prevOf, listWrite, same]

theorem set_prev_links (heap : ListHeap) (p q : Nat) (there : (heap p).isSome) :
    ∃ after, setPrev heap p q = .ok after ∧ (∀ r, prevOf after r = if r = p then some q else prevOf heap r) ∧
      (∀ r, nextOf after r = nextOf heap r) ∧ ∀ r, (after r).isSome = (heap r).isSome := by
  obtain ⟨links, here⟩ := Option.isSome_iff_exists.mp there
  refine ⟨listWrite heap p { links with prev := q }, ?_, ?_, ?_, ?_⟩
  · simp only [setPrev, listRead, here, bind, Except.bind]
  all_goals
    intro r
    by_cases same : r = p
    · simp [nextOf, prevOf, listWrite, same, here]
    · simp [nextOf, prevOf, listWrite, same]

theorem list_ctor_ring (heap : ListHeap) (head : Nat) (there : (heap head).isSome) :
    ∃ after, listCtor heap head = .ok after ∧ Ring (nextOf after) (prevOf after) head [] ∧
      ∀ r, (after r).isSome = (heap r).isSome := by
  obtain ⟨linked, first, next, _, same⟩ := set_next_links heap head head there
  obtain ⟨after, second, prev, kept, again⟩ := set_prev_links linked head head (by rwa [same])
  refine ⟨after, ?_, ⟨?_, ?_, List.nodup_singleton head⟩, fun r => (again r).trans (same r)⟩
  · simp only [listCtor, first, second, bind, Except.bind]
  · exact (kept head).trans ((next head).trans (if_pos rfl))
  · exact (prev head).trans (if_pos rfl)

theorem list_insert_head_links (heap : ListHeap) (head first newNode : Nat) (given : head ≠ 0 ∧ newNode ≠ 0)
    (link : nextOf heap head = some first) (there : (heap head).isSome ∧ (heap first).isSome ∧ (heap newNode).isSome) :
    ∃ after, listInsertHead heap head newNode = .ok after ∧
      (∀ r, nextOf after r = if r = head then some newNode else if r = newNode then some first else nextOf heap r) ∧
      (∀ r, prevOf after r = if r = newNode then some head else if r = first then some newNode else prevOf heap r) ∧
      ∀ r, (after r).isSome = (heap r).isSome := by
  obtain ⟨links, read, next⟩ := list_read_next heap head first link
  obtain ⟨heap1, set1, prev1, next1, same1⟩ := set_prev_links heap first newNode there.2.1
  obtain ⟨heap2, set2, next2, prev2, same2⟩ := set_next_links heap1 newNode first (by rw [same1]; exact there.2.2)
  obtain ⟨heap3, set3, prev3, next3, same3⟩ := set_prev_links heap2 newNode head (by rw [same2, same1]; exact there.2.2)
  obtain ⟨heap4, set4, next4, prev4, same4⟩ := set_next_links heap3 head newNode (by rw [same3, same2, same1]; exact there.1)
  refine ⟨heap4, ?_, ?_, ?_, ?_⟩
  · simp only [listInsertHead, given, or_self, if_false, read, next, set1, set2, set3, set4, bind, Except.bind]
  · intro r
    rw [next4, next3, next2, next1]
  · intro r
    rw [prev4, prev3, prev2, prev1]
  · intro r
    rw [same4, same3, same2, same1]

theorem list_insert_tail_links (heap : ListHeap) (head last newNode : Nat) (link : prevOf heap head = some last)
    (there : (heap head).isSome ∧ (heap last).isSome ∧ (heap newNode).isSome) :
    ∃ after, listInsertTail heap head newNode = .ok after ∧
      (∀ r, prevOf after r = if r = head then some newNode else if r = newNode then some last else prevOf heap r) ∧
      (∀ r, nextOf after r = if r = newNode then some head else if r = last then some newNode else nextOf heap r) ∧
      ∀ r, (after r).isSome = (heap r).isSome := by
  obtain ⟨links, read, prev⟩ := list_read_prev heap head last link
  obtain ⟨heap1, set1, next1, prev1, same1⟩ := set_next_links heap last newNode there.2.1
  obtain ⟨heap2, set2, next2, prev2, same2⟩ := set_next_links heap1 newNode head (by rw [same1]; exact there.2.2)
  obtain ⟨heap3, set3, prev3, next3, same3⟩ := set_prev_links heap2 newNode last (by rw [same2, same1]; exact there.2.2)
  obtain ⟨heap4, set4, prev4, next4, same4⟩ := set_prev_links heap3 head newNode (by rw [same3, same2, same1]; exact there.1)
  refine ⟨heap4, ?_, ?_, ?_, ?_⟩
  · simp only [listInsertTail, read, prev, set1, set2, set3, set4, bind, Except.bind]
  · intro r
    rw [prev4, prev3, prev2, prev1]
  · intro r
    rw [next4, next3, next2, next1]
  · intro r
    rw [same4, same3, same2, same1]

-- What one insertion does to a ring.
theorem list_call_ring (heap : ListHeap) (head : Nat) (nodes : List Nat) (call : ListCall)
    (ring : Ring (nextOf heap) (prevOf heap) head nodes) (new : call.node ∉ head :: nodes)
    (there : ∀ p ∈ call.node :: head :: nodes, p ≠ 0 ∧ (heap p).isSome) :
    ∃ after, listCall head (.ok heap) call = .ok after ∧
      Ring (nextOf after) (prevOf after) head (insertOrder nodes call) ∧ ∀ r, (after r).isSome = (heap r).isSome := by
  have fresh := there call.node List.mem_cons_self
  have top := there head (List.mem_cons_of_mem _ List.mem_cons_self)
  cases call with
  | insertHead newNode =>
      obtain ⟨first, member, link⟩ := trail_link _ head head nodes ring.forward
      have target := (there first (List.mem_cons_of_mem _ member)).2
      obtain ⟨after, ran, next, prev, same⟩ :=
        list_insert_head_links heap head first newNode ⟨top.1, fresh.1⟩ link ⟨top.2, target, fresh.2⟩
      exact ⟨after, ran, ring_insert _ _ _ _ head first newNode nodes ring link new next prev, same⟩
  | insertTail newNode =>
      -- The same on the way back.
      have flipped := ring_flip _ _ head nodes ring
      obtain ⟨last, member, link⟩ := trail_link _ head head nodes.reverse flipped.forward
      rw [List.mem_cons, List.mem_reverse, ← List.mem_cons] at member
      have target := (there last (List.mem_cons_of_mem _ member)).2
      obtain ⟨after, ran, prev, next, same⟩ :=
        list_insert_tail_links heap head last newNode link ⟨top.2, target, fresh.2⟩
      have missing : newNode ∉ head :: nodes.reverse := by
        rw [List.mem_cons, List.mem_reverse, ← List.mem_cons]
        exact new
      have inserted := ring_insert _ _ _ _ head last newNode nodes.reverse flipped link missing prev next
      have back := ring_flip _ _ head _ inserted
      rw [List.reverse_cons, List.reverse_reverse] at back
      exact ⟨after, ran, back, same⟩

theorem list_order_snoc (calls : List ListCall) (call : ListCall) :
    listOrder (calls ++ [call]) = insertOrder (listOrder calls) call := run_snoc insertOrder [] calls call

theorem list_order_perm (calls : List ListCall) : (listOrder calls).Perm (calls.map ListCall.node) := by
  induction calls using List.reverseRecOn with
  | nil => exact List.Perm.refl []
  | append_singleton past call ih =>
      rw [list_order_snoc, List.map_append, List.map_singleton]
      cases call with
      | insertHead node => exact (ih.cons node).trans (List.perm_append_singleton node _).symm
      | insertTail node => exact ih.append_right [node]

-- The heap after the insertions, and the ring in it.
theorem list_run_ring (heap : ListHeap) (head : Nat) (calls : List ListCall) (fresh : FreshNodes heap head calls) :
    ∃ after, run (listCall head) (listCtor heap head) calls = .ok after ∧
      Ring (nextOf after) (prevOf after) head (listOrder calls) ∧ ∀ r, (after r).isSome = (heap r).isSome := by
  induction calls using List.reverseRecOn with
  | nil => exact list_ctor_ring heap head (fresh.allocated head List.mem_cons_self).2
  | append_singleton past call ih =>
      have split : (past ++ [call]).map ListCall.node = past.map ListCall.node ++ [call.node] := List.map_append
      have distinct := fresh.distinct
      rw [split, ← List.cons_append] at distinct
      have apart := List.nodup_append.mp distinct
      have earlier : ∀ p ∈ head :: past.map ListCall.node, p ∈ head :: (past ++ [call]).map ListCall.node := by
        intro p member
        rw [split, ← List.cons_append]
        exact List.mem_append_left _ member
      obtain ⟨before, ran, ring, kept⟩ := ih ⟨apart.1, fun p member => fresh.allocated p (earlier p member)⟩
      have ordered : ∀ p, p ∈ head :: listOrder past ↔ p ∈ head :: past.map ListCall.node := by
        intro p
        rw [List.mem_cons, List.mem_cons, (list_order_perm past).mem_iff]
      have new : call.node ∉ head :: listOrder past := by
        rw [ordered]
        exact fun member => apart.2.2 _ member _ List.mem_cons_self rfl
      have there : ∀ p ∈ call.node :: head :: listOrder past, p ≠ 0 ∧ (before p).isSome := by
        intro p member
        rw [kept]
        apply fresh.allocated
        rcases List.mem_cons.mp member with last | member
        · rw [last, split, ← List.cons_append]
          exact List.mem_append_right _ List.mem_cons_self
        · exact earlier p ((ordered p).mp member)
      obtain ⟨after, inserted, next, same⟩ := list_call_ring before head (listOrder past) call ring new there
      refine ⟨after, ?_, ?_, fun r => (same r).trans (kept r)⟩
      · rw [run_snoc, ran]
        exact inserted
      · rw [list_order_snoc]
        exact next

theorem list_for_each_loop_trail (heap : ListHeap) (head first start rounds : Nat) (nodes : List Nat)
    (trail : Trail (nextOf heap) first nodes head) (apart : head ∉ nodes) (link : nextOf heap first = some start)
    (enough : nodes.length < rounds) : listForEachLoop heap head rounds start = .ok nodes := by
  induction nodes generalizing first start rounds with
  | nil =>
      obtain ⟨more, rfl⟩ : ∃ more, rounds = more + 1 := ⟨rounds - 1, by omega⟩
      have same : start = head := Option.some.inj (link.symm.trans trail)
      rw [listForEachLoop, if_pos same]
  | cons node nodes ih =>
      obtain ⟨more, rfl⟩ : ∃ more, rounds = more + 1 := ⟨rounds - 1, by omega⟩
      have same : start = node := Option.some.inj (link.symm.trans trail.1)
      rw [List.mem_cons, not_or] at apart
      obtain ⟨following, _, step⟩ := trail_link _ node head nodes trail.2
      obtain ⟨links, read, next⟩ := list_read_next heap node following step
      have rest := ih node following more trail.2 apart.2 step (Nat.lt_of_succ_lt_succ enough)
      rw [listForEachLoop, same, if_neg (Ne.symm apart.1)]
      simp only [read, next, rest, bind, Except.bind]

theorem list_for_each_ring (heap : ListHeap) (head rounds : Nat) (nodes : List Nat)
    (ring : Ring (nextOf heap) (prevOf heap) head nodes) (enough : nodes.length < rounds) :
    listForEach heap head rounds = .ok nodes := by
  obtain ⟨start, _, link⟩ := trail_link _ head head nodes ring.forward
  obtain ⟨links, read, next⟩ := list_read_next heap head start link
  have visited := list_for_each_loop_trail heap head head start rounds nodes ring.forward
    (List.nodup_cons.mp ring.distinct).1 link enough
  simp only [listForEach, read, next, visited, bind, Except.bind]

-- The counter runs along with the nodes visited, as an int.
theorem list_size_loop_count (heap : ListHeap) (head rounds cur : Nat) (counter : Int)
    (int : Int.bmod counter (2 ^ 32) = counter) : listSizeLoop heap head rounds cur counter =
      (listForEachLoop heap head rounds cur).map fun visited => Int.bmod (counter + visited.length) (2 ^ 32) := by
  induction rounds generalizing cur counter with
  | zero => rfl
  | succ rounds ih =>
      rw [listSizeLoop, listForEachLoop]
      by_cases ended : cur = head
      · rw [if_pos ended, if_pos ended, Except.map, List.length_nil, Int.natCast_zero, Int.add_zero, int]
      · rw [if_neg ended, if_neg ended]
        cases listRead heap cur with
        | error fault => rfl
        | ok links =>
            have later := ih links.next (Int.bmod (counter + 1) (2 ^ 32)) Int.bmod_bmod
            simp only [bind, Except.bind, later]
            cases listForEachLoop heap head rounds links.next with
            | error fault => rfl
            | ok visited =>
                rw [Except.map, Except.map, Int.bmod_add_bmod, List.length_cons, Int.natCast_succ, Int.add_assoc,
                  Int.add_comm 1]

theorem list_size_ring (heap : ListHeap) (head rounds : Nat) (nodes : List Nat)
    (ring : Ring (nextOf heap) (prevOf heap) head nodes) (enough : nodes.length < rounds) :
    listSize heap head rounds = .ok (Int.bmod nodes.length (2 ^ 32)) := by
  obtain ⟨start, _, link⟩ := trail_link _ head head nodes ring.forward
  obtain ⟨links, read, next⟩ := list_read_next heap head start link
  have visited := list_for_each_loop_trail heap head head start rounds nodes ring.forward
    (List.nodup_cons.mp ring.distinct).1 link enough
  simp only [listSize, read, next, bind, Except.bind]
  rw [list_size_loop_count heap head rounds start 0 rfl, visited, Except.map, Int.zero_add]

theorem list_is_empty_ring (heap : ListHeap) (head : Nat) (nodes : List Nat) (given : head ≠ 0)
    (ring : Ring (nextOf heap) (prevOf heap) head nodes) :
    listIsEmpty heap head = .ok (if nodes = [] then 1 else 0) := by
  obtain ⟨start, _, link⟩ := trail_link _ head head nodes ring.forward
  obtain ⟨links, read, next⟩ := list_read_next heap head start link
  have empty : start = head ↔ nodes = [] := by
    have forward := ring.forward
    cases nodes with
    | nil => exact iff_of_true (Option.some.inj (link.symm.trans forward)) rfl
    | cons node nodes =>
        have same : start = node := Option.some.inj (link.symm.trans forward.1)
        have apart := (List.nodup_cons.mp ring.distinct).1
        rw [List.mem_cons, not_or] at apart
        exact iff_of_false (fun again => apart.1 (again.symm.trans same)) (List.cons_ne_nil node nodes)
  simp only [listIsEmpty, given, if_false, read, next, empty, bind, Except.bind]

theorem list_for_each_safe_loop_trail (body : ListHeap → Nat → ListHeap) (own : OwnNode body) (head : Nat) (nodes : List Nat) :
    ∀ (heap : ListHeap) (node safe rounds : Nat), Trail (nextOf heap) node nodes head → (head :: node :: nodes).Nodup →
      (heap head).isSome → nextOf heap node = some safe → (node :: nodes).length < rounds →
      listForEachSafeLoop body head rounds heap node safe = .ok (node :: nodes, (node :: nodes).foldl body heap) := by
  induction nodes with
  | nil =>
      intro heap node safe rounds trail distinct top link enough
      obtain ⟨more, rfl⟩ : ∃ more, rounds = more + 2 := ⟨rounds - 2, by rw [List.length_singleton] at enough; omega⟩
      have same : safe = head := Option.some.inj (link.symm.trans trail)
      have apart : node ≠ head := fun again => (List.nodup_cons.mp distinct).1 (again ▸ List.mem_cons_self)
      obtain ⟨links, here⟩ := Option.isSome_iff_exists.mp top
      have read : listRead (body heap node) head = .ok links := by rw [listRead, own heap node head apart.symm, here]
      rw [listForEachSafeLoop, if_neg apart, same]
      simp only [read, bind, Except.bind, listForEachSafeLoop, if_true]
      rfl
  | cons second nodes ih =>
      intro heap node safe rounds trail distinct top link enough
      obtain ⟨more, rfl⟩ : ∃ more, rounds = more + 1 := ⟨rounds - 1, by rw [List.length_cons] at enough; omega⟩
      have same : safe = second := Option.some.inj (link.symm.trans trail.1)
      obtain ⟨outside, separate⟩ := List.nodup_cons.mp distinct
      have inside := List.nodup_cons.mp separate
      have apart : node ≠ head := fun again => outside (again ▸ List.mem_cons_self)
      -- The body has left all nodes that are still to come as they were.
      have kept : ∀ p, p ≠ node → nextOf (body heap node) p = nextOf heap p := by
        intro p other
        rw [nextOf, own heap node p other, nextOf]
      have later : ∀ p ∈ second :: nodes, p ≠ node := fun p member again => inside.1 (again ▸ member)
      obtain ⟨following, _, step⟩ := trail_link _ second head nodes trail.2
      have moved := (kept second (later second List.mem_cons_self)).trans step
      obtain ⟨links, read, next⟩ := list_read_next (body heap node) second following moved
      have rest := ih (body heap node) second following more
        (trail_from _ _ second second head nodes trail.2 (kept second (later second List.mem_cons_self))
          fun p member => kept p (later p (List.mem_cons_of_mem second member)))
        (List.nodup_cons.mpr ⟨fun member => outside (List.mem_cons_of_mem node member), inside.2⟩)
        (by rw [own heap node head apart.symm]; exact top) moved (Nat.lt_of_succ_lt_succ enough)
      rw [listForEachSafeLoop, if_neg apart, same]
      simp only [read, next, rest, bind, Except.bind]
      rfl

-- Even a body that frees its node is given every node once.
theorem list_for_each_safe_ring (body : ListHeap → Nat → ListHeap) (own : OwnNode body) (heap : ListHeap) (head rounds : Nat)
    (nodes : List Nat) (ring : Ring (nextOf heap) (prevOf heap) head nodes) (enough : nodes.length < rounds) :
    listForEachSafe body heap head rounds = .ok (nodes, nodes.foldl body heap) := by
  have forward := ring.forward
  cases nodes with
  | nil =>
      obtain ⟨links, read, next⟩ := list_read_next heap head head forward
      obtain ⟨more, rfl⟩ : ∃ more, rounds = more + 1 := ⟨rounds - 1, by rw [List.length_nil] at enough; omega⟩
      simp only [listForEachSafe, read, next, bind, Except.bind, listForEachSafeLoop, if_true]
      rfl
  | cons node nodes =>
      obtain ⟨links, read, next⟩ := list_read_next heap head node forward.1
      obtain ⟨safe, _, link⟩ := trail_link _ node head nodes forward.2
      obtain ⟨second, readSafe, nextSafe⟩ := list_read_next heap node safe link
      have top : (heap head).isSome := by
        rw [← Option.isSome_map]
        exact Option.isSome_of_eq_some forward.1
      have visited := list_for_each_safe_loop_trail body own head nodes heap node safe rounds forward.2 ring.distinct top link enough
      simp only [listForEachSafe, read, next, readSafe, nextSafe, visited, bind, Except.bind]

theorem list_run_exact (heap : ListHeap) (head : Nat) (calls : List ListCall) (fresh : FreshNodes heap head calls) :
    ∃ after, run (listCall head) (listCtor heap head) calls = .ok after ∧ ListExact after head calls ∧
      ∀ rounds, calls.length < rounds → listSize after head rounds = .ok (Int.bmod calls.length (2 ^ 32)) := by
  obtain ⟨after, ran, ring, _⟩ := list_run_ring heap head calls fresh
  have perm := list_order_perm calls
  have count : (listOrder calls).length = calls.length := by rw [perm.length_eq, List.length_map]
  have none : listOrder calls = [] ↔ calls = [] := by
    rw [← List.length_eq_zero_iff, count, List.length_eq_zero_iff]
  have empty := list_is_empty_ring after head _ (fresh.allocated head List.mem_cons_self).1 ring
  simp only [none] at empty
  refine ⟨after, ran, ⟨ring, perm, ?_, empty⟩, ?_⟩
  · intro rounds enough
    exact list_for_each_ring after head rounds _ ring (by rwa [count])
  · intro rounds enough
    have size := list_size_ring after head rounds _ ring (by rwa [count])
    rwa [count] at size

theorem list_correct_small (heap : ListHeap) (head : Nat) (calls : List ListCall) (fresh : FreshNodes heap head calls) :
    ListCorrect heap head calls ↔ calls.length < 2 ^ 31 := by
  obtain ⟨after, ran, exact, size⟩ := list_run_exact heap head calls fresh
  constructor
  · rintro ⟨again, ranAgain, _, correct⟩
    have same : again = after := Except.ok.inj (ranAgain.symm.trans ran)
    subst same
    have counted := Except.ok.inj ((size _ (Nat.lt_succ_self _)).symm.trans (correct _ (Nat.lt_succ_self _)))
    have limit : Int.bmod calls.length (2 ^ 32) < (2 ^ 32 + 1) / 2 := Int.bmod_lt (by decide)
    omega
  · intro small
    refine ⟨after, ran, exact, fun rounds enough => ?_⟩
    rw [size rounds enough, Int.bmod_eq_of_le (by omega) (by omega)]

-- The links are right after any number of insertions, also where the nodes are
-- freed on the way along them, the int that counts them up to 2^31 - 1.
theorem list_correct_iff (heap : ListHeap) (head : Nat) (calls : List ListCall) (fresh : FreshNodes heap head calls) :
    (∃ after, run (listCall head) (listCtor heap head) calls = .ok after ∧ ListExact after head calls ∧
      ∀ body rounds, OwnNode body → (listOrder calls).length < rounds →
        listForEachSafe body after head rounds = .ok (listOrder calls, (listOrder calls).foldl body after)) ∧
      (ListCorrect heap head calls ↔ calls.length < 2 ^ 31) := by
  obtain ⟨after, ran, exact, _⟩ := list_run_exact heap head calls fresh
  refine ⟨⟨after, ran, exact, fun body rounds own enough => ?_⟩, list_correct_small heap head calls fresh⟩
  exact list_for_each_safe_ring body own after head rounds _ exact.ring enough

def pairHeap : ListHeap := fun p => if p = 16 ∨ p = 32 ∨ p = 48 then some ⟨0, 0⟩ else none

theorem list_correct_pair :
    (∃ after, run (listCall 16) (listCtor pairHeap 16) [.insertTail 32, .insertHead 48] = .ok after ∧
      ListExact after 16 [.insertTail 32, .insertHead 48] ∧
      ∀ body rounds, OwnNode body → 2 < rounds →
        listForEachSafe body after 16 rounds = .ok ([48, 32], [48, 32].foldl body after)) ∧
    (ListCorrect pairHeap 16 [.insertTail 32, .insertHead 48] ↔ [ListCall.insertTail 32, .insertHead 48].length < 2 ^ 31) :=
  list_correct_iff pairHeap 16 [.insertTail 32, .insertHead 48] ⟨by decide, by decide⟩

-- The head and as many nodes as wanted, side by side.
def rowOfNodes (count : Nat) : List ListCall := (List.range count).map fun i => .insertTail (16 * (i + 2))

theorem row_fresh (count : Nat) : FreshNodes (fun _ => some ⟨0, 0⟩) 16 (rowOfNodes count) := by
  have nodes : (rowOfNodes count).map ListCall.node = (List.range count).map fun i => 16 * (i + 2) := by
    rw [rowOfNodes, List.map_map]
    rfl
  refine ⟨?_, ?_⟩
  · rw [nodes, List.nodup_cons]
    constructor
    · intro member
      obtain ⟨i, _, same⟩ := List.mem_map.mp member
      omega
    · exact List.nodup_range.map fun i j same => by omega
  · rw [nodes]
    intro p member
    refine ⟨?_, rfl⟩
    rcases List.mem_cons.mp member with top | below
    · omega
    · obtain ⟨i, _, same⟩ := List.mem_map.mp below
      omega

theorem list_correct_fails : ¬ ∀ (heap : ListHeap) (head : Nat) (calls : List ListCall), FreshNodes heap head calls →
    ListCorrect heap head calls := by
  intro all
  have fresh := row_fresh (2 ^ 31)
  have small := (list_correct_small _ 16 _ fresh).mp (all _ 16 _ fresh)
  have count : (rowOfNodes (2 ^ 31)).length = 2 ^ 31 := by rw [rowOfNodes, List.length_map, List.length_range]
  rw [count] at small
  exact Nat.lt_irrefl _ small

end Facebooc
