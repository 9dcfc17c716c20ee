import Mathlib.Algebra.Order.Group.Multiset
import Mathlib.Data.Multiset.Lattice
import Mathlib.Order.Lattice.Nat
import Mathlib.Tactic.Abel

set_option autoImplicit false

namespace Ownership

-- The blocks that are allocated, by their addresses. NULL is 0.
abbrev Blocks := Multiset Nat

structure Sound (live : Blocks) : Prop where
  distinct : live.Nodup
  null : 0 ∉ live

-- Which free address it picks is the allocator's own business.
structure Allocator where
  pick : Blocks → Nat
  fresh : ∀ live, pick live ∉ live
  notNull : ∀ live, pick live ≠ 0

instance : Inhabited Allocator where
  default := {
    pick := fun live => Multiset.sup live + 1
    fresh := fun _ member => Nat.not_succ_le_self _ (Multiset.le_sup member)
    notNull := fun _ => Nat.succ_ne_zero _ }

-- A program stops at a fault of what it computes, or at the use of a block that
-- is not allocated.
inductive Trap (ε : Type) where
  | code (fault : ε)
  | dangling (p : Nat)
deriving DecidableEq, Repr

abbrev Prog (ε α : Type) := StateT Blocks (Except (Trap ε)) α

section

variable {ε α β γ δ ι : Type}

def newBlock (a : Allocator) : Prog ε Nat := fun live => .ok (a.pick live, {a.pick live} + live)

def useBlock (p : Nat) : Prog ε Unit := fun live => if p ∈ live then .ok ((), live) else .error (.dangling p)

-- free(NULL) does nothing.
def freeBlock (p : Nat) : Prog ε Unit := fun live =>
  if p = 0 then .ok ((), live) else if p ∈ live then .ok ((), live.erase p) else .error (.dangling p)

def computed (x : Except ε α) : Prog ε α := fun live =>
  match x with
  | .ok a => .ok (a, live)
  | .error fault => .error (.code fault)

-- How a program ends that leaves some blocks of others alone: as the plain
-- computation does, with the blocks that belong to its result.
inductive Ends (plain : Except ε β) (after : α → Blocks) (text : α → β) (rest : Blocks) :
    Except (Trap ε) (α × Blocks) → Prop where
  | done (a : α) (value : plain = .ok (text a)) (sound : Sound (after a + rest)) : Ends plain after text rest (.ok (a, after a + rest))
  | stopped (fault : ε) (value : plain = .error fault) : Ends plain after text rest (.error (.code fault))

-- A program that is given some blocks of its own. Whatever else is allocated, it
-- ends with those of its result in their place.
def Moves (prog : Prog ε α) (plain : Except ε β) (before : Blocks) (after : α → Blocks) (text : α → β) : Prop :=
  ∀ rest, Sound (before + rest) → Ends plain after text rest (prog (before + rest))

abbrev Frees (prog : Prog ε Unit) (blocks : Blocks) : Prop := Moves prog (.ok ()) blocks (fun _ => 0) id

theorem sound_new (a : Allocator) (live : Blocks) (sound : Sound live) : Sound ({a.pick live} + live) := by
  refine ⟨?_, ?_⟩
  · rw [Multiset.singleton_add, Multiset.nodup_cons]
    exact ⟨a.fresh live, sound.distinct⟩
  · rw [Multiset.singleton_add, Multiset.mem_cons, not_or]
    exact ⟨(a.notNull live).symm, sound.null⟩

theorem sound_part (own rest : Blocks) (sound : Sound (own + rest)) : Sound rest where
  distinct := (Multiset.nodup_add.mp sound.distinct).2.1
  null := fun member => sound.null (Multiset.mem_add.mpr (.inr member))

theorem moves_pure {a : α} {before : Blocks} {after : α → Blocks} {text : α → β} {b : β} (value : text a = b)
    (own : before = after a) : Moves (pure a : Prog ε α) (.ok b) before after text := by
  intro rest sound
  subst own value
  exact .done a rfl sound

theorem moves_bind {x : Prog ε α} {f : α → Prog ε γ} {p : Except ε β} {q : β → Except ε δ} {own before : Blocks}
    (extra : Blocks)
    {mid : α → Blocks} {after : γ → Blocks} {text : α → β} {last : γ → δ} (called : Moves x p own mid text)
    (split : before = own + extra) (next : ∀ a, p = .ok (text a) → Moves (f a) (q (text a)) (mid a + extra) after last) :
    Moves (x >>= f) (p >>= q) before after last := by
  intro rest sound
  rw [split, add_assoc] at sound ⊢
  have first := called (extra + rest) sound
  change Ends _ _ _ _ ((x (own + (extra + rest))).bind fun result => f result.1 result.2)
  generalize x (own + (extra + rest)) = outcome at first
  cases first with
  | done a value sound =>
      rw [← add_assoc] at sound
      have later := next a value rest sound
      rw [add_assoc] at later
      rw [value]
      exact later
  | stopped fault value =>
      rw [value]
      exact .stopped fault rfl

theorem moves_new {a : Allocator} {f : Nat → Prog ε α} {plain : Except ε β} {before : Blocks} {after : α → Blocks}
    {text : α → β}
    (next : ∀ p, p ≠ 0 → p ∉ before → Moves (f p) plain ({p} + before) after text) :
    Moves (newBlock a >>= f) plain before after text := by
  intro rest sound
  have other : a.pick (before + rest) ∉ before := fun member => a.fresh _ (Multiset.mem_add.mpr (.inl member))
  have later := next (a.pick (before + rest)) (a.notNull _) other rest
  rw [add_assoc] at later
  exact later (sound_new a _ sound)

theorem block_new (a : Allocator) : Moves (newBlock a : Prog ε Nat) (.ok ()) 0 (fun p => {p}) (fun _ => ()) := by
  have whole : (newBlock a : Prog ε Nat) = newBlock a >>= pure := by rw [bind_pure]
  rw [whole]
  exact moves_new fun p _ _ => moves_pure rfl (add_zero _)

theorem moves_use {p : Nat} {f : Unit → Prog ε α} {plain : Except ε β} {before : Blocks} {after : α → Blocks}
    {text : α → β}
    (live : p ∈ before) (next : Moves (f ()) plain before after text) : Moves (useBlock p >>= f) plain before after text := by
  intro rest sound
  have used : (useBlock p : Prog ε Unit) (before + rest) = .ok ((), before + rest) := if_pos (Multiset.mem_add.mpr (.inl live))
  change Ends _ _ _ _ ((useBlock p (before + rest)).bind fun result => f result.1 result.2)
  rw [used]
  exact next rest sound

theorem free_block_run (p : Nat) (rest : Blocks) (sound : Sound ({p} + rest)) :
    (freeBlock p : Prog ε Unit) ({p} + rest) = .ok ((), rest) := by
  have member : p ∈ {p} + rest := Multiset.mem_add.mpr (.inl (Multiset.mem_singleton_self p))
  have given : p ≠ 0 := fun same => sound.null (same ▸ member)
  rw [freeBlock, if_neg given, if_pos member, Multiset.singleton_add, Multiset.erase_cons_head]

theorem moves_free {p : Nat} {f : Unit → Prog ε α} {plain : Except ε β} {before : Blocks} (extra : Blocks) {after : α → Blocks}
    {text : α → β}
    (split : before = {p} + extra) (next : Moves (f ()) plain extra after text) :
    Moves (freeBlock p >>= f) plain before after text := by
  intro rest sound
  rw [split, add_assoc] at sound ⊢
  change Ends _ _ _ _ ((freeBlock p ({p} + (extra + rest))).bind fun result => f result.1 result.2)
  rw [free_block_run p _ sound]
  exact next rest (sound_part _ _ sound)

theorem moves_computed {x : Except ε β} {f : β → Prog ε α} {q : β → Except ε γ} {before : Blocks} {after : α → Blocks}
    {text : α → γ}
    (next : ∀ b, x = .ok b → Moves (f b) (q b) before after text) : Moves (computed x >>= f) (x >>= q) before after text := by
  intro rest sound
  cases x with
  | ok b => exact next b rfl rest sound
  | error fault => exact .stopped fault rfl

theorem computed_moves (x : Except ε β) (before : Blocks) : Moves (computed x) x before (fun _ => before) id := by
  intro rest sound
  cases x with
  | ok b => exact .done b rfl sound
  | error fault => exact .stopped fault rfl

theorem stopped_moves {fault : ε} {before : Blocks} {after : α → Blocks} {text : α → β} :
    Moves (computed (.error fault)) (.error fault) before after text :=
  fun _ _ => .stopped fault rfl

-- A call that computes nothing new.
theorem moves_call {x : Prog ε α} {f : α → Prog ε γ} {b : β} {plain : Except ε δ} {own before : Blocks} (extra : Blocks)
    {mid : α → Blocks} {after : γ → Blocks} {text : α → β} {last : γ → δ} (called : Moves x (.ok b) own mid text)
    (split : before = own + extra) (next : ∀ a, text a = b → Moves (f a) plain (mid a + extra) after last) :
    Moves (x >>= f) plain before after last :=
  moves_bind (q := fun _ => plain) extra called split fun a value => next a (Except.ok.inj value).symm

-- A call whose value is the last of the computation, with blocks to put away behind it.
theorem moves_then {x : Prog ε α} {f : α → Prog ε γ} {p : Except ε β} {own before : Blocks} (extra : Blocks)
    {mid : α → Blocks} {after : γ → Blocks} {text : α → β} {last : γ → β} (called : Moves x p own mid text)
    (split : before = own + extra) (next : ∀ a, p = .ok (text a) → Moves (f a) (.ok (text a)) (mid a + extra) after last) :
    Moves (x >>= f) p before after last := by
  have whole : (p >>= Except.ok) = p := by cases p <;> rfl
  rw [← whole]
  exact moves_bind extra called split next

-- The blocks of a pointer that may be NULL.
def pointed (p : Nat) : Blocks := if p = 0 then 0 else {p}

-- A call that reads no bytes may be given NULL.
def readBlock (p : Nat) : Prog ε Unit := if p = 0 then pure () else useBlock p

theorem moves_read {p : Nat} {f : Unit → Prog ε α} {plain : Except ε β} {before : Blocks} {after : α → Blocks}
    {text : α → β}
    (live : ∀ q ∈ pointed p, q ∈ before) (next : Moves (f ()) plain before after text) :
    Moves (readBlock p >>= f) plain before after text := by
  rw [readBlock]
  split
  · exact next
  · rename_i given
    exact moves_use (live p (by rw [pointed, if_neg given]; exact Multiset.mem_singleton_self p)) next

theorem nothing_left (rest : Blocks) (sound : Sound rest) :
    Ends (.ok () : Except ε Unit) (fun _ => 0) id rest (.ok ((), rest)) := by
  have done : Ends (.ok () : Except ε Unit) (fun _ => 0) id rest (.ok ((), 0 + rest)) := .done () rfl (by rwa [zero_add])
  rwa [zero_add] at done

theorem block_frees (p : Nat) : Frees (freeBlock p : Prog ε Unit) {p} := by
  intro rest sound
  rw [free_block_run p rest sound]
  exact nothing_left rest (sound_part _ _ sound)

theorem pointed_frees (p : Nat) : Frees (freeBlock p : Prog ε Unit) (pointed p) := by
  rw [pointed]
  split
  · rename_i null
    intro rest sound
    rw [freeBlock, if_pos null]
    exact .done () rfl sound
  · exact block_frees p

theorem frees_seq {x y : Prog ε Unit} {first second : Blocks} (one : Frees x first) (two : Frees y second) :
    Frees (x >>= fun _ => y) (first + second) :=
  moves_call second one rfl fun _ _ => by rwa [zero_add]

end

-- A ring of nodes in front of and behind a head; every node owns an entry.
structure Chain (ι : Type) where
  head : Nat
  nodes : List (Nat × ι)
deriving DecidableEq, Repr

section

variable {ε ι κ : Type} (own : ι → Blocks) (text : ι → κ)

def nodeBlocks (nodes : List (Nat × ι)) : Blocks := (nodes.map fun node => {node.1} + own node.2).sum

def Chain.blocks (c : Chain ι) : Blocks := {c.head} + nodeBlocks own c.nodes

def Chain.texts (c : Chain ι) : List κ := c.nodes.map fun node => text node.2

-- The nodes that the head points at in both directions.
def Chain.next (c : Chain ι) : Nat := (c.nodes.head?.map Prod.fst).getD c.head

def Chain.prev (c : Chain ι) : Nat := (c.nodes.getLast?.map Prod.fst).getD c.head

def insertHead (c : Chain ι) (node : Nat) (entry : ι) : Prog ε (Chain ι) := do
  useBlock c.head
  useBlock c.next
  useBlock node
  pure { c with nodes := (node, entry) :: c.nodes }

def insertTail (c : Chain ι) (node : Nat) (entry : ι) : Prog ε (Chain ι) := do
  useBlock c.head
  useBlock c.prev
  useBlock node
  pure { c with nodes := c.nodes ++ [(node, entry)] }

-- A node points at the next one until the body frees it, so that one is read
-- first. The head ends the walk.
def eachSafeLoop (body : Nat × ι → Prog ε Unit) (head : Nat) : List (Nat × ι) → Prog ε Unit
  | [] => do
      useBlock head
      pure ()
  | node :: rest => do
      useBlock node.1
      body node
      eachSafeLoop body head rest

def eachSafe (body : Nat × ι → Prog ε Unit) (c : Chain ι) : Prog ε Unit := do
  useBlock c.head
  eachSafeLoop body c.head c.nodes

theorem node_blocks_cons (node : Nat × ι) (nodes : List (Nat × ι)) :
    nodeBlocks own (node :: nodes) = {node.1} + own node.2 + nodeBlocks own nodes := by
  rw [nodeBlocks, List.map_cons, List.sum_cons]
  rfl

theorem node_blocks_snoc (node : Nat × ι) (nodes : List (Nat × ι)) :
    nodeBlocks own (nodes ++ [node]) = nodeBlocks own nodes + ({node.1} + own node.2) := by
  rw [nodeBlocks, List.map_append, List.sum_append, List.map_singleton, List.sum_singleton]
  rfl

theorem entry_in_blocks (nodes : List (Nat × ι)) (node : Nat × ι) (member : node ∈ nodes) (p : Nat)
    (part : p ∈ {node.1} + own node.2) : p ∈ nodeBlocks own nodes := by
  induction nodes with
  | nil => cases member
  | cons first rest ih =>
      rw [node_blocks_cons, Multiset.mem_add]
      rcases List.mem_cons.mp member with same | later
      · exact .inl (same ▸ part)
      · exact .inr (ih later)

theorem node_in_blocks (nodes : List (Nat × ι)) (node : Nat × ι) (member : node ∈ nodes) : node.1 ∈ nodeBlocks own nodes :=
  entry_in_blocks own nodes node member node.1 (Multiset.mem_add.mpr (.inl (Multiset.mem_singleton_self _)))

theorem head_in_chain (c : Chain ι) : c.head ∈ c.blocks own := Multiset.mem_add.mpr (.inl (Multiset.mem_singleton_self _))

theorem next_in_chain (c : Chain ι) : c.next ∈ c.blocks own := by
  rw [Chain.next]
  cases first : c.nodes.head? with
  | none => exact head_in_chain own c
  | some node => exact Multiset.mem_add.mpr (.inr (node_in_blocks own c.nodes node (List.mem_of_head? first)))

theorem prev_in_chain (c : Chain ι) : c.prev ∈ c.blocks own := by
  rw [Chain.prev]
  cases last : c.nodes.getLast? with
  | none => exact head_in_chain own c
  | some node => exact Multiset.mem_add.mpr (.inr (node_in_blocks own c.nodes node (List.mem_of_getLast? last)))

theorem insert_head_moves (c : Chain ι) (node : Nat) (entry : ι) :
    Moves (insertHead c node entry : Prog ε (Chain ι)) (.ok (text entry :: c.texts text)) (c.blocks own + ({node} + own entry))
      (Chain.blocks own) (Chain.texts text) := by
  apply moves_use (Multiset.mem_add.mpr (.inl (head_in_chain own c)))
  apply moves_use (Multiset.mem_add.mpr (.inl (next_in_chain own c)))
  apply moves_use
  · simp
  apply moves_pure
  · rfl
  · rw [Chain.blocks, Chain.blocks, node_blocks_cons]
    abel

theorem insert_tail_moves (c : Chain ι) (node : Nat) (entry : ι) :
    Moves (insertTail c node entry : Prog ε (Chain ι)) (.ok (c.texts text ++ [text entry])) (c.blocks own + ({node} + own entry))
      (Chain.blocks own) (Chain.texts text) := by
  apply moves_use (Multiset.mem_add.mpr (.inl (head_in_chain own c)))
  apply moves_use (Multiset.mem_add.mpr (.inl (prev_in_chain own c)))
  apply moves_use
  · simp
  apply moves_pure
  · simp [Chain.texts]
  · rw [Chain.blocks, Chain.blocks, node_blocks_snoc]
    abel

theorem each_safe_loop_moves (body : Nat × ι → Prog ε Unit) (head : Nat)
    (frees : ∀ node, Frees (body node) ({node.1} + own node.2))
    (nodes : List (Nat × ι)) :
    Moves (eachSafeLoop body head nodes) (.ok ()) ({head} + nodeBlocks own nodes) (fun _ => {head}) id := by
  induction nodes with
  | nil =>
      apply moves_use (Multiset.mem_add.mpr (.inl (Multiset.mem_singleton_self head)))
      exact moves_pure rfl (add_zero _)
  | cons node rest ih =>
      rw [node_blocks_cons]
      apply moves_use
      · simp
      apply moves_call ({head} + nodeBlocks own rest) (frees node)
      · abel
      · intro _ _
        rwa [zero_add]

theorem each_safe_moves (body : Nat × ι → Prog ε Unit) (frees : ∀ node, Frees (body node) ({node.1} + own node.2))
    (c : Chain ι) :
    Moves (eachSafe body c) (.ok ()) (c.blocks own) (fun _ => {c.head}) id :=
  moves_use (head_in_chain own c) (each_safe_loop_moves own body c.head frees c.nodes)

end

end Ownership
