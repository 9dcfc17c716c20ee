import Facebooc.RequestBlocks
import Facebooc.Serve

set_option autoImplicit false

namespace Facebooc

open CMemory Ownership Runs

structure ResponseAt where
  response : Nat
  status : Status
  header : PairChain
  body : Nat
  bodyText : List UInt8
deriving DecidableEq, Repr

def ResponseAt.blocks (r : ResponseAt) : Blocks := {r.response} + r.header.blocks PairAt.blocks + pointed r.body

def ResponseAt.text (r : ResponseAt) : Reply := ⟨r.status, pairsOf r.header, r.bodyText⟩

structure BasicStringAt where
  string : Nat
  data : Nat
  text : List UInt8
deriving DecidableEq, Repr

def BasicStringAt.blocks (s : BasicStringAt) : Blocks := {s.string} + pointed s.data

-- What a handler does to a response, in any order and as often as it likes.
inductive ResponseCall where
  | setStatus (status : Status)
  | addHeader (key value : List UInt8)
  | addCookie (c : SetCookie)
  | setBody (text : List UInt8)
  | setBodyMove (text : List UInt8)
deriving DecidableEq, Repr

def replyCall (r : Reply) : ResponseCall → Reply
  | .setStatus status => { r with status := status }
  | .addHeader key value => { r with header := r.header ++ [(key, value)] }
  | .addCookie c => { r with header := r.header ++ [(ascii "Set-Cookie", cookieToString c)] }
  | .setBody text => { r with body := text }
  | .setBodyMove text => { r with body := text }

def replyNew : Reply := ⟨.OK, [], []⟩

section

variable (a : Allocator)

def basicStringAt (text : List UInt8) : Prog Fault BasicStringAt := do
  let string ← newBlock a
  let data ← newBlock a
  pure ⟨string, data, text⟩

def headerInsertMoveAt (h : PairChain) (p : PairAt) : Prog Fault PairChain := do
  let newNode ← newBlock a
  insertTail h newNode p

-- src/response.c. Strings are copied into pairs of their own; that of a cookie
-- is the one Cookie_to_string makes.
def responseNewAt : Prog Fault ResponseAt := do
  let response ← newBlock a
  let header ← chainNewAt a
  pure ⟨response, .OK, header, 0, []⟩

def responseAddHeaderAt (r : ResponseAt) (entry : List UInt8 × List UInt8) : Prog Fault ResponseAt := do
  let p ← makePairAt a entry
  useBlock r.response
  let header ← headerInsertMoveAt a r.header p
  pure { r with header := header }

def responseAddCookieAt (r : ResponseAt) (c : SetCookie) : Prog Fault ResponseAt :=
  responseAddHeaderAt a r (ascii "Set-Cookie", cookieToString c)

def responseSetBodyAt (r : ResponseAt) (text : List UInt8) : Prog Fault ResponseAt := do
  useBlock r.response
  freeBlock r.body
  let body ← newBlock a
  pure { r with body := body, bodyText := text }

end

def responseSetStatusAt (r : ResponseAt) (status : Status) : Prog Fault ResponseAt := do
  useBlock r.response
  pure { r with status := status }

def responseSetBodyMoveAt (r : ResponseAt) (ctx : BasicStringAt) : Prog Fault ResponseAt := do
  useBlock r.response
  freeBlock r.body
  useBlock ctx.string
  freeBlock ctx.string
  pure { r with body := ctx.data, bodyText := ctx.text }

def responseDel (r : ResponseAt) : Prog Fault Unit := do
  useBlock r.response
  headerDelete (some r.header)
  freeBlock r.body
  freeBlock r.response

section

variable (a : Allocator)

def responseCallAt (r : ResponseAt) : ResponseCall → Prog Fault ResponseAt
  | .setStatus status => responseSetStatusAt r status
  | .addHeader key value => responseAddHeaderAt a r (key, value)
  | .addCookie c => responseAddCookieAt a r c
  | .setBody text => responseSetBodyAt a r text
  | .setBodyMove text => do
      let ctx ← basicStringAt a text
      responseSetBodyMoveAt r ctx

def responseCallsAt : ResponseAt → List ResponseCall → Prog Fault ResponseAt
  | r, [] => pure r
  | r, call :: calls => do
      let r ← responseCallAt a r call
      responseCallsAt r calls

def responseBuildAt (calls : List ResponseCall) : Prog Fault ResponseAt := do
  let r ← responseNewAt a
  responseCallsAt a r calls

-- The block that realloc gives may be the old one.
def reallocAt (grow : Prop) [Decidable grow] (sbuf : Nat) : Prog Fault Nat :=
  if grow then do
    freeBlock sbuf
    newBlock a
  else pure sbuf

def headerStringLoopAt : List (Nat × PairAt) → UInt32 → Nat → Object → Int → Prog Fault (UInt32 × Nat × Object)
  | [], respSize, sbuf, o, _ => pure (respSize, sbuf, o)
  | node :: rest, respSize, sbuf, o, index => do
      useBlock node.1
      useBlock node.2.pair
      useBlock node.2.key
      useBlock node.2.value
      let entryLen := node.2.entry.1.length + node.2.entry.2.length + 5
      let grow := respSize.toNat < ((entryLen : Int) + index) % 2 ^ 64
      let respSize := if grow then respSize <<< 1 else respSize
      let sbuf ← reallocAt a grow sbuf
      useBlock sbuf
      let o ← computed (printAt (if grow then realloc o respSize.toNat else o) index (entryText node.2.entry))
      headerStringLoopAt rest respSize sbuf o (Int.bmod (index + (entryLen - 1)) (2 ^ 32))

def headerToStringAt (respSize : UInt32) (h : PairChain) : Prog Fault (UInt32 × Option (Nat × Object)) := do
  useBlock h.head
  if h.nodes = [] then pure (respSize, none)
  else do
    let sbuf ← newBlock a
    let (respSize, sbuf, o) ← headerStringLoopAt a h.nodes respSize sbuf (List.replicate respSize.toNat 0) 0
    pure (respSize, some (sbuf, o))

def responseWriteAt (respSize : UInt32) (r : ResponseAt) : Prog Fault (UInt32 × List UInt8) := do
  useBlock r.response
  let line ← computed (statusLine r.status.code)
  let (respSize, header) ← headerToStringAt a respSize r.header
  let sbuf := (header.map Prod.fst).getD 0
  readBlock sbuf
  let head ← computed (match header with
    | none => .ok []
    | some (_, o) => cstrAt o 0)
  freeBlock sbuf
  readBlock r.body
  pure (respSize, line ++ head ++ ascii "\r\n" ++ r.bodyText)

theorem basic_string_moves (text : List UInt8) :
    Moves (basicStringAt a text) (.ok text) 0 BasicStringAt.blocks BasicStringAt.text := by
  apply moves_new
  intro string _ _
  apply moves_new
  intro data given _
  refine moves_pure rfl ?_
  rw [BasicStringAt.blocks, pointed, if_neg given]
  abel

theorem response_add_header_moves (r : ResponseAt) (entry : List UInt8 × List UInt8) :
    Moves (responseAddHeaderAt a r entry) (.ok ⟨r.status, pairsOf r.header ++ [entry], r.bodyText⟩) r.blocks ResponseAt.blocks
      ResponseAt.text := by
  apply moves_call r.blocks (make_pair_moves a entry) (zero_add _).symm
  intro p same
  apply moves_use (by simp [ResponseAt.blocks])
  rw [headerInsertMoveAt, bind_assoc]
  apply moves_new
  intro newNode _ _
  apply moves_call ({r.response} + pointed r.body) (insert_tail_moves PairAt.blocks PairAt.entry r.header newNode p)
  · rw [ResponseAt.blocks]
    abel
  intro header texts
  refine moves_pure ?_ ?_
  · rw [ResponseAt.text, pairsOf, texts, same, pairsOf]
  · rw [ResponseAt.blocks]
    abel

theorem response_set_body_moves (r : ResponseAt) (text : List UInt8) :
    Moves (responseSetBodyAt a r text) (.ok ⟨r.status, pairsOf r.header, text⟩) r.blocks ResponseAt.blocks ResponseAt.text := by
  apply moves_use (by simp [ResponseAt.blocks])
  apply moves_call ({r.response} + r.header.blocks PairAt.blocks) (pointed_frees r.body)
  · rw [ResponseAt.blocks]
    abel
  intro _ _
  apply moves_new
  intro body given _
  refine moves_pure rfl ?_
  rw [ResponseAt.blocks, pointed, if_neg given]
  abel

theorem response_set_body_move_moves (r : ResponseAt) (ctx : BasicStringAt) :
    Moves (responseSetBodyMoveAt r ctx) (.ok ⟨r.status, pairsOf r.header, ctx.text⟩) (ctx.blocks + r.blocks) ResponseAt.blocks
      ResponseAt.text := by
  apply moves_use (by simp [ResponseAt.blocks])
  apply moves_call ({r.response} + r.header.blocks PairAt.blocks + ctx.blocks) (pointed_frees r.body)
  · rw [ResponseAt.blocks]
    abel
  intro _ _
  apply moves_use (by simp [BasicStringAt.blocks])
  apply moves_free ({r.response} + r.header.blocks PairAt.blocks + pointed ctx.data)
  · rw [BasicStringAt.blocks]
    abel
  · exact moves_pure rfl rfl

theorem response_call_moves (r : ResponseAt) (call : ResponseCall) :
    Moves (responseCallAt a r call) (.ok (replyCall r.text call)) r.blocks ResponseAt.blocks ResponseAt.text := by
  cases call with
  | setStatus status => exact moves_use (by simp [ResponseAt.blocks]) (moves_pure rfl rfl)
  | addHeader key value => exact response_add_header_moves a r (key, value)
  | addCookie c => exact response_add_header_moves a r (ascii "Set-Cookie", cookieToString c)
  | setBody text => exact response_set_body_moves a r text
  | setBodyMove text =>
      apply moves_call r.blocks (basic_string_moves a text) (zero_add _).symm
      intro ctx same
      have set := response_set_body_move_moves r ctx
      rwa [same] at set

theorem response_calls_moves (calls : List ResponseCall) (r : ResponseAt) :
    Moves (responseCallsAt a r calls) (.ok (run replyCall r.text calls)) r.blocks ResponseAt.blocks ResponseAt.text := by
  induction calls generalizing r with
  | nil => exact moves_pure rfl rfl
  | cons call calls ih =>
      apply moves_call 0 (response_call_moves a r call) (add_zero _).symm
      intro next same
      have later := ih next
      rw [add_zero]
      rwa [same] at later

theorem response_build_moves (calls : List ResponseCall) :
    Moves (responseBuildAt a calls) (.ok (run replyCall replyNew calls)) 0 ResponseAt.blocks ResponseAt.text := by
  rw [responseBuildAt, responseNewAt, bind_assoc]
  apply moves_new
  intro response _ _
  rw [bind_assoc]
  apply moves_call ({response} + 0) (chain_new_moves a PairAt.blocks PairAt.entry) (zero_add _).symm
  intro header texts
  rw [pure_bind]
  have later := response_calls_moves a calls ⟨response, .OK, header, 0, []⟩
  have own : header.blocks PairAt.blocks + ({response} + 0) = (⟨response, .OK, header, 0, []⟩ : ResponseAt).blocks := by
    simp only [ResponseAt.blocks, pointed, if_true]
    abel
  have fresh : (⟨response, .OK, header, 0, []⟩ : ResponseAt).text = replyNew := by
    rw [ResponseAt.text, pairsOf, texts]
    rfl
  rw [fresh] at later
  rw [own]
  exact later

theorem response_del_frees (r : ResponseAt) : Frees (responseDel r) r.blocks := by
  have order : r.blocks = optional (Chain.blocks PairAt.blocks) (some r.header) + (pointed r.body + {r.response}) := by
    rw [ResponseAt.blocks, optional, Option.map_some, Option.getD_some]
    abel
  rw [order]
  apply moves_use (by simp)
  exact frees_seq (chain_delete_frees (some r.header)) (frees_seq (pointed_frees r.body) (block_frees r.response))

theorem realloc_moves (grow : Prop) [Decidable grow] (sbuf : Nat) :
    Moves (reallocAt a grow sbuf) (.ok ()) {sbuf} (fun p => {p}) (fun _ => ()) := by
  rw [reallocAt]
  split
  · exact moves_free 0 (add_zero _).symm (block_new a)
  · exact moves_pure rfl rfl

theorem header_string_loop_moves (held : Blocks) (nodes : List (Nat × PairAt))
    (nodesIn : ∀ node ∈ nodes, ∀ p ∈ {node.1} + node.2.blocks, p ∈ held) (respSize : UInt32) (sbuf : Nat) (o : Object)
    (index : Int) :
    Moves (headerStringLoopAt a nodes respSize sbuf o index) (headerStringLoop (nodes.map fun node => node.2.entry) respSize o index)
      (held + {sbuf}) (fun r => held + {r.2.1}) (fun r => (r.1, r.2.2)) := by
  induction nodes generalizing respSize sbuf o index with
  | nil => exact moves_pure rfl rfl
  | cons node rest ih =>
      have here (p : Nat) (part : p ∈ {node.1} + node.2.blocks) : p ∈ held + {sbuf} :=
        Multiset.mem_add.mpr (.inl (nodesIn node List.mem_cons_self p part))
      apply moves_use (here _ (by simp))
      apply moves_use (here _ (by simp [PairAt.blocks]))
      apply moves_use (here _ (by simp [PairAt.blocks]))
      apply moves_use (here _ (by simp [PairAt.blocks]))
      apply moves_call held (realloc_moves a _ sbuf) (add_comm _ _)
      intro sbuf _
      rw [add_comm {sbuf} held, List.map_cons, headerStringLoop]
      apply moves_use (by simp)
      apply moves_computed
      intro o _
      exact ih (fun later member => nodesIn later (List.mem_cons_of_mem _ member)) _ sbuf o _

theorem header_to_string_moves (respSize : UInt32) (h : PairChain) :
    Moves (headerToStringAt a respSize h) (headerToString respSize (pairsOf h)) (h.blocks PairAt.blocks)
      (fun r => h.blocks PairAt.blocks + optional (fun s => {s.1}) r.2) (fun r => (r.1, r.2.map Prod.snd)) := by
  rw [headerToStringAt, headerToString]
  by_cases empty : h.nodes = []
  · have nothing : pairsOf h = [] := by rw [pairsOf, Chain.texts, empty, List.map_nil]
    rw [if_pos empty, if_pos nothing]
    apply moves_use (head_in_chain PairAt.blocks h)
    exact moves_pure rfl (add_zero _).symm
  · have some_pair : pairsOf h ≠ [] := fun nothing => empty (List.map_eq_nil_iff.mp nothing)
    rw [if_neg empty, if_neg some_pair]
    apply moves_use (head_in_chain PairAt.blocks h)
    apply moves_new
    intro sbuf _ _
    have inside : ∀ node ∈ h.nodes, ∀ p ∈ {node.1} + node.2.blocks, p ∈ h.blocks PairAt.blocks := fun node member p part =>
      Multiset.mem_add.mpr (.inr (entry_in_blocks PairAt.blocks h.nodes node member p part))
    apply moves_bind 0 (header_string_loop_moves a _ h.nodes inside respSize sbuf (List.replicate respSize.toNat 0) 0)
    · abel
    intro r _
    exact moves_pure rfl (add_zero _)

theorem response_write_moves (respSize : UInt32) (r : ResponseAt) :
    Moves (responseWriteAt a respSize r) (responseWrite respSize r.status (pairsOf r.header) r.bodyText) r.blocks (fun _ => r.blocks)
      id := by
  rw [responseWriteAt, responseWrite]
  apply moves_use (by simp [ResponseAt.blocks])
  apply moves_computed
  intro line _
  apply moves_bind ({r.response} + pointed r.body) (header_to_string_moves a respSize r.header)
  · rw [ResponseAt.blocks]
    abel
  intro written _
  obtain ⟨respSize, header⟩ := written
  have body : ∀ q ∈ pointed r.body, q ∈ r.blocks := fun q member => Multiset.mem_add.mpr (.inr member)
  cases header with
  | none =>
      apply moves_read (by simp [pointed])
      refine moves_computed fun head _ => ?_
      apply moves_call r.blocks (pointed_frees 0)
      · simp only [optional, Option.map_none, Option.getD_none, pointed, if_true, ResponseAt.blocks]
        abel
      intro _ _
      rw [zero_add]
      exact moves_read body (moves_pure rfl rfl)
  | some header =>
      obtain ⟨sbuf, o⟩ := header
      apply moves_read
      · intro q member
        rw [pointed] at member
        split at member
        · cases member
        · simp [optional, Multiset.mem_singleton.mp member]
      refine moves_computed fun head _ => ?_
      apply moves_free r.blocks
      · simp only [optional, Option.map_some, Option.getD_some, ResponseAt.blocks]
        abel
      · exact moves_read body (moves_pure rfl rfl)

end

end Facebooc
