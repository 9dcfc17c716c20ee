import Facebooc.Ownership
import Facebooc.Request

set_option autoImplicit false

namespace Facebooc

open CMemory Ownership

-- What malloc gave for a pair, with the texts that are stored there.
structure PairAt where
  pair : Nat
  key : Nat
  value : Nat
  entry : List UInt8 × List UInt8
deriving DecidableEq, Repr

def PairAt.blocks (p : PairAt) : Blocks := {p.pair} + {p.key} + {p.value}

abbrev PairChain := Chain PairAt

-- A cookie struct is eight pointers.
structure CookieAt where
  cookie : Nat
  key : Nat
  value : Nat
  expires : Nat
  maxAge : Nat
  domain : Nat
  path : Nat
  secure : Nat
  httponly : Nat
  text : Cookie
deriving DecidableEq, Repr

def CookieAt.blocks (c : CookieAt) : Blocks :=
  {c.cookie} + pointed c.key + pointed c.value + pointed c.expires + pointed c.maxAge + pointed c.domain + pointed c.path +
    pointed c.secure + pointed c.httponly

def optional {α : Type} (own : α → Blocks) (p : Option α) : Blocks := (p.map own).getD 0

def pairsOf (c : PairChain) : List (List UInt8 × List UInt8) := c.texts PairAt.entry

section

variable (a : Allocator)

-- src/utility.c: make_pair, with the texts of its two views.
def makePairAt (entry : List UInt8 × List UInt8) : Prog Fault PairAt := do
  let pair ← newBlock a
  let key ← newBlock a
  let value ← newBlock a
  pure ⟨pair, key, value, entry⟩

-- header_new, Query_new, Body_new and Cookies_new for the head of a list.
def chainNewAt {ι : Type} : Prog Fault (Chain ι) := do
  let head ← newBlock a
  pure ⟨head, []⟩

-- src/http/helper.c
def urlDecoderAt (str : List UInt8) : Prog Fault (Nat × Object) := do
  let newUrl ← newBlock a
  let decoded ← computed (urlDecoder str)
  pure (newUrl, decoded)

-- src/http/header.c
def headerLoopAt : Nat → Object → Nat → PairChain → Prog Fault (PairChain × Object × Nat)
  | 0, _, _, _ => computed (.error .loop)
  | rounds + 1, o, buf, h => do
      if (← computed (load o buf)) = 0 then pure (h, o, buf)
      else
        match ← computed (headerLine o buf) with
        | none => pure (h, o, buf)
        | some (o, entry, next) => do
            let newNode ← newBlock a
            let entry ← makePairAt a entry
            let h ← insertTail h newNode entry
            headerLoopAt rounds o next h

def headerParserAt (o : Object) (base : Nat) : Prog Fault (PairChain × Object × Nat) := do
  let h ← chainNewAt a
  let (h, o, buf) ← headerLoopAt a (o.length + 1) o base h
  pure (h, o, buf + 2)

def headerGetLoop (head : Nat) (key : List UInt8) : List (Nat × PairAt) → Prog Fault (Option PairAt)
  | [] => do
      useBlock head
      pure none
  | node :: rest => do
      useBlock node.1
      useBlock node.2.pair
      useBlock node.2.key
      if node.2.entry.1 = key then pure (some node.2) else headerGetLoop head key rest

def headerGetAt (h : PairChain) (key : List UInt8) : Prog Fault (Option PairAt) :=
  if key = [] then pure none
  else do
    useBlock h.head
    headerGetLoop h.head key h.nodes

-- src/http/query.c and src/http/body.c
def formLoopAt (newUrl : Nat) : Nat → Object → Nat → PairChain → Prog Fault PairChain
  | 0, _, _, _ => computed (.error .loop)
  | rounds + 1, o, decoded, form => do
      useBlock newUrl
      if (← computed (load o decoded)) = 0 then pure form
      else
        match ← computed (pairLexer o decoded (chr '=') (chr '&')) with
        | none => pure form
        | some entry => do
            let entry ← makePairAt a entry
            let newNode ← newBlock a
            let form ← insertHead form newNode entry
            let text ← computed (cstrAt o decoded)
            match text.idxOf? (chr '&') with
            | none => computed (.error .null)
            | some i => formLoopAt newUrl rounds o (decoded + i + 1) form

def formParserAt (buffer : List UInt8) : Prog Fault PairChain := do
  let form ← chainNewAt a
  let (newUrl, o) ← urlDecoderAt a buffer
  useBlock newUrl
  let text ← computed (cstrAt o 0)
  let o ← computed (store o text.length (chr '&'))
  let o ← computed (store o (text.length + 1) 0)
  let form ← formLoopAt a newUrl (o.length + 1) o 0 form
  freeBlock newUrl
  pure form

def queryParserAt (buffer : List UInt8) : Prog Fault PairChain := formParserAt a buffer

def bodyParserAt (header : PairChain) (o : Object) (buffer : Nat) : Prog Fault (Option PairChain) := do
  let contentType ← headerGetAt header (ascii "content-type")
  if (contentType.map fun pair => pair.entry.2).any isSupportedType then do
    let text ← computed (cstrAt o buffer)
    let form ← formParserAt a text
    pure (some form)
  else pure none

-- src/http/cookies.c
def singleCookieGenAt (o : Object) : Prog Fault CookieAt := do
  let text ← computed (singleCookieGen o)
  let cookie ← newBlock a
  let key ← newBlock a
  let value ← newBlock a
  pure ⟨cookie, key, value, 0, 0, 0, 0, 0, 0, text⟩

def cookieInsertAt (text : List UInt8) (cookies : Chain CookieAt) : Prog Fault (Chain CookieAt) :=
  if chr '=' ∈ text then do
    let (newUrl, decoded) ← urlDecoderAt a text
    let newCs ← newBlock a
    useBlock newUrl
    let c ← singleCookieGenAt a decoded
    let cookies ← insertHead cookies newCs c
    freeBlock newUrl
    pure cookies
  else pure cookies

-- The string is the value in the block of a header.
def cookiesLoopAt (value : Nat) : Nat → Object → Nat → Chain CookieAt → Prog Fault (Chain CookieAt)
  | 0, _, _, _ => computed (.error .loop)
  | rounds + 1, o, str, cookies => do
      useBlock value
      if (← computed (load o str)) = 0 then pure cookies
      else
        let sep ← computed (stringViewCtor o str (ascii "; "))
        let o ← computed (match sep.stop with
          | none => .ok o
          | some stop => store o (stop - 1) 0)
        let text ← computed (cstrAt o str)
        let cookies ← cookieInsertAt a text cookies
        cookiesLoopAt value rounds o (str + text.length) cookies

def cookiesParserAt (header : PairChain) : Prog Fault (Option (Chain CookieAt)) := do
  match ← headerGetAt header (ascii "cookie") with
  | none => pure none
  | some pair => do
      let cookies ← chainNewAt a
      let cookies ← cookiesLoopAt a pair.value (pair.entry.2.length + 1) (pair.entry.2 ++ [0]) 0 cookies
      pure (some cookies)

end

-- src/pair.c: SPair_delete and SSPair_delete.
def spairDelete (p : Option PairAt) : Prog Fault Unit :=
  match p with
  | none => pure ()
  | some p => do
      useBlock p.pair
      freeBlock p.key
      freeBlock p.value
      freeBlock p.pair

-- Header_del__, Query_del__ and Body_del__.
def nodeDel (node : Nat) (entry : Option PairAt) : Prog Fault Unit := do
  useBlock node
  spairDelete entry
  freeBlock node

def chainDelete (c : Option PairChain) : Prog Fault Unit :=
  match c with
  | none => pure ()
  | some c => do
      eachSafe (fun node => nodeDel node.1 (some node.2)) c
      nodeDel c.head none

def headerDelete (h : Option PairChain) : Prog Fault Unit := chainDelete h

def queryDelete (q : Option PairChain) : Prog Fault Unit := chainDelete q

def bodyDelete (b : Option PairChain) : Prog Fault Unit := chainDelete b

def singleCookieDelete (c : CookieAt) : Prog Fault Unit := do
  useBlock c.cookie
  freeBlock c.key
  freeBlock c.value
  freeBlock c.expires
  freeBlock c.maxAge
  freeBlock c.domain
  freeBlock c.path
  freeBlock c.secure
  freeBlock c.httponly
  freeBlock c.cookie

def cookiesNodeDel (node : Nat × CookieAt) : Prog Fault Unit := do
  useBlock node.1
  singleCookieDelete node.2
  freeBlock node.1

def cookiesDelete (c : Option (Chain CookieAt)) : Prog Fault Unit :=
  match c with
  | none => pure ()
  | some c => do
      eachSafe cookiesNodeDel c
      freeBlock c.head

section

variable (a : Allocator)

theorem make_pair_moves (entry : List UInt8 × List UInt8) :
    Moves (makePairAt a entry) (.ok entry) 0 PairAt.blocks PairAt.entry := by
  apply moves_new
  intro pair _ _
  apply moves_new
  intro key _ _
  apply moves_new
  intro value _ _
  refine moves_pure rfl ?_
  rw [PairAt.blocks]
  abel

theorem chain_new_moves {ι κ : Type} (own : ι → Blocks) (text : ι → κ) :
    Moves (chainNewAt a) (.ok []) 0 (Chain.blocks own) (Chain.texts text) := by
  apply moves_new
  intro head _ _
  exact moves_pure rfl rfl

theorem url_decoder_moves (str : List UInt8) :
    Moves (urlDecoderAt a str) (urlDecoder str) 0 (fun r => {r.1}) Prod.snd := by
  apply moves_new
  intro newUrl _ _
  apply moves_then 0 (computed_moves _ ({newUrl} + 0))
  · abel
  · intro decoded _
    exact moves_pure rfl (by abel)

theorem header_loop_moves (rounds : Nat) (o : Object) (buf : Nat) (h : PairChain) :
    Moves (headerLoopAt a rounds o buf h) (headerLoop rounds o buf (pairsOf h)) (h.blocks PairAt.blocks)
      (fun r => r.1.blocks PairAt.blocks) (fun r => (pairsOf r.1, r.2)) := by
  induction rounds generalizing o buf h with
  | zero => exact stopped_moves
  | succ rounds ih =>
      rw [headerLoopAt, headerLoop]
      apply moves_computed
      intro c _
      split
      · exact moves_pure rfl rfl
      apply moves_computed
      intro line _
      cases line with
      | none => exact moves_pure rfl rfl
      | some line =>
          obtain ⟨o, entry, next⟩ := line
          apply moves_new
          intro newNode _ _
          apply moves_call _ (make_pair_moves a entry) (zero_add _).symm
          intro pair same
          apply moves_call 0 (insert_tail_moves PairAt.blocks PairAt.entry h newNode pair)
          · abel
          · intro longer texts
            have pairs : pairsOf longer = pairsOf h ++ [entry] := by rw [pairsOf, texts, same, pairsOf]
            dsimp only
            rw [add_zero, ← pairs]
            exact ih o next longer

theorem header_parser_moves (o : Object) (base : Nat) :
    Moves (headerParserAt a o base) (headerParser o base) 0 (fun r => r.1.blocks PairAt.blocks) (fun r => (pairsOf r.1, r.2)) := by
  rw [headerParserAt, headerParser]
  apply moves_call 0 (chain_new_moves a PairAt.blocks PairAt.entry) (zero_add 0).symm
  intro h texts
  have loop := header_loop_moves a (o.length + 1) o base h
  rw [pairsOf, texts] at loop
  apply moves_bind 0 loop rfl
  intro r _
  exact moves_pure rfl (add_zero _)

theorem form_loop_moves (newUrl : Nat) (rounds : Nat) (o : Object) (decoded : Nat) (form : PairChain) :
    Moves (formLoopAt a newUrl rounds o decoded form) (formLoop rounds o decoded (pairsOf form)) (form.blocks PairAt.blocks + {newUrl})
      (fun r => r.blocks PairAt.blocks + {newUrl}) pairsOf := by
  induction rounds generalizing decoded form with
  | zero => exact stopped_moves
  | succ rounds ih =>
      rw [formLoopAt, formLoop]
      apply moves_use (Multiset.mem_add.mpr (.inr (Multiset.mem_singleton_self newUrl)))
      apply moves_computed
      intro c _
      split
      · exact moves_pure rfl rfl
      apply moves_computed
      intro read _
      cases read with
      | none => exact moves_pure rfl rfl
      | some entry =>
          apply moves_call _ (make_pair_moves a entry) (zero_add _).symm
          intro pair same
          apply moves_new
          intro newNode _ _
          apply moves_call {newUrl} (insert_head_moves PairAt.blocks PairAt.entry form newNode pair)
          · abel
          intro longer texts
          have pairs : pairsOf longer = entry :: pairsOf form := by rw [pairsOf, texts, same, pairsOf]
          apply moves_computed
          intro text _
          cases text.idxOf? (chr '&') with
          | none => exact stopped_moves
          | some i =>
              dsimp only
              rw [← pairs]
              exact ih (decoded + i + 1) longer

theorem form_parser_moves (buffer : List UInt8) :
    Moves (formParserAt a buffer) (formParser buffer) 0 (Chain.blocks PairAt.blocks) pairsOf := by
  rw [formParserAt, formParser]
  apply moves_call 0 (chain_new_moves a PairAt.blocks PairAt.entry) (zero_add 0).symm
  intro form texts
  apply moves_bind (form.blocks PairAt.blocks) (url_decoder_moves a buffer)
  · abel
  intro r _
  obtain ⟨newUrl, o⟩ := r
  apply moves_use (Multiset.mem_add.mpr (.inl (Multiset.mem_singleton_self newUrl)))
  apply moves_computed
  intro text _
  apply moves_computed
  intro o _
  apply moves_computed
  intro o _
  have loop := form_loop_moves a newUrl (o.length + 1) o 0 form
  rw [pairsOf, texts] at loop
  apply moves_then 0 loop
  · abel
  intro form _
  apply moves_free (form.blocks PairAt.blocks)
  · abel
  · exact moves_pure rfl rfl

def headerFind (h : PairChain) (key : List UInt8) : Option PairAt :=
  (h.nodes.find? fun node => node.2.entry.1 = key).map Prod.snd

theorem header_find_text (h : PairChain) (key : List UInt8) (given : key ≠ []) :
    headerGet (pairsOf h) key = (headerFind h key).map fun pair => pair.entry.2 := by
  rw [headerGet, if_neg given, headerFind, pairsOf, Chain.texts, List.find?_map, Option.map_map, Option.map_map]
  rfl

theorem header_find_in (h : PairChain) (key : List UInt8) (pair : PairAt) (found : headerFind h key = some pair) :
    pair.value ∈ h.blocks PairAt.blocks := by
  obtain ⟨node, first, same⟩ := Option.map_eq_some_iff.mp found
  subst same
  apply Multiset.mem_add.mpr (.inr _)
  exact entry_in_blocks PairAt.blocks h.nodes node (List.mem_of_find?_eq_some first) _ (by simp [PairAt.blocks])

theorem header_get_loop_moves (live : Blocks) (head : Nat) (key : List UInt8) (inside : head ∈ live) (nodes : List (Nat × PairAt))
    (nodesIn : ∀ node ∈ nodes, ∀ p ∈ {node.1} + node.2.blocks, p ∈ live) :
    Moves (headerGetLoop head key nodes) (.ok ((nodes.find? fun node => node.2.entry.1 = key).map Prod.snd)) live
      (fun _ => live) id := by
  induction nodes with
  | nil => exact moves_use inside (moves_pure rfl rfl)
  | cons node rest ih =>
      have here := nodesIn node List.mem_cons_self
      apply moves_use (here _ (by simp))
      apply moves_use (here _ (by simp [PairAt.blocks]))
      apply moves_use (here _ (by simp [PairAt.blocks]))
      by_cases same : node.2.entry.1 = key
      · rw [if_pos same, List.find?_cons_of_pos (by simpa using same)]
        exact moves_pure rfl rfl
      · rw [if_neg same, List.find?_cons_of_neg (by simpa using same)]
        exact ih fun later member => nodesIn later (List.mem_cons_of_mem _ member)

theorem header_get_moves (h : PairChain) (key : List UInt8) (given : key ≠ []) :
    Moves (headerGetAt h key) (.ok (headerFind h key)) (h.blocks PairAt.blocks) (fun _ => h.blocks PairAt.blocks) id := by
  rw [headerGetAt, if_neg given]
  apply moves_use (head_in_chain PairAt.blocks h)
  apply header_get_loop_moves _ _ _ (head_in_chain PairAt.blocks h)
  intro node member p part
  exact Multiset.mem_add.mpr (.inr (entry_in_blocks PairAt.blocks h.nodes node member p part))

theorem body_parser_moves (header : PairChain) (o : Object) (buffer : Nat) :
    Moves (bodyParserAt a header o buffer) (bodyParser (pairsOf header) o buffer) (header.blocks PairAt.blocks)
      (fun b => header.blocks PairAt.blocks + optional (Chain.blocks PairAt.blocks) b) (Option.map pairsOf) := by
  rw [bodyParserAt, bodyParser, checkHeader, header_find_text header _ (by decide)]
  apply moves_call 0 (header_get_moves header _ (by decide)) (add_zero _).symm
  intro contentType found
  rw [← found, id]
  split
  · apply moves_computed
    intro text _
    apply moves_bind (header.blocks PairAt.blocks) (form_parser_moves a text)
    · abel
    intro form _
    refine moves_pure rfl ?_
    rw [optional, Option.map_some, Option.getD_some]
    abel
  · exact moves_pure rfl rfl

theorem single_cookie_gen_moves (o : Object) :
    Moves (singleCookieGenAt a o) (singleCookieGen o) 0 CookieAt.blocks CookieAt.text := by
  apply moves_then 0 (computed_moves _ 0) (add_zero 0).symm
  intro text _
  apply moves_new
  intro cookie _ _
  apply moves_new
  intro key keyGiven _
  apply moves_new
  intro value valueGiven _
  refine moves_pure rfl ?_
  simp only [CookieAt.blocks, pointed, if_neg keyGiven, if_neg valueGiven, if_true]
  abel

theorem cookie_insert_moves (text : List UInt8) (cookies : Chain CookieAt) :
    Moves (cookieInsertAt a text cookies) (cookieInsert text (cookies.texts CookieAt.text)) (cookies.blocks CookieAt.blocks)
      (Chain.blocks CookieAt.blocks) (Chain.texts CookieAt.text) := by
  rw [cookieInsertAt, cookieInsert]
  split
  · apply moves_bind (cookies.blocks CookieAt.blocks) (url_decoder_moves a text) (zero_add _).symm
    intro r _
    obtain ⟨newUrl, decoded⟩ := r
    apply moves_new
    intro newCs _ _
    apply moves_use
    · simp
    apply moves_bind _ (single_cookie_gen_moves a decoded) (zero_add _).symm
    intro c _
    apply moves_call {newUrl} (insert_head_moves CookieAt.blocks CookieAt.text cookies newCs c)
    · abel
    intro cookies texts
    apply moves_free (cookies.blocks CookieAt.blocks)
    · abel
    · exact moves_pure texts rfl
  · exact moves_pure rfl rfl

theorem cookies_loop_moves (value : Nat) (held : Blocks) (inside : value ∈ held) (rounds : Nat) (o : Object) (str : Nat)
    (cookies : Chain CookieAt) :
    Moves (cookiesLoopAt a value rounds o str cookies) (cookiesLoop rounds o str (cookies.texts CookieAt.text))
      (cookies.blocks CookieAt.blocks + held) (fun c => c.blocks CookieAt.blocks + held) (Chain.texts CookieAt.text) := by
  induction rounds generalizing o str cookies with
  | zero => exact stopped_moves
  | succ rounds ih =>
      rw [cookiesLoopAt, cookiesLoop]
      apply moves_use (Multiset.mem_add.mpr (.inr inside))
      apply moves_computed
      intro c _
      split
      · exact moves_pure rfl rfl
      apply moves_computed
      intro sep _
      have later (o : Object) : Moves
          (computed (cstrAt o str) >>= fun text => cookieInsertAt a text cookies >>= cookiesLoopAt a value rounds o (str + text.length))
          (cstrAt o str >>= fun text =>
            cookieInsert text (cookies.texts CookieAt.text) >>= cookiesLoop rounds o (str + text.length))
          (cookies.blocks CookieAt.blocks + held) (fun c => c.blocks CookieAt.blocks + held) (Chain.texts CookieAt.text) := by
        apply moves_computed
        intro text _
        apply moves_bind held (cookie_insert_moves a text cookies) rfl
        intro cookies _
        exact ih o _ cookies
      cases sep.stop with
      | none => exact later o
      | some stop => exact moves_computed fun o _ => later o

theorem cookies_parser_moves (header : PairChain) :
    Moves (cookiesParserAt a header) (cookiesParser (pairsOf header)) (header.blocks PairAt.blocks)
      (fun c => header.blocks PairAt.blocks + optional (Chain.blocks CookieAt.blocks) c)
      (Option.map (Chain.texts CookieAt.text)) := by
  rw [cookiesParserAt, cookiesParser, header_find_text header _ (by decide)]
  apply moves_call 0 (header_get_moves header _ (by decide)) (add_zero _).symm
  intro cookie found
  rw [← found, id]
  cases cookie with
  | none => exact moves_pure rfl rfl
  | some pair =>
      apply moves_call (header.blocks PairAt.blocks) (chain_new_moves a CookieAt.blocks CookieAt.text)
      · abel
      intro cookies texts
      have loop := cookies_loop_moves a pair.value _ (header_find_in header _ pair found.symm) (pair.entry.2.length + 1)
        (pair.entry.2 ++ [0]) 0 cookies
      rw [texts] at loop
      apply moves_bind 0 loop (add_zero _).symm
      intro cookies _
      refine moves_pure rfl ?_
      rw [optional, Option.map_some, Option.getD_some]
      abel

end

theorem spair_delete_frees (p : Option PairAt) : Frees (spairDelete p) (optional PairAt.blocks p) := by
  cases p with
  | none => exact moves_pure rfl rfl
  | some p =>
      have order : optional PairAt.blocks (some p) = {p.key} + ({p.value} + {p.pair}) := by
        rw [optional, Option.map_some, Option.getD_some, PairAt.blocks]
        abel
      rw [order]
      apply moves_use (by simp)
      exact frees_seq (block_frees p.key) (frees_seq (block_frees p.value) (block_frees p.pair))

theorem node_del_frees (node : Nat) (entry : Option PairAt) : Frees (nodeDel node entry) ({node} + optional PairAt.blocks entry) := by
  rw [add_comm]
  apply moves_use (by simp)
  exact frees_seq (spair_delete_frees entry) (block_frees node)

theorem chain_delete_frees (c : Option PairChain) : Frees (chainDelete c) (optional (Chain.blocks PairAt.blocks) c) := by
  cases c with
  | none => exact moves_pure rfl rfl
  | some c =>
      apply moves_call 0 (each_safe_moves PairAt.blocks _ (fun node => node_del_frees node.1 (some node.2)) c) (add_zero _).symm
      intro _ _
      exact node_del_frees c.head none

theorem single_cookie_delete_frees (c : CookieAt) : Frees (singleCookieDelete c) c.blocks := by
  have order : c.blocks = pointed c.key + (pointed c.value + (pointed c.expires + (pointed c.maxAge + (pointed c.domain +
      (pointed c.path + (pointed c.secure + (pointed c.httponly + {c.cookie}))))))) := by
    rw [CookieAt.blocks]
    abel
  rw [order]
  apply moves_use (by simp)
  exact frees_seq (pointed_frees _) (frees_seq (pointed_frees _) (frees_seq (pointed_frees _) (frees_seq (pointed_frees _)
    (frees_seq (pointed_frees _) (frees_seq (pointed_frees _) (frees_seq (pointed_frees _) (frees_seq (pointed_frees _)
      (block_frees c.cookie))))))))

theorem cookies_node_del_frees (node : Nat × CookieAt) : Frees (cookiesNodeDel node) ({node.1} + node.2.blocks) := by
  rw [add_comm]
  apply moves_use (by simp)
  exact frees_seq (single_cookie_delete_frees node.2) (block_frees node.1)

theorem cookies_delete_frees (c : Option (Chain CookieAt)) : Frees (cookiesDelete c) (optional (Chain.blocks CookieAt.blocks) c) := by
  cases c with
  | none => exact moves_pure rfl rfl
  | some c =>
      apply moves_call 0 (each_safe_moves CookieAt.blocks _ cookies_node_del_frees c) (add_zero _).symm
      intro _ _
      exact block_frees c.head

end Facebooc
