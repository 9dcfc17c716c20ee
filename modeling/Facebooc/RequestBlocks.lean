import Facebooc.ListBlocks

set_option autoImplicit false

namespace Facebooc

open CMemory Ownership

-- UNKNOWN_METHOD is none.
structure RequestAt where
  request : Nat
  method : Option Method
  path : Nat
  uri : Nat
  pathText : List UInt8
  uriText : List UInt8
  queryString : Option PairChain
  postBody : Option PairChain
  cookies : Option (Chain CookieAt)
  headers : Option PairChain
deriving DecidableEq, Repr

-- Without a query the uri is the path.
def RequestAt.blocks (r : RequestAt) : Blocks :=
  {r.request} + (if r.path = r.uri then 0 else {r.uri}) + {r.path} + optional (Chain.blocks PairAt.blocks) r.queryString +
    optional (Chain.blocks PairAt.blocks) r.postBody + optional (Chain.blocks PairAt.blocks) r.headers +
    optional (Chain.blocks CookieAt.blocks) r.cookies

-- No finished request has an unknown method.
def RequestAt.text (r : RequestAt) : Request :=
  ⟨r.method.getD .OPTIONS, r.pathText, r.uriText, r.queryString.map pairsOf, r.postBody.map pairsOf,
    r.cookies.map (Chain.texts CookieAt.text), (r.headers.map pairsOf).getD []⟩

-- src/request.c
def splitUriDelete (req : RequestAt) : Prog Fault Unit := if req.path = req.uri then pure () else freeBlock req.uri

def requestDel (req : RequestAt) : Prog Fault Unit := do
  useBlock req.request
  splitUriDelete req
  freeBlock req.path
  queryDelete req.queryString
  bodyDelete req.postBody
  headerDelete req.headers
  cookiesDelete req.cookies
  freeBlock req.request

section

variable (a : Allocator)

def requestCtorAt : Prog Fault RequestAt := do
  let request ← newBlock a
  pure ⟨request, none, 0, 0, [], [], none, none, none, none⟩

-- A refused line leaves the path NULL.
def parseRequestLineAt (req : RequestAt) (buf : Object) : Prog Fault (RequestAt × Option Nat) := do
  let uri ← newBlock a
  match ← computed (parseRequestLine buf) with
  | none => do
      freeBlock uri
      pure (req, none)
  | some (method, text, offset) => do
      useBlock req.request
      pure ({ req with method := some method, path := uri, uri := uri, pathText := text, uriText := text }, some offset)

def splitQueryStringAt (req : RequestAt) : Prog Fault RequestAt :=
  match req.pathText.idxOf? (chr '?') with
  | none => pure req
  | some begin => do
      let uri ← newBlock a
      useBlock req.path
      useBlock req.request
      let query ← queryParserAt a (req.pathText.drop (begin + 1))
      pure { req with uri := uri, uriText := req.pathText.take begin, queryString := some query }

-- The part of requestNew behind the request line.
def requestListsAt (req : RequestAt) (buff : Object) (offset : Nat) : Prog Fault (Option RequestAt) := do
  let (headers, buff, offset) ← headerParserAt a buff offset
  let cookies ← cookiesParserAt a headers
  let postBody ← bodyParserAt a headers buff offset
  useBlock req.request
  pure (some { req with headers := some headers, cookies := cookies, postBody := postBody })

def requestNewAt (buff : Object) : Prog Fault (Option RequestAt) := do
  let request ← requestCtorAt a
  match ← parseRequestLineAt a request buff with
  | (request, none) => do
      requestDel request
      pure none
  | (request, some offset) => do
      let request ← splitQueryStringAt a request
      requestListsAt a request buff offset

end

theorem request_del_parts (req : RequestAt) (uri path : Blocks) (uriFrees : Frees (splitUriDelete req) uri)
    (pathFrees : Frees (freeBlock req.path : Prog Fault Unit) path) :
    Frees (requestDel req) ({req.request} + uri + path + optional (Chain.blocks PairAt.blocks) req.queryString +
      optional (Chain.blocks PairAt.blocks) req.postBody + optional (Chain.blocks PairAt.blocks) req.headers +
      optional (Chain.blocks CookieAt.blocks) req.cookies) := by
  have order : {req.request} + uri + path + optional (Chain.blocks PairAt.blocks) req.queryString +
      optional (Chain.blocks PairAt.blocks) req.postBody + optional (Chain.blocks PairAt.blocks) req.headers +
      optional (Chain.blocks CookieAt.blocks) req.cookies = uri + (path + (optional (Chain.blocks PairAt.blocks) req.queryString +
        (optional (Chain.blocks PairAt.blocks) req.postBody + (optional (Chain.blocks PairAt.blocks) req.headers +
          (optional (Chain.blocks CookieAt.blocks) req.cookies + {req.request}))))) := by abel
  rw [order]
  apply moves_use (by simp)
  exact frees_seq uriFrees (frees_seq pathFrees (frees_seq (chain_delete_frees req.queryString)
    (frees_seq (chain_delete_frees req.postBody) (frees_seq (chain_delete_frees req.headers)
      (frees_seq (cookies_delete_frees req.cookies) (block_frees req.request))))))

theorem request_del_frees (req : RequestAt) : Frees (requestDel req) req.blocks := by
  have uriFrees : Frees (splitUriDelete req) (if req.path = req.uri then 0 else {req.uri}) := by
    rw [splitUriDelete]
    split
    · exact moves_pure rfl rfl
    · exact block_frees req.uri
  exact request_del_parts req _ _ uriFrees (block_frees req.path)

section

variable (a : Allocator)

theorem request_new_steps (buff : Object) : requestNew buff = parseRequestLine buff >>= fun line =>
    match line with
    | none => .ok none
    | some (method, path, offset) => splitQueryString path >>= fun split => headerParser buff offset >>= fun parsed =>
        cookiesParser parsed.1 >>= fun cookies => bodyParser parsed.1 parsed.2.1 parsed.2.2 >>= fun body =>
          .ok (some ⟨method, path, split.1, split.2, body, cookies, parsed.1⟩) := by
  rw [requestNew, requestParse]
  cases parseRequestLine buff with
  | error fault => rfl
  | ok line =>
      cases line with
      | none => rfl
      | some line =>
          obtain ⟨method, path, offset⟩ := line
          simp only [except_ok_bind, bind_assoc]
          rfl

-- A request whose lists are not parsed yet.
def begun (request path uri : Nat) (method : Method) (pathText uriText : List UInt8) (query : Option PairChain) : RequestAt :=
  ⟨request, some method, path, uri, pathText, uriText, query, none, none, none⟩

theorem begun_blocks (request path uri : Nat) (method : Method) (pathText uriText : List UInt8) (query : Option PairChain) :
    (begun request path uri method pathText uriText query).blocks = {request} + (if path = uri then 0 else {uri}) +
      {path} + optional (Chain.blocks PairAt.blocks) query := by
  simp only [begun, RequestAt.blocks, optional, Option.map_none, Option.getD_none, add_zero]
  rfl

theorem request_in_blocks (req : RequestAt) : req.request ∈ req.blocks := by simp [RequestAt.blocks]

theorem request_lists_moves (request path uri : Nat) (method : Method) (pathText uriText : List UInt8) (query : Option PairChain)
    (buff : Object) (offset : Nat) :
    Moves (requestListsAt a (begun request path uri method pathText uriText query) buff offset)
      (headerParser buff offset >>= fun parsed => cookiesParser parsed.1 >>= fun cookies =>
        bodyParser parsed.1 parsed.2.1 parsed.2.2 >>= fun body =>
          .ok (some ⟨method, pathText, uriText, query.map pairsOf, body, cookies, parsed.1⟩))
      (begun request path uri method pathText uriText query).blocks (optional RequestAt.blocks) (Option.map RequestAt.text) := by
  apply moves_bind _ (header_parser_moves a buff offset) (zero_add _).symm
  intro parsed _
  obtain ⟨headers, buff, offset⟩ := parsed
  apply moves_bind _ (cookies_parser_moves a headers) rfl
  intro cookies _
  apply moves_bind (optional (Chain.blocks CookieAt.blocks) cookies + (begun request path uri method pathText uriText query).blocks)
    (body_parser_moves a headers buff offset)
  · abel
  intro body _
  apply moves_use (Multiset.mem_add.mpr (.inr (Multiset.mem_add.mpr (.inr (request_in_blocks (begun request path uri _ _ _ query))))))
  refine moves_pure rfl ?_
  rw [begun_blocks]
  simp only [begun, optional, Option.map_some, Option.getD_some, RequestAt.blocks]
  abel

theorem request_new_moves (buff : Object) :
    Moves (requestNewAt a buff) (requestNew buff) 0 (optional RequestAt.blocks) (Option.map RequestAt.text) := by
  rw [request_new_steps, requestNewAt, requestCtorAt, bind_assoc]
  apply moves_new
  intro request _ _
  rw [pure_bind, parseRequestLineAt, bind_assoc]
  apply moves_new
  intro path _ _
  rw [bind_assoc]
  apply moves_computed
  intro line _
  cases line with
  | none =>
      -- The line is freed, and then a request that holds nothing.
      rw [bind_assoc]
      apply moves_free ({request} + 0) rfl
      rw [pure_bind]
      let empty : RequestAt := ⟨request, none, 0, 0, [], [], none, none, none, none⟩
      apply moves_call 0 (request_del_parts empty 0 (pointed 0) (moves_pure rfl rfl) (pointed_frees 0))
      · simp [empty, optional, pointed]
      intro _ _
      exact moves_pure rfl rfl
  | some line =>
      obtain ⟨method, text, offset⟩ := line
      rw [bind_assoc]
      apply moves_use (by simp)
      rw [pure_bind]
      have whole : {path} + ({request} + 0) = (begun request path path method text text none).blocks := by
        rw [begun_blocks, if_pos rfl, optional, Option.map_none, Option.getD_none]
        abel
      rw [whole]
      dsimp only
      rw [splitQueryStringAt, splitQueryString]
      cases found : text.idxOf? (chr '?') with
      | none =>
          rw [pure_bind]
          exact request_lists_moves a request path path method text text none buff offset
      | some begin =>
          simp only [bind_assoc, pure_bind, except_ok_bind]
          apply moves_new
          intro uri _ other
          rw [← whole] at other ⊢
          apply moves_use (by simp)
          apply moves_use (by simp)
          apply moves_bind _ (form_parser_moves a (text.drop (begin + 1))) (zero_add _).symm
          intro query _
          have different : path ≠ uri := fun same => other (by simp [same])
          have owned : query.blocks PairAt.blocks + ({uri} + ({path} + ({request} + 0))) =
              (begun request path uri method text (text.take begin) (some query)).blocks := by
            rw [begun_blocks, if_neg different, optional, Option.map_some, Option.getD_some]
            abel
          rw [owned]
          exact request_lists_moves a request path uri method text (text.take begin) (some query) buff offset

-- Requests that are parsed and deleted in any order, each while others are
-- alive.
inductive RequestCall where
  | new (buff : Object)
  | del (i : Nat)
deriving DecidableEq, Repr

def requestCallAt (alive : List RequestAt) : RequestCall → Prog Fault (List RequestAt)
  | .new buff => do
      let req ← requestNewAt a buff
      pure (alive ++ req.toList)
  | .del i =>
      match alive[i]? with
      | none => pure alive
      | some req => do
          requestDel req
          pure (alive.eraseIdx i)

def requestCallsAt : List RequestAt → List RequestCall → Prog Fault (List RequestAt)
  | alive, [] => pure alive
  | alive, call :: calls => do
      let alive ← requestCallAt a alive call
      requestCallsAt alive calls

end

def requestCall (alive : List Request) : RequestCall → Except Fault (List Request)
  | .new buff => do
      let req ← requestNew buff
      .ok (alive ++ req.toList)
  | .del i => .ok (alive.eraseIdx i)

def requestCalls : List Request → List RequestCall → Except Fault (List Request)
  | alive, [] => .ok alive
  | alive, call :: calls => do
      let alive ← requestCall alive call
      requestCalls alive calls

def aliveBlocks (alive : List RequestAt) : Blocks := (alive.map RequestAt.blocks).sum

section

variable (a : Allocator)

theorem alive_erased (alive : List RequestAt) (i : Nat) (req : RequestAt) (here : alive[i]? = some req) :
    aliveBlocks alive = req.blocks + aliveBlocks (alive.eraseIdx i) := by
  induction alive generalizing i with
  | nil => cases here
  | cons first rest ih =>
      cases i with
      | zero =>
          cases here
          rfl
      | succ i =>
          have later := ih i here
          simp only [aliveBlocks, List.map_cons, List.sum_cons, List.eraseIdx_cons_succ] at later ⊢
          rw [later]
          abel

theorem request_call_moves (alive : List RequestAt) (call : RequestCall) :
    Moves (requestCallAt a alive call) (requestCall (alive.map RequestAt.text) call) (aliveBlocks alive) aliveBlocks
      (List.map RequestAt.text) := by
  cases call with
  | new buff =>
      apply moves_bind (aliveBlocks alive) (request_new_moves a buff) (zero_add _).symm
      intro req _
      cases req with
      | none =>
          refine moves_pure (by simp) ?_
          simp [optional]
      | some req =>
          refine moves_pure (by simp) ?_
          simp [optional, aliveBlocks, add_comm]
  | del i =>
      rw [requestCallAt, requestCall]
      cases here : alive[i]? with
      | none =>
          have beyond : alive.length ≤ i := List.getElem?_eq_none_iff.mp here
          refine moves_pure ?_ rfl
          rw [List.eraseIdx_of_length_le (by simpa using beyond)]
      | some req =>
          apply moves_call _ (request_del_frees req) (alive_erased alive i req here)
          intro _ _
          exact moves_pure (List.eraseIdx_map ..).symm (zero_add _)

end

end Facebooc
