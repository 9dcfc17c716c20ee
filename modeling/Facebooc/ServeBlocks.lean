import Facebooc.ResponseBlocks

set_option autoImplicit false

namespace Facebooc

open CMemory Ownership Runs

-- The calls by which handlers make their replies, in whatever order.
structure Builder where
  calls : Reply → List ResponseCall
  builds : ∀ reply, run replyCall replyNew (calls reply) = reply

def headerCalls (header : Header) : List ResponseCall := header.map fun entry => .addHeader entry.1 entry.2

theorem header_calls_added (header : Header) (reply : Reply) :
    run replyCall reply (headerCalls header) = { reply with header := reply.header ++ header } := by
  induction header generalizing reply with
  | nil => simp [run, headerCalls]
  | cons entry rest ih =>
      have next := ih (replyCall reply (.addHeader entry.1 entry.2))
      rw [run, headerCalls] at next
      rw [headerCalls, List.map_cons, run, List.foldl_cons, next]
      simp [replyCall]

instance : Inhabited Builder where
  default := {
    calls := fun reply => .setStatus reply.status :: .setBodyMove reply.body :: headerCalls reply.header
    builds := fun reply => header_calls_added reply.header ⟨reply.status, [], reply.body⟩ }

-- src/server.c: handle between recv and the close. What a handler allocates for
-- itself or keeps, as static_file_table, is left out; that the table keeps a key
-- into the uri of a request shows as the fault of a later lookup.
def serveAt (a : Allocator) (builder : Builder) (site : Site) (process : Process) (incoming : Incoming) :
    Prog Fault (Process × List UInt8) :=
  if incoming.received = [] then pure (process, [])
  else do
    let buff ← computed (terminate incoming.received incoming.stack)
    match ← requestNewAt a buff with
    | none => pure (process, badRequest.take 39)
    | some req => do
        useBlock req.request
        useBlock req.uri
        let handler ← computed (dispatch site.handlers req.uriText)
        let called := callRoute site process incoming req.text handler
        match ← computed called.2 with
        | none => do
            requestDel req
            pure (called.1, [])
        | some reply => do
            let response ← responseBuildAt a (builder.calls reply)
            useBlock req.path
            useBlock response.response
            let (respSize, sent) ← responseWriteAt a process.respSize response
            responseDel response
            requestDel req
            pure ({ called.1 with respSize := respSize }, sent)

def serveRunAt (a : Allocator) (builder : Builder) (site : Site) :
    Process → List Incoming → Prog Fault (Process × List (List UInt8))
  | process, [] => pure (process, [])
  | process, incoming :: rest => do
      let (process, sent) ← serveAt a builder site process incoming
      let (process, later) ← serveRunAt a builder site process rest
      pure (process, sent :: later)

-- The same run without a heap: the process ends at the first fault.
def serveStep (site : Site) (process : Process) (incoming : Incoming) : Except Fault (Process × List UInt8) :=
  (serve site process incoming).2.map fun sent => (serveNext site process incoming, sent)

def serveRun (site : Site) : Process → List Incoming → Except Fault (Process × List (List UInt8))
  | process, [] => .ok (process, [])
  | process, incoming :: rest => do
      let (process, sent) ← serveStep site process incoming
      let (process, later) ← serveRun site process rest
      .ok (process, sent :: later)

theorem uri_in_blocks (req : RequestAt) : req.uri ∈ req.blocks := by
  by_cases same : req.path = req.uri
  · simp [RequestAt.blocks, same]
  · simp [RequestAt.blocks, if_neg same]

theorem serve_step_steps (site : Site) (process : Process) (incoming : Incoming) (given : incoming.received ≠ []) :
    serveStep site process incoming = terminate incoming.received incoming.stack >>= fun buff => requestNew buff >>= fun req =>
      match req with
      | none => .ok (process, badRequest.take 39)
      | some req => dispatch site.handlers req.uri >>= fun handler =>
          (callRoute site process incoming req handler).2 >>= fun reply =>
            match reply with
            | none => .ok ((callRoute site process incoming req handler).1, [])
            | some reply => responseWrite process.respSize reply.status reply.header reply.body >>= fun written =>
                .ok ({ (callRoute site process incoming req handler).1 with respSize := written.1 }, written.2) := by
  rw [serveStep, serveNext, follow, serve, if_neg given]
  cases terminate incoming.received incoming.stack with
  | error fault => rfl
  | ok buff =>
      simp only [except_ok_bind]
      cases requestNew buff with
      | error fault => rfl
      | ok req =>
          cases req with
          | none => rfl
          | some req =>
              simp only [except_ok_bind]
              cases dispatch site.handlers req.uri with
              | error fault => rfl
              | ok handler =>
                  simp only [except_ok_bind]
                  cases (callRoute site process incoming req handler).2 with
                  | error fault => rfl
                  | ok reply =>
                      cases reply with
                      | none => rfl
                      | some reply =>
                          simp only [except_ok_bind]
                          cases responseWrite process.respSize reply.status reply.header reply.body with
                          | error fault => rfl
                          | ok written => rfl

section

variable (a : Allocator) (builder : Builder) (site : Site)

theorem reply_sent_moves (process : Process) (respSize : UInt32) (req : RequestAt) (reply : Reply) :
    Moves (do
        let response ← responseBuildAt a (builder.calls reply)
        useBlock req.path
        useBlock response.response
        let (respSize, sent) ← responseWriteAt a respSize response
        responseDel response
        requestDel req
        pure ({ process with respSize := respSize }, sent))
      (responseWrite respSize reply.status reply.header reply.body >>= fun written =>
        .ok ({ process with respSize := written.1 }, written.2))
      req.blocks (fun _ => 0) id := by
  have build := response_build_moves a (builder.calls reply)
  rw [builder.builds] at build
  apply moves_call req.blocks build (zero_add _).symm
  intro response same
  apply moves_use (by simp [RequestAt.blocks])
  have write := response_write_moves a respSize response
  have header : pairsOf response.header = reply.header := congrArg Reply.header same
  have status : response.status = reply.status := congrArg Reply.status same
  have body : response.bodyText = reply.body := congrArg Reply.body same
  rw [header, status, body] at write
  apply moves_use (by simp [ResponseAt.blocks])
  apply moves_bind req.blocks write rfl
  intro written _
  apply moves_call req.blocks (response_del_frees response) rfl
  intro _ _
  apply moves_call 0 (request_del_frees req)
  · rw [zero_add, add_zero]
  · intro _ _
    exact moves_pure rfl rfl

theorem serve_moves (process : Process) (incoming : Incoming) :
    Moves (serveAt a builder site process incoming) (serveStep site process incoming) 0 (fun _ => 0) id := by
  by_cases empty : incoming.received = []
  · have ended : serveStep site process incoming = .ok (process, []) := by
      rw [serveStep, serveNext, follow, serve, if_pos empty]
      rfl
    rw [serveAt, if_pos empty, ended]
    exact moves_pure rfl rfl
  rw [serveAt, if_neg empty, serve_step_steps site process incoming empty]
  apply moves_computed
  intro buff _
  apply moves_bind 0 (request_new_moves a buff) (zero_add _).symm
  intro req _
  cases req with
  | none => exact moves_pure rfl rfl
  | some req =>
      have owned : optional RequestAt.blocks (some req) + 0 = req.blocks := add_zero _
      rw [owned]
      apply moves_use (by simp [RequestAt.blocks])
      apply moves_use (uri_in_blocks req)
      apply moves_computed
      intro handler _
      apply moves_computed
      intro reply _
      cases reply with
      | none =>
          apply moves_call 0 (request_del_frees req) (add_zero _).symm
          intro _ _
          exact moves_pure rfl rfl
      | some reply => exact reply_sent_moves a builder _ process.respSize req reply

end

end Facebooc
