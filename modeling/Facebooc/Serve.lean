import Facebooc.AnswerHeads
import Facebooc.Receive
import Facebooc.Simulation

set_option autoImplicit false

namespace Facebooc

open CMemory HttpMessage Runs

-- What stays as it is while the process runs: the environment of the handlers,
-- the files, and the handlers FB_new registered.
structure Site where
  env : Env
  files : Files
  cwd : Path
  openable : Path → Bool
  page : Nat
  handlers : HashMap Handler
  made : fbNew = .ok handlers

-- The database and rand's state, RESP_SIZE and static_file_table.
structure Process where
  world : World
  respSize : UInt32
  statics : StaticTable
deriving DecidableEq, Repr

-- One connection that handle reads: what recv stores, and the bytes of the stack
-- behind it.
structure Incoming where
  now : Int
  received : List UInt8
  stack : List UInt8
deriving DecidableEq, Repr

def badRequest : List UInt8 := ascii "HTTP/1.0 400 Bad Request\r\n\r\nBad Request"

-- What responseWrite is given.
structure Reply where
  status : Status
  header : Header
  body : List UInt8
deriving DecidableEq, Repr

def pageReply (r : Response) : Reply := ⟨r.status, r.header, (r.body.map pageBytes).getD []⟩

def fileReply (r : FileResponse) : Except Fault Reply := do
  let body ← sentBody r
  .ok ⟨r.status, r.header, body⟩

def pageAnswer (answer : Except Fault (Option Response)) : Except Fault (Option Reply) := answer.map (Option.map pageReply)

def callRoute (site : Site) (process : Process) (incoming : Incoming) (req : Request) :
    Handler → Process × Except Fault (Option Reply)
  | .page route =>
      let answered := handle site.env process.world ⟨incoming.now, route, req⟩
      ({ process with world := answered.1 }, pageAnswer answered.2)
  | .staticHandler =>
      let answered := staticAnswer site.page site.files site.cwd site.openable process.statics req.uri
      ({ process with statics := answered.1 }, do
        match ← answered.2 with
        | some file => (fileReply file).map some
        | none => pageAnswer (notFound site.env process.world.db req))

-- src/server.c: handle from recv to the last send. Nothing is sent for an end
-- of file or for a NULL response.
def serve (site : Site) (process : Process) (incoming : Incoming) : Process × Except Fault (List UInt8) :=
  if incoming.received = [] then (process, .ok [])
  else
    match (do requestNew (← terminate incoming.received incoming.stack)) with
    | .error fault => (process, .error fault)
    | .ok none => (process, .ok (badRequest.take 39))
    | .ok (some req) =>
        match dispatch site.handlers req.uri with
        | .error fault => (process, .error fault)
        | .ok handler =>
            let called := callRoute site process incoming req handler
            match called.2 with
            | .error fault => (called.1, .error fault)
            | .ok none => (called.1, .ok [])
            | .ok (some reply) =>
                match responseWrite process.respSize reply.status reply.header reply.body with
                | .error fault => (called.1, .error fault)
                | .ok (respSize, sent) => ({ called.1 with respSize := respSize }, .ok sent)

-- The real process is over at a fault. What is proved of every run holds up to
-- there: behind a fault a run goes on with what the failed request left.
def serveNext (site : Site) (process : Process) (incoming : Incoming) : Process := follow (serve site) process incoming

def processStart : Process := ⟨⟨Database.empty, 0⟩, 2048, staticTableNew⟩

-- The request that received bytes stand for, where a handler of the tables is
-- called for it.
def arrivalOf (site : Site) (incoming : Incoming) : Option Arrival :=
  if incoming.received = [] then none
  else
    match (do requestNew (← terminate incoming.received incoming.stack)) with
    | .ok (some req) =>
        match dispatch site.handlers req.uri with
        | .ok (.page route) => some ⟨incoming.now, route, req⟩
        | _ => none
    | _ => none

def wire (r : Response) : List UInt8 := (Message.mk (startLine r.status) r.header (pageReply r).body).bytes

-- What is sent for an answer of a handler.
def wireAnswer (answer : Except Fault (Option Response)) : Except Fault (List UInt8) :=
  answer.map fun response => (response.map wire).getD []

theorem not_found_answers (env : Env) (db : Database) (req : Request) : notFound env db req ≠ .ok none := by
  intro run
  obtain ⟨account, _, run⟩ := (except_bind_ok _ _ _).mp run
  obtain ⟨template, _, run⟩ := (except_bind_ok _ _ _).mp run
  obtain ⟨page, _, same⟩ := render_response_page env .NOT_FOUND template none run
  cases same

theorem handle_answers (env : Env) (world : World) (arrival : Arrival) : (handle env world arrival).2 ≠ .ok none := by
  rw [handle]
  generalize callHandler env world arrival = called
  obtain ⟨after, answer⟩ := called
  cases answer with
  | error fault => simp [attempt]
  | ok response =>
      cases response with
      | none => exact not_found_answers env after.db arrival.req
      | some response => simp [attempt]

theorem arrival_of_some (site : Site) (incoming : Incoming) (arrival : Arrival)
    (stands : arrivalOf site incoming = some arrival) : incoming.received ≠ [] ∧
      (do requestNew (← terminate incoming.received incoming.stack)) = .ok (some arrival.req) ∧
      dispatch site.handlers arrival.req.uri = .ok (.page arrival.route) ∧ incoming.now = arrival.now := by
  rw [arrivalOf] at stands
  split at stands
  · cases stands
  · rename_i full
    split at stands
    · rename_i req parsed
      split at stands
      · rename_i route routed
        cases stands
        exact ⟨full, parsed, routed, rfl⟩
      · cases stands
    · cases stands

-- The reply of a handler goes out as one message, and RESP_SIZE stays.
theorem serve_page (site : Site) (process : Process) (incoming : Incoming) (arrival : Arrival) (size : process.respSize = 2048)
    (stands : arrivalOf site incoming = some arrival) :
    serve site process incoming =
      ({ process with world := (handle site.env process.world arrival).1 },
        wireAnswer (handle site.env process.world arrival).2) := by
  obtain ⟨full, parsed, routed, now⟩ := arrival_of_some site incoming arrival stands
  have same : (⟨incoming.now, arrival.route, arrival.req⟩ : Arrival) = arrival := by rw [now]
  have heads := handle_heads site.env process.world arrival
  have answers := handle_answers site.env process.world arrival
  simp only [serve, if_neg full, parsed, routed, callRoute, same, pageAnswer, size]
  generalize handle site.env process.world arrival = answered at heads answers ⊢
  obtain ⟨after, answer⟩ := answered
  cases answer with
  | error fault => rfl
  | ok response =>
      cases response with
      | none => exact absurd rfl answers
      | some r =>
          have written := response_written r.status r.header (pageReply r).body
            (answer_header_sendable _ r.header (heads r rfl))
          simp only [Except.map, Option.map_some, pageReply] at written ⊢
          rw [written, ← size]
          rfl

-- What a called handler replies with can be written.
structure Replies (header : Header → Prop) (answer : Except Fault (Option Reply)) : Prop where
  some_reply : answer ≠ .ok none
  heads : ∀ reply, answer = .ok (some reply) → header reply.header

theorem replies_page (header : Header → Prop) (answer : Except Fault (Option Response)) (some_response : answer ≠ .ok none)
    (heads : Heads header answer) : Replies header (pageAnswer answer) := by
  rw [pageAnswer]
  cases answer with
  | error fault => exact ⟨by simp [Except.map], by simp [Except.map]⟩
  | ok response =>
      cases response with
      | none => exact absurd rfl some_response
      | some r =>
          refine ⟨by simp [Except.map], ?_⟩
          intro reply same
          cases same
          exact heads r rfl

theorem replies_file (now : Int) (page : Nat) (uri content : List UInt8) (file : FileResponse)
    (made : fileResponse page uri content = .ok file) : Replies (QuietHeader now) ((fileReply file).map some) := by
  obtain ⟨response, _, same⟩ := (except_bind_ok _ _ _).mp made
  cases same
  constructor
  · rw [fileReply]
    cases sentBody _ <;> simp [Except.map, bind, Except.bind]
  · intro reply run
    rw [fileReply] at run
    cases body : sentBody { response with
        status := .OK
        header := [(ascii "Content-Type", mimeTypeMux uri), (ascii "Content-Length", contentLen content.length),
          (ascii "Cache-Control", ascii "max-age=2592000")] } with
    | error fault =>
        rw [body] at run
        cases run
    | ok sent =>
        rw [body] at run
        cases run
        exact .file uri content.length

theorem static_answer_made (page : Nat) (files : Files) (cwd : Path) (openable : Path → Bool) (table : StaticTable)
    (uri : List UInt8) (file : FileResponse)
    (answered : (staticAnswer page files cwd openable table uri).2 = .ok (some file)) :
    ∃ content, fileResponse page uri content = .ok file := by
  obtain ⟨fm, _, answered⟩ := (except_bind_ok _ _ _).mp answered
  cases fm with
  | none => cases answered
  | some content =>
      obtain ⟨response, made, last⟩ := (except_bind_ok _ _ _).mp answered
      cases last
      exact ⟨content, made⟩

theorem static_replies (site : Site) (process : Process) (incoming : Incoming) (req : Request) :
    Replies (QuietHeader incoming.now) (callRoute site process incoming req .staticHandler).2 := by
  simp only [callRoute]
  cases answered : (staticAnswer site.page site.files site.cwd site.openable process.statics req.uri).2 with
  | error fault => exact ⟨by simp [bind, Except.bind], by simp [bind, Except.bind]⟩
  | ok answer =>
      cases answer with
      | none => exact replies_page _ _ (not_found_answers site.env _ req) (not_found_quiet _ site.env _ req)
      | some file =>
          obtain ⟨content, made⟩ := static_answer_made _ _ _ _ _ _ file answered
          exact replies_file _ _ _ content file made

theorem call_route_replies (site : Site) (process : Process) (incoming : Incoming) (req : Request) (handler : Handler) :
    Replies (AnswerHeader incoming.now) (callRoute site process incoming req handler).2 := by
  cases handler with
  | page route => exact replies_page _ _ (handle_answers site.env process.world _) (handle_heads site.env process.world _)
  | staticHandler =>
      have replies := static_replies site process incoming req
      exact ⟨replies.some_reply, fun reply called => .quiet _ (replies.heads reply called)⟩

-- No handler touches RESP_SIZE.
theorem call_route_size (site : Site) (process : Process) (incoming : Incoming) (req : Request) (handler : Handler) :
    (callRoute site process incoming req handler).1.respSize = process.respSize := by
  cases handler <;> rfl

-- The two kinds of messages the server sends.
def refusal : Message := ⟨ascii "HTTP/1.0 400 Bad Request", [], ascii "Bad Request"⟩

def replyMessage (reply : Reply) : Message := ⟨startLine reply.status, reply.header, reply.body⟩

structure FromServer (now : Int) (m : Message) : Prop where
  sound : m.Sound
  kind : m = refusal ∨ (∃ status, m.start = startLine status) ∧ AnswerHeader now m.fields

def Calls (site : Site) (incoming : Incoming) (req : Request) (handler : Handler) : Prop :=
  incoming.received ≠ [] ∧ (do requestNew (← terminate incoming.received incoming.stack)) = .ok (some req) ∧
    dispatch site.handlers req.uri = .ok handler

-- How serving a connection ends.
inductive Served (site : Site) (process : Process) (incoming : Incoming) : Process × Except Fault (List UInt8) → Prop where
  | ended (empty : incoming.received = []) : Served site process incoming (process, .ok [])
  | unread (fault : Fault) (none_called : arrivalOf site incoming = none) : Served site process incoming (process, .error fault)
  | refused (none_called : arrivalOf site incoming = none) : Served site process incoming (process, .ok refusal.bytes)
  | failed (req : Request) (handler : Handler) (fault : Fault) (calls : Calls site incoming req handler) :
      Served site process incoming ((callRoute site process incoming req handler).1, .error fault)
  | replied (req : Request) (handler : Handler) (reply : Reply) (calls : Calls site incoming req handler)
      (called : (callRoute site process incoming req handler).2 = .ok (some reply)) :
      Served site process incoming ((callRoute site process incoming req handler).1, .ok (replyMessage reply).bytes)

theorem refusal_from_server (now : Int) : badRequest.take 39 = refusal.bytes ∧ FromServer now refusal := by
  refine ⟨by decide +kernel, ⟨by decide +kernel, ?_, ?_⟩, .inl rfl⟩ <;> simp [refusal]

theorem reply_from_server (now : Int) (reply : Reply) (known : AnswerHeader now reply.header) :
    FromServer now (replyMessage reply) :=
  ⟨sendable_sound reply.status reply.header reply.body (answer_header_sendable now _ known),
    .inr ⟨⟨reply.status, rfl⟩, known⟩⟩

theorem serve_served (site : Site) (process : Process) (incoming : Incoming) (size : process.respSize = 2048) :
    Served site process incoming (serve site process incoming) := by
  rw [serve]
  split
  · rename_i empty
    exact .ended empty
  · rename_i full
    split
    · rename_i fault parsed
      exact .unread fault (by rw [arrivalOf, if_neg full, parsed])
    · rename_i parsed
      rw [(refusal_from_server incoming.now).1]
      exact .refused (by rw [arrivalOf, if_neg full, parsed])
    · rename_i req parsed
      split
      · rename_i fault routed
        exact .unread fault (by simp only [arrivalOf, if_neg full, parsed, routed])
      · rename_i handler routed
        have calls : Calls site incoming req handler := ⟨full, parsed, routed⟩
        have replies := call_route_replies site process incoming req handler
        cases called : (callRoute site process incoming req handler).2 with
        | error fault =>
            simp only [called]
            exact .failed req handler fault calls
        | ok reply =>
            cases reply with
            | none => exact absurd called replies.some_reply
            | some reply =>
                have sendable := answer_header_sendable _ _ (replies.heads reply called)
                have kept : (callRoute site process incoming req handler).1.respSize = 2048 :=
                  (call_route_size site process incoming req handler).trans size
                simp only [called, size, response_written reply.status reply.header reply.body sendable]
                rw [← kept]
                exact .replied req handler reply calls called

theorem served_message (site : Site) (process : Process) (incoming : Incoming) (sent : List UInt8)
    (size : process.respSize = 2048) (answered : (serve site process incoming).2 = .ok sent) (full : incoming.received ≠ []) :
    ∃ m, sent = m.bytes ∧ readMessage sent = some m ∧ FromServer incoming.now m := by
  have served := serve_served site process incoming size
  generalize serve site process incoming = outcome at served answered
  cases served with
  | ended empty => exact absurd empty full
  | unread fault none_called => cases answered
  | failed req handler fault calls => cases answered
  | refused none_called =>
      cases answered
      have server := (refusal_from_server incoming.now).2
      exact ⟨refusal, rfl, read_bytes refusal server.sound, server⟩
  | replied req handler reply calls called =>
      cases answered
      have server := reply_from_server _ reply ((call_route_replies site process incoming req handler).heads reply called)
      exact ⟨_, rfl, read_bytes _ server.sound, server⟩

theorem served_size (site : Site) (process : Process) (incoming : Incoming) (size : process.respSize = 2048) :
    (serve site process incoming).1.respSize = 2048 := by
  have served := serve_served site process incoming size
  generalize serve site process incoming = outcome at served
  cases served with
  | ended | unread | refused => exact size
  | failed req handler | replied req handler => exact (call_route_size site process incoming req handler).trans size

theorem arrival_calls (site : Site) (incoming : Incoming) (req : Request) (route : Route)
    (calls : Calls site incoming req (.page route)) : arrivalOf site incoming = some ⟨incoming.now, route, req⟩ := by
  obtain ⟨full, parsed, routed⟩ := calls
  simp only [arrivalOf, if_neg full, parsed, routed]

-- Without a handler of the tables nothing is changed in them.
theorem served_silent (site : Site) (process : Process) (incoming : Incoming) (size : process.respSize = 2048)
    (nothing : arrivalOf site incoming = none) : (serve site process incoming).1.world = process.world := by
  have kept (req : Request) (handler : Handler) (calls : Calls site incoming req handler) :
      (callRoute site process incoming req handler).1.world = process.world := by
    cases handler with
    | page route =>
        rw [arrival_calls site incoming req route calls] at nothing
        cases nothing
    | staticHandler => rfl
  have served := serve_served site process incoming size
  generalize serve site process incoming = outcome at served
  cases served with
  | ended | unread | refused => rfl
  | failed req handler fault calls => exact kept req handler calls
  | replied req handler reply calls called => exact kept req handler calls

-- In every state any received bytes lead to, whatever comes next is answered
-- with one of the server's messages, or not at all.
theorem serve_run_well (site : Site) (incomings : List Incoming) :
    Throughout (serveNext site) (fun process => process.respSize = 2048 ∧
      ∀ incoming sent, incoming.received ≠ [] → (serve site process incoming).2 = .ok sent →
        ∃ m, sent = m.bytes ∧ readMessage sent = some m ∧ FromServer incoming.now m) processStart incomings := by
  have sized : ∀ past, (run (serveNext site) processStart past).respSize = 2048 := by
    intro past
    refine history_invariant (serveNext site) (fun _ _ => True) (fun _ process => process.respSize = 2048) _ rfl ?_ past
      (along_true _ _ _)
    intro _ process incoming size _
    exact served_size site process incoming size
  intro past _
  exact ⟨sized past, fun incoming sent full answered => served_message site _ incoming sent (sized past) answered full⟩

-- The process at the bytes, with the tables of the one above.
structure HoldsWorld (process : Process) (world : World) : Prop where
  tables : process.world = world
  size : process.respSize = 2048

theorem serve_simulates (site : Site) :
    Simulates (serve site) (handle site.env) (arrivalOf site) HoldsWorld (fun sent answer => sent = wireAnswer answer) where
  matched := by
    rintro process _ incoming arrival ⟨rfl, size⟩ stands
    rw [serve_page site process incoming arrival size stands]
    exact ⟨⟨rfl, size⟩, rfl⟩
  silent := by
    rintro process _ incoming ⟨rfl, size⟩ nothing
    exact ⟨served_silent site process incoming size nothing, served_size site process incoming size⟩

theorem process_after (site : Site) (past : List Incoming) : HoldsWorld (run (serveNext site) processStart past)
    (run (handleNext site.env) ⟨Database.empty, 0⟩ (past.filterMap (arrivalOf site))) :=
  (simulates_run (serve site) (handle site.env) (arrivalOf site) _ _ (serve_simulates site) past processStart
    ⟨Database.empty, 0⟩ ⟨rfl, rfl⟩).1

-- The process that is fed bytes is the one that is handed requests.
theorem serve_refines_handle (site : Site) (incomings : List Incoming) :
    let arrivals := incomings.filterMap (arrivalOf site)
    HoldsWorld (run (serveNext site) processStart incomings) (run (handleNext site.env) ⟨Database.empty, 0⟩ arrivals) ∧
      standingAnswers (arrivalOf site) (answers (serve site) processStart incomings) =
        (answers (handle site.env) ⟨Database.empty, 0⟩ arrivals).map fun entry => wireAnswer entry.2 := by
  intro arrivals
  obtain ⟨same, answered⟩ := simulates_run (serve site) (handle site.env) (arrivalOf site) _ _ (serve_simulates site) incomings
    processStart ⟨Database.empty, 0⟩ ⟨rfl, rfl⟩
  refine ⟨same, ?_⟩
  have equal := List.forall₂_eq_eq_eq ▸ List.forall₂_map_right_iff.mpr answered
  rw [equal, List.map_map]
  rfl

def emptyFiles : Files where
  node path := if path = [] then some .directory else none
  root := rfl
  closed := by simp

def plainSite (handlers : HashMap Handler) (made : fbNew = .ok handlers) : Site :=
  ⟨plainEnv, emptyFiles, [], fun _ => false, 4096, handlers, made⟩

end Facebooc
