import Facebooc.Conversations
import Facebooc.NetworkReads
import Facebooc.SessionWire

set_option autoImplicit false

namespace Facebooc

open CMemory HttpMessage Runs Conversations

abbrev Fd := Nat

-- The system calls on connections, in the order they are made.
inductive Call where
  | accepted (fd : Fd)
  | added (fd : Fd) (done : Bool)
  | received (fd : Fd) (incoming : Option Incoming)
  | sent (fd : Fd) (text : List UInt8)
  | rearmed (fd : Fd)
  | removed (fd : Fd)
  | closed (fd : Fd)
deriving DecidableEq, Repr

def Call.fd : Call → Fd
  | .accepted fd => fd
  | .added fd _ => fd
  | .received fd _ => fd
  | .sent fd _ => fd
  | .rearmed fd => fd
  | .removed fd => fd
  | .closed fd => fd

inductive Halt where
  | exited
  | crashed (fault : Fault)
deriving DecidableEq, Repr

structure Loop where
  process : Process
  calls : List Call
  halt : Option Halt
deriving DecidableEq, Repr

-- What recv returns to handle.
inductive Received where
  | again
  | failed
  | stored (incoming : Incoming)
deriving DecidableEq, Repr

-- The value of accept that ends its loop: 0, an errno that serverServe goes on
-- after, or another one.
inductive AcceptEnd where
  | zero
  | transient
  | fatal
deriving DecidableEq, Repr

-- An event of epoll_wait with what the calls made for it return: the connections
-- that are accepted and whether EPOLL_CTL_ADD succeeds for each of them, or what
-- is received.
inductive Event where
  | listener (connections : List (Fd × Bool)) (last : AcceptEnd)
  | connection (fd : Fd) (data : Received)
deriving DecidableEq, Repr

-- src/server.c: serverAddFd for an accepted connection, and handle.
def serverAddFd (connection : Fd × Bool) : List Call := [.accepted connection.1, .added connection.1 connection.2]

def acceptEnded : AcceptEnd → List Fd
  | .zero => [0]
  | .transient => []
  | .fatal => []

def handleFd (site : Site) (process : Process) (fd : Fd) (data : Received) : Loop :=
  match data with
  | .again => ⟨process, [.received fd none, .rearmed fd, .removed fd, .closed fd], none⟩
  | .failed => ⟨process, [.received fd none, .removed fd, .closed fd], none⟩
  | .stored incoming =>
      let served := serve site process incoming
      match served.2 with
      | .error fault => ⟨served.1, [.received fd (some incoming)], some (.crashed fault)⟩
      | .ok text =>
          let sends := if incoming.received = [] then [] else [.sent fd text]
          ⟨served.1, .received fd (some incoming) :: sends ++ [.removed fd, .closed fd], none⟩

def acceptLoop (process : Process) (connections : List (Fd × Bool)) (last : AcceptEnd) : Loop :=
  ⟨process, connections.flatMap serverAddFd ++ (acceptEnded last).map .accepted,
    if last = .fatal then some .exited else none⟩

-- One turn of the loop over the events.
def serveEvent (site : Site) (process : Process) : Event → Loop
  | .listener connections last => acceptLoop process connections last
  | .connection fd data => handleFd site process fd data

def handleEvent (site : Site) (loop : Loop) (event : Event) : Loop :=
  match loop.halt with
  | some _ => loop
  | none =>
      let turn := serveEvent site loop.process event
      ⟨turn.process, loop.calls ++ turn.calls, turn.halt⟩

-- One epoll_wait, and serverServe as far as it got.
def serveBatch (site : Site) (loop : Loop) (events : List Event) : Loop := run (handleEvent site) loop events

def loopStart : Loop := ⟨processStart, [], none⟩

def serverServe (site : Site) (batches : List (List Event)) : Loop := run (serveBatch site) loopStart batches

-- What has become of a descriptor. Every other order of calls is out of turn.
inductive Stage where
  | closed
  | accepted
  | watched
  | read
  | answered
  | rearmed
  | removed
deriving DecidableEq, Repr

def Stage.next : Stage → Call → Option Stage
  | .closed, .accepted _ => some .accepted
  | .accepted, .added _ done => some (if done then .watched else .accepted)
  | .watched, .received _ _ => some .read
  | .read, .sent _ _ => some .answered
  | .read, .rearmed _ => some .rearmed
  | .read, .removed _ => some .removed
  | .answered, .removed _ => some .removed
  | .rearmed, .removed _ => some .removed
  | .removed, .closed _ => some .closed
  | _, _ => none

def stageOf (calls : List Call) (fd : Fd) : Option Stage := phaseOf Call.fd Stage.next .closed calls fd

def Stage.Waiting (stage : Stage) : Prop := stage = .closed ∨ stage = .accepted ∨ stage = .watched

-- The calls on every descriptor come in turn, and between two events none is
-- left half served.
def Orderly (loop : Loop) : Prop :=
  ∀ fd, ∃ stage, stageOf loop.calls fd = some stage ∧ (loop.halt = none → stage.Waiting)

def Event.fds : Event → List Fd
  | .listener connections last => connections.map Prod.fst ++ acceptEnded last
  | .connection fd _ => [fd]

def Event.expected : Event → Stage
  | .listener _ _ => .closed
  | .connection _ _ => .watched

def EventAllowed (loop : Loop) (event : Event) : Prop :=
  event.fds.Nodup ∧ ∀ fd ∈ event.fds, stageOf loop.calls fd = some event.expected

def Event.reported : Event → Option Fd
  | .listener _ _ => none
  | .connection fd _ => some fd

-- What the kernel keeps: epoll_wait reports a descriptor at most once, and only
-- one that is added and not reported before; accept returns none that is open.
structure BatchAllowed (site : Site) (loop : Loop) (events : List Event) : Prop where
  once : (events.filterMap Event.reported).Nodup
  watched : ∀ fd ∈ events.filterMap Event.reported, stageOf loop.calls fd = some .watched
  accepts : Along (handleEvent site) (fun loop event => event.reported = none → EventAllowed loop event) loop events

def turnPieces (site : Site) (process : Process) : Event → List (Fd × List Call)
  | .listener connections last => connections.map (fun connection => (connection.1, serverAddFd connection)) ++
      (acceptEnded last).map fun fd => (fd, [.accepted fd])
  | .connection fd data => [(fd, (handleFd site process fd data).calls)]

theorem turn_pieces_calls (site : Site) (process : Process) (event : Event) :
    (serveEvent site process event).calls = (turnPieces site process event).flatMap Prod.snd ∧
      (turnPieces site process event).map Prod.fst = event.fds := by
  cases event with
  | listener connections last =>
      simp only [serveEvent, acceptLoop, turnPieces, Event.fds, List.flatMap_append, List.flatMap_map, List.map_append,
        List.map_map]
      refine ⟨?_, by simp [Function.comp_def]⟩
      rw [List.map_eq_flatMap]
  | connection fd data => simp [serveEvent, turnPieces, Event.fds]

theorem handle_fd_calls (site : Site) (process : Process) (fd : Fd) (data : Received) :
    (∀ call ∈ (handleFd site process fd data).calls, call.fd = fd) ∧
      ∃ stage, (handleFd site process fd data).calls.foldlM Stage.next .watched = some stage ∧
        ((handleFd site process fd data).halt = none → stage.Waiting) := by
  cases data with
  | again => exact ⟨by simp [handleFd, Call.fd], .closed, rfl, fun _ => .inl rfl⟩
  | failed => exact ⟨by simp [handleFd, Call.fd], .closed, rfl, fun _ => .inl rfl⟩
  | stored incoming =>
      rw [handleFd]
      cases (serve site process incoming).2 with
      | error fault => exact ⟨by simp [Call.fd], .read, rfl, fun running => by cases running⟩
      | ok text =>
          by_cases ended : incoming.received = []
          · simp only [if_pos ended]
            exact ⟨by simp [Call.fd], .closed, rfl, fun _ => .inl rfl⟩
          · simp only [if_neg ended]
            exact ⟨by simp [Call.fd], .closed, rfl, fun _ => .inl rfl⟩

theorem turn_pieces_stage (site : Site) (process : Process) (event : Event) :
    ∀ piece ∈ turnPieces site process event, (∀ call ∈ piece.2, call.fd = piece.1) ∧
      ∃ stage, piece.2.foldlM Stage.next event.expected = some stage ∧
        ((serveEvent site process event).halt = none → stage.Waiting) := by
  cases event with
  | connection fd data =>
      intro piece member
      rw [List.mem_singleton.mp member]
      exact handle_fd_calls site process fd data
  | listener connections last =>
      intro piece member
      rcases List.mem_append.mp member with inFirst | inLast
      · obtain ⟨⟨fd, done⟩, _, rfl⟩ := List.mem_map.mp inFirst
        refine ⟨by simp [serverAddFd, Call.fd], if done then .watched else .accepted, rfl, fun _ => ?_⟩
        cases done with
        | false => exact .inr (.inl rfl)
        | true => exact .inr (.inr rfl)
      · obtain ⟨fd, _, rfl⟩ := List.mem_map.mp inLast
        exact ⟨by simp [Call.fd], .accepted, rfl, fun _ => .inr (.inl rfl)⟩

-- One event. The descriptors it is not about stay at their stage.
theorem handle_event_orderly (site : Site) (loop : Loop) (event : Event) (orderly : Orderly loop)
    (allowed : EventAllowed loop event) :
    Orderly (handleEvent site loop event) ∧
      ∀ fd, fd ∉ event.fds → stageOf (handleEvent site loop event).calls fd = stageOf loop.calls fd := by
  rw [handleEvent]
  cases running : loop.halt with
  | some halt => exact ⟨orderly, fun fd _ => rfl⟩
  | none =>
      obtain ⟨calls, fds⟩ := turn_pieces_calls site loop.process event
      have stages := turn_pieces_stage site loop.process event
      obtain ⟨others, own⟩ := phase_pieces Call.fd Stage.next .closed (turnPieces site loop.process event) loop.calls
        (fun piece member => (stages piece member).1) (fds ▸ allowed.1)
      rw [← calls, fds] at others
      rw [← calls] at own
      refine ⟨fun fd => ?_, others⟩
      by_cases concerned : fd ∈ event.fds
      · have expected := allowed.2 fd concerned
        rw [← fds] at concerned
        obtain ⟨piece, member, rfl⟩ := List.mem_map.mp concerned
        obtain ⟨_, stage, moved, waiting⟩ := stages piece member
        refine ⟨stage, ?_, waiting⟩
        have here := own piece member
        rw [stageOf] at expected ⊢
        rw [here, expected, Option.bind_some, moved]
      · obtain ⟨stage, here, waiting⟩ := orderly fd
        exact ⟨stage, (others fd concerned).trans here, fun _ => waiting running⟩

theorem batch_orderly (site : Site) (events : List Event) :
    ∀ loop, Orderly loop → BatchAllowed site loop events → Throughout (handleEvent site) Orderly loop events := by
  induction events with
  | nil => exact fun loop orderly _ => (throughout_nil _ _ _).mpr orderly
  | cons event rest ih =>
      intro loop orderly allowed
      obtain ⟨here, later⟩ := allowed.accepts
      rw [throughout_cons, and_iff_right orderly]
      have event_allowed : EventAllowed loop event := by
        cases event with
        | listener connections last => exact here rfl
        | connection fd data =>
            refine ⟨List.nodup_singleton fd, fun other member => ?_⟩
            rw [List.mem_singleton.mp member]
            exact allowed.watched fd (by simp [Event.reported])
      obtain ⟨next, others⟩ := handle_event_orderly site loop event orderly event_allowed
      have pending : ∀ fd ∈ rest.filterMap Event.reported, fd ∉ event.fds ∧ stageOf loop.calls fd = some .watched := by
        intro fd member
        have watched := allowed.watched fd (by
          cases event with
          | listener connections last => exact member
          | connection other data => exact List.mem_cons_of_mem _ member)
        refine ⟨fun concerned => ?_, watched⟩
        cases event with
        | listener connections last =>
            have closed := event_allowed.2 fd concerned
            rw [watched] at closed
            cases closed
        | connection other data =>
            rw [List.mem_singleton.mp concerned] at member
            exact (List.nodup_cons.mp allowed.once).1 member
      apply ih _ next
      refine ⟨?_, fun fd member => ?_, later⟩
      · cases event with
        | listener connections last => exact allowed.once
        | connection other data => exact (List.nodup_cons.mp allowed.once).2
      · rw [others fd (pending fd member).1]
        exact (pending fd member).2

theorem batches_orderly (site : Site) (batches : List (List Event)) :
    ∀ loop, Orderly loop → Along (serveBatch site) (BatchAllowed site) loop batches →
      Throughout (handleEvent site) Orderly loop batches.flatten := by
  induction batches with
  | nil => exact fun loop orderly _ => (throughout_nil _ _ _).mpr orderly
  | cons events rest ih =>
      intro loop orderly allowed
      have first := batch_orderly site events loop orderly allowed.1
      rw [List.flatten_cons, throughout_append]
      exact ⟨first, ih _ (first events (List.prefix_refl events)) allowed.2⟩

theorem server_serve_events (site : Site) (batches : List (List Event)) :
    serverServe site batches = run (handleEvent site) loopStart batches.flatten := by
  rw [serverServe, run, run, List.foldl_flatten]
  rfl

-- Whatever connections come, in whatever order they become readable: every
-- descriptor is received from at most once, answered at most once and closed
-- exactly once before it may be accepted again, and none is touched otherwise.
theorem event_loop_orderly (site : Site) (batches : List (List Event))
    (allowed : Along (serveBatch site) (BatchAllowed site) loopStart batches) :
    Throughout (handleEvent site) Orderly loopStart batches.flatten ∧ Orderly (serverServe site batches) := by
  have start : Orderly loopStart := fun fd => ⟨.closed, rfl, fun _ => .inl rfl⟩
  have events := batches_orderly site batches loopStart start allowed
  refine ⟨events, ?_⟩
  rw [server_serve_events]
  exact events batches.flatten (List.prefix_refl _)

-- Two clients, of which the second number is given out again while the first
-- is still waiting.
def sharedBatches : List (List Event) :=
  [[.listener [(7, true), (8, true)] .transient], [.connection 8 .again, .listener [(8, true)] .transient],
    [.listener [(9, false)] .transient, .connection 7 (.stored ⟨1700000000, [], []⟩), .connection 8 .failed]]

theorem shared_allowed (site : Site) : Along (serveBatch site) (BatchAllowed site) loopStart sharedBatches := by
  have accept : ∀ (loop : Loop) (fd : Fd) (done : Bool), stageOf loop.calls fd = some .closed →
      EventAllowed loop (.listener [(fd, done)] .transient) := by
    intro loop fd done closed
    exact ⟨List.nodup_singleton fd, fun other member => by rw [List.mem_singleton.mp member]; exact closed⟩
  refine ⟨⟨by decide, by simp [Event.reported], ?_⟩, ⟨by decide, ?_, ?_⟩, ⟨by decide, ?_, ?_⟩, trivial⟩
  · refine ⟨fun _ => ⟨by decide, ?_⟩, trivial⟩
    simp only [Event.fds, acceptEnded, List.map_cons, List.map_nil, List.append_nil, List.forall_mem_cons]
    exact ⟨rfl, rfl, by simp⟩
  · simp only [Event.reported, List.filterMap_cons, List.filterMap_nil, List.forall_mem_cons]
    exact ⟨rfl, by simp⟩
  · exact ⟨fun connection => by (cases connection), fun _ => accept _ 8 true rfl, trivial⟩
  · simp only [Event.reported, List.filterMap_cons, List.filterMap_nil, List.forall_mem_cons]
    exact ⟨rfl, rfl, by simp⟩
  · exact ⟨fun _ => accept _ 9 false rfl, fun connection => by (cases connection),
    fun connection => by (cases connection), trivial⟩

theorem event_loop_orderly_shared : ∃ site : Site,
    Throughout (handleEvent site) Orderly loopStart sharedBatches.flatten ∧ Orderly (serverServe site sharedBatches) := by
  obtain ⟨handlers, made, _⟩ := fb_new_handlers
  exact ⟨plainSite handlers made, event_loop_orderly (plainSite handlers made) sharedBatches (shared_allowed _)⟩

def Call.receivedOn : Call → Option (Fd × Incoming)
  | .received fd (some incoming) => some (fd, incoming)
  | _ => none

def Call.sentOn : Call → Option (Fd × List UInt8)
  | .sent fd text => some (fd, text)
  | _ => none

def serveOn (site : Site) (process : Process) (input : Fd × Incoming) : Process × Except Fault (List UInt8) :=
  serve site process input.2

-- What is sent for an input that was answered.
def delivered (entry : (Fd × Incoming) × Except Fault (List UInt8)) : Option (Fd × List UInt8) :=
  if entry.1.2.received = [] then none else entry.2.toOption.map fun text => (entry.1.1, text)

structure AnswersInTurn (site : Site) (before : Process) (turn : Loop) : Prop where
  process : turn.process = run (follow (serveOn site)) before (turn.calls.filterMap Call.receivedOn)
  sent : turn.calls.filterMap Call.sentOn =
    (answers (serveOn site) before (turn.calls.filterMap Call.receivedOn)).filterMap delivered

theorem one_input_answers (site : Site) (before : Process) (turn : Loop) (fd : Fd) (incoming : Incoming)
    (received : turn.calls.filterMap Call.receivedOn = [(fd, incoming)])
    (process : turn.process = (serve site before incoming).1)
    (sent : turn.calls.filterMap Call.sentOn = (delivered ((fd, incoming), (serve site before incoming).2)).toList) :
    AnswersInTurn site before turn := by
  constructor
  · rw [received]
    exact process
  · rw [received, sent]
    change _ = [((fd, incoming), (serve site before incoming).2)].filterMap delivered
    cases given : delivered ((fd, incoming), (serve site before incoming).2) with
    | none => rw [List.filterMap_cons_none given]; rfl
    | some text => rw [List.filterMap_cons_some given]; rfl

theorem handle_fd_answers (site : Site) (process : Process) (fd : Fd) (data : Received) :
    AnswersInTurn site process (handleFd site process fd data) := by
  cases data with
  | again => exact ⟨rfl, rfl⟩
  | failed => exact ⟨rfl, rfl⟩
  | stored incoming =>
      rw [handleFd]
      cases served : (serve site process incoming).2 with
      | error fault =>
          refine one_input_answers site process _ fd incoming rfl rfl ?_
          simp [delivered, served, Call.sentOn, Except.toOption]
      | ok text =>
          by_cases ended : incoming.received = []
          · simp only [if_pos ended]
            refine one_input_answers site process _ fd incoming rfl rfl ?_
            simp [delivered, ended, Call.sentOn]
          · simp only [if_neg ended]
            refine one_input_answers site process _ fd incoming rfl rfl ?_
            have given : delivered ((fd, incoming), (serve site process incoming).2) = some (fd, text) := by
              simp [delivered, ended, served, Except.toOption]
            rw [given]
            rfl

theorem accept_loop_answers (site : Site) (process : Process) (connections : List (Fd × Bool)) (last : AcceptEnd) :
    AnswersInTurn site process (acceptLoop process connections last) := by
  have quiet : ∀ call ∈ (acceptLoop process connections last).calls, call.receivedOn = none ∧ call.sentOn = none := by
    intro call member
    rcases List.mem_append.mp member with inFirst | inLast
    · obtain ⟨connection, _, inside⟩ := List.mem_flatMap.mp inFirst
      simp only [serverAddFd, List.mem_cons, List.not_mem_nil, or_false] at inside
      rcases inside with rfl | rfl <;> exact ⟨rfl, rfl⟩
    · obtain ⟨fd, _, rfl⟩ := List.mem_map.mp inLast
      exact ⟨rfl, rfl⟩
  have received := List.filterMap_eq_nil_iff.mpr fun call member => (quiet call member).1
  have sent := List.filterMap_eq_nil_iff.mpr fun call member => (quiet call member).2
  exact ⟨by rw [received]; rfl, by rw [received, sent]; rfl⟩

theorem handle_event_answers (site : Site) (loop : Loop) (event : Event) (before : AnswersInTurn site processStart loop) :
    AnswersInTurn site processStart (handleEvent site loop event) := by
  rw [handleEvent]
  cases loop.halt with
  | some halt => exact before
  | none =>
      have turn : AnswersInTurn site loop.process (serveEvent site loop.process event) := by
        cases event with
        | listener connections last => exact accept_loop_answers site loop.process connections last
        | connection fd data => exact handle_fd_answers site loop.process fd data
      constructor
      · simp only [List.filterMap_append]
        rw [follow_append, ← before.process]
        exact turn.process
      · simp only [List.filterMap_append]
        rw [answers_append, List.filterMap_append, before.sent, turn.sent, ← before.process]

theorem loop_in_turn (site : Site) (batches : List (List Event)) : AnswersInTurn site processStart (serverServe site batches) := by
  have batch : ∀ (events : List Event) (loop : Loop), AnswersInTurn site processStart loop →
      AnswersInTurn site processStart (serveBatch site loop events) := by
    intro events loop before
    refine history_invariant (handleEvent site) (fun _ _ => True) (fun _ loop => AnswersInTurn site processStart loop) loop
      before ?_ events (along_true _ _ _)
    intro _ loop event inTurn _
    exact handle_event_answers site loop event inTurn
  refine history_invariant (serveBatch site) (fun _ _ => True) (fun _ loop => AnswersInTurn site processStart loop) loopStart
    ⟨rfl, rfl⟩ ?_ batches (along_true _ _ _)
  intro _ loop events inTurn _
  exact batch events loop inTurn

def Loop.arrivals (site : Site) (loop : Loop) : List Arrival :=
  (loop.calls.filterMap Call.receivedOn).filterMap fun input => arrivalOf site input.2

theorem loop_process (site : Site) (batches : List (List Event)) : HoldsWorld (serverServe site batches).process
    (run (handleNext site.env) ⟨Database.empty, 0⟩ ((serverServe site batches).arrivals site)) := by
  have served := (loop_in_turn site batches).process.trans (run_map (serve site) Prod.snd processStart _)
  have holds := process_after site (((serverServe site batches).calls.filterMap Call.receivedOn).map Prod.snd)
  rw [List.filterMap_map] at holds
  rw [served]
  exact holds

-- The loop serves what it receives one by one, in the order it is received and
-- each on the descriptor it came from; the tables are those of the requests.
theorem event_loop_answers (site : Site) (batches : List (List Event)) :
    let loop := serverServe site batches
    let received := loop.calls.filterMap Call.receivedOn
    loop.calls.filterMap Call.sentOn = (answers (serveOn site) processStart received).filterMap delivered ∧
      loop.process = run (follow (serveOn site)) processStart received ∧
      HoldsWorld loop.process (run (handleNext site.env) ⟨Database.empty, 0⟩ (loop.arrivals site)) :=
  ⟨(loop_in_turn site batches).sent, (loop_in_turn site batches).process, loop_process site batches⟩

-- Alice joins over descriptor 5.
def joiningBatches : List (List Event) :=
  [[.listener [(5, true)] .transient], [.connection 5 (.stored (formIncoming aliceJoins))]]

theorem stored_received (site : Site) (process : Process) (fd : Fd) (incoming : Incoming) :
    (handleFd site process fd (.stored incoming)).calls.filterMap Call.receivedOn = [(fd, incoming)] := by
  rw [handleFd]
  cases (serve site process incoming).2 with
  | error fault => rfl
  | ok text =>
      by_cases ended : incoming.received = []
      · simp only [if_pos ended]
        rfl
      · simp only [if_neg ended]
        rfl

theorem joining_arrivals (handlers : HashMap Handler) (made : fbNew = .ok handlers) :
    (serverServe (plainSite handlers made) joiningBatches).arrivals (plainSite handlers made) =
      [⟨1700000000, .signup, formRequest aliceJoins⟩] := by
  have calls : (serverServe (plainSite handlers made) joiningBatches).calls = [.accepted 5, .added 5 true] ++
      (handleFd (plainSite handlers made) processStart 5 (.stored (formIncoming aliceJoins))).calls := rfl
  rw [Loop.arrivals, calls, List.filterMap_append, stored_received]
  exact List.filterMap_cons_some (alice_joins_arrives handlers made)

end Facebooc
