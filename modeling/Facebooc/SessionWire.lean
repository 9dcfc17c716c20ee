import Facebooc.AccountRoundTrip
import Facebooc.ClientRequests

set_option autoImplicit false

namespace Facebooc

open CMemory HttpMessage Runs

def worldAfter (site : Site) (past : List Incoming) : World := (run (serveNext site) processStart past).world

-- A client reads the answer as a message and keeps the pair in front of the
-- attributes of a cookie it sets.
def KeepsSid (sent sid : List UInt8) : Prop :=
  ∃ m cookie, readMessage sent = some m ∧ (ascii "Set-Cookie", cookie) ∈ m.fields ∧ keptPair cookie = ascii "sid=" ++ sid

def OpensNone (h : Header) : Prop := ∀ cookie, (ascii "Set-Cookie", cookie) ∈ h → keptPair cookie = ascii "sid="

theorem expiry_dated (now duration : Int) : cookieGenExpire now duration ≠ [] := by
  rw [cookieGenExpire, strftimeExpire]
  exact List.append_ne_nil_of_right_ne_nil _ (by decide)

theorem quiet_set_cookie (now : Int) (h : Header) (quiet : QuietHeader now h) (cookie : List UInt8)
    (member : (ascii "Set-Cookie", cookie) ∈ h) : cookie = expiredCookie now := by
  have names : ascii "Set-Cookie" ≠ ascii "Location" ∧ ascii "Set-Cookie" ≠ ascii "Content-Type" ∧
      ascii "Set-Cookie" ≠ ascii "Content-Length" ∧ ascii "Set-Cookie" ≠ ascii "Cache-Control" := by decide
  cases quiet with
  | page => cases member
  | redirect location known =>
      simp only [List.mem_singleton, Prod.mk.injEq] at member
      exact absurd member.1 names.1
  | file uri size =>
      simp only [List.mem_cons, List.not_mem_nil, or_false, Prod.mk.injEq] at member
      rcases member with first | second | third
      · exact absurd first.1 names.2.1
      · exact absurd second.1 names.2.2.1
      · exact absurd third.1 names.2.2.2
  | expired =>
      simp only [List.mem_cons, List.not_mem_nil, or_false, Prod.mk.injEq] at member
      exact member.elim (fun first => absurd first.1 names.1) And.right

theorem quiet_opens_none (now : Int) (h : Header) (quiet : QuietHeader now h) : OpensNone h := by
  intro cookie member
  rw [quiet_set_cookie now h quiet cookie member]
  exact session_cookie_kept [] _ (by simp) (expiry_dated now (-1))

theorem kept_of_sound (m : Message) (sid : List UInt8) (sound : m.Sound) (kept : KeepsSid m.bytes sid) (given : sid ≠ []) :
    ¬ OpensNone m.fields := by
  obtain ⟨other, cookie, read, member, pair⟩ := kept
  rw [read_bytes m sound] at read
  cases read
  intro none_opened
  have same : ascii "sid=" ++ [] = ascii "sid=" ++ sid := by rw [List.append_nil, ← pair, none_opened cookie member]
  exact given (List.append_cancel_left same).symm

theorem logged_in_keeps (m : Message) (now : Int) (sid other : List UInt8) (chars : ∀ c ∈ sid, c ∈ randTable) (sound : m.Sound)
    (fields : m.fields = (loggedIn now sid).header) (kept : KeepsSid m.bytes other) : other = sid := by
  obtain ⟨_, cookie, read, member, pair⟩ := kept
  rw [read_bytes m sound] at read
  cases read
  rw [fields, logged_in_sends] at member
  simp only [List.mem_cons, List.not_mem_nil, or_false, Prod.mk.injEq] at member
  rcases member with first | second
  · rw [first.2, session_cookie_kept sid _ (fun c inside => rand_char_cookie c (chars c inside)) (expiry_dated _ _)] at pair
    exact (List.append_cancel_left pair).symm
  · exact absurd second.1 (by decide)

-- Refusals, files and ends of file open no session.
theorem unrouted_opens_none (site : Site) (process : Process) (incoming : Incoming) (sent sid : List UInt8)
    (size : process.respSize = 2048) (answered : (serve site process incoming).2 = .ok sent)
    (stands : arrivalOf site incoming = none) (given : sid ≠ []) : ¬ KeepsSid sent sid := by
  intro kept
  have served := serve_served site process incoming size
  generalize serve site process incoming = outcome at served answered
  cases served with
  | unread fault none_called => cases answered
  | failed req handler fault calls => cases answered
  | ended empty =>
      cases answered
      obtain ⟨m, cookie, read, _⟩ := kept
      cases read
  | refused none_called =>
      cases answered
      exact kept_of_sound refusal sid (refusal_from_server incoming.now).2.sound kept given (quiet_opens_none incoming.now _ .page)
  | replied req handler reply calls called =>
      cases answered
      cases handler with
      | page route =>
          rw [arrival_calls site incoming req route calls] at stands
          cases stands
      | staticHandler =>
          have quiet := (static_replies site process incoming req).heads reply called
          have server := reply_from_server _ reply (.quiet _ quiet)
          exact kept_of_sound _ sid server.sound kept given (quiet_opens_none _ _ quiet)

-- The session a handler's answer opens is the one its login stored.
theorem routed_opens (env : Env) (world : World) (arrival : Arrival) (r : Response) (sid : List UInt8)
    (handled : (handle env world arrival).2 = .ok (some r)) (kept : KeepsSid (replyMessage (pageReply r)).bytes sid)
    (given : sid ≠ []) :
    ∃ row, arrival.route = .login ∧ loginAccount env world.db arrival.req = some row ∧
      (handleNext env world arrival).db.sessions = world.db.sessions ++ [sessionRow world.db arrival.now row.id sid] := by
  have sound := (reply_from_server _ (pageReply r) (handle_heads env world arrival r handled)).sound
  by_cases entering : arrival.route = .login
  · have called : callHandler env world arrival = login env world arrival.now arrival.req := by rw [callHandler, entering]
    rcases login_steps env world arrival with ⟨answer, same, sets⟩ | ⟨row, _, found, same⟩
    · rw [handle_answered env world world arrival answer (called.trans same) sets] at handled
      obtain ⟨response, first, clean⟩ := sets _ handled
      cases first
      exact absurd (fun cookie member => absurd rfl (clean _ member)) (kept_of_sound _ sid sound kept given)
    · have next := handle_some env world _ arrival _ (called.trans same)
      rw [next] at handled
      cases handled
      have own := logged_in_keeps _ arrival.now _ sid (new_sid_chars env world).1 sound rfl kept
      refine ⟨row, entering, found, ?_⟩
      rw [handleNext, next, own]
  · have quiet := handle_quiet env world arrival entering r handled
    exact absurd (quiet_opens_none _ _ quiet) (kept_of_sound _ sid sound kept given)

-- Only a login with the password of an account hands a session out.
theorem sid_handed_out (site : Site) (process : Process) (incoming : Incoming) (sent sid : List UInt8)
    (size : process.respSize = 2048) (answered : (serve site process incoming).2 = .ok sent) (kept : KeepsSid sent sid)
    (given : sid ≠ []) :
    ∃ arrival row, arrivalOf site incoming = some arrival ∧ arrival.route = .login ∧
      loginAccount site.env process.world.db arrival.req = some row ∧
      (handleNext site.env process.world arrival).db.sessions =
        process.world.db.sessions ++ [sessionRow process.world.db arrival.now row.id sid] := by
  cases stands : arrivalOf site incoming with
  | none => exact absurd kept (unrouted_opens_none site process incoming sent sid size answered stands given)
  | some arrival =>
      rw [serve_page site process incoming arrival size stands] at answered
      generalize process.world = world at answered ⊢
      cases handled : (handle site.env world arrival).2 with
      | error fault =>
          rw [handled] at answered
          cases answered
      | ok response =>
          cases response with
          | none => exact absurd handled (handle_answers site.env world arrival)
          | some r =>
              rw [handled] at answered
              cases answered
              obtain ⟨row, entered, found, next⟩ := routed_opens site.env world arrival r sid handled kept given
              exact ⟨arrival, row, rfl, entered, found, next⟩

theorem world_after (site : Site) (past : List Incoming) :
    worldAfter site past = run (handleNext site.env) ⟨Database.empty, 0⟩ (past.filterMap (arrivalOf site)) := by
  rw [worldAfter, (process_after site past).tables]

theorem world_after_cons (site : Site) (past rest : List Incoming) (incoming : Incoming) (arrival : Arrival)
    (stands : arrivalOf site incoming = some arrival) : worldAfter site (past ++ incoming :: rest) =
      run (handleNext site.env) (handleNext site.env (worldAfter site past) arrival) (rest.filterMap (arrivalOf site)) := by
  rw [world_after, world_after, List.filterMap_append, List.filterMap_cons_some stands, run, List.foldl_append]
  rfl

def aliceSearches : ClientRequest :=
  ⟨.GET, ascii "search", ascii "all", [(ascii "q", ascii "bob + co")], [], some aliceSid, none⟩

theorem alice_searches_valid : aliceSearches.Valid .search := by
  have plain : ∀ pair ∈ aliceSearches.query, ValidPair pair ∧ PlainPair pair := by
    intro pair member
    rw [List.mem_singleton.mp member]
    exact ⟨⟨by decide, by decide, by decide⟩, ⟨by decide, by decide, by decide +kernel⟩⟩
  exact {
    named := by decide +kernel
    known := by decide
    rest := List.all_iff_forall_prop.mp (by decide +kernel)
    query := valid_clean _ fun pair member => (plain pair member).1
    form := fun pairs same => by cases same
    sid := by
      intro sid same
      cases same
      exact List.all_iff_forall_prop.mp (by decide +kernel)
    others := by simp [aliceSearches]
    short := by decide +kernel
    plainQuery := plain
    plainForm := fun pairs same => by cases same }

def searchIncoming : Incoming := ⟨1700000000, aliceSearches.text, List.replicate buffSize 0⟩

theorem search_stack : searchIncoming.stack.length = buffSize := List.length_replicate

-- The oldest row with the id is the one that counts.
theorem session_kept (env : Env) (world : World) (row : AccountRow) (now : Int) (sid : List UInt8) (later : World)
    (arrivals : List Arrival) (next : later.db.sessions = world.db.sessions ++ [sessionRow world.db now row.id sid])
    (fresh : ∀ old ∈ world.db.sessions, old.session ≠ sid) :
    ∃ session, sessionGetBySId (run (handleNext env) later arrivals).db sid = some session ∧ session.accountId = row.id := by
  have pairs := sessions_run env later arrivals
  rw [next, List.map_append] at pairs
  have missing : ((world.db.sessions.map sessionPair).find? fun entry => entry.1 = sid) = none := by
    rw [List.find?_map, Option.map_eq_none_iff, List.find?_eq_none]
    exact fun old member => by simp [sessionPair, fresh old member]
  have found : ((run (handleNext env) later arrivals).db.sessions.map sessionPair).find? (fun entry => entry.1 = sid) =
      some (sid, row.id) := by
    rw [pairs, List.append_assoc, List.find?_append, missing, Option.none_or]
    simp [sessionPair, sessionRow]
  rw [List.find?_map] at found
  obtain ⟨stored, first, same⟩ := Option.map_eq_some_iff.mp found
  refine ⟨⟨stored.id, stored.createdAt, stored.account, stored.session⟩, ?_, congrArg Prod.snd same⟩
  have first : (run (handleNext env) later arrivals).db.sessions.find? (fun row => row.session = sid) = some stored := first
  rw [sessionGetBySId, first]
  rfl

def clientForm (seg : String) (fields : List (String × String)) : ClientRequest :=
  ⟨.POST, ascii seg, [], [], [], none, some (fields.map fun field => (ascii field.1, ascii field.2))⟩

def aliceJoins : ClientRequest := clientForm "signup" [("name", "Alice"), ("email", "al@x.org"), ("username", "alice"),
  ("password", "12345678"), ("confirm-password", "12345678")]

def aliceEnters : ClientRequest := clientForm "login" [("username", "alice"), ("password", "12345678")]

def formIncoming (c : ClientRequest) : Incoming := ⟨1700000000, c.text, 0 :: c.text⟩

def formRequest (c : ClientRequest) : Request :=
  ⟨c.method, c.target, c.path, none, c.form.map List.reverse, none, c.headers.map parsedHeader⟩

theorem form_arrival (site : Site) (c : ClientRequest) (route : Route) (full : c.text ≠ [])
    (parsed : (do requestNew (← terminate c.text (0 :: c.text))) = .ok (some (formRequest c)))
    (named : registered c.seg = .page route) (known : route ≠ .notFound) (restClean : 0 ∉ c.rest) :
    arrivalOf site (formIncoming c) = some ⟨1700000000, route, formRequest c⟩ := by
  have routed : dispatch site.handlers (formRequest c).uri = .ok (.page route) := dispatch_path site c route named known restClean
  simp only [arrivalOf, formIncoming, if_neg full, parsed, routed]

def aliceJoined : World := handleNext plainEnv ⟨Database.empty, 0⟩ ⟨1700000000, .signup, formRequest aliceJoins⟩

theorem alice_computed :
    (registered aliceJoins.seg = .page .signup ∧
      (do requestNew (← terminate aliceJoins.text (0 :: aliceJoins.text))) = .ok (some (formRequest aliceJoins)) ∧
      TextsGiven (signupForm (formRequest aliceJoins))) ∧
    (registered aliceEnters.seg = .page .login ∧
      (do requestNew (← terminate aliceEnters.text (0 :: aliceEnters.text))) = .ok (some (formRequest aliceEnters)) ∧
      (handle plainEnv aliceJoined ⟨1700000000, .login, formRequest aliceEnters⟩).2 = .ok (some (loggedIn 1700000000 aliceSid))) ∧
    readMessage (wire (loggedIn 1700000000 aliceSid)) = some ⟨startLine .FOUND, (loggedIn 1700000000 aliceSid).header, []⟩ := by
  decide +kernel

section

variable (handlers : HashMap Handler) (made : fbNew = .ok handlers)

theorem alice_joins_arrives : arrivalOf (plainSite handlers made) (formIncoming aliceJoins) =
    some ⟨1700000000, .signup, formRequest aliceJoins⟩ := by
  obtain ⟨⟨routed, parsed, _⟩, _⟩ := alice_computed
  exact form_arrival _ aliceJoins .signup (by decide) parsed routed (by decide) (by decide)

theorem alice_enters_arrives : arrivalOf (plainSite handlers made) (formIncoming aliceEnters) =
    some ⟨1700000000, .login, formRequest aliceEnters⟩ := by
  obtain ⟨_, ⟨routed, parsed, _⟩, _⟩ := alice_computed
  exact form_arrival _ aliceEnters .login (by decide) parsed routed (by decide) (by decide)

theorem alice_joined : worldAfter (plainSite handlers made) [formIncoming aliceJoins] = aliceJoined := by
  rw [world_after, List.filterMap_cons_some (alice_joins_arrives handlers made)]
  rfl

theorem alice_enters_answered : (serve (plainSite handlers made) (run (serveNext (plainSite handlers made)) processStart
    [formIncoming aliceJoins]) (formIncoming aliceEnters)).2 = .ok (wire (loggedIn 1700000000 aliceSid)) := by
  have env : (plainSite handlers made).env = plainEnv := rfl
  obtain ⟨_, ⟨_, _, opened⟩, _⟩ := alice_computed
  rw [serve_page _ _ _ _ (process_after _ _).size (alice_enters_arrives handlers made), ← worldAfter, alice_joined handlers made, env,
    opened]
  rfl

end

theorem alice_run_named (search : Arrival) (routed : search.route = .search) :
    Along (handleNext plainEnv) NamedSignup ⟨Database.empty, 0⟩
      [⟨1700000000, .signup, formRequest aliceJoins⟩, ⟨1700000000, .login, formRequest aliceEnters⟩, search] := by
  obtain ⟨⟨_, _, given⟩, _⟩ := alice_computed
  have other : search.route ≠ .signup := by rw [routed]; decide
  exact ⟨fun _ => given, other_route_named _ _ (by decide), other_route_named _ _ other, trivial⟩

end Facebooc
