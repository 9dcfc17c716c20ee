import Facebooc.ServerSteps

set_option autoImplicit false

namespace Facebooc

open CMemory Runs

def AuthenticatedAs (db : Database) (cookies : List Cookie) (a : Int) : Prop :=
  ∃ account, getAccount db (some cookies) = .ok (some account) ∧ account.id = a

def Carries (cookies : Option (List Cookie)) (sid : List UInt8) : Prop :=
  (cookiesGet cookies (ascii "sid")).map Cookie.value = some sid

instance (cookies : Option (List Cookie)) (sid : List UInt8) : Decidable (Carries cookies sid) :=
  inferInstanceAs (Decidable (_ = _))

def issuedBy (env : Env) (world : World) (arrival : Arrival) : Option (List UInt8 × Int) :=
  if arrival.route = .login ∧ (handle env world arrival).2 = .ok (some (loggedIn arrival.now (newSid env world))) then
    (loginAccount env world.db arrival.req).map fun row => (newSid env world, row.id)
  else none

def issued (env : Env) : World → List Arrival → List (List UInt8 × Int)
  | _, [] => []
  | world, arrival :: rest => (issuedBy env world arrival).toList ++ issued env (handleNext env world arrival) rest

def firstIssued (env : Env) (world : World) (arrivals : List Arrival) (sid : List UInt8) : Option Int :=
  ((issued env world arrivals).find? fun entry => entry.1 = sid).map Prod.snd

-- A row with an empty text cannot be decoded.
def Readable (db : Database) (a : Int) : Prop :=
  ∃ row ∈ db.accounts, row.id = a ∧ row.name ≠ [] ∧ row.email ≠ [] ∧ row.username ≠ []

-- What signups and logins keep of the two tables.
structure AccountsSound (db : Database) : Prop where
  ids : (db.accounts.map AccountRow.id).Nodup
  texts : ∀ row ∈ db.accounts, ∃ name email username, Encoded row name email username
  owners : ∀ session ∈ db.sessions, ∃ row ∈ db.accounts, row.id = session.account

def sessionPair (row : SessionRow) : List UInt8 × Int := (row.session, row.account)

theorem handle_answered (env : Env) (world after : World) (arrival : Arrival) (answer : Except Fault (Option Response))
    (called : callHandler env world arrival = (after, answer)) (sets : SetsNoCookie answer) :
    handle env world arrival = (after, answer) := by
  cases answer with
  | error fault => exact handle_fault env world after arrival fault called
  | ok response =>
      obtain ⟨r, rfl, _⟩ := sets response rfl
      exact handle_some env world after arrival r called

theorem sessions_step (env : Env) (world : World) (arrival : Arrival) :
    (handleNext env world arrival).db.sessions.map sessionPair =
      world.db.sessions.map sessionPair ++ (issuedBy env world arrival).toList := by
  by_cases route : arrival.route = .login
  · have called : callHandler env world arrival = login env world arrival.now arrival.req := by rw [callHandler, route]
    rcases login_steps env world arrival with ⟨answer, same, sets⟩ | ⟨row, _, found, same⟩
    · have handled := handle_answered env world world arrival answer (called.trans same) sets
      rw [handleNext, issuedBy, handled, if_neg]
      · simp
      · rintro ⟨_, given⟩
        have answered : answer = .ok (some (loggedIn arrival.now (newSid env world))) := given
        rw [answered] at sets
        exact logged_in_sets _ _ sets
    · have handled := handle_some env world _ arrival _ (called.trans same)
      rw [handleNext, issuedBy, handled, if_pos ⟨route, rfl⟩, found]
      simp [sessionPair, sessionRow]
  · have none_issued : issuedBy env world arrival = none := if_neg fun given => route given.1
    rw [none_issued, Option.toList_none, List.append_nil]
    have wrote := handle_wrote env world arrival
    generalize handleNext env world arrival = after at wrote ⊢
    cases wrote with
    | session row is_login stranger found answer => exact absurd is_login route
    | nothing | account | connection | post | like | unlike => rfl

theorem sessions_run (env : Env) (world : World) (arrivals : List Arrival) :
    (run (handleNext env) world arrivals).db.sessions.map sessionPair =
      world.db.sessions.map sessionPair ++ issued env world arrivals := by
  induction arrivals generalizing world with
  | nil => simp [run, issued]
  | cons arrival rest ih =>
      rw [run, List.foldl_cons, ← run, ih, sessions_step, issued, List.append_assoc]

theorem accounts_sound_empty : AccountsSound Database.empty where
  ids := List.nodup_nil
  texts := by simp [Database.empty]
  owners := by simp [Database.empty]

theorem accounts_sound_step (env : Env) (world after : World) (arrival : Arrival) (wrote : Wrote env world arrival after)
    (sound : AccountsSound world.db) : AccountsSound after.db := by
  cases wrote with
  | account route method stranger valid free =>
      let form := signupForm arrival.req
      refine ⟨?_, ?_, ?_⟩
      · rw [nodup_map_snoc]
        exact ⟨next_rowid_fresh _, sound.ids⟩
      · exact (forall_mem_snoc ..).mpr ⟨sound.texts, form.name.data, form.email.data, form.username.data, rfl, rfl, rfl⟩
      · intro session member
        obtain ⟨row, old, owner⟩ := sound.owners session member
        exact ⟨row, List.mem_append_left _ old, owner⟩
  | session row route stranger found answer =>
      refine ⟨sound.ids, sound.texts, ?_⟩
      exact (forall_mem_snoc ..).mpr ⟨sound.owners, row, List.mem_of_find?_eq_some found, rfl⟩
  | nothing | connection | post | like | unlike => exact ⟨sound.ids, sound.texts, sound.owners⟩

theorem accounts_sound_run (env : Env) (arrivals : List Arrival) :
    AccountsSound (run (handleNext env) ⟨Database.empty, 0⟩ arrivals).db := by
  refine history_invariant (handleNext env) (fun _ _ => True) (fun _ world => AccountsSound world.db) _
    accounts_sound_empty ?_ arrivals (along_true _ _ _)
  intro past world arrival sound _
  exact accounts_sound_step env world _ arrival (handle_wrote env world arrival) sound

theorem find_by_id (rows : List AccountRow) (row : AccountRow) (ids : (rows.map AccountRow.id).Nodup) (member : row ∈ rows) :
    rows.find? (fun other => other.id = row.id) = some row := by
  obtain ⟨found, same⟩ := Option.isSome_iff_exists.mp
    (List.find?_isSome.mpr ⟨row, member, decide_eq_true rfl⟩ : (rows.find? fun other => other.id = row.id).isSome)
  have equal := List.inj_on_of_nodup_map ids (List.mem_of_find?_eq_some same) member (by simpa using List.find?_some same)
  rw [same, equal]

theorem account_select_id (db : Database) (a : Int) (sound : AccountsSound db) :
    (∃ account, accountSelect db (fun row => row.id = a) = .ok (some account) ∧ account.id = a) ↔ Readable db a := by
  constructor
  · rintro ⟨account, selected, same⟩
    rw [accountSelect] at selected
    cases found : db.accounts.find? fun row => row.id = a with
    | none => rw [found] at selected; cases selected
    | some row =>
        rw [found] at selected
        obtain ⟨read, decoded, _⟩ := (except_bind_ok _ _ _).mp selected
        have member := List.mem_of_find?_eq_some found
        obtain ⟨name, email, username, encoded⟩ := sound.texts row member
        obtain ⟨texts, _⟩ := encoded_row_account row name email username read encoded decoded
        exact ⟨row, member, by simpa using List.find?_some found, (encoded_given row _ _ _ encoded).mpr texts⟩
  · rintro ⟨row, member, rfl, texts⟩
    obtain ⟨_, _, _, encoded⟩ := sound.texts row member
    have read := encoded_row_read row _ _ _ encoded ((encoded_given row _ _ _ encoded).mp texts)
    rw [accountSelect, find_by_id db.accounts row sound.ids member]
    simp only [read, bind, Except.bind]
    exact ⟨_, rfl, rfl⟩

theorem get_account_carrying (db : Database) (cookies : List Cookie) (sid : List UInt8) (carried : Carries (some cookies) sid) :
    getAccount db (some cookies) = accountGetBySId db sid := by
  obtain ⟨cookie, found, same⟩ := Option.map_eq_some_iff.mp carried
  simp only [getAccount, found, same]

theorem authenticated_iff (db : Database) (cookies : List Cookie) (sid : List UInt8) (a : Int) (sound : AccountsSound db)
    (carried : Carries (some cookies) sid) :
    AuthenticatedAs db cookies a ↔
      ((db.sessions.map sessionPair).find? fun entry => entry.1 = sid).map Prod.snd = some a ∧ Readable db a := by
  rw [AuthenticatedAs, get_account_carrying db cookies sid carried, accountGetBySId, sessionGetBySId, List.find?_map]
  change (∃ account, _ ∧ _) ↔ Option.map Prod.snd (Option.map sessionPair
    (db.sessions.find? fun row => row.session = sid)) = _ ∧ _
  cases found : db.sessions.find? fun row => row.session = sid with
  | none => simp
  | some row =>
      simp only [Option.map_some, sessionPair, Option.some.injEq]
      constructor
      · rintro ⟨account, selected, same⟩
        have owner : account.id = row.account := by
          rw [accountSelect] at selected
          cases foundRow : db.accounts.find? fun other => other.id = row.account with
          | none => rw [foundRow] at selected; cases selected
          | some other =>
              rw [foundRow] at selected
              obtain ⟨read, decoded, same⟩ := (except_bind_ok _ _ _).mp selected
              cases same
              obtain ⟨_, _, _, encoded⟩ := sound.texts other (List.mem_of_find?_eq_some foundRow)
              rw [(encoded_row_account other _ _ _ account encoded decoded).2]
              simpa using List.find?_some foundRow
        have id : row.account = a := owner.symm.trans same
        rw [id] at selected
        exact ⟨id, (account_select_id db a sound).mp ⟨account, selected, same⟩⟩
      · rintro ⟨rfl, readable⟩
        exact (account_select_id db _ sound).mpr readable

-- A signup that is stored gives the texts that lookups decode.
def NamedSignup (world : World) (arrival : Arrival) : Prop := StoredSignup world arrival → TextsGiven (signupForm arrival.req)

theorem other_route_named (world : World) (arrival : Arrival) (other : arrival.route ≠ .signup) : NamedSignup world arrival :=
  fun stored => absurd stored.1.1 other

theorem named_rows_run (env : Env) (arrivals : List Arrival)
    (named : Along (handleNext env) NamedSignup ⟨Database.empty, 0⟩ arrivals) :
    ∀ row ∈ (run (handleNext env) ⟨Database.empty, 0⟩ arrivals).db.accounts, row.name ≠ [] ∧ row.email ≠ [] ∧
      row.username ≠ [] := by
  refine history_invariant (handleNext env) NamedSignup
    (fun _ world => ∀ row ∈ world.db.accounts, row.name ≠ [] ∧ row.email ≠ [] ∧ row.username ≠ []) _
    (by simp [Database.empty]) ?_ arrivals named
  intro _ world arrival before stored
  have wrote := handle_wrote env world arrival
  generalize handleNext env world arrival = after at wrote ⊢
  cases wrote with
  | account route method stranger valid free =>
      have texts := stored ⟨⟨route, method, stranger⟩, valid, free⟩
      exact (forall_mem_snoc ..).mpr ⟨before, (encoded_given _ _ _ _ ⟨rfl, rfl, rfl⟩).mpr texts⟩
  | nothing | session | connection | post | like | unlike => exact before

-- An id that was handed out belongs to an account that is still there.
theorem first_issued_readable (env : Env) (arrivals : List Arrival) (sid : List UInt8) (a : Int)
    (named : Along (handleNext env) NamedSignup ⟨Database.empty, 0⟩ arrivals)
    (first : firstIssued env ⟨Database.empty, 0⟩ arrivals sid = some a) :
    Readable (run (handleNext env) ⟨Database.empty, 0⟩ arrivals).db a := by
  obtain ⟨entry, found, same⟩ := Option.map_eq_some_iff.mp first
  have member := List.mem_of_find?_eq_some found
  have pairs := sessions_run env ⟨Database.empty, 0⟩ arrivals
  rw [Database.empty, List.map_nil, List.nil_append] at pairs
  rw [Database.empty, ← pairs] at member
  obtain ⟨session, stored, pair⟩ := List.mem_map.mp member
  obtain ⟨row, here, owner⟩ := (accounts_sound_run env arrivals).owners session stored
  exact ⟨row, here, owner.trans ((congrArg Prod.snd pair).trans same), named_rows_run env arrivals named row here⟩

-- Over any requests of any clients, from the empty tables on: the earliest login
-- that handed out the id decides, and nothing a client sends later changes it.
theorem session_authenticates (env : Env) (arrivals : List Arrival) (cookies : List Cookie) (sid : List UInt8) (a : Int)
    (named : Along (handleNext env) NamedSignup ⟨Database.empty, 0⟩ arrivals) (carried : Carries (some cookies) sid) :
    AuthenticatedAs (run (handleNext env) ⟨Database.empty, 0⟩ arrivals).db cookies a ↔
      firstIssued env ⟨Database.empty, 0⟩ arrivals sid = some a := by
  rw [authenticated_iff _ cookies sid a (accounts_sound_run env arrivals) carried, sessions_run]
  exact and_iff_left_of_imp (first_issued_readable env arrivals sid a named)

def aliceLogout : Arrival := formArrival .logout (some aliceCookies) []

theorem session_authenticates_alice :
    AuthenticatedAs (run (handleNext plainEnv) ⟨Database.empty, 0⟩ [aliceSignup, aliceLogin, aliceLogout]).db aliceCookies 1 ↔
      firstIssued plainEnv ⟨Database.empty, 0⟩ [aliceSignup, aliceLogin, aliceLogout] aliceSid = some 1 := by
  have given : TextsGiven (signupForm aliceSignup.req) := by decide +kernel
  refine session_authenticates plainEnv [aliceSignup, aliceLogin, aliceLogout] aliceCookies aliceSid 1 ?_ (by decide +kernel)
  exact ⟨fun _ => given, other_route_named _ aliceLogin (by decide), other_route_named _ aliceLogout (by decide), trivial⟩

-- A login of a handed out the id, and no logout that carried it came later.
def SessionOpen (env : Env) (world : World) (arrivals : List Arrival) (sid : List UInt8) (a : Int) : Prop :=
  ∃ before login after, arrivals = before ++ login :: after ∧
    issuedBy env (run (handleNext env) world before) login = some (sid, a) ∧
    ∀ later ∈ after, ¬ (later.route = .logout ∧ Carries later.req.cookies sid)

theorem logout_keeps_session :
    (handle plainEnv (run (handleNext plainEnv) ⟨Database.empty, 0⟩ [aliceSignup, aliceLogin]) aliceLogout).2 =
      logout (run (handleNext plainEnv) ⟨Database.empty, 0⟩ [aliceSignup, aliceLogin]).db 1700000000 aliceLogout.req ∧
    AuthenticatedAs (run (handleNext plainEnv) ⟨Database.empty, 0⟩ [aliceSignup, aliceLogin, aliceLogout]).db aliceCookies 1 ∧
      ¬ SessionOpen plainEnv ⟨Database.empty, 0⟩ [aliceSignup, aliceLogin, aliceLogout] aliceSid 1 := by
  refine ⟨by decide +kernel, ⟨⟨1, 1700000000, ⟨ascii "Alice", 5⟩, ⟨ascii "al@x.org", 8⟩, ⟨ascii "alice", 5⟩⟩,
    by decide +kernel, rfl⟩,
    ?_⟩
  rintro ⟨before, login, after, split, given, later⟩
  have noSignup : issuedBy plainEnv ⟨Database.empty, 0⟩ aliceSignup = none := by decide +kernel
  match before, split with
  | [], split =>
      cases split
      rw [run, List.foldl_nil, noSignup] at given
      cases given
  | [_], split =>
      cases split
      exact later aliceLogout (List.mem_singleton_self _) ⟨rfl, by decide +kernel⟩
  | [_, _], split =>
      cases split
      rw [issuedBy, if_neg fun logout => by cases logout.1] at given
      cases given
  | _ :: _ :: _ :: _, split =>
      have length := congrArg List.length split
      simp only [List.length_cons, List.length_append, List.length_nil] at length
      omega

end Facebooc
