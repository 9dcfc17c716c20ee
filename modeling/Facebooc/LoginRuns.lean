import Facebooc.SessionRuns
import Facebooc.SignupRuns

set_option autoImplicit false

namespace Facebooc

open CMemory Runs

def Owns (env : Env) (world : World) (username password : List UInt8) (row : AccountRow) : Prop :=
  row ∈ world.db.accounts ∧ row.username = base64Encode username ∧ row.password = env.sha256 password

def authenticates (env : Env) (world : World) (username password : List UInt8) : Bool :=
  accountAuth env.sha256 world.db ⟨username, username.length⟩ ⟨password, password.length⟩

def sessionFor (env : Env) (world : World) (now : Int) (username password : List UInt8) : Database × Nat × Option Session :=
  sessionCreate env.sha256 world.db now env.address world.counter username password

-- The session that comes back is that of the row where its id is new.
structure AuthSound (env : Env) (world : World) : Prop where
  exact : ∀ username password,
    authenticates env world username password = true ↔ ∃ row, Owns env world username password row
  session : ∀ now username password, authenticates env world username password = true →
    ∃ row session, Owns env world username password row ∧
      (sessionFor env world now username password).1.sessions =
        world.db.sessions ++ [sessionRow world.db now row.id (newSid env world)] ∧
      (sessionFor env world now username password).2.2 = some session ∧
      ((∀ old ∈ world.db.sessions, old.session ≠ newSid env world) → session.accountId = row.id)
  refused : ∀ now req,
    authenticates env world (formField req "username").data (formField req "password").data = false →
      (login env world now req).1.db.sessions = world.db.sessions

def firstNamed (db : Database) (username : List UInt8) : Option AccountRow :=
  db.accounts.find? fun row => row.username = username

-- A signup that is stored under a username in use repeats the password of its
-- first account.
def KeepsPasswords (env : Env) (world : World) (arrival : Arrival) : Prop :=
  StoredSignup world arrival → ∀ first,
    firstNamed world.db (base64Encode (signupForm arrival.req).username.data) = some first →
      first.password = env.sha256 (signupForm arrival.req).password.data

def PasswordsAgree (db : Database) : Prop :=
  ∀ row ∈ db.accounts, ∀ first, firstNamed db row.username = some first → first.password = row.password

def PasswordsHashed (env : Env) (db : Database) : Prop := ∀ row ∈ db.accounts, ∃ password, row.password = env.sha256 password

theorem authenticates_first (env : Env) (world : World) (username password : List UInt8) :
    authenticates env world username password = true ↔
      ∃ first, firstNamed world.db (base64Encode username) = some first ∧ first.password = env.sha256 password := by
  rw [authenticates, accountAuth, firstNamed]
  cases world.db.accounts.find? fun row => row.username = base64Encode username with
  | none => simp
  | some first => simp [eq_comm]

theorem first_named_owns (env : Env) (world : World) (username password : List UInt8) (first : AccountRow)
    (found : firstNamed world.db (base64Encode username) = some first) (same : first.password = env.sha256 password) :
    Owns env world username password first :=
  ⟨List.mem_of_find?_eq_some found, by simpa using List.find?_some found, same⟩

theorem session_for_owned (env : Env) (world : World) (now : Int) (username password : List UInt8)
    (authenticated : authenticates env world username password = true) :
    ∃ row session, Owns env world username password row ∧
      (sessionFor env world now username password).1.sessions =
        world.db.sessions ++ [sessionRow world.db now row.id (newSid env world)] ∧
      (sessionFor env world now username password).2.2 = some session ∧
      ((∀ old ∈ world.db.sessions, old.session ≠ newSid env world) → session.accountId = row.id) := by
  obtain ⟨first, found, same⟩ := (authenticates_first env world username password).mp authenticated
  obtain ⟨member, name, _⟩ := first_named_owns env world username password first found same
  have known : (world.db.accounts.find? fun row =>
      row.username = base64Encode username ∧ row.password = env.sha256 password).isSome :=
    List.find?_isSome.mpr ⟨first, member, decide_eq_true ⟨name, same⟩⟩
  obtain ⟨row, selected⟩ := Option.isSome_iff_exists.mp known
  have matched : row.username = base64Encode username ∧ row.password = env.sha256 password := by
    simpa using List.find?_some selected
  obtain ⟨session, created, _, own⟩ := session_create_finds env world.db now world.counter username password row selected
  refine ⟨row, session, ⟨List.mem_of_find?_eq_some selected, matched⟩, ?_, ?_, own⟩
  · rw [sessionFor, created]
    rfl
  · rw [sessionFor, created]

theorem login_refused (env : Env) (world : World) (now : Int) (req : Request)
    (wrong : authenticates env world (formField req "username").data (formField req "password").data = false) :
    (login env world now req).1.db.sessions = world.db.sessions := by
  have refused : accountAuth env.sha256 world.db (formField req "username") (formField req "password") = false := wrong
  rw [login]
  cases getAccount world.db req.cookies with
  | error fault => rfl
  | ok myAcc =>
      cases myAcc with
      | some me => rfl
      | none =>
          simp only [attempt]
          split
          · cases templateSetAll (templateNew (ascii "templates/login.html"))
              (loginSets (formField req "username") (formField req "password")) with
            | error fault => rfl
            | ok template => simp only [authenticate, refused, Bool.false_eq_true, if_false]
          · rfl

theorem auth_sound_iff (env : Env) (world : World) (sound : AccountsSound world.db) (hashed : PasswordsHashed env world.db) :
    AuthSound env world ↔ PasswordsAgree world.db := by
  constructor
  · intro auth row member first found
    obtain ⟨_, _, username, encoded⟩ := sound.texts row member
    obtain ⟨password, hash⟩ := hashed row member
    have owned := (auth.exact username password).mpr ⟨row, member, encoded.username, hash⟩
    obtain ⟨other, otherFound, same⟩ := (authenticates_first env world username password).mp owned
    rw [encoded.username, otherFound] at found
    cases found
    rw [same, hash]
  · intro agree
    refine ⟨fun username password => ?_, session_for_owned env world, login_refused env world⟩
    rw [authenticates_first]
    constructor
    · rintro ⟨first, found, same⟩
      exact ⟨first, first_named_owns env world username password first found same⟩
    · rintro ⟨row, member, name, hash⟩
      have known : (firstNamed world.db (base64Encode username)).isSome :=
        List.find?_isSome.mpr ⟨row, member, decide_eq_true name⟩
      obtain ⟨first, found⟩ := Option.isSome_iff_exists.mp known
      refine ⟨first, found, ?_⟩
      rw [agree row member first (by rw [name]; exact found), hash]

theorem passwords_agree_snoc (db : Database) (new : AccountRow) (agree : PasswordsAgree db) :
    PasswordsAgree { db with accounts := db.accounts ++ [new] } ↔
      ∀ first, firstNamed db new.username = some first → first.password = new.password := by
  have named : ∀ username, firstNamed { db with accounts := db.accounts ++ [new] } username =
      (firstNamed db username).or (firstNamed ⟨[new], [], [], [], []⟩ username) := fun _ => List.find?_append
  constructor
  · intro after first found
    refine after new (List.mem_append_right _ (List.mem_singleton_self _)) first ?_
    rw [named, found, Option.some_or]
  · intro kept row member first found
    rw [named] at found
    rcases List.mem_append.mp member with old | fresh
    · have known : (firstNamed db row.username).isSome := List.find?_isSome.mpr ⟨row, old, decide_eq_true rfl⟩
      obtain ⟨early, earlyFound⟩ := Option.isSome_iff_exists.mp known
      rw [earlyFound, Option.some_or] at found
      cases found
      exact agree row old first earlyFound
    · rw [List.mem_singleton.mp fresh] at found ⊢
      cases earlyFound : firstNamed db new.username with
      | some early =>
          rw [earlyFound, Option.some_or] at found
          cases found
          exact kept first earlyFound
      | none =>
          rw [earlyFound, Option.none_or] at found
          have same : new = first := List.mem_singleton.mp (List.mem_of_find?_eq_some found) |>.symm
          rw [same]

theorem stored_signup_accounts (env : Env) (world : World) (arrival : Arrival) (stored : StoredSignup world arrival) :
    (handleNext env world arrival).db.accounts =
      world.db.accounts ++ [formRow env world.db arrival.now (signupForm arrival.req)] := by
  obtain ⟨signup, valid, free⟩ := stored
  rw [handleNext, signup_registers env world arrival signup valid, register_free env world arrival.now _ free]

theorem unstored_accounts (env : Env) (world : World) (arrival : Arrival) (unstored : ¬ StoredSignup world arrival) :
    (handleNext env world arrival).db.accounts = world.db.accounts := by
  have wrote := handle_wrote env world arrival
  generalize handleNext env world arrival = after at wrote ⊢
  cases wrote with
  | account route method stranger valid free => exact absurd ⟨⟨route, method, stranger⟩, valid, free⟩ unstored
  | nothing | session | connection | post | like | unlike => rfl

theorem passwords_agree_accounts (left right : Database) (same : left.accounts = right.accounts) :
    PasswordsAgree left ↔ PasswordsAgree right := by
  simp only [PasswordsAgree, firstNamed, same]

theorem passwords_agree_step (env : Env) (world : World) (arrival : Arrival) (agree : PasswordsAgree world.db) :
    PasswordsAgree (handleNext env world arrival).db ↔ KeepsPasswords env world arrival := by
  by_cases stored : StoredSignup world arrival
  · rw [passwords_agree_accounts _ { world.db with
        accounts := world.db.accounts ++ [formRow env world.db arrival.now (signupForm arrival.req)] }
      (stored_signup_accounts env world arrival stored), passwords_agree_snoc _ _ agree]
    exact ⟨fun kept _ => kept, fun kept => kept stored⟩
  · rw [passwords_agree_accounts _ world.db (unstored_accounts env world arrival stored)]
    exact iff_of_true agree fun now => absurd now stored

theorem passwords_hashed_run (env : Env) (arrivals : List Arrival) :
    PasswordsHashed env (run (handleNext env) ⟨Database.empty, 0⟩ arrivals).db := by
  refine history_invariant (handleNext env) (fun _ _ => True) (fun _ world => PasswordsHashed env world.db) _
    (by simp [PasswordsHashed, Database.empty]) ?_ arrivals (along_true _ _ _)
  intro past world arrival hashed _ row member
  by_cases stored : StoredSignup world arrival
  · rw [stored_signup_accounts env world arrival stored] at member
    exact (forall_mem_snoc _ _ _).mpr ⟨hashed, _, rfl⟩ row member
  · rw [unstored_accounts env world arrival stored] at member
    exact hashed row member

-- Any requests from the empty tables on. The logins and the sessions follow the
-- accounts in every state of the run exactly when no signup is stored that gives
-- a username in use another password.
theorem auth_sound_runs (env : Env) (arrivals : List Arrival) :
    Throughout (handleNext env) (AuthSound env) ⟨Database.empty, 0⟩ arrivals ↔
      Along (handleNext env) (KeepsPasswords env) ⟨Database.empty, 0⟩ arrivals := by
  rw [← throughout_iff (handleNext env) (KeepsPasswords env) (fun world => PasswordsAgree world.db)
    (passwords_agree_step env) arrivals ⟨Database.empty, 0⟩ (by simp [PasswordsAgree, Database.empty])]
  have same : ∀ past, AuthSound env (run (handleNext env) ⟨Database.empty, 0⟩ past) ↔
      PasswordsAgree (run (handleNext env) ⟨Database.empty, 0⟩ past).db := fun past =>
    auth_sound_iff env _ (accounts_sound_run env past) (passwords_hashed_run env past)
  constructor
  · intro held past early
    exact (same past).mp (held past early)
  · intro held past early
    exact (same past).mpr (held past early)

def namesakeSignup : Arrival := formArrival .signup none [("name", "Alicia"), ("email", "bo@x.org"), ("username", "alice"),
  ("password", "87654321"), ("confirm-password", "87654321")]

theorem namesake_locked_out : let world := run (handleNext plainEnv) ⟨Database.empty, 0⟩ [aliceSignup, namesakeSignup]
    (∃ row, Owns plainEnv world (ascii "alice") (ascii "87654321") row) ∧
      authenticates plainEnv world (ascii "alice") (ascii "87654321") = false ∧ ¬ AuthSound plainEnv world := by
  intro world
  have owned : ∃ row, Owns plainEnv world (ascii "alice") (ascii "87654321") row := by
    refine ⟨⟨2, 1700000000, base64Encode (ascii "Alicia"), base64Encode (ascii "alice"), base64Encode (ascii "bo@x.org"),
      ascii "87654321"⟩, ?_, rfl, rfl⟩
    decide +kernel
  have refused : authenticates plainEnv world (ascii "alice") (ascii "87654321") = false := by decide +kernel
  refine ⟨owned, refused, fun auth => ?_⟩
  have accepted := (auth.exact _ _).mpr owned
  rw [refused] at accepted
  cases accepted

end Facebooc
