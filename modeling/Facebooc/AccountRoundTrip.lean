import Facebooc.IntegrityRuns
import Facebooc.LoginRuns

set_option autoImplicit false

namespace Facebooc

open CMemory Runs

structure Submitted (form : SignupForm) (account : Account) : Prop where
  name : account.name = form.name
  email : account.email = form.email
  username : account.username = form.username

def Finds (form : SignupForm) (found : Except Fault (Option Account)) : Prop :=
  ∃ account, found = .ok (some account) ∧ Submitted form account

structure Persisted (db : Database) (id : Int) (form : SignupForm) : Prop where
  byEmail : Finds form (accountGetByEmail db form.email)
  byId : Finds form (accountGetById db id)
  bySId : ∀ session ∈ db.sessions, session.account = id → Finds form (accountGetBySId db session.session)

-- The session that is found by an id of the account is one of the account.
def SessionsOwn (db : Database) (id : Int) : Prop :=
  ∀ session ∈ db.sessions, session.account = id → ∀ first, sessionGetBySId db session.session = some first →
    first.accountId = id

structure RowsDistinct (db : Database) : Prop where
  linked : Linked db
  emails : (db.accounts.map AccountRow.email).Nodup

theorem rows_distinct_run (env : Env) (arrivals : List Arrival) :
    RowsDistinct (run (handleNext env) ⟨Database.empty, 0⟩ arrivals).db := by
  refine ⟨linked_run env arrivals, ?_⟩
  refine history_invariant (handleNext env) (fun _ _ => True) (fun _ world => (world.db.accounts.map AccountRow.email).Nodup)
    ⟨Database.empty, 0⟩ List.nodup_nil ?_ arrivals (along_true _ _ _)
  intro past world arrival distinct _
  have wrote := handle_wrote env world arrival
  generalize handleNext env world arrival = after at wrote ⊢
  cases wrote with
  | account route method stranger valid free =>
      rw [nodup_map_snoc]
      refine ⟨fun taken => ?_, distinct⟩
      obtain ⟨row, member, same⟩ := List.mem_map.mp taken
      rw [accountCheckEmail, Bool.not_eq_true', List.any_eq_false] at free
      exact free row member (decide_eq_true same)
  | nothing | session | connection | post | like | unlike => exact distinct

theorem accounts_grow (env : Env) (world : World) (arrivals : List Arrival) :
    ∀ row ∈ world.db.accounts, row ∈ (run (handleNext env) world arrivals).db.accounts := by
  induction arrivals generalizing world with
  | nil => exact fun row member => member
  | cons arrival rest ih =>
      intro row member
      rw [run, List.foldl_cons, ← run]
      apply ih
      have wrote := handle_wrote env world arrival
      generalize handleNext env world arrival = after at wrote ⊢
      cases wrote with
      | account route method stranger valid free => exact List.mem_append_left _ member
      | nothing | session | connection | post | like | unlike => exact member

theorem find_by_email (rows : List AccountRow) (row : AccountRow) (emails : (rows.map AccountRow.email).Nodup)
    (member : row ∈ rows) : rows.find? (fun other => other.email = row.email) = some row := by
  obtain ⟨found, same⟩ := Option.isSome_iff_exists.mp
    (List.find?_isSome.mpr ⟨row, member, decide_eq_true rfl⟩ : (rows.find? fun other => other.email = row.email).isSome)
  have equal := List.inj_on_of_nodup_map emails (List.mem_of_find?_eq_some same) member (by simpa using List.find?_some same)
  rw [same, equal]

def FormSized (form : SignupForm) : Prop :=
  form.name.size = form.name.data.length ∧ form.email.size = form.email.data.length ∧
    form.username.size = form.username.data.length

theorem form_row_read (row : AccountRow) (form : SignupForm) (sized : FormSized form)
    (encoded : Encoded row form.name.data form.email.data form.username.data) :
    Finds form (do .ok (some (← accountOfRow row))) ↔ TextsGiven form := by
  constructor
  · intro found
    obtain ⟨account, run, _⟩ := found
    obtain ⟨read, decoded, _⟩ := (except_bind_ok _ _ _).mp run
    exact (encoded_row_account row _ _ _ read encoded decoded).1
  · intro texts
    refine ⟨_, by rw [encoded_row_read row _ _ _ encoded texts]; rfl, ?_⟩
    obtain ⟨name, email, username⟩ := sized
    exact ⟨by rw [← name], by rw [← email], by rw [← username]⟩

theorem select_finds (db : Database) (condition : AccountRow → Bool) (row : AccountRow) (form : SignupForm)
    (sized : FormSized form) (encoded : Encoded row form.name.data form.email.data form.username.data)
    (found : db.accounts.find? condition = some row) : Finds form (accountSelect db condition) ↔ TextsGiven form := by
  rw [accountSelect, found]
  exact form_row_read row form sized encoded

-- Only the account's own row carries its email.
theorem select_id_finds (db : Database) (row : AccountRow) (form : SignupForm) (sized : FormSized form) (id : Int)
    (distinct : RowsDistinct db) (member : row ∈ db.accounts)
    (encoded : Encoded row form.name.data form.email.data form.username.data) :
    Finds form (accountSelect db fun other => other.id = id) ↔ TextsGiven form ∧ id = row.id := by
  constructor
  · intro finds
    have known := finds
    obtain ⟨account, selected, submitted⟩ := known
    rw [accountSelect] at selected
    cases found : db.accounts.find? fun other => other.id = id with
    | none => rw [found] at selected; cases selected
    | some other =>
        rw [found] at selected
        obtain ⟨read, decoded, same⟩ := (except_bind_ok _ _ _).mp selected
        cases same
        have stored := List.mem_of_find?_eq_some found
        obtain ⟨name, email, username, code⟩ := distinct.linked.sound.texts other stored
        obtain ⟨_, shape⟩ := encoded_row_account other name email username account code decoded
        have sameEmail : other.email = row.email := by
          rw [code.email, encoded.email, ← submitted.email, shape]
        have sameRow := List.inj_on_of_nodup_map distinct.emails stored member sameEmail
        have sameId : row.id = id := by
          rw [← sameRow]
          simpa using List.find?_some found
        rw [sameRow] at found
        exact ⟨(select_finds db _ row form sized encoded found).mp finds, sameId.symm⟩
  · intro given
    obtain ⟨texts, same⟩ := given
    subst same
    exact (select_finds db _ row form sized encoded (find_by_id db.accounts row distinct.linked.sound.ids member)).mpr texts

theorem persisted_iff (db : Database) (row : AccountRow) (form : SignupForm) (sized : FormSized form)
    (distinct : RowsDistinct db) (member : row ∈ db.accounts)
    (encoded : Encoded row form.name.data form.email.data form.username.data) :
    Persisted db row.id form ↔ TextsGiven form ∧ SessionsOwn db row.id := by
  have byEmail : Finds form (accountGetByEmail db form.email) ↔ TextsGiven form := by
    rw [accountGetByEmail, ← encoded.email]
    exact select_finds db _ row form sized encoded (find_by_email db.accounts row distinct.emails member)
  have positive := distinct.linked.positive row member
  have byId : Finds form (accountGetById db row.id) ↔ TextsGiven form := by
    rw [accountGetById, if_neg (by omega), select_id_finds db row form sized row.id distinct member encoded]
    simp
  have bySId : ∀ sid first, sessionGetBySId db sid = some first →
      (Finds form (accountGetBySId db sid) ↔ TextsGiven form ∧ first.accountId = row.id) := by
    intro sid first found
    rw [accountGetBySId, found]
    exact select_id_finds db row form sized first.accountId distinct member encoded
  constructor
  · intro persisted
    refine ⟨byEmail.mp persisted.byEmail, ?_⟩
    intro session stored owner first found
    exact ((bySId session.session first found).mp (persisted.bySId session stored owner)).2
  · intro given
    obtain ⟨texts, own⟩ := given
    refine ⟨byEmail.mpr texts, byId.mpr texts, ?_⟩
    intro session stored owner
    have known : (db.sessions.find? fun other => other.session = session.session).isSome :=
      List.find?_isSome.mpr ⟨session, stored, decide_eq_true rfl⟩
    obtain ⟨other, found⟩ := Option.isSome_iff_exists.mp known
    have first : sessionGetBySId db session.session = some ⟨other.id, other.createdAt, other.account, other.session⟩ := by
      rw [sessionGetBySId, found]
      rfl
    exact (bySId _ _ first).mpr ⟨texts, own session stored owner _ first⟩

-- A signup that is stored at any point of any run, looked up at any later point.
theorem account_persists (env : Env) (before after : List Arrival) (arrival : Arrival)
    (stored : StoredSignup (run (handleNext env) ⟨Database.empty, 0⟩ before) arrival) :
    let world := run (handleNext env) ⟨Database.empty, 0⟩ before
    let later := run (handleNext env) ⟨Database.empty, 0⟩ (before ++ arrival :: after)
    let id := nextRowid (world.db.accounts.map AccountRow.id)
    Persisted later.db id (signupForm arrival.req) ↔
      TextsGiven (signupForm arrival.req) ∧ SessionsOwn later.db id := by
  intro world later id
  let row := formRow env world.db arrival.now (signupForm arrival.req)
  have inserted : row ∈ (handleNext env world arrival).db.accounts := by
    rw [stored_signup_accounts env world arrival stored]
    exact List.mem_append_right _ (List.mem_singleton_self row)
  have path : later = run (handleNext env) (handleNext env world arrival) after := by
    simp only [later, world, run, List.foldl_append, List.foldl_cons]
  have member : row ∈ later.db.accounts := by
    rw [path]
    exact accounts_grow env _ after row inserted
  have sized : FormSized (signupForm arrival.req) :=
    ⟨basic_string_init_size _, basic_string_init_size _, basic_string_init_size _⟩
  exact persisted_iff later.db row _ sized (rows_distinct_run env _) member ⟨rfl, rfl, rfl⟩

theorem account_persists_alice :
    let world := run (handleNext plainEnv) ⟨Database.empty, 0⟩ []
    let later := run (handleNext plainEnv) ⟨Database.empty, 0⟩ ([] ++ aliceSignup :: [aliceLogin])
    let id := nextRowid (world.db.accounts.map AccountRow.id)
    Persisted later.db id (signupForm aliceSignup.req) ↔
      TextsGiven (signupForm aliceSignup.req) ∧ SessionsOwn later.db id :=
  account_persists plainEnv [] [aliceLogin] aliceSignup ⟨⟨rfl, rfl, rfl⟩, by decide +kernel, by decide +kernel⟩

def namelessSignup : Arrival := formArrival .signup none [("email", "al@x.org"), ("username", "alice"),
  ("password", "12345678"), ("confirm-password", "12345678")]

theorem nameless_lost : let world := run (handleNext plainEnv) ⟨Database.empty, 0⟩ [namelessSignup]
    StoredSignup ⟨Database.empty, 0⟩ namelessSignup ∧ world.db.accounts.length = 1 ∧
      accountGetById world.db 1 = .error .bounds ∧ ¬ Persisted world.db 1 (signupForm namelessSignup.req) := by
  intro world
  have fault : accountGetById world.db 1 = .error .bounds := by decide +kernel
  refine ⟨⟨⟨rfl, rfl, rfl⟩, by decide +kernel, by decide +kernel⟩, by decide +kernel, fault, fun persisted => ?_⟩
  obtain ⟨account, found, _⟩ := persisted.byId
  rw [fault] at found
  cases found

end Facebooc
