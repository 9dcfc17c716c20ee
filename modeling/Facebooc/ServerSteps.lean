import Facebooc.Runs
import Facebooc.Server
import Facebooc.TemplateContext

set_option autoImplicit false

namespace Facebooc

open CMemory

theorem nodup_map_snoc {α β : Type} (f : α → β) (list : List α) (a : α) :
    ((list ++ [a]).map f).Nodup ↔ f a ∉ list.map f ∧ (list.map f).Nodup := by
  rw [List.map_append, List.map_singleton, ← List.concat_eq_append, List.nodup_concat]

theorem forall_mem_snoc {α : Type} (p : α → Prop) (list : List α) (a : α) :
    (∀ b ∈ list ++ [a], p b) ↔ (∀ b ∈ list, p b) ∧ p a := by
  rw [List.forall_mem_append, List.forall_mem_singleton]

def formRow (env : Env) (db : Database) (now : Int) (form : SignupForm) : AccountRow :=
  accountRow env.sha256 db now form.name form.email form.username form.password

def loginAccount (env : Env) (db : Database) (req : Request) : Option AccountRow :=
  db.accounts.find? fun row => row.username = base64Encode (formField req "username").data ∧
    row.password = env.sha256 (formField req "password").data

def newSid (env : Env) (world : World) : List UInt8 := genRandomDummyString env.address world.counter 64

def SignupRequest (world : World) (arrival : Arrival) : Prop :=
  arrival.route = .signup ∧ arrival.req.method = .POST ∧ getAccount world.db arrival.req.cookies = .ok none

def StoredSignup (world : World) (arrival : Arrival) : Prop :=
  SignupRequest world arrival ∧ signupValid world.db (signupForm arrival.req) = true ∧
    accountCheckEmail world.db (signupForm arrival.req).email = true

def TextsGiven (form : SignupForm) : Prop := form.name.data ≠ [] ∧ form.email.data ≠ [] ∧ form.username.data ≠ []

instance (form : SignupForm) : Decidable (TextsGiven form) := inferInstanceAs (Decidable (_ ∧ _))

inductive Wrote (env : Env) (world : World) (arrival : Arrival) : World → Prop where
  | nothing : Wrote env world arrival world
  | account (route : arrival.route = .signup) (method : arrival.req.method = .POST)
      (stranger : getAccount world.db arrival.req.cookies = .ok none)
      (valid : signupValid world.db (signupForm arrival.req) = true)
      (free : accountCheckEmail world.db (signupForm arrival.req).email = true) :
      Wrote env world arrival { world with db := { world.db with
        accounts := world.db.accounts ++ [formRow env world.db arrival.now (signupForm arrival.req)] } }
  | session (row : AccountRow) (route : arrival.route = .login)
      (stranger : getAccount world.db arrival.req.cookies = .ok none)
      (found : loginAccount env world.db arrival.req = some row)
      (answer : (callHandler env world arrival).2 = .ok (some (loggedIn arrival.now (newSid env world)))) :
      Wrote env world arrival ⟨{ world.db with
        sessions := world.db.sessions ++ [sessionRow world.db arrival.now row.id (newSid env world)] }, world.counter + 64⟩
  | connection (me other : Account) (route : arrival.route = .connect)
      (client : getAccount world.db arrival.req.cookies = .ok (some me))
      (found : ∃ id, accountGetById world.db id = .ok (some other)) :
      Wrote env world arrival { world with db := connectionCreate world.db arrival.now me.id other.id }
  | post (me : Account) (route : arrival.route = .post)
      (client : getAccount world.db arrival.req.cookies = .ok (some me)) (size : (formField arrival.req "post").size ≠ 0) :
      Wrote env world arrival { world with
        db := postCreateMove world.db arrival.now me.id (formField arrival.req "post") }
  | like (me : Account) (post : Post) (route : arrival.route = .like)
      (client : getAccount world.db arrival.req.cookies = .ok (some me)) (found : ∃ id, postGetById world.db id = some post) :
      Wrote env world arrival { world with db := likeCreate world.db arrival.now me.id post.authorId post.id }
  | unlike (me : Account) (post : Post) (route : arrival.route = .unlike)
      (client : getAccount world.db arrival.req.cookies = .ok (some me)) (found : ∃ id, postGetById world.db id = some post) :
      Wrote env world arrival { world with db := likeDelete world.db me.id post.id }

theorem handle_world (env : Env) (world : World) (arrival : Arrival) :
    (handle env world arrival).1 = (callHandler env world arrival).1 := by
  refine attempt_keeps _ _ _ fun response => ?_
  cases response with
  | none => rfl
  | some response => rfl

theorem handle_some (env : Env) (world after : World) (arrival : Arrival) (response : Response)
    (called : callHandler env world arrival = (after, .ok (some response))) :
    handle env world arrival = (after, .ok (some response)) := by
  simp only [handle, called, attempt]

theorem handle_fault (env : Env) (world after : World) (arrival : Arrival) (fault : Fault)
    (called : callHandler env world arrival = (after, .error fault)) :
    handle env world arrival = (after, .error fault) := by
  simp only [handle, called, attempt]

-- A part of a handler that fails leaves the tables alone.
theorem attempt_wrote {α β : Type} (env : Env) (world : World) (arrival : Arrival) (x : Except Fault α)
    (next : α → World × Except Fault β) (each : ∀ a, x = .ok a → Wrote env world arrival (next a).1) :
    Wrote env world arrival (attempt world x next).1 := by
  cases x with
  | error fault => exact .nothing
  | ok a => exact each a rfl

theorem connect_wrote (env : Env) (world : World) (arrival : Arrival) (route : arrival.route = .connect) :
    Wrote env world arrival (connect world arrival.now arrival.req).1 := by
  apply attempt_wrote
  intro myAcc client
  cases myAcc with
  | none => exact .nothing
  | some me =>
      apply attempt_wrote
      intro account asked
      cases account with
      | none => exact .nothing
      | some other =>
          obtain ⟨id, _, found⟩ := (except_bind_ok _ _ _).mp asked
          exact .connection me other route client ⟨id, found⟩

theorem liking_wrote (env : Env) (world : World) (arrival : Arrival) (write : Database → Int → Post → Database)
    (wrote : ∀ me post, getAccount world.db arrival.req.cookies = .ok (some me) →
      (∃ id, postGetById world.db id = some post) → Wrote env world arrival { world with db := write world.db me.id post }) :
    Wrote env world arrival (liking write world arrival.req).1 := by
  apply attempt_wrote
  intro myAcc client
  cases myAcc with
  | none => exact .nothing
  | some me =>
      apply attempt_wrote
      intro id asked
      cases found : postGetById world.db id with
      | none => exact .nothing
      | some post => exact wrote me post client ⟨id, found⟩

theorem post_wrote (env : Env) (world : World) (arrival : Arrival) (route : arrival.route = .post) :
    Wrote env world arrival (post world arrival.now arrival.req).1 := by
  apply attempt_wrote
  intro acc client
  cases acc with
  | none => exact .nothing
  | some me =>
      simp only
      split
      · rename_i sent
        exact .post me route client sent.2.1
      · exact .nothing

theorem register_taken (env : Env) (world : World) (now : Int) (form : SignupForm)
    (taken : accountCheckEmail world.db form.email = false) :
    register env world now form = (world, .ok (redirect "/login/")) := by
  simp only [accountCheckEmail, Bool.not_eq_false'] at taken
  simp only [register, accountCreate, taken, if_true, attempt]

theorem register_free (env : Env) (world : World) (now : Int) (form : SignupForm)
    (free : accountCheckEmail world.db form.email = true) :
    (register env world now form).1 =
      { world with db := { world.db with accounts := world.db.accounts ++ [formRow env world.db now form] } } := by
  simp only [accountCheckEmail, Bool.not_eq_true'] at free
  simp only [register, accountCreate, free, Bool.false_eq_true, if_false]
  exact attempt_keeps _ _ _ fun _ => rfl

theorem signup_wrote (env : Env) (world : World) (arrival : Arrival) (route : arrival.route = .signup) :
    Wrote env world arrival (signup env world arrival.now arrival.req).1 := by
  apply attempt_wrote
  intro myAcc client
  cases myAcc with
  | some me => exact .nothing
  | none =>
      apply attempt_wrote
      intro template asked
      split
      · rename_i valid
        cases free : accountCheckEmail world.db (signupForm arrival.req).email with
        | false =>
            rw [register_taken env world arrival.now _ free]
            exact .nothing
        | true =>
            rw [register_free env world arrival.now _ free]
            exact .account route valid.1 client valid.2 free
      · exact .nothing

theorem render_response_page (env : Env) (status : Status) (template : Template) (response : Option Response)
    (run : renderResponse env status template = .ok response) :
    ∃ page, templateRender env.files env.depth template = .ok page ∧ response = some ⟨status, [], some page⟩ := by
  obtain ⟨page, rendered, same⟩ := (except_bind_ok _ _ _).mp run
  cases same
  exact ⟨page, rendered, rfl⟩

def SetsNoCookie (answer : Except Fault (Option Response)) : Prop :=
  ∀ response, answer = .ok response → ∃ r, response = some r ∧ ∀ entry ∈ r.header, entry.1 ≠ ascii "Set-Cookie"

theorem redirect_sets_none (location : String) : SetsNoCookie (.ok (redirect location)) := by
  rintro response same
  cases same
  exact ⟨_, rfl, by simp [responseNewRedirect, responseAddHeader, responseSetStatus, responseNew, ascii]⟩

theorem render_sets_none (env : Env) (status : Status) (template : Template) :
    SetsNoCookie (renderResponse env status template) := by
  intro response run
  obtain ⟨page, _, same⟩ := render_response_page env status template response run
  exact ⟨_, same, by simp⟩

theorem fault_sets_none (fault : Fault) : SetsNoCookie (.error fault) := by
  rintro response same
  cases same

theorem logged_in_sets (now : Int) (sid : List UInt8) : ¬ SetsNoCookie (.ok (some (loggedIn now sid))) := by
  intro none
  obtain ⟨r, same, clean⟩ := none _ rfl
  cases same
  exact clean _ List.mem_cons_self rfl

theorem login_failed_sets_none (env : Env) (template : Template) : SetsNoCookie (loginFailed env template) := by
  intro response run
  obtain ⟨set, _, rendered⟩ := (except_bind_ok _ _ _).mp run
  exact render_sets_none env .OK set response rendered

theorem session_create_finds (env : Env) (db : Database) (now : Int) (counter : Nat) (username password : List UInt8)
    (row : AccountRow) (found : (db.accounts.find? fun row => row.username = base64Encode username ∧
      row.password = env.sha256 password) = some row) :
    ∃ session, sessionCreate env.sha256 db now env.address counter username password =
        ({ db with sessions := db.sessions ++
          [sessionRow db now row.id (genRandomDummyString env.address counter 64)] }, counter + 64, some session) ∧
      session.sessionId = genRandomDummyString env.address counter 64 ∧
      ((∀ old ∈ db.sessions, old.session ≠ genRandomDummyString env.address counter 64) → session.accountId = row.id) := by
  let sid := genRandomDummyString env.address counter 64
  have some_row : ((db.sessions ++ [sessionRow db now row.id sid]).find? fun row => row.session = sid).isSome := by
    rw [List.find?_isSome]
    exact ⟨_, List.mem_append_right _ (List.mem_singleton_self _), by simp [sessionRow]⟩
  obtain ⟨stored, same⟩ := Option.isSome_iff_exists.mp some_row
  refine ⟨⟨stored.id, stored.createdAt, stored.account, stored.session⟩, ?_, by simpa using List.find?_some same,
    fun fresh => ?_⟩
  · simp only [sessionCreate, found, sessionGetBySId]
    rw [same]
    rfl
  · have missing : (db.sessions.find? fun row => row.session = sid) = none :=
      List.find?_eq_none.mpr fun old member again => fresh old member (of_decide_eq_true again)
    have own : [sessionRow db now row.id sid].find? (fun row => row.session = sid) = some (sessionRow db now row.id sid) :=
      List.find?_cons_of_pos (decide_eq_true rfl)
    rw [List.find?_append, missing, Option.none_or, own] at same
    cases same
    rfl

-- A login either opens a session and hands out its id, or changes nothing.
theorem login_steps (env : Env) (world : World) (arrival : Arrival) :
    (∃ answer, login env world arrival.now arrival.req = (world, answer) ∧ SetsNoCookie answer) ∨
    ∃ row, getAccount world.db arrival.req.cookies = .ok none ∧ loginAccount env world.db arrival.req = some row ∧
      login env world arrival.now arrival.req = (⟨{ world.db with
        sessions := world.db.sessions ++ [sessionRow world.db arrival.now row.id (newSid env world)] }, world.counter + 64⟩,
        .ok (some (loggedIn arrival.now (newSid env world)))) := by
  rw [login]
  cases client : getAccount world.db arrival.req.cookies with
  | error fault => exact .inl ⟨_, rfl, fault_sets_none fault⟩
  | ok myAcc =>
      cases myAcc with
      | some me => exact .inl ⟨_, rfl, redirect_sets_none "/dashboard/"⟩
      | none =>
          simp only [attempt]
          split
          · cases set : templateSetAll (templateNew (ascii "templates/login.html"))
              (loginSets (formField arrival.req "username") (formField arrival.req "password")) with
            | error fault => exact .inl ⟨_, rfl, fault_sets_none fault⟩
            | ok template =>
                simp only [authenticate]
                split
                · cases found : loginAccount env world.db arrival.req with
                  | none =>
                      have failed : sessionCreate env.sha256 world.db arrival.now env.address world.counter
                          (formField arrival.req "username").data (formField arrival.req "password").data =
                          (world.db, world.counter, none) := by
                        rw [loginAccount] at found
                        simp only [sessionCreate, found]
                      rw [failed]
                      exact .inl ⟨_, rfl, login_failed_sets_none env template⟩
                  | some row =>
                      obtain ⟨session, created, sid, _⟩ := session_create_finds env world.db arrival.now world.counter _ _ row found
                      rw [created]
                      simp only [sid]
                      exact .inr ⟨row, trivial, rfl, rfl⟩
                · exact .inl ⟨_, rfl, login_failed_sets_none env template⟩
          · refine .inl ⟨_, rfl, ?_⟩
            intro response run
            obtain ⟨template, _, rendered⟩ := (except_bind_ok _ _ _).mp run
            exact render_sets_none env .OK template response rendered

theorem handle_wrote (env : Env) (world : World) (arrival : Arrival) :
    Wrote env world arrival (handleNext env world arrival) := by
  rw [handleNext, handle_world]
  cases route : arrival.route with
  | connect =>
      rw [callHandler, route]
      exact connect_wrote env world arrival route
  | like =>
      rw [callHandler, route]
      exact liking_wrote env world arrival _ fun me post client found => .like me post route client found
  | unlike =>
      rw [callHandler, route]
      exact liking_wrote env world arrival _ fun me post client found => .unlike me post route client found
  | post =>
      rw [callHandler, route]
      exact post_wrote env world arrival route
  | signup =>
      rw [callHandler, route]
      exact signup_wrote env world arrival route
  | login =>
      have called : callHandler env world arrival = login env world arrival.now arrival.req := by rw [callHandler, route]
      rcases login_steps env world arrival with ⟨answer, same, _⟩ | ⟨row, stranger, found, same⟩
      · rw [called, same]
        exact .nothing
      · rw [called, same]
        exact .session row route stranger found (by rw [called, same])
  | dashboard => rw [callHandler, route]; exact .nothing
  | home => rw [callHandler, route]; exact .nothing
  | logout => rw [callHandler, route]; exact .nothing
  | profile => rw [callHandler, route]; exact .nothing
  | search => rw [callHandler, route]; exact .nothing
  | notFound => rw [callHandler, route]; exact .nothing

-- A server without template files that stores passwords as they are.
def plainEnv : Env := ⟨id, 4198400, fun _ => none, 3⟩

def formArrival (route : Route) (cookies : Option (List Cookie)) (fields : List (String × String)) : Arrival :=
  ⟨1700000000, route, ⟨.POST, ascii "/", ascii "/", none, some (fields.map fun field => (ascii field.1, ascii field.2)),
    cookies, []⟩⟩

def aliceSignup : Arrival := formArrival .signup none [("name", "Alice"), ("email", "al@x.org"), ("username", "alice"),
  ("password", "12345678"), ("confirm-password", "12345678")]

def aliceSid : List UInt8 := newSid plainEnv ⟨Database.empty, 0⟩

def aliceCookies : List Cookie := [⟨ascii "sid", aliceSid⟩]

def aliceLogin : Arrival := formArrival .login none [("username", "alice"), ("password", "12345678")]

end Facebooc
