import Facebooc.NetworkReads
import Facebooc.Noninterference

set_option autoImplicit false

namespace Facebooc

open CMemory Runs Ranking LeftJoin

-- What of the tables a visitor without an account's session can be told about.
def outer (world : World) : World := { world with db := { world.db with connections := [], posts := [], likes := [] } }

def byMember (world : World) (arrival : Arrival) : Bool :=
  match getAccount world.db arrival.req.cookies with
  | .ok (some _) => true
  | _ => false

theorem by_member_iff (world : World) (arrival : Arrival) :
    byMember world arrival = true ↔ ∃ me, getAccount world.db arrival.req.cookies = .ok (some me) := by
  rw [byMember]
  cases getAccount world.db arrival.req.cookies with
  | error fault => simp
  | ok client => cases client <;> simp

theorem fault_called (env : Env) (world : World) (arrival : Arrival) (fault : Fault)
    (client : getAccount world.db arrival.req.cookies = .error fault) :
    callHandler env world arrival = (world, .error fault) := by
  cases route : arrival.route <;>
    simp [callHandler, route, connect, like, unlike, liking, post, login, signup, home, notFound, dashboard, profile, search,
      logout, client, attempt, bind, Except.bind]

theorem outer_client (world : World) (cookies : Option (List Cookie)) :
    getAccount (outer world).db cookies = getAccount world.db cookies := rfl

theorem attempt_outer {α β : Type} (world : World) (x : Except Fault α) (next outside : α → World × Except Fault β)
    (kept : ∀ a, outside a = (outer (next a).1, (next a).2)) :
    attempt (outer world) x outside = (outer (attempt world x next).1, (attempt world x next).2) := by
  cases x with
  | error fault => rfl
  | ok a => exact kept a

theorem register_outer (env : Env) (world : World) (now : Int) (form : SignupForm) :
    register env (outer world) now form = (outer (register env world now form).1, (register env world now form).2) := by
  cases free : accountCheckEmail world.db form.email with
  | false =>
      have taken : accountCheckEmail (outer world).db form.email = false := free
      rw [register_taken env world now form free, register_taken env _ now form taken]
  | true =>
      simp only [accountCheckEmail, Bool.not_eq_true'] at free
      have same : (outer world).db.accounts.any (fun row => row.email = base64Encode form.email.data) = false := free
      simp only [register, accountCreate, free, same, Bool.false_eq_true, if_false]
      let stored : World :=
        { world with db := { world.db with accounts := world.db.accounts ++ [formRow env world.db now form] } }
      exact attempt_outer stored (accountGetByEmail stored.db form.email) (fun _ => (stored, .ok (redirect "/login/"))) _
        fun _ => rfl

theorem signup_outer (env : Env) (world : World) (now : Int) (req : Request)
    (client : getAccount world.db req.cookies = .ok none) :
    signup env (outer world) now req = (outer (signup env world now req).1, (signup env world now req).2) := by
  have form : signupTemplate (outer world).db req = signupTemplate world.db req := rfl
  have valid : signupValid (outer world).db (signupForm req) = signupValid world.db (signupForm req) := rfl
  rw [signup, signup, outer_client, client, form, valid]
  cases signupTemplate world.db req with
  | error fault => rfl
  | ok template =>
      simp only [attempt]
      split
      · exact register_outer env world now (signupForm req)
      · rfl

theorem session_create_outer (env : Env) (world : World) (now : Int) (username password : List UInt8) :
    let made := sessionCreate env.sha256 world.db now env.address world.counter username password
    sessionCreate env.sha256 (outer world).db now env.address world.counter username password =
      ((outer ⟨made.1, made.2.1⟩).db, made.2.1, made.2.2) := by
  have accounts : (outer world).db.accounts = world.db.accounts := rfl
  rw [sessionCreate, sessionCreate, accounts]
  cases world.db.accounts.find? fun row => row.username = base64Encode username ∧ row.password = env.sha256 password with
  | none => rfl
  | some row => rfl

theorem authenticate_outer (env : Env) (world : World) (now : Int) (username password : BasicString) (template : Template) :
    authenticate env (outer world) now username password template =
      (outer (authenticate env world now username password template).1,
        (authenticate env world now username password template).2) := by
  have known : accountAuth env.sha256 (outer world).db username password = accountAuth env.sha256 world.db username password := rfl
  have made := session_create_outer env world now username.data password.data
  have counter : (outer world).counter = world.counter := rfl
  rw [authenticate, authenticate, known, counter, made]
  split
  · rcases sessionCreate env.sha256 world.db now env.address world.counter username.data password.data with ⟨db, next, session⟩
    cases session with
    | none => rfl
    | some session => rfl
  · rfl

theorem login_outer (env : Env) (world : World) (now : Int) (req : Request)
    (client : getAccount world.db req.cookies = .ok none) :
    login env (outer world) now req = (outer (login env world now req).1, (login env world now req).2) := by
  rw [login, login, outer_client, client]
  simp only [attempt]
  split
  · exact attempt_outer world _ _ _ fun template => authenticate_outer env world now _ _ template
  · rfl

theorem stranger_called (env : Env) (world : World) (arrival : Arrival)
    (client : getAccount world.db arrival.req.cookies = .ok none) :
    callHandler env (outer world) arrival = (outer (callHandler env world arrival).1, (callHandler env world arrival).2) := by
  have same : getAccount (outer world).db arrival.req.cookies = .ok none := client
  cases route : arrival.route with
  | signup => simp only [callHandler, route, signup_outer env world arrival.now arrival.req client]
  | login => simp only [callHandler, route, login_outer env world arrival.now arrival.req client]
  | _ =>
    simp [callHandler, route, connect, like, unlike, liking, post, home, notFound, dashboard, profile, search, logout,
      client, same, attempt, bind, Except.bind]

theorem stranger_handled (env : Env) (world : World) (arrival : Arrival) (stranger : byMember world arrival = false) :
    handle env (outer world) arrival = (outer (handle env world arrival).1, (handle env world arrival).2) := by
  have called : callHandler env (outer world) arrival =
      (outer (callHandler env world arrival).1, (callHandler env world arrival).2) := by
    cases client : getAccount world.db arrival.req.cookies with
    | error fault => rw [fault_called env world arrival fault client, fault_called env (outer world) arrival fault client]
    | ok account =>
        cases account with
        | none => exact stranger_called env world arrival client
        | some me =>
            have member := (by_member_iff world arrival).mpr ⟨me, client⟩
            cases stranger.symm.trans member
  rw [handle, handle, called]
  apply attempt_outer
  intro response
  cases response with
  | none => rfl
  | some response => rfl

theorem member_quiet (env : Env) (world : World) (arrival : Arrival) (member : byMember world arrival = true) :
    outer (handleNext env world arrival) = outer world := by
  obtain ⟨me, client⟩ := (by_member_iff world arrival).mp member
  have wrote := handle_wrote env world arrival
  generalize handleNext env world arrival = after at wrote ⊢
  cases wrote with
  | nothing => rfl
  | account route method stranger valid free => cases stranger.symm.trans client
  | session row route stranger found answer => cases stranger.symm.trans client
  | connection me other route client found => rfl
  | post me route client size => rfl
  | like me post route client found => rfl
  | unlike me post route client found => rfl

theorem members_hidden (env : Env) : Hides (handle env) byMember fun u v => outer u = outer v where
  quiet := fun u v arrival same member => (member_quiet env u arrival member).trans same
  told := by
    intro u v arrival same stranger
    have other : byMember v arrival = false := by
      have here : byMember (outer u) arrival = false := stranger
      rw [same] at here
      exact here
    have handled := stranger_handled env u arrival stranger
    rw [same, stranger_handled env v arrival other] at handled
    obtain ⟨next, answer⟩ := Prod.mk.inj handled
    exact ⟨next.symm, answer.symm⟩

-- What members do, and all that they have done, does not show to strangers.
theorem strangers_undisturbed (env : Env) (world : World) (arrivals : List Arrival) :
    let asked := purged (handle env) byMember world arrivals
    seen (handle env) byMember world arrivals = answers (handle env) (outer world) asked ∧
      outer (run (handleNext env) world arrivals) = outer (run (handleNext env) (outer world) asked) :=
  hides_run (handle env) byMember _ (members_hidden env) arrivals world (outer world) rfl

end Facebooc
