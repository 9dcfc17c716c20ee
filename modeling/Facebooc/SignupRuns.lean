import Facebooc.ServerSteps

set_option autoImplicit false

namespace Facebooc

open CMemory Runs

-- The five checks of a signup, as what they ask of the form and the tables.
def NameOk (form : SignupForm) : Prop := 5 ≤ form.name.size ∧ form.name.size ≤ 50

def EmailOk (db : Database) (form : SignupForm) : Prop :=
  chr '@' ∈ form.email.data ∧ (3 ≤ form.email.size ∧ form.email.size ≤ 50) ∧ accountCheckEmail db form.email = true

def UsernameOk (db : Database) (form : SignupForm) : Prop :=
  (3 ≤ form.username.size ∧ form.username.size ≤ 50) ∧ accountCheckUsername db form.username = true

def PasswordOk (form : SignupForm) : Prop := 8 ≤ form.password.size

def ConfirmOk (form : SignupForm) : Prop := form.confirmPassword.data = form.password.data

def AllOk (db : Database) (form : SignupForm) : Prop :=
  NameOk form ∧ EmailOk db form ∧ UsernameOk db form ∧ PasswordOk form ∧ ConfirmOk form

-- The handler wants a confirmation even where both passwords are empty.
def NoneOk (db : Database) (form : SignupForm) : Prop :=
  ¬ NameOk form ∧ ¬ EmailOk db form ∧ ¬ UsernameOk db form ∧ ¬ PasswordOk form ∧
    (form.confirmPassword.data = [] ∨ ¬ ConfirmOk form)

def AllOrNone (world : World) (arrival : Arrival) : Prop :=
  AllOk world.db (signupForm arrival.req) ∨ NoneOk world.db (signupForm arrival.req)

-- The account row is inserted, and the client redirected, for a form that
-- passes all checks and for no other.
def SignupExact (env : Env) (world : World) (arrival : Arrival) : Prop :=
  ((∃ row, (handle env world arrival).1.db.accounts = world.db.accounts ++ [row]) ↔
      AllOk world.db (signupForm arrival.req)) ∧
    ((handle env world arrival).2 = .ok (redirect "/login/") ↔ AllOk world.db (signupForm arrival.req))

structure Person where
  name : List UInt8
  email : List UInt8
  username : List UInt8

def Person.stored (person : Person) : List UInt8 × List UInt8 × List UInt8 :=
  (base64Encode person.name, base64Encode person.email, base64Encode person.username)

-- The stored accounts are those of people within the limits, no two of whom
-- share a username or an email.
def AccountsDistinct (db : Database) : Prop :=
  ∃ people : List Person, (db.accounts.map fun row => (row.name, row.email, row.username)) = people.map Person.stored ∧
    (people.map Person.username).Nodup ∧ (people.map Person.email).Nodup ∧
    ∀ person ∈ people, (5 ≤ person.name.length ∧ person.name.length ≤ 50) ∧
      (3 ≤ person.username.length ∧ person.username.length ≤ 50)

theorem basic_string_init_size (src : Option (List UInt8)) :
    (basicStringInit src).size = (basicStringInit src).data.length := by
  cases src with
  | none => rfl
  | some text => rfl

theorem unless_invalid_passed (wrong : Prop) [Decidable wrong] (key message : String) (check : Check) :
    (if wrong then invalid key message else check).passed = true ↔ ¬ wrong ∧ check.passed = true := by
  by_cases bad : wrong
  · simp [bad, invalid]
  · simp [bad]

theorem name_check_passed (form : SignupForm) : (nameCheck form.name).passed = true ↔ NameOk form := by
  simp only [nameCheck, unless_invalid_passed, NameOk, and_true]
  omega

theorem email_check_passed (db : Database) (form : SignupForm) :
    (emailCheck db form.email).passed = true ↔ EmailOk db form := by
  simp only [emailCheck, unless_invalid_passed, EmailOk, and_true, Bool.not_eq_false, Decidable.not_not]
  constructor
  · rintro ⟨_, at_sign, sizes, free⟩
    exact ⟨at_sign, by omega, free⟩
  · rintro ⟨at_sign, sizes, free⟩
    exact ⟨by omega, at_sign, by omega, free⟩

theorem username_check_passed (db : Database) (form : SignupForm) :
    (usernameCheck db form.username).passed = true ↔ UsernameOk db form := by
  simp only [usernameCheck, unless_invalid_passed, UsernameOk, and_true, Bool.not_eq_false]
  constructor
  · rintro ⟨_, sizes, free⟩
    exact ⟨by omega, free⟩
  · rintro ⟨sizes, free⟩
    exact ⟨by omega, by omega, free⟩

theorem password_check_passed (form : SignupForm) : (passwordCheck form.password).passed = true ↔ PasswordOk form := by
  simp only [passwordCheck, unless_invalid_passed, PasswordOk, and_true]
  omega

theorem confirm_check_passed (form : SignupForm)
    (sized : form.confirmPassword.size = form.confirmPassword.data.length) :
    (confirmCheck form.password form.confirmPassword).passed = true ↔
      form.confirmPassword.data ≠ [] ∧ ConfirmOk form := by
  simp only [confirmCheck, unless_invalid_passed, ConfirmOk, sized, List.length_eq_zero_iff, and_true, ne_eq,
    Decidable.not_not]
  rw [eq_comm (a := form.password.data)]

-- The flag is set by whichever check passes.
theorem signup_valid_iff (db : Database) (req : Request) :
    signupValid db (signupForm req) = false ↔ NoneOk db (signupForm req) := by
  have confirm := confirm_check_passed (signupForm req) (basic_string_init_size _)
  simp only [signupValid, signupChecks, List.any_eq_false, List.forall_mem_cons, name_check_passed,
    email_check_passed, username_check_passed, password_check_passed, confirm, NoneOk]
  simp [or_iff_not_imp_left]

theorem unless_invalid_sets (wrong : Prop) [Decidable wrong] (key message : String) (check : Check)
    (short : check.sets.length ≤ 1) : (if wrong then invalid key message else check).sets.length ≤ 1 := by
  split
  · exact Nat.le_refl 1
  · exact short

theorem check_sets_one (db : Database) (form : SignupForm) : ∀ check ∈ signupChecks db form, check.sets.length ≤ 1 := by
  simp only [signupChecks, List.forall_mem_cons, nameCheck, emailCheck, usernameCheck, passwordCheck, confirmCheck]
  refine ⟨?_, ?_, ?_, ?_, ?_, fun check none => by cases none⟩
  all_goals
    repeat apply unless_invalid_sets
    simp

theorem signup_template_ok (db : Database) (req : Request) : ∃ template, signupTemplate db req = .ok template := by
  have few : ((signupChecks db (signupForm req)).flatMap Check.sets).length ≤ 5 := by
    have short := check_sets_one db (signupForm req)
    simp only [signupChecks, List.forall_mem_cons] at short
    simp only [signupChecks, List.flatMap_cons, List.flatMap_nil, List.length_append, List.length_nil]
    omega
  obtain ⟨template, set, _⟩ := template_new_filled ([("active", literal "signup"), ("subtitle", literal "Sign Up")] ++
    if req.method = .POST then (signupChecks db (signupForm req)).flatMap Check.sets else []) (ascii "templates/signup.html")
    (by split <;> simp only [List.length_append, List.length_cons, List.length_nil] <;> omega)
  exact ⟨template, set⟩

theorem signup_rejected (env : Env) (world : World) (arrival : Arrival) (signup : SignupRequest world arrival)
    (rejected : signupValid world.db (signupForm arrival.req) = false) :
    ∃ answer, handle env world arrival = (world, answer) ∧ answer ≠ .ok (redirect "/login/") := by
  obtain ⟨route, method, stranger⟩ := signup
  obtain ⟨template, set⟩ := signup_template_ok world.db arrival.req
  have called : callHandler env world arrival = (world, renderResponse env .OK template) := by
    simp only [callHandler, route, Facebooc.signup, stranger, attempt, set, rejected]
    simp
  cases rendered : renderResponse env .OK template with
  | error fault =>
      rw [rendered] at called
      exact ⟨_, handle_fault env world world arrival fault called, by simp⟩
  | ok response =>
      obtain ⟨page, _, same⟩ := render_response_page env .OK template response rendered
      rw [rendered, same] at called
      refine ⟨_, handle_some env world world arrival _ called, ?_⟩
      simp [redirect, responseNewRedirect, responseAddHeader]

theorem signup_registers (env : Env) (world : World) (arrival : Arrival) (signup : SignupRequest world arrival)
    (valid : signupValid world.db (signupForm arrival.req) = true) :
    handle env world arrival = register env world arrival.now (signupForm arrival.req) := by
  obtain ⟨route, method, stranger⟩ := signup
  obtain ⟨template, set⟩ := signup_template_ok world.db arrival.req
  have called : callHandler env world arrival = register env world arrival.now (signupForm arrival.req) := by
    simp only [callHandler, route, Facebooc.signup, stranger, attempt, set, method, valid, and_self, if_true]
  rw [handle, called, register]
  generalize (accountCreate env.sha256 world.db arrival.now (signupForm arrival.req).name (signupForm arrival.req).email
    (signupForm arrival.req).username (signupForm arrival.req).password) = created
  obtain ⟨db, read⟩ := created
  cases read with
  | error fault => rfl
  | ok account => rfl

theorem register_reads (env : Env) (world : World) (now : Int) (form : SignupForm)
    (free : accountCheckEmail world.db form.email = true) (name : form.name.data ≠ []) (email : form.email.data ≠ [])
    (username : form.username.data ≠ []) : (register env world now form).2 = .ok (redirect "/login/") := by
  have unused : (world.db.accounts.any fun row => row.email = base64Encode form.email.data) = false := by
    simpa only [accountCheckEmail, Bool.not_eq_true'] using free
  have found : (world.db.accounts ++ [formRow env world.db now form]).find?
      (fun row => row.email = base64Encode form.email.data) = some (formRow env world.db now form) := by
    rw [List.find?_append, List.find?_eq_none.mpr fun row member =>
      List.any_eq_false.mp unused row member, Option.none_or]
    simp [formRow, accountRow]
  simp only [register, accountCreate, unused, Bool.false_eq_true, if_false, accountGetByEmail, accountSelect]
  rw [show accountRow env.sha256 world.db now form.name form.email form.username form.password =
    formRow env world.db now form from rfl, found]
  simp only [accountOfRow, newAccountFromDb, formRow, accountRow, base64_round_trip _ name, base64_round_trip _ email,
    base64_round_trip _ username, bind, Except.bind, attempt]

theorem all_ok_valid (db : Database) (form : SignupForm) (all : AllOk db form) : signupValid db form = true := by
  have passed := (name_check_passed form).mpr all.1
  simp [signupValid, signupChecks, passed]

theorem all_ok_texts (db : Database) (req : Request) (all : AllOk db (signupForm req)) :
    ((5 ≤ (signupForm req).name.data.length ∧ (signupForm req).name.data.length ≤ 50) ∧
      (3 ≤ (signupForm req).username.data.length ∧ (signupForm req).username.data.length ≤ 50)) ∧
    (signupForm req).name.data ≠ [] ∧ (signupForm req).email.data ≠ [] ∧ (signupForm req).username.data ≠ [] := by
  obtain ⟨name, email, username, _⟩ := all
  have nameSize : (signupForm req).name.size = (signupForm req).name.data.length := basic_string_init_size _
  have usernameSize : (signupForm req).username.size = (signupForm req).username.data.length := basic_string_init_size _
  rw [NameOk, nameSize] at name
  rw [UsernameOk, usernameSize] at username
  refine ⟨⟨name, username.1⟩, ?_, List.ne_nil_of_mem email.1, ?_⟩
  · exact List.ne_nil_of_length_pos (by omega)
  · exact List.ne_nil_of_length_pos (by omega)

theorem appended_row (rows : List AccountRow) : ¬ ∃ row, rows = rows ++ [row] := by
  rintro ⟨row, same⟩
  have length := congrArg List.length same
  rw [List.length_append, List.length_singleton] at length
  omega

-- One request: a form that passes some of its checks but not all is treated as
-- if it had passed all of them.
theorem signup_exact_iff (env : Env) (world : World) (arrival : Arrival) (signup : SignupRequest world arrival) :
    SignupExact env world arrival ↔ AllOrNone world arrival := by
  by_cases all : AllOk world.db (signupForm arrival.req)
  · refine iff_of_true ?_ (.inl all)
    obtain ⟨_, name, email, username⟩ := all_ok_texts world.db arrival.req all
    have registered := signup_registers env world arrival signup (all_ok_valid world.db _ all)
    have free := all.2.1.2.2
    refine ⟨iff_of_true ?_ all, iff_of_true ?_ all⟩
    · rw [registered, register_free env world arrival.now _ free]
      exact ⟨_, rfl⟩
    · rw [registered]
      exact register_reads env world arrival.now _ free name email username
  · have noRow := appended_row world.db.accounts
    cases valid : signupValid world.db (signupForm arrival.req) with
    | false =>
        refine iff_of_true ?_ (.inr ((signup_valid_iff world.db arrival.req).mp valid))
        obtain ⟨answer, handled, other⟩ := signup_rejected env world arrival signup valid
        rw [SignupExact, handled]
        exact ⟨iff_of_false noRow all, iff_of_false other all⟩
    | true =>
        -- Some checks fail but the flag is set: the client is redirected, and with a
        -- free email the row is inserted.
        have some_ok : ¬ NoneOk world.db (signupForm arrival.req) := by
          rw [← signup_valid_iff, valid]
          exact Bool.noConfusion
        refine iff_of_false ?_ (by rintro (every | none) <;> contradiction)
        rintro ⟨inserted, redirected⟩
        have registered := signup_registers env world arrival signup valid
        rw [registered] at inserted redirected
        cases free : accountCheckEmail world.db (signupForm arrival.req).email with
        | false => exact all (redirected.mp (by rw [register_taken env world arrival.now _ free]))
        | true => exact all (inserted.mp ⟨_, by rw [register_free env world arrival.now _ free]⟩)

theorem accounts_distinct_step (env : Env) (world : World) (arrival : Arrival) (signup : SignupRequest world arrival)
    (condition : AllOrNone world arrival) (distinct : AccountsDistinct world.db) :
    AccountsDistinct (handleNext env world arrival).db := by
  rw [handleNext]
  rcases condition with all | none
  · have texts := all_ok_texts world.db arrival.req all
    obtain ⟨people, stored, usernames, emails, limits⟩ := distinct
    have registered := signup_registers env world arrival signup (all_ok_valid world.db _ all)
    obtain ⟨_, ⟨_, _, emailFree⟩, ⟨_, usernameFree⟩, _⟩ := all
    rw [registered, register_free env world arrival.now _ emailFree]
    let form := signupForm arrival.req
    have row : ∀ person ∈ people, ∃ row ∈ world.db.accounts, row.email = base64Encode person.email ∧
        row.username = base64Encode person.username := by
      intro person member
      have inRows : person.stored ∈ world.db.accounts.map fun row => (row.name, row.email, row.username) := by
        rw [stored]
        exact List.mem_map_of_mem member
      obtain ⟨row, rowMember, same⟩ := List.mem_map.mp inRows
      exact ⟨row, rowMember, congrArg (fun t => t.2.1) same, congrArg (fun t => t.2.2) same⟩
    refine ⟨people ++ [⟨form.name.data, form.email.data, form.username.data⟩], ?_, ?_, ?_, ?_⟩
    · rw [List.map_append, List.map_append, stored]
      rfl
    · refine (nodup_map_snoc ..).mpr ⟨fun used => ?_, usernames⟩
      obtain ⟨person, member, taken⟩ := List.mem_map.mp used
      obtain ⟨row, rowMember, _, name⟩ := row person member
      simp only [accountCheckUsername, Bool.not_eq_true', List.any_eq_false, decide_eq_true_eq] at usernameFree
      exact usernameFree row rowMember (by rw [name, taken])
    · refine (nodup_map_snoc ..).mpr ⟨fun used => ?_, emails⟩
      obtain ⟨person, member, taken⟩ := List.mem_map.mp used
      obtain ⟨row, rowMember, email, _⟩ := row person member
      simp only [accountCheckEmail, Bool.not_eq_true', List.any_eq_false, decide_eq_true_eq] at emailFree
      exact emailFree row rowMember (by rw [email, taken])
    · exact (forall_mem_snoc ..).mpr ⟨limits, texts.1⟩
  · have rejected := (signup_valid_iff world.db arrival.req).mpr none
    obtain ⟨answer, handled, _⟩ := signup_rejected env world arrival signup rejected
    rw [handled]
    exact distinct

-- Every run of signups: the requests are treated as they should be exactly when
-- none of them passes some of the checks only, and then the table is well formed.
theorem signup_runs (env : Env) (world : World) (arrivals : List Arrival) (empty : world.db.accounts = [])
    (signups : Along (handleNext env) SignupRequest world arrivals) :
    (Along (handleNext env) (SignupExact env) world arrivals ↔ Along (handleNext env) AllOrNone world arrivals) ∧
      (Along (handleNext env) AllOrNone world arrivals →
        AccountsDistinct (run (handleNext env) world arrivals).db) := by
  refine ⟨along_congr (handleNext env) SignupRequest _ _ (signup_exact_iff env) world arrivals signups, ?_⟩
  intro conditions
  have start : AccountsDistinct world.db := ⟨[], by rw [empty]; rfl, List.nodup_nil, List.nodup_nil, by simp⟩
  refine history_invariant (handleNext env) (fun world arrival => SignupRequest world arrival ∧ AllOrNone world arrival)
    (fun _ world => AccountsDistinct world.db) world start ?_ arrivals ?_
  · intro past world arrival distinct met
    exact accounts_distinct_step env world arrival met.1 met.2 distinct
  · exact (along_and (handleNext env) _ _ world arrivals).mpr ⟨signups, conditions⟩

def bobbySignup : Arrival := formArrival .signup none [("name", "Bobby"), ("email", "bo@x.org"), ("username", "bobby"),
  ("password", "87654321"), ("confirm-password", "87654321")]

theorem signup_runs_alice : let world : World := ⟨Database.empty, 0⟩
    Along (handleNext plainEnv) (SignupExact plainEnv) world [aliceSignup, bobbySignup] ∧
      AccountsDistinct (run (handleNext plainEnv) world [aliceSignup, bobbySignup]).db := by
  intro world
  have first : AllOk world.db (signupForm aliceSignup.req) := by
    rw [AllOk, NameOk, EmailOk, UsernameOk, PasswordOk, ConfirmOk]
    decide +kernel
  have second : AllOk (handleNext plainEnv world aliceSignup).db (signupForm bobbySignup.req) := by
    rw [AllOk, NameOk, EmailOk, UsernameOk, PasswordOk, ConfirmOk]
    decide +kernel
  obtain ⟨exact, distinct⟩ := signup_runs plainEnv world [aliceSignup, bobbySignup] rfl
    ⟨⟨rfl, rfl, rfl⟩, ⟨rfl, rfl, rfl⟩, trivial⟩
  exact ⟨exact.mpr ⟨.inl first, .inl second, trivial⟩, distinct ⟨.inl first, .inl second, trivial⟩⟩

-- The username is too short and taken, the password too short and not repeated.
def carelessSignup (email : String) : Arrival := formArrival .signup none [("name", "Alice"), ("email", email),
  ("username", "al"), ("password", "1"), ("confirm-password", "2")]

theorem signup_careless : let world : World := ⟨Database.empty, 0⟩
    Along (handleNext plainEnv) SignupRequest world [carelessSignup "al@x.org", carelessSignup "bo@x.org"] ∧
    ((∃ row, (handle plainEnv world (carelessSignup "al@x.org")).1.db.accounts = [row]) ∧
      (handle plainEnv world (carelessSignup "al@x.org")).2 = .ok (redirect "/login/")) ∧
    ¬ AllOk Database.empty (signupForm (carelessSignup "al@x.org").req) ∧
    ((run (handleNext plainEnv) world [carelessSignup "al@x.org", carelessSignup "bo@x.org"]).db.accounts.map
      AccountRow.username) = [base64Encode (ascii "al"), base64Encode (ascii "al")] := by
  refine ⟨⟨⟨rfl, rfl, rfl⟩, ⟨rfl, rfl, rfl⟩, trivial⟩, ⟨⟨⟨1, 1700000000, base64Encode (ascii "Alice"),
    base64Encode (ascii "al"), base64Encode (ascii "al@x.org"), ascii "1"⟩, ?_⟩, ?_⟩, ?_, ?_⟩
  · decide +kernel
  · decide +kernel
  · rintro ⟨_, _, _, password, _⟩
    exact absurd password (by change ¬ 8 ≤ 1; decide)
  · decide +kernel

end Facebooc
