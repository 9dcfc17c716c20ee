import Facebooc.Handlers

set_option autoImplicit false

namespace Facebooc

open CMemory

-- src/handler/signup.c
structure SignupForm where
  name : BasicString
  email : BasicString
  username : BasicString
  password : BasicString
  confirmPassword : BasicString
deriving DecidableEq, Repr

def formField (req : Request) (key : String) : BasicString := basicStringInit (bodyGet req.postBody (ascii key))

def signupForm (req : Request) : SignupForm :=
  ⟨formField req "name", formField req "email", formField req "username", formField req "password",
    formField req "confirm-password"⟩

-- One check of the form: what it sets in the template, and whether it sets the
-- flag valid. A check that fails leaves the flag as it is.
structure Check where
  sets : List (String × Page)
  passed : Bool
deriving DecidableEq, Repr

def invalid (key message : String) : Check := ⟨[(key, literal message)], false⟩

def nameCheck (name : BasicString) : Check :=
  if name.size = 0 then invalid "nameError" "You must enter your name!"
  else if name.size < 5 ∨ name.size > 50 then
    invalid "nameError" "Your name must be between 5 and 50 characters long."
  else ⟨[("formName", [.user .name name.data])], true⟩

def emailCheck (db : Database) (email : BasicString) : Check :=
  if email.size = 0 then invalid "emailError" "You must enter an email!"
  else if chr '@' ∉ email.data then invalid "emailError" "Invalid email."
  else if email.size < 3 ∨ email.size > 50 then
    invalid "emailError" "Your email must be between 3 and 50 characters long."
  else if accountCheckEmail db email = false then invalid "emailError" "This email is taken."
  else ⟨[("formEmail", [.user .email email.data])], true⟩

def usernameCheck (db : Database) (username : BasicString) : Check :=
  if username.size = 0 then invalid "usernameError" "You must enter a username!"
  else if username.size < 3 ∨ username.size > 50 then
    invalid "usernameError" "Your username must be between 3 and 50 characters long."
  else if accountCheckUsername db username = false then invalid "usernameError" "This username is taken."
  else ⟨[("formUsername", [.user .username username.data])], true⟩

def passwordCheck (password : BasicString) : Check :=
  if password.size = 0 then invalid "passwordError" "You must enter a password!"
  else if password.size < 8 then invalid "passwordError" "Your password must be at least 8 characters long!"
  else ⟨[], true⟩

def confirmCheck (password confirmPassword : BasicString) : Check :=
  if confirmPassword.size = 0 then invalid "confirmPasswordError" "You must confirm your password."
  else if password.data ≠ confirmPassword.data then
    invalid "confirmPasswordError" "The two passwords must be the same."
  else ⟨[], true⟩

def signupChecks (db : Database) (form : SignupForm) : List Check :=
  [nameCheck form.name, emailCheck db form.email, usernameCheck db form.username, passwordCheck form.password,
    confirmCheck form.password form.confirmPassword]

def signupValid (db : Database) (form : SignupForm) : Bool := (signupChecks db form).any Check.passed

def signupTemplate (db : Database) (req : Request) : Except Fault Template :=
  templateSetAll (templateNew (ascii "templates/signup.html"))
    ([("active", literal "signup"), ("subtitle", literal "Sign Up")] ++
      if req.method = .POST then (signupChecks db (signupForm req)).flatMap Check.sets else [])

def register (env : Env) (world : World) (now : Int) (form : SignupForm) : World × Except Fault (Option Response) :=
  let created := accountCreate env.sha256 world.db now form.name form.email form.username form.password
  let world := { world with db := created.1 }
  attempt world created.2 fun _ => (world, .ok (redirect "/login/"))

def signup (env : Env) (world : World) (now : Int) (req : Request) : World × Except Fault (Option Response) :=
  attempt world (getAccount world.db req.cookies) fun myAcc =>
    match myAcc with
    | some _ => (world, .ok (redirect "/dashboard/"))
    | none =>
        attempt world (signupTemplate world.db req) fun template =>
          if req.method = .POST ∧ signupValid world.db (signupForm req) then register env world now (signupForm req)
          else (world, renderResponse env .OK template)

-- src/handler/login.c
def loginSets (username password : BasicString) : List (String × Page) :=
  [("active", literal "login"), ("subtitle", literal "Login"),
    if username.size = 0 then ("usernameError", literal "Username is missing!")
    else ("formUsername", [.user .username username.data])] ++
  if password.size = 0 then [("passwordError", literal "Password is missing!")] else []

def loginFailed (env : Env) (template : Template) : Except Fault (Option Response) := do
  let template ← templateSetAll template [("usernameError", literal "Invalid username or password.")]
  renderResponse env .OK template

def loggedIn (now : Int) (sid : List UInt8) : Response :=
  let cookie := cookieSetAttr (cookieInit (ascii "sid") sid) .EXPIRE (cookieGenExpire now (3600 * 24 * 30))
  responseAddHeader (responseSetStatus (responseAddCookie responseNew cookie) .FOUND) (ascii "Location")
    (ascii "/dashboard/")

def authenticate (env : Env) (world : World) (now : Int) (username password : BasicString) (template : Template) :
    World × Except Fault (Option Response) :=
  if accountAuth env.sha256 world.db username password then
    let (db, counter, session) := sessionCreate env.sha256 world.db now env.address world.counter username.data password.data
    match session with
    | some session => (⟨db, counter⟩, .ok (some (loggedIn now session.sessionId)))
    | none => (⟨db, counter⟩, loginFailed env template)
  else (world, loginFailed env template)

def login (env : Env) (world : World) (now : Int) (req : Request) : World × Except Fault (Option Response) :=
  attempt world (getAccount world.db req.cookies) fun myAcc =>
    match myAcc with
    | some _ => (world, .ok (redirect "/dashboard/"))
    | none =>
        if req.method = .POST then
          let username := formField req "username"
          let password := formField req "password"
          attempt world (templateSetAll (templateNew (ascii "templates/login.html")) (loginSets username password))
            fun template => authenticate env world now username password template
        else
          (world, do
            let template ← templateSetAll (templateNew (ascii "templates/login.html"))
              [("active", literal "login"), ("subtitle", literal "Login")]
            renderResponse env .OK template)

end Facebooc
