import Facebooc.GetAccount
import Facebooc.Posts
import Facebooc.Request
import Facebooc.Response
import Facebooc.Template

set_option autoImplicit false

namespace Facebooc

open CMemory

-- What the handlers take from outside: the digest of OpenSSL, the address
-- get_rand is loaded at, the template files and a bound on their nesting.
structure Env where
  sha256 : List UInt8 → List UInt8
  address : Nat
  files : List UInt8 → Option (List UInt8)
  depth : Nat

-- What one request leaves for the next: the tables and the counter of get_rand.
structure World where
  db : Database
  counter : Nat
deriving DecidableEq, Repr

-- A fault ends a handler; what it wrote before that stays in the tables.
def attempt {α β : Type} (world : World) (x : Except Fault α) (next : α → World × Except Fault β) :
    World × Except Fault β :=
  match x with
  | .error fault => (world, .error fault)
  | .ok a => next a

theorem attempt_keeps {α β : Type} (world : World) (x : Except Fault α) (next : α → World × Except Fault β)
    (keeps : ∀ a, (next a).1 = world) : (attempt world x next).1 = world := by
  cases x with
  | error fault => rfl
  | ok a => exact keeps a

def redirect (location : String) : Option Response := some (responseNewRedirect (ascii location))

def redirectProfile (id : Int) : Option Response :=
  some (responseNewRedirect (ascii "/profile/" ++ decimal id ++ ascii "/"))

def renderResponse (env : Env) (status : Status) (template : Template) : Except Fault (Option Response) := do
  let body ← templateRender env.files env.depth template
  .ok (some (responseSetBodyMove (responseSetStatus responseNew status) body))

-- src/handler/helper.c
def strchrFrom (text : List UInt8) (c : UInt8) : Except Fault (List UInt8) :=
  match text.idxOf? c with
  | none => .error .null
  | some i => .ok (text.drop i)

def isdigit (c : UInt8) : Bool := chr '0' ≤ c && c ≤ chr '9'

-- The array has no byte behind it on which the digits could stop.
def atoi (o : Object) : Except Fault Int :=
  let text := o.dropWhile isspace
  let digits := if text.head? = some (chr '-') ∨ text.head? = some (chr '+') then text.tail else text
  if digits.dropWhile isdigit = [] then .error .bounds
  else
    let n : Nat := (digits.takeWhile isdigit).foldl (fun n c => 10 * n + (c.toNat - 48)) 0
    .ok (if text.head? = some (chr '-') then -n else n)

-- A missing second slash makes the length that is copied wrap around.
def getId (uri : List UInt8) : Except Fault Int :=
  if uri = [] then .error .bounds
  else do
    let slash ← strchrFrom uri.tail (chr '/')
    let begin := slash.tail
    match begin.idxOf? (chr '/') with
    | none => .error .bounds
    | some len => if len ≤ 10 then atoi (begin.take len ++ List.replicate (10 - len) 0) else .error .bounds

-- src/handler/home.c, notFound.c and logout.c
def home (env : Env) (db : Database) (req : Request) : Except Fault (Option Response) := do
  match ← getAccount db req.cookies with
  | some _ => .ok (redirect "/dashboard/")
  | none =>
      let template ← templateSetAll (templateNew (ascii "templates/index.html"))
        [("active", literal "home"), ("subtitle", literal "Home")]
      renderResponse env .OK template

def notFound (env : Env) (db : Database) (req : Request) : Except Fault (Option Response) := do
  let account ← getAccount db req.cookies
  let template ← templateSetAll (templateNew (ascii "templates/404.html"))
    [("loggedIn", if account.isSome then literal "t" else literal ""), ("subtitle", literal "404 Not Found")]
  renderResponse env .NOT_FOUND template

def logout (db : Database) (now : Int) (req : Request) : Except Fault (Option Response) := do
  match ← getAccount db req.cookies with
  | none => .ok (redirect "/")
  | some _ =>
      let cookie := cookieSetAttr (cookieInit (ascii "sid") []) .EXPIRE (cookieGenExpire now (-1))
      .ok (some (responseAddCookie (responseNewRedirect (ascii "/")) cookie))

-- src/handler/connect.c
def connect (world : World) (now : Int) (req : Request) : World × Except Fault (Option Response) :=
  attempt world (getAccount world.db req.cookies) fun myAcc =>
    match myAcc with
    | none => (world, .ok (redirect "/dashboard/"))
    | some myAcc =>
        attempt world (do accountGetById world.db (← getId req.uri)) fun account =>
          match account with
          | none => (world, .ok (redirect "/dashboard/"))
          | some account =>
              ({ world with db := connectionCreate world.db now myAcc.id account.id }, .ok (redirectProfile account.id))

-- src/handler/like.c
def liking (write : Database → Int → Post → Database) (world : World) (req : Request) :
    World × Except Fault (Option Response) :=
  attempt world (getAccount world.db req.cookies) fun myAcc =>
    match myAcc with
    | none => (world, .ok (redirect "/dashboard/"))
    | some myAcc =>
        attempt world (getId req.uri) fun id =>
          match postGetById world.db id with
          | none => (world, .ok (redirect "/dashboard/"))
          | some post =>
              ({ world with db := write world.db myAcc.id post },
                .ok (if (queryGet req.queryString (ascii "r")).isSome then redirectProfile post.authorId
                  else redirect "/dashboard/"))

def like (world : World) (now : Int) (req : Request) : World × Except Fault (Option Response) :=
  liking (fun db me post => likeCreate db now me post.authorId post.id) world req

def unlike (world : World) (req : Request) : World × Except Fault (Option Response) :=
  liking (fun db me post => likeDelete db me post.id) world req

-- src/handler/post.c
def maxBodyLen : Nat := 65536

def post (world : World) (now : Int) (req : Request) : World × Except Fault (Option Response) :=
  attempt world (getAccount world.db req.cookies) fun acc =>
    match acc with
    | none => (world, .ok (redirect "/dashboard/"))
    | some acc =>
        let postStr := basicStringInit (bodyGet req.postBody (ascii "post"))
        if req.method = .POST ∧ postStr.size ≠ 0 ∧ postStr.size < maxBodyLen then
          ({ world with db := postCreateMove world.db now acc.id postStr }, .ok (redirect "/dashboard/"))
        else (world, .ok (redirect "/dashboard/"))

end Facebooc
