import Facebooc.Handlers

set_option autoImplicit false

namespace Facebooc

open CMemory

-- src/handler/dashboard.c. The bounds of the printed entries are the sizes of
-- the texts and the length of the format around them.
def dashboardEntry (authorName body : BasicString) : Except Fault Page :=
  let entrySize := body.size + authorName.size + 86
  snprintf (entrySize + 1) entrySize
    (literal "<li class=\"post-item\"><div class=\"post-author\">" ++ [shown .name authorName.data] ++
      literal "</div><div class=\"post-content\">" ++ [shown .body body.data] ++ literal "</div>")

def unlikeButton (id : Int) : Except Fault Page :=
  snprintf 128 55 (literal "<a class=\"btn\" href=\"/unlike/" ++ [.markup (decimal id)] ++ literal "/\">Liked</a> - ")

def likeButton (id : Int) : Except Fault Page :=
  snprintf 128 52 (literal "<a class=\"btn\" href=\"/like/" ++ [.markup (decimal id)] ++ literal "/\">Like</a> - ")

def dashboardButton (liked : Bool) (id : Int) : Except Fault Page := if liked then unlikeButton id else likeButton id

def profileButton (liked : Bool) (id : Int) : Except Fault Page :=
  if liked then .ok (literal "Liked - ") else likeButton id

-- Eight hours later is written into the hour alone.
def dashboardTime (createdAt : Int) : Page :=
  let info := gmtime createdAt
  [.markup (strftimeC { info with hour := info.hour + 8 } ++ ascii " GMT+8")]

def profileTime (createdAt : Int) : Page := [.markup (strftimeC (gmtime createdAt) ++ ascii " GMT")]

def dashboardPost (db : Database) (myAcc : Account) (ctx : Page) (p : Post) : Except Fault Page := do
  match ← accountGetById db p.authorId with
  | none => .error .null
  | some postAuthor =>
      let entry ← dashboardEntry postAuthor.name p.body
      let button ← dashboardButton (likeLiked db myAcc.id p.id) p.id
      .ok (basicStringAppendRaw (basicStringAppendRaw (basicStringAppendRaw (basicStringAppendRaw ctx entry) button)
        (dashboardTime p.createdAt)) (literal "</li>"))

def appendEach {α : Type} (append : Page → α → Except Fault Page) : Page → List α → Except Fault Page
  | ctx, [] => .ok ctx
  | ctx, a :: rest => do
      let ctx ← append ctx a
      appendEach append ctx rest

-- The list is NULL for the account -1 only, and is read all the same.
def concatPosts (db : Database) (posts : Option (List Post)) (myAcc : Account) : Except Fault (Option Page) :=
  match posts with
  | none => .error .null
  | some [] => .ok none
  | some posts => do
      let ctx ← appendEach (dashboardPost db myAcc) (literal "<ul class=\"posts\">") posts
      .ok (some (basicStringAppendRaw ctx (literal "</ul>")))

def dashboardTemplate (ctx : Option Page) (myAcc : Account) : Except Fault Template :=
  templateSetAll (templateNew (ascii "templates/dashboard.html"))
    [("graph", ctx.getD (literal "<ul class=\"posts\"><div class=\"not-found\">Nothing here.</div></ul>")),
      ("active", literal "dashboard"), ("loggedIn", literal "t"), ("subtitle", literal "Dashboard"),
      ("accountName", [.user .name myAcc.name.data])]

def dashboard (env : Env) (db : Database) (req : Request) : Except Fault (Option Response) := do
  match ← getAccount db req.cookies with
  | none => .ok none
  | some myAcc =>
      let ctx ← concatPosts db (postGetLatestGraph db myAcc.id 0) myAcc
      let template ← dashboardTemplate ctx myAcc
      renderResponse env .OK template

-- src/handler/profile.c
def profileConnect (connected : Bool) (acc2 : Account) : Except Fault Page :=
  if connected then
    snprintf 128 (26 + acc2.name.size)
      (literal "You and " ++ [shown .name acc2.name.data] ++ literal " are connected!")
  else
    snprintf 128 (76 + acc2.name.size + 10)
      (literal "You and " ++ [shown .name acc2.name.data] ++ literal " are not connected. <a href=\"/connect/" ++
        [.markup (decimal acc2.id)] ++ literal "/\">Click here</a> to connect!")

def profileEntry (body : BasicString) : Except Fault Page :=
  snprintf (body.size + 55) (54 + body.size)
    (literal "<li class=\"post-item\"><div class=\"post-author\">" ++ [shown .body body.data] ++ literal "</div>")

def profilePost (db : Database) (myAcc : Account) (ctx : Page) (p : Post) : Except Fault Page := do
  let entry ← profileEntry p.body
  let button ← profileButton (likeLiked db myAcc.id p.id) p.id
  .ok (basicStringAppendRaw (basicStringAppendRaw (basicStringAppendRaw (basicStringAppendRaw ctx entry) button)
    (profileTime p.createdAt)) (literal "</li>"))

def profilePosts (db : Database) (posts : Option (List Post)) (myAcc : Account) : Except Fault Page :=
  match posts with
  | none => .error .null
  | some [] => .ok (literal "<h4 class=\"not-found\">This person has not posted anything yet!</h4>")
  | some posts => do
      let ctx ← appendEach (profilePost db myAcc) (literal "<ul class=\"posts\">") posts
      .ok (basicStringAppendRaw ctx (literal "</ul>"))

def profilePage (env : Env) (db : Database) (myAcc acc2 : Account) : Except Fault (Option Response) := do
  let acc2IdStr ← snprintf 11 10 [.markup (decimal acc2.id)]
  let connectStr ← profileConnect (connectionGetByAccountIds db myAcc.id acc2.id).isSome acc2
  let posts ← profilePosts db (postGetLatest db acc2.id 0) myAcc
  let template ← templateSetAll (templateNew (ascii "templates/profile.html"))
    [("profilePosts", posts), ("active", literal "profile"), ("loggedIn", literal "t"),
      ("subtitle", [.user .name acc2.name.data]), ("profileId", acc2IdStr),
      ("profileName", [.user .name acc2.name.data]), ("profileEmail", [.user .email acc2.email.data]),
      ("profileConnect", connectStr), ("accountName", [.user .name myAcc.name.data])]
  renderResponse env .OK template

def profile (env : Env) (db : Database) (req : Request) : Except Fault (Option Response) := do
  match ← getAccount db req.cookies with
  | none => .ok none
  | some myAcc =>
      match ← accountGetById db (← getId req.uri) with
      | none => .ok none
      | some acc2 => if acc2.id = myAcc.id then .ok (redirect "/dashboard/") else profilePage env db myAcc acc2

-- src/handler/search.c
def searchResult (ctx : Page) (a : Account) : Except Fault Page := do
  let sbuff ← snprintf 128 (62 + a.name.size + a.email.size)
    (literal "<li><a href=\"/profile/" ++ [.markup (decimal a.id)] ++ literal "/\">" ++ [shown .name a.name.data] ++
      literal "</a> (<span>" ++ [shown .email a.email.data] ++ literal "</span>)</li>\n")
  .ok (basicStringAppendRaw ctx sbuff)

def searchResults (accounts : List Account) : Except Fault Page :=
  match accounts with
  | [] => .ok (literal "<h4 class=\"not-found\">There were no results for your query.</h4>")
  | accounts => do
      let ctx ← appendEach searchResult (literal "<ul class=\"search-results\">") accounts
      .ok (basicStringAppendRaw ctx (literal "</ul>"))

def searchPage (env : Env) (db : Database) (query : BasicString) : Except Fault (Option Response) := do
  let results ← searchResults (← accountSearch db query 0)
  let template ← templateSetAll (templateNew (ascii "templates/search.html"))
    [("results", results), ("searchQuery", [.user .query query.data]), ("active", literal "search"),
      ("loggedIn", literal "t"), ("subtitle", literal "Search")]
  renderResponse env .OK template

def search (env : Env) (db : Database) (req : Request) : Except Fault (Option Response) := do
  match ← getAccount db req.cookies with
  | none => .ok (redirect "/login/")
  | some _ =>
      let query := basicStringInit (queryGet req.queryString (ascii "q"))
      if query.size = 0 then .ok none else searchPage env db query

end Facebooc
