import Facebooc.IntegrityRuns
import Facebooc.LikeHistory
import Facebooc.NetworkReads

set_option autoImplicit false

namespace Facebooc

open CMemory Runs Ranking LeftJoin

-- A request that is no concern of an account: a stranger's, or another member's
-- that neither posts where the account follows nor connects to it.
def Apart (me : Int) (world : World) (arrival : Arrival) : Prop :=
  ∀ client, getAccount world.db arrival.req.cookies = .ok (some client) → client.id ≠ me ∧
    (arrival.route = .post → ∀ row ∈ world.db.connections, ¬ (row.account1 = me ∧ row.account2 = client.id)) ∧
    (arrival.route = .connect → getId arrival.req.uri ≠ .ok me)

-- What the dashboard of an account is made of stays as it is.
structure Unmoved (me : Int) (before after : Database) : Prop where
  accounts : before.accounts <+: after.accounts
  sessions : before.sessions <+: after.sessions
  rows : graphRows after me = graphRows before me
  likes : ∀ post, likeLiked after me post = likeLiked before me post

theorem unmoved_refl (me : Int) (db : Database) : Unmoved me db db where
  accounts := List.prefix_refl _
  sessions := List.prefix_refl _
  rows := rfl
  likes := fun _ => rfl

theorem unmoved_trans (me : Int) (first second third : Database) (one : Unmoved me first second) (two : Unmoved me second third) :
    Unmoved me first third where
  accounts := one.accounts.trans two.accounts
  sessions := one.sessions.trans two.sessions
  rows := two.rows.trans one.rows
  likes := fun post => (two.likes post).trans (one.likes post)

theorem connection_apart (db : Database) (me now a b : Int) (notFrom : a ≠ me) (notTo : b ≠ me) :
    graphRows (connectionCreate db now a b) me = graphRows db me := by
  have reaches (post : PostRow) : reaching (connectionCreate db now a b) me post = reaching db me post := by
    rw [reaching, reaching, connectionCreate]
    split
    · rw [List.filter_append]
      simp [notTo]
    · rw [List.filter_append]
      simp [notFrom]
  rw [graphRows, graphRows, select_replicate, select_replicate]
  refine congrArg (fun f => List.flatMap f db.posts) (funext fun post => ?_)
  rw [graph_hits, graph_hits, reaches]

theorem post_apart (db : Database) (me now author : Int) (body : BasicString) (other : author ≠ me)
    (unfollowed : ∀ row ∈ db.connections, ¬ (row.account1 = me ∧ row.account2 = author)) :
    graphRows (postCreateMove db now author body) me = graphRows db me := by
  rw [graphRows, graphRows, select_replicate, select_replicate, postCreateMove, List.flatMap_append]
  have nobody : hits graphOn (graphWhere me) db.connections
      ⟨nextRowid (db.posts.map PostRow.id), now, author, (htmlEscapeTrans body).data⟩ = 0 := by
    rw [graph_hits, if_neg other, reaching, if_neg other, List.length_eq_zero_iff, List.filter_eq_nil_iff]
    exact fun row member same => unfollowed row member (of_decide_eq_true same)
  simp [nobody]

theorem account_get_by_id_own (db : Database) (id : Int) (account : Account)
    (got : accountGetById db id = .ok (some account)) : account.id = id := by
  rw [accountGetById] at got
  split at got
  · cases got
  · rw [accountSelect] at got
    cases found : db.accounts.find? fun row => row.id = id with
    | none => rw [found] at got; cases got
    | some row =>
        rw [found] at got
        obtain ⟨read, decoded, same⟩ := (except_bind_ok _ _ _).mp got
        cases same
        rw [account_of_row_id row account decoded]
        have own := List.find?_some found
        exact of_decide_eq_true own

theorem apart_unmoved (env : Env) (me : Int) (world : World) (arrival : Arrival) (apart : Apart me world arrival) :
    Unmoved me world.db (handleNext env world arrival).db := by
  by_cases connecting : arrival.route = .connect
  · rcases connect_cases env world arrival connecting with ⟨client, other, connects, next⟩ | ⟨_, next⟩
    · obtain ⟨_, known, asked⟩ := connects
      obtain ⟨id, named, got⟩ := (except_bind_ok _ _ _).mp asked
      obtain ⟨notFrom, _, notAsked⟩ := apart client known
      have notTo : other.id ≠ me := by
        intro same
        rw [account_get_by_id_own world.db id other got] at same
        exact notAsked connecting (same ▸ named)
      rw [next]
      exact ⟨List.prefix_refl _, List.prefix_refl _, connection_apart _ me _ _ _ notFrom notTo, fun _ => rfl⟩
    · rw [next]
      exact unmoved_refl me world.db
  · have wrote := handle_wrote env world arrival
    generalize handleNext env world arrival = after at wrote ⊢
    cases wrote with
    | nothing => exact unmoved_refl me world.db
    | account route method stranger valid free => exact ⟨List.prefix_append _ _, List.prefix_refl _, rfl, fun _ => rfl⟩
    | session row route stranger found answer => exact ⟨List.prefix_refl _, List.prefix_append _ _, rfl, fun _ => rfl⟩
    | connection client other route => exact absurd route connecting
    | post client route known size =>
        obtain ⟨other, unfollowed, _⟩ := apart client known
        exact ⟨List.prefix_refl _, List.prefix_refl _, post_apart _ me _ _ _ other (unfollowed route), fun _ => rfl⟩
    | like client post route known found =>
        have other := (apart client known).1
        refine ⟨List.prefix_refl _, List.prefix_refl _, rfl, fun p => ?_⟩
        rw [like_create_liked, if_neg fun same => other same.1]
    | unlike client post route known found =>
        have other := (apart client known).1
        refine ⟨List.prefix_refl _, List.prefix_refl _, rfl, fun p => ?_⟩
        rw [like_delete_liked, if_neg fun same => other same.1]

theorem account_select_grown (before after : Database) (condition : AccountRow → Bool) (account : Account)
    (grown : before.accounts <+: after.accounts) (selected : accountSelect before condition = .ok (some account)) :
    accountSelect after condition = .ok (some account) := by
  obtain ⟨rest, same⟩ := grown
  rw [accountSelect] at selected ⊢
  cases found : before.accounts.find? condition with
  | none => rw [found] at selected; cases selected
  | some row =>
      rw [found] at selected
      rw [← same, List.find?_append, found]
      exact selected

theorem account_by_id_grown (before after : Database) (id : Int) (account : Account)
    (grown : before.accounts <+: after.accounts) (got : accountGetById before id = .ok (some account)) :
    accountGetById after id = .ok (some account) := by
  rw [accountGetById] at got ⊢
  split at got
  · cases got
  · rename_i known
    rw [if_neg known]
    exact account_select_grown before after _ account grown got

theorem client_grown (before after : Database) (cookies : Option (List Cookie)) (me : Account)
    (accounts : before.accounts <+: after.accounts) (sessions : before.sessions <+: after.sessions)
    (client : getAccount before cookies = .ok (some me)) : getAccount after cookies = .ok (some me) := by
  cases cookies with
  | none => cases client
  | some cookies =>
      cases held : cookiesGet (some cookies) (ascii "sid") with
      | none => simp only [getAccount, held] at client; cases client
      | some cookie =>
          simp only [getAccount, held, accountGetBySId, sessionGetBySId] at client ⊢
          obtain ⟨rest, same⟩ := sessions
          cases found : before.sessions.find? fun row => row.session = cookie.value with
          | none => rw [found] at client; cases client
          | some row =>
              rw [found] at client
              rw [← same, List.find?_append, found]
              exact account_select_grown before after _ me accounts client

theorem append_each_congr {α : Type} (one other : Page → α → Except Fault Page) (list : List α)
    (same : ∀ a ∈ list, ∀ ctx, one ctx a = other ctx a) (ctx : Page) : appendEach one ctx list = appendEach other ctx list := by
  induction list generalizing ctx with
  | nil => rfl
  | cons a rest ih =>
      rw [appendEach, appendEach, same a List.mem_cons_self ctx]
      exact congrArg (Except.bind (other ctx a)) (funext fun next => ih (fun b member => same b (List.mem_cons_of_mem _ member)) next)

theorem unmoved_dashboard (env : Env) (before after : Database) (req : Request) (me : Account) (linked : Linked before)
    (client : getAccount before req.cookies = .ok (some me)) (unmoved : Unmoved me.id before after) :
    dashboard env after req = dashboard env before req := by
  have listed : postGetLatestGraph after me.id 0 = postGetLatestGraph before me.id 0 := by
    rw [postGetLatestGraph, postGetLatestGraph, unmoved.rows]
  have printed : concatPosts after (postGetLatestGraph before me.id 0) me =
      concatPosts before (postGetLatestGraph before me.id 0) me := by
    cases found : postGetLatestGraph before me.id 0 with
    | none => rfl
    | some posts =>
        have authors := linked_authors before linked me.id 0 posts (found ▸ post_get_latest_graph_allowed before me.id 0)
        have each : ∀ post ∈ posts, ∀ ctx, dashboardPost after me ctx post = dashboardPost before me ctx post := by
          intro post member ctx
          obtain ⟨author, got, _⟩ := authors post member
          rw [dashboardPost, dashboardPost, got, account_by_id_grown before after _ author unmoved.accounts got,
            unmoved.likes post.id]
        cases posts with
        | nil => rfl
        | cons post rest => simp only [concatPosts, append_each_congr _ _ _ each]
  rw [dashboard, dashboard, client, client_grown before after _ me unmoved.accounts unmoved.sessions client]
  simp only [bind, Except.bind, listed, printed]

-- Between two looks at a dashboard, whatever anybody does outside its circle.
-- The dashboard is that of one order of posts of the same second; the lists that
-- may be read in any order are the same too.
theorem dashboard_undisturbed (env : Env) (past between : List Arrival) (req : Request) (me : Account)
    (client : getAccount (tablesAfter env past) req.cookies = .ok (some me))
    (apart : Along (handleNext env) (Apart me.id) (run (handleNext env) ⟨Database.empty, 0⟩ past) between) :
    dashboard env (tablesAfter env (past ++ between)) req = dashboard env (tablesAfter env past) req ∧
      ∀ page posts, PostGetLatestGraph (tablesAfter env (past ++ between)) me.id page posts ↔
        PostGetLatestGraph (tablesAfter env past) me.id page posts := by
  have unmoved := history_invariant (handleNext env) (Apart me.id) (fun _ world => Unmoved me.id (tablesAfter env past) world.db)
    (run (handleNext env) ⟨Database.empty, 0⟩ past) (unmoved_refl _ _)
    (fun _ world arrival held apart => unmoved_trans _ _ _ _ held (apart_unmoved env me.id world arrival apart)) between apart
  have split : tablesAfter env (past ++ between) =
      (run (handleNext env) (run (handleNext env) ⟨Database.empty, 0⟩ past) between).db := by
    rw [tablesAfter, run, run, run, List.foldl_append]
  rw [split]
  refine ⟨unmoved_dashboard env _ _ req me (linked_run env past) client unmoved, fun page posts => ?_⟩
  rw [PostGetLatestGraph, PostGetLatestGraph, unmoved.rows]

-- Two members of a server whose session ids differ.
def loadedEnv : Env := { plainEnv with address := 93824992236897 }

def cookiesOf (counter : Nat) : Option (List Cookie) :=
  some [⟨ascii "sid", genRandomDummyString loadedEnv.address counter 64⟩]

def alicePosts : List Arrival := [aliceSignup, aliceLogin, formArrival .post (cookiesOf 0) [("post", "Hello")]]

def bobEnters : List Arrival := [formArrival .signup none [("name", "Robert"), ("email", "bob@x.org"), ("username", "bob"),
  ("password", "87654321"), ("confirm-password", "87654321")], formArrival .login none [("username", "bob"), ("password", "87654321")]]

def bobPost : Arrival := formArrival .post (cookiesOf 64) [("post", "Good morning")]

theorem dashboard_undisturbed_alice :
    let req := (formArrival .dashboard (cookiesOf 0) []).req
    dashboard loadedEnv (tablesAfter loadedEnv (alicePosts ++ (bobEnters ++ [bobPost]))) req =
      dashboard loadedEnv (tablesAfter loadedEnv alicePosts) req ∧
    ∀ page posts, PostGetLatestGraph (tablesAfter loadedEnv (alicePosts ++ (bobEnters ++ [bobPost]))) 1 page posts ↔
      PostGetLatestGraph (tablesAfter loadedEnv alicePosts) 1 page posts := by
  have alice : getAccount (tablesAfter loadedEnv alicePosts) (cookiesOf 0) =
      .ok (some ⟨1, 1700000000, ⟨ascii "Alice", 5⟩, ⟨ascii "al@x.org", 8⟩, ⟨ascii "alice", 5⟩⟩) := by decide +kernel
  have bob : getAccount (tablesAfter loadedEnv (alicePosts ++ bobEnters)) (cookiesOf 64) =
        .ok (some ⟨2, 1700000000, ⟨ascii "Robert", 6⟩, ⟨ascii "bob@x.org", 9⟩, ⟨ascii "bob", 3⟩⟩) ∧
      (tablesAfter loadedEnv (alicePosts ++ bobEnters)).connections = [] := by decide +kernel
  refine dashboard_undisturbed loadedEnv alicePosts (bobEnters ++ [bobPost]) _
    ⟨1, 1700000000, ⟨ascii "Alice", 5⟩, ⟨ascii "al@x.org", 8⟩, ⟨ascii "alice", 5⟩⟩ alice ?_
  refine ⟨fun client known => ?_, fun client known => ?_, fun client known => ?_, trivial⟩
  · cases (known : Except.ok none = _)
  · cases (known : Except.ok none = _)
  · cases bob.1.symm.trans known
    refine ⟨by decide, fun _ row member => ?_, fun route => by cases route⟩
    have inside : row ∈ (tablesAfter loadedEnv (alicePosts ++ bobEnters)).connections := member
    rw [bob.2] at inside
    cases inside

end Facebooc
