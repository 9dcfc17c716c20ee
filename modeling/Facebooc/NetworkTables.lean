import Facebooc.LoginRuns
import Facebooc.Network
import Facebooc.NumberedRows
import Facebooc.RelationRuns

set_option autoImplicit false

namespace Facebooc

open CMemory NumberedRows Runs

def rowId (i : Nat) : Int := i + 1

def memberRow (i : Nat) (member : Member) : AccountRow :=
  ⟨rowId i, member.since, base64Encode member.name, base64Encode member.username, base64Encode member.email, member.secret⟩

def remarkRow (i : Nat) (remark : Remark) : PostRow :=
  ⟨rowId i, remark.time, rowId remark.author, (htmlEscapeTrans ⟨remark.text, remark.text.length⟩).data⟩

def idPair (pair : Nat × Nat) : Int × Int := (rowId pair.1, rowId pair.2)

-- The tables hold the network, and get_rand has been called 64 times for each
-- session.
structure Stores (world : World) (net : Network) : Prop where
  accounts : world.db.accounts = net.members.mapIdx memberRow
  sessions : world.db.sessions.map sessionPair = net.sessions.map fun session => (session.1, rowId session.2)
  owners : ∀ session ∈ net.sessions, session.2 < net.members.length
  connections : world.db.connections.map connectionPair = net.follows.map idPair
  posts : world.db.posts = net.remarks.mapIdx remarkRow
  likes : world.db.likes.map likePair = net.likes.map idPair
  counter : world.counter = 64 * net.sessions.length

def memberAccount (i : Nat) (member : Member) : Account :=
  ⟨rowId i, member.since, ⟨member.name, member.name.length⟩, ⟨member.email, member.email.length⟩,
    ⟨member.username, member.username.length⟩⟩

-- What get_account gives for a visitor.
inductive Visits (net : Network) (got : Except Fault (Option Account)) : Visitor → Prop where
  | nobody (same : got = .ok none) : Visits net got .nobody
  | member (i : Nat) (member : Member) (stored : net.members[i]? = some member) (same : got = .ok (some (memberAccount i member))) :
      Visits net got (.member i)
  | broken (fault : Fault) (same : got = .error fault) : Visits net got .broken

theorem row_id_inj (i j : Nat) : rowId i = rowId j ↔ i = j := by
  rw [rowId, rowId]
  omega

theorem id_pair_inj (a b : Nat × Nat) : idPair a = idPair b ↔ a = b := by
  rw [idPair, idPair, Prod.mk.injEq, row_id_inj, row_id_inj, Prod.ext_iff]

theorem member_row_read (i : Nat) (member : Member) (named : member.Named) :
    accountOfRow (memberRow i member) = .ok (memberAccount i member) :=
  encoded_row_read _ member.name member.email member.username ⟨rfl, rfl, rfl⟩ named

theorem member_row_unread (i : Nat) (member : Member) (unnamed : ¬ member.Named) :
    ∃ fault, accountOfRow (memberRow i member) = .error fault := by
  cases read : accountOfRow (memberRow i member) with
  | error fault => exact ⟨fault, rfl⟩
  | ok account => exact absurd (encoded_row_account _ member.name member.email member.username account
    ⟨rfl, rfl, rfl⟩ read).1 unnamed

theorem find_member (world : World) (net : Network) (stores : Stores world net) (i : Nat) :
    world.db.accounts.find? (fun row => row.id = rowId i) = net.members[i]?.map (memberRow i) := by
  rw [stores.accounts]
  exact find_number memberRow AccountRow.id (fun _ _ => rfl) net.members i

theorem select_member (world : World) (net : Network) (stores : Stores world net) (i : Nat) (member : Member)
    (stored : net.members[i]? = some member) (named : member.Named) :
    accountSelect world.db (fun row => row.id = rowId i) = .ok (some (memberAccount i member)) := by
  rw [accountSelect, find_member world net stores i, stored, Option.map_some]
  simp only [member_row_read i member named, bind, Except.bind]

theorem select_unnamed (world : World) (net : Network) (stores : Stores world net) (i : Nat) (member : Member)
    (stored : net.members[i]? = some member) (unnamed : ¬ member.Named) :
    ∃ fault, accountSelect world.db (fun row => row.id = rowId i) = .error fault := by
  obtain ⟨fault, unread⟩ := member_row_unread i member unnamed
  refine ⟨fault, ?_⟩
  rw [accountSelect, find_member world net stores i, stored, Option.map_some]
  simp only [unread, bind, Except.bind]

theorem owner_session (world : World) (net : Network) (stores : Stores world net) (sid : List UInt8) :
    (sessionGetBySId world.db sid).map Session.accountId = (net.owner sid).map rowId := by
  have pairs : ((world.db.sessions.map sessionPair).find? fun entry => entry.1 = sid).map Prod.snd =
      (net.owner sid).map rowId := by
    rw [stores.sessions, List.find?_map, Network.owner, Option.map_map, Option.map_map]
    rfl
  rw [← pairs, List.find?_map, sessionGetBySId, Option.map_map, Option.map_map]
  rfl

theorem get_account_visits (world : World) (net : Network) (stores : Stores world net) (cookies : Option (List Cookie)) :
    Visits net (getAccount world.db cookies) (net.visitor cookies) := by
  cases cookies with
  | none => exact .nobody rfl
  | some cookies =>
      cases carried : cookiesGet (some cookies) (ascii "sid") with
      | none =>
          have broken : net.visitor (some cookies) = .broken := by simp only [Network.visitor, carried]
          rw [broken]
          exact .broken .null (by simp only [getAccount, carried])
      | some cookie =>
          have got : getAccount world.db (some cookies) = accountGetBySId world.db cookie.value := by
            simp only [getAccount, carried]
          have session := owner_session world net stores cookie.value
          rw [got, accountGetBySId]
          simp only [Network.visitor, carried]
          cases owned : net.owner cookie.value with
          | none =>
              rw [owned, Option.map_none, Option.map_eq_none_iff] at session
              rw [session]
              exact .nobody rfl
          | some i =>
              rw [owned, Option.map_some] at session
              obtain ⟨found, looked, account⟩ := Option.map_eq_some_iff.mp session
              obtain ⟨entry, inside, own⟩ := Option.map_eq_some_iff.mp owned
              have known := stores.owners entry (List.mem_of_find?_eq_some inside)
              rw [own] at known
              have stored := List.getElem?_eq_getElem known
              simp only [looked, account, Network.named, stored, Option.any_some]
              by_cases named : net.members[i].Named
              · rw [decide_eq_true named, if_pos rfl]
                exact .member i _ stored (select_member world net stores i _ stored named)
              · rw [decide_eq_false named, if_neg Bool.false_ne_true]
                obtain ⟨fault, failed⟩ := select_unnamed world net stores i _ stored named
                exact .broken fault failed

theorem position_row_id (id : Int) (i : Nat) : position id = some i ↔ id = rowId i := by
  rw [position, rowId]
  split
  · rw [Option.some.injEq]
    omega
  · refine iff_of_false (by simp) ?_
    omega

theorem next_member_id (world : World) (net : Network) (stores : Stores world net) :
    nextRowid (world.db.accounts.map AccountRow.id) = rowId net.members.length := by
  rw [stores.accounts, nextRowid, largest_number memberRow AccountRow.id fun _ _ => rfl]
  rfl

theorem next_remark_id (world : World) (net : Network) (stores : Stores world net) :
    nextRowid (world.db.posts.map PostRow.id) = rowId net.remarks.length := by
  rw [stores.posts, nextRowid, largest_number remarkRow PostRow.id fun _ _ => rfl]
  rfl

theorem check_email_free (world : World) (net : Network) (stores : Stores world net) (email : BasicString) :
    accountCheckEmail world.db email = net.emailFree email.data := by
  rw [accountCheckEmail, stores.accounts, Network.emailFree]
  congr 1
  refine any_item memberRow _ _ (fun i member => ?_) net.members
  rw [decide_eq_decide]
  exact ⟨fun same => base64_encode_injective _ _ same, fun same => congrArg base64Encode same⟩

theorem check_username_free (world : World) (net : Network) (stores : Stores world net) (username : BasicString) :
    accountCheckUsername world.db username = net.usernameFree username.data := by
  rw [accountCheckUsername, stores.accounts, Network.usernameFree]
  congr 1
  refine any_item memberRow _ _ (fun i member => ?_) net.members
  rw [decide_eq_decide]
  exact ⟨fun same => base64_encode_injective _ _ same, fun same => congrArg base64Encode same⟩

theorem signup_valid_admits (world : World) (net : Network) (stores : Stores world net) (req : Request) :
    signupValid world.db (signupForm req) = net.admits (signupForm req) := by
  have confirm := confirm_check_passed (signupForm req) (basic_string_init_size _)
  rw [Bool.eq_iff_iff]
  simp only [signupValid, signupChecks, List.any_cons, List.any_nil, Bool.or_false, Bool.or_eq_true, name_check_passed,
    email_check_passed, username_check_passed, password_check_passed, confirm, Network.admits, Bool.and_eq_true,
    decide_eq_true_eq, NameOk, EmailOk, UsernameOk, PasswordOk, ConfirmOk, check_email_free world net stores,
    check_username_free world net stores, or_assoc, and_assoc]

theorem joins_stored (world : World) (net : Network) (stores : Stores world net) (member : Member) (row : AccountRow)
    (same : row = memberRow net.members.length member) :
    Stores { world with db := { world.db with accounts := world.db.accounts ++ [row] } } (net.after (.joins member)) where
  accounts := by rw [Network.after, List.mapIdx_concat, ← stores.accounts, same]
  sessions := stores.sessions
  owners := by
    intro session inside
    rw [Network.after, List.length_append, List.length_singleton]
    exact Nat.lt_succ_of_lt (stores.owners session inside)
  connections := stores.connections
  posts := stores.posts
  likes := stores.likes
  counter := stores.counter

theorem signup_stores (env : Env) (world : World) (net : Network) (stores : Stores world net) (arrival : Arrival)
    (route : arrival.route = .signup) : Stores (signup env world arrival.now arrival.req).1 (net.next env arrival) := by
  have visits := get_account_visits world net stores arrival.req.cookies
  rw [signup]
  generalize visitor : net.visitor arrival.req.cookies = who at visits
  cases visits with
  | member i member stored same =>
      simp only [same, attempt, Network.next, Network.deed, route, visitor]
      exact stores
  | broken fault same =>
      simp only [same, attempt, Network.next, Network.deed, route, visitor]
      exact stores
  | nobody same =>
      obtain ⟨template, set⟩ := signup_template_ok world.db arrival.req
      simp only [same, attempt, set, Network.next, Network.deed, route, visitor]
      rw [signup_valid_admits world net stores]
      by_cases admitted : arrival.req.method = .POST ∧ net.admits (signupForm arrival.req) = true
      · rw [if_pos admitted]
        have free := check_email_free world net stores (signupForm arrival.req).email
        cases unused : net.emailFree (signupForm arrival.req).email.data with
        | false =>
            rw [unused] at free
            rw [register_taken env world arrival.now _ free]
            simp only [Bool.false_eq_true, and_false, if_false]
            exact stores
        | true =>
            rw [unused] at free
            rw [register_free env world arrival.now _ free]
            simp only [admitted, and_self, if_true]
            refine joins_stored world net stores _ _ ?_
            rw [formRow, accountRow, next_member_id world net stores]
            rfl
      · rw [if_neg admitted, if_neg fun all => admitted ⟨all.1, all.2.1⟩]
        exact stores

theorem find_username (world : World) (net : Network) (stores : Stores world net) (username : List UInt8) :
    firstNamed world.db (base64Encode username) =
      (net.members.findIdx? fun member => member.username = username).bind fun i => net.members[i]?.map (memberRow i) := by
  rw [firstNamed, stores.accounts]
  refine find_item memberRow _ _ (fun i member => ?_) net.members
  rw [decide_eq_decide]
  exact ⟨fun same => base64_encode_injective _ _ same, fun same => congrArg base64Encode same⟩

-- Whom the passwords let in.
theorem entrant_found (env : Env) (world : World) (net : Network) (stores : Stores world net) (username password : List UInt8)
    (i : Nat) (entrant : net.entrant username (env.sha256 password) = some i) :
    ∃ member, net.members[i]? = some member ∧ authenticates env world username password = true ∧
      (world.db.accounts.find? fun row => row.username = base64Encode username ∧ row.password = env.sha256 password) =
        some (memberRow i member) := by
  obtain ⟨first, secret⟩ := Option.filter_eq_some_iff.mp entrant
  obtain ⟨member, stored, right⟩ := (Option.any_eq_true _ _).mp secret
  have found := find_username world net stores username
  rw [first, Option.bind_some, stored, Option.map_some] at found
  have hash : (memberRow i member).password = env.sha256 password := of_decide_eq_true right
  refine ⟨member, stored, (authenticates_first env world username password).mpr ⟨_, found, hash⟩, ?_⟩
  have both := find_also _ (fun row => decide (row.password = env.sha256 password)) _ _ found (decide_eq_true hash)
  simpa only [Bool.decide_and] using both

theorem no_entrant (env : Env) (world : World) (net : Network) (stores : Stores world net) (username password : List UInt8)
    (none_let : net.entrant username (env.sha256 password) = none) : authenticates env world username password = false := by
  rw [Bool.eq_false_iff]
  intro right
  obtain ⟨first, found, hash⟩ := (authenticates_first env world username password).mp right
  rw [find_username world net stores username] at found
  obtain ⟨i, index, row⟩ := Option.bind_eq_some_iff.mp found
  obtain ⟨member, stored, rfl⟩ := Option.map_eq_some_iff.mp row
  have let_in : net.entrant username (env.sha256 password) = some i :=
    Option.filter_eq_some_iff.mpr ⟨index, by rw [stored]; exact decide_eq_true hash⟩
  rw [none_let] at let_in
  cases let_in

theorem enters_stored (world : World) (net : Network) (stores : Stores world net) (now : Int) (sid : List UInt8) (i : Nat)
    (known : i < net.members.length) :
    Stores ⟨{ world.db with sessions := world.db.sessions ++ [sessionRow world.db now (rowId i) sid] }, world.counter + 64⟩
      (net.after (.enters sid i)) where
  accounts := stores.accounts
  sessions := by
    rw [Network.after, List.map_append, List.map_append, stores.sessions]
    rfl
  owners := (forall_mem_snoc _ _ _).mpr ⟨stores.owners, known⟩
  connections := stores.connections
  posts := stores.posts
  likes := stores.likes
  counter := by
    change world.counter + 64 = 64 * (net.sessions ++ [(sid, i)]).length
    rw [List.length_append, List.length_singleton, stores.counter]
    omega

theorem login_sets_few (username password : BasicString) : (loginSets username password).length ≤ 2 ^ 59 := by
  by_cases missing : password.size = 0
  · simp [loginSets, missing]
  · simp [loginSets, missing]

theorem login_stores (env : Env) (world : World) (net : Network) (stores : Stores world net) (arrival : Arrival)
    (route : arrival.route = .login) : Stores (login env world arrival.now arrival.req).1 (net.next env arrival) := by
  have visits := get_account_visits world net stores arrival.req.cookies
  rw [login]
  generalize visitor : net.visitor arrival.req.cookies = who at visits
  cases visits with
  | member i member stored same =>
      simp only [same, attempt, Network.next, Network.deed, route, visitor]
      exact stores
  | broken fault same =>
      simp only [same, attempt, Network.next, Network.deed, route, visitor]
      exact stores
  | nobody same =>
      obtain ⟨template, set, _⟩ := template_new_filled (loginSets (formField arrival.req "username")
        (formField arrival.req "password")) (ascii "templates/login.html") (login_sets_few _ _)
      simp only [same, attempt, set, Network.next, Network.deed, route, visitor]
      by_cases posted : arrival.req.method = .POST
      · rw [if_pos posted, if_pos posted, authenticate]
        cases entrant : net.entrant (formField arrival.req "username").data
            (env.sha256 (formField arrival.req "password").data) with
        | none =>
            have refused : accountAuth env.sha256 world.db (formField arrival.req "username")
              (formField arrival.req "password") = false := no_entrant env world net stores _ _ entrant
            rw [if_neg (by rw [refused]; exact Bool.false_ne_true)]
            exact stores
        | some i =>
            obtain ⟨member, stored, right, found⟩ := entrant_found env world net stores _ _ i entrant
            have accepted : accountAuth env.sha256 world.db (formField arrival.req "username")
              (formField arrival.req "password") = true := right
            obtain ⟨session, created, _⟩ := session_create_finds env world.db arrival.now world.counter _ _ _ found
            obtain ⟨known, _⟩ := List.getElem?_eq_some_iff.mp stored
            rw [if_pos accepted, created]
            have sid : genRandomDummyString env.address world.counter 64 = sidAt env.address net.sessions.length := by
              rw [sidAt, stores.counter]
            rw [sid]
            exact enters_stored world net stores arrival.now _ i known
      · rw [if_neg posted, if_neg posted]
        exact stores

theorem find_position {Row Item : Type} (row : Nat → Item → Row) (number : Row → Int)
    (numbers : ∀ i item, number (row i item) = i + 1) (items : List Item) (id : Int) :
    (items.mapIdx row).find? (fun r => number r = id) = (position id).bind fun i => items[i]?.map (row i) := by
  cases place : position id with
  | none =>
      rw [Option.bind_none, List.find?_eq_none]
      intro r member same
      obtain ⟨i, inside, rfl⟩ := List.mem_mapIdx.mp member
      have own : id = rowId i := (of_decide_eq_true same).symm.trans (numbers i _)
      rw [(position_row_id id i).mpr own] at place
      cases place
  | some i =>
      rw [(position_row_id id i).mp place, rowId, find_number row number numbers items i, Option.bind_some]

theorem find_account (world : World) (net : Network) (stores : Stores world net) (id : Int) :
    world.db.accounts.find? (fun row => row.id = id) = (position id).bind fun i => net.members[i]?.map (memberRow i) := by
  rw [stores.accounts]
  exact find_position memberRow AccountRow.id (fun _ _ => rfl) net.members id

theorem marker_position : position (-1) = none := rfl

theorem asked_member (world : World) (net : Network) (stores : Stores world net) (id : Int) :
    (∃ j member, position id = some j ∧ net.named j = true ∧ net.members[j]? = some member ∧
      accountGetById world.db id = .ok (some (memberAccount j member))) ∨
    ((position id).filter net.named = none ∧ ∀ account, accountGetById world.db id ≠ .ok (some account)) := by
  have found := find_account world net stores id
  cases place : position id with
  | none =>
      refine .inr ⟨rfl, fun account got => ?_⟩
      rw [place, Option.bind_none] at found
      rw [accountGetById] at got
      split at got
      · cases got
      · rw [accountSelect, found] at got
        cases got
  | some j =>
      have no_marker : id ≠ -1 := fun marker => by
        rw [marker, marker_position] at place
        cases place
      rw [accountGetById, if_neg no_marker, (position_row_id id j).mp place]
      cases stored : net.members[j]? with
      | none =>
          refine .inr ⟨by simp [Option.filter, Network.named, stored], fun account got => ?_⟩
          rw [accountSelect, find_member world net stores j, stored, Option.map_none] at got
          cases got
      | some member =>
          by_cases named : member.Named
          · refine .inl ⟨j, member, rfl, ?_, stored, select_member world net stores j member stored named⟩
            rw [Network.named, stored]
            exact decide_eq_true named
          · refine .inr ⟨by simp [Option.filter, Network.named, stored, named], fun account got => ?_⟩
            obtain ⟨fault, failed⟩ := select_unnamed world net stores j member stored named
            rw [failed] at got
            cases got

theorem follows_stored (world : World) (net : Network) (stores : Stores world net) (now : Int) (i j : Nat) :
    Stores { world with db := connectionCreate world.db now (rowId i) (rowId j) } (net.after (.follows i j)) where
  accounts := stores.accounts
  sessions := stores.sessions
  owners := stores.owners
  connections := by
    rw [Network.after, connectionCreate, List.map_append, List.map_append, stores.connections]
    rfl
  posts := stores.posts
  likes := stores.likes
  counter := stores.counter

theorem connect_stores (env : Env) (world : World) (net : Network) (stores : Stores world net) (arrival : Arrival)
    (route : arrival.route = .connect) : Stores (connect world arrival.now arrival.req).1 (net.next env arrival) := by
  have visits := get_account_visits world net stores arrival.req.cookies
  rw [connect]
  generalize visitor : net.visitor arrival.req.cookies = who at visits
  cases visits with
  | nobody same =>
      simp only [same, attempt, Network.next, Network.deed, route, visitor]
      exact stores
  | broken fault same =>
      simp only [same, attempt, Network.next, Network.deed, route, visitor]
      exact stores
  | member i member stored same =>
      simp only [same, attempt, Network.next, Network.deed, route, visitor, asked]
      cases uri : getId arrival.req.uri with
      | error fault => exact stores
      | ok id =>
          simp only [bind, Except.bind, Except.toOption, Option.bind_some]
          rcases asked_member world net stores id with ⟨j, other, place, named, _, got⟩ | ⟨nowhere, unfound⟩
          · rw [got, place, Option.filter_some, if_pos named]
            exact follows_stored world net stores arrival.now i j
          · rw [nowhere]
            cases got : accountGetById world.db id with
            | error fault => exact stores
            | ok account =>
                cases account with
                | none => exact stores
                | some other => exact absurd got (unfound other)

theorem speaks_stored (world : World) (net : Network) (stores : Stores world net) (now : Int) (i : Nat) (body : BasicString)
    (sized : body.size = body.data.length) :
    Stores { world with db := postCreateMove world.db now (rowId i) body } (net.after (.speaks ⟨i, now, body.data⟩)) where
  accounts := stores.accounts
  sessions := stores.sessions
  owners := stores.owners
  connections := stores.connections
  posts := by
    rw [Network.after, postCreateMove, List.mapIdx_concat, ← stores.posts, next_remark_id world net stores, remarkRow, ← sized]
  likes := stores.likes
  counter := stores.counter

theorem post_stores (env : Env) (world : World) (net : Network) (stores : Stores world net) (arrival : Arrival)
    (route : arrival.route = .post) : Stores (post world arrival.now arrival.req).1 (net.next env arrival) := by
  have visits := get_account_visits world net stores arrival.req.cookies
  rw [post]
  generalize visitor : net.visitor arrival.req.cookies = who at visits
  cases visits with
  | nobody same =>
      simp only [same, attempt, Network.next, Network.deed, route, visitor]
      exact stores
  | broken fault same =>
      simp only [same, attempt, Network.next, Network.deed, route, visitor]
      exact stores
  | member i member stored same =>
      simp only [same, attempt, Network.next, Network.deed, route, visitor]
      by_cases sent : arrival.req.method = .POST ∧ (formField arrival.req "post").size ≠ 0 ∧
          (formField arrival.req "post").size < maxBodyLen
      · rw [if_pos sent]
        have taken : arrival.req.method = .POST ∧ (basicStringInit (bodyGet arrival.req.postBody (ascii "post"))).size ≠ 0 ∧
          (basicStringInit (bodyGet arrival.req.postBody (ascii "post"))).size < maxBodyLen := sent
        rw [if_pos taken]
        exact speaks_stored world net stores arrival.now i _ (basic_string_init_size _)
      · rw [if_neg sent]
        have kept : ¬ (arrival.req.method = .POST ∧ (basicStringInit (bodyGet arrival.req.postBody (ascii "post"))).size ≠ 0 ∧
          (basicStringInit (bodyGet arrival.req.postBody (ascii "post"))).size < maxBodyLen) := sent
        rw [if_neg kept]
        exact stores

theorem find_remark (world : World) (net : Network) (stores : Stores world net) (id : Int) :
    postGetById world.db id =
      (position id).bind fun p => net.remarks[p]?.map fun remark => postOfRow (remarkRow p remark) := by
  rw [postGetById]
  split
  · rename_i marker
    rw [marker, marker_position, Option.bind_none]
  · rw [stores.posts, find_position remarkRow PostRow.id (fun _ _ => rfl), Option.map_bind]
    congr 1
    funext p
    rw [Function.comp_apply, Option.map_map]
    rfl

theorem likes_stored (world : World) (net : Network) (stores : Stores world net) (now author : Int) (i p : Nat) :
    Stores { world with db := likeCreate world.db now (rowId i) author (rowId p) } (net.after (.likes i p)) where
  accounts := stores.accounts
  sessions := stores.sessions
  owners := stores.owners
  connections := stores.connections
  posts := stores.posts
  likes := by
    rw [Network.after, likeCreate, List.map_append, List.map_append, stores.likes]
    rfl
  counter := stores.counter

theorem unlikes_stored (world : World) (net : Network) (stores : Stores world net) (i p : Nat) :
    Stores { world with db := likeDelete world.db (rowId i) (rowId p) } (net.after (.unlikes i p)) where
  accounts := stores.accounts
  sessions := stores.sessions
  owners := stores.owners
  connections := stores.connections
  posts := stores.posts
  likes := by
    have rows : (world.db.likes.filter fun row => ¬ (row.account = rowId i ∧ row.post = rowId p)).map likePair =
        (world.db.likes.map likePair).filter fun pair => pair ≠ (rowId i, rowId p) := by
      rw [List.filter_map]
      congr 1
      refine List.filter_congr fun row _ => ?_
      simp [likePair]
    have pairs : (net.likes.map idPair).filter (fun pair => pair ≠ (rowId i, rowId p)) =
        (net.likes.filter fun like => like ≠ (i, p)).map idPair := by
      rw [List.filter_map]
      congr 1
      refine List.filter_congr fun like _ => ?_
      simp only [Function.comp_apply, decide_eq_decide]
      exact not_congr (id_pair_inj like (i, p))
    rw [likeDelete, rows, stores.likes, pairs, Network.after]
  counter := stores.counter

theorem liking_stores (env : Env) (world : World) (net : Network) (stores : Stores world net) (arrival : Arrival)
    (write : Database → Int → Post → Database) (deed : Nat → Nat → Deed)
    (does : ∀ i, net.visitor arrival.req.cookies = .member i → net.deed env arrival =
      ((asked arrival.req).filter fun p => p < net.remarks.length).map (deed i))
    (idle : (∀ i, net.visitor arrival.req.cookies ≠ .member i) → net.deed env arrival = none)
    (stored : ∀ i p remark, net.remarks[p]? = some remark →
      Stores { world with db := write world.db (rowId i) (postOfRow (remarkRow p remark)) } (net.after (deed i p))) :
    Stores (liking write world arrival.req).1 (net.next env arrival) := by
  have visits := get_account_visits world net stores arrival.req.cookies
  rw [liking, Network.next]
  generalize visitor : net.visitor arrival.req.cookies = who at visits does idle
  cases visits with
  | nobody same =>
      rw [idle (fun i => by simp), same]
      exact stores
  | broken fault same =>
      rw [idle (fun i => by simp), same]
      exact stores
  | member i member known same =>
      rw [does i rfl, asked]
      simp only [same, attempt]
      cases uri : getId arrival.req.uri with
      | error fault => exact stores
      | ok id =>
          simp only [Except.toOption, Option.bind_some]
          rw [find_remark world net stores id]
          cases place : position id with
          | none => exact stores
          | some p =>
              simp only [Option.bind_some]
              cases said : net.remarks[p]? with
              | none =>
                  have outside := List.getElem?_eq_none_iff.mp said
                  rw [Option.filter_some, if_neg (by simpa using outside)]
                  exact stores
              | some remark =>
                  obtain ⟨inside, _⟩ := List.getElem?_eq_some_iff.mp said
                  rw [Option.filter_some, if_pos (decide_eq_true inside)]
                  exact stored i p remark said

-- One request does in the tables what its deed does in the network.
theorem handle_stores (env : Env) (world : World) (net : Network) (stores : Stores world net) (arrival : Arrival) :
    Stores (handleNext env world arrival) (net.next env arrival) := by
  rw [handleNext, handle_world, callHandler]
  have idle : (∀ i, net.visitor arrival.req.cookies ≠ .member i) → arrival.route = .like ∨ arrival.route = .unlike →
      net.deed env arrival = none := by
    intro no_member liking_route
    cases visitor : net.visitor arrival.req.cookies with
    | member i => exact absurd visitor (no_member i)
    | nobody | broken => rcases liking_route with route | route <;> simp only [Network.deed, route, visitor]
  -- One case for each handler; those that only read have no deed.
  cases route : arrival.route with
  | signup => exact signup_stores env world net stores arrival route
  | login => exact login_stores env world net stores arrival route
  | connect => exact connect_stores env world net stores arrival route
  | post => exact post_stores env world net stores arrival route
  | like =>
      refine liking_stores env world net stores arrival _ Deed.likes (fun i visitor => ?_) (fun no => idle no (.inl route))
        fun i p remark _ => likes_stored world net stores arrival.now _ i p
      simp only [Network.deed, route, visitor]
  | unlike =>
      refine liking_stores env world net stores arrival _ Deed.unlikes (fun i visitor => ?_) (fun no => idle no (.inr route))
        fun i p remark _ => unlikes_stored world net stores i p
      simp only [Network.deed, route, visitor]
  | dashboard | home | logout | profile | search | notFound =>
      have quiet : net.deed env arrival = none := by
        simp only [Network.deed, route]
      rw [Network.next, quiet]
      exact stores

theorem network_start : Stores ⟨Database.empty, 0⟩ Network.empty :=
  ⟨rfl, rfl, by simp [Network.empty], rfl, rfl, rfl, rfl⟩

theorem stores_run (env : Env) (arrivals : List Arrival) :
    Stores (run (handleNext env) ⟨Database.empty, 0⟩ arrivals) (run (fun net => net.next env) Network.empty arrivals) := by
  have together : ∀ (arrivals : List Arrival) (world : World) (net : Network), Stores world net →
      Stores (run (handleNext env) world arrivals) (run (fun net => net.next env) net arrivals) := by
    intro arrivals
    induction arrivals with
    | nil => exact fun world net stores => stores
    | cons arrival rest ih => exact fun world net stores => ih _ _ (handle_stores env world net stores arrival)
  exact together arrivals _ _ network_start

end Facebooc
