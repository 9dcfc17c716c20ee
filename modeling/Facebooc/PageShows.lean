import Facebooc.Server
import Facebooc.TemplateHoles

set_option autoImplicit false

namespace Facebooc

open CMemory LeftJoin Ranking

section

variable (ok : Source → List UInt8 → Prop)

structure KnownAccount (account : Account) : Prop where
  name : ok .name account.name.data
  nameSize : account.name.size = account.name.data.length
  email : ok .email account.email.data
  emailSize : account.email.size = account.email.data.length

structure KnownPost (post : Post) : Prop where
  body : ok .body post.body.data
  size : post.body.size = post.body.data.length

structure Known (db : Database) : Prop where
  accounts : ∀ row ∈ db.accounts, ∀ account, accountOfRow row = .ok account → KnownAccount ok account
  posts : ∀ row ∈ db.posts, KnownPost ok (postOfRow row)

theorem account_select_known (db : Database) (condition : AccountRow → Bool) (account : Account) (known : Known ok db)
    (run : accountSelect db condition = .ok (some account)) : KnownAccount ok account := by
  rw [accountSelect] at run
  cases found : db.accounts.find? condition with
  | none => rw [found] at run; cases run
  | some row =>
      rw [found] at run
      obtain ⟨read, decoded, same⟩ := (except_bind_ok _ _ _).mp run
      cases same
      exact known.accounts row (List.mem_of_find?_eq_some found) account decoded

theorem account_get_by_id_known (db : Database) (id : Int) (account : Account) (known : Known ok db)
    (run : accountGetById db id = .ok (some account)) : KnownAccount ok account := by
  rw [accountGetById] at run
  split at run
  · cases run
  · exact account_select_known ok db _ account known run

theorem get_account_known (db : Database) (cookies : Option (List Cookie)) (account : Account) (known : Known ok db)
    (run : getAccount db cookies = .ok (some account)) : KnownAccount ok account := by
  cases cookies with
  | none => cases run
  | some cookies =>
      rw [getAccount] at run
      cases found : cookiesGet (some cookies) (ascii "sid") with
      | none => rw [found] at run; cases run
      | some cookie =>
          simp only [found, accountGetBySId] at run
          cases opened : sessionGetBySId db cookie.value with
          | none => rw [opened] at run; cases run
          | some session =>
              rw [opened] at run
              exact account_select_known ok db _ account known run

theorem accounts_of_rows_known (db : Database) (rows : List AccountRow) (accounts : List Account) (known : Known ok db)
    (inside : ∀ row ∈ rows, row ∈ db.accounts) (run : accountsOfRows rows = .ok accounts) :
    ∀ account ∈ accounts, KnownAccount ok account := by
  induction rows generalizing accounts with
  | nil =>
      cases run
      simp
  | cons row rows ih =>
      obtain ⟨first, decoded, run⟩ := (except_bind_ok _ _ _).mp run
      obtain ⟨rest, later, same⟩ := (except_bind_ok _ _ _).mp run
      cases same
      intro account member
      rcases List.mem_cons.mp member with rfl | inRest
      · exact known.accounts row (inside row List.mem_cons_self) account decoded
      · exact ih rest (fun row inRows => inside row (List.mem_cons_of_mem _ inRows)) later account inRest

theorem account_search_known (db : Database) (query : BasicString) (page : Int) (accounts : List Account)
    (known : Known ok db) (run : accountSearch db query page = .ok accounts) :
    ∀ account ∈ accounts, KnownAccount ok account := by
  refine accounts_of_rows_known ok db _ accounts known (fun row member => ?_) run
  have ranked := List.mem_of_mem_drop (List.mem_of_mem_take member)
  exact List.mem_of_mem_filter ((rank_ranked AccountRow.createdAt _).perm.mem_iff.mp ranked)

theorem latest_page_known (db : Database) (rows : List PostRow) (page : Int) (known : Known ok db)
    (inside : ∀ row ∈ rows, row ∈ db.posts) : ∀ post ∈ latestPage rows page, KnownPost ok post := by
  intro post member
  obtain ⟨row, inRows, rfl⟩ := List.mem_map.mp member
  have ranked := List.mem_of_mem_drop (List.mem_of_mem_take inRows)
  exact known.posts row (inside row ((rank_ranked PostRow.createdAt rows).perm.mem_iff.mp ranked))

theorem post_get_latest_known (db : Database) (id page : Int) (posts : List Post) (known : Known ok db)
    (listed : postGetLatest db id page = some posts) : ∀ post ∈ posts, KnownPost ok post := by
  rw [postGetLatest] at listed
  split at listed
  · cases listed
  · cases listed
    exact latest_page_known ok db _ page known fun row member => List.mem_of_mem_filter member

theorem post_get_latest_graph_known (db : Database) (id page : Int) (posts : List Post) (known : Known ok db)
    (listed : postGetLatestGraph db id page = some posts) : ∀ post ∈ posts, KnownPost ok post := by
  rw [postGetLatestGraph] at listed
  split at listed
  · cases listed
  · cases listed
    exact latest_page_known ok db _ page known fun row member => ((mem_select _ _ _ _ _).mp member).1

theorem like_button_shows (id : Int) (out : Page) (run : likeButton id = .ok out) : Shows ok out := by
  refine snprintf_shows ok 128 52 [] _ out (fun source bytes member => by cases member) ?_ (Nat.zero_le _) run
  exact (shows_append _ _ _).mpr ⟨(shows_append _ _ _).mpr ⟨literal_unlabelled _, markup_unlabelled _⟩, literal_unlabelled _⟩

theorem unlike_button_shows (id : Int) (out : Page) (run : unlikeButton id = .ok out) : Shows ok out := by
  refine snprintf_shows ok 128 55 [] _ out (fun source bytes member => by cases member) ?_ (Nat.zero_le _) run
  exact (shows_append _ _ _).mpr ⟨(shows_append _ _ _).mpr ⟨literal_unlabelled _, markup_unlabelled _⟩, literal_unlabelled _⟩

theorem dashboard_button_shows (liked : Bool) (id : Int) (out : Page) (run : dashboardButton liked id = .ok out) :
    Shows ok out := by
  cases liked with
  | true => exact unlike_button_shows ok id out run
  | false => exact like_button_shows ok id out run

theorem profile_button_shows (liked : Bool) (id : Int) (out : Page) (run : profileButton liked id = .ok out) :
    Shows ok out := by
  cases liked with
  | true =>
      cases run
      exact unlabelled_shows ok _ (literal_unlabelled _)
  | false => exact like_button_shows ok id out run

theorem append_each_shows {α : Type} (append : Page → α → Except Fault Page) (items : List α) (ctx out : Page)
    (shows : Shows ok ctx) (each : ∀ ctx item out, item ∈ items → Shows ok ctx → append ctx item = .ok out → Shows ok out)
    (run : appendEach append ctx items = .ok out) : Shows ok out := by
  induction items generalizing ctx with
  | nil =>
      cases run
      exact shows
  | cons item items ih =>
      obtain ⟨next, appended, rest⟩ := (except_bind_ok _ _ _).mp run
      exact ih next (each ctx item next List.mem_cons_self shows appended)
        (fun ctx item out member => each ctx item out (List.mem_cons_of_mem _ member)) rest

variable (clean : ∀ source bytes, ok source bytes → 0 ∉ bytes)

include clean

theorem shown_ok (source : Source) (text : List UInt8) (good : ok source text) : Shows ok [shown source text] := by
  rw [shown, cstr_clean text (clean source text good)]
  exact (shows_user ok source text).mpr good

theorem shown_length (source : Source) (text : List UInt8) (good : ok source text) :
    (pageBytes [shown source text]).length = text.length := by
  rw [shown, cstr_clean text (clean source text good), page_bytes_cons, List.length_append]
  rfl

theorem dashboard_entry_shows (authorName body : BasicString) (out : Page) (nameOk : ok .name authorName.data)
    (nameSize : authorName.size = authorName.data.length) (bodyOk : ok .body body.data)
    (bodySize : body.size = body.data.length) (run : dashboardEntry authorName body = .ok out) : Shows ok out := by
  refine snprintf_shows ok _ _ _ _ out ?_ (literal_unlabelled _) ?_ run
  · simp only [shows_append]
    exact ⟨⟨⟨unlabelled_shows ok _ (literal_unlabelled _), shown_ok ok clean _ _ nameOk⟩,
      unlabelled_shows ok _ (literal_unlabelled _)⟩, shown_ok ok clean _ _ bodyOk⟩
  · simp only [page_bytes_append, List.length_append, shown_length ok clean _ _ nameOk, shown_length ok clean _ _ bodyOk]
    have first : (pageBytes (literal "<li class=\"post-item\"><div class=\"post-author\">")).length = 47 := by decide +kernel
    have second : (pageBytes (literal "</div><div class=\"post-content\">")).length = 32 := by decide +kernel
    omega

theorem post_item_shows (ctx entry button time : Page) (ctxShows : Shows ok ctx) (entryShows : Shows ok entry)
    (buttonShows : Shows ok button) (timeUnlabelled : Unlabelled time) :
    Shows ok (basicStringAppendRaw (basicStringAppendRaw (basicStringAppendRaw (basicStringAppendRaw ctx entry) button)
      time) (literal "</li>")) := by
  have entered := shows_append_raw ok ctx entry clean ctxShows entryShows
  have buttoned := shows_append_raw ok _ button clean entered buttonShows
  have timed := shows_append_raw ok _ time clean buttoned (unlabelled_shows ok _ timeUnlabelled)
  exact shows_append_raw ok _ _ clean timed (unlabelled_shows ok _ (literal_unlabelled _))

theorem dashboard_post_shows (db : Database) (myAcc : Account) (p : Post) (ctx out : Page) (known : Known ok db)
    (post : KnownPost ok p) (shows : Shows ok ctx) (run : dashboardPost db myAcc ctx p = .ok out) : Shows ok out := by
  obtain ⟨author, found, run⟩ := (except_bind_ok _ _ _).mp run
  cases author with
  | none => cases run
  | some author =>
      have authorKnown := account_get_by_id_known ok db _ author known found
      obtain ⟨entry, entered, run⟩ := (except_bind_ok _ _ _).mp run
      obtain ⟨button, pressed, run⟩ := (except_bind_ok _ _ _).mp run
      cases run
      exact post_item_shows ok clean ctx entry button _ shows
        (dashboard_entry_shows ok clean _ _ entry authorKnown.name authorKnown.nameSize post.body post.size entered)
        (dashboard_button_shows ok _ _ button pressed) (markup_unlabelled _)

-- A list of items between its opening and closing tags.
theorem list_shows {α : Type} (append : Page → α → Except Fault Page) (items : List α) (opened closed : String) (inner : Page)
    (each : ∀ ctx item out, item ∈ items → Shows ok ctx → append ctx item = .ok out → Shows ok out)
    (run : appendEach append (literal opened) items = .ok inner) :
    Shows ok (basicStringAppendRaw inner (literal closed)) := by
  have front := unlabelled_shows ok _ (literal_unlabelled opened)
  have back := unlabelled_shows ok _ (literal_unlabelled closed)
  have filled := append_each_shows ok append items (literal opened) inner front each run
  exact shows_append_raw ok inner (literal closed) clean filled back

theorem concat_posts_shows (db : Database) (posts : Option (List Post)) (myAcc : Account) (ctx : Page) (known : Known ok db)
    (knownPosts : ∀ list, posts = some list → ∀ post ∈ list, KnownPost ok post)
    (run : concatPosts db posts myAcc = .ok (some ctx)) : Shows ok ctx := by
  match posts, knownPosts, run with
  | some (post :: rest), knownPosts, run =>
      obtain ⟨inner, appended, same⟩ := (except_bind_ok _ _ _).mp run
      cases same
      refine list_shows ok clean _ _ _ _ inner ?_ appended
      intro ctx p out member shows item
      exact dashboard_post_shows ok clean db myAcc p ctx out known (knownPosts _ rfl p member) shows item

theorem render_shows (env : Env) (status : Status) (filename : List UInt8) (pairs : List (String × Page)) (page : Page)
    (template : Template) (response : Response) (few : pairs.length ≤ 2 ^ 59)
    (set : templateSetAll (templateNew filename) pairs = .ok template) (shows : ∀ pair ∈ pairs, Shows ok pair.2)
    (run : renderResponse env status template = .ok (some response)) (body : response.body = some page) : Shows ok page := by
  obtain ⟨next, same, filled⟩ := template_new_filled pairs filename few
  cases same.symm.trans set
  obtain ⟨rendered, templated, answer⟩ := (except_bind_ok _ _ _).mp run
  cases answer
  cases body
  exact template_render_shows env.files env.depth filename template pairs page ok clean filled shows templated

theorem dashboard_shows (env : Env) (db : Database) (req : Request) (response : Response) (page : Page)
    (known : Known ok db) (run : dashboard env db req = .ok (some response)) (body : response.body = some page) :
    Shows ok page := by
  obtain ⟨account, client, run⟩ := (except_bind_ok _ _ _).mp run
  cases account with
  | none => cases run
  | some me =>
      have meKnown := get_account_known ok db _ me known client
      obtain ⟨ctx, listed, run⟩ := (except_bind_ok _ _ _).mp run
      obtain ⟨template, set, run⟩ := (except_bind_ok _ _ _).mp run
      refine render_shows ok clean env .OK _ _ page template response (by simp) set ?_ run body
      simp only [List.forall_mem_cons, List.not_mem_nil, false_implies, implies_true, and_true, shows_user]
      refine ⟨?_, unlabelled_shows ok _ (literal_unlabelled _), unlabelled_shows ok _ (literal_unlabelled _),
        unlabelled_shows ok _ (literal_unlabelled _), meKnown.name⟩
      cases ctx with
      | none => exact unlabelled_shows ok _ (literal_unlabelled _)
      | some ctx =>
          exact concat_posts_shows ok clean db _ me ctx known
            (fun list same => post_get_latest_graph_known ok db _ _ list known same) listed

theorem profile_connect_shows (connected : Bool) (acc2 : Account) (out : Page) (known : KnownAccount ok acc2)
    (run : profileConnect connected acc2 = .ok out) : Shows ok out := by
  have front : Shows ok (literal "You and " ++ [shown .name acc2.name.data]) :=
    (shows_append ok _ _).mpr ⟨unlabelled_shows ok _ (literal_unlabelled _), shown_ok ok clean _ _ known.name⟩
  have length : (pageBytes (literal "You and " ++ [shown .name acc2.name.data])).length = 8 + acc2.name.size := by
    rw [page_bytes_append, List.length_append, shown_length ok clean _ _ known.name, known.nameSize]
    rfl
  rw [profileConnect] at run
  split at run
  · exact snprintf_shows ok _ _ _ _ out front (literal_unlabelled _) (by omega) run
  · rw [List.append_assoc, List.append_assoc] at run
    refine snprintf_shows ok _ _ _ _ out front ?_ (by omega) run
    exact (shows_append _ _ _).mpr ⟨literal_unlabelled _, (shows_append _ _ _).mpr ⟨markup_unlabelled _, literal_unlabelled _⟩⟩

theorem profile_entry_shows (body : BasicString) (out : Page) (bodyOk : ok .body body.data)
    (bodySize : body.size = body.data.length) (run : profileEntry body = .ok out) : Shows ok out := by
  refine snprintf_shows ok _ _ _ _ out ?_ (literal_unlabelled _) ?_ run
  · exact (shows_append ok _ _).mpr ⟨unlabelled_shows ok _ (literal_unlabelled _), shown_ok ok clean _ _ bodyOk⟩
  · rw [page_bytes_append, List.length_append, shown_length ok clean _ _ bodyOk]
    have first : (pageBytes (literal "<li class=\"post-item\"><div class=\"post-author\">")).length = 47 := by decide +kernel
    omega

theorem profile_post_shows (db : Database) (myAcc : Account) (p : Post) (ctx out : Page) (post : KnownPost ok p)
    (shows : Shows ok ctx) (run : profilePost db myAcc ctx p = .ok out) : Shows ok out := by
  obtain ⟨entry, entered, run⟩ := (except_bind_ok _ _ _).mp run
  obtain ⟨button, pressed, run⟩ := (except_bind_ok _ _ _).mp run
  cases run
  exact post_item_shows ok clean ctx entry button _ shows (profile_entry_shows ok clean _ entry post.body post.size entered)
    (profile_button_shows ok _ _ button pressed) (markup_unlabelled _)

theorem profile_posts_shows (db : Database) (posts : Option (List Post)) (myAcc : Account) (ctx : Page)
    (knownPosts : ∀ list, posts = some list → ∀ post ∈ list, KnownPost ok post)
    (run : profilePosts db posts myAcc = .ok ctx) : Shows ok ctx := by
  match posts, knownPosts, run with
  | some [], _, run =>
      cases run
      exact unlabelled_shows ok _ (literal_unlabelled _)
  | some (post :: rest), knownPosts, run =>
      obtain ⟨inner, appended, same⟩ := (except_bind_ok _ _ _).mp run
      cases same
      refine list_shows ok clean _ _ _ _ inner ?_ appended
      intro ctx p out member shows item
      exact profile_post_shows ok clean db myAcc p ctx out (knownPosts _ rfl p member) shows item

theorem profile_page_shows (env : Env) (db : Database) (me acc2 : Account) (response : Response) (page : Page)
    (known : Known ok db) (meKnown : KnownAccount ok me) (otherKnown : KnownAccount ok acc2)
    (run : profilePage env db me acc2 = .ok (some response)) (body : response.body = some page) : Shows ok page := by
  obtain ⟨idStr, printed, run⟩ := (except_bind_ok _ _ _).mp run
  obtain ⟨connectStr, connected, run⟩ := (except_bind_ok _ _ _).mp run
  obtain ⟨posts, listed, run⟩ := (except_bind_ok _ _ _).mp run
  obtain ⟨template, set, run⟩ := (except_bind_ok _ _ _).mp run
  refine render_shows ok clean env .OK _ _ page template response (by simp) set ?_ run body
  simp only [List.forall_mem_cons, List.not_mem_nil, false_implies, implies_true, and_true, shows_user]
  refine ⟨?_, unlabelled_shows ok _ (literal_unlabelled _), unlabelled_shows ok _ (literal_unlabelled _), otherKnown.name, ?_,
    otherKnown.name, otherKnown.email, profile_connect_shows ok clean _ acc2 connectStr otherKnown connected, meKnown.name⟩
  · exact profile_posts_shows ok clean db _ me posts
      (fun list same => post_get_latest_known ok db _ _ list known same) listed
  · exact snprintf_shows ok 11 10 [] _ idStr (fun source bytes member => by cases member) (markup_unlabelled _)
      (Nat.zero_le _) printed

theorem profile_shows (env : Env) (db : Database) (req : Request) (response : Response) (page : Page) (known : Known ok db)
    (run : profile env db req = .ok (some response)) (body : response.body = some page) : Shows ok page := by
  obtain ⟨account, client, run⟩ := (except_bind_ok _ _ _).mp run
  cases account with
  | none => cases run
  | some me =>
      obtain ⟨id, _, run⟩ := (except_bind_ok _ _ _).mp run
      obtain ⟨other, found, run⟩ := (except_bind_ok _ _ _).mp run
      cases other with
      | none => cases run
      | some acc2 =>
          simp only at run
          split at run
          · cases run
            cases body
          · exact profile_page_shows ok clean env db me acc2 response page known (get_account_known ok db _ me known client)
              (account_get_by_id_known ok db _ acc2 known found) run body

theorem search_result_shows (a : Account) (ctx out : Page) (known : KnownAccount ok a) (shows : Shows ok ctx)
    (run : searchResult ctx a = .ok out) : Shows ok out := by
  obtain ⟨sbuff, printed, same⟩ := (except_bind_ok _ _ _).mp run
  cases same
  refine shows_append_raw ok ctx sbuff clean shows (snprintf_shows ok _ _ _ _ sbuff ?_ (literal_unlabelled _) ?_ printed)
  · simp only [shows_append]
    exact ⟨⟨⟨⟨⟨unlabelled_shows ok _ (literal_unlabelled _), unlabelled_shows ok _ (markup_unlabelled _)⟩,
      unlabelled_shows ok _ (literal_unlabelled _)⟩, shown_ok ok clean _ _ known.name⟩,
      unlabelled_shows ok _ (literal_unlabelled _)⟩, shown_ok ok clean _ _ known.email⟩
  · simp only [page_bytes_append, List.length_append, shown_length ok clean _ _ known.name,
      shown_length ok clean _ _ known.email, ← known.nameSize, ← known.emailSize]
    have first : (pageBytes (literal "<li><a href=\"/profile/")).length = 22 := by decide +kernel
    have second : (pageBytes (literal "/\">")).length = 3 := by decide +kernel
    have third : (pageBytes (literal "</a> (<span>")).length = 12 := by decide +kernel
    have id : (pageBytes [.markup (decimal a.id)]).length ≤ 11 := by
      rw [page_bytes_cons, List.length_append]
      exact decimal_length a.id
    omega

theorem search_shows (env : Env) (db : Database) (req : Request) (response : Response) (page : Page) (known : Known ok db)
    (query : (∃ me, getAccount db req.cookies = .ok (some me)) →
      ok .query (basicStringInit (queryGet req.queryString (ascii "q"))).data)
    (run : search env db req = .ok (some response)) (body : response.body = some page) : Shows ok page := by
  obtain ⟨account, client, run⟩ := (except_bind_ok _ _ _).mp run
  cases account with
  | none =>
      cases run
      cases body
  | some me =>
      simp only at run
      split at run
      · cases run
      · obtain ⟨accounts, found, run⟩ := (except_bind_ok _ _ _).mp run
        obtain ⟨results, listed, run⟩ := (except_bind_ok _ _ _).mp run
        obtain ⟨template, set, run⟩ := (except_bind_ok _ _ _).mp run
        refine render_shows ok clean env .OK _ _ page template response (by simp) set ?_ run body
        simp only [List.forall_mem_cons, List.not_mem_nil, false_implies, implies_true, and_true, shows_user]
        refine ⟨?_, query ⟨me, client⟩, unlabelled_shows ok _ (literal_unlabelled _),
          unlabelled_shows ok _ (literal_unlabelled _), unlabelled_shows ok _ (literal_unlabelled _)⟩
        match accounts, found, listed with
        | [], _, listed =>
            cases listed
            exact unlabelled_shows ok _ (literal_unlabelled _)
        | account :: rest, found, listed =>
            obtain ⟨inner, appended, same⟩ := (except_bind_ok _ _ _).mp listed
            cases same
            refine list_shows ok clean _ _ _ _ inner ?_ appended
            intro ctx a out member shows item
            exact search_result_shows ok clean a ctx out (account_search_known ok db _ _ _ known found a member) shows item

theorem not_found_shows (env : Env) (db : Database) (req : Request) (response : Response) (page : Page)
    (run : notFound env db req = .ok (some response)) (body : response.body = some page) : Shows ok page := by
  obtain ⟨account, _, run⟩ := (except_bind_ok _ _ _).mp run
  obtain ⟨template, set, run⟩ := (except_bind_ok _ _ _).mp run
  refine render_shows ok clean env .NOT_FOUND _ _ page template response (by simp) set ?_ run body
  simp only [List.forall_mem_cons, List.not_mem_nil, false_implies, implies_true, and_true]
  refine ⟨?_, unlabelled_shows ok _ (literal_unlabelled _)⟩
  split <;> exact unlabelled_shows ok _ (literal_unlabelled _)

end

end Facebooc
