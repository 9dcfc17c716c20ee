import Facebooc.RelationRuns
import Facebooc.SessionRuns

set_option autoImplicit false

namespace Facebooc

open CMemory Ranking LeftJoin Runs

def HasAccount (db : Database) (id : Int) : Prop := ∃ row ∈ db.accounts, row.id = id

structure Refers (db : Database) : Prop where
  sessions : ∀ row ∈ db.sessions, HasAccount db row.account
  posts : ∀ row ∈ db.posts, HasAccount db row.author
  likes : ∀ row ∈ db.likes, HasAccount db row.account ∧ HasAccount db row.author ∧ ∃ post ∈ db.posts, post.id = row.post
  authors : ∀ row ∈ db.likes, ∀ post ∈ db.posts, post.id = row.post → post.author = row.author
  connections : ∀ row ∈ db.connections, HasAccount db row.account1 ∧ HasAccount db row.account2

-- Whatever posts SQLite may return for whichever dashboard, the account that
-- concat_posts asks for each of them is there.
def AuthorsFound (db : Database) : Prop :=
  ∀ me page posts, PostGetLatestGraph db me page (some posts) → ∀ post ∈ posts,
    ∃ account, accountGetById db post.authorId = .ok (some account) ∧ account.id = post.authorId

-- An author has been logged in, so his row can be decoded too.
structure Linked (db : Database) : Prop where
  sound : AccountsSound db
  positive : ∀ row ∈ db.accounts, 0 < row.id
  postIds : (db.posts.map PostRow.id).Nodup
  posts : ∀ row ∈ db.posts, Readable db row.author
  likes : ∀ row ∈ db.likes, HasAccount db row.account ∧ ∃ post ∈ db.posts, post.id = row.post ∧ post.author = row.author
  connections : ∀ row ∈ db.connections, HasAccount db row.account1 ∧ HasAccount db row.account2

theorem next_rowid_positive (ids : List Int) : 0 < nextRowid ids := by
  have bounded : ∀ (ids : List Int) (low : Int), low ≤ ids.foldl max low := by
    intro ids
    induction ids with
    | nil => exact fun low => Int.le_refl low
    | cons id rest ih => exact fun low => Int.le_trans (Int.le_max_left low id) (ih (max low id))
  have least := bounded ids 0
  rw [nextRowid]
  omega

theorem readable_has (db : Database) (a : Int) (readable : Readable db a) : HasAccount db a := by
  obtain ⟨row, member, id, _⟩ := readable
  exact ⟨row, member, id⟩

theorem readable_more (db after : Database) (a : Int) (kept : ∀ row ∈ db.accounts, row ∈ after.accounts)
    (readable : Readable db a) : Readable after a := by
  obtain ⟨row, member, rest⟩ := readable
  exact ⟨row, kept row member, rest⟩

theorem has_account_more (db after : Database) (a : Int) (kept : ∀ row ∈ db.accounts, row ∈ after.accounts)
    (has : HasAccount db a) : HasAccount after a := by
  obtain ⟨row, member, id⟩ := has
  exact ⟨row, kept row member, id⟩

theorem account_of_row_id (row : AccountRow) (account : Account) (read : accountOfRow row = .ok account) :
    account.id = row.id := by
  rw [accountOfRow, newAccountFromDb] at read
  obtain ⟨name, _, read⟩ := (except_bind_ok _ _ _).mp read
  obtain ⟨email, _, read⟩ := (except_bind_ok _ _ _).mp read
  obtain ⟨username, _, read⟩ := (except_bind_ok _ _ _).mp read
  cases read
  rfl

theorem account_select_has (db : Database) (condition : AccountRow → Bool) (account : Account)
    (selected : accountSelect db condition = .ok (some account)) : HasAccount db account.id := by
  rw [accountSelect] at selected
  cases found : db.accounts.find? condition with
  | none => rw [found] at selected; cases selected
  | some row =>
      rw [found] at selected
      obtain ⟨read, decoded, same⟩ := (except_bind_ok _ _ _).mp selected
      cases same
      exact ⟨row, List.mem_of_find?_eq_some found, (account_of_row_id row account decoded).symm⟩

theorem account_get_by_id_has (db : Database) (id : Int) (account : Account)
    (got : accountGetById db id = .ok (some account)) : HasAccount db account.id := by
  rw [accountGetById] at got
  split at got
  · cases got
  · exact account_select_has db _ account got

theorem client_readable (db : Database) (cookies : Option (List Cookie)) (me : Account) (sound : AccountsSound db)
    (client : getAccount db cookies = .ok (some me)) : Readable db me.id := by
  cases cookies with
  | none => cases client
  | some cookies =>
      cases found : cookiesGet (some cookies) (ascii "sid") with
      | none =>
          rw [getAccount, found] at client
          cases client
      | some cookie =>
          have carried : Carries (some cookies) cookie.value := by rw [Carries, found]; rfl
          exact ((authenticated_iff db cookies cookie.value me.id sound carried).mp ⟨me, client, rfl⟩).2

theorem post_get_by_id_row (db : Database) (id : Int) (post : Post) (got : postGetById db id = some post) :
    ∃ row ∈ db.posts, row.id = post.id ∧ row.author = post.authorId := by
  rw [postGetById] at got
  split at got
  · cases got
  · obtain ⟨row, found, same⟩ := Option.map_eq_some_iff.mp got
    rw [← same]
    exact ⟨row, List.mem_of_find?_eq_some found, rfl, rfl⟩

theorem linked_empty : Linked Database.empty where
  sound := accounts_sound_empty
  positive := by simp [Database.empty]
  postIds := List.nodup_nil
  posts := by simp [Database.empty]
  likes := by simp [Database.empty]
  connections := by simp [Database.empty]

theorem linked_step (env : Env) (world after : World) (arrival : Arrival) (wrote : Wrote env world arrival after)
    (linked : Linked world.db) : Linked after.db := by
  have sound := accounts_sound_step env world after arrival wrote linked.sound
  cases wrote with
  | account route method stranger valid free =>
      have kept : ∀ row ∈ world.db.accounts,
          row ∈ world.db.accounts ++ [formRow env world.db arrival.now (signupForm arrival.req)] := by
        intro row member
        exact List.mem_append_left _ member
      refine ⟨sound, ?_, linked.postIds, ?_, ?_, ?_⟩
      · exact (forall_mem_snoc ..).mpr ⟨linked.positive, next_rowid_positive _⟩
      · intro row member
        exact readable_more world.db _ _ kept (linked.posts row member)
      · intro row member
        obtain ⟨has, post⟩ := linked.likes row member
        exact ⟨has_account_more world.db _ _ kept has, post⟩
      · intro row member
        obtain ⟨first, second⟩ := linked.connections row member
        exact ⟨has_account_more world.db _ _ kept first, has_account_more world.db _ _ kept second⟩
  | connection me other route client found =>
      obtain ⟨id, got⟩ := found
      have first := readable_has _ _ (client_readable world.db _ me linked.sound client)
      have second := account_get_by_id_has world.db id other got
      refine ⟨sound, linked.positive, linked.postIds, linked.posts, linked.likes, ?_⟩
      exact (forall_mem_snoc ..).mpr ⟨linked.connections, first, second⟩
  | post me route client size =>
      -- Only an account that can be decoded is logged in.
      have author := client_readable world.db _ me linked.sound client
      refine ⟨sound, linked.positive, ?_, ?_, ?_, linked.connections⟩
      · rw [postCreateMove, nodup_map_snoc]
        exact ⟨next_rowid_fresh _, linked.postIds⟩
      · exact (forall_mem_snoc ..).mpr ⟨linked.posts, author⟩
      · intro row member
        obtain ⟨has, post, stored, same⟩ := linked.likes row member
        exact ⟨has, post, List.mem_append_left _ stored, same⟩
  | like me post route client found =>
      obtain ⟨id, got⟩ := found
      have account := readable_has _ _ (client_readable world.db _ me linked.sound client)
      have stored := post_get_by_id_row world.db id post got
      refine ⟨sound, linked.positive, linked.postIds, linked.posts, ?_, linked.connections⟩
      exact (forall_mem_snoc ..).mpr ⟨linked.likes, account, stored⟩
  | unlike me post route client found =>
      refine ⟨sound, linked.positive, linked.postIds, linked.posts, ?_, linked.connections⟩
      intro row member
      exact linked.likes row (List.mem_of_mem_filter member)
  | nothing | session => exact ⟨sound, linked.positive, linked.postIds, linked.posts, linked.likes, linked.connections⟩

theorem linked_run (env : Env) (arrivals : List Arrival) :
    Linked (run (handleNext env) ⟨Database.empty, 0⟩ arrivals).db := by
  refine history_invariant (handleNext env) (fun _ _ => True) (fun _ world => Linked world.db) _ linked_empty ?_ arrivals
    (along_true _ _ _)
  intro past world arrival linked _
  exact linked_step env world _ arrival (handle_wrote env world arrival) linked

theorem linked_refers (db : Database) (linked : Linked db) : Refers db where
  sessions := linked.sound.owners
  posts := fun row member => readable_has db _ (linked.posts row member)
  likes := by
    intro row member
    obtain ⟨account, post, stored, id, author⟩ := linked.likes row member
    rw [← author]
    exact ⟨account, readable_has db _ (linked.posts post stored), post, stored, id⟩
  authors := by
    intro row member other stored same
    obtain ⟨_, post, known, id, author⟩ := linked.likes row member
    rw [← author, List.inj_on_of_nodup_map linked.postIds stored known (same.trans id.symm)]
  connections := linked.connections

theorem linked_authors (db : Database) (linked : Linked db) : AuthorsFound db := by
  intro me page posts listed post member
  rw [PostGetLatestGraph] at listed
  split at listed
  · cases listed
  · obtain ⟨list, same, order, ranked, cut⟩ := listed
    cases same
    rw [cut] at member
    obtain ⟨row, inside, same⟩ := List.mem_map.mp member
    have joined := ranked.perm.mem_iff.mp (List.mem_of_mem_drop (List.mem_of_mem_take inside))
    have readable := linked.posts row ((mem_select _ _ _ _ row).mp joined).1
    obtain ⟨owner, stored, id⟩ := readable_has db row.author readable
    have positive := linked.positive owner stored
    rw [← same]
    change ∃ account : Account, accountGetById db row.author = _ ∧ account.id = row.author
    rw [accountGetById, if_neg (by omega)]
    exact (account_select_id db row.author linked.sound).mpr readable

-- Any requests of any clients, from the empty tables on.
theorem references_hold (env : Env) (arrivals : List Arrival) :
    Refers (run (handleNext env) ⟨Database.empty, 0⟩ arrivals).db ∧
      AuthorsFound (run (handleNext env) ⟨Database.empty, 0⟩ arrivals).db :=
  ⟨linked_refers _ (linked_run env arrivals), linked_authors _ (linked_run env arrivals)⟩

end Facebooc
