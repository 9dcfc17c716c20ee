import Facebooc.DisplayForm
import Facebooc.LatestGraph
import Facebooc.NetworkTables
import Facebooc.SessionRuns

set_option autoImplicit false

namespace Facebooc

open CMemory NumberedRows Ranking Runs

def networkAfter (env : Env) (arrivals : List Arrival) : Network := run (fun net => net.next env) Network.empty arrivals

def tablesAfter (env : Env) (arrivals : List Arrival) : Database := (run (handleNext env) ⟨Database.empty, 0⟩ arrivals).db

-- A remark as it is read back.
def shownPost (p : Nat) (remark : Remark) : Post :=
  ⟨rowId p, remark.time, rowId remark.author, ⟨displayForm remark.text, (displayForm remark.text).length⟩⟩

def Spoken (net : Network) : Prop := ∀ remark ∈ net.remarks, 0 ∉ remark.text

-- A list of the latest posts that are for somebody.
structure Feed (net : Network) (sees : Remark → Prop) (posts : List Post) : Prop where
  seen : ∀ post ∈ posts, ∃ p remark, net.remarks[p]? = some remark ∧ sees remark ∧ post = shownPost p remark
  sorted : posts.Pairwise fun a b => b.createdAt ≤ a.createdAt
  newest : ∀ post ∈ posts, ∀ p remark, net.remarks[p]? = some remark → sees remark → post.createdAt < remark.time →
    shownPost p remark ∈ posts
  all : posts.length < 10 → ∀ p remark, net.remarks[p]? = some remark → sees remark → shownPost p remark ∈ posts

def Network.account (net : Network) (i : Nat) : Option Account := net.members[i]?.map (memberAccount i)

-- The accounts as they are found by number, by email and by session.
structure AccountReads (db : Database) (net : Network) : Prop where
  byId : ∀ id, accountGetById db id = .ok ((position id).bind net.account)
  byEmail : ∀ email, accountGetByEmail db email =
    .ok ((net.members.findIdx? fun member => member.email = email.data).bind net.account)
  bySid : ∀ sid, accountGetBySId db sid = .ok ((net.owner sid).bind net.account)

-- What the handlers find in the tables is what is in the network.
structure Reads (db : Database) (net : Network) : Prop where
  visitor : ∀ cookies, Visits net (getAccount db cookies) (net.visitor cookies)
  remark : ∀ id, postGetById db id = (position id).bind fun p => net.remarks[p]?.map (shownPost p)
  liked : ∀ i p, likeLiked db (rowId i) (rowId p) = true ↔ (i, p) ∈ net.likes
  followed : ∀ i j, (connectionGetByAccountIds db (rowId i) (rowId j)).isSome = true ↔ (i, j) ∈ net.follows
  profile : ∀ i posts, postGetLatest db (rowId i) 0 = some posts → Feed net (fun remark => remark.author = i) posts
  dashboard : ∀ i posts, PostGetLatestGraph db (rowId i) 0 (some posts) →
    Feed net (fun remark => remark.author = i ∨ (i, remark.author) ∈ net.follows) posts

theorem form_field_clean (req : Request) (key : String) : 0 ∉ (formField req key).data := by
  rw [formField]
  cases bodyGet req.postBody (ascii key) with
  | none => exact List.not_mem_nil
  | some text => exact (cstr_split text).1

theorem deed_speaks (env : Env) (net : Network) (arrival : Arrival) (remark : Remark) :
    net.deed env arrival = some (.speaks remark) ↔
      arrival.route = .post ∧ arrival.req.method = .POST ∧ net.visitor arrival.req.cookies = .member remark.author ∧
      ((formField arrival.req "post").size ≠ 0 ∧ (formField arrival.req "post").size < maxBodyLen) ∧
      remark.time = arrival.now ∧ remark.text = (formField arrival.req "post").data := by
  rw [Network.deed]
  constructor
  · intro deed
    split at deed
    · dsimp only at deed
      split at deed <;> cases deed
    · split at deed
      · obtain ⟨_, _, same⟩ := Option.map_eq_some_iff.mp deed
        cases same
      · cases deed
    · obtain ⟨_, _, same⟩ := Option.map_eq_some_iff.mp deed
      cases same
    · rename_i i route visitor
      dsimp only at deed
      split at deed
      · rename_i sent
        cases deed
        exact ⟨route, sent.1, visitor, sent.2, rfl, rfl⟩
      · cases deed
    · obtain ⟨_, _, same⟩ := Option.map_eq_some_iff.mp deed
      cases same
    · obtain ⟨_, _, same⟩ := Option.map_eq_some_iff.mp deed
      cases same
    · cases deed
  · rintro ⟨route, method, visitor, sizes, time, text⟩
    simp only [route, visitor]
    rw [if_pos ⟨method, sizes⟩, ← time, ← text]

theorem spoken_run (env : Env) (arrivals : List Arrival) : Spoken (networkAfter env arrivals) := by
  refine history_invariant (fun net => net.next env) (fun _ _ => True) (fun _ net => Spoken net) Network.empty
    (by simp [Spoken, Network.empty]) ?_ arrivals (along_true _ _ _)
  intro _ net arrival spoken _
  rw [Network.next]
  cases done : net.deed env arrival with
  | none => exact spoken
  | some deed =>
      cases deed with
      | speaks remark =>
          obtain ⟨_, _, _, _, _, text⟩ := (deed_speaks env net arrival remark).mp done
          exact (forall_mem_snoc _ _ _).mpr ⟨spoken, text ▸ form_field_clean arrival.req "post"⟩
      | joins | enters | follows | likes | unlikes => exact spoken

theorem shown_at (net : Network) (spoken : Spoken net) (p : Nat) (remark : Remark) (said : net.remarks[p]? = some remark) :
    postOfRow (remarkRow p remark) = shownPost p remark :=
  stored_body_shown _ _ _ remark.text (spoken remark (List.mem_of_getElem? said))

theorem feed_of_top (net : Network) (spoken : Spoken net) (sees : Remark → Prop) (rows out : List PostRow)
    (members : ∀ row, row ∈ rows ↔ ∃ p remark, net.remarks[p]? = some remark ∧ sees remark ∧ row = remarkRow p remark)
    (top : TopK PostRow.createdAt 10 rows out) : Feed net sees (out.map postOfRow) := by
  obtain ⟨order, ranked, rfl⟩ := top
  have inOrder : ∀ p remark, net.remarks[p]? = some remark → sees remark → remarkRow p remark ∈ order :=
    fun p remark said seen =>
    ranked.perm.mem_iff.mpr ((members _).mpr ⟨p, remark, said, seen, rfl⟩)
  have listed : ∀ p remark, net.remarks[p]? = some remark → remarkRow p remark ∈ order.take 10 →
      shownPost p remark ∈ (order.take 10).map postOfRow := fun p remark said member =>
    List.mem_map.mpr ⟨_, member, shown_at net spoken p remark said⟩
  refine ⟨fun post member => ?_, ?_, fun post member p remark said seen newer => ?_, fun short p remark said seen => ?_⟩
  · obtain ⟨row, inside, rfl⟩ := List.mem_map.mp member
    obtain ⟨p, remark, said, seen, rfl⟩ := (members row).mp (ranked.perm.mem_iff.mp (List.mem_of_mem_take inside))
    exact ⟨p, remark, said, seen, shown_at net spoken p remark said⟩
  · rw [List.pairwise_map]
    exact (ranked.sorted.sublist (List.take_sublist 10 order))
  · obtain ⟨row, inside, rfl⟩ := List.mem_map.mp member
    obtain ⟨i, here⟩ := List.mem_iff_getElem?.mp inside
    have bound : i < (order.take 10).length := (List.getElem?_eq_some_iff.mp here).1
    rw [List.length_take] at bound
    rw [List.getElem?_take_of_lt (by omega)] at here
    have front := newer_in_front PostRow.createdAt order i row _ ranked.sorted here (inOrder p remark said seen) newer
    exact listed p remark said (List.take_subset_take_left order (by omega) front)
  · rw [List.length_map, List.length_take] at short
    refine listed p remark said ?_
    rw [List.take_of_length_le (by omega)]
    exact inOrder p remark said seen

theorem mem_posts (world : World) (net : Network) (stores : Stores world net) (row : PostRow) :
    row ∈ world.db.posts ↔ ∃ p remark, net.remarks[p]? = some remark ∧ row = remarkRow p remark := by
  rw [stores.posts, List.mem_mapIdx]
  constructor
  · rintro ⟨p, inside, rfl⟩
    exact ⟨p, _, List.getElem?_eq_getElem inside, rfl⟩
  · rintro ⟨p, remark, said, rfl⟩
    obtain ⟨inside, same⟩ := List.getElem?_eq_some_iff.mp said
    exact ⟨p, inside, by rw [same]⟩

theorem mem_follows (world : World) (net : Network) (stores : Stores world net) (i j : Nat) :
    (rowId i, rowId j) ∈ world.db.connections.map connectionPair ↔ (i, j) ∈ net.follows := by
  rw [stores.connections]
  exact List.mem_map_of_injective (f := idPair) (a := (i, j)) fun a b => (id_pair_inj a b).mp

theorem profile_feed (world : World) (net : Network) (stores : Stores world net) (spoken : Spoken net) (i : Nat)
    (posts : List Post) (listed : postGetLatest world.db (rowId i) 0 = some posts) :
    Feed net (fun remark => remark.author = i) posts := by
  rw [postGetLatest] at listed
  split at listed
  · cases listed
  · cases listed
    refine feed_of_top net spoken _ _ _ (fun row => ?_) ⟨_, rank_ranked PostRow.createdAt _, rfl⟩
    rw [List.mem_filter, mem_posts world net stores, decide_eq_true_eq]
    constructor
    · rintro ⟨⟨p, remark, said, rfl⟩, author⟩
      exact ⟨p, remark, said, (row_id_inj _ _).mp author, rfl⟩
    · rintro ⟨p, remark, said, author, rfl⟩
      exact ⟨⟨p, remark, said, rfl⟩, (row_id_inj _ _).mpr author⟩

theorem dashboard_feed (world : World) (net : Network) (stores : Stores world net) (spoken : Spoken net) (i : Nat)
    (posts : List Post) (listed : PostGetLatestGraph world.db (rowId i) 0 (some posts)) :
    Feed net (fun remark => remark.author = i ∨ (i, remark.author) ∈ net.follows) posts := by
  have account : rowId i ≠ -1 := by
    rw [rowId]
    omega
  obtain ⟨out, top, rfl⟩ := (graph_first_page world.db (rowId i) posts account).mp listed
  refine feed_of_top net spoken _ _ _ (fun row => ?_) top
  have joined : ∀ remark : Remark,
      (world.db.connections.any fun row => row.account1 = rowId i ∧ row.account2 = rowId remark.author) = true ↔
        (i, remark.author) ∈ net.follows := by
    intro remark
    rw [← mem_follows world net stores, List.any_eq_true, List.mem_map]
    refine exists_congr fun row => and_congr_right fun _ => ?_
    rw [decide_eq_true_eq, connectionPair, Prod.mk.injEq]
  rw [mem_graph_rows, candidatePosts, List.mem_filter, mem_posts world net stores, decide_eq_true_eq]
  constructor
  · rintro ⟨⟨p, remark, said, rfl⟩, mine | followed⟩
    · exact ⟨p, remark, said, .inl ((row_id_inj _ _).mp mine), rfl⟩
    · exact ⟨p, remark, said, .inr ((joined remark).mp followed), rfl⟩
  · rintro ⟨p, remark, said, mine | followed, rfl⟩
    · exact ⟨⟨p, remark, said, rfl⟩, .inl ((row_id_inj _ _).mpr mine)⟩
    · exact ⟨⟨p, remark, said, rfl⟩, .inr ((joined remark).mpr followed)⟩

theorem stores_reads (world : World) (net : Network) (stores : Stores world net) (spoken : Spoken net) : Reads world.db net where
  visitor := get_account_visits world net stores
  remark := by
    intro id
    rw [find_remark world net stores]
    cases position id with
    | none => rfl
    | some p =>
        simp only [Option.bind_some]
        cases said : net.remarks[p]? with
        | none => rfl
        | some remark => rw [Option.map_some, Option.map_some, shown_at net spoken p remark said]
  liked := by
    intro i p
    have pair : (rowId i, rowId p) ∈ world.db.likes.map likePair ↔ (i, p) ∈ net.likes := by
      rw [stores.likes]
      exact List.mem_map_of_injective (f := idPair) (a := (i, p)) fun a b => (id_pair_inj a b).mp
    rw [← pair, likeLiked, List.any_eq_true, List.mem_map]
    refine exists_congr fun row => and_congr_right fun _ => ?_
    rw [decide_eq_true_eq, likePair, Prod.mk.injEq]
  followed := by
    intro i j
    have marker : ¬ (rowId i = -1 ∨ rowId j = -1) := by
      rw [rowId, rowId]
      omega
    rw [← mem_follows world net stores, connectionGetByAccountIds, if_neg marker, List.find?_isSome, List.mem_map]
    refine exists_congr fun row => and_congr_right fun _ => ?_
    rw [decide_eq_true_eq, connectionPair, Prod.mk.injEq]
  profile := profile_feed world net stores spoken
  dashboard := dashboard_feed world net stores spoken

theorem named_members_run (env : Env) (arrivals : List Arrival)
    (named : Along (handleNext env) NamedSignup ⟨Database.empty, 0⟩ arrivals) :
    ∀ member ∈ (networkAfter env arrivals).members, member.Named := by
  intro member inside
  obtain ⟨i, stored⟩ := List.mem_iff_getElem?.mp inside
  have row : memberRow i member ∈ (run (handleNext env) ⟨Database.empty, 0⟩ arrivals).db.accounts := by
    rw [(stores_run env arrivals).accounts]
    exact List.mem_iff_getElem?.mpr ⟨i, by rw [List.getElem?_mapIdx]; exact congrArg (Option.map (memberRow i)) stored⟩
  exact (encoded_given (memberRow i member) _ _ _ ⟨rfl, rfl, rfl⟩).mp (named_rows_run env arrivals named _ row)

theorem select_place (world : World) (net : Network) (named : ∀ member ∈ net.members, member.Named) (p : AccountRow → Bool)
    (place : Option Nat) (found : world.db.accounts.find? p = place.bind fun i => net.members[i]?.map (memberRow i)) :
    accountSelect world.db p = .ok (place.bind net.account) := by
  rw [accountSelect, found]
  cases place with
  | none => rfl
  | some i =>
      rw [Option.bind_some, Option.bind_some, Network.account]
      cases stored : net.members[i]? with
      | none => rfl
      | some member =>
          rw [Option.map_some, Option.map_some]
          simp only [member_row_read i member (named member (List.mem_of_getElem? stored)), bind, Except.bind]

theorem stores_account_reads (world : World) (net : Network) (stores : Stores world net)
    (named : ∀ member ∈ net.members, member.Named) : AccountReads world.db net where
  byId := by
    intro id
    rw [accountGetById]
    split
    · rename_i marker
      rw [marker, marker_position, Option.bind_none]
    · exact select_place world net named _ _ (find_account world net stores id)
  byEmail := by
    intro email
    refine select_place world net named _ _ ?_
    rw [stores.accounts]
    refine find_item memberRow _ _ (fun i member => ?_) net.members
    rw [decide_eq_decide]
    exact ⟨fun same => base64_encode_injective _ _ same, fun same => congrArg base64Encode same⟩
  bySid := by
    intro sid
    have session := owner_session world net stores sid
    rw [accountGetBySId]
    cases owned : net.owner sid with
    | none =>
        rw [owned, Option.map_none, Option.map_eq_none_iff] at session
        rw [session, Option.bind_none]
    | some i =>
        rw [owned, Option.map_some] at session
        obtain ⟨found, looked, account⟩ := Option.map_eq_some_iff.mp session
        simp only [looked, account]
        exact select_place world net named _ (some i) (find_member world net stores i)

end Facebooc
