import Facebooc.NetworkReads
import Facebooc.RouteIds
import Facebooc.Simulation

set_option autoImplicit false

namespace Facebooc

open CMemory Runs

-- A request that posts, and one that connects, after the requests before it.
structure PostSent (env : Env) (before : List Arrival) (arrival : Arrival) (author : Account) : Prop where
  route : arrival.route = .post
  method : arrival.req.method = .POST
  client : getAccount (tablesAfter env before) arrival.req.cookies = .ok (some author)
  sizes : (formField arrival.req "post").size ≠ 0 ∧ (formField arrival.req "post").size < maxBodyLen

def displayBody (text : List UInt8) : BasicString := ⟨displayForm text, (displayForm text).length⟩

def Network.spoken (env : Env) (net : Network) (arrival : Arrival) : Option Remark :=
  match net.deed env arrival with
  | some (.speaks remark) => some remark
  | _ => none

theorem spoken_iff (env : Env) (net : Network) (arrival : Arrival) (remark : Remark) :
    net.spoken env arrival = some remark ↔ net.deed env arrival = some (.speaks remark) := by
  rw [Network.spoken]
  constructor
  · intro spoken
    split at spoken
    · rename_i said deed
      cases spoken
      exact deed
    · cases spoken
  · intro deed
    rw [deed]

theorem remarks_step (env : Env) (net : Network) (arrival : Arrival) :
    (net.next env arrival).remarks = net.remarks ++ (net.spoken env arrival).toList := by
  rw [Network.next, Network.spoken]
  cases net.deed env arrival with
  | none => simp
  | some deed =>
      cases deed with
      | speaks remark => rfl
      | joins | enters | follows | likes | unlikes => simp [Network.after]

theorem visits_member (net : Network) (got : Except Fault (Option Account)) (i : Nat) (visits : Visits net got (.member i)) :
    ∃ account, got = .ok (some account) ∧ account.id = rowId i := by
  cases visits with
  | member _ member stored same => exact ⟨_, same, rfl⟩

theorem visits_account (net : Network) (got : Except Fault (Option Account)) (who : Visitor) (visits : Visits net got who)
    (account : Account) (client : got = .ok (some account)) : ∃ i, who = .member i ∧ account.id = rowId i := by
  cases visits with
  | nobody same => cases same.symm.trans client
  | broken fault same => cases same.symm.trans client
  | member i member stored same =>
      cases same.symm.trans client
      exact ⟨i, rfl, rfl⟩

theorem post_found_iff (db : Database) (net : Network) (reads : Reads db net) (id : Int) (post : Post) :
    postGetById db id = some post ↔
      ∃ p remark, net.remarks[p]? = some remark ∧ id = rowId p ∧ post = shownPost p remark := by
  rw [reads.remark, Option.bind_eq_some_iff]
  simp only [Option.map_eq_some_iff, position_row_id]
  constructor
  · rintro ⟨p, place, remark, said, rfl⟩
    exact ⟨p, remark, said, place, rfl⟩
  · rintro ⟨p, remark, said, place, rfl⟩
    exact ⟨p, place, remark, said, rfl⟩

-- What is read back under an id is the display form of what the one request
-- sent that got the id, whatever was requested after it.
theorem post_history (env : Env) (arrivals : List Arrival) (id : Int) (post : Post) :
    postGetById (tablesAfter env arrivals) id = some post ↔
      ∃ before arrival after author, arrivals = before ++ arrival :: after ∧ PostSent env before arrival author ∧
        id = (tablesAfter env before).posts.length + 1 ∧
        post = ⟨id, arrival.now, author.id, displayBody (formField arrival.req "post").data⟩ := by
  have readsAt : ∀ past, Reads (tablesAfter env past) (networkAfter env past) := fun past =>
    stores_reads _ _ (stores_run env past) (spoken_run env past)
  have count : ∀ past, (tablesAfter env past).posts.length = (networkAfter env past).remarks.length := by
    intro past
    rw [tablesAfter, (stores_run env past).posts, List.length_mapIdx, networkAfter]
  have said : ∀ p remark, (networkAfter env arrivals).remarks[p]? = some remark ↔
      ∃ before arrival after, arrivals = before ++ arrival :: after ∧
        (networkAfter env before).spoken env arrival = some remark ∧ (networkAfter env before).remarks.length = p :=
    entry_added (fun net => Network.next env net) Network.remarks (fun net => net.spoken env) (remarks_step env) Network.empty
      rfl arrivals
  rw [post_found_iff _ _ (readsAt arrivals)]
  simp only [said, spoken_iff, deed_speaks]
  constructor
  · rintro ⟨p, remark, ⟨before, arrival, after, split, ⟨route, method, visitor, sizes, time, text⟩, place⟩, rfl, rfl⟩
    obtain ⟨author, client, own⟩ := visits_member _ _ _ (visitor ▸ (readsAt before).visitor arrival.req.cookies)
    refine ⟨before, arrival, after, author, split, ⟨route, method, client, sizes⟩, ?_, ?_⟩
    · rw [count, place, rowId]
    · rw [shownPost, displayBody, time, text, own]
  · rintro ⟨before, arrival, after, author, split, posts, rfl, rfl⟩
    obtain ⟨i, visitor, own⟩ := visits_account _ _ _ ((readsAt before).visitor _) author posts.client
    refine ⟨(networkAfter env before).remarks.length, ⟨i, arrival.now, (formField arrival.req "post").data⟩,
      ⟨before, arrival, after, split, ⟨posts.route, posts.method, visitor, posts.sizes, rfl, rfl⟩, rfl⟩, ?_, ?_⟩
    · rw [count, rowId]
    · rw [shownPost, displayBody, own, count, rowId]
      rfl

-- The pair that a request connects.
def connectsPair (world : World) (arrival : Arrival) : Option (Int × Int) :=
  if arrival.route = .connect then
    match getAccount world.db arrival.req.cookies, (do accountGetById world.db (← getId arrival.req.uri)) with
    | .ok (some me), .ok (some other) => some (me.id, other.id)
    | _, _ => none
  else none

theorem connects_pair_iff (world : World) (arrival : Arrival) (a b : Int) :
    connectsPair world arrival = some (a, b) ↔
      ∃ me other, Connects world arrival me other ∧ me.id = a ∧ other.id = b := by
  rw [connectsPair]
  constructor
  · intro pair
    split at pair
    · rename_i route
      split at pair
      · rename_i me other client asked
        cases pair
        exact ⟨me, other, ⟨route, client, asked⟩, rfl, rfl⟩
      · cases pair
    · cases pair
  · rintro ⟨me, other, ⟨route, client, asked⟩, rfl, rfl⟩
    rw [if_pos route, client, asked]

theorem connections_step_pair (env : Env) (world : World) (arrival : Arrival) :
    (handleNext env world arrival).db.connections.map connectionPair =
      world.db.connections.map connectionPair ++ (connectsPair world arrival).toList := by
  by_cases route : arrival.route = .connect
  · rcases connect_cases env world arrival route with ⟨me, other, connects, next⟩ | ⟨nobody, next⟩
    · rw [next, (connects_pair_iff world arrival me.id other.id).mpr ⟨me, other, connects, rfl, rfl⟩, connectionCreate,
        List.map_append]
      rfl
    · have none_asked : connectsPair world arrival = none := by
        cases pair : connectsPair world arrival with
        | none => rfl
        | some pair' =>
            obtain ⟨me, other, connects, _⟩ := (connects_pair_iff world arrival pair'.1 pair'.2).mp pair
            exact absurd connects (nobody me other)
      rw [next, none_asked, Option.toList_none, List.append_nil]
  · rw [connectsPair, if_neg route, Option.toList_none, List.append_nil]
    have wrote := handle_wrote env world arrival
    generalize handleNext env world arrival = after at wrote ⊢
    cases wrote with
    | connection me other is_connect client found => exact absurd is_connect route
    | nothing | account | session | post | like | unlike => rfl

theorem connected_ids (env : Env) (arrivals : List Arrival) (a b : Int)
    (stored : (a, b) ∈ (tablesAfter env arrivals).connections.map connectionPair) : ¬ (a = -1 ∨ b = -1) := by
  obtain ⟨row, member, pair⟩ := List.mem_map.mp stored
  obtain ⟨⟨first, firstHere, firstId⟩, ⟨second, secondHere, secondId⟩⟩ := (linked_run env arrivals).connections row member
  have positive := (positive_ids_run env arrivals).accounts
  have ids := Prod.mk.inj pair
  have low := positive first firstHere
  have high := positive second secondHere
  omega

-- Two accounts are connected when the first asked for it while it was logged
-- in, and stay so. They may be one.
theorem connection_history (env : Env) (arrivals : List Arrival) (a b : Int) :
    (connectionGetByAccountIds (tablesAfter env arrivals) a b).isSome = true ↔
      ∃ before arrival after me other, arrivals = before ++ arrival :: after ∧
        Connects (run (handleNext env) ⟨Database.empty, 0⟩ before) arrival me other ∧ me.id = a ∧ other.id = b := by
  have pairs : (a, b) ∈ (tablesAfter env arrivals).connections.map connectionPair ↔
      ∃ before arrival after, arrivals = before ++ arrival :: after ∧
        connectsPair (run (handleNext env) ⟨Database.empty, 0⟩ before) arrival = some (a, b) :=
    entry_member (handleNext env) (fun world => world.db.connections.map connectionPair) connectsPair
      (connections_step_pair env) ⟨Database.empty, 0⟩ rfl arrivals (a, b)
  have found : (connectionGetByAccountIds (tablesAfter env arrivals) a b).isSome = true ↔
      (a, b) ∈ (tablesAfter env arrivals).connections.map connectionPair := by
    rw [connectionGetByAccountIds]
    by_cases marker : a = -1 ∨ b = -1
    · rw [if_pos marker]
      exact iff_of_false (by simp) fun stored => connected_ids env arrivals a b stored marker
    · rw [if_neg marker, List.find?_isSome, List.mem_map]
      refine exists_congr fun row => and_congr_right fun _ => ?_
      rw [decide_eq_true_eq, connectionPair, Prod.mk.injEq]
  simp only [connects_pair_iff] at pairs
  rw [found, pairs]
  constructor
  · rintro ⟨before, arrival, after, split, me, other, connects, first, second⟩
    exact ⟨before, arrival, after, me, other, split, connects, first, second⟩
  · rintro ⟨before, arrival, after, me, other, split, connects, first, second⟩
    exact ⟨before, arrival, after, split, me, other, connects, first, second⟩

end Facebooc
