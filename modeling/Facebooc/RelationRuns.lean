import Facebooc.ServerSteps

set_option autoImplicit false

namespace Facebooc

open CMemory Runs

def likePair (row : LikeRow) : Int × Int := (row.account, row.post)

def connectionPair (row : ConnectionRow) : Int × Int := (row.account1, row.account2)

structure RelationsAreSets (db : Database) : Prop where
  likes : (db.likes.map likePair).Nodup
  connections : (db.connections.map connectionPair).Nodup
  apart : ∀ row ∈ db.connections, row.account1 ≠ row.account2

def askedPost (world : World) (req : Request) : Option Post :=
  match getId req.uri with
  | .error _ => none
  | .ok id => postGetById world.db id

-- A request whose handler gets as far as its INSERT, and what it inserts.
def Likes (world : World) (arrival : Arrival) (me : Account) (post : Post) : Prop :=
  arrival.route = .like ∧ getAccount world.db arrival.req.cookies = .ok (some me) ∧
    askedPost world arrival.req = some post

def Connects (world : World) (arrival : Arrival) (me other : Account) : Prop :=
  arrival.route = .connect ∧ getAccount world.db arrival.req.cookies = .ok (some me) ∧
    (do accountGetById world.db (← getId arrival.req.uri)) = .ok (some other)

structure AddsNew (world : World) (arrival : Arrival) : Prop where
  like : ∀ me post, Likes world arrival me post → (me.id, post.id) ∉ world.db.likes.map likePair
  connection : ∀ me other, Connects world arrival me other →
    (me.id, other.id) ∉ world.db.connections.map connectionPair ∧ me.id ≠ other.id

theorem liking_cases (write : Database → Int → Post → Database) (world : World) (req : Request) :
    (∃ me post, getAccount world.db req.cookies = .ok (some me) ∧ askedPost world req = some post ∧
      (liking write world req).1 = { world with db := write world.db me.id post }) ∨
    ((∀ me post, getAccount world.db req.cookies = .ok (some me) → askedPost world req ≠ some post) ∧
      (liking write world req).1 = world) := by
  rw [liking]
  cases client : getAccount world.db req.cookies with
  | error fault =>
      refine .inr ⟨fun me post same => ?_, rfl⟩
      cases same
  | ok myAcc =>
      cases myAcc with
      | none =>
          refine .inr ⟨fun me post same => ?_, rfl⟩
          cases same
      | some me =>
          have asked : askedPost world req = match getId req.uri with
              | .error _ => none
              | .ok id => postGetById world.db id := rfl
          cases uri : getId req.uri with
          | error fault =>
              rw [uri] at asked
              refine .inr ⟨fun other post _ same => ?_, rfl⟩
              cases asked.symm.trans same
          | ok id =>
              rw [uri] at asked
              cases found : postGetById world.db id with
              | none =>
                  refine .inr ⟨fun other post _ same => ?_, by simp only [attempt, found]⟩
                  cases (asked.trans found).symm.trans same
              | some post => exact .inl ⟨me, post, rfl, asked.trans found, by simp only [attempt, found]⟩

theorem like_cases (env : Env) (world : World) (arrival : Arrival) (route : arrival.route = .like) :
    (∃ me post, Likes world arrival me post ∧
      handleNext env world arrival = { world with db := likeCreate world.db arrival.now me.id post.authorId post.id }) ∨
    ((∀ me post, ¬ Likes world arrival me post) ∧ handleNext env world arrival = world) := by
  have called : handleNext env world arrival = (like world arrival.now arrival.req).1 := by
    rw [handleNext, handle_world, callHandler, route]
  rw [called, like]
  rcases liking_cases (fun db me post => likeCreate db arrival.now me post.authorId post.id) world arrival.req with
    ⟨me, post, client, asked, next⟩ | ⟨none_asked, next⟩
  · exact .inl ⟨me, post, ⟨route, client, asked⟩, next⟩
  · exact .inr ⟨fun me post likes => none_asked me post likes.2.1 likes.2.2, next⟩

theorem connect_cases (env : Env) (world : World) (arrival : Arrival) (route : arrival.route = .connect) :
    (∃ me other, Connects world arrival me other ∧
      handleNext env world arrival = { world with db := connectionCreate world.db arrival.now me.id other.id }) ∨
    ((∀ me other, ¬ Connects world arrival me other) ∧ handleNext env world arrival = world) := by
  have called : handleNext env world arrival = (connect world arrival.now arrival.req).1 := by
    rw [handleNext, handle_world, callHandler, route]
  rw [called, connect]
  cases client : getAccount world.db arrival.req.cookies with
  | error fault =>
      refine .inr ⟨fun me other connects => ?_, rfl⟩
      cases client.symm.trans connects.2.1
  | ok myAcc =>
      cases myAcc with
      | none =>
          refine .inr ⟨fun me other connects => ?_, rfl⟩
          cases client.symm.trans connects.2.1
      | some me =>
          cases asked : (do accountGetById world.db (← getId arrival.req.uri)) with
          | error fault =>
              refine .inr ⟨fun me other connects => ?_, by simp only [attempt]⟩
              cases asked.symm.trans connects.2.2
          | ok account =>
              cases account with
              | none =>
                  refine .inr ⟨fun me other connects => ?_, by simp only [attempt]⟩
                  cases asked.symm.trans connects.2.2
              | some other => exact .inl ⟨me, other, ⟨route, client, asked⟩, by simp only [attempt]⟩

theorem likes_step (world : World) (now me author post : Int) (sets : RelationsAreSets world.db) :
    RelationsAreSets (likeCreate world.db now me author post) ↔ (me, post) ∉ world.db.likes.map likePair := by
  constructor
  · intro after
    have distinct := after.likes
    rw [likeCreate, nodup_map_snoc] at distinct
    exact distinct.1
  · intro new
    refine ⟨?_, sets.connections, sets.apart⟩
    rw [likeCreate, nodup_map_snoc]
    exact ⟨new, sets.likes⟩

theorem connections_step (world : World) (now me other : Int) (sets : RelationsAreSets world.db) :
    RelationsAreSets (connectionCreate world.db now me other) ↔
      (me, other) ∉ world.db.connections.map connectionPair ∧ me ≠ other := by
  constructor
  · intro after
    have distinct := after.connections
    rw [connectionCreate, nodup_map_snoc] at distinct
    exact ⟨distinct.1, after.apart _ (List.mem_append_right _ (List.mem_singleton_self _))⟩
  · intro new
    refine ⟨sets.likes, ?_, ?_⟩
    · rw [connectionCreate, nodup_map_snoc]
      exact ⟨new.1, sets.connections⟩
    · exact (forall_mem_snoc ..).mpr ⟨sets.apart, new.2⟩

theorem unlike_sets (db : Database) (me post : Int) (sets : RelationsAreSets db) : RelationsAreSets (likeDelete db me post) :=
  ⟨sets.likes.sublist (List.filter_sublist.map likePair), sets.connections, sets.apart⟩

theorem other_route_sets (env : Env) (world : World) (arrival : Arrival) (noLike : arrival.route ≠ .like)
    (noConnect : arrival.route ≠ .connect) (sets : RelationsAreSets world.db) :
    RelationsAreSets (handleNext env world arrival).db := by
  have wrote := handle_wrote env world arrival
  generalize handleNext env world arrival = after at wrote ⊢
  cases wrote with
  | connection me other route client found => exact absurd route noConnect
  | like me post route client found => exact absurd route noLike
  | unlike me post route client found => exact unlike_sets world.db me.id post.id sets
  | nothing | account | session | post => exact ⟨sets.likes, sets.connections, sets.apart⟩

theorem relations_step (env : Env) (world : World) (arrival : Arrival) (sets : RelationsAreSets world.db) :
    RelationsAreSets (handleNext env world arrival).db ↔ AddsNew world arrival := by
  by_cases isLike : arrival.route = .like
  · have noConnect : ∀ me other, ¬ Connects world arrival me other := fun me other connects => by
      cases isLike.symm.trans connects.1
    rcases like_cases env world arrival isLike with ⟨me, post, likes, next⟩ | ⟨noLike, next⟩
    · rw [next, likes_step world arrival.now me.id post.authorId post.id sets]
      constructor
      · intro new
        refine ⟨fun other asked again => ?_, fun a b connects => absurd connects (noConnect a b)⟩
        cases likes.2.1.symm.trans again.2.1
        cases likes.2.2.symm.trans again.2.2
        exact new
      · intro new
        exact new.like me post likes
    · rw [next]
      exact iff_of_true sets ⟨fun a b likes => absurd likes (noLike a b), fun a b connects => absurd connects (noConnect a b)⟩
  · have noLike : ∀ me post, ¬ Likes world arrival me post := fun me post likes => isLike likes.1
    by_cases isConnect : arrival.route = .connect
    · rcases connect_cases env world arrival isConnect with ⟨me, other, connects, next⟩ | ⟨noConnect, next⟩
      · rw [next, connections_step world arrival.now me.id other.id sets]
        constructor
        · intro new
          refine ⟨fun a b likes => absurd likes (noLike a b), fun someone else_ again => ?_⟩
          cases connects.2.1.symm.trans again.2.1
          cases connects.2.2.symm.trans again.2.2
          exact new
        · intro new
          exact new.connection me other connects
      · rw [next]
        exact iff_of_true sets ⟨fun a b likes => absurd likes (noLike a b), fun a b connects => absurd connects (noConnect a b)⟩
    · refine iff_of_true (other_route_sets env world arrival isLike isConnect sets)
        ⟨fun a b likes => absurd likes (noLike a b), fun a b connects => isConnect connects.1 |>.elim⟩

-- Any requests of any clients. Both tables stay sets in every state of the run
-- exactly when no request inserts a pair that is stored or an account with itself.
theorem relations_stay_sets (env : Env) (world : World) (arrivals : List Arrival) (start : RelationsAreSets world.db) :
    Throughout (handleNext env) (fun world => RelationsAreSets world.db) world arrivals ↔
      Along (handleNext env) AddsNew world arrivals :=
  throughout_iff (handleNext env) AddsNew _ (relations_step env) arrivals world start

theorem relations_start : RelationsAreSets Database.empty := ⟨List.nodup_nil, List.nodup_nil, by simp [Database.empty]⟩

def alicePost : Arrival := formArrival .post (some aliceCookies) [("post", "Hello")]

def aliceAsks (route : Route) (uri : String) : Arrival :=
  ⟨1700000000, route, ⟨.GET, ascii uri, ascii uri, none, none, some aliceCookies, []⟩⟩

theorem relations_stay_sets_alice :
    Throughout (handleNext plainEnv) (fun world => RelationsAreSets world.db) ⟨Database.empty, 0⟩
        [aliceSignup, aliceLogin, alicePost, aliceAsks .like "/like/1/"] ↔
      Along (handleNext plainEnv) AddsNew ⟨Database.empty, 0⟩
        [aliceSignup, aliceLogin, alicePost, aliceAsks .like "/like/1/"] :=
  relations_stay_sets plainEnv _ _ relations_start

theorem relations_repeat :
    let world := run (handleNext plainEnv) ⟨Database.empty, 0⟩ [aliceSignup, aliceLogin, alicePost,
      aliceAsks .like "/like/1/", aliceAsks .like "/like/1/", aliceAsks .connect "/connect/1/"]
    world.db.likes.map likePair = [(1, 1), (1, 1)] ∧ world.db.connections.map connectionPair = [(1, 1)] ∧
      ¬ RelationsAreSets world.db := by
  intro world
  have twice : world.db.likes.map likePair = [(1, 1), (1, 1)] := by decide +kernel
  have self : world.db.connections.map connectionPair = [(1, 1)] := by decide +kernel
  refine ⟨twice, self, fun sets => ?_⟩
  have distinct := sets.likes
  rw [twice] at distinct
  exact absurd distinct (by decide)

end Facebooc
