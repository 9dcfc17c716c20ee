import Facebooc.RelationRuns

set_option autoImplicit false

namespace Facebooc

open CMemory Runs

-- The request of an account a to like (true) or to unlike (false) a post p.
def asksOf (world : World) (arrival : Arrival) (a p : Int) : Option Bool :=
  match getAccount world.db arrival.req.cookies, askedPost world arrival.req with
  | .ok (some me), some post =>
      if me.id = a ∧ post.id = p then
        match arrival.route with
        | .like => some true
        | .unlike => some false
        | _ => none
      else none
  | _, _ => none

-- The likes and unlikes that a issued on p in a run, in their order.
def likesIssued (env : Env) (a p : Int) : World → List Arrival → List Bool
  | _, [] => []
  | world, arrival :: rest => (asksOf world arrival a p).toList ++ likesIssued env a p (handleNext env world arrival) rest

theorem like_create_liked (db : Database) (now me author post a p : Int) :
    likeLiked (likeCreate db now me author post) a p = if me = a ∧ post = p then true else likeLiked db a p := by
  rw [likeLiked, likeCreate, List.any_append]
  by_cases same : me = a ∧ post = p
  · simp [same]
  · rw [if_neg same]
    simp [same, likeLiked]

-- One DELETE removes every copy of the pair and no other row.
theorem like_delete_liked (db : Database) (me post a p : Int) :
    likeLiked (likeDelete db me post) a p = if me = a ∧ post = p then false else likeLiked db a p := by
  rw [likeLiked, likeDelete, List.any_filter]
  by_cases same : me = a ∧ post = p
  · rw [if_pos same, same.1, same.2, List.any_eq_false]
    intro row _ both
    simp only [Bool.and_eq_true, decide_eq_true_eq] at both
    exact both.1 both.2
  · rw [if_neg same, likeLiked]
    congr 1
    funext row
    by_cases here : row.account = a ∧ row.post = p
    · have kept : ¬ (row.account = me ∧ row.post = post) := by
        intro deleted
        exact same ⟨deleted.1.symm.trans here.1, deleted.2.symm.trans here.2⟩
      rw [decide_eq_true here, decide_eq_true kept]
      rfl
    · simp only [here, decide_false, Bool.and_false]

theorem unlike_cases (env : Env) (world : World) (arrival : Arrival) (route : arrival.route = .unlike) :
    (∃ me post, getAccount world.db arrival.req.cookies = .ok (some me) ∧ askedPost world arrival.req = some post ∧
      handleNext env world arrival = { world with db := likeDelete world.db me.id post.id }) ∨
    ((∀ me post, getAccount world.db arrival.req.cookies = .ok (some me) → askedPost world arrival.req ≠ some post) ∧
      handleNext env world arrival = world) := by
  have called : handleNext env world arrival = (unlike world arrival.req).1 := by
    rw [handleNext, handle_world, callHandler, route]
  rw [called, unlike]
  exact liking_cases (fun db me post => likeDelete db me post.id) world arrival.req

theorem asks_of_some (world : World) (arrival : Arrival) (a p : Int) (me : Account) (post : Post)
    (client : getAccount world.db arrival.req.cookies = .ok (some me)) (asked : askedPost world arrival.req = some post) :
    asksOf world arrival a p = if me.id = a ∧ post.id = p then
      match arrival.route with
      | .like => some true
      | .unlike => some false
      | _ => none
    else none := by
  rw [asksOf, client, asked]

theorem asks_of_none (world : World) (arrival : Arrival) (a p : Int)
    (nobody : ∀ me post, getAccount world.db arrival.req.cookies = .ok (some me) → askedPost world arrival.req ≠ some post) :
    asksOf world arrival a p = none := by
  rw [asksOf]
  split
  · rename_i me post client asked
    exact absurd asked (nobody me post client)
  · rfl

theorem asks_of_other (world : World) (arrival : Arrival) (a p : Int) (noLike : arrival.route ≠ .like)
    (noUnlike : arrival.route ≠ .unlike) : asksOf world arrival a p = none := by
  rw [asksOf]
  split
  · split
    · split
      · rename_i route
        exact absurd route noLike
      · rename_i route
        exact absurd route noUnlike
      · rfl
    · rfl
  · rfl

theorem other_route_likes (env : Env) (world : World) (arrival : Arrival) (noLike : arrival.route ≠ .like)
    (noUnlike : arrival.route ≠ .unlike) : (handleNext env world arrival).db.likes = world.db.likes := by
  have wrote := handle_wrote env world arrival
  generalize handleNext env world arrival = after at wrote ⊢
  cases wrote with
  | like me post route client found => exact absurd route noLike
  | unlike me post route client found => exact absurd route noUnlike
  | nothing | account | session | connection | post => rfl

-- What one request leaves of the answer: its own, or the one before it.
theorem liked_step (env : Env) (world : World) (arrival : Arrival) (a p : Int) :
    likeLiked (handleNext env world arrival).db a p = (asksOf world arrival a p).getD (likeLiked world.db a p) := by
  by_cases isLike : arrival.route = .like
  · rcases like_cases env world arrival isLike with ⟨me, post, likes, next⟩ | ⟨nobody, next⟩
    · rw [next, like_create_liked, asks_of_some world arrival a p me post likes.2.1 likes.2.2, isLike]
      split <;> rfl
    · rw [next, asks_of_none world arrival a p (fun me post client asked => nobody me post ⟨isLike, client, asked⟩)]
      rfl
  · by_cases isUnlike : arrival.route = .unlike
    · rcases unlike_cases env world arrival isUnlike with ⟨me, post, client, asked, next⟩ | ⟨nobody, next⟩
      · rw [next, like_delete_liked, asks_of_some world arrival a p me post client asked, isUnlike]
        split <;> rfl
      · rw [next, asks_of_none world arrival a p nobody]
        rfl
    · rw [likeLiked, other_route_likes env world arrival isLike isUnlike, asks_of_other world arrival a p isLike isUnlike]
      rfl

theorem liked_run (env : Env) (a p : Int) (arrivals : List Arrival) (world : World) :
    likeLiked (run (handleNext env) world arrivals).db a p =
      (likesIssued env a p world arrivals).getLast?.getD (likeLiked world.db a p) := by
  induction arrivals generalizing world with
  | nil => rfl
  | cons arrival rest ih =>
      change likeLiked (run (handleNext env) (handleNext env world arrival) rest).db a p = _
      rw [ih, liked_step, likesIssued, List.getLast?_append]
      cases asksOf world arrival a p with
      | none => simp
      | some liked => cases (likesIssued env a p (handleNext env world arrival) rest).getLast? <;> rfl

-- Any requests of any clients, from a state in which a does not like p yet.
theorem liked_iff_last_like (env : Env) (world : World) (arrivals : List Arrival) (a p : Int)
    (fresh : likeLiked world.db a p = false) :
    (likeLiked (run (handleNext env) world arrivals).db a p = true ↔
      (likesIssued env a p world arrivals).getLast? = some true) ∧
    ∀ arrival, asksOf (run (handleNext env) world arrivals) arrival a p = none →
      likeLiked (run (handleNext env) world (arrivals ++ [arrival])).db a p =
        likeLiked (run (handleNext env) world arrivals).db a p := by
  constructor
  · rw [liked_run, fresh]
    cases (likesIssued env a p world arrivals).getLast? with
    | none => simp
    | some liked => simp
  · intro arrival other
    rw [run_snoc, liked_step, other]
    rfl

theorem liked_iff_last_like_alice :
    let arrivals := [aliceSignup, aliceLogin, alicePost, aliceAsks .like "/like/1/", aliceAsks .like "/like/1/",
      aliceAsks .unlike "/unlike/1/"]
    (likeLiked (run (handleNext plainEnv) ⟨Database.empty, 0⟩ arrivals).db 1 1 = true ↔
      (likesIssued plainEnv 1 1 ⟨Database.empty, 0⟩ arrivals).getLast? = some true) ∧
    ∀ arrival, asksOf (run (handleNext plainEnv) ⟨Database.empty, 0⟩ arrivals) arrival 1 1 = none →
      likeLiked (run (handleNext plainEnv) ⟨Database.empty, 0⟩ (arrivals ++ [arrival])).db 1 1 =
        likeLiked (run (handleNext plainEnv) ⟨Database.empty, 0⟩ arrivals).db 1 1 :=
  liked_iff_last_like plainEnv ⟨Database.empty, 0⟩ _ 1 1 rfl

end Facebooc
