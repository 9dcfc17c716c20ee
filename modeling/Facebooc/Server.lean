import Facebooc.Pages
import Facebooc.Signup

set_option autoImplicit false

namespace Facebooc

open CMemory

-- The handlers of src/facebooc_server.c that work on the tables, and the
-- default callback.
inductive Route where
  | connect
  | dashboard
  | home
  | like
  | unlike
  | login
  | logout
  | post
  | profile
  | search
  | signup
  | notFound
deriving DecidableEq, Repr

structure Arrival where
  now : Int
  route : Route
  req : Request
deriving DecidableEq, Repr

def callHandler (env : Env) (world : World) (arrival : Arrival) : World × Except Fault (Option Response) :=
  match arrival.route with
  | .connect => connect world arrival.now arrival.req
  | .dashboard => (world, dashboard env world.db arrival.req)
  | .home => (world, home env world.db arrival.req)
  | .like => like world arrival.now arrival.req
  | .unlike => unlike world arrival.req
  | .login => login env world arrival.now arrival.req
  | .logout => (world, logout world.db arrival.now arrival.req)
  | .post => post world arrival.now arrival.req
  | .profile => (world, profile env world.db arrival.req)
  | .search => (world, search env world.db arrival.req)
  | .signup => signup env world arrival.now arrival.req
  | .notFound => (world, notFound env world.db arrival.req)

-- src/server.c. A handler that returns NULL has the default callback answer.
def handle (env : Env) (world : World) (arrival : Arrival) : World × Except Fault (Option Response) :=
  let called := callHandler env world arrival
  attempt called.1 called.2 fun response =>
    match response with
    | some response => (called.1, .ok (some response))
    | none => (called.1, notFound env called.1.db arrival.req)

-- A run goes on behind a request that faults, with what is in the tables then.
-- The real process is over there: what is proved of every run holds up to it.
def handleNext (env : Env) (world : World) (arrival : Arrival) : World := (handle env world arrival).1

end Facebooc
