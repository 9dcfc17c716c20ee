import Facebooc.Server
import Facebooc.SessionIds

set_option autoImplicit false

namespace Facebooc

open CMemory

-- What the server is for: people who join, log in, follow each other, and say
-- and like things. Everyone and everything said is called by its position.
structure Member where
  since : Int
  name : List UInt8
  email : List UInt8
  username : List UInt8
  secret : List UInt8
deriving DecidableEq, Repr

structure Remark where
  author : Nat
  time : Int
  text : List UInt8
deriving DecidableEq, Repr

structure Network where
  members : List Member
  sessions : List (List UInt8 × Nat)
  follows : List (Nat × Nat)
  remarks : List Remark
  likes : List (Nat × Nat)
deriving DecidableEq, Repr

inductive Deed where
  | joins (member : Member)
  | enters (sid : List UInt8) (member : Nat)
  | follows (member other : Nat)
  | speaks (remark : Remark)
  | likes (member remark : Nat)
  | unlikes (member remark : Nat)
deriving DecidableEq, Repr

def Network.empty : Network := ⟨[], [], [], [], []⟩

def Network.after (net : Network) : Deed → Network
  | .joins member => { net with members := net.members ++ [member] }
  | .enters sid member => { net with sessions := net.sessions ++ [(sid, member)] }
  | .follows member other => { net with follows := net.follows ++ [(member, other)] }
  | .speaks remark => { net with remarks := net.remarks ++ [remark] }
  | .likes member remark => { net with likes := net.likes ++ [(member, remark)] }
  | .unlikes member remark => { net with likes := net.likes.filter fun like => like ≠ (member, remark) }

-- Nobody, a member, or a request that no handler survives: one with cookies
-- but no sid, or of a member with an empty text.
inductive Visitor where
  | nobody
  | member (i : Nat)
  | broken
deriving DecidableEq, Repr

def Member.Named (member : Member) : Prop := member.name ≠ [] ∧ member.email ≠ [] ∧ member.username ≠ []

instance (member : Member) : Decidable member.Named := inferInstanceAs (Decidable (_ ∧ _))

def Network.named (net : Network) (i : Nat) : Bool := net.members[i]?.any fun member => member.Named

def Network.owner (net : Network) (sid : List UInt8) : Option Nat :=
  (net.sessions.find? fun session => session.1 = sid).map Prod.snd

def Network.visitor (net : Network) (cookies : Option (List Cookie)) : Visitor :=
  match cookies with
  | none => .nobody
  | some _ =>
      match cookiesGet cookies (ascii "sid") with
      | none => .broken
      | some cookie =>
          match net.owner cookie.value with
          | none => .nobody
          | some i => if net.named i then .member i else .broken

-- One passed check admits a form; that the email is free is asked again.
def Network.emailFree (net : Network) (email : List UInt8) : Bool := !net.members.any fun member => member.email = email

def Network.usernameFree (net : Network) (username : List UInt8) : Bool :=
  !net.members.any fun member => member.username = username

def Network.admits (net : Network) (form : SignupForm) : Bool :=
  decide (5 ≤ form.name.size ∧ form.name.size ≤ 50) ||
  decide (chr '@' ∈ form.email.data ∧ (3 ≤ form.email.size ∧ form.email.size ≤ 50)) && net.emailFree form.email.data ||
  decide (3 ≤ form.username.size ∧ form.username.size ≤ 50) && net.usernameFree form.username.data ||
  decide (8 ≤ form.password.size) ||
  decide (form.confirmPassword.data ≠ [] ∧ form.confirmPassword.data = form.password.data)

-- The first member of a username is the one whose password counts.
def Network.entrant (net : Network) (username secret : List UInt8) : Option Nat :=
  (net.members.findIdx? fun member => member.username = username).filter fun i =>
    net.members[i]?.any fun member => member.secret = secret

def position (id : Int) : Option Nat := if 0 < id then some (id - 1).toNat else none

def asked (req : Request) : Option Nat := (getId req.uri).toOption.bind position

-- What a request makes its sender do.
def Network.deed (env : Env) (net : Network) (arrival : Arrival) : Option Deed :=
  let req := arrival.req
  match arrival.route, net.visitor req.cookies with
  | .signup, .nobody =>
      let form := signupForm req
      if req.method = .POST ∧ net.admits form ∧ net.emailFree form.email.data then
        some (.joins ⟨arrival.now, form.name.data, form.email.data, form.username.data, env.sha256 form.password.data⟩)
      else none
  | .login, .nobody =>
      if req.method = .POST then
        (net.entrant (formField req "username").data (env.sha256 (formField req "password").data)).map
          (.enters (sidAt env.address net.sessions.length))
      else none
  | .connect, .member i => ((asked req).filter net.named).map (.follows i)
  | .post, .member i =>
      let text := formField req "post"
      if req.method = .POST ∧ text.size ≠ 0 ∧ text.size < maxBodyLen then some (.speaks ⟨i, arrival.now, text.data⟩) else none
  | .like, .member i => ((asked req).filter fun p => p < net.remarks.length).map (.likes i)
  | .unlike, .member i => ((asked req).filter fun p => p < net.remarks.length).map (.unlikes i)
  | _, _ => none

def Network.next (env : Env) (net : Network) (arrival : Arrival) : Network :=
  match net.deed env arrival with
  | none => net
  | some deed => net.after deed

end Facebooc
