import Facebooc.Base64

set_option autoImplicit false

namespace Facebooc

open CMemory

-- The tables of src/db.c, each in the order of its rowids. Integers are kept
-- as the C ints that were bound, texts as the bytes in front of their NUL.
structure AccountRow where
  id : Int
  createdAt : Int
  name : List UInt8
  username : List UInt8
  email : List UInt8
  password : List UInt8
deriving DecidableEq, Repr

structure SessionRow where
  id : Int
  createdAt : Int
  account : Int
  session : List UInt8
deriving DecidableEq, Repr

structure ConnectionRow where
  id : Int
  createdAt : Int
  account1 : Int
  account2 : Int
deriving DecidableEq, Repr

structure PostRow where
  id : Int
  createdAt : Int
  author : Int
  body : List UInt8
deriving DecidableEq, Repr

structure LikeRow where
  id : Int
  createdAt : Int
  account : Int
  author : Int
  post : Int
deriving DecidableEq, Repr

structure Database where
  accounts : List AccountRow
  sessions : List SessionRow
  connections : List ConnectionRow
  posts : List PostRow
  likes : List LikeRow
deriving DecidableEq, Repr

def Database.empty : Database := ⟨[], [], [], [], []⟩

-- INTEGER PRIMARY KEY: a new row gets one more than the largest rowid.
def nextRowid (ids : List Int) : Int := ids.foldl max 0 + 1

theorem next_rowid_above (ids : List Int) : ∀ id ∈ ids, id < nextRowid ids := by
  have bounded : ∀ (ids : List Int) (low : Int), low ≤ ids.foldl max low ∧ ∀ id ∈ ids, id ≤ ids.foldl max low := by
    intro ids
    induction ids with
    | nil => simp
    | cons id rest ih =>
        intro low
        have here := ih (max low id)
        simp only [List.foldl_cons, List.mem_cons, forall_eq_or_imp]
        exact ⟨by omega, by omega, here.2⟩
  intro id member
  have bound := (bounded ids 0).2 id member
  rw [nextRowid]
  omega

theorem next_rowid_fresh (ids : List Int) : nextRowid ids ∉ ids := fun member =>
  absurd (next_rowid_above ids _ member) (Int.lt_irrefl _)

end Facebooc
