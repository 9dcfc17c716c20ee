import Facebooc.RbTree

set_option autoImplicit false

namespace Facebooc

open CMemory TreeZipper

-- src/map.c. A value is a pointer, with none for NULL. A map is the tree behind
-- its pointer, and a NULL map is none.
structure Pair (V : Type) where
  key : UInt64
  value : Option V
deriving DecidableEq, Repr

abbrev Map (V : Type) := Option (RbTree (Pair V))

-- The 64-bit difference is returned as an int.
def cmpf {V : Type} (a b : Pair V) : Int := Int.bmod (b.key - a.key).toNat (2 ^ 32)

-- The empty tree. The copy through the uninitialised m->tree is left out.
def mapNew {V : Type} : Map V := some rbtreeInit

def mapGet {V : Type} (m : Map V) (key : UInt64) : Except Fault (Option V) :=
  match m with
  | none => .ok none
  | some tree =>
      match rbtreeSearch cmpf tree ⟨key, none⟩ with
      | some (.node _ _ own _, _) => .ok own.value
      | _ => .error .null

-- Both insertions hang the fields of p into the tree, in a copy or in p itself,
-- and answer true also where the tree refuses them.
def mapInsertNode {V : Type} (m : Map V) (p : Pair V) : Except Fault (Map V × Bool) :=
  match m with
  | none => .ok (none, false)
  | some tree => do
      let inserted ← rbtreeInsert cmpf tree p
      .ok (some inserted.1, true)

def mapInsert {V : Type} (m : Map V) (p : Pair V) : Except Fault (Map V × Bool) := mapInsertNode m p

def mapInsertMove {V : Type} (m : Map V) (p : Pair V) : Except Fault (Map V × Bool) := mapInsertNode m p

def mapErase {V : Type} (m : Map V) (key : UInt64) : Except Fault (Map V × Bool) :=
  match m with
  | none => .ok (none, false)
  | some tree => do
      let deleted ← rbtreeDelete cmpf tree ⟨key, none⟩
      .ok (some deleted.1, deleted.2.isSome)

def mapSize {V : Type} (m : Map V) : Except Fault Nat :=
  match m with
  | none => .error .null
  | some tree => .ok tree.count

inductive MapOp (V : Type) where
  | insert (p : Pair V)
  | insertMove (p : Pair V)
  | erase (key : UInt64)

def MapOp.key {V : Type} : MapOp V → UInt64
  | .insert p => p.key
  | .insertMove p => p.key
  | .erase key => key

def MapOp.pair {V : Type} : MapOp V → Option (Pair V)
  | .insert p => some p
  | .insertMove p => some p
  | .erase _ => none

def MapOp.apply {V : Type} (m : Map V) : MapOp V → Except Fault (Map V × Bool)
  | .insert p => mapInsert m p
  | .insertMove p => mapInsertMove m p
  | .erase key => mapErase m key

end Facebooc
