import Facebooc.CMemory
import Facebooc.LinearProbe

set_option autoImplicit false

namespace Facebooc

open CMemory LinearProbe

-- src/hash_map.c. A pair object is its address and the fields behind it: the
-- source compares pairs by address and keys by strcmp. A key is the text in
-- front of its terminating NUL.
structure SPair (V : Type) where
  addr : Nat
  key : List UInt8
  value : V
deriving DecidableEq, Repr

structure HashMap (V : Type) where
  entries : List (Option (SPair V))
  cap : Nat
  len : Nat
deriving DecidableEq, Repr

def initialCapacity : Nat := 64

def hashMapNew {V : Type} : HashMap V := ⟨List.replicate initialCapacity none, initialCapacity, 0⟩

def fnvOffset : UInt64 := 14695981039346656037

def fnvPrime : UInt64 := 1099511628211

def hashKey (key : List UInt8) : UInt64 :=
  key.foldl (fun hash c => (hash ^^^ c.toUInt64) * fnvPrime) fnvOffset

def getIndex (cap : Nat) (key : List UInt8) : Nat := (hashKey key).toNat &&& (cap - 1)

-- The probing loops of the source have no bound of their own. Each model gets
-- as many rounds as there are slots: a walk that has seen every slot without
-- stopping is back at its start and never ends.
def hashMapGetLoop {V : Type} (entries : List (Option (SPair V))) (cap : Nat) (key : List UInt8) :
    Nat → Nat → Except Fault (Option V)
  | 0, _ => .error .loop
  | rounds + 1, index =>
      match entries[index]? with
      | none => .error .bounds
      | some none => .ok none
      | some (some entry) =>
          if key = entry.key then .ok (some entry.value)
          else hashMapGetLoop entries cap key rounds (next cap index)

def hashMapGet {V : Type} (map : HashMap V) (key : List UInt8) : Except Fault (Option V) :=
  hashMapGetLoop map.entries map.cap key map.cap (getIndex map.cap key)

-- The comparison with p comes after the step, so the home slot is never
-- compared. Keys are not looked at.
def hashMapMoveLoop {V : Type} (entries : List (Option (SPair V))) (cap : Nat) (p : SPair V) :
    Nat → Nat → Except Fault (List (Option (SPair V)) × Bool)
  | 0, _ => .error .loop
  | rounds + 1, index =>
      match entries[index]? with
      | none => .error .bounds
      | some none => .ok (entries.set index (some p), true)
      | some (some _) =>
          match entries[next cap index]? with
          | none => .error .bounds
          | some slot =>
              if slot.map SPair.addr = some p.addr then .ok (entries, false)
              else hashMapMoveLoop entries cap p rounds (next cap index)

def hashMapMoveEntry {V : Type} (entries : List (Option (SPair V))) (cap : Nat) (p : SPair V) :
    Except Fault (List (Option (SPair V)) × Bool) :=
  hashMapMoveLoop entries cap p cap (getIndex cap p.key)

-- `fresh` is the address malloc returns for the copy of p.
def hashMapSetLoop {V : Type} (entries : List (Option (SPair V))) (cap : Nat) (p : SPair V) (fresh : Nat) :
    Nat → Nat → Except Fault (List (Option (SPair V)) × Bool)
  | 0, _ => .error .loop
  | rounds + 1, index =>
      match entries[index]? with
      | none => .error .bounds
      | some none => .ok (entries.set index (some { p with addr := fresh }), true)
      | some (some entry) =>
          if p.addr = entry.addr then .ok (entries, false)
          else if p.key = entry.key then .ok (entries.set index (some { p with addr := fresh }), true)
          else hashMapSetLoop entries cap p fresh rounds (next cap index)

def hashMapSetEntry {V : Type} (entries : List (Option (SPair V))) (cap : Nat) (p : SPair V) (fresh : Nat) :
    Except Fault (List (Option (SPair V)) × Bool) :=
  hashMapSetLoop entries cap p fresh cap (getIndex cap p.key)

-- A calloc whose byte count does not fit size_t returns NULL, and the loop
-- that follows writes through it.
def callocEntries {V : Type} (n : Nat) : Except Fault (List (Option (SPair V))) :=
  if n * 8 < 2 ^ 64 then .ok (List.replicate n none) else .error .null

def hashMapExpandLoop {V : Type} (newCap : Nat) :
    List (Option (SPair V)) → List (Option (SPair V)) → Except Fault (List (Option (SPair V)))
  | [], newEntries => .ok newEntries
  | none :: rest, newEntries => hashMapExpandLoop newCap rest newEntries
  | some entry :: rest, newEntries => do
      let moved ← hashMapMoveEntry newEntries newCap entry
      hashMapExpandLoop newCap rest moved.1

def hashMapExpand {V : Type} (map : HashMap V) : Except Fault (HashMap V × Bool) :=
  let newCap := (map.cap <<< 1) % 2 ^ 64
  if newCap < map.cap then .ok (map, false)
  else do
    let newEntries ← callocEntries newCap
    let filled ← hashMapExpandLoop newCap map.entries newEntries
    .ok ({ map with entries := filled, cap := newCap }, true)

-- The growth step both insertions start with.
def hashMapGrow {V : Type} (map : HashMap V) : Except Fault (HashMap V × Bool) :=
  if map.len ≥ map.cap >>> 1 then hashMapExpand map else .ok (map, true)

def hashMapInsert {V : Type} (map : HashMap V) (p : SPair V) (fresh : Nat) : Except Fault (HashMap V × Bool) := do
  let grown ← hashMapGrow map
  if grown.2 then
    let written ← hashMapSetEntry grown.1.entries grown.1.cap p fresh
    .ok ({ grown.1 with entries := written.1, len := grown.1.len + written.2.toNat }, written.2)
  else .ok (grown.1, false)

def hashMapInsertMove {V : Type} (map : HashMap V) (p : SPair V) : Except Fault (HashMap V × Bool) := do
  let grown ← hashMapGrow map
  if grown.2 then
    let written ← hashMapMoveEntry grown.1.entries grown.1.cap p
    .ok ({ grown.1 with entries := written.1, len := grown.1.len + written.2.toNat }, written.2)
  else .ok (grown.1, false)

-- The walk from the slot behind the hole, by slots and not by indices below the
-- capacity: it does not wrap, and a run up to the last slot is read past.
def lastSameHash {V : Type} (hash : UInt64) : List (Option (SPair V)) → Nat → Except Fault Nat
  | [], _ => .error .bounds
  | none :: _, index => .ok index
  | some entry :: rest, index =>
      if hashKey entry.key = hash then lastSameHash hash rest (index + 1) else .ok index

def moveLastSameHash {V : Type} (entries : List (Option (SPair V))) (hole : Nat) (hash : UInt64) :
    Except Fault (List (Option (SPair V))) := do
  let index ← lastSameHash hash (entries.drop (hole + 1)) 1
  let filled := entries.set hole (entries.getD (hole + index - 1) none)
  .ok (filled.set (hole + index - 1) none)

-- The index is never advanced. A round that deletes leaves one pair less, and a
-- round that does not is followed by the same round for ever.
def hashMapEraseLoop {V : Type} (key : List UInt8) (index : Nat) :
    Nat → List (Option (SPair V)) → Except Fault (List (Option (SPair V)))
  | 0, _ => .error .loop
  | rounds + 1, entries =>
      match entries[index]? with
      | none => .error .bounds
      | some none => .ok entries
      | some (some entry) =>
          if key = entry.key then do
            let moved ← moveLastSameHash (entries.set index none) index (hashKey key)
            hashMapEraseLoop key index rounds moved
          else hashMapEraseLoop key index rounds entries

def hashMapErase {V : Type} (map : HashMap V) (key : List UInt8) : Except Fault (HashMap V × Bool) := do
  let left ← hashMapEraseLoop key (getIndex map.cap key) (map.cap + 1) map.entries
  .ok ({ map with entries := left }, true)

-- The size_t length is returned as an int.
def hashMapSize {V : Type} (map : HashMap V) : Int := Int.bmod map.len (2 ^ 32)

end Facebooc
