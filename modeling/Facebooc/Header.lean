import Facebooc.StringView

set_option autoImplicit false

namespace Facebooc

open CMemory

-- src/http/header.c
abbrev Header := List (List UInt8 × List UInt8)

def headerGet (h : Header) (key : List UInt8) : Option (List UInt8) :=
  if key = [] then none else (h.find? fun entry => entry.1 = key).map Prod.snd

def isspace (c : UInt8) : Bool := c = chr ' ' || (9 ≤ c && c ≤ 13)

def tolower (c : UInt8) : UInt8 := if chr 'A' ≤ c ∧ c ≤ chr 'Z' then c + 32 else c

def toLowerCase (o : Object) (str : Nat) : Except Fault Object := do
  let text ← cstrAt o str
  .ok (o.take str ++ text.map tolower ++ o.drop (str + text.length))

def stripLoop (o : Object) : Nat → StringView → Except Fault StringView
  | 0, _ => .error .loop
  | rounds + 1, sv => do
      if isspace (← load o sv.start) ∧ sv.stop ≠ some (sv.start : Int) then
        stripLoop o rounds { sv with start := sv.start + 1, size := sv.size - 1 }
      else .ok sv

def stripHeadSpaces (o : Object) (sv : StringView) : Except Fault StringView := do
  let sv ← stripLoop o (o.length + 1) sv
  .ok (if sv.stop = some (sv.start : Int) then { sv with size := -1 } else sv)

-- One header line: the object with its separators overwritten, the pair, and
-- the offset behind the line; nothing at the empty line that ends the headers.
-- A line without an end or without a colon is written through an invalid
-- pointer.
def headerLine (o : Object) (buf : Nat) : Except Fault (Option (Object × (List UInt8 × List UInt8) × Nat)) := do
  let line ← stringViewCtor o buf (ascii "\r\n")
  if line.size = 0 then .ok none
  else
    match ← findFirstOf (← cstrAt o buf) (ascii ":") with
    | none => .error .null
    | some seperator =>
        let o ← store o (buf + seperator) 0
        match line.stop with
        | none => .error .null
        | some stop =>
            let o ← store o stop 0
            let o ← toLowerCase o buf
            let begin := buf + seperator.toNat + 1
            let value ← stripHeadSpaces o ⟨begin, some stop, stop - begin⟩
            let key ← stringViewDup o ⟨buf, some (buf + seperator), seperator⟩
            let text ← stringViewDup o value
            .ok (some (o, (key, text), (buf + line.size + 2).toNat))

def headerLoop : Nat → Object → Nat → Header → Except Fault (Header × Object × Nat)
  | 0, _, _, _ => .error .loop
  | rounds + 1, o, buf, h => do
      if (← load o buf) = 0 then .ok (h, o, buf)
      else
        match ← headerLine o buf with
        | none => .ok (h, o, buf)
        | some (o, entry, next) => headerLoop rounds o next (h ++ [entry])

-- The headers, the rewritten object and the offset behind the empty line.
def headerParser (o : Object) (base : Nat) : Except Fault (Header × Object × Nat) := do
  let (h, o, buf) ← headerLoop (o.length + 1) o base []
  .ok (h, o, buf + 2)

end Facebooc
