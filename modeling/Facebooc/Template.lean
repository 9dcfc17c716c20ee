import Facebooc.HashMapInvariant
import Facebooc.Page

set_option autoImplicit false

namespace Facebooc

open CMemory

-- src/template.c. A context value is a C string of page text.
structure Template where
  filename : List UInt8
  context : HashMap Page
deriving DecidableEq, Repr

def templateNew (filename : List UInt8) : Template := ⟨filename, hashMapNew⟩

-- An address malloc can return: no live pair of the map has it.
def freshAddr {V : Type} (map : HashMap V) : Nat := (addrs map.entries).foldl max 0 + 1

def templateSet (template : Template) (key : List UInt8) (value : Page) : Except Fault Template := do
  let done ← hashMapInsertMove template.context ⟨freshAddr template.context, cstr key, pageCstr value⟩
  .ok { template with context := done.1 }

def templateSetAll (template : Template) : List (String × Page) → Except Fault Template
  | [] => .ok template
  | (key, value) :: rest => do
      let template ← templateSet template (ascii key) value
      templateSetAll template rest

-- The text starts at index 1, behind a blank, and the terminator goes to index
-- len: the last byte of the file is overwritten.
def readfile (files : List UInt8 → Option (List UInt8)) (filename : List UInt8) : Option Object :=
  (files filename).map fun content => (ascii " " ++ content).take content.length ++ [0]

def strtokR (o : Object) (pos : Nat) (delim : UInt8) : Except Fault (Option Nat × Object × Nat) := do
  let text ← cstrAt o pos
  let start := pos + (text.takeWhile (fun c => c = delim)).length
  let token := (text.dropWhile (fun c => c = delim)).takeWhile (fun c => c ≠ delim)
  let stop := start + token.length
  if token = [] then .ok (none, o, start)
  else if o[stop]? = some 0 then .ok (some start, o, stop)
  else .ok (some start, o.set stop 0, stop + 1)

-- res is kept as the strings appended to it, each with where it comes from.
inductive Chunk where
  | text (bytes : List UInt8)
  | value (key : List UInt8) (page : Page)
deriving DecidableEq, Repr

def Chunk.page : Chunk → Page
  | .text bytes => [.markup bytes]
  | .value _ page => page

-- The last byte of a string, cut off by overwriting it with a NUL.
def dropLastChar (o : Object) (p : Nat) : Except Fault Object := do
  let text ← cstrAt o p
  store o (p + text.length - 1 : Int) 0

-- The next blank of a string, overwritten with a NUL; a missing one is written
-- through NULL.
def cutAtSpace (o : Object) (p : Nat) : Except Fault (Object × Nat) := do
  let text ← cstrAt o p
  match text.idxOf? (chr ' ') with
  | none => .error .null
  | some i => .ok (o.set (p + i) 0, p + i)

section Render

variable (nested : List UInt8 → Except Fault (List Chunk)) (context : HashMap Page)

def templateValue (key : List UInt8) : Except Fault (List Chunk) := do
  match ← hashMapGet context key with
  | none => .ok []
  | some value => .ok [.value key value]

def templateWhen (o : Object) (segment : Nat) : Except Fault (Object × List Chunk) := do
  let (o, spc) ← cutAtSpace o segment
  match ← hashMapGet context (← cstrAt o segment) with
  | none => .ok (o, [])
  | some statusValue =>
      let segment := spc + 1
      let (o, spc) ← cutAtSpace o segment
      if pageBytes statusValue = (← cstrAt o segment) then
        let o ← dropLastChar o (spc + 1)
        .ok (o, [.text (← cstrAt o (spc + 1))])
      else .ok (o, [])

-- What stands between { and }: the rewritten buffer, what is appended, and the
-- flag rep; no flag for an unknown directive, which ends the rendering.
def templateDirective (o : Object) (segment : Nat) : Except Fault (Object × List Chunk × Option Bool) := do
  let text ← cstrAt o segment
  if text.head? = some (chr '{') then
    .ok (o, ← templateValue context text.tail, some true)
  else if text.head? = some (chr '%') then
    if (ascii "include").isPrefixOf text.tail then
      let o ← dropLastChar o (segment + 9)
      .ok (o, ← nested (← cstrAt o (segment + 9)), some true)
    else if (ascii "when").isPrefixOf text.tail then
      let (o, chunks) ← templateWhen context o (segment + 6)
      .ok (o, chunks, some true)
    else .ok (o, [], none)
  else .ok (o, [.text (ascii "\x7b")], some false)

-- Each round takes one token up to } and one up to {, so the position moves
-- and as many rounds as there are bytes are enough.
def templateLoop : Nat → Object → Nat → Except Fault (List Chunk)
  | 0, _, _ => .error .loop
  | rounds + 1, o, pos => do
      match ← strtokR o pos (chr '}') with
      | (none, _, _) => .ok []
      | (some segment, o, pos) =>
          match ← templateDirective nested context o segment with
          | (_, chunks, none) => .ok chunks
          | (o, chunks, some rep) =>
              match ← strtokR o pos (chr '{') with
              | (none, _, _) => .ok chunks
              | (some segment, o, pos) =>
                  let text ← cstrAt o segment
                  let literal := if rep then [.text text.tail] else [.text (ascii "\x7d"), .text text]
                  let rest ← templateLoop rounds o pos
                  .ok (chunks ++ literal ++ rest)

end Render

-- A template that includes itself never ends; `depth` bounds the nesting.
def templateChunks (files : List UInt8 → Option (List UInt8)) (context : HashMap Page) :
    Nat → List UInt8 → Except Fault (List Chunk)
  | 0, _ => .error .loop
  | depth + 1, filename =>
      match readfile files filename with
      | none => .ok []
      | some buff => do
          match ← strtokR buff 0 (chr '{') with
          | (none, _, _) => .error .null
          | (some segment, o, pos) =>
              let text ← cstrAt o (segment + 1)
              let rest ← templateLoop (templateChunks files context depth) context (buff.length + 1) o pos
              .ok (.text text :: rest)

def templateRender (files : List UInt8 → Option (List UInt8)) (depth : Nat) (template : Template) :
    Except Fault Page := do
  let chunks ← templateChunks files template.context depth template.filename
  .ok (chunks.flatMap Chunk.page)

end Facebooc
