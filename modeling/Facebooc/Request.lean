import Facebooc.Cookies

set_option autoImplicit false

namespace Facebooc

open CMemory

-- src/http/query.c and src/http/body.c keep the pairs of a decoded form in a
-- list with the last pair in front.
abbrev Form := List (List UInt8 × List UInt8)

-- The search for the next & starts at the pair again, not behind its =.
def formLoop : Nat → Object → Nat → Form → Except Fault Form
  | 0, _, _, _ => .error .loop
  | rounds + 1, o, decoded, form => do
      if (← load o decoded) = 0 then .ok form
      else
        match ← pairLexer o decoded (chr '=') (chr '&') with
        | none => .ok form
        | some entry =>
            let text ← cstrAt o decoded
            match text.idxOf? (chr '&') with
            | none => .error .null
            | some i => formLoop rounds o (decoded + i + 1) (entry :: form)

def formParser (buffer : List UInt8) : Except Fault Form := do
  let o ← urlDecoder buffer
  let text ← cstrAt o 0
  let o ← store o text.length (chr '&')
  let o ← store o (text.length + 1) 0
  formLoop (o.length + 1) o 0 []

def formGet (form : Option Form) (key : List UInt8) : Option (List UInt8) :=
  if key = [] then none else form.bind fun pairs => (pairs.find? fun entry => entry.1 = key).map Prod.snd

def queryParser (buffer : List UInt8) : Except Fault Form := formParser buffer

def queryGet (q : Option Form) (key : List UInt8) : Option (List UInt8) := formGet q key

-- The 34 compared bytes include the terminator.
def isSupportedType (str : List UInt8) : Bool := str = ascii "application/x-www-form-urlencoded"

def checkHeader (header : Header) : Bool := (headerGet header (ascii "content-type")).any isSupportedType

def bodyParser (header : Header) (o : Object) (buffer : Nat) : Except Fault (Option Form) :=
  if checkHeader header then do
    let form ← formParser (← cstrAt o buffer)
    .ok (some form)
  else .ok none

def bodyGet (b : Option Form) (key : List UInt8) : Option (List UInt8) := formGet b key

-- src/request.c
inductive Method where
  | OPTIONS
  | GET
  | HEAD
  | POST
  | PUT
  | DELETE
  | TRACE
  | CONNECT
deriving DecidableEq, Repr

def Method.name : Method → List UInt8
  | .OPTIONS => ascii "OPTIONS"
  | .GET => ascii "GET"
  | .HEAD => ascii "HEAD"
  | .POST => ascii "POST"
  | .PUT => ascii "PUT"
  | .DELETE => ascii "DELETE"
  | .TRACE => ascii "TRACE"
  | .CONNECT => ascii "CONNECT"

def methods : List Method := [.OPTIONS, .GET, .HEAD, .POST, .PUT, .DELETE, .TRACE, .CONNECT]

def setMethod (segment : List UInt8) : Option Method := methods.find? fun m => segment = m.name

structure Request where
  method : Method
  path : List UInt8
  uri : List UInt8
  queryString : Option Form
  postBody : Option Form
  cookies : Option (List Cookie)
  headers : Header
deriving DecidableEq, Repr

-- The search for a blank does not stop at the terminator of the text.
def skipToSpace (o : Object) (p : Nat) : Except Fault Nat :=
  match (o.drop p).idxOf? (chr ' ') with
  | none => .error .bounds
  | some i => .ok (p + i)

def getUriLen (buf : Object) : Except Fault Nat := do
  let first ← skipToSpace buf 0
  let second ← skipToSpace buf (first + 1)
  .ok (second - first - 1)

-- One %s of sscanf into a buffer of the given size, with the input behind it.
-- At the end of the input the buffer stays as it is.
def scanWord (size : Nat) (text : List UInt8) : Except Fault (Option (List UInt8) × List UInt8) :=
  let input := text.dropWhile isspace
  let word := input.takeWhile fun c => !isspace c
  if word = [] then .ok (none, [])
  else if word.length < size then .ok (some word, input.dropWhile fun c => !isspace c)
  else .error .bounds

def initialized (word : Option (List UInt8)) : Except Fault (List UInt8) :=
  match word with
  | none => .error .uninit
  | some text => .ok text

def versionDigit (version : List UInt8) : Except Fault UInt8 :=
  if version.length < 7 then .error .uninit else .ok (version.getD 7 0)

-- The method, the path and the length of the line, unless the line is refused.
-- Only the first six characters of "HTTP/1." are compared.
def parseRequestLine (buf : Object) : Except Fault (Option (Method × List UInt8 × Nat)) := do
  let uriLen ← getUriLen buf
  let text ← cstrAt buf 0
  let (method, text) ← scanWord 8 text
  let (uri, text) ← scanWord (uriLen + 1) text
  let (version, _) ← scanWord 9 text
  let method ← initialized method
  match setMethod method with
  | none => .ok none
  | some known =>
      let version ← initialized version
      if version.take 6 ≠ ascii "HTTP/1" then .ok none
      else
        let digit ← versionDigit version
        if digit ≠ chr '1' ∧ digit ≠ chr '0' then .ok none
        else
          let uri ← initialized uri
          .ok (some (known, uri, method.length + uriLen + version.length + 4))

def splitQueryString (path : List UInt8) : Except Fault (List UInt8 × Option Form) :=
  match path.idxOf? (chr '?') with
  | none => .ok (path, none)
  | some begin => do
      let query ← queryParser (path.drop (begin + 1))
      .ok (path.take begin, some query)

-- The request with the final value of the local variable offset.
def requestParse (buff : Object) : Except Fault (Option (Request × Nat)) := do
  match ← parseRequestLine buff with
  | none => .ok none
  | some (method, path, offset) =>
      let (uri, query) ← splitQueryString path
      let (headers, buff, offset) ← headerParser buff offset
      let cookies ← cookiesParser headers
      let body ← bodyParser headers buff offset
      .ok (some (⟨method, path, uri, query, body, cookies, headers⟩, offset))

def requestNew (buff : Object) : Except Fault (Option Request) := do
  let parsed ← requestParse buff
  .ok (parsed.map Prod.fst)

end Facebooc
