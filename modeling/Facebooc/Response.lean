import Facebooc.Cookies
import Facebooc.Time

set_option autoImplicit false

namespace Facebooc

open CMemory

inductive Status where
  | OK
  | FOUND
  | NOT_FOUND
deriving DecidableEq, Repr

structure Response where
  status : Status
  header : Header
  body : Option Page
deriving DecidableEq, Repr

-- src/http/cookies.c: a cookie with its attributes, each kept as the text that
-- is sent for it.
structure SetCookie where
  cookie : Cookie
  expires : Option (List UInt8)
  maxAge : Option (List UInt8)
  domain : Option (List UInt8)
  path : Option (List UInt8)
  secure : Option (List UInt8)
  httponly : Option (List UInt8)
deriving DecidableEq, Repr

inductive CookieAttr where
  | EXPIRE
  | MAX_AGE
  | DOMAIN
  | PATH
  | SECURE
  | HTTPONLY
deriving DecidableEq, Repr

def cookieInit (key value : List UInt8) : SetCookie := ⟨⟨key, value⟩, none, none, none, none, none, none⟩

def cookieSetAttr (c : SetCookie) (attr : CookieAttr) (value : List UInt8) : SetCookie :=
  if value = [] then c
  else
    match attr with
    | .EXPIRE => { c with expires := some (ascii "; Expires=" ++ value) }
    | .MAX_AGE => { c with maxAge := some (ascii "; Max-Age=" ++ value) }
    | .DOMAIN => { c with domain := some (ascii "; Domain=" ++ value) }
    | .PATH => { c with path := some (ascii "; Path=" ++ value) }
    | .SECURE => { c with secure := some (ascii "; " ++ value) }
    | .HTTPONLY => { c with httponly := some (ascii "; " ++ value) }

-- The length is that of the texts, so nothing is cut off.
def cookieToString (c : SetCookie) : List UInt8 :=
  c.cookie.key ++ ascii "=" ++ c.cookie.value ++ c.expires.getD [] ++ c.maxAge.getD [] ++ c.domain.getD [] ++
    c.path.getD (ascii "; Path=/") ++ (if c.secure.isSome then ascii "; Secure" else []) ++
    (if c.httponly.isSome then ascii "; HttpOnly" else [])

def cookieGenExpire (now duration : Int) : List UInt8 := strftimeExpire (gmtime (now + duration))

-- src/response.c
def responseNew : Response := ⟨.OK, [], none⟩

def responseAddHeader (r : Response) (key value : List UInt8) : Response :=
  { r with header := r.header ++ [(key, value)] }

def responseAddCookie (r : Response) (c : SetCookie) : Response :=
  responseAddHeader r (ascii "Set-Cookie") (cookieToString c)

def responseSetStatus (r : Response) (status : Status) : Response := { r with status := status }

def responseSetBodyMove (r : Response) (ctx : Page) : Response := { r with body := some ctx }

def responseNewRedirect (location : List UInt8) : Response :=
  responseAddHeader (responseSetStatus responseNew .FOUND) (ascii "Location") location

end Facebooc
