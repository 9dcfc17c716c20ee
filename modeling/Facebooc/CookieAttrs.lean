import Facebooc.HeaderString
import Facebooc.Response

set_option autoImplicit false

namespace Facebooc

open CMemory Runs

-- src/http/cookies.c. Each pointer is NULL or points to an object of its own.
structure CookieStruct where
  key : Option Object
  value : Option Object
  expires : Option Object
  maxAge : Option Object
  domain : Option Object
  path : Option Object
  secure : Option Object
  httponly : Option Object
deriving DecidableEq, Repr

structure CookieTemplate where
  key : List UInt8
  value : List UInt8
  expires : List UInt8
  maxAge : List UInt8
  domain : List UInt8
  path : List UInt8
  secure : List UInt8
  httponly : List UInt8

def cAvFmtStr : List (List UInt8) :=
  [ascii "", ascii "", ascii "; Expires=%s", ascii "; Max-Age=%s", ascii "; Domain=%s", ascii "; Path=%s", ascii "; %s",
    ascii "; %s"]

-- include/http/cookies.h, Cookie_attr. KEY and VALUE are 0 and 1.
def attrNumber : CookieAttr → Nat
  | .EXPIRE => 2
  | .MAX_AGE => 3
  | .DOMAIN => 4
  | .PATH => 5
  | .SECURE => 6
  | .HTTPONLY => 7

-- ((char **) c)[i]: the struct is packed, so its pointers are an array.
def cookieGetAttr (c : CookieStruct) : Nat → Except Fault (Option Object)
  | 0 => .ok c.key
  | 1 => .ok c.value
  | 2 => .ok c.expires
  | 3 => .ok c.maxAge
  | 4 => .ok c.domain
  | 5 => .ok c.path
  | 6 => .ok c.secure
  | 7 => .ok c.httponly
  | _ => .error .bounds

def setSlot (c : CookieStruct) (i : Nat) (p : Option Object) : Except Fault CookieStruct :=
  match i with
  | 0 => .ok { c with key := p }
  | 1 => .ok { c with value := p }
  | 2 => .ok { c with expires := p }
  | 3 => .ok { c with maxAge := p }
  | 4 => .ok { c with domain := p }
  | 5 => .ok { c with path := p }
  | 6 => .ok { c with secure := p }
  | 7 => .ok { c with httponly := p }
  | _ => .error .bounds

-- What a format with no directive but %s prints. A missing argument is an
-- indeterminate pointer.
def formatted : List UInt8 → List (List UInt8) → Except Fault (List UInt8)
  | [], _ => .ok []
  | [c], _ => .ok [c]
  | c :: d :: fmt, args =>
      if c = chr '%' ∧ d = chr 's' then
        match args with
        | [] => .error .uninit
        | arg :: args => (formatted fmt args).map (arg ++ ·)
      else (formatted (d :: fmt) args).map (c :: ·)

-- snprintf with a bound of n into the start of an array.
def snprintfInto (o : Object) (n : Nat) (text : List UInt8) : Except Fault Object :=
  if n = 0 then .ok o else printAt o 0 (text.take (n - 1))

def stringOf (p : Option Object) : Except Fault (List UInt8) :=
  match p with
  | none => .error .null
  | some o => cstrAt o 0

def stringOr (p : Option Object) (missing : List UInt8) : Except Fault (List UInt8) :=
  match p with
  | none => .ok missing
  | some o => cstrAt o 0

-- Both strings are copied with strdup.
def cookieInitAt (key value : List UInt8) : CookieStruct :=
  ⟨some (key ++ [0]), some (value ++ [0]), none, none, none, none, none, none⟩

-- A value of none is a NULL pointer.
def cookieSetAttrAt (c : CookieStruct) (attr : Nat) (value : Option (List UInt8)) : Except Fault CookieStruct :=
  match value with
  | none => .ok c
  | some value =>
      if value = [] ∨ attr > attrNumber .HTTPONLY then .ok c
      else
        match cAvFmtStr[attr]? with
        | none => .error .bounds
        | some fmtStr => do
            let len := fmtStr.length + value.length + 1
            let size ← malloc len
            let text ← formatted fmtStr [value]
            let buf ← snprintfInto (List.replicate size 0) len text
            -- The old string is freed.
            let _ ← cookieGetAttr c attr
            setSlot c attr (some buf)

def cookieTemplateAt (c : CookieStruct) : Except Fault CookieTemplate := do
  let key ← stringOf c.key
  let value ← stringOf c.value
  let expires ← stringOr c.expires []
  let maxAge ← stringOr c.maxAge []
  let domain ← stringOr c.domain []
  let path ← stringOr c.path (ascii "; Path=/")
  .ok ⟨key, value, expires, maxAge, domain, path, if c.secure.isSome then ascii "; Secure" else [],
    if c.httponly.isSome then ascii "; HttpOnly" else []⟩

def cookieTemplateLenAt (t : CookieTemplate) : Nat :=
  t.key.length + t.value.length + t.expires.length + t.maxAge.length + t.domain.length + t.path.length + t.secure.length +
    t.httponly.length

def cookieToStringAt (c : CookieStruct) : Except Fault Object := do
  let t ← cookieTemplateAt c
  let curLen := cookieTemplateLenAt t
  let size ← malloc (curLen + 2)
  let text ← formatted (ascii "%s=%s%s%s%s%s%s%s") [t.key, t.value, t.expires, t.maxAge, t.domain, t.path, t.secure, t.httponly]
  snprintfInto (List.replicate size 0) (curLen + 2) text

-- A run of Cookie_set_attr; it ends at the first call that faults.
def setAttrCall (state : Except Fault CookieStruct) (call : CookieAttr × Option CText) : Except Fault CookieStruct :=
  state.bind fun c => cookieSetAttrAt c (attrNumber call.1) (call.2.map Subtype.val)

-- The last value that an attribute was set to and that is not empty.
def valueFor (attr : CookieAttr) (call : CookieAttr × Option CText) : Option (List UInt8) :=
  if call.1 = attr then (call.2.map Subtype.val).filter (· ≠ []) else none

def lastSet (attr : CookieAttr) (calls : List (CookieAttr × Option CText)) : Option (List UInt8) :=
  (calls.filterMap (valueFor attr)).getLast?

def attrText (attr : CookieAttr) (value : Option (List UInt8)) : List UInt8 :=
  match attr, value with
  | .EXPIRE, some value => ascii "; Expires=" ++ value
  | .MAX_AGE, some value => ascii "; Max-Age=" ++ value
  | .DOMAIN, some value => ascii "; Domain=" ++ value
  | .PATH, some value => ascii "; Path=" ++ value
  | .PATH, none => ascii "; Path=/"
  | .SECURE, some _ => ascii "; Secure"
  | .HTTPONLY, some _ => ascii "; HttpOnly"
  | _, none => []

def attrOrder : List CookieAttr := [.EXPIRE, .MAX_AGE, .DOMAIN, .PATH, .SECURE, .HTTPONLY]

def canonicalCookie (key value : List UInt8) (calls : List (CookieAttr × Option CText)) : List UInt8 :=
  key ++ ascii "=" ++ value ++ attrOrder.flatMap fun attr => attrText attr (lastSet attr calls)

-- The fields of the text model of a cookie by attribute, and what stands in
-- front of a value in them.
def attrOf (c : SetCookie) : CookieAttr → Option (List UInt8)
  | .EXPIRE => c.expires
  | .MAX_AGE => c.maxAge
  | .DOMAIN => c.domain
  | .PATH => c.path
  | .SECURE => c.secure
  | .HTTPONLY => c.httponly

def attrPrefix : CookieAttr → List UInt8
  | .EXPIRE => ascii "; Expires="
  | .MAX_AGE => ascii "; Max-Age="
  | .DOMAIN => ascii "; Domain="
  | .PATH => ascii "; Path="
  | .SECURE => ascii "; "
  | .HTTPONLY => ascii "; "

-- Every string of the struct holds the text of its field.
structure HoldsTexts (c : CookieStruct) (m : SetCookie) : Prop where
  key : stringOf c.key = .ok m.cookie.key
  value : stringOf c.value = .ok m.cookie.value
  attrs : ∀ attr, (cookieGetAttr c (attrNumber attr)).map (Option.map fun o => cstrAt o 0) =
    .ok ((attrOf m attr).map .ok)

theorem set_slot_attr (c : CookieStruct) (attr : CookieAttr) (p : Option Object) :
    ∃ next, setSlot c (attrNumber attr) p = .ok next ∧ next.key = c.key ∧ next.value = c.value ∧
      ∀ other, cookieGetAttr next (attrNumber other) =
        if other = attr then .ok p else cookieGetAttr c (attrNumber other) := by
  cases attr <;> exact ⟨_, rfl, rfl, rfl, fun other => by cases other <;> rfl⟩

theorem get_attr_total (c : CookieStruct) (attr : CookieAttr) : ∃ p, cookieGetAttr c (attrNumber attr) = .ok p := by
  cases attr <;> exact ⟨_, rfl⟩

theorem fmt_str_attr (attr : CookieAttr) :
    cAvFmtStr[attrNumber attr]? = some (attrPrefix attr ++ ascii "%s") ∧ chr '%' ∉ attrPrefix attr := by
  cases attr <;> exact ⟨rfl, by decide⟩

theorem formatted_literal (literal rest arg : List UInt8) (args : List (List UInt8)) (plain : chr '%' ∉ literal) :
    formatted (literal ++ (chr '%' :: chr 's' :: rest)) (arg :: args) =
      (formatted rest args).map fun text => literal ++ (arg ++ text) := by
  induction literal with
  | nil => rfl
  | cons c literal ih =>
      have different : c ≠ chr '%' := fun same => plain (same ▸ List.mem_cons_self)
      have later := ih fun member => plain (List.mem_cons_of_mem c member)
      obtain ⟨d, tail, shape⟩ : ∃ d tail, literal ++ (chr '%' :: chr 's' :: rest) = d :: tail := by
        cases literal with
        | nil => exact ⟨_, _, rfl⟩
        | cons d literal => exact ⟨_, _, rfl⟩
      rw [List.cons_append, shape, formatted, if_neg fun both => different both.1, ← shape, later]
      cases formatted rest args with
      | error fault => rfl
      | ok text => rfl

theorem snprintf_new (text : List UInt8) (spare : Nat) :
    snprintfInto (List.replicate (text.length + 1 + spare) 0) (text.length + 1 + spare) text =
      .ok (text ++ 0 :: List.replicate spare 0) := by
  have room : text.length + 1 ≤ (List.replicate (text.length + 1 + spare) (0 : UInt8)).length := by
    rw [List.length_replicate]
    omega
  have printed := print_at_next [] (List.replicate (text.length + 1 + spare) 0) text 0 rfl room
  rw [List.nil_append, List.nil_append, List.drop_replicate, Nat.add_sub_cancel_left] at printed
  rw [snprintfInto, if_neg (by omega), List.take_of_length_le (by omega), printed]

theorem cookie_set_attr_empty (m : SetCookie) (attr : CookieAttr) : cookieSetAttr m attr [] = m := by
  unfold cookieSetAttr
  rw [if_pos rfl]

theorem cookie_set_attr_of (m : SetCookie) (attr other : CookieAttr) (value : List UInt8) (given : value ≠ []) :
    attrOf (cookieSetAttr m attr value) other = if other = attr then some (attrPrefix attr ++ value) else attrOf m other := by
  unfold cookieSetAttr
  rw [if_neg given]
  cases attr <;> cases other <;> rfl

theorem cookie_set_attr_pair (m : SetCookie) (attr : CookieAttr) (value : List UInt8) :
    (cookieSetAttr m attr value).cookie = m.cookie := by
  unfold cookieSetAttr
  split
  · rfl
  · cases attr <;> rfl

-- The array of an attribute is two bytes longer than its text and a NUL: the
-- directive is counted.
theorem set_attr_stores (c : CookieStruct) (attr : CookieAttr) (value : List UInt8) (given : value ≠ []) :
    cookieSetAttrAt c (attrNumber attr) (some value) =
      setSlot c (attrNumber attr) (some (attrPrefix attr ++ value ++ 0 :: List.replicate 2 0)) := by
  have known : ¬ attrNumber attr > attrNumber .HTTPONLY := by cases attr <;> decide
  obtain ⟨fmt, plain⟩ := fmt_str_attr attr
  obtain ⟨old, freed⟩ := get_attr_total c attr
  have text : formatted (attrPrefix attr ++ ascii "%s") [value] = .ok (attrPrefix attr ++ value) := by
    have printed := formatted_literal (attrPrefix attr) [] value [] plain
    rwa [formatted, Except.map, List.append_nil] at printed
  have len : (attrPrefix attr ++ ascii "%s").length + value.length + 1 = (attrPrefix attr ++ value).length + 1 + 2 := by
    have directive : (ascii "%s").length = 2 := rfl
    rw [List.length_append, List.length_append, directive]
    omega
  have size := malloc_size ((attrPrefix attr ++ value).length + 1 + 2)
  have written := snprintf_new (attrPrefix attr ++ value) 2
  simp only [cookieSetAttrAt, given, known, or_self, if_false, fmt, len, size, text, written, freed, bind, Except.bind]

theorem set_attr_texts (c : CookieStruct) (m : SetCookie) (attr : CookieAttr) (value : CText) (held : HoldsTexts c m) :
    ∃ next, cookieSetAttrAt c (attrNumber attr) (some value.val) = .ok next ∧
      HoldsTexts next (cookieSetAttr m attr value.val) := by
  by_cases empty : value.val = []
  · refine ⟨c, ?_, ?_⟩
    · simp only [cookieSetAttrAt, empty, true_or, if_true]
    · rw [empty, cookie_set_attr_empty]
      exact held
  · obtain ⟨next, stored, sameKey, sameValue, slots⟩ := set_slot_attr c attr
      (some (attrPrefix attr ++ value.val ++ 0 :: List.replicate 2 0))
    have clean : 0 ∉ attrPrefix attr ++ value.val := by
      have literal : 0 ∉ attrPrefix attr := by cases attr <;> decide
      rw [List.mem_append]
      exact fun either => either.elim literal value.property
    have pair := cookie_set_attr_pair m attr value.val
    refine ⟨next, ?_, ?_, ?_, ?_⟩
    · rw [set_attr_stores c attr value.val empty, stored]
    · rw [sameKey, pair]
      exact held.key
    · rw [sameValue, pair]
      exact held.value
    · intro other
      rw [slots, cookie_set_attr_of m attr other value.val empty]
      by_cases same : other = attr
      · rw [if_pos same, if_pos same, Except.map, Option.map_some, Option.map_some, cstr_at_start _ _ clean]
      · rw [if_neg same, if_neg same]
        exact held.attrs other

theorem string_or_option (p : Option Object) (text : Option (List UInt8)) (missing : List UInt8)
    (same : p.map (fun o => cstrAt o 0) = text.map .ok) : stringOr p missing = .ok (text.getD missing) := by
  cases p with
  | none =>
      cases text with
      | none => rfl
      | some text => cases same
  | some o =>
      cases text with
      | none => cases same
      | some text => exact Option.some.inj same

theorem option_is_some (p : Option Object) (text : Option (List UInt8))
    (same : p.map (fun o => cstrAt o 0) = text.map .ok) : p.isSome = text.isSome := by
  have both := congrArg Option.isSome same
  rwa [Option.isSome_map, Option.isSome_map] at both

theorem cookie_template_texts (c : CookieStruct) (m : SetCookie) (held : HoldsTexts c m) :
    cookieTemplateAt c = .ok ⟨m.cookie.key, m.cookie.value, m.expires.getD [], m.maxAge.getD [], m.domain.getD [],
      m.path.getD (ascii "; Path=/"), if m.secure.isSome then ascii "; Secure" else [],
      if m.httponly.isSome then ascii "; HttpOnly" else []⟩ := by
  have slot : ∀ attr p, cookieGetAttr c (attrNumber attr) = .ok p → p.map (fun o => cstrAt o 0) = (attrOf m attr).map .ok := by
    intro attr p found
    have attrs := held.attrs attr
    rw [found] at attrs
    exact Except.ok.inj attrs
  have expires := string_or_option c.expires m.expires [] (slot .EXPIRE _ rfl)
  have maxAge := string_or_option c.maxAge m.maxAge [] (slot .MAX_AGE _ rfl)
  have domain := string_or_option c.domain m.domain [] (slot .DOMAIN _ rfl)
  have path := string_or_option c.path m.path (ascii "; Path=/") (slot .PATH _ rfl)
  have secure := option_is_some c.secure m.secure (slot .SECURE _ rfl)
  have httponly := option_is_some c.httponly m.httponly (slot .HTTPONLY _ rfl)
  simp only [cookieTemplateAt, held.key, held.value, expires, maxAge, domain, path, secure, httponly, bind, Except.bind]

theorem template_formatted (t : CookieTemplate) :
    formatted (ascii "%s=%s%s%s%s%s%s%s") [t.key, t.value, t.expires, t.maxAge, t.domain, t.path, t.secure, t.httponly] =
      .ok (t.key ++ ascii "=" ++ t.value ++ t.expires ++ t.maxAge ++ t.domain ++ t.path ++ t.secure ++ t.httponly) := by
  have printed : formatted (ascii "%s=%s%s%s%s%s%s%s")
      [t.key, t.value, t.expires, t.maxAge, t.domain, t.path, t.secure, t.httponly] =
      .ok (t.key ++ (ascii "=" ++ (t.value ++ (t.expires ++ (t.maxAge ++ (t.domain ++ (t.path ++ (t.secure ++
        (t.httponly ++ []))))))))) := rfl
  rw [printed]
  simp only [List.append_assoc, List.append_nil]

theorem cookie_to_string_texts (c : CookieStruct) (m : SetCookie) (held : HoldsTexts c m) :
    cookieToStringAt c = .ok (cookieToString m ++ [0]) := by
  obtain ⟨t, template, text⟩ : ∃ t, cookieTemplateAt c = .ok t ∧
      cookieToString m = t.key ++ ascii "=" ++ t.value ++ t.expires ++ t.maxAge ++ t.domain ++ t.path ++ t.secure ++ t.httponly :=
    ⟨_, cookie_template_texts c m held, rfl⟩
  -- The two bytes on top of the template are the equals sign and the NUL.
  have len : cookieTemplateLenAt t + 2 = (cookieToString m).length + 1 + 0 := by
    have sign : (ascii "=").length = 1 := rfl
    rw [text, cookieTemplateLenAt]
    simp only [List.length_append, sign]
    omega
  have size : malloc ((cookieTemplateLenAt t : Int) + 2) = .ok ((cookieToString m).length + 1 + 0) := by
    rw [← len]
    exact malloc_size _
  have printed := template_formatted t
  rw [← text] at printed
  have written := snprintf_new (cookieToString m) 0
  simp only [cookieToStringAt, template, len, size, printed, written, bind, Except.bind]
  rfl

def setAttrText (m : SetCookie) (call : CookieAttr × Option CText) : SetCookie :=
  match call.2 with
  | none => m
  | some value => cookieSetAttr m call.1 value.val

theorem last_set_snoc (attr : CookieAttr) (calls : List (CookieAttr × Option CText)) (call : CookieAttr × Option CText) :
    lastSet attr (calls ++ [call]) = (valueFor attr call).or (lastSet attr calls) := by
  rw [lastSet, List.filterMap_append, List.getLast?_append, lastSet]
  cases found : valueFor attr call with
  | none => rw [List.filterMap_cons_none found, List.filterMap_nil, List.getLast?_nil]
  | some value => rw [List.filterMap_cons_some found, List.filterMap_nil, List.getLast?_singleton]

theorem last_set_clean (attr : CookieAttr) (calls : List (CookieAttr × Option CText)) (value : List UInt8)
    (last : lastSet attr calls = some value) : 0 ∉ value := by
  obtain ⟨call, _, found⟩ := List.mem_filterMap.mp (List.mem_of_getLast? last)
  rw [valueFor] at found
  split at found
  · obtain ⟨text, _, same⟩ := Option.map_eq_some_iff.mp (Option.filter_eq_some_iff.mp found).1
    rw [← same]
    exact text.property
  · cases found

theorem canonical_clean (key value : CText) (calls : List (CookieAttr × Option CText)) :
    0 ∉ canonicalCookie key.val value.val calls := by
  have texts : ∀ attr, 0 ∉ attrText attr (lastSet attr calls) := by
    intro attr
    cases last : lastSet attr calls with
    | none => cases attr <;> decide
    | some text =>
        have clean := last_set_clean attr calls text last
        cases attr <;> simp only [attrText, List.mem_append, not_or] <;> first | exact ⟨by decide, clean⟩ | decide
  have sign : 0 ∉ ascii "=" := by decide
  simp only [canonicalCookie, List.mem_append, List.mem_flatMap, not_or, not_exists, not_and]
  exact ⟨⟨⟨key.property, sign⟩, value.property⟩, fun attr _ => texts attr⟩

theorem set_attr_text_of (m : SetCookie) (call : CookieAttr × Option CText) (attr : CookieAttr) :
    attrOf (setAttrText m call) attr = ((valueFor attr call).map (attrPrefix attr ++ ·)).or (attrOf m attr) := by
  cases call with
  | mk other given =>
      cases given with
      | none =>
          rw [valueFor, Option.map_none, Option.filter_none, ite_self]
          rfl
      | some value =>
          change attrOf (cookieSetAttr m other value.val) attr = _
          by_cases empty : value.val = []
          · rw [empty, cookie_set_attr_empty]
            simp [valueFor, empty, Option.filter]
          · rw [cookie_set_attr_of m other attr value.val empty]
            by_cases same : other = attr
            · simp [valueFor, same, empty, Option.filter]
            · rw [if_neg fun again => same again.symm, valueFor, if_neg same]
              rfl

theorem attr_after (attr : CookieAttr) (m : SetCookie) (call : CookieAttr × Option CText) (calls : List (CookieAttr × Option CText))
    (held : attrOf m attr = (lastSet attr calls).map (attrPrefix attr ++ ·)) :
    attrOf (setAttrText m call) attr = (lastSet attr (calls ++ [call])).map (attrPrefix attr ++ ·) := by
  rw [set_attr_text_of, last_set_snoc, held, Option.map_or]

theorem canonical_to_string (key value : List UInt8) (calls : List (CookieAttr × Option CText)) (m : SetCookie)
    (pair : m.cookie = ⟨key, value⟩) (attrs : ∀ attr, attrOf m attr = (lastSet attr calls).map (attrPrefix attr ++ ·)) :
    cookieToString m = canonicalCookie key value calls := by
  have expires : m.expires = _ := attrs .EXPIRE
  have maxAge : m.maxAge = _ := attrs .MAX_AGE
  have domain : m.domain = _ := attrs .DOMAIN
  have path : m.path = _ := attrs .PATH
  have secure : m.secure = _ := attrs .SECURE
  have httponly : m.httponly = _ := attrs .HTTPONLY
  have shown : ∀ attr, attrText attr (lastSet attr calls) =
      match attr with
      | .EXPIRE => m.expires.getD []
      | .MAX_AGE => m.maxAge.getD []
      | .DOMAIN => m.domain.getD []
      | .PATH => m.path.getD (ascii "; Path=/")
      | .SECURE => if m.secure.isSome then ascii "; Secure" else []
      | .HTTPONLY => if m.httponly.isSome then ascii "; HttpOnly" else [] := by
    rw [expires, maxAge, domain, path, secure, httponly]
    intro attr
    cases attr <;> cases lastSet _ calls <;> rfl
  rw [canonicalCookie, attrOrder, cookieToString, pair]
  simp only [List.flatMap_cons, List.flatMap_nil, shown, List.append_assoc, List.append_nil]

def AttrsAfter (key value : List UInt8) (calls : List (CookieAttr × Option CText)) (state : Except Fault CookieStruct) : Prop :=
  ∃ c m, state = .ok c ∧ HoldsTexts c m ∧ m.cookie = ⟨key, value⟩ ∧
    ∀ attr, attrOf m attr = (lastSet attr calls).map (attrPrefix attr ++ ·)

theorem attrs_after_init (key value : CText) : AttrsAfter key.val value.val [] (.ok (cookieInitAt key.val value.val)) := by
  refine ⟨_, cookieInit key.val value.val, rfl, ⟨?_, ?_, ?_⟩, rfl, ?_⟩
  · exact cstr_at_start key.val [] key.property
  · exact cstr_at_start value.val [] value.property
  · intro attr
    cases attr <;> rfl
  · intro attr
    cases attr <;> rfl

theorem attrs_after_call (key value : List UInt8) (past : List (CookieAttr × Option CText)) (state : Except Fault CookieStruct)
    (call : CookieAttr × Option CText) (after : AttrsAfter key value past state) :
    AttrsAfter key value (past ++ [call]) (setAttrCall state call) := by
  obtain ⟨c, m, ran, held, pair, attrs⟩ := after
  subst ran
  have last := fun attr => attr_after attr m call past (attrs attr)
  cases call with
  | mk attr given =>
      cases given with
      | none => exact ⟨c, m, rfl, held, pair, last⟩
      | some text =>
          obtain ⟨next, ran, texts⟩ := set_attr_texts c m attr text held
          exact ⟨next, _, ran, texts, (cookie_set_attr_pair m attr text.val).trans pair, last⟩

-- Whatever the calls, the string is the canonical text and a NUL, and its array
-- ends there.
theorem cookie_attrs_canonical (key value : CText) (calls : List (CookieAttr × Option CText)) :
    ∃ c, run setAttrCall (.ok (cookieInitAt key.val value.val)) calls = .ok c ∧
      cookieToStringAt c = .ok (canonicalCookie key.val value.val calls ++ [0]) ∧
      cstrAt (canonicalCookie key.val value.val calls ++ [0]) 0 = .ok (canonicalCookie key.val value.val calls) := by
  obtain ⟨c, m, ran, held, pair, attrs⟩ := history_invariant setAttrCall (fun _ _ => True) (AttrsAfter key.val value.val) _
    (attrs_after_init key value) (fun past state call after _ => attrs_after_call key.val value.val past state call after)
    calls (along_true setAttrCall _ calls)
  have text := canonical_to_string key.val value.val calls m pair attrs
  have printed := cookie_to_string_texts c m held
  rw [text] at printed
  exact ⟨c, ran, printed, cstr_at_start _ [] (canonical_clean key value calls)⟩

example : (run setAttrCall (.ok (cookieInitAt (ascii "k") (ascii "v")))
    [(.SECURE, some ⟨ascii "y", by decide⟩), (.PATH, some ⟨ascii "/a", by decide⟩),
      (.EXPIRE, some ⟨ascii "Wed", by decide⟩), (.PATH, some ⟨ascii "/b", by decide⟩),
      (.PATH, some ⟨[], by decide⟩)]).bind cookieToStringAt =
    .ok (ascii "k=v; Expires=Wed; Path=/b; Secure" ++ [0]) := by rfl

end Facebooc
