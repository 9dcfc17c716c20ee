import Facebooc.RequestRoundTrip
import Facebooc.ResponseWrite
import Facebooc.ServerSteps
import Facebooc.StaticContent
import Mathlib.Algebra.Order.BigOperators.Group.List

set_option autoImplicit false

namespace Facebooc

open CMemory HttpMessage

-- The places a redirect may name.
inductive LocationText : List UInt8 → Prop where
  | root : LocationText (ascii "/")
  | dashboard : LocationText (ascii "/dashboard/")
  | login : LocationText (ascii "/login/")
  | profile (id : Int) : LocationText (ascii "/profile/" ++ decimal id ++ ascii "/")

-- The cookie of an opened session, and the one that logout sends.
def openedCookie (now : Int) (sid : List UInt8) : List UInt8 :=
  cookieToString (cookieSetAttr (cookieInit (ascii "sid") sid) .EXPIRE (cookieGenExpire now (3600 * 24 * 30)))

def expiredCookie (now : Int) : List UInt8 :=
  cookieToString (cookieSetAttr (cookieInit (ascii "sid") []) .EXPIRE (cookieGenExpire now (-1)))

-- The headers of the answers at a time, first those that open no session.
inductive QuietHeader (now : Int) : Header → Prop where
  | page : QuietHeader now []
  | redirect (location : List UInt8) (known : LocationText location) : QuietHeader now [(ascii "Location", location)]
  | expired : QuietHeader now [(ascii "Location", ascii "/"), (ascii "Set-Cookie", expiredCookie now)]
  | file (uri : List UInt8) (size : Nat) :
      QuietHeader now [(ascii "Content-Type", mimeTypeMux uri), (ascii "Content-Length", contentLen size),
        (ascii "Cache-Control", ascii "max-age=2592000")]

inductive AnswerHeader (now : Int) : Header → Prop where
  | quiet (h : Header) (header : QuietHeader now h) : AnswerHeader now h
  | opened (sid : List UInt8) (chars : ∀ c ∈ sid, c ∈ randTable) (size : sid.length = 64) :
      AnswerHeader now [(ascii "Set-Cookie", openedCookie now sid), (ascii "Location", ascii "/dashboard/")]

def Heads (header : Header → Prop) (answer : Except Fault (Option Response)) : Prop :=
  ∀ r, answer = .ok (some r) → header r.header

abbrev Quiet (now : Int) (answer : Except Fault (Option Response)) : Prop := Heads (QuietHeader now) answer

theorem heads_bind {α : Type} (header : Header → Prop) (x : Except Fault α) (f : α → Except Fault (Option Response))
    (each : ∀ a, x = .ok a → Heads header (f a)) : Heads header (x >>= f) := by
  intro r run
  obtain ⟨a, here, run⟩ := (except_bind_ok _ _ _).mp run
  exact each a here r run

theorem heads_weaken (header other : Header → Prop) (answer : Except Fault (Option Response)) (heads : Heads header answer)
    (implied : ∀ h, header h → other h) : Heads other answer :=
  fun r run => implied r.header (heads r run)

theorem heads_none (header : Header → Prop) : Heads header (.ok none) := by
  intro r run
  cases run

theorem heads_fault (header : Header → Prop) (fault : Fault) : Heads header (.error fault) := by
  intro r run
  cases run

theorem quiet_redirect (now : Int) (location : String) (known : LocationText (ascii location)) :
    Quiet now (.ok (redirect location)) := by
  intro r run
  cases run
  exact .redirect _ known

theorem quiet_profile (now id : Int) : Quiet now (.ok (redirectProfile id)) := by
  intro r run
  cases run
  exact .redirect _ (.profile id)

theorem quiet_render (now : Int) (env : Env) (status : Status) (template : Template) :
    Quiet now (renderResponse env status template) := by
  intro r run
  obtain ⟨page, _, same⟩ := render_response_page env status template _ run
  cases same
  exact .page

theorem heads_attempt {α : Type} (header : Header → Prop) (world : World) (x : Except Fault α)
    (next : α → World × Except Fault (Option Response)) (each : ∀ a, x = .ok a → Heads header (next a).2) :
    Heads header (attempt world x next).2 := by
  cases x with
  | error fault => exact heads_fault header fault
  | ok a => exact each a rfl

theorem new_sid_chars (env : Env) (world : World) :
    (∀ c ∈ newSid env world, c ∈ randTable) ∧ (newSid env world).length = 64 := by
  constructor
  · intro c member
    obtain ⟨i, _, same⟩ := List.mem_map.mp member
    have inside : getRand env.address (world.counter + i) % 64 < randTable.length := Nat.mod_lt _ (by decide)
    rw [← same, List.getD_eq_getElem?_getD, List.getElem?_eq_getElem inside]
    exact List.getElem_mem inside
  · simp [newSid, genRandomDummyString]

theorem connect_quiet (world : World) (now : Int) (req : Request) : Quiet now (connect world now req).2 := by
  apply heads_attempt
  intro myAcc _
  cases myAcc with
  | none => exact quiet_redirect _ "/dashboard/" .dashboard
  | some me =>
      apply heads_attempt
      intro account _
      cases account with
      | none => exact quiet_redirect _ "/dashboard/" .dashboard
      | some other => exact quiet_profile _ other.id

theorem liking_quiet (now : Int) (write : Database → Int → Post → Database) (world : World) (req : Request) :
    Quiet now (liking write world req).2 := by
  apply heads_attempt
  intro myAcc _
  cases myAcc with
  | none => exact quiet_redirect _ "/dashboard/" .dashboard
  | some me =>
      apply heads_attempt
      intro id _
      cases postGetById world.db id with
      | none => exact quiet_redirect _ "/dashboard/" .dashboard
      | some post =>
          dsimp only
          split
          · exact quiet_profile _ post.authorId
          · exact quiet_redirect _ "/dashboard/" .dashboard

theorem post_quiet (world : World) (now : Int) (req : Request) : Quiet now (post world now req).2 := by
  apply heads_attempt
  intro acc _
  cases acc with
  | none => exact quiet_redirect _ "/dashboard/" .dashboard
  | some me =>
      dsimp only
      split <;> exact quiet_redirect _ "/dashboard/" .dashboard

theorem home_quiet (now : Int) (env : Env) (db : Database) (req : Request) : Quiet now (home env db req) := by
  apply heads_bind
  intro account _
  cases account with
  | some _ => exact quiet_redirect _ "/dashboard/" .dashboard
  | none => exact heads_bind _ _ _ fun template _ => quiet_render _ env .OK template

theorem not_found_quiet (now : Int) (env : Env) (db : Database) (req : Request) : Quiet now (notFound env db req) := by
  apply heads_bind
  intro account _
  exact heads_bind _ _ _ fun template _ => quiet_render _ env .NOT_FOUND template

theorem logout_quiet (db : Database) (now : Int) (req : Request) : Quiet now (logout db now req) := by
  apply heads_bind
  intro account _
  cases account with
  | none => exact quiet_redirect _ "/" .root
  | some _ =>
      intro r run
      cases run
      exact .expired

theorem dashboard_quiet (now : Int) (env : Env) (db : Database) (req : Request) : Quiet now (dashboard env db req) := by
  apply heads_bind
  intro account _
  cases account with
  | none => exact heads_none _
  | some me => exact heads_bind _ _ _ fun _ _ => heads_bind _ _ _ fun template _ => quiet_render _ env .OK template

theorem profile_quiet (now : Int) (env : Env) (db : Database) (req : Request) : Quiet now (profile env db req) := by
  apply heads_bind
  intro account _
  cases account with
  | none => exact heads_none _
  | some me =>
      refine heads_bind _ _ _ fun _ _ => heads_bind _ _ _ fun other _ => ?_
      cases other with
      | none => exact heads_none _
      | some acc2 =>
          dsimp only
          split
          · exact quiet_redirect _ "/dashboard/" .dashboard
          · refine heads_bind _ _ _ fun _ _ => heads_bind _ _ _ fun _ _ => heads_bind _ _ _ fun _ _ =>
            heads_bind _ _ _ fun template _ => ?_
            exact quiet_render _ env .OK template

theorem search_quiet (now : Int) (env : Env) (db : Database) (req : Request) : Quiet now (search env db req) := by
  apply heads_bind
  intro account _
  cases account with
  | none => exact quiet_redirect _ "/login/" .login
  | some me =>
      dsimp only
      split
      · exact heads_none _
      · refine heads_bind _ _ _ fun _ _ => heads_bind _ _ _ fun _ _ => heads_bind _ _ _ fun template _ => ?_
        exact quiet_render _ env .OK template

theorem signup_quiet (env : Env) (world : World) (now : Int) (req : Request) : Quiet now (signup env world now req).2 := by
  apply heads_attempt
  intro myAcc _
  cases myAcc with
  | some me => exact quiet_redirect _ "/dashboard/" .dashboard
  | none =>
      apply heads_attempt
      intro template _
      split
      · exact heads_attempt _ _ _ _ fun _ _ => quiet_redirect _ "/login/" .login
      · exact quiet_render _ env .OK template

theorem login_failed_quiet (now : Int) (env : Env) (template : Template) : Quiet now (loginFailed env template) :=
  heads_bind _ _ _ fun set _ => quiet_render _ env .OK set

theorem authenticate_heads (env : Env) (world : World) (now : Int) (username password : BasicString) (template : Template) :
    Heads (AnswerHeader now) (authenticate env world now username password template).2 := by
  have failed := heads_weaken _ _ _ (login_failed_quiet now env template) AnswerHeader.quiet
  rw [authenticate]
  split
  · cases found : world.db.accounts.find? fun row => row.username = base64Encode username.data ∧
        row.password = env.sha256 password.data with
    | none =>
        simp only [sessionCreate, found]
        exact failed
    | some row =>
        obtain ⟨session, created, sid, _⟩ :=
          session_create_finds env world.db now world.counter username.data password.data row found
        obtain ⟨chars, size⟩ := new_sid_chars env world
        simp only [created, sid]
        intro r run
        cases run
        exact .opened _ chars size
  · exact failed

theorem login_heads (env : Env) (world : World) (now : Int) (req : Request) : Heads (AnswerHeader now) (login env world now req).2 := by
  apply heads_attempt
  intro myAcc _
  cases myAcc with
  | some me => exact heads_weaken _ _ _ (quiet_redirect _ "/dashboard/" .dashboard) AnswerHeader.quiet
  | none =>
      dsimp only
      split
      · exact heads_attempt _ _ _ _ fun template _ => authenticate_heads env world now _ _ template
      · exact heads_weaken _ _ _ (heads_bind _ _ _ fun template _ => quiet_render _ env .OK template) AnswerHeader.quiet

-- Only login opens a session.
theorem call_quiet (env : Env) (world : World) (arrival : Arrival) (other : arrival.route ≠ .login) :
    Quiet arrival.now (callHandler env world arrival).2 := by
  rw [callHandler]
  cases route : arrival.route with
  | connect => exact connect_quiet world arrival.now arrival.req
  | dashboard => exact dashboard_quiet _ env world.db arrival.req
  | home => exact home_quiet _ env world.db arrival.req
  | like => exact liking_quiet _ _ world arrival.req
  | unlike => exact liking_quiet _ _ world arrival.req
  | login => exact absurd route other
  | logout => exact logout_quiet world.db arrival.now arrival.req
  | post => exact post_quiet world arrival.now arrival.req
  | profile => exact profile_quiet _ env world.db arrival.req
  | search => exact search_quiet _ env world.db arrival.req
  | signup => exact signup_quiet env world arrival.now arrival.req
  | notFound => exact not_found_quiet _ env world.db arrival.req

theorem call_heads (env : Env) (world : World) (arrival : Arrival) :
    Heads (AnswerHeader arrival.now) (callHandler env world arrival).2 := by
  by_cases entering : arrival.route = .login
  · rw [callHandler, entering]
    exact login_heads env world arrival.now arrival.req
  · exact heads_weaken _ _ _ (call_quiet env world arrival entering) AnswerHeader.quiet

theorem answered_heads (header : Header → Prop) (env : Env) (world : World) (arrival : Arrival)
    (called : Heads header (callHandler env world arrival).2) (quiet : ∀ h, QuietHeader arrival.now h → header h) :
    Heads header (handle env world arrival).2 := by
  apply heads_attempt
  intro response answered
  cases response with
  | none => exact heads_weaken _ _ _ (not_found_quiet _ env _ arrival.req) quiet
  | some response =>
      intro r run
      cases run
      exact called response answered

theorem handle_quiet (env : Env) (world : World) (arrival : Arrival) (other : arrival.route ≠ .login) :
    Quiet arrival.now (handle env world arrival).2 :=
  answered_heads _ env world arrival (call_quiet env world arrival other) fun _ known => known

theorem handle_heads (env : Env) (world : World) (arrival : Arrival) : Heads (AnswerHeader arrival.now) (handle env world arrival).2 :=
  answered_heads _ env world arrival (call_heads env world arrival) AnswerHeader.quiet

-- What the parts of a header value are made of.
def ValueText (text : List UInt8) : Prop := ∀ c ∈ text, ValueChar c

instance (text : List UInt8) : Decidable (ValueText text) := List.decidableBAll ValueChar text

theorem printed_append (front back : List UInt8) (first : ValueText front) (second : ValueText back) : ValueText (front ++ back) := by
  intro c member
  rcases List.mem_append.mp member with here | there
  · exact first c here
  · exact second c there

theorem printed_flatten (parts : List (List UInt8)) (each : ∀ part ∈ parts, ValueText part) : ValueText parts.flatten := by
  intro c member
  obtain ⟨part, inParts, inside⟩ := List.mem_flatten.mp member
  exact each part inParts c inside

theorem printed_one_line (text : List UInt8) (printed : ValueText text) : OneLine text ∧ 0 ∉ text := by
  refine ⟨⟨fun member => ?_, fun member => ?_⟩, fun member => ?_⟩ <;> exact absurd (printed _ member) (by decide)

-- The fixed texts in the values, and the names that a date is made of.
theorem fixed_printed : ∀ text ∈ ["sid", "=", "; Path=/", "; Expires=", ", ", " ", ":", " GMT", "/", "/dashboard/", "/login/",
    "/profile/", "max-age=2592000", "text/plain"], ValueText (ascii text) ∧ (ascii text).length ≤ 200 := by decide +kernel

theorem date_names_printed :
    ∀ name ∈ "?" :: dayNames ++ monthNames, ValueText (ascii name) ∧ (ascii name).length ≤ 3 := by decide +kernel

theorem digit_byte (d : Char) (digit : d.isDigit = true) : (chr d).toNat = d.toNat ∧ 48 ≤ d.toNat ∧ d.toNat ≤ 57 := by
  simp only [Char.isDigit, Bool.and_eq_true, decide_eq_true_eq] at digit
  have low : 48 ≤ d.toNat := digit.1
  have high : d.toNat ≤ 57 := digit.2
  rw [chr]
  exact ⟨Nat.mod_eq_of_lt (by omega), low, high⟩

theorem digits_printed (n : Nat) : ValueText ((Nat.toDigits 10 n).map chr) := by
  intro c member
  obtain ⟨d, digit, rfl⟩ := List.mem_map.mp member
  have range := digit_byte d (Nat.isDigit_of_mem_toDigits (by decide) (by decide) digit)
  exact .inl (by omega)

theorem decimal_printed (i : Int) : ValueText (decimal i) := by
  rw [decimal]
  split
  · exact printed_append [chr '-'] _ (List.forall_mem_singleton.mpr (.inl (by decide))) (digits_printed _)
  · exact digits_printed _

theorem name_at_known (names : List String) (known : List UInt8 → Prop) (each : ∀ name ∈ names, known (ascii name))
    (other : known (ascii "?")) (i : Int) : known (nameAt names i) := by
  rw [nameAt]
  split
  · rw [List.getD_eq_getElem?_getD]
    cases found : names[i.toNat]? with
    | none => exact other
    | some name => exact each name (List.mem_of_getElem? found)
  · exact other

theorem date_name_printed (names : List String) (part : ∀ name ∈ names, name ∈ dayNames ++ monthNames) (i : Int) :
    ValueText (nameAt names i) ∧ (nameAt names i).length ≤ 3 := by
  apply name_at_known names fun text => ValueText text ∧ text.length ≤ 3
  · exact fun name member => date_names_printed name (List.mem_cons_of_mem _ (part name member))
  · exact date_names_printed "?" List.mem_cons_self

theorem two_columns_printed (i : Int) : ValueText (twoColumns '0' i) ∧ (twoColumns '0' i).length ≤ 12 := by
  have short := decimal_length i
  rw [twoColumns]
  split
  · have zero : ValueText [chr '0'] := List.forall_mem_singleton.mpr (.inl (by decide))
    exact ⟨printed_append _ _ zero (decimal_printed i), by rw [List.length_cons]; omega⟩
  · exact ⟨decimal_printed i, by omega⟩

theorem expire_printed (tm : Tm) : ValueText (strftimeExpire tm) ∧ (strftimeExpire tm).length ≤ 76 := by
  obtain ⟨day, dayShort⟩ := date_name_printed dayNames (fun _ => List.mem_append_left _) tm.wday
  obtain ⟨month, monthShort⟩ := date_name_printed monthNames (fun _ => List.mem_append_right _) tm.mon
  obtain ⟨mday, mdayShort⟩ := two_columns_printed tm.mday
  obtain ⟨hour, hourShort⟩ := two_columns_printed tm.hour
  obtain ⟨minute, minuteShort⟩ := two_columns_printed tm.min
  obtain ⟨second, secondShort⟩ := two_columns_printed tm.sec
  have year := decimal_printed (tm.year + 1900)
  have yearShort := decimal_length (tm.year + 1900)
  have parts : strftimeExpire tm = [nameAt dayNames tm.wday, ascii ", ", twoColumns '0' tm.mday, ascii " ",
      nameAt monthNames tm.mon, ascii " ", decimal (tm.year + 1900), ascii " ", twoColumns '0' tm.hour, ascii ":",
      twoColumns '0' tm.min, ascii ":", twoColumns '0' tm.sec, ascii " GMT"].flatten := by
    simp [strftimeExpire, clock]
  have comma := (fixed_printed ", " (by simp)).1
  have blank := (fixed_printed " " (by simp)).1
  have colon := (fixed_printed ":" (by simp)).1
  have zone := (fixed_printed " GMT" (by simp)).1
  rw [parts]
  constructor
  · apply printed_flatten
    simp only [List.forall_mem_cons]
    exact ⟨day, comma, mday, blank, month, blank, year, blank, hour, colon, minute, colon, second, zone, by simp⟩
  · simp only [List.flatten_cons, List.flatten_nil, List.length_append]
    change _ + (2 + (_ + (1 + (_ + (1 + (_ + (1 + (_ + (1 + (_ + (1 + (_ + (4 + 0))))))))))))) ≤ 76
    omega

theorem cookie_printed (sid expiry : List UInt8) (sidPrinted : ValueText sid) (expiryPrinted : ValueText expiry)
    (sidShort : sid.length ≤ 64) (expiryShort : expiry.length ≤ 76) :
    ValueText (cookieToString (cookieSetAttr (cookieInit (ascii "sid") sid) .EXPIRE expiry)) ∧
      (cookieToString (cookieSetAttr (cookieInit (ascii "sid") sid) .EXPIRE expiry)).length ≤ 200 := by
  have name := printed_append _ _ (fixed_printed "sid" (by simp)).1 (fixed_printed "=" (by simp)).1
  have front : ValueText (ascii "sid" ++ ascii "=" ++ sid) := printed_append _ _ name sidPrinted
  have frontShort : (ascii "sid" ++ ascii "=" ++ sid).length ≤ 68 := by
    rw [List.length_append]
    change 4 + _ ≤ 68
    omega
  have back := (fixed_printed "; Path=/" (by simp)).1
  have expires : ValueText (ascii "; Expires=" ++ expiry) :=
    printed_append _ _ (fixed_printed "; Expires=" (by simp)).1 expiryPrinted
  rw [cookieSetAttr]
  split
  · have shape : cookieToString (cookieInit (ascii "sid") sid) = (ascii "sid" ++ ascii "=" ++ sid) ++ ascii "; Path=/" := by
      simp [cookieToString, cookieInit]
    rw [shape]
    refine ⟨printed_append _ _ front back, ?_⟩
    rw [List.length_append]
    change _ + 8 ≤ 200
    omega
  · have shape : cookieToString { cookieInit (ascii "sid") sid with expires := some (ascii "; Expires=" ++ expiry) } =
        (ascii "sid" ++ ascii "=" ++ sid) ++ (ascii "; Expires=" ++ expiry) ++ ascii "; Path=/" := by
      simp [cookieToString, cookieInit]
    rw [shape]
    refine ⟨printed_append _ _ (printed_append _ _ front expires) back, ?_⟩
    have middle : (ascii "; Expires=" ++ expiry).length = 10 + expiry.length := List.length_append
    rw [List.length_append, List.length_append, middle]
    change _ + (10 + _) + 8 ≤ 200
    omega

-- A header field that handlers set, and what it takes of the text.
structure FieldFits (entry : List UInt8 × List UInt8) : Prop where
  name : ValueText entry.1 ∧ chr ':' ∉ entry.1
  value : ValueText entry.2
  short : (entryText entry).length ≤ 218

def answerNames : List String := ["Location", "Set-Cookie", "Content-Type", "Content-Length", "Cache-Control"]

theorem field_fits (name : String) (known : name ∈ answerNames) (value : List UInt8)
    (printed : ValueText value ∧ value.length ≤ 200) : FieldFits (ascii name, value) := by
  have table : ∀ name ∈ answerNames, (ValueText (ascii name) ∧ chr ':' ∉ ascii name) ∧ (ascii name).length ≤ 14 := by
    decide +kernel
  obtain ⟨text, few⟩ := table name known
  refine ⟨text, printed.1, ?_⟩
  have length := entry_text_length (ascii name, value)
  have short := printed.2
  dsimp only at length
  omega

theorem sendable_fields (h : Header) (fields : ∀ entry ∈ h, FieldFits entry) (few : h.length ≤ 9) : SendableHeader h where
  names := by
    intro entry member
    obtain ⟨printed, noColon⟩ := (fields entry member).name
    exact ⟨(printed_one_line _ printed).1, noColon, (printed_one_line _ printed).2⟩
  values := fun entry member => printed_one_line _ (fields entry member).value
  short := by
    -- Nine times 218 is below the 2048 of RESP_SIZE.
    have bound : (h.map fun entry => (entryText entry).length).sum ≤ h.length * 218 := by
      have each : ∀ size ∈ h.map (fun entry => (entryText entry).length), size ≤ 218 := by
        rw [List.forall_mem_map]
        exact fun entry member => (fields entry member).short
      simpa only [List.length_map, Nat.nsmul_eq_mul] using List.sum_le_card_nsmul _ 218 each
    rw [List.length_flatMap]
    omega

theorem location_printed (location : List UInt8) (known : LocationText location) :
    ValueText location ∧ location.length ≤ 200 := by
  cases known with
  | root => exact fixed_printed "/" (by simp)
  | dashboard => exact fixed_printed "/dashboard/" (by simp)
  | login => exact fixed_printed "/login/" (by simp)
  | profile id =>
      have short := decimal_length id
      have front := printed_append _ _ (fixed_printed "/profile/" (by simp)).1 (decimal_printed id)
      refine ⟨printed_append _ _ front (fixed_printed "/" (by simp)).1, ?_⟩
      rw [List.length_append, List.length_append]
      change 9 + _ + 1 ≤ 200
      omega

theorem opened_printed (now : Int) (sid : List UInt8) (chars : ∀ c ∈ sid, c ∈ randTable) (size : sid.length ≤ 64) :
    ValueText (openedCookie now sid) ∧ (openedCookie now sid).length ≤ 200 := by
  have table : ValueText randTable := by decide +kernel
  obtain ⟨printed, short⟩ := expire_printed (gmtime (now + 3600 * 24 * 30))
  exact cookie_printed sid _ (fun c member => table c (chars c member)) printed size short

theorem expired_printed (now : Int) : ValueText (expiredCookie now) ∧ (expiredCookie now).length ≤ 200 := by
  obtain ⟨printed, short⟩ := expire_printed (gmtime (now + -1))
  exact cookie_printed [] _ (List.forall_mem_nil _) printed (Nat.zero_le _) short

theorem mime_type_printed (uri : List UInt8) : ValueText (mimeTypeMux uri) ∧ (mimeTypeMux uri).length ≤ 200 := by
  have types : ∀ entry ∈ fileTypes, ValueText entry.2 ∧ entry.2.length ≤ 200 := by decide +kernel
  rw [mimeTypeMux]
  cases found : fileTypes.find? fun entry => revCmp uri entry.1 with
  | none => exact fixed_printed "text/plain" (by simp)
  | some entry => exact types entry (List.mem_of_find?_eq_some found)

theorem content_len_printed (size : Nat) : ValueText (contentLen size) ∧ (contentLen size).length ≤ 200 := by
  refine ⟨fun c member => digits_printed size c (List.mem_of_mem_take member), ?_⟩
  rw [contentLen, List.length_take]
  omega

theorem answer_header_sendable (now : Int) (h : Header) (answer : AnswerHeader now h) : SendableHeader h := by
  have location := field_fits "Location" (by simp [answerNames])
  have cookie := field_fits "Set-Cookie" (by simp [answerNames])
  cases answer with
  | quiet h header =>
      cases header with
      | page => exact sendable_fields [] (by simp) (by decide)
      | redirect place known =>
          refine sendable_fields _ ?_ (Nat.le_add_left 1 8)
          simpa using location _ (location_printed place known)
      | expired =>
          refine sendable_fields _ ?_ (Nat.le_add_left 2 7)
          simp only [List.forall_mem_cons]
          exact ⟨location _ (fixed_printed "/" (by simp)), cookie _ (expired_printed now), by simp⟩
      | file uri size =>
          refine sendable_fields _ ?_ (Nat.le_add_left 3 6)
          simp only [List.forall_mem_cons]
          exact ⟨field_fits "Content-Type" (by simp [answerNames]) _ (mime_type_printed uri),
            field_fits "Content-Length" (by simp [answerNames]) _ (content_len_printed size),
            field_fits "Cache-Control" (by simp [answerNames]) _ (fixed_printed "max-age=2592000" (by simp)), by simp⟩
  | opened sid chars size =>
      refine sendable_fields _ ?_ (Nat.le_add_left 2 7)
      simp only [List.forall_mem_cons]
      exact ⟨cookie _ (opened_printed now sid chars (by omega)), location _ (fixed_printed "/dashboard/" (by simp)), by simp⟩

end Facebooc
