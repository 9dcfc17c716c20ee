import Facebooc.Account
import Facebooc.CookieRoundTrip

set_option autoImplicit false

namespace Facebooc

open CMemory StringSearch

-- src/handler/helper.c. The value of a missing cookie is read through NULL.
def getAccount (db : Database) (c : Option (List Cookie)) : Except Fault (Option Account) :=
  match c with
  | none => .ok none
  | some cookies =>
      match cookiesGet (some cookies) (ascii "sid") with
      | none => .error .null
      | some cookie => accountGetBySId db cookie.value

def requestAccount (db : Database) (header : Header) : Except Fault (Option Account) := do
  let cookies ← cookiesParser header
  getAccount db cookies

-- What the Cookie header says: its pieces between "; ", each decoded and cut
-- at its first =. The first cookie of a name counts.
def consPiece (c : UInt8) : List (List UInt8) → List (List UInt8)
  | [] => [[c]]
  | piece :: pieces => (c :: piece) :: pieces

def cookiePieces : List UInt8 → List (List UInt8)
  | [] => [[]]
  | [c] => [[c]]
  | c :: d :: rest =>
      if c = chr ';' ∧ d = chr ' ' then [] :: cookiePieces rest else consPiece c (cookiePieces (d :: rest))

def pieceCookie (piece : List UInt8) : Option Cookie :=
  if chr '=' ∈ piece then
    let decoded := urldecode2 piece
    (decoded.idxOf? (chr '=')).map fun i => ⟨decoded.take i, decoded.drop (i + 1)⟩
  else none

def sidCookie (str : List UInt8) : Option (List UInt8) :=
  (((cookiePieces str).filterMap pieceCookie).find? fun cookie => cookie.key = ascii "sid").map Cookie.value

def requestSid (header : Header) : Option (List UInt8) := (headerGet header (ascii "cookie")).bind sidCookie

def sessionAccountRow (db : Database) (sid : List UInt8) : Option AccountRow :=
  (db.sessions.find? fun row => row.session = sid).bind fun session =>
    db.accounts.find? fun row => row.id = session.account

-- Rows hold what accountCreate stores for texts that are not empty.
structure StoredRow (row : AccountRow) (account : Account) : Prop where
  ids : account.id = row.id ∧ account.createdAt = row.createdAt
  name : row.name = base64Encode account.name.data
  email : row.email = base64Encode account.email.data
  username : row.username = base64Encode account.username.data
  texts : ∀ text ∈ [account.name, account.email, account.username], text.data ≠ [] ∧ text.size = text.data.length

def Stored (db : Database) : Prop := ∀ row ∈ db.accounts, ∃ account, StoredRow row account

-- get_account returns, and it returns the account of the session the request
-- names, or NULL.
def AccountFound (db : Database) (header : Header) : Prop :=
  ∃ account, requestAccount db header = .ok account ∧
    match (requestSid header).bind (sessionAccountRow db) with
    | none => account = none
    | some row => ∃ found, account = some found ∧ StoredRow row found

def NamedRowStored (db : Database) (header : Header) : Prop :=
  ∀ row, (requestSid header).bind (sessionAccountRow db) = some row → ∃ account, StoredRow row account

-- The Cookie headers get_account can read: a single cookie, which is sid.
def CookieReadable (header : Header) : Prop :=
  ∀ str, headerGet header (ascii "cookie") = some str →
    findFirstOf str (ascii "; ") = .ok none ∧ chr '=' ∈ str ∧ percentCounter str ≤ escapes str + 8 ∧
      0 ∉ urldecode2 str ∧ ascii "sid=" <+: urldecode2 str

theorem account_of_stored_row (row : AccountRow) (account : Account) (stored : StoredRow row account) :
    accountOfRow row = .ok account := by
  obtain ⟨⟨idSame, timeSame⟩, name, email, username, texts⟩ := stored
  have nameText := texts account.name (by simp)
  have emailText := texts account.email (by simp)
  have usernameText := texts account.username (by simp)
  simp only [accountOfRow, newAccountFromDb, name, email, username, base64_round_trip _ nameText.1,
    base64_round_trip _ emailText.1, base64_round_trip _ usernameText.1, bind, Except.bind, ← nameText.2, ← emailText.2,
    ← usernameText.2, ← idSame, ← timeSame]

theorem stored_row (db : Database) (sid : List UInt8) (row : AccountRow) (stored : Stored db)
    (named : sessionAccountRow db sid = some row) : ∃ account, StoredRow row account := by
  obtain ⟨session, _, found⟩ := Option.bind_eq_some_iff.mp named
  exact stored row (List.mem_of_find?_eq_some found)

theorem account_get_by_sid_stored (db : Database) (sid : List UInt8)
    (stored : ∀ row, sessionAccountRow db sid = some row → ∃ account, StoredRow row account) :
    match sessionAccountRow db sid with
    | none => accountGetBySId db sid = .ok none
    | some row => ∃ account, accountGetBySId db sid = .ok (some account) ∧ StoredRow row account := by
  rw [sessionAccountRow] at stored ⊢
  rw [accountGetBySId, sessionGetBySId]
  cases fetched : db.sessions.find? fun row => row.session = sid with
  | none => rfl
  | some session =>
      rw [fetched] at stored
      simp only [Option.map_some, Option.bind_some, accountSelect] at stored ⊢
      cases found : db.accounts.find? fun row => row.id = session.account with
      | none => rfl
      | some row =>
          obtain ⟨account, good⟩ := stored row found
          exact ⟨account, by simp only [account_of_stored_row row account good, bind, Except.bind], good⟩

theorem cookie_pieces_absent (str : List UInt8) (absent : Absent (ascii "; ") str) : cookiePieces str = [str] := by
  induction str using cookiePieces.induct with
  | case1 => rfl
  | case2 c => rfl
  | case3 c d rest separator ih =>
      refine absurd ?_ (absent 0)
      rw [separator.1, separator.2]
      exact List.prefix_append (ascii "; ") rest
  | case4 c d rest other ih =>
      rw [cookiePieces, if_neg other, ih fun k occurs => absent (k + 1) occurs]
      rfl

theorem cookie_pieces_first (str : List UInt8) (s : Nat) (first : FirstAt (ascii "; ") str s) :
    ∃ rest, cookiePieces str = str.take s :: rest := by
  induction str using cookiePieces.induct generalizing s with
  | case1 =>
      have bound := occurs_bound _ _ s (by decide) first.occurs
      exact absurd bound (by simp [ascii])
  | case2 c =>
      have bound := occurs_bound _ _ s (by decide) first.occurs
      exact absurd bound (by simp [ascii])
  | case3 c d rest separator ih =>
      have front : s = 0 := by
        by_contra later
        refine first.first 0 (by omega) ?_
        rw [separator.1, separator.2]
        exact List.prefix_append (ascii "; ") rest
      exact ⟨cookiePieces rest, by rw [cookiePieces, if_pos separator, front]; rfl⟩
  | case4 c d rest other ih =>
      cases s with
      | zero =>
          have seen := (occurs_iff _ _ _).mp first.occurs
          have front : c = chr ';' := Option.some.inj (seen 0 (by decide))
          have next : d = chr ' ' := Option.some.inj (seen 1 (by decide))
          exact absurd ⟨front, next⟩ other
      | succ s =>
          obtain ⟨pieces, split⟩ := ih s ⟨first.occurs, fun k less occurs => first.first (k + 1) (by omega) occurs⟩
          exact ⟨pieces, by rw [cookiePieces, if_neg other, split]; rfl⟩

theorem hex_digit_char (c : UInt8) (digit : isxdigit c = true) : c ≠ 0 ∧ plusToSpace c = c := by
  have notPlus : c ≠ chr '+' := by rintro rfl; exact absurd digit (by decide)
  refine ⟨by rintro rfl; exact absurd digit (by decide), ?_⟩
  rw [plusToSpace, if_neg notPlus]

-- A last character adds one byte to the decoded text, or completes an escape
-- whose first two characters were decoded as they stand.
theorem decode_last (text : List UInt8) (c : UInt8) : ∃ front x, urldecode2 (text ++ [c]) = front ++ [x] ∧
    (urldecode2 text = front ∨ ∃ y, y ≠ 0 ∧ urldecode2 text = front ++ [chr '%', y]) := by
  induction text using urldecode2.induct with
  | case1 => exact ⟨[], plusToSpace c, rfl, .inl rfl⟩
  | case2 a => exact ⟨[plusToSpace a], plusToSpace c, rfl, .inl rfl⟩
  | case3 a b =>
      by_cases escape : a = chr '%' ∧ isxdigit b ∧ isxdigit c
      · obtain ⟨nonzero, plain⟩ := hex_digit_char b escape.2.1
        refine ⟨[], 16 * hexDigit b + hexDigit c, by simp [urldecode2, escape], .inr ⟨b, nonzero, ?_⟩⟩
        rw [urldecode2, plain, escape.1]
        rfl
      · exact ⟨[plusToSpace a, plusToSpace b], plusToSpace c, by simp [urldecode2, escape], .inl rfl⟩
  | case4 a b d src escape ih =>
      obtain ⟨front, x, whole, cases⟩ := ih
      refine ⟨(16 * hexDigit b + hexDigit d) :: front, x, by simp [urldecode2, escape, whole], ?_⟩
      rcases cases with same | ⟨y, nonzero, same⟩
      · exact .inl (by rw [urldecode2, if_pos escape, same])
      · exact .inr ⟨y, nonzero, by rw [urldecode2, if_pos escape, same]; rfl⟩
  | case5 a b d src literal ih =>
      obtain ⟨front, x, whole, cases⟩ := ih
      refine ⟨plusToSpace a :: front, x, ?_, ?_⟩
      · rw [List.cons_append, List.cons_append, List.cons_append, urldecode2, if_neg literal]
        simpa using whole
      · rcases cases with same | ⟨y, nonzero, same⟩
        · exact .inl (by rw [urldecode2, if_neg literal, same])
        · exact .inr ⟨y, nonzero, by rw [urldecode2, if_neg literal, same]; rfl⟩

theorem cookie_insert_decoded (text key value : List UInt8) (equals : chr '=' ∈ text)
    (fits : percentCounter text ≤ escapes text + 8) (decoded : cstr (urldecode2 text) = key ++ chr '=' :: value)
    (noEquals : chr '=' ∉ key) : cookieInsert text [] = .ok [⟨key, value⟩] := by
  obtain ⟨clean, made⟩ := url_decoder_text text fits
  obtain ⟨spare, made⟩ := made
  rw [decoded] at clean made
  simp only [List.mem_append, List.mem_cons, not_or] at clean
  rw [cookieInsert, if_pos equals, made]
  simp only [bind, Except.bind, single_cookie_gen_pair key value spare noEquals clean.1 clean.2.2]

theorem cookie_insert_inv (text : List UInt8) (cookies : List Cookie) (run : cookieInsert text [] = .ok cookies) :
    (chr '=' ∉ text ∧ cookies = []) ∨ ∃ key value, chr '=' ∈ text ∧ percentCounter text ≤ escapes text + 8 ∧
      cstr (urldecode2 text) = key ++ chr '=' :: value ∧ chr '=' ∉ key ∧ cookies = [⟨key, value⟩] := by
  by_cases equals : chr '=' ∈ text
  · have fits : percentCounter text ≤ escapes text + 8 := by
      rw [cookieInsert, if_pos equals] at run
      obtain ⟨o, decoded, _⟩ := (except_bind_ok _ _ _).mp run
      exact ((url_decoder_iff text o).mp decoded).1
    by_cases found : chr '=' ∈ cstr (urldecode2 text)
    · obtain ⟨key, value, split, noEquals⟩ := List.eq_append_cons_of_mem found
      rw [cookie_insert_decoded text key value equals fits split noEquals] at run
      exact .inr ⟨key, value, equals, fits, split, noEquals, (Except.ok.inj run).symm⟩
    · obtain ⟨clean, spare, made⟩ := url_decoder_text text fits
      rw [cookieInsert, if_pos equals, made] at run
      simp only [bind, Except.bind, single_cookie_gen_none _ spare found clean] at run
      cases run
  · rw [cookie_insert_none text equals] at run
    exact .inl ⟨equals, (Except.ok.inj run).symm⟩

theorem piece_cookie_decoded (piece key value : List UInt8) (equals : chr '=' ∈ piece)
    (decoded : urldecode2 piece = key ++ chr '=' :: value) (noEquals : chr '=' ∉ key) :
    pieceCookie piece = some ⟨key, value⟩ := by
  have front : (key ++ chr '=' :: value).take key.length = key := List.take_left
  have back : (key ++ chr '=' :: value).drop (key.length + 1) = value := by
    rw [List.drop_add_one_eq_tail_drop, List.drop_left, List.tail_cons]
  simp only [pieceCookie, if_pos equals, decoded, idx_of_append key value _ noEquals, Option.map_some, front, back]

theorem sid_cookie_first (str piece value : List UInt8) (pieces : List (List UInt8)) (split : cookiePieces str = piece :: pieces)
    (cookie : pieceCookie piece = some ⟨ascii "sid", value⟩) : sidCookie str = some value := by
  rw [sidCookie, split, List.filterMap_cons_some cookie, List.find?_cons_of_pos (by simp)]
  rfl

theorem request_account_inv (db : Database) (header : Header) (str : List UInt8) (account : Option Account)
    (sent : headerGet header (ascii "cookie") = some str) (clean : 0 ∉ str)
    (run : requestAccount db header = .ok account) :
    ∃ text value, firstSegment str = .ok text ∧ chr '=' ∈ text ∧ percentCounter text ≤ escapes text + 8 ∧
      cstr (urldecode2 text) = ascii "sid" ++ chr '=' :: value ∧ accountGetBySId db value = .ok account := by
  obtain ⟨cookies, parsed, got⟩ := (except_bind_ok _ _ _).mp run
  by_cases empty : str = []
  · subst empty
    rw [cookiesParser, sent] at parsed
    cases parsed
    cases got
  · rw [cookies_parser_text header str clean empty sent] at parsed
    obtain ⟨text, segment, parsed⟩ := (except_bind_ok _ _ _).mp parsed
    obtain ⟨list, inserted, parsed⟩ := (except_bind_ok _ _ _).mp parsed
    cases parsed
    rcases cookie_insert_inv text list inserted with ⟨_, rfl⟩ | ⟨key, value, equals, fits, decoded, _, rfl⟩
    · cases got
    · by_cases same : key = ascii "sid"
      · subst same
        exact ⟨text, value, segment, equals, fits, decoded, by simpa [getAccount, cookiesGet] using got⟩
      · simp [getAccount, cookiesGet, same] at got

def oneSession (sid : List UInt8) : Database :=
  ⟨[⟨1, 0, base64Encode (ascii "name"), base64Encode (ascii "user"), base64Encode (ascii "a@b"), []⟩], [⟨1, 0, 1, sid⟩],
    [], [], []⟩

theorem one_session_stored (sid : List UInt8) : Stored (oneSession sid) := by
  intro row member
  rw [List.mem_singleton.mp member]
  exact ⟨⟨1, 0, ⟨ascii "name", 4⟩, ⟨ascii "a@b", 3⟩, ⟨ascii "user", 4⟩⟩, ⟨rfl, rfl⟩, rfl, rfl, rfl, by decide⟩

theorem one_session_row (sid other : List UInt8) : sessionAccountRow (oneSession sid) other =
    if sid = other then (oneSession sid).accounts.head? else none := by
  by_cases same : sid = other <;> simp [sessionAccountRow, oneSession, same]

theorem one_session_found (sid : List UInt8) : ∃ account, accountGetBySId (oneSession sid) sid = .ok (some account) := by
  have found := account_get_by_sid_stored (oneSession sid) sid fun row named =>
    stored_row (oneSession sid) sid row (one_session_stored sid) named
  rw [one_session_row, if_pos rfl] at found
  obtain ⟨account, got, _⟩ := found
  exact ⟨account, got⟩

theorem found_sid (header : Header) (str : List UInt8) (sent : headerGet header (ascii "cookie") = some str)
    (clean : 0 ∉ str) (found : ∀ db, Stored db → AccountFound db header) :
    ∃ text value, firstSegment str = .ok text ∧ chr '=' ∈ text ∧ percentCounter text ≤ escapes text + 8 ∧
      cstr (urldecode2 text) = ascii "sid" ++ chr '=' :: value ∧ sidCookie str = some value := by
  obtain ⟨_, run, _⟩ := found Database.empty (by simp [Stored, Database.empty])
  obtain ⟨text, value, segment, equals, fits, decoded, _⟩ := request_account_inv _ header str _ sent clean run
  refine ⟨text, value, segment, equals, fits, decoded, ?_⟩
  obtain ⟨account, run, right⟩ := found (oneSession value) (one_session_stored value)
  obtain ⟨text', value', segment', _, _, decoded', got⟩ := request_account_inv _ header str _ sent clean run
  rw [segment] at segment'
  cases segment'
  have same : value = value' := by
    have tails := decoded.symm.trans decoded'
    simpa using tails
  obtain ⟨some_account, present⟩ := one_session_found value
  rw [← same, present] at got
  cases got
  have named : requestSid header = sidCookie str := by rw [requestSid, sent, Option.bind_some]
  rw [named] at right
  cases sid : sidCookie str with
  | none =>
      rw [sid] at right
      cases right
  | some other =>
      rw [sid, Option.bind_some, one_session_row] at right
      by_cases equal : value = other
      · rw [equal]
      · rw [if_neg equal] at right
        cases right

-- A % that is decoded differently later cannot be part of the name.
theorem sid_before_percent (front value rest : List UInt8) (y : UInt8)
    (split : front ++ [chr '%', y] = ascii "sid" ++ chr '=' :: value ++ rest) :
    ∃ tail, front = ascii "sid" ++ chr '=' :: tail ∧ tail ++ [chr '%', y] = value ++ rest := by
  have percent : (ascii "sid" ++ chr '=' :: value ++ rest)[front.length]? = some (chr '%') := by
    rw [← split, List.getElem?_append_right (Nat.le_refl _), Nat.sub_self]
    rfl
  have long : 4 ≤ front.length := by
    by_contra short
    have name : ascii "sid" ++ chr '=' :: value ++ rest = ascii "sid=" ++ (value ++ rest) := rfl
    rw [name, List.getElem?_append_left (Nat.lt_of_not_le short)] at percent
    exact absurd (List.mem_of_getElem? percent) (by decide)
  have heads := congrArg (List.take 4) split
  rw [List.take_append_of_le_length long] at heads
  have whole : front = ascii "sid" ++ chr '=' :: front.drop 4 := by
    have joined := (List.take_append_drop 4 front).symm
    rw [heads] at joined
    exact joined
  refine ⟨front.drop 4, whole, ?_⟩
  rw [whole] at split
  simpa using split

-- The cut text and the piece it was cut from carry sid values of different
-- lengths.
theorem cut_sid_differs (text value : List UInt8) (c : UInt8) (decoded : cstr (urldecode2 text) = ascii "sid" ++ chr '=' :: value) :
    ∃ other, urldecode2 (text ++ [c]) = ascii "sid" ++ chr '=' :: other ∧ other.length ≠ value.length := by
  obtain ⟨_, rest, split, cut⟩ := cstr_split (urldecode2 text)
  obtain ⟨front, x, whole, cases⟩ := decode_last text c
  rw [decoded] at split
  rcases cases with same | ⟨y, nonzero, same⟩
  · refine ⟨value ++ rest ++ [x], ?_, by simp⟩
    rw [whole, ← same, split]
    simp
  · rw [same] at split
    obtain ⟨tail, rfl, tails⟩ := sid_before_percent front value rest y split
    refine ⟨tail ++ [x], by rw [whole]; simp, ?_⟩
    have sizes := congrArg List.length tails
    simp only [List.length_append, List.length_cons, List.length_nil] at sizes ⊢
    rcases cut with rfl | ⟨after, rfl⟩
    · simp only [List.length_nil] at sizes
      omega
    · cases after with
      | nil =>
          have last := congrArg List.getLast? tails
          rw [List.getLast?_append_of_ne_nil _ (by simp), List.getLast?_append_of_ne_nil _ (by simp)] at last
          exact absurd (Option.some.inj last) nonzero
      | cons d after =>
          simp only [List.length_cons] at sizes
          omega

theorem found_readable (header : Header) (clean : ∀ str, headerGet header (ascii "cookie") = some str → 0 ∉ str)
    (found : ∀ db, Stored db → AccountFound db header) : CookieReadable header := by
  intro str sent
  obtain ⟨text, value, segment, equals, fits, decoded, named⟩ := found_sid header str sent (clean str sent) found
  have ends := find_first_of_ends str (ascii "; ") (by decide) (by decide) separator_low
  rw [firstSegment] at segment
  generalize findFirstOf str (ascii "; ") = search at ends segment
  cases ends with
  | fault => cases segment
  | absent nowhere =>
      cases segment
      obtain ⟨noNul, rest, split, cut⟩ := cstr_split (urldecode2 str)
      rw [decoded] at split
      have piece := piece_cookie_decoded str (ascii "sid") (value ++ rest) equals (by rw [split]; simp) (by decide)
      have pieces := cookie_pieces_absent str fun k => nowhere k (Nat.zero_le k)
      rw [sid_cookie_first str str _ [] pieces piece] at named
      -- The value the request names has no text behind a NUL, so there is none.
      have nothing : rest = [] := by simpa using named
      rw [nothing, List.append_nil] at split
      exact ⟨rfl, equals, fits, by rw [split, ← decoded]; exact noNul, value, split.symm⟩
  | found t _ occurs first =>
      have inside := occurs_bound _ _ t (by decide) occurs
      change t + 2 ≤ str.length at inside
      cases t with
      | zero => cases segment
      | succ p =>
          have place : ((p + 1 : Nat) : Int) - 1 = p := by omega
          rw [place] at segment
          simp only [bind, Except.bind] at segment
          rw [if_neg (by omega), Int.toNat_natCast] at segment
          cases segment
          obtain ⟨other, cutDecoded, longer⟩ := cut_sid_differs (str.take p) value str[p] decoded
          have cut : str.take p ++ [str[p]] = str.take (p + 1) := List.take_append_getElem (by omega)
          rw [cut] at cutDecoded
          obtain ⟨pieces, split⟩ := cookie_pieces_first str (p + 1) ⟨occurs, fun k less => first k (Nat.zero_le k) less⟩
          have inPiece : chr '=' ∈ str.take (p + 1) := by
            rw [← cut]
            exact List.mem_append_left _ equals
          have piece := piece_cookie_decoded _ (ascii "sid") other inPiece cutDecoded (by decide)
          rw [sid_cookie_first str _ other pieces split piece] at named
          exact absurd (congrArg List.length (Option.some.inj named)) longer

theorem readable_found (header : Header) (clean : ∀ str, headerGet header (ascii "cookie") = some str → 0 ∉ str)
    (readable : CookieReadable header) (db : Database) (stored : NamedRowStored db header) : AccountFound db header := by
  cases sent : headerGet header (ascii "cookie") with
  | none =>
      refine ⟨none, ?_, ?_⟩
      · simp only [requestAccount, cookiesParser, sent, bind, Except.bind, getAccount]
      · simp only [requestSid, sent, Option.bind_none]
  | some str =>
      obtain ⟨single, equals, fits, noNul, value, decoded⟩ := readable str sent
      have nonempty : str ≠ [] := List.ne_nil_of_mem equals
      have ends := find_first_of_ends str (ascii "; ") (by decide) (by decide) separator_low
      rw [single] at ends
      have absent : Absent (ascii "; ") str := by
        cases ends with
        | absent nowhere => exact fun k => nowhere k (Nat.zero_le k)
      have segment : firstSegment str = .ok str := by simp only [firstSegment, single, bind, Except.bind]
      have inserted := cookie_insert_decoded str (ascii "sid") value equals fits
        (by rw [cstr_clean _ noNul]; exact decoded.symm) (by decide)
      have answer : requestAccount db header = accountGetBySId db value := by
        simp only [requestAccount, cookies_parser_text header str (clean str sent) nonempty sent, segment, inserted, bind,
          Except.bind]
        rfl
      have piece := piece_cookie_decoded str (ascii "sid") value equals decoded.symm (by decide)
      have named := sid_cookie_first str str value [] (cookie_pieces_absent str absent) piece
      rw [NamedRowStored, requestSid, sent, Option.bind_some, named, Option.bind_some] at stored
      have stored_answer := account_get_by_sid_stored db value stored
      rw [AccountFound, answer, requestSid, sent, Option.bind_some, named, Option.bind_some]
      cases selected : sessionAccountRow db value with
      | none =>
          rw [selected] at stored_answer
          exact ⟨none, stored_answer, rfl⟩
      | some row =>
          rw [selected] at stored_answer
          obtain ⟨account, got, good⟩ := stored_answer
          exact ⟨some account, got, account, rfl, good⟩

theorem found_row_stored (db : Database) (header : Header) (found : AccountFound db header) : NamedRowStored db header := by
  intro row named
  obtain ⟨account, _, right⟩ := found
  rw [named] at right
  obtain ⟨stored, _, good⟩ := right
  exact ⟨stored, good⟩

-- get_account is right for a request, whatever decodable rows the tables hold,
-- exactly when the Cookie header is one that can be read; and then it is right
-- for any tables exactly when the row it has to return can be decoded. A header
-- of 2^30 bytes, which no request has, is past the int of url_decoder.
theorem get_account_iff (header : Header) (clean : ∀ str, headerGet header (ascii "cookie") = some str → 0 ∉ str) :
    ((∀ db, Stored db → AccountFound db header) ↔ CookieReadable header) ∧
      (CookieReadable header → ∀ db, AccountFound db header ↔ NamedRowStored db header) ∧
      ∀ str text, headerGet header (ascii "cookie") = some str → firstSegment str = .ok text → str.length < 2 ^ 30 →
        DecoderExact text := by
  refine ⟨⟨found_readable header clean, ?_⟩, ?_, ?_⟩
  · intro readable db stored
    refine readable_found header clean readable db fun row named => ?_
    obtain ⟨sid, _, found⟩ := Option.bind_eq_some_iff.mp named
    exact stored_row db sid row stored found
  · intro readable db
    exact ⟨found_row_stored db header, readable_found header clean readable db⟩
  · intro str text _ segment short
    exact decoder_exact text ((first_segment_length str text segment).trans_lt short)

theorem get_account_sid : ((∀ db, Stored db → AccountFound db [(ascii "cookie", ascii "sid=a%41")]) ↔
      CookieReadable [(ascii "cookie", ascii "sid=a%41")]) ∧
    (CookieReadable [(ascii "cookie", ascii "sid=a%41")] → ∀ db,
      AccountFound db [(ascii "cookie", ascii "sid=a%41")] ↔ NamedRowStored db [(ascii "cookie", ascii "sid=a%41")]) ∧
    ∀ str text, headerGet [(ascii "cookie", ascii "sid=a%41")] (ascii "cookie") = some str → firstSegment str = .ok text →
      str.length < 2 ^ 30 → DecoderExact text :=
  get_account_iff _ (by
    intro str sent
    cases (by decide : headerGet [(ascii "cookie", ascii "sid=a%41")] (ascii "cookie") = some (ascii "sid=a%41")).symm.trans sent
    decide)

theorem get_account_faults : (∀ db, requestAccount db [(ascii "cookie", ascii "foo=bar")] = .error .null) ∧
    ¬ AccountFound Database.empty [(ascii "cookie", ascii "foo=bar")] := by
  have parsed : cookiesParser [(ascii "cookie", ascii "foo=bar")] = .ok (some [⟨ascii "foo", ascii "bar"⟩]) := by
    decide +kernel
  have fault : ∀ db, requestAccount db [(ascii "cookie", ascii "foo=bar")] = .error .null := by
    intro db
    simp only [requestAccount, parsed, bind, Except.bind]
    rfl
  refine ⟨fault, ?_⟩
  rintro ⟨account, run, _⟩
  cases (fault Database.empty).symm.trans run

end Facebooc
