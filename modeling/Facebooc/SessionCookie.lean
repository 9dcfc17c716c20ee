import Facebooc.Account
import Facebooc.CookieRoundTrip
import Facebooc.HeaderLines
import Facebooc.RequestRoundTrip
import Facebooc.Signup

set_option autoImplicit false

namespace Facebooc

open CMemory

-- cookie_template_len__ counts the texts; two more bytes are allocated for the
-- equals sign and the NUL.
def cookieTemplateLen (c : SetCookie) : Nat :=
  c.cookie.key.length + c.cookie.value.length + (c.expires.getD []).length + (c.maxAge.getD []).length +
    (c.domain.getD []).length + (c.path.getD (ascii "; Path=/")).length +
    (if c.secure.isSome then ascii "; Secure" else []).length + (if c.httponly.isSome then ascii "; HttpOnly" else []).length

def sessionCookie (sid expiry : List UInt8) : SetCookie := cookieSetAttr (cookieInit (ascii "sid") sid) .EXPIRE expiry

-- What a client keeps of a Set-Cookie value and sends back.
def keptPair (sent : List UInt8) : List UInt8 := sent.takeWhile fun c => c ≠ chr ';'

structure PlainLine (line : List UInt8) : Prop where
  colon : chr ':' ∈ line
  single : ¬ ascii "\r\n" <:+: line
  chars : ∀ c ∈ line, c.toNat < 128 ∧ c ≠ 0

-- A block of 7-bit lines of which one, and no other, is a Cookie header with
-- the value, behind blanks.
structure CookieBlock (earlier later : List (List UInt8)) (name blanks value : List UInt8) : Prop where
  lines : ∀ line ∈ earlier ++ (name ++ chr ':' :: (blanks ++ value)) :: later, PlainLine line
  name : name.map tolower = ascii "cookie"
  blanks : ∀ c ∈ blanks, c = chr ' '
  only : ∀ line ∈ earlier ++ later, (ownLine line).1 ≠ ascii "cookie"

theorem cookie_to_string_fits (c : SetCookie) : (cookieToString c).length + 1 = cookieTemplateLen c + 2 := by
  simp only [cookieToString, cookieTemplateLen, List.length_append]
  change _ + 1 + _ + _ + _ + _ + _ + _ + _ + 1 = _
  omega

theorem logged_in_sends (now : Int) (sid : List UInt8) : (loggedIn now sid).header =
    [(ascii "Set-Cookie", cookieToString (sessionCookie sid (cookieGenExpire now (3600 * 24 * 30)))),
      (ascii "Location", ascii "/dashboard/")] := rfl

theorem rand_char_cookie : ∀ c ∈ randTable, CookieChar c := by decide +kernel

theorem session_cookie_kept (sid expiry : List UInt8) (chars : ∀ c ∈ sid, CookieChar c) (given : expiry ≠ []) :
    keptPair (cookieToString (sessionCookie sid expiry)) = ascii "sid=" ++ sid := by
  have shape : cookieToString (sessionCookie sid expiry) =
      (ascii "sid=" ++ sid) ++ chr ';' :: (ascii " Expires=" ++ expiry ++ ascii "; Path=/") := by
    rw [sessionCookie, cookieSetAttr, if_neg given]
    simp [cookieToString, cookieInit, ascii]
  rw [keptPair, shape]
  apply take_while_stop
  intro member
  rcases List.mem_append.mp member with inKey | inSid
  · exact absurd inKey (by decide)
  · exact (chars _ inSid).2.2.1 rfl

theorem plain_header_line (line : List UInt8) (plain : PlainLine line) : HeaderLine line :=
  ⟨plain.colon, plain.single, searched_low line fun c member => (plain.chars c member).1⟩

theorem header_get_only (earlier later : Header) (key value : List UInt8) (nonempty : key ≠ [])
    (others : ∀ entry ∈ earlier, entry.1 ≠ key) : headerGet (earlier ++ (key, value) :: later) key = some value := by
  have missing : (earlier.find? fun entry => entry.1 = key) = none :=
    List.find?_eq_none.mpr fun entry member => by simpa using others entry member
  rw [headerGet, if_neg nonempty, List.find?_append, missing, Option.none_or, List.find?_cons_of_pos (by simp)]
  rfl

theorem session_cookie_parsed (header : Header) (sid : List UInt8) (chars : ∀ c ∈ sid, CookieChar c)
    (sent : headerGet header (ascii "cookie") = some (ascii "sid=" ++ sid)) :
    cookiesParser header = .ok (some [⟨ascii "sid", sid⟩]) := by
  have pair : ascii "sid=" ++ sid = pairText (ascii "sid", sid) := rfl
  have keyChars : ∀ c ∈ ascii "sid", CookieChar c := by decide +kernel
  have textChars := pair_text_chars (ascii "sid", sid) keyChars chars
  have inserted := cookie_insert_pair (ascii "sid") sid keyChars chars
  rw [pair] at sent
  have parsed := cookies_parser_text header _ (fun member => (textChars 0 member).2.1 rfl) (by simp [pairText]) sent
  rw [parsed, first_segment_single _ textChars]
  simp only [bind, Except.bind, inserted]

-- What login sends for a session comes back as its id, wherever the client's
-- request carries it.
theorem session_cookie_round_trip (sid expiry : List UInt8) (chars : ∀ c ∈ sid, c ∈ randTable) (given : expiry ≠ []) :
    let sent := cookieToString (sessionCookie sid expiry)
    keptPair sent = ascii "sid=" ++ sid ∧ sent.length < cookieTemplateLen (sessionCookie sid expiry) + 2 ∧
    ∀ (before tail rest : List UInt8) (earlier later : List (List UInt8)) (name blanks : List UInt8), 0 ∉ tail →
      CookieBlock earlier later name blanks (keptPair sent) →
      let lines := earlier ++ (name ++ chr ':' :: (blanks ++ keptPair sent)) :: later
      ∃ header o offset cookies,
        headerParser (before ++ (lines.flatMap lineText ++ (ascii "\r\n" ++ tail) ++ 0 :: rest)) before.length =
          .ok (header, o, offset) ∧
        cookiesParser header = .ok cookies ∧ cookiesGet cookies (ascii "sid") = some ⟨ascii "sid", sid⟩ := by
  intro sent
  have valid : ∀ c ∈ sid, CookieChar c := fun c member => rand_char_cookie c (chars c member)
  have kept : keptPair sent = ascii "sid=" ++ sid := session_cookie_kept sid expiry valid given
  have fits := cookie_to_string_fits (sessionCookie sid expiry)
  refine ⟨kept, by simp only [sent]; omega, ?_⟩
  intro before tail rest earlier later name blanks tailClean block lines
  have good : ∀ line ∈ lines, HeaderLine line := fun line member => plain_header_line line (block.lines line member)
  have clean : 0 ∉ lines.flatMap lineText ++ (ascii "\r\n" ++ tail) := by
    simp only [lineText, List.mem_append, List.mem_flatMap, not_or, not_exists, not_and]
    refine ⟨fun line member => ⟨fun inside => ((block.lines line member).chars 0 inside).2 rfl, by decide⟩,
      by decide, tailClean⟩
  obtain ⟨o, parsed⟩ := header_parser_lines lines before tail rest good clean
  have noColon : chr ':' ∉ name := by
    intro member
    have lowered : tolower (chr ':') ∈ name.map tolower := List.mem_map_of_mem member
    rw [block.name] at lowered
    exact absurd lowered (by decide)
  have own : ownLine (name ++ chr ':' :: (blanks ++ keptPair sent)) = (ascii "cookie", ascii "sid=" ++ sid) := by
    have spaces : ∀ c ∈ blanks, isspace c = true := fun c member => by rw [block.blanks c member]; decide
    rw [own_line_parts name _ noColon, block.name, List.dropWhile_append_of_pos spaces, kept]
    rfl
  have found : headerGet (lines.map ownLine) (ascii "cookie") = some (ascii "sid=" ++ sid) := by
    rw [List.map_append, List.map_cons, own]
    apply header_get_only _ _ _ _ (by decide)
    intro entry member
    obtain ⟨line, inEarlier, same⟩ := List.mem_map.mp member
    rw [← same]
    exact block.only line (List.mem_append_left _ inEarlier)
  exact ⟨_, o, _, _, parsed, session_cookie_parsed _ sid valid found, by simp [cookiesGet]⟩

theorem host_block : CookieBlock [ascii "Host: a"] [] (ascii "Cookie") (ascii " ") (ascii "sid=aZ-~") where
  lines := by
    intro line member
    simp only [List.cons_append, List.nil_append, List.mem_cons, List.not_mem_nil, or_false] at member
    rcases member with host | cookie
    · subst host
      exact ⟨by decide, by decide, by decide +kernel⟩
    · subst cookie
      exact ⟨by decide, by decide, by decide +kernel⟩
  name := by decide
  blanks := by decide +kernel
  only := by decide

theorem session_cookie_round_trip_sid : let sent := cookieToString (sessionCookie (ascii "aZ-~") (ascii "Wed"))
    keptPair sent = ascii "sid=aZ-~" ∧
    ∃ header o offset cookies, headerParser (ascii "GET / HTTP/1.1\r\n" ++ (([ascii "Host: a"] ++
        [ascii "Cookie" ++ chr ':' :: (ascii " " ++ keptPair sent)]).flatMap lineText ++ (ascii "\r\n" ++ []) ++ 0 :: []))
        (ascii "GET / HTTP/1.1\r\n").length = .ok (header, o, offset) ∧
      cookiesParser header = .ok cookies ∧ cookiesGet cookies (ascii "sid") = some ⟨ascii "sid", ascii "aZ-~"⟩ := by
  intro sent
  have trip := session_cookie_round_trip (ascii "aZ-~") (ascii "Wed") (by decide +kernel) (by decide)
  refine ⟨trip.1, trip.2.2 (ascii "GET / HTTP/1.1\r\n") [] [] [ascii "Host: a"] [] (ascii "Cookie") (ascii " ") (by simp) ?_⟩
  rw [trip.1]
  exact host_block

end Facebooc
