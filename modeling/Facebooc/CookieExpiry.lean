import Facebooc.PostTimes
import Facebooc.SessionWire

set_option autoImplicit false

namespace Facebooc

open CMemory Calendar HttpMessage Runs

-- How a client reads the date of an Expires attribute: names and columns, and
-- a year of any length.
def readMonth (name : List UInt8) : Option Nat := (List.range 12).find? fun n => nameAt monthNames (n : Nat) = name

def readClock (text : List UInt8) : Clock :=
  ⟨digitsValue (text.take 2), digitsValue ((text.drop 3).take 2), digitsValue ((text.drop 6).take 2)⟩

def readExpire (text : List UInt8) : Option Int :=
  let year := (text.drop 12).takeWhile fun c => c ≠ chr ' '
  (readMonth ((text.drop 8).take 3)).map fun (month : Nat) =>
    instant ⟨digitsValue year, month + 1, digitsValue ((text.drop 5).take 2)⟩ (readClock (text.drop (13 + year.length)))

-- Until when a client keeps the cookie of a Set-Cookie value.
def keptUntil (sent : List UInt8) : Option Int :=
  ((sent.splitOn (chr ';')).tail.find? fun part => (ascii " Expires=").isPrefixOf part).bind fun part => readExpire (part.drop 9)

theorem names_read : (∀ n < 12, readMonth (nameAt monthNames (n : Nat)) = some n ∧ chr ';' ∉ nameAt monthNames (n : Nat)) ∧
    ∀ n < 7, chr ';' ∉ nameAt dayNames (n : Nat) := by
  decide +kernel

theorem clock_read (tm : Tm) (columns : Columns tm) (rest : List UInt8) : readClock (clock tm ++ rest) = tmClock tm := by
  obtain ⟨hours, hour⟩ := two_columns_read '0' (by decide) tm.hour columns.hour
  obtain ⟨minutes, minute⟩ := two_columns_read '0' (by decide) tm.min columns.min
  obtain ⟨seconds, second⟩ := two_columns_read '0' (by decide) tm.sec columns.sec
  obtain ⟨h, h', first⟩ := List.length_eq_two.mp hours
  obtain ⟨m, m', middle⟩ := List.length_eq_two.mp minutes
  obtain ⟨s, s', last⟩ := List.length_eq_two.mp seconds
  have text : clock tm ++ rest = h :: h' :: chr ':' :: m :: m' :: chr ':' :: s :: s' :: rest := by
    rw [clock, first, middle, last]
    rfl
  have parts : readClock (clock tm ++ rest) = ⟨digitsValue [h, h'], digitsValue [m, m'], digitsValue [s, s']⟩ := by
    rw [text]
    rfl
  rw [parts, ← first, ← middle, ← last, hour, minute, second, tmClock, Int.toNat_of_nonneg columns.hour.1,
    Int.toNat_of_nonneg columns.min.1, Int.toNat_of_nonneg columns.sec.1]

theorem decimal_digits (i : Int) (inside : 0 ≤ i ∧ i < 2 ^ 31) : ∀ c ∈ decimal i, isdigit c = true := by
  have kept : i.bmod (2 ^ 32) = i := Int.bmod_eq_of_le (by omega) (by omega)
  rw [decimal, kept, if_neg (by omega)]
  intro c member
  obtain ⟨d, digit, rfl⟩ := List.mem_map.mp member
  obtain ⟨byte, low, high⟩ := digit_byte d (Nat.isDigit_of_mem_toDigits (by decide) (by decide) digit)
  rw [isdigit, Bool.and_eq_true, decide_eq_true_eq, decide_eq_true_eq, UInt8.le_iff_toNat_le, UInt8.le_iff_toNat_le, byte]
  exact ⟨low, high⟩

theorem digits_plain (text : List UInt8) (digits : ∀ c ∈ text, isdigit c = true) : chr ' ' ∉ text ∧ chr ';' ∉ text :=
  ⟨fun member => absurd (digits _ member) (by decide), fun member => absurd (digits _ member) (by decide)⟩

theorem two_columns_digits (i : Int) (inside : 0 ≤ i ∧ i < 100) : ∀ c ∈ twoColumns '0' i, isdigit c = true := by
  have digits := decimal_digits i (by omega)
  rw [twoColumns]
  split
  · intro c member
    cases List.mem_cons.mp member with
    | inl same => rw [same]; decide
    | inr later => exact digits c later
  · exact digits

theorem month_index (tm : Tm) (columns : Columns tm) : ∃ n : Nat, n < 12 ∧ tm.mon = n :=
  ⟨tm.mon.toNat, by have := columns.mon; omega, (Int.toNat_of_nonneg columns.mon.1).symm⟩

theorem day_index (tm : Tm) (columns : Columns tm) : ∃ n : Nat, n < 7 ∧ tm.wday = n :=
  ⟨tm.wday.toNat, by have := columns.wday; omega, (Int.toNat_of_nonneg columns.wday.1).symm⟩

-- The date is read back as the instant it was printed for.
theorem expire_read (tm : Tm) (valid : ValidTm tm) (year : 0 ≤ tm.year + 1900 ∧ tm.year + 1900 < 2 ^ 31) :
    readExpire (strftimeExpire tm) = some (instant (tmDate tm) (tmClock tm)) := by
  have columns := valid_tm_columns tm valid
  obtain ⟨w, inWeek, wday⟩ := day_index tm columns
  obtain ⟨n, inYear, mon⟩ := month_index tm columns
  obtain ⟨days, day⟩ := two_columns_read '0' (by decide) tm.mday columns.mday
  obtain ⟨a, b, c, name⟩ := List.length_eq_three.mp (name_columns.1 w inWeek)
  obtain ⟨d, d', digits⟩ := List.length_eq_two.mp days
  obtain ⟨e, f, g, month⟩ := List.length_eq_three.mp (name_columns.2 n inYear)
  have text : strftimeExpire tm = a :: b :: c :: chr ',' :: chr ' ' :: d :: d' :: chr ' ' :: e :: f :: g :: chr ' ' ::
      (decimal (tm.year + 1900) ++ chr ' ' :: (clock tm ++ ascii " GMT")) := by
    rw [strftimeExpire, wday, mon, name, digits, month]
    simp only [List.append_assoc]
    rfl
  have years := take_while_stop (decimal (tm.year + 1900)) (clock tm ++ ascii " GMT") (chr ' ')
    (digits_plain _ (decimal_digits _ year)).1
  have behind : (strftimeExpire tm).drop 12 = decimal (tm.year + 1900) ++ chr ' ' :: (clock tm ++ ascii " GMT") := by
    rw [text]
    rfl
  have hours : (strftimeExpire tm).drop (13 + (decimal (tm.year + 1900)).length) = clock tm ++ ascii " GMT" := by
    have place : 13 + (decimal (tm.year + 1900)).length = 12 + (decimal (tm.year + 1900) ++ [chr ' ']).length := by
      rw [List.length_append, List.length_singleton]
      omega
    have apart := List.append_cons (decimal (tm.year + 1900)) (chr ' ') (clock tm ++ ascii " GMT")
    rw [place, ← List.drop_drop, behind, apart]
    exact List.drop_left
  have named : ((strftimeExpire tm).drop 8).take 3 = nameAt monthNames (n : Nat) := by
    rw [text, month]
    rfl
  have dated : ((strftimeExpire tm).drop 5).take 2 = twoColumns '0' tm.mday := by
    rw [text, digits]
    rfl
  simp only [readExpire, behind, years, hours, named, dated, (names_read.1 n inYear).1, clock_read tm columns, Option.map_some,
    day, decimal_value _ year]
  rw [Int.toNat_of_nonneg year.1, Int.toNat_of_nonneg columns.mday.1, tmDate, mon]

theorem expire_plain (tm : Tm) (valid : ValidTm tm) (year : 0 ≤ tm.year + 1900 ∧ tm.year + 1900 < 2 ^ 31) :
    chr ';' ∉ strftimeExpire tm := by
  have columns := valid_tm_columns tm valid
  obtain ⟨w, inWeek, wday⟩ := day_index tm columns
  obtain ⟨n, inYear, mon⟩ := month_index tm columns
  have columnsPlain (i : Int) (inside : 0 ≤ i ∧ i < 100) :
    chr ';' ∉ twoColumns '0' i := (digits_plain _ (two_columns_digits i inside)).2
  have fixed : chr ';' ∉ ascii ", " ∧ chr ';' ∉ ascii " " ∧ chr ';' ∉ ascii ":" ∧ chr ';' ∉ ascii " GMT" := by decide
  have time : chr ';' ∉ clock tm := by
    rw [clock]
    simp only [List.mem_append, not_or]
    exact ⟨⟨⟨⟨columnsPlain _ columns.hour, fixed.2.2.1⟩, columnsPlain _ columns.min⟩, fixed.2.2.1⟩,
      columnsPlain _ columns.sec⟩
  rw [strftimeExpire, wday, mon]
  simp only [List.mem_append, not_or]
  exact ⟨⟨⟨⟨⟨⟨⟨⟨⟨names_read.2 w inWeek, fixed.1⟩, columnsPlain _ columns.mday⟩, fixed.2.1⟩,
    (names_read.1 n inYear).2⟩, fixed.2.1⟩, (digits_plain _ (decimal_digits _ year)).2⟩, fixed.2.1⟩, time⟩, fixed.2.2.2⟩

theorem expire_instant (t : Int) (inside : 0 ≤ t ∧ t < 2 ^ 32) :
    readExpire (strftimeExpire (gmtime t)) = some t ∧ chr ';' ∉ strftimeExpire (gmtime t) := by
  have valid := gmtime_valid t
  have at_t := gmtime_instant t
  have year := valid_tm_year _ valid t at_t inside
  refine ⟨?_, expire_plain _ valid year⟩
  rw [expire_read _ valid year, at_t]

theorem session_cookie_until (sid : List UInt8) (now duration : Int) (chars : ∀ c ∈ sid, CookieChar c)
    (inside : 0 ≤ now + duration ∧ now + duration < 2 ^ 32) :
    keptUntil (cookieToString (sessionCookie sid (cookieGenExpire now duration))) = some (now + duration) := by
  obtain ⟨read, plain⟩ := expire_instant (now + duration) inside
  rw [← cookieGenExpire] at read plain
  have given : cookieGenExpire now duration ≠ [] := expiry_dated now duration
  generalize cookieGenExpire now duration = expiry at read plain given
  have shape : cookieToString (sessionCookie sid expiry) =
      (ascii "sid=" ++ sid) ++ chr ';' :: ((ascii " Expires=" ++ expiry) ++ chr ';' :: ascii " Path=/") := by
    rw [sessionCookie, cookieSetAttr, if_neg given]
    simp [cookieToString, cookieInit, ascii]
  have pair : chr ';' ∉ ascii "sid=" ++ sid := by
    rw [List.mem_append, not_or]
    exact ⟨by decide, fun member => (chars _ member).2.2.1 rfl⟩
  have dated : chr ';' ∉ ascii " Expires=" ++ expiry := by
    rw [List.mem_append, not_or]
    exact ⟨by decide, plain⟩
  rw [keptUntil, shape, List.splitOn_append_cons_self_of_not_mem pair, List.splitOn_append_cons_self_of_not_mem dated, List.tail_cons,
    List.find?_cons_of_pos (by simp), Option.bind_some]
  exact read

-- What the cookies of an answer are good for, and until when.
theorem sid_cookie_lifetime (site : Site) (past : List Incoming) (incoming : Incoming) (sent : List UInt8) (m : Message)
    (cookie : List UInt8) (answered : (serve site (run (serveNext site) processStart past) incoming).2 = .ok sent)
    (read : readMessage sent = some m) (member : (ascii "Set-Cookie", cookie) ∈ m.fields)
    (dated : 1 ≤ incoming.now ∧ incoming.now < 2 ^ 31) :
    (∃ sid, sid ≠ [] ∧ keptPair cookie = ascii "sid=" ++ sid ∧ keptUntil cookie = some (incoming.now + 30 * 86400)) ∨
      (keptPair cookie = ascii "sid=" ∧ keptUntil cookie = some (incoming.now - 1)) := by
  have full : incoming.received ≠ [] := by
    intro empty
    rw [serve, if_pos empty] at answered
    cases answered
    cases read
  obtain ⟨made, _, again, server⟩ := served_message site _ incoming sent (process_after site past).size answered full
  cases read.symm.trans again
  rcases server.kind with refused | ⟨_, header⟩
  · rw [refused] at member
    cases member
  generalize m.fields = fields at member header
  cases header with
  | quiet h quiet =>
      right
      rw [quiet_set_cookie _ _ quiet cookie member]
      exact ⟨session_cookie_kept [] _ (by simp) (expiry_dated _ _), session_cookie_until [] _ (-1) (by simp) (by omega)⟩
  | opened sid chars size =>
      left
      have kept (c : UInt8) (inside : c ∈ sid) : CookieChar c := rand_char_cookie c (chars c inside)
      simp only [List.mem_cons, List.not_mem_nil, or_false, Prod.mk.injEq] at member
      rcases member with first | second
      · rw [first.2]
        refine ⟨sid, ?_, session_cookie_kept sid _ kept (expiry_dated _ _),
          session_cookie_until sid _ (3600 * 24 * 30) kept (by omega)⟩
        intro empty
        rw [empty] at size
        cases size
      · exact absurd second.1 (by decide)

theorem sid_cookie_lifetime_alice :
    (∃ sid, sid ≠ [] ∧ keptPair (openedCookie 1700000000 aliceSid) = ascii "sid=" ++ sid ∧
        keptUntil (openedCookie 1700000000 aliceSid) = some (1700000000 + 30 * 86400)) ∨
      (keptPair (openedCookie 1700000000 aliceSid) = ascii "sid=" ∧
        keptUntil (openedCookie 1700000000 aliceSid) = some (1700000000 - 1)) := by
  obtain ⟨handlers, made, _⟩ := fb_new_handlers
  exact sid_cookie_lifetime (plainSite handlers made) [formIncoming aliceJoins] (formIncoming aliceEnters) _ _ _
    (alice_enters_answered handlers made) alice_computed.2.2 List.mem_cons_self (by decide)

end Facebooc
