import Facebooc.FormRoundTrip

set_option autoImplicit false

namespace Facebooc

open CMemory

-- The decoded text, its NUL, and the NUL moved on by the & of the parsers.
def DecoderFits (str : List UInt8) : Prop :=
  ∃ size, decoderSize str = some size ∧ (size.toNat : Int) = (str.length : Int) - percentCounter str * 2 + 1 + 16 ∧
    (urldecode2 str).length + 1 + 1 ≤ size.toNat

theorem decoder_fits_few (str : List UInt8) (fits : DecoderFits str) :
    str.tail.count (chr '%') ≤ escapes str + 7 ∧ str.tail.count (chr '%') < 2 ^ 30 := by
  have exact := urldecode2_length str
  obtain ⟨n, sized, value, room⟩ := fits
  rw [← percentCounter]
  rw [decoderSize] at sized
  split at sized
  · cases sized
    rw [decoder_size_nat str.length (percentCounter str * 2)] at value room
    omega
  · cases sized

theorem decoder_fits_stores (str : List UInt8) (fits : DecoderFits str) :
    ∃ o text marked ended, urlDecoder str = .ok o ∧ cstrAt o 0 = .ok text ∧ store o text.length (chr '&') = .ok marked ∧
      store marked (text.length + 1) 0 = .ok ended := by
  obtain ⟨few, _⟩ := decoder_fits_few str fits
  rw [← percentCounter] at few
  have made := (url_decoder_iff str _).mpr ⟨by omega, rfl⟩
  obtain ⟨clean, spare, same⟩ := url_decoder_text str (by omega)
  have objects := Except.ok.inj (made.symm.trans same)
  have lengths := congrArg List.length objects
  rw [List.length_append, List.length_replicate, List.length_append, List.length_cons] at lengths
  have text := cstr_at_start (cstr (urldecode2 str)) spare clean
  obtain ⟨cut, rest, whole, _⟩ := cstr_split (urldecode2 str)
  have shorter : (cstr (urldecode2 str)).length ≤ (urldecode2 str).length :=
    (List.takeWhile_sublist _).length_le
  cases spare with
  | nil =>
      rw [List.length_nil] at lengths
      omega
  | cons c spare =>
      have ended := store_append (cstr (urldecode2 str) ++ [chr '&']) spare c 0
        ((cstr (urldecode2 str)).length + 1) (by simp)
      rw [List.append_assoc, List.singleton_append] at ended
      exact ⟨_, _, _, _, same, text, store_append _ (c :: spare) 0 (chr '&') _ rfl, ended⟩

-- Where the size is right, what is written behind the text stays inside too.
theorem decoder_fits_iff (str : List UInt8) : (DecoderFits str ↔
    str.tail.count (chr '%') ≤ escapes str + 7 ∧ str.tail.count (chr '%') < 2 ^ 30 ∧
      (str.length : Int) + 17 - 2 * str.tail.count (chr '%') < 2 ^ 64) ∧
    (DecoderFits str → ∃ o text marked ended, urlDecoder str = .ok o ∧ cstrAt o 0 = .ok text ∧
      store o text.length (chr '&') = .ok marked ∧ store marked (text.length + 1) 0 = .ok ended) := by
  refine ⟨?_, decoder_fits_stores str⟩
  have exact := urldecode2_length str
  have size := decoder_size_nat str.length (percentCounter str * 2)
  constructor
  · intro fits
    obtain ⟨few, short⟩ := decoder_fits_few str fits
    obtain ⟨n, _, value, _⟩ := fits
    have bound := n.toNat_lt
    rw [percentCounter] at value
    exact ⟨few, short, by omega⟩
  · intro bounds
    rw [← percentCounter] at bounds
    obtain ⟨few, short, inside⟩ := bounds
    have defined : percentCounter str * 2 < 2 ^ 31 := by omega
    refine ⟨_, if_pos defined, ?_, ?_⟩
    · rw [size]
      omega
    · rw [size]
      omega

-- Nine % are counted as eight, and the NUL behind the & falls outside.
theorem decoder_fits_fails : ¬ ∀ str : List UInt8, 0 ∉ str → DecoderFits str := by
  intro all
  have fits := all (List.replicate 9 (chr '%')) (by decide)
  obtain ⟨few, _⟩ := decoder_fits_few _ fits
  exact absurd few (by decide)

-- The literal without its NUL, so that an index is 0 to 15.
def hexTable : Object := ascii "0123456789abcdef"

-- pos is an int and wraps around.
def putByte (res : Object) (pos : Int) (c : UInt8) : Except Fault (Object × Int) := do
  let res ← store res pos c
  .ok (res, Int.bmod (pos + 1) (2 ^ 32))

-- A shift of a negative char keeps its sign; the mask leaves its low bits.
def putEscape (res : Object) (pos : Int) (c : UInt8) : Except Fault (Object × Int) := do
  let (res, pos) ← putByte res pos (chr '%')
  let high ← load hexTable (signedChar c / 16)
  let (res, pos) ← putByte res pos high
  let low ← load hexTable (signedChar c % 16)
  putByte res pos low

def putChar (res : Object) (pos : Int) (c : UInt8) : Except Fault (Object × Int) :=
  if isalnum c then putByte res pos c else putEscape res pos c

def urlEncoderLoop : List UInt8 → Object → Int → Except Fault (Object × Int)
  | [], res, pos => .ok (res, pos)
  | c :: str, res, pos => do
      let (res, pos) ← putChar res pos c
      urlEncoderLoop str res pos

def urlEncoder (str : List UInt8) : Except Fault Object := do
  let size ← malloc (str.length * 3 + 1)
  let (res, pos) ← urlEncoderLoop str (List.replicate size 0) 0
  store res pos 0

def hexByte (n : Nat) : UInt8 := hexTable.getD n 0

def escapeByte (c : UInt8) : List UInt8 :=
  if isalnum c then [c] else [chr '%', hexByte (c.toNat / 16), hexByte (c.toNat % 16)]

-- Letters, digits, and % with two hex digits behind it.
inductive UrlEscaped : List UInt8 → Prop
  | done : UrlEscaped []
  | plain (c : UInt8) (text : List UInt8) (alnum : isalnum c = true) (rest : UrlEscaped text) : UrlEscaped (c :: text)
  | escape (a b : UInt8) (text : List UInt8) (high : isxdigit a = true) (low : isxdigit b = true)
      (rest : UrlEscaped text) : UrlEscaped (chr '%' :: a :: b :: text)

def EncoderRoundTrips (str : List UInt8) : Prop :=
  ∃ res text decoded, urlEncoder str = .ok res ∧ res.length = str.length * 3 + 1 ∧ cstrAt res 0 = .ok text ∧ UrlEscaped text ∧
    urlDecoder text = .ok decoded ∧ cstrAt decoded 0 = .ok str

theorem hex_bytes (c : UInt8) : isxdigit (hexByte (c.toNat / 16)) = true ∧ isxdigit (hexByte (c.toNat % 16)) = true ∧
    16 * hexDigit (hexByte (c.toNat / 16)) + hexDigit (hexByte (c.toNat % 16)) = c := by
  revert c
  exact every_byte _ (by decide +kernel)

theorem url_escaped_text (str : List UInt8) : UrlEscaped (str.flatMap escapeByte) := by
  induction str with
  | nil => exact .done
  | cons c str ih =>
      rw [List.flatMap_cons, escapeByte]
      split
      · rename_i alnum
        exact .plain c _ alnum ih
      · obtain ⟨high, low, _⟩ := hex_bytes c
        exact .escape _ _ _ high low ih

theorem spells_escape_byte (c : UInt8) : Spells (escapeByte c) [c] := by
  rw [escapeByte]
  split
  · rename_i alnum
    exact spells_alnum c alnum
  · obtain ⟨high, low, value⟩ := hex_bytes c
    exact spells_hex _ _ c high low value

theorem spells_decodes (text str : List UInt8) (spells : Spells text str) (clean : 0 ∉ str) :
    ∃ decoded, urlDecoder text = .ok decoded ∧ cstrAt decoded 0 = .ok str := by
  obtain ⟨same, counted⟩ := spells_decoded text str spells
  have few : percentCounter text ≤ escapes text := by
    rw [counted, percentCounter]
    exact (List.tail_sublist text).count_le _
  obtain ⟨_, spare, made⟩ := url_decoder_text text (by omega)
  rw [same, cstr_clean str clean] at made
  exact ⟨_, made, cstr_at_start str spare clean⟩

theorem url_escaped_clean (text : List UInt8) (escaped : UrlEscaped text) : 0 ∉ text := by
  have nonzero : ∀ c : UInt8, isalnum c = true ∨ isxdigit c = true → 0 ≠ c := by
    intro c good zero
    subst zero
    exact absurd good (by decide)
  induction escaped with
  | done => exact List.not_mem_nil
  | plain c text alnum _ ih => simpa using ⟨nonzero c (.inl alnum), ih⟩
  | escape a b text high low _ ih =>
      have percent : (0 : UInt8) ≠ chr '%' := by decide
      simpa using ⟨percent, nonzero a (.inr high), nonzero b (.inr low), ih⟩

theorem put_byte_next (before after : Object) (d c : UInt8) (short : before.length + 1 < 2 ^ 31) :
    putByte (before ++ d :: after) before.length c = .ok (before ++ c :: after, ((before ++ [c]).length : Int)) := by
  have kept : Int.bmod ((before.length : Int) + 1) (2 ^ 32) = before.length + 1 := Int.bmod_eq_of_le (by omega) (by omega)
  rw [putByte, store_append before after d c _ rfl]
  simp only [bind, Except.bind, kept]
  simp

theorem hex_load (n : Nat) (small : n < 16) (i : Int) (here : i = n) : load hexTable i = .ok (hexByte n) := by
  have all : ∀ n : Nat, n < 16 → load hexTable (n : Int) = .ok (hexByte n) := by decide +kernel
  rw [here]
  exact all n small

theorem put_char_next (before after : Object) (c : UInt8) (low : c.toNat < 128) (room : 3 ≤ after.length)
    (short : before.length + (escapeByte c).length < 2 ^ 31) :
    putChar (before ++ after) before.length c =
      .ok (before ++ escapeByte c ++ after.drop (escapeByte c).length, ((before ++ escapeByte c).length : Int)) := by
  obtain ⟨x, y, z, after, rfl⟩ : ∃ x y z rest, after = x :: y :: z :: rest := by
    match after, room with
    | x :: y :: z :: rest, _ => exact ⟨x, y, z, rest, rfl⟩
  have value : signedChar c = c.toNat := if_pos low
  rw [putChar, escapeByte] at *
  split
  · rename_i alnum
    rw [if_pos alnum] at short
    rw [put_byte_next before _ x c (by simpa using short)]
    simp
  · rename_i other
    rw [if_neg other] at short
    simp only [List.length_cons, List.length_nil] at short
    have one := put_byte_next before (y :: z :: after) x (chr '%') (by omega)
    have two := put_byte_next (before ++ [chr '%']) (z :: after) y (hexByte (c.toNat / 16)) (by simp; omega)
    have three := put_byte_next (before ++ [chr '%'] ++ [hexByte (c.toNat / 16)]) after z (hexByte (c.toNat % 16))
      (by simp; omega)
    rw [List.append_assoc, List.singleton_append] at two
    rw [List.append_assoc (before ++ [chr '%']), List.singleton_append] at three
    have high := hex_load (c.toNat / 16) (by omega) (signedChar c / 16) (by omega)
    have lowest := hex_load (c.toNat % 16) (by omega) (signedChar c % 16) (by omega)
    simp only [putEscape, one, two, high, lowest, bind, Except.bind, three]
    simp

theorem escape_byte_length (c : UInt8) : (escapeByte c).length ≤ 3 := by
  rw [escapeByte]
  split
  · exact Nat.le_of_ble_eq_true rfl
  · exact Nat.le_refl 3

theorem escape_bytes_length (str : List UInt8) : (str.flatMap escapeByte).length ≤ str.length * 3 := by
  induction str with
  | nil => exact Nat.le_refl 0
  | cons c str ih =>
      have small := escape_byte_length c
      rw [List.flatMap_cons, List.length_append, List.length_cons]
      omega

theorem url_encoder_loop_ok (str : List UInt8) (before after : Object) (low : ∀ c ∈ str, c.toNat < 128)
    (room : str.length * 3 < after.length) (short : before.length + (str.flatMap escapeByte).length < 2 ^ 31) :
    ∃ rest, (str.flatMap escapeByte).length + rest.length = after.length ∧ urlEncoderLoop str (before ++ after) before.length =
      .ok (before ++ str.flatMap escapeByte ++ rest, ((before ++ str.flatMap escapeByte).length : Int)) := by
  induction str generalizing before after with
  | nil => exact ⟨after, by simp, by simp [urlEncoderLoop]⟩
  | cons c str ih =>
      rw [List.flatMap_cons, List.length_append] at short
      rw [List.length_cons] at room
      have small := escape_byte_length c
      have put := put_char_next before after c (low c List.mem_cons_self) (by omega) (by omega)
      obtain ⟨rest, total, ran⟩ := ih (before ++ escapeByte c) (after.drop (escapeByte c).length)
        (fun d member => low d (List.mem_cons_of_mem c member)) (by rw [List.length_drop]; omega)
        (by rw [List.length_append]; omega)
      refine ⟨rest, ?_, ?_⟩
      · rw [List.length_drop] at total
        rw [List.flatMap_cons, List.length_append]
        omega
      · rw [List.flatMap_cons, ← List.append_assoc before, ← ran, urlEncoderLoop, put]
        rfl

-- A position is an int, and one that is negative is never written to.
structure Moved (pos after : Int) (written : Nat) : Prop where
  inside : 0 ≤ pos
  short : after < 2 ^ 31
  moved : pos < 2 ^ 31 → 0 ≤ after → after = pos + written

theorem put_byte_moved (res next : Object) (pos after : Int) (c : UInt8) (put : putByte res pos c = .ok (next, after)) :
    Moved pos after 1 := by
  rw [putByte] at put
  obtain ⟨stored, inside, put⟩ := (except_bind_ok _ _ _).mp put
  cases put
  rw [store] at inside
  split at inside
  · rename_i bounds
    have high : Int.bmod (pos + 1) (2 ^ 32) < (2 ^ 32 + 1) / 2 := Int.bmod_lt (by decide)
    refine ⟨bounds.1, by omega, ?_⟩
    intro short stays
    by_cases last : pos + 1 < 2 ^ 31
    · exact Int.bmod_eq_of_le (by omega) (by omega)
    · have wrapped : pos + 1 = 2 ^ 31 := by omega
      rw [wrapped] at stays
      exact absurd stays (by decide)
  · cases inside

theorem moved_trans (pos middle after : Int) (one two : Nat) (front : Moved pos middle one) (back : Moved middle after two) :
    Moved pos after (one + two) := by
  refine ⟨front.inside, back.short, ?_⟩
  intro short stays
  have first := front.moved short back.inside
  have second := back.moved front.short stays
  omega

theorem hex_load_ok (i : Int) (c : UInt8) (loaded : load hexTable i = .ok c) : 0 ≤ i := by
  rw [load] at loaded
  split at loaded
  · cases loaded
  · omega

theorem isalnum_low (c : UInt8) : isalnum c = true → c.toNat < 128 := by
  revert c
  exact every_byte _ (by decide +kernel)

-- The index is negative for the bytes that are not 7-bit.
theorem put_char_moved (res next : Object) (pos after : Int) (c : UInt8) (put : putChar res pos c = .ok (next, after)) :
    c.toNat < 128 ∧ Moved pos after (escapeByte c).length := by
  rw [putChar] at put
  rw [escapeByte]
  split at put
  · rename_i alnum
    rw [if_pos alnum]
    exact ⟨isalnum_low c alnum, put_byte_moved res next pos after c put⟩
  · rename_i other
    rw [putEscape] at put
    obtain ⟨⟨one, first⟩, percent, put⟩ := (except_bind_ok _ _ _).mp put
    obtain ⟨high, highLoaded, put⟩ := (except_bind_ok _ _ _).mp put
    obtain ⟨⟨two, second⟩, highPut, put⟩ := (except_bind_ok _ _ _).mp put
    obtain ⟨low, _, put⟩ := (except_bind_ok _ _ _).mp put
    have positive := hex_load_ok _ _ highLoaded
    have notNegative : ¬ signedChar c < 0 := by omega
    rw [signed_char_neg] at notNegative
    rw [if_neg other]
    have start := moved_trans pos first second 1 1 (put_byte_moved _ _ _ _ _ percent) (put_byte_moved _ _ _ _ _ highPut)
    exact ⟨by omega, moved_trans pos second after 2 1 start (put_byte_moved _ _ _ _ _ put)⟩

theorem url_encoder_loop_parts (str : List UInt8) (res next : Object) (pos after : Int)
    (ran : urlEncoderLoop str res pos = .ok (next, after)) (short : pos < 2 ^ 31) (stays : 0 ≤ after) :
    0 ≤ pos ∧ (∀ c ∈ str, c.toNat < 128) ∧ after = pos + (str.flatMap escapeByte).length ∧ after < 2 ^ 31 := by
  induction str generalizing res pos with
  | nil =>
      cases ran
      exact ⟨stays, fun c member => absurd member List.not_mem_nil, by simp, short⟩
  | cons c str ih =>
      rw [urlEncoderLoop] at ran
      obtain ⟨⟨put, middle⟩, one, ran⟩ := (except_bind_ok _ _ _).mp ran
      obtain ⟨low, moved⟩ := put_char_moved res put pos middle c one
      obtain ⟨inside, lows, behind, bound⟩ := ih put middle ran moved.short
      have first := moved.moved short inside
      rw [List.flatMap_cons, List.length_append]
      exact ⟨moved.inside, List.forall_mem_cons.mpr ⟨low, lows⟩, by omega, bound⟩

theorem url_encoder_parts (str : List UInt8) (res : Object) (encoded : urlEncoder str = .ok res) :
    (∀ c ∈ str, c.toNat < 128) ∧ (str.flatMap escapeByte).length < 2 ^ 31 := by
  rw [urlEncoder] at encoded
  obtain ⟨size, _, encoded⟩ := (except_bind_ok _ _ _).mp encoded
  obtain ⟨⟨filled, pos⟩, ran, ended⟩ := (except_bind_ok _ _ _).mp encoded
  change store filled pos 0 = _ at ended
  rw [store] at ended
  split at ended
  · rename_i bounds
    obtain ⟨_, low, moved, short⟩ := url_encoder_loop_parts str _ filled 0 pos ran (by decide) bounds.1
    exact ⟨low, by omega⟩
  · cases ended

theorem url_encoder_ok (str : List UInt8) (low : ∀ c ∈ str, c.toNat < 128) (short : (str.flatMap escapeByte).length < 2 ^ 31) :
    ∃ rest, urlEncoder str = .ok (str.flatMap escapeByte ++ 0 :: rest) ∧
      (str.flatMap escapeByte ++ 0 :: rest).length = str.length * 3 + 1 := by
  have size : malloc ((str.length : Int) * 3 + 1) = .ok (str.length * 3 + 1) := malloc_size _
  obtain ⟨rest, total, ran⟩ := url_encoder_loop_ok str [] (List.replicate (str.length * 3 + 1) 0) low
    (by rw [List.length_replicate]; omega) (by simpa using short)
  have fits := escape_bytes_length str
  rw [List.length_replicate] at total
  obtain ⟨c, rest, rfl⟩ := List.exists_cons_of_length_pos (by omega : 0 < rest.length)
  rw [List.length_cons] at total
  have ended := store_append (str.flatMap escapeByte) rest c 0 _ rfl
  refine ⟨rest, ?_, ?_⟩
  · rw [urlEncoder, size]
    simp only [bind, Except.bind]
    simp only [List.nil_append, List.length_nil, Int.natCast_zero] at ran
    rw [ran]
    exact ended
  · rw [List.length_append, List.length_cons]
    exact total

theorem url_encoder_round_trips_iff (str : List UInt8) (clean : 0 ∉ str) :
    EncoderRoundTrips str ↔ (∀ c ∈ str, c.toNat < 128) ∧ (str.flatMap escapeByte).length < 2 ^ 31 := by
  constructor
  · intro trips
    obtain ⟨res, _, _, encoded, _⟩ := trips
    exact url_encoder_parts str res encoded
  · intro both
    obtain ⟨rest, encoded, size⟩ := url_encoder_ok str both.1 both.2
    have escaped := url_escaped_text str
    obtain ⟨decoded, done, same⟩ := spells_decodes _ str (spells_each escapeByte spells_escape_byte str) clean
    exact ⟨_, _, decoded, encoded, size, cstr_at_start _ rest (url_escaped_clean _ escaped), escaped, done, same⟩

theorem url_encoder_round_trips_blank : EncoderRoundTrips (ascii "a b+%") ↔
    (∀ c ∈ ascii "a b+%", c.toNat < 128) ∧ ((ascii "a b+%").flatMap escapeByte).length < 2 ^ 31 :=
  url_encoder_round_trips_iff (ascii "a b+%") (by decide)

theorem url_encoder_round_trips_fails : ¬ ∀ str : List UInt8, 0 ∉ str → EncoderRoundTrips str := by
  intro all
  obtain ⟨res, _, _, encoded, _⟩ := all [233] (by decide)
  have wrong : urlEncoder [233] = .error .bounds := by decide +kernel
  rw [wrong] at encoded
  cases encoded

end Facebooc
