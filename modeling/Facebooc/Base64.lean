import Facebooc.CMemory

set_option autoImplicit false

namespace Facebooc

open CMemory

-- include/basic_string.h. The size is set on its own and need not be the length
-- of the text in front of the terminator.
structure BasicString where
  data : List UInt8
  size : Nat
deriving DecidableEq, Repr

def basicStringInit (src : Option (List UInt8)) : BasicString :=
  match src with
  | none => ⟨[], 0⟩
  | some text => ⟨cstr text, (cstr text).length⟩

-- src/base64.c
def encodingTable : List UInt8 := ascii "ABCDEFGHIJKLMNOPQRSTUVWXYZabcdefghijklmnopqrstuvwxyz0123456789+/"

def encodingAt (i : Nat) : UInt8 := encodingTable.getD i 0

-- The table ends at 127; x stands for the entries -1, which are stored as
-- uint16_t.
def decodingTable : List Nat :=
  let x := 65535
  [x, x, x, x, x, x, x, x, x, x, x, x, x, x, x, x, x, x, x, x, x, x, x, x, x, x, x, x, x, x, x, x,
   x, x, x, x, x, x, x, x, x, x, x, 62, x, x, x, 63, 52, 53, 54, 55, 56, 57, 58, 59, 60, 61, x, x,
   x, x, x, x, x, 0, 1, 2, 3, 4, 5, 6, 7, 8, 9, 10, 11, 12, 13, 14, 15, 16, 17, 18, 19, 20, 21, 22,
   23, 24, 25, x, x, x, x, x, x, 26, 27, 28, 29, 30, 31, 32, 33, 34, 35, 36, 37, 38, 39, 40, 41, 42,
   43, 44, 45, 46, 47, 48, 49, 50, 51, x, x, x, x, x]

def base64Encode : List UInt8 → List UInt8
  | [] => []
  | [a] => [encodingAt (a.toNat >>> 2), encodingAt ((a.toNat &&& 3) <<< 4), chr '=', chr '=']
  | [a, b] =>
      [encodingAt (a.toNat >>> 2), encodingAt (((a.toNat &&& 3) <<< 4) ||| ((b.toNat &&& 0xF0) >>> 4)),
       encodingAt ((b.toNat &&& 0x0F) <<< 2), chr '=']
  | a :: b :: c :: rest =>
      let triple := a.toNat <<< 16 ||| b.toNat <<< 8 ||| c.toNat
      encodingAt ((triple >>> 18) &&& 0x3F) :: encodingAt ((triple >>> 12) &&& 0x3F) ::
        encodingAt ((triple >>> 6) &&& 0x3F) :: encodingAt (triple &&& 0x3F) :: base64Encode rest

def decodingAt (o : Object) (i : Int) : Except Fault Nat := do
  let c ← load o i
  match decodingTable[c.toNat]? with
  | none => .error .bounds
  | some v => .ok v

def base64DecodeLoop (o : Object) (strippedLen : Nat) : Nat → Nat → Except Fault (List UInt8)
  | 0, _ => .error .loop
  | rounds + 1, i =>
      if strippedLen - i > 3 then do
        let d0 ← decodingAt o i
        let d1 ← decodingAt o (i + 1)
        let d2 ← decodingAt o (i + 2)
        let d3 ← decodingAt o (i + 3)
        let triple := d0 <<< 18 ||| d1 <<< 12 ||| d2 <<< 6 ||| d3
        let rest ← base64DecodeLoop o strippedLen rounds (i + 4)
        .ok (((triple >>> 16) &&& 0xFF).toUInt8 :: ((triple >>> 8) &&& 0xFF).toUInt8 :: (triple &&& 0xFF).toUInt8 :: rest)
      else .ok []

def base64DecodeTail (o : Object) (strippedLen : Int) (paddingLen : Nat) : Except Fault (List UInt8) := do
  if paddingLen = 1 then
    let d0 ← decodingAt o (strippedLen - 3)
    let d1 ← decodingAt o (strippedLen - 2)
    let d2 ← decodingAt o (strippedLen - 1)
    .ok [(d0 <<< 2 ||| ((d1 >>> 4) &&& 3)).toUInt8, (((d1 <<< 4) &&& 0xF0) ||| d2 >>> 2).toUInt8]
  else if paddingLen = 2 then
    let d0 ← decodingAt o (strippedLen - 2)
    let d1 ← decodingAt o (strippedLen - 1)
    .ok [(d0 <<< 2 ||| ((d1 >>> 4) &&& 3)).toUInt8]
  else .ok []

-- The last two characters are read whatever the length of the text, and the
-- length of the result comes from the length of the text alone.
def base64Decode2str (src : List UInt8) : Except Fault BasicString := do
  let o := src ++ [0]
  let last ← load o (src.length - 1)
  let beforeLast ← load o (src.length - 2)
  let paddingLen : Nat := (if last = chr '=' then 1 else 0) + (if beforeLast = chr '=' then 1 else 0)
  let dstLen : Int := (src.length / 4 * 3 : Nat) - (paddingLen : Int)
  let size ← malloc (dstLen + 1)
  let groups ← base64DecodeLoop o (src.length - paddingLen) (src.length + 1) 0
  let tail ← base64DecodeTail o (src.length - paddingLen) paddingLen
  if (groups ++ tail).length < size then .ok ⟨groups ++ tail, dstLen.toNat⟩ else .error .bounds

theorem or_low (a b i m : Nat) (power : 2 ^ i = m) (low : b < m) : a <<< i ||| b = a * m + b := by
  subst power
  rw [Nat.shiftLeft_eq, Nat.mul_comm, Nat.two_pow_add_eq_or_of_lt low]

theorem shift_join (a b i j m : Nat) (low : b <<< j < m <<< j) (power : 2 ^ i = m) :
    a <<< (i + j) ||| b <<< j = (a * m + b) <<< j := by
  subst power
  simp only [Nat.shiftLeft_eq] at low
  have fits : b < 2 ^ i := Nat.lt_of_mul_lt_mul_right low
  rw [Nat.shiftLeft_add, ← Nat.shiftLeft_or_distrib, or_low a b i _ rfl fits]

theorem triple_sum (a b c : Nat) (bLow : b < 256) (cLow : c < 256) :
    a <<< 16 ||| b <<< 8 ||| c = a * 65536 + b * 256 + c := by
  calc
    a <<< 16 ||| b <<< 8 ||| c = (a * 256 + b) <<< 8 ||| c := by
      rw [shift_join a b 8 8 256 (by simp only [Nat.shiftLeft_eq]; omega) rfl]
    _ = (a * 256 + b) * 256 + c := or_low _ c 8 256 rfl cLow
    _ = a * 65536 + b * 256 + c := by omega

theorem quad_sum (d0 d1 d2 d3 : Nat) (low1 : d1 < 64) (low2 : d2 < 64) (low3 : d3 < 64) :
    d0 <<< 18 ||| d1 <<< 12 ||| d2 <<< 6 ||| d3 = d0 * 262144 + d1 * 4096 + d2 * 64 + d3 := by
  calc
    d0 <<< 18 ||| d1 <<< 12 ||| d2 <<< 6 ||| d3 = (d0 * 64 + d1) <<< 12 ||| d2 <<< 6 ||| d3 := by
      rw [shift_join d0 d1 6 12 64 (by simp only [Nat.shiftLeft_eq]; omega) rfl]
    _ = ((d0 * 64 + d1) * 64 + d2) <<< 6 ||| d3 := by
      rw [shift_join (d0 * 64 + d1) d2 6 6 64 (by simp only [Nat.shiftLeft_eq]; omega) rfl]
    _ = ((d0 * 64 + d1) * 64 + d2) * 64 + d3 := or_low _ d3 6 64 rfl low3
    _ = d0 * 262144 + d1 * 4096 + d2 * 64 + d3 := by omega

theorem encoding_at_spec : ∀ v < 64, decodingTable[(encodingAt v).toNat]? = some v ∧ encodingAt v ≠ chr '=' ∧
    encodingAt v ≠ 0 := by decide +kernel

theorem decoding_at_spec (before after : List UInt8) (v : Nat) (i : Int) (low : v < 64) (here : i = before.length) :
    decodingAt (before ++ encodingAt v :: after) i = .ok v := by
  simp only [decodingAt, load_append before after _ i here, bind, Except.bind, (encoding_at_spec v low).1]

theorem sextet_low (n : Nat) : n &&& 0x3F < 64 := Nat.lt_of_le_of_lt Nat.and_le_right (by omega)

theorem sextets (n : Nat) : n &&& 0x3F = n % 64 := Nat.and_two_pow_sub_one_eq_mod n 6

theorem octets (n : Nat) : n &&& 0xFF = n % 256 := Nat.and_two_pow_sub_one_eq_mod n 8

theorem group_bytes (a b c : UInt8) :
    let triple := a.toNat <<< 16 ||| b.toNat <<< 8 ||| c.toNat
    let back := ((triple >>> 18) &&& 0x3F) <<< 18 ||| ((triple >>> 12) &&& 0x3F) <<< 12 |||
      ((triple >>> 6) &&& 0x3F) <<< 6 ||| (triple &&& 0x3F)
    ((back >>> 16) &&& 0xFF).toUInt8 = a ∧ ((back >>> 8) &&& 0xFF).toUInt8 = b ∧ (back &&& 0xFF).toUInt8 = c := by
  intro triple back
  have aLow := a.toNat_lt
  have bLow := b.toNat_lt
  have cLow := c.toNat_lt
  have tripleIs : triple = a.toNat * 65536 + b.toNat * 256 + c.toNat := triple_sum _ _ _ bLow cLow
  have backIs : back = triple := by
    have sum := quad_sum ((triple >>> 18) &&& 0x3F) _ _ _ (sextet_low (triple >>> 12)) (sextet_low (triple >>> 6))
      (sextet_low triple)
    simp only [sextets, Nat.shiftRight_eq_div_pow] at sum
    simp only [back, sextets, Nat.shiftRight_eq_div_pow, sum]
    omega
  simp only [backIs, octets, Nat.shiftRight_eq_div_pow]
  refine ⟨?_, ?_, ?_⟩ <;> apply UInt8.toNat_inj.mp <;> rw [UInt8.toNat_ofNat'] <;> omega

theorem single_byte (a : UInt8) :
    ((a.toNat >>> 2) <<< 2 ||| (((a.toNat &&& 3) <<< 4 >>> 4) &&& 3)).toUInt8 = a := by
  have low := a.toNat_lt
  have mask : a.toNat &&& 3 = a.toNat % 4 := Nat.and_two_pow_sub_one_eq_mod _ 2
  have back : (a.toNat % 4) <<< 4 >>> 4 &&& 3 = a.toNat % 4 := by
    rw [Nat.shiftLeft_shiftRight, ← mask, Nat.and_assoc, Nat.and_self]
  rw [mask, back, or_low _ _ 2 4 rfl (by omega)]
  apply UInt8.toNat_inj.mp
  rw [UInt8.toNat_ofNat', Nat.shiftRight_eq_div_pow]
  omega

theorem byte_masks : ∀ n < 256, (n &&& 0xF0) >>> 4 = n / 16 ∧ n &&& 0x0F = n % 16 ∧ n &&& 3 = n % 4 := by
  decide +kernel

theorem sextet_masks : ∀ n < 64, (n <<< 4) &&& 0xF0 = n % 16 * 16 ∧ (n >>> 4) &&& 3 = n / 16 := by decide +kernel

theorem double_bytes (a b : UInt8) :
    let v1 := ((a.toNat &&& 3) <<< 4) ||| ((b.toNat &&& 0xF0) >>> 4)
    let v2 := (b.toNat &&& 0x0F) <<< 2
    v1 < 64 ∧ v2 < 64 ∧ ((a.toNat >>> 2) <<< 2 ||| ((v1 >>> 4) &&& 3)).toUInt8 = a ∧
      (((v1 <<< 4) &&& 0xF0) ||| v2 >>> 2).toUInt8 = b := by
  intro v1 v2
  have aLow := a.toNat_lt
  have bLow := b.toNat_lt
  obtain ⟨high, low, _⟩ := byte_masks b.toNat bLow
  obtain ⟨_, _, mask⟩ := byte_masks a.toNat aLow
  have v1Is : v1 = a.toNat % 4 * 16 + b.toNat / 16 := by
    simp only [v1, mask, high]
    exact or_low _ _ 4 16 rfl (by omega)
  have v2Is : v2 = b.toNat % 16 * 4 := by
    simp only [v2, low]
    exact Nat.shiftLeft_eq _ 2
  obtain ⟨front, back⟩ := sextet_masks v1 (by omega)
  have v2Back : v2 >>> 2 = b.toNat % 16 := by
    rw [v2Is, Nat.shiftRight_eq_div_pow]
    omega
  have first : (a.toNat >>> 2) <<< 2 ||| v1 / 16 = a.toNat := by
    rw [or_low _ _ 2 4 rfl (by omega), Nat.shiftRight_eq_div_pow]
    omega
  have second : v1 % 16 * 16 ||| b.toNat % 16 = b.toNat := by
    have shifted : (v1 % 16) <<< 4 = v1 % 16 * 16 := Nat.shiftLeft_eq _ 4
    rw [← shifted, or_low _ _ 4 16 rfl (by omega)]
    omega
  refine ⟨by omega, by omega, ?_, ?_⟩
  · rw [back, first]
    exact UInt8.ofNat_toNat
  · rw [front, v2Back, second]
    exact UInt8.ofNat_toNat

def paddingOf (data : List UInt8) : Nat :=
  if data.length % 3 = 0 then 0 else if data.length % 3 = 1 then 2 else 1

theorem encode_length (data : List UInt8) : (base64Encode data).length = (data.length + 2) / 3 * 4 := by
  induction data using base64Encode.induct with
  | case1 => rfl
  | case2 a => simp [base64Encode]
  | case3 a b => simp [base64Encode]
  | case4 a b c rest ih =>
      simp only [base64Encode, List.length_cons, ih]
      omega

theorem decoding_pair (before after : List UInt8) (v0 v1 : Nat) (i j : Int) (low0 : v0 < 64) (low1 : v1 < 64)
    (here : i = before.length) (next : j = before.length + 1) :
    decodingAt (before ++ encodingAt v0 :: encodingAt v1 :: after) i = .ok v0 ∧
      decodingAt (before ++ encodingAt v0 :: encodingAt v1 :: after) j = .ok v1 := by
  refine ⟨decoding_at_spec before _ v0 i low0 here, ?_⟩
  have second := decoding_at_spec (before ++ [encodingAt v0]) after v1 j low1 (by simp [next])
  simpa using second

theorem padding_fits (data : List UInt8) : paddingOf data ≤ (base64Encode data).length := by
  rw [encode_length, paddingOf]
  split
  · omega
  · split <;> omega

theorem high_bits_low (a : UInt8) : a.toNat >>> 2 < 64 := by
  have low := a.toNat_lt
  rw [Nat.shiftRight_eq_div_pow]
  omega

theorem low_bits_low (a : UInt8) : (a.toNat &&& 3) <<< 4 < 64 := by
  rw [(byte_masks _ a.toNat_lt).2.2, Nat.shiftLeft_eq]
  omega

theorem decode_tail_single (before : List UInt8) (a : UInt8) :
    base64DecodeTail (before ++ (base64Encode [a] ++ [0])) (before.length + (base64Encode [a]).length - 2) 2 = .ok [a] := by
  obtain ⟨first, second⟩ := decoding_pair before (chr '=' :: chr '=' :: [0]) _ _ (before.length + (4 : Nat) - 2 - 2)
    (before.length + (4 : Nat) - 2 - 1) (high_bits_low a) (low_bits_low a) (by omega) (by omega)
  change base64DecodeTail (before ++ encodingAt _ :: encodingAt _ :: chr '=' :: chr '=' :: [0])
    (before.length + (4 : Nat) - 2) 2 = _
  simp only [base64DecodeTail, first, second, bind, Except.bind, single_byte a]
  rfl

theorem decode_tail_double (before : List UInt8) (a b : UInt8) :
    base64DecodeTail (before ++ (base64Encode [a, b] ++ [0])) (before.length + (base64Encode [a, b]).length - 1) 1 =
      .ok [a, b] := by
  obtain ⟨low1, low2, front, back⟩ := double_bytes a b
  obtain ⟨first, second⟩ := decoding_pair before (encodingAt ((b.toNat &&& 0x0F) <<< 2) :: chr '=' :: [0]) _ _
    (before.length + (4 : Nat) - 1 - 3) (before.length + (4 : Nat) - 1 - 2) (high_bits_low a) low1 (by omega) (by omega)
  have third := decoding_at_spec (before ++ [encodingAt (a.toNat >>> 2),
    encodingAt (((a.toNat &&& 3) <<< 4) ||| ((b.toNat &&& 0xF0) >>> 4))]) (chr '=' :: [0]) _
    (before.length + (4 : Nat) - 1 - 1) low2 (by
      rw [List.length_append]
      change _ = ((before.length + 2 : Nat) : Int)
      omega)
  rw [List.append_assoc] at third
  change decodingAt (before ++ encodingAt _ :: encodingAt _ :: encodingAt _ :: chr '=' :: [0]) _ = _ at third
  change base64DecodeTail (before ++ encodingAt _ :: encodingAt _ :: encodingAt _ :: chr '=' :: [0])
    (before.length + (4 : Nat) - 1) 1 = _
  simp only [base64DecodeTail, first, second, third, bind, Except.bind, front, back]
  rfl

theorem decode_quad (before after : List UInt8) (a b c : UInt8) (stripped rounds : Nat) (room : before.length + 4 ≤ stripped) :
    let triple := a.toNat <<< 16 ||| b.toNat <<< 8 ||| c.toNat
    let quad := [encodingAt ((triple >>> 18) &&& 0x3F), encodingAt ((triple >>> 12) &&& 0x3F),
      encodingAt ((triple >>> 6) &&& 0x3F), encodingAt (triple &&& 0x3F)]
    base64DecodeLoop (before ++ quad ++ after) stripped (rounds + 1) before.length = (do
      let rest ← base64DecodeLoop (before ++ quad ++ after) stripped rounds (before.length + 4)
      .ok (a :: b :: c :: rest)) := by
  intro triple quad
  obtain ⟨first, second⟩ := decoding_pair before (quad.drop 2 ++ after) _ _ before.length (before.length + 1)
    (sextet_low (triple >>> 18)) (sextet_low (triple >>> 12)) rfl rfl
  obtain ⟨third, fourth⟩ := decoding_pair (before ++ quad.take 2) after _ _ (before.length + 2) (before.length + 3)
    (sextet_low (triple >>> 6)) (sextet_low triple) (by rw [List.length_append]; rfl)
    (by rw [List.length_append]; change _ = ((before.length + 2 : Nat) : Int) + 1; omega)
  have whole : before ++ quad ++ after = before ++ (quad ++ after) := List.append_assoc _ _ _
  have halves : before ++ quad.take 2 ++ (quad.drop 2 ++ after) = before ++ quad ++ after := by simp [quad]
  change decodingAt (before ++ (quad ++ after)) _ = _ at first second
  change decodingAt (before ++ quad.take 2 ++ (quad.drop 2 ++ after)) _ = _ at third fourth
  rw [← whole] at first second
  rw [halves] at third fourth
  obtain ⟨aBack, bBack, cBack⟩ := group_bytes a b c
  rw [base64DecodeLoop, if_pos (by omega)]
  simp only [first, second, third, fourth, bind, Except.bind]
  rw [aBack, bBack, cBack]

theorem base64_decode_parts (data before : List UInt8) (rounds : Nat) (enough : (base64Encode data).length < rounds) :
    ∃ groups tail, groups ++ tail = data ∧
      base64DecodeLoop (before ++ (base64Encode data ++ [0])) (before.length + (base64Encode data).length - paddingOf data)
        rounds before.length = .ok groups ∧
      base64DecodeTail (before ++ (base64Encode data ++ [0]))
        (before.length + (base64Encode data).length - paddingOf data) (paddingOf data) = .ok tail := by
  obtain ⟨rounds, rfl⟩ := Nat.exists_eq_succ_of_ne_zero (by omega : rounds ≠ 0)
  induction data using base64Encode.induct generalizing before rounds with
  | case1 => exact ⟨[], [], rfl, by simp [base64DecodeLoop, base64Encode, paddingOf], rfl⟩
  | case2 a =>
      refine ⟨[], [a], rfl, ?_, decode_tail_single before a⟩
      rw [base64DecodeLoop, if_neg]
      simp [base64Encode, paddingOf]
  | case3 a b =>
      refine ⟨[], [a, b], rfl, ?_, decode_tail_double before a b⟩
      rw [base64DecodeLoop, if_neg]
      simp [base64Encode, paddingOf]
  | case4 a b c rest ih =>
      let triple := a.toNat <<< 16 ||| b.toNat <<< 8 ||| c.toNat
      let quad := [encodingAt ((triple >>> 18) &&& 0x3F), encodingAt ((triple >>> 12) &&& 0x3F),
        encodingAt ((triple >>> 6) &&& 0x3F), encodingAt (triple &&& 0x3F)]
      have size : (base64Encode (a :: b :: c :: rest)).length = (base64Encode rest).length + 4 := by
        simp only [base64Encode, List.length_cons]
      obtain ⟨rounds, rfl⟩ := Nat.exists_eq_succ_of_ne_zero (by omega : rounds ≠ 0)
      -- One round takes four characters, and the rest stands behind them.
      obtain ⟨groups, tail, joined, loop, last⟩ := ih (before ++ quad) rounds (by omega)
      have padding : paddingOf (a :: b :: c :: rest) = paddingOf rest := by
        simp only [paddingOf, List.length_cons, Nat.add_assoc, Nat.reduceAdd, Nat.add_mod_right]
      have room := padding_fits rest
      have front : (before ++ quad).length = before.length + 4 := List.length_append
      have shape : before ++ (base64Encode (a :: b :: c :: rest) ++ [0]) = before ++ quad ++ (base64Encode rest ++ [0]) := by
        simp [base64Encode, quad, triple]
      have stripped : before.length + (base64Encode (a :: b :: c :: rest)).length - paddingOf (a :: b :: c :: rest) =
          (before ++ quad).length + (base64Encode rest).length - paddingOf rest := by omega
      have strippedInt : (before.length : Int) + (base64Encode (a :: b :: c :: rest)).length -
          (paddingOf (a :: b :: c :: rest) : Nat) = (before ++ quad).length + (base64Encode rest).length - paddingOf rest := by
        omega
      refine ⟨a :: b :: c :: groups, tail, by rw [List.cons_append, List.cons_append, List.cons_append, joined], ?_, ?_⟩
      · have round := decode_quad before (base64Encode rest ++ [0]) a b c
          ((before ++ quad).length + (base64Encode rest).length - paddingOf rest) (rounds + 1) (by omega)
        rw [shape, stripped, round, ← front, loop]
        rfl
      · rw [shape, strippedInt, padding]
        exact last

theorem encode_last (data : List UInt8) (nonempty : data ≠ []) :
    ∃ front c d, base64Encode data = front ++ [c, d] ∧
      (if d = chr '=' then 1 else 0) + (if c = chr '=' then 1 else 0) = paddingOf data := by
  induction data using base64Encode.induct with
  | case1 => exact absurd rfl nonempty
  | case2 a => exact ⟨[_, _], chr '=', chr '=', rfl, rfl⟩
  | case3 a b =>
      have low := (double_bytes a b).2.1
      refine ⟨[_, _], _, chr '=', rfl, ?_⟩
      rw [if_pos rfl, if_neg (encoding_at_spec _ low).2.1]
      rfl
  | case4 a b c rest ih =>
      by_cases empty : rest = []
      · subst empty
        refine ⟨[_, _], _, _, rfl, ?_⟩
        rw [if_neg (encoding_at_spec _ (sextet_low _)).2.1, if_neg (encoding_at_spec _ (sextet_low _)).2.1]
        simp [paddingOf]
      · obtain ⟨front, x, y, shape, padding⟩ := ih empty
        refine ⟨_ :: _ :: _ :: _ :: front, x, y, by rw [base64Encode, shape]; rfl, ?_⟩
        rw [padding]
        simp only [paddingOf, List.length_cons, Nat.add_assoc, Nat.reduceAdd, Nat.add_mod_right]

theorem base64_round_trip (data : List UInt8) (nonempty : data ≠ []) :
    base64Decode2str (base64Encode data) = .ok ⟨data, data.length⟩ := by
  obtain ⟨front, c, d, shape, padding⟩ := encode_last data nonempty
  obtain ⟨groups, tail, joined, loop, last⟩ := base64_decode_parts data [] ((base64Encode data).length + 1) (Nat.lt_succ_self _)
  have length := congrArg List.length shape
  rw [List.length_append] at length
  change _ = front.length + 2 at length
  have lastChar : load (base64Encode data ++ [0]) ((base64Encode data).length - 1) = .ok d := by
    have found := load_append (front ++ [c]) [0] d ((base64Encode data).length - 1) (by simp; omega)
    rw [shape] at found ⊢
    simpa using found
  have beforeLast : load (base64Encode data ++ [0]) ((base64Encode data).length - 2) = .ok c := by
    have found := load_append front [d, 0] c ((base64Encode data).length - 2) (by omega)
    rw [shape] at found ⊢
    simpa using found
  have positive := List.length_pos_iff.mpr nonempty
  have size := encode_length data
  have dstLen : ((base64Encode data).length / 4 * 3 : Nat) - (paddingOf data : Int) = data.length := by
    rw [paddingOf]
    split
    · omega
    · split <;> omega
  have groupsRead : base64DecodeLoop (base64Encode data ++ [0]) ((base64Encode data).length - paddingOf data)
      ((base64Encode data).length + 1) 0 = .ok groups := by simpa using loop
  have tailRead : base64DecodeTail (base64Encode data ++ [0]) ((base64Encode data).length - paddingOf data) (paddingOf data) =
      .ok tail := by simpa using last
  simp only [base64Decode2str, lastChar, beforeLast, padding, dstLen, malloc, bind, Except.bind, groupsRead, tailRead]
  rw [if_pos (by omega), joined]
  dsimp only
  rw [if_pos (by omega), Int.toNat_natCast]

theorem base64_encode_injective (left right : List UInt8) (same : base64Encode left = base64Encode right) :
    left = right := by
  have sizes := congrArg List.length same
  rw [encode_length, encode_length] at sizes
  by_cases empty : left = []
  · subst empty
    exact (List.length_eq_zero_iff.mp (by simp only [List.length_nil] at sizes; omega)).symm
  · have filled : right ≠ [] := by
      rintro rfl
      have positive := List.length_pos_iff.mpr empty
      simp only [List.length_nil] at sizes
      omega
    have back := base64_round_trip left empty
    rw [same, base64_round_trip right filled] at back
    exact (BasicString.mk.inj (Except.ok.inj back)).1.symm

theorem base64_encode_nonzero (data : List UInt8) : 0 ∉ base64Encode data := by
  induction data using base64Encode.induct with
  | case1 => simp [base64Encode]
  | case2 a =>
      simp only [base64Encode, List.mem_cons, not_or]
      exact ⟨(encoding_at_spec _ (high_bits_low a)).2.2.symm, (encoding_at_spec _ (low_bits_low a)).2.2.symm, by decide,
        by decide, List.not_mem_nil⟩
  | case3 a b =>
      obtain ⟨low1, low2, _⟩ := double_bytes a b
      simp only [base64Encode, List.mem_cons, not_or]
      exact ⟨(encoding_at_spec _ (high_bits_low a)).2.2.symm, (encoding_at_spec _ low1).2.2.symm,
        (encoding_at_spec _ low2).2.2.symm, by decide, List.not_mem_nil⟩
  | case4 a b c rest ih =>
      simp only [base64Encode, List.mem_cons, not_or]
      exact ⟨(encoding_at_spec _ (sextet_low _)).2.2.symm, (encoding_at_spec _ (sextet_low _)).2.2.symm,
        (encoding_at_spec _ (sextet_low _)).2.2.symm, (encoding_at_spec _ (sextet_low _)).2.2.symm, ih⟩

end Facebooc
