import Facebooc.Base64
import Facebooc.SixBits

set_option autoImplicit false

namespace Facebooc

open CMemory SixBits

-- src/base64.c, base64_encode with the indices it works on. size_t subtraction
-- wraps around.
def sizeSub (m n : Nat) : Nat := if n ≤ m then m - n else 2 ^ 64 + m - n

def encodingEntry (i : Nat) : Except Fault UInt8 :=
  match encodingTable[i]? with
  | none => .error .bounds
  | some c => .ok c

def base64EncodeLoop (data : Object) (len : Nat) : Nat → Nat → Except Fault (List UInt8)
  | 0, _ => .error .loop
  | rounds + 1, i =>
      if sizeSub len i > 2 then do
        let a ← load data i
        let b ← load data (i + 1)
        let c ← load data (i + 2)
        let triple := a.toNat <<< 16 ||| b.toNat <<< 8 ||| c.toNat
        let e0 ← encodingEntry ((triple >>> 18) &&& 0x3F)
        let e1 ← encodingEntry ((triple >>> 12) &&& 0x3F)
        let e2 ← encodingEntry ((triple >>> 6) &&& 0x3F)
        let e3 ← encodingEntry (triple &&& 0x3F)
        let rest ← base64EncodeLoop data len rounds (i + 3)
        .ok (e0 :: e1 :: e2 :: e3 :: rest)
      else .ok []

def base64EncodeTail (data : Object) (len : Nat) : Except Fault (List UInt8) := do
  if len % 3 = 1 then
    let a ← load data ((len : Int) - 1)
    let e0 ← encodingEntry (a.toNat >>> 2)
    let e1 ← encodingEntry ((a.toNat &&& 3) <<< 4)
    .ok [e0, e1, chr '=', chr '=']
  else if len % 3 = 2 then
    let a ← load data ((len : Int) - 2)
    let b ← load data ((len : Int) - 1)
    let e0 ← encodingEntry (a.toNat >>> 2)
    let e1 ← encodingEntry (((a.toNat &&& 3) <<< 4) ||| ((b.toNat &&& 0xF0) >>> 4))
    let e2 ← encodingEntry ((b.toNat &&& 0x0F) <<< 2)
    .ok [e0, e1, e2, chr '=']
  else .ok []

-- The NUL goes to data[output_len], whatever has been written before.
def base64EncodeBuffer (data : Object) (len : Nat) : Except Fault BasicString := do
  let outputLen := (len + 2) / 3 * 4
  let size ← malloc (outputLen + 1)
  let groups ← base64EncodeLoop data len (len + 1) 0
  let tail ← base64EncodeTail data len
  if size ≤ outputLen ∨ outputLen < (groups ++ tail).length then .error .bounds
  else if (groups ++ tail).length < outputLen then .error .uninit
  else .ok ⟨groups ++ tail, outputLen⟩

def symbol : Option Nat → UInt8
  | none => chr '='
  | some v => encodingAt v

-- A padded text of the alphabet, in which the bits behind the last byte are
-- zero.
structure CanonicalText (s : List UInt8) : Prop where
  filled : s ≠ []
  quads : s.length % 4 = 0
  digits : ∃ (digits : List Nat) (padding : Nat), s = digits.map encodingAt ++ List.replicate padding (chr '=') ∧ padding ≤ 2 ∧
    (∀ v ∈ digits, v < 64) ∧ ∀ v, digits.getLast? = some v → v % 4 ^ padding = 0

theorem encoding_entry_low (i : Nat) (low : i < 64) : encodingEntry i = .ok (encodingAt i) := by
  have inside : i < encodingTable.length := low
  rw [encodingEntry, encodingAt, List.getElem?_eq_getElem inside, List.getD_eq_getElem?_getD,
    List.getElem?_eq_getElem inside]
  rfl

theorem single_sextets (a : UInt8) : a.toNat >>> 2 = a.toNat / 4 ∧ (a.toNat &&& 3) <<< 4 = a.toNat % 4 * 16 := by
  rw [Nat.shiftRight_eq_div_pow, Nat.shiftLeft_eq, (byte_masks _ a.toNat_lt).2.2]
  exact ⟨rfl, rfl⟩

theorem double_sextets (a b : UInt8) :
    ((a.toNat &&& 3) <<< 4) ||| ((b.toNat &&& 0xF0) >>> 4) = a.toNat % 4 * 16 + b.toNat / 16 ∧
      (b.toNat &&& 0x0F) <<< 2 = b.toNat % 16 * 4 := by
  have bLow := b.toNat_lt
  obtain ⟨high, low, _⟩ := byte_masks b.toNat bLow
  rw [(byte_masks _ a.toNat_lt).2.2, high, low, or_low _ _ 4 16 rfl (by omega)]
  exact ⟨rfl, Nat.shiftLeft_eq _ 2⟩

theorem triple_sextets (a b c : UInt8) :
    let triple := a.toNat <<< 16 ||| b.toNat <<< 8 ||| c.toNat
    (triple >>> 18) &&& 0x3F = a.toNat / 4 ∧ (triple >>> 12) &&& 0x3F = a.toNat % 4 * 16 + b.toNat / 16 ∧
      (triple >>> 6) &&& 0x3F = b.toNat % 16 * 4 + c.toNat / 64 ∧ triple &&& 0x3F = c.toNat % 64 := by
  intro triple
  have aLow := a.toNat_lt
  have bLow := b.toNat_lt
  have cLow := c.toNat_lt
  have sum : triple = a.toNat * 65536 + b.toNat * 256 + c.toNat := triple_sum _ _ _ bLow cLow
  simp only [sextets, sum, Nat.shiftRight_eq_div_pow]
  omega

theorem base64_encode_six_bits (data : List UInt8) : base64Encode data = (sixBits data).map symbol := by
  induction data using base64Encode.induct with
  | case1 => rfl
  | case2 a =>
      obtain ⟨first, second⟩ := single_sextets a
      simp only [base64Encode, first, second, sixBits, List.map_cons, List.map_nil, symbol]
  | case3 a b =>
      obtain ⟨second, third⟩ := double_sextets a b
      simp only [base64Encode, (single_sextets a).1, second, third, sixBits, List.map_cons, List.map_nil, symbol]
  | case4 a b c rest ih =>
      obtain ⟨first, second, third, fourth⟩ := triple_sextets a b c
      simp only [base64Encode, first, second, third, fourth, ih, sixBits, List.map_cons, symbol]

theorem size_sub_front (m n : Nat) : sizeSub (m + n) m = n := by
  rw [sizeSub, if_pos (Nat.le_add_right m n), Nat.add_sub_cancel_left]

theorem encode_loop_last (before data : List UInt8) (rounds : Nat) (short : data.length ≤ 2) :
    base64EncodeLoop (before ++ data) (before ++ data).length (rounds + 1) before.length = .ok [] := by
  rw [base64EncodeLoop, List.length_append, size_sub_front, if_neg (by omega)]

theorem encode_loop_round (before rest : List UInt8) (a b c : UInt8) (rounds : Nat) :
    base64EncodeLoop (before ++ a :: b :: c :: rest) (before ++ a :: b :: c :: rest).length (rounds + 1) before.length = (do
      let later ← base64EncodeLoop (before ++ a :: b :: c :: rest) (before ++ a :: b :: c :: rest).length rounds
        (before.length + 3)
      .ok ((base64Encode [a, b, c]) ++ later)) := by
  have first := load_append before (b :: c :: rest) a before.length rfl
  have second := load_append (before ++ [a]) (c :: rest) b (before.length + 1) (by simp)
  have third := load_append (before ++ [a, b]) rest c (before.length + 2) (by simp)
  simp only [List.append_assoc, List.cons_append, List.nil_append] at second third
  rw [base64EncodeLoop, List.length_append, size_sub_front, if_pos (by simp)]
  simp only [first, second, third, bind, Except.bind, encoding_entry_low _ (sextet_low _)]
  rfl

-- The rounds and the tail together write the text of what is left, for every
-- front of whole groups that has been read.
theorem base64_encode_parts (before data : List UInt8) (rounds : Nat) (enough : data.length < rounds)
    (aligned : before.length % 3 = 0) :
    ∃ groups tail, groups ++ tail = base64Encode data ∧
      base64EncodeLoop (before ++ data) (before ++ data).length rounds before.length = .ok groups ∧
      base64EncodeTail (before ++ data) (before ++ data).length = .ok tail := by
  obtain ⟨rounds, rfl⟩ := Nat.exists_eq_succ_of_ne_zero (by omega : rounds ≠ 0)
  induction data using base64Encode.induct generalizing before rounds with
  | case1 =>
      refine ⟨[], [], rfl, encode_loop_last before [] rounds (Nat.zero_le 2), ?_⟩
      rw [List.append_nil, base64EncodeTail, if_neg (by omega), if_neg (by omega)]
  | case2 a =>
      refine ⟨[], base64Encode [a], rfl, encode_loop_last before [a] rounds (by simp), ?_⟩
      have size : (before ++ [a]).length = before.length + 1 := List.length_append
      have read := load_append before [] a ((before.length + 1 : Nat) - 1) (by omega)
      rw [base64EncodeTail, size, if_pos (by omega), read]
      simp only [bind, Except.bind, encoding_entry_low _ (high_bits_low a), encoding_entry_low _ (low_bits_low a),
        base64Encode]
  | case3 a b =>
      refine ⟨[], base64Encode [a, b], rfl, encode_loop_last before [a, b] rounds (by simp), ?_⟩
      obtain ⟨low1, low2, _⟩ := double_bytes a b
      have size : (before ++ [a, b]).length = before.length + 2 := List.length_append
      have first := load_append before [b] a ((before.length + 2 : Nat) - 2) (by omega)
      have second := load_append (before ++ [a]) [] b ((before.length + 2 : Nat) - 1) (by simp; omega)
      simp only [List.append_assoc, List.cons_append, List.nil_append] at second
      rw [base64EncodeTail, size, if_neg (by omega), if_pos (by omega), first]
      simp only [second, bind, Except.bind, encoding_entry_low _ (high_bits_low a), encoding_entry_low _ low1,
        encoding_entry_low _ low2, base64Encode]
  | case4 a b c rest ih =>
      obtain ⟨rounds, rfl⟩ := Nat.exists_eq_succ_of_ne_zero (by simp only [List.length_cons] at enough; omega : rounds ≠ 0)
      have shape : before ++ a :: b :: c :: rest = before ++ [a, b, c] ++ rest := by simp
      have size : (before ++ [a, b, c]).length = before.length + 3 := List.length_append
      obtain ⟨groups, tail, joined, loop, last⟩ := ih (before ++ [a, b, c]) (by omega) rounds
        (by simp only [List.length_cons] at enough; omega)
      refine ⟨base64Encode [a, b, c] ++ groups, tail, by rw [List.append_assoc, joined]; rfl, ?_, by rw [shape]; exact last⟩
      rw [encode_loop_round, ← size, shape, loop]
      rfl

theorem base64_encode_buffer (data : List UInt8) :
    base64EncodeBuffer data data.length = .ok ⟨base64Encode data, (data.length + 2) / 3 * 4⟩ := by
  obtain ⟨groups, tail, joined, loop, last⟩ := base64_encode_parts [] data (data.length + 1) (Nat.lt_succ_self _) rfl
  have written := encode_length data
  rw [List.nil_append, List.length_nil] at loop
  rw [List.nil_append] at last
  rw [base64EncodeBuffer, malloc, if_pos (by omega)]
  simp only [bind, Except.bind, loop, last, joined, written]
  rw [if_neg (by omega), if_neg (by omega)]

theorem canonical_digits (digits : List Nat) (padding : Nat) (short : padding ≤ 2) (low : ∀ v ∈ digits, v < 64)
    (quads : (digits.length + padding) % 4 = 0) (filled : digits ≠ [])
    (zeros : ∀ v, digits.getLast? = some v → v % 4 ^ padding = 0) :
    Canonical (digits.map some ++ List.replicate padding none) := by
  match digits with
  | [] => exact absurd rfl filled
  | [v0] =>
      simp only [List.length_cons, List.length_nil] at quads
      omega
  | [v0, v1] =>
      obtain rfl : padding = 2 := by simp only [List.length_cons, List.length_nil] at quads; omega
      exact .one v0 v1 (low v0 (by simp)) (low v1 (by simp)) (zeros v1 rfl)
  | [v0, v1, v2] =>
      obtain rfl : padding = 1 := by simp only [List.length_cons, List.length_nil] at quads; omega
      exact .two v0 v1 v2 (low v0 (by simp)) (low v1 (by simp)) (low v2 (by simp)) (zeros v2 rfl)
  | [v0, v1, v2, v3] =>
      obtain rfl : padding = 0 := by simp only [List.length_cons, List.length_nil] at quads; omega
      exact .three v0 v1 v2 v3 (low v0 (by simp)) (low v1 (by simp)) (low v2 (by simp)) (low v3 (by simp))
  | v0 :: v1 :: v2 :: v3 :: v4 :: rest =>
      refine .more v0 v1 v2 v3 _ (low v0 (by simp)) (low v1 (by simp)) (low v2 (by simp)) (low v3 (by simp)) ?_
      apply canonical_digits (v4 :: rest) padding short
      · intro v member
        exact low v (by simp [List.mem_cons.mp member])
      · simp only [List.length_cons] at quads ⊢
        omega
      · exact List.cons_ne_nil _ _
      · intro v last
        exact zeros v (by simpa using last)

theorem canonical_text_of (groups : List (Option Nat)) (canonical : Canonical groups) :
    CanonicalText (groups.map symbol) := by
  induction canonical with
  | one v0 v1 low0 low1 zeros =>
      exact ⟨by simp, by simp, [v0, v1], 2, rfl, Nat.le_refl 2, by simp [low0, low1], by simpa using zeros⟩
  | two v0 v1 v2 low0 low1 low2 zeros =>
      exact ⟨by simp, by simp, [v0, v1, v2], 1, rfl, by omega, by simp [low0, low1, low2], by simpa using zeros⟩
  | three v0 v1 v2 v3 low0 low1 low2 low3 =>
      exact ⟨by simp, by simp, [v0, v1, v2, v3], 0, rfl, by omega, by simp [low0, low1, low2, low3], by simp [Nat.mod_one]⟩
  | more v0 v1 v2 v3 rest low0 low1 low2 low3 later ih =>
      obtain ⟨filled, quads, digits, padding, text, short, low, zeros⟩ := ih
      refine ⟨by simp, by simp only [List.map_cons, List.length_cons]; omega, v0 :: v1 :: v2 :: v3 :: digits, padding, ?_,
        short, ?_, ?_⟩
      · simp only [List.map_cons, List.cons_append, text, symbol]
      · simpa [low0, low1, low2, low3] using low
      · cases digits with
        | nil =>
            have many : padding % 4 = 0 := by simpa [text] using quads
            obtain rfl : padding = 0 := by omega
            simp [Nat.mod_one]
        | cons v rest => simpa using zeros

theorem canonical_text_iff (s : List UInt8) :
    CanonicalText s ↔ ∃ groups, Canonical groups ∧ groups.map symbol = s := by
  constructor
  · intro text
    obtain ⟨digits, padding, same, short, low, zeros⟩ := text.digits
    have quads := text.quads
    rw [same, List.length_append, List.length_map, List.length_replicate] at quads
    refine ⟨digits.map some ++ List.replicate padding none, canonical_digits digits padding short low quads ?_ zeros, ?_⟩
    · intro empty
      subst empty
      have none_left : padding = 0 := by simp only [List.length_nil] at quads; omega
      subst none_left
      exact text.filled same
    · rw [same, List.map_append, List.map_replicate, List.map_map]
      rfl
  · intro canonical
    obtain ⟨groups, canonical, same⟩ := canonical
    rw [← same]
    exact canonical_text_of groups canonical

-- Encoder and decoder undo each other, and each reads and writes inside its
-- buffers while it does.
theorem base64_bijection :
    (∀ x : List UInt8, x ≠ [] →
      base64EncodeBuffer x x.length = .ok ⟨base64Encode x, (x.length + 2) / 3 * 4⟩ ∧
      (base64Encode x).length = (x.length + 2) / 3 * 4 ∧ CanonicalText (base64Encode x) ∧
      base64Decode2str (base64Encode x) = .ok ⟨x, x.length⟩) ∧
    (∀ s : List UInt8, CanonicalText s → ∃ x, x ≠ [] ∧ base64Decode2str s = .ok ⟨x, x.length⟩ ∧ base64Encode x = s) ∧
    (∀ x y : List UInt8, base64Encode x = base64Encode y → x = y) := by
  refine ⟨?_, ?_, base64_encode_injective⟩
  · intro x nonempty
    have canonical : CanonicalText (base64Encode x) :=
      (canonical_text_iff _).mpr ⟨sixBits x, six_bits_canonical x nonempty, (base64_encode_six_bits x).symm⟩
    exact ⟨base64_encode_buffer x, encode_length x, canonical, base64_round_trip x nonempty⟩
  · intro s text
    obtain ⟨groups, canonical, same⟩ := (canonical_text_iff s).mp text
    obtain ⟨x, nonempty, cut⟩ := canonical_onto groups canonical
    have encoded : base64Encode x = s := by rw [base64_encode_six_bits, cut, same]
    exact ⟨x, nonempty, encoded ▸ base64_round_trip x nonempty, encoded⟩

theorem base64_bijection_two : base64Decode2str (base64Encode [255, 0]) = .ok ⟨[255, 0], 2⟩ ∧
    ∃ x, x ≠ [] ∧ base64Decode2str (ascii "/wA=") = .ok ⟨x, x.length⟩ ∧ base64Encode x = ascii "/wA=" :=
  ⟨(base64_bijection.1 [255, 0] (by simp)).2.2.2, base64_bijection.2.1 (ascii "/wA=")
    ⟨by decide, rfl, [63, 48, 0], 1, rfl, by decide, by decide, by decide⟩⟩

end Facebooc
