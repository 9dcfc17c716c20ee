import Facebooc.StringView

set_option autoImplicit false

namespace Facebooc

open CMemory

-- src/http/helper.c
def isxdigit (c : UInt8) : Bool :=
  (chr '0' ≤ c && c ≤ chr '9') || (chr 'A' ≤ c && c ≤ chr 'F') || (chr 'a' ≤ c && c ≤ chr 'f')

def hexDigit (c : UInt8) : UInt8 :=
  let a := if c ≥ chr 'a' then c - (chr 'a' - chr 'A') else c
  if a ≥ chr 'A' then a - (chr 'A' - 10) else a - chr '0'

def plusToSpace (c : UInt8) : UInt8 := if c = chr '+' then chr ' ' else c

-- The characters written in front of the final NUL.
def urldecode2 : List UInt8 → List UInt8
  | [] => []
  | [c] => [plusToSpace c]
  | [c, a] => [plusToSpace c, plusToSpace a]
  | c :: a :: b :: src =>
      if c = chr '%' ∧ isxdigit a ∧ isxdigit b then (16 * hexDigit a + hexDigit b) :: urldecode2 src
      else plusToSpace c :: urldecode2 (a :: b :: src)

-- The pointer is moved before the character is compared, so a % at the front
-- is not counted. An escape is taken to be behind every one.
def percentCounter (str : List UInt8) : Nat := str.tail.count (chr '%')

-- What is handed to malloc. The counter is an int, and so is its double before it
-- is converted; none is a signed overflow.
def decoderSize (str : List UInt8) : Option UInt64 :=
  let doubled := percentCounter str * 2
  if doubled < 2 ^ 31 then some (UInt64.ofNat str.length - UInt64.ofNat doubled + 1 + 16) else none

-- The size is taken without the bounds of its types; see DecoderExact.
def urlDecoder (str : List UInt8) : Except Fault Object := do
  let size ← malloc (str.length - percentCounter str * 2 + 1 + 16)
  let decoded := urldecode2 str
  if decoded.length < size then .ok (decoded ++ List.replicate (size - decoded.length) 0) else .error .bounds

def pairLexer (o : Object) (str : Nat) (delim term : UInt8) : Except Fault (Option (List UInt8 × List UInt8)) := do
  let text ← cstrAt o str
  match text.idxOf? delim with
  | none => .ok none
  | some d =>
      match (text.drop (d + 1)).idxOf? term with
      | none => .ok none
      | some t =>
          let key ← stringViewDup o ⟨str, some (str + d), d⟩
          let value ← stringViewDup o ⟨str + d + 1, some (str + d + 1 + t), t⟩
          .ok (some (key, value))

def escapes : List UInt8 → Nat
  | c :: a :: b :: src => if c = chr '%' ∧ isxdigit a ∧ isxdigit b then escapes src + 1 else escapes (a :: b :: src)
  | _ => 0

theorem urldecode2_length (str : List UInt8) : (urldecode2 str).length + 2 * escapes str = str.length := by
  induction str using urldecode2.induct with
  | case1 => rfl
  | case2 c => rfl
  | case3 c a => rfl
  | case4 c a b src escape ih =>
      rw [urldecode2, escapes, if_pos escape, if_pos escape]
      simp only [List.length_cons] at ih ⊢
      omega
  | case5 c a b src literal ih =>
      rw [urldecode2, escapes, if_neg literal, if_neg literal]
      simp only [List.length_cons] at ih ⊢
      omega

-- The sixteen spare bytes cover eight % that begin no escape.
theorem url_decoder_iff (str : List UInt8) (o : Object) :
    urlDecoder str = .ok o ↔ percentCounter str ≤ escapes str + 8 ∧
      o = urldecode2 str ++ List.replicate (17 + 2 * escapes str - 2 * percentCounter str) 0 := by
  have exact := urldecode2_length str
  rw [urlDecoder, malloc]
  by_cases fits : percentCounter str ≤ escapes str + 8
  · have size : ((str.length : Int) - percentCounter str * 2 + 1 + 16).toNat =
        (urldecode2 str).length + (17 + 2 * escapes str - 2 * percentCounter str) := by omega
    rw [if_pos (by omega)]
    simp only [bind, Except.bind, size]
    rw [if_pos (by omega), Nat.add_sub_cancel_left]
    constructor
    · rintro ⟨rfl⟩
      exact ⟨fits, rfl⟩
    · rintro ⟨_, rfl⟩
      rfl
  · refine iff_of_false ?_ (fun both => fits both.1)
    split
    · simp only [bind, Except.bind]
      rw [if_neg (by omega)]
      simp
    · simp [bind, Except.bind]

theorem urldecode2_plain (str : List UInt8) (plain : ∀ c ∈ str, c ≠ chr '%' ∧ c ≠ chr '+') : urldecode2 str = str := by
  induction str using urldecode2.induct with
  | case1 => rfl
  | case2 c => simp [urldecode2, plusToSpace, (plain c (by simp)).2]
  | case3 c a => simp [urldecode2, plusToSpace, (plain c (by simp)).2, (plain a (by simp)).2]
  | case4 c a b src escape ih => exact absurd escape.1 (plain c (by simp)).1
  | case5 c a b src literal ih =>
      rw [urldecode2, if_neg literal, ih (fun d member => plain d (List.mem_cons_of_mem c member)), plusToSpace,
        if_neg (plain c (by simp)).2]

theorem url_decoder_plain (str : List UInt8) (plain : ∀ c ∈ str, c ≠ chr '%' ∧ c ≠ chr '+') :
    ∃ spare, urlDecoder str = .ok (str ++ 0 :: spare) := by
  have none_counted : percentCounter str = 0 :=
    List.count_eq_zero.mpr fun member => (plain _ (List.mem_of_mem_tail member)).1 rfl
  refine ⟨List.replicate (16 + 2 * escapes str) 0, (url_decoder_iff str _).mpr ⟨by omega, ?_⟩⟩
  rw [urldecode2_plain str plain, none_counted, ← List.replicate_succ]
  congr 2
  omega

theorem url_decoder_text (str : List UInt8) (fits : percentCounter str ≤ escapes str + 8) :
    0 ∉ cstr (urldecode2 str) ∧ ∃ spare, urlDecoder str = .ok (cstr (urldecode2 str) ++ 0 :: spare) := by
  obtain ⟨clean, rest, split, cut⟩ := cstr_split (urldecode2 str)
  have room : 17 + 2 * escapes str - 2 * percentCounter str = (16 + 2 * escapes str - 2 * percentCounter str) + 1 := by
    omega
  have made := (url_decoder_iff str _).mpr ⟨fits, rfl⟩
  rw [room, List.replicate_succ] at made
  refine ⟨clean, ?_⟩
  rcases cut with empty | ⟨tail, nul⟩
  · rw [empty, List.append_nil] at split
    exact ⟨_, by rw [made, ← split]⟩
  · refine ⟨tail ++ 0 :: List.replicate (16 + 2 * escapes str - 2 * percentCounter str) 0, ?_⟩
    rw [made, ← List.cons_append, ← nul, ← List.append_assoc, ← split]

theorem decoder_size_nat (len doubled : Nat) :
    (UInt64.ofNat len - UInt64.ofNat doubled + 1 + 16).toNat = (((len : Int) - doubled + 1 + 16) % 2 ^ 64).toNat := by
  simp only [UInt64.toNat_add, UInt64.toNat_sub, UInt64.toNat_ofNat', UInt64.reduceToNat]
  omega

def mallocSize (size : UInt64) : Except Fault Nat := if size.toNat < 2 ^ 63 then .ok size.toNat else .error .null

-- url_decoder is given what it is modelled with.
def DecoderExact (str : List UInt8) : Prop :=
  (decoderSize str).map mallocSize = some (malloc (str.length - percentCounter str * 2 + 1 + 16))

theorem decoder_exact (str : List UInt8) (short : str.length < 2 ^ 30) : DecoderExact str := by
  have few : percentCounter str ≤ str.length := List.count_le_length.trans (by rw [List.length_tail]; omega)
  have size := decoder_size_nat str.length (percentCounter str * 2)
  rw [DecoderExact, decoderSize, if_pos (by omega), Option.map_some, mallocSize, size, malloc]
  by_cases room : 0 ≤ (str.length : Int) - percentCounter str * 2 + 1 + 16
  · rw [if_pos (by omega), if_pos room]
    congr 2
    omega
  · rw [if_neg (by omega), if_neg room]

end Facebooc
