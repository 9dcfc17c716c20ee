import Facebooc.Account
import Facebooc.Base64Bijection
import Facebooc.StringSearch
import Mathlib.Data.List.Infix

set_option autoImplicit false

namespace Facebooc

open CMemory SixBits StringSearch

def Contains (query text : List UInt8) : Prop := ∃ s, OccursAt (query.map tolower) (text.map tolower) s

-- Letters of the base64 alphabet that differ in their case.
def caseless : Option Nat → Option Nat
  | none => none
  | some v => some (if v < 26 then v + 26 else v)

-- The groups of six bits of the query, its padding marks included, stand
-- somewhere among the groups of the text.
def CodeOccurs (query text : List UInt8) : Prop :=
  ∃ s, OccursAt ((sixBits query).map caseless) ((sixBits text).map caseless) s

def SearchExact (query : BasicString) (row : AccountRow) (name email username : List UInt8) : Prop :=
  searchWhere query row = true ↔
    Contains query.data name ∨ Contains query.data email ∨ Contains query.data username

def CodesAgree (query : BasicString) (name email username : List UInt8) : Prop :=
  (CodeOccurs query.data name ∨ CodeOccurs query.data email ∨ CodeOccurs query.data username) ↔
    Contains query.data name ∨ Contains query.data email ∨ Contains query.data username

theorem like_percent (pattern text : List UInt8) :
    sqlLike (chr '%' :: pattern) text = text.tails.any fun rest => sqlLike pattern rest := by
  rw [sqlLike.eq_def]
  exact if_pos rfl

theorem like_letter (c d : UInt8) (pattern text : List UInt8) (percent : c ≠ chr '%') (underscore : c ≠ chr '_') :
    sqlLike (c :: pattern) (d :: text) = true ↔ tolower c = tolower d ∧ sqlLike pattern text = true := by
  rw [sqlLike.eq_def]
  simp [percent, underscore]

theorem like_end (c : UInt8) (pattern : List UInt8) (percent : c ≠ chr '%') : sqlLike (c :: pattern) [] = false := by
  rw [sqlLike.eq_def]
  simp [percent]

theorem like_literal (pattern text : List UInt8) (clean : ∀ c ∈ pattern, c ≠ chr '%' ∧ c ≠ chr '_') :
    sqlLike (pattern ++ [chr '%']) text = true ↔ pattern.map tolower <+: text.map tolower := by
  induction pattern generalizing text with
  | nil =>
      rw [List.nil_append, like_percent, List.any_eq_true]
      refine iff_of_true ⟨[], ?_, by rw [sqlLike.eq_def]; simp⟩ (List.nil_prefix)
      rw [List.mem_tails]
      exact List.nil_suffix
  | cons c pattern ih =>
      obtain ⟨⟨percent, underscore⟩, rest⟩ := List.forall_mem_cons.mp clean
      rw [List.cons_append]
      cases text with
      | nil => simp [like_end _ _ percent]
      | cons d text => rw [like_letter c d _ _ percent underscore, ih text rest, List.map_cons, List.map_cons, List.cons_prefix_cons]

theorem like_contains (pattern text : List UInt8) (clean : ∀ c ∈ pattern, c ≠ chr '%' ∧ c ≠ chr '_') :
    sqlLike (ascii "%" ++ pattern ++ ascii "%") text = true ↔ Contains pattern text := by
  change sqlLike (chr '%' :: (pattern ++ [chr '%'])) text = true ↔ _
  rw [like_percent, List.any_eq_true, Contains]
  constructor
  · intro found
    obtain ⟨rest, member, matched⟩ := found
    obtain ⟨front, same⟩ := (List.mem_tails _ _).mp member
    refine ⟨front.length, ?_⟩
    rw [OccursAt, ← same, List.map_append, List.drop_left' (List.length_map ..)]
    exact (like_literal pattern rest clean).mp matched
  · intro found
    obtain ⟨s, occurs⟩ := found
    refine ⟨text.drop s, (List.mem_tails _ _).mpr (List.drop_suffix s text), ?_⟩
    rw [like_literal pattern _ clean, List.map_drop]
    exact occurs

theorem symbol_spec : ∀ v < 64, (symbol (some v) ≠ chr '%' ∧ symbol (some v) ≠ chr '_') ∧
    tolower (symbol (some v)) = symbol (caseless (some v)) ∧ (if v < 26 then v + 26 else v) < 64 := by
  decide +kernel

theorem symbol_injective (v w : Nat) (lowV : v < 64) (lowW : w < 64) (same : symbol (some v) = symbol (some w)) : v = w := by
  have first := (encoding_at_spec v lowV).1
  have second := (encoding_at_spec w lowW).1
  change encodingAt v = encodingAt w at same
  rw [same] at first
  exact Option.some.inj (first.symm.trans second)

theorem symbol_caseless (v w : Nat) (lowV : v < 64) (lowW : w < 64) :
    tolower (symbol (some v)) = tolower (symbol (some w)) ↔ caseless (some v) = caseless (some w) := by
  obtain ⟨_, lowerV, foldV⟩ := symbol_spec v lowV
  obtain ⟨_, lowerW, foldW⟩ := symbol_spec w lowW
  rw [lowerV, lowerW]
  constructor
  · intro same
    exact congrArg some (symbol_injective _ _ foldV foldW same)
  · exact fun same => congrArg symbol same

theorem symbol_mark (v : Nat) (low : v < 64) : tolower (symbol (some v)) ≠ tolower (symbol none) := by
  obtain ⟨_, lower, fold⟩ := symbol_spec v low
  rw [lower]
  exact (encoding_at_spec _ fold).2.1

theorem six_bits_low (data : List UInt8) (v : Nat) (member : some v ∈ sixBits data) : v < 64 := by
  by_cases empty : data = []
  · subst empty
    cases member
  · exact canonical_low _ (six_bits_canonical data empty) v member

theorem encode_plain (data : List UInt8) : ∀ c ∈ base64Encode data, c ≠ chr '%' ∧ c ≠ chr '_' := by
  intro c member
  rw [base64_encode_six_bits] at member
  obtain ⟨group, inside, same⟩ := List.mem_map.mp member
  rw [← same]
  cases group with
  | none => exact ⟨by decide, by decide⟩
  | some v => exact (symbol_spec v (six_bits_low data v inside)).1

theorem encode_contains (query text : List UInt8) :
    Contains (base64Encode query) (base64Encode text) ↔ CodeOccurs query text := by
  rw [Contains, CodeOccurs, base64_encode_six_bits, base64_encode_six_bits, List.map_map, List.map_map]
  refine exists_congr fun s => occurs_map_congr _ _ _ _ s ?_
  intro x inQuery y inText
  cases x with
  | none =>
      cases y with
      | none => exact iff_of_true rfl rfl
      | some w => exact iff_of_false (symbol_mark w (six_bits_low text w inText)) (by simp [caseless])
  | some v =>
      have low := six_bits_low query v inQuery
      cases y with
      | none => exact iff_of_false (Ne.symm (symbol_mark v low)) (by simp [caseless])
      | some w => exact symbol_caseless w v (six_bits_low text w inText) low

theorem search_where_iff (query : BasicString) (row : AccountRow) (name email username : List UInt8)
    (encoded : Encoded row name email username) :
    searchWhere query row = true ↔
      CodeOccurs query.data name ∨ CodeOccurs query.data email ∨ CodeOccurs query.data username := by
  simp only [searchWhere, Bool.or_eq_true, like_contains _ _ (encode_plain query.data), encoded.name, encoded.email,
    encoded.username, encode_contains, or_assoc]

-- Bytes that put the groups of what stands next to them out of step.
theorem byte_beside : ∀ q < 256,
    (∃ x ∈ [252, 249], caseless (some (x / 4)) ≠ caseless (some (q / 4)) ∧
      caseless (some (x % 4 * 16 + q / 16)) ≠ caseless (some (q / 4))) ∧
    ∃ y ∈ [17, 34], caseless (some (q % 4 * 16 + y / 16)) ≠ caseless (some (q % 64)) ∧
      caseless (some (y % 16 * 4)) ≠ caseless (some (q % 64)) := by
  decide +kernel

theorem contains_between (front query back : List UInt8) : Contains query (front ++ query ++ back) := by
  refine ⟨(front.map tolower).length, ?_⟩
  rw [List.map_append, List.map_append]
  exact occurs_append _ _ _

theorem code_padded (query text : List UInt8) (odd : query.length % 3 ≠ 0) (aligned : text.length % 3 = 0) :
    ¬ CodeOccurs query text := by
  intro found
  obtain ⟨s, occurs⟩ := found
  have mark : (none : Option Nat) ∈ (sixBits query).map caseless := List.mem_map.mpr ⟨none, six_bits_padded query odd, rfl⟩
  obtain ⟨group, inside, same⟩ := List.mem_map.mp (List.mem_of_mem_drop (occurs.subset mark))
  cases group with
  | none => exact six_bits_full text aligned inside
  | some v => cases same

theorem code_entry (query text : List UInt8) (s i : Nat) (v w : Option Nat)
    (occurs : OccursAt ((sixBits query).map caseless) ((sixBits text).map caseless) s)
    (entry : (sixBits query)[i]? = some v) (seen : (sixBits text)[s + i]? = some w) : caseless w = caseless v := by
  have bound : i < (sixBits query).length := (List.getElem?_eq_some_iff.mp entry).1
  have same := (occurs_iff _ _ s).mp occurs i (by rw [List.length_map]; exact bound)
  rw [List.getElem?_map, List.getElem?_map, entry, seen] at same
  exact Option.some.inj same

theorem code_shifted (q0 q1 q2 b c a x y : UInt8) (front rest : List UInt8) (query : List UInt8)
    (head : query = q0 :: q1 :: q2 :: rest) (last : query = front ++ [b, c, a]) (aligned : front.length % 3 = 0)
    (before : caseless (some (x.toNat / 4)) ≠ caseless (some (q0.toNat / 4)) ∧
      caseless (some (x.toNat % 4 * 16 + q0.toNat / 16)) ≠ caseless (some (q0.toNat / 4)))
    (behind : caseless (some (a.toNat % 4 * 16 + y.toNat / 16)) ≠ caseless (some (a.toNat % 64)) ∧
      caseless (some (y.toNat % 16 * 4)) ≠ caseless (some (a.toNat % 64))) :
    ¬ CodeOccurs query (x :: query ++ [y]) := by
  intro found
  obtain ⟨s, occurs⟩ := found
  have textHead : sixBits (x :: query ++ [y]) = some (x.toNat / 4) :: some (x.toNat % 4 * 16 + q0.toNat / 16) ::
      (sixBits (x :: query ++ [y])).drop 2 := by
    rw [head]
    rfl
  have queryHead : (sixBits query)[0]? = some (some (q0.toNat / 4)) := by rw [head]; rfl
  have ends : x :: query ++ [y] = (x :: front ++ [b, c]) ++ [a, y] := by rw [last]; simp
  have textEnd : sixBits (x :: query ++ [y]) = sixBits (x :: front ++ [b, c]) ++ sixBits [a, y] := by
    rw [ends, six_bits_append _ _ (by simp; omega)]
  have queryEnd : sixBits query = sixBits front ++ sixBits [b, c, a] := by rw [last, six_bits_append _ _ aligned]
  have frontSize : (sixBits (x :: front ++ [b, c])).length = (sixBits front).length + 4 := by
    rw [six_bits_length, six_bits_length]
    simp
    omega
  have lastEntry : (sixBits query)[(sixBits front).length + 3]? = some (some (a.toNat % 64)) := by
    rw [queryEnd, List.getElem?_append_right (by omega), Nat.add_sub_cancel_left]
    rfl
  have textEntry : ∀ i, (sixBits (x :: query ++ [y]))[i + 1 + ((sixBits front).length + 3)]? = (sixBits [a, y])[i]? := by
    intro i
    have index : i + 1 + ((sixBits front).length + 3) - ((sixBits front).length + 4) = i := by omega
    rw [textEnd, List.getElem?_append_right (by omega), frontSize, index]
  have bound := occurs.length_le
  rw [List.length_drop, List.length_map, List.length_map, textEnd, queryEnd, List.length_append, List.length_append,
    frontSize] at bound
  have few : s = 0 ∨ s = 1 ∨ s = 2 ∨ s = 3 ∨ s = 4 := by
    simp only [sixBits, List.length_cons, List.length_nil] at bound
    omega
  -- The text has room for five places. The first two are refused by what stands in
  -- front of the query, the other three by what stands behind it.
  obtain rfl | rfl | rfl | rfl | rfl := few
  · exact before.1 (code_entry _ _ 0 0 _ _ occurs queryHead (by rw [textHead]; rfl))
  · exact before.2 (code_entry _ _ 1 0 _ _ occurs queryHead (by rw [textHead]; rfl))
  · exact behind.1 (code_entry _ _ 2 _ _ _ occurs lastEntry (textEntry 1))
  · exact behind.2 (code_entry _ _ 3 _ _ _ occurs lastEntry (textEntry 2))
  · have same := code_entry _ _ 4 _ _ _ occurs lastEntry (textEntry 3)
    cases same

-- Every query misses a text that contains it.
theorem query_hidden (query : List UInt8) (nonempty : query ≠ []) :
    ∃ text, text ≠ [] ∧ Contains query text ∧ ¬ CodeOccurs query text := by
  have filled : ∀ front back : List UInt8, front ++ query ++ back ≠ [] := by simp [nonempty]
  by_cases aligned : query.length % 3 = 0
  · have positive := List.length_pos_iff.mpr nonempty
    obtain ⟨q0, q1, q2, first⟩ := List.length_eq_three.mp (by rw [List.length_take]; omega : (query.take 3).length = 3)
    obtain ⟨b, c, a, final⟩ :=
      List.length_eq_three.mp (by rw [List.length_drop]; omega : (query.drop (query.length - 3)).length = 3)
    have head : query = q0 :: q1 :: q2 :: query.drop 3 := by
      rw [← List.take_append_drop 3 query, first]
      simp
    have last : query = query.take (query.length - 3) ++ [b, c, a] := by
      rw [← final, List.take_append_drop]
    obtain ⟨x, xOne, before⟩ := (byte_beside q0.toNat q0.toNat_lt).1
    obtain ⟨y, yOne, behind⟩ := (byte_beside a.toNat a.toNat_lt).2
    have xLow : x < 256 := by simp at xOne; omega
    have yLow : y < 256 := by simp at yOne; omega
    have hidden := code_shifted q0 q1 q2 b c a (UInt8.ofNat x) (UInt8.ofNat y) (query.take (query.length - 3)) _ query head last
      (by rw [List.length_take]; omega) (by rwa [byte_of x xLow]) (by rwa [byte_of y yLow])
    exact ⟨_, filled [UInt8.ofNat x] [UInt8.ofNat y], contains_between _ _ _, hidden⟩
  · have hidden := code_padded query ([] ++ query ++ List.replicate (3 - query.length % 3) 1) aligned (by simp; omega)
    exact ⟨_, filled _ _, contains_between _ _ _, hidden⟩

-- What a search is sure to find: the query in step with the groups of three
-- bytes, and at the end of the text when it ends inside a group.
theorem code_in_step (front query back : List UInt8) (aligned : front.length % 3 = 0)
    (ends : query.length % 3 = 0 ∨ back = []) : CodeOccurs query (front ++ query ++ back) := by
  have groups : sixBits (query ++ back) = sixBits query ++ sixBits back := by
    rcases ends with whole | empty
    · exact six_bits_append query back whole
    · rw [empty, List.append_nil]
      exact (List.append_nil _).symm
  refine ⟨((sixBits front).map caseless).length, ?_⟩
  rw [List.append_assoc, six_bits_append front _ aligned, groups, ← List.append_assoc, List.map_append, List.map_append]
  exact occurs_append _ _ _

-- For one account and one query; no query is right for all accounts, and every
-- query is found where it is in step.
theorem search_exact_iff (query : BasicString) (nonempty : query.data ≠ []) :
    (∀ row name email username, Encoded row name email username →
      (SearchExact query row name email username ↔ CodesAgree query name email username)) ∧
    (∃ row name email username, Encoded row name email username ∧ (name ≠ [] ∧ email ≠ [] ∧ username ≠ []) ∧
      ¬ SearchExact query row name email username) ∧
    ∀ front back : List UInt8, front.length % 3 = 0 → query.data.length % 3 = 0 ∨ back = [] →
      CodeOccurs query.data (front ++ query.data ++ back) := by
  refine ⟨?_, ?_, fun front back aligned ends => code_in_step front query.data back aligned ends⟩
  · intro row name email username encoded
    rw [SearchExact, CodesAgree, search_where_iff query row name email username encoded]
  · obtain ⟨text, filled, contained, hidden⟩ := query_hidden query.data nonempty
    have encoded : Encoded ⟨1, 0, base64Encode text, base64Encode text, base64Encode text, []⟩ text text text := ⟨rfl, rfl, rfl⟩
    refine ⟨_, text, text, text, encoded, ⟨filled, filled, filled⟩, fun right => ?_⟩
    rw [SearchExact, search_where_iff query _ text text text encoded] at right
    rcases right.mpr (.inl contained) with name | email | username
    · exact hidden name
    · exact hidden email
    · exact hidden username

theorem search_exact_lice : let query : BasicString := ⟨ascii "lice", 4⟩
    (∀ row name email username, Encoded row name email username →
      (SearchExact query row name email username ↔ CodesAgree query name email username)) ∧
    (∃ row name email username, Encoded row name email username ∧ (name ≠ [] ∧ email ≠ [] ∧ username ≠ []) ∧
      ¬ SearchExact query row name email username) ∧
    ∀ front back : List UInt8, front.length % 3 = 0 → query.data.length % 3 = 0 ∨ back = [] →
      CodeOccurs query.data (front ++ query.data ++ back) :=
  search_exact_iff ⟨ascii "lice", 4⟩ (by decide)

def searchedRow : AccountRow := ⟨1, 1700000000, base64Encode (ascii "Alice"), base64Encode (ascii "alice"),
  base64Encode (ascii "al@x.org"), []⟩

theorem search_misses : Encoded searchedRow (ascii "Alice") (ascii "al@x.org") (ascii "alice") ∧
    Contains (ascii "lice") (ascii "Alice") ∧ searchWhere ⟨ascii "lice", 4⟩ searchedRow = false ∧
    ¬ SearchExact ⟨ascii "lice", 4⟩ searchedRow (ascii "Alice") (ascii "al@x.org") (ascii "alice") := by
  have contained : Contains (ascii "lice") (ascii "Alice") := contains_between (ascii "A") (ascii "lice") []
  have missed : searchWhere ⟨ascii "lice", 4⟩ searchedRow = false := by decide +kernel
  refine ⟨⟨rfl, rfl, rfl⟩, contained, missed, fun right => ?_⟩
  rw [SearchExact, missed] at right
  cases right.mpr (.inl contained)

end Facebooc
