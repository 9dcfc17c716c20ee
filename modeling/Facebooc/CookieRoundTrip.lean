import Facebooc.Cookies

set_option autoImplicit false

namespace Facebooc

open CMemory StringSearch

def pairText (p : List UInt8 × List UInt8) : List UInt8 := p.1 ++ chr '=' :: p.2

def cookieText : List (List UInt8 × List UInt8) → List UInt8
  | [] => []
  | [p] => pairText p
  | p :: q :: rest => pairText p ++ ascii "; " ++ cookieText (q :: rest)

def CookieChar (c : UInt8) : Prop :=
  0x21 ≤ c.toNat ∧ c.toNat ≤ 0x7e ∧ c ≠ chr ';' ∧ c ≠ chr '=' ∧ c ≠ chr '%' ∧ c ≠ chr '+'

instance (c : UInt8) : Decidable (CookieChar c) := inferInstanceAs (Decidable (_ ∧ _))

structure CookiePairs (pairs : List (List UInt8 × List UInt8)) : Prop where
  nonempty : pairs ≠ []
  distinct : (pairs.map Prod.fst).Nodup
  keys : ∀ p ∈ pairs, p.1 ≠ [] ∧ ∀ c ∈ p.1, CookieChar c
  values : ∀ p ∈ pairs, ∀ c ∈ p.2, CookieChar c

def CookiesParsed (header : Header) (pairs : List (List UInt8 × List UInt8)) : Prop :=
  ∃ cookies, cookiesParser header = .ok cookies ∧
    (∀ p ∈ pairs, (cookiesGet cookies p.1).map Cookie.value = some p.2) ∧
    ∀ key, key ∉ pairs.map Prod.fst → cookiesGet cookies key = none

def PairChar (c : UInt8) : Prop := c.toNat < 128 ∧ c ≠ 0 ∧ c ≠ chr ';' ∧ c ≠ chr '%' ∧ c ≠ chr '+'

instance (c : UInt8) : Decidable (PairChar c) := inferInstanceAs (Decidable (_ ∧ _))

theorem cookie_char_pair (c : UInt8) (valid : CookieChar c) : PairChar c := by
  obtain ⟨low, high, noSemicolon, _, noPercent, noPlus⟩ := valid
  refine ⟨by omega, ?_, noSemicolon, noPercent, noPlus⟩
  rintro rfl
  exact absurd low (by decide)

theorem pair_text_chars (p : List UInt8 × List UInt8) (key : ∀ c ∈ p.1, CookieChar c) (value : ∀ c ∈ p.2, CookieChar c) :
    ∀ c ∈ pairText p, PairChar c := by
  intro c member
  rcases List.mem_append.mp member with inKey | inRest
  · exact cookie_char_pair c (key c inKey)
  · rcases List.mem_cons.mp inRest with same | inValue
    · subst same
      decide
    · exact cookie_char_pair c (value c inValue)

theorem cookie_text_chars (pairs : List (List UInt8 × List UInt8))
    (chars : ∀ p ∈ pairs, ∀ c ∈ pairText p, PairChar c) : ∀ c ∈ cookieText pairs, c.toNat < 128 ∧ c ≠ 0 := by
  induction pairs using cookieText.induct with
  | case1 => simp [cookieText]
  | case2 p => exact fun c member => ⟨(chars p (by simp) c member).1, (chars p (by simp) c member).2.1⟩
  | case3 p q rest ih =>
      intro c member
      rw [cookieText, List.mem_append, List.mem_append] at member
      rcases member with (inPair | inSeparator) | inRest
      · exact ⟨(chars p (by simp) c inPair).1, (chars p (by simp) c inPair).2.1⟩
      · revert c
        decide +kernel
      · exact ih (fun r inside => chars r (List.mem_cons_of_mem p inside)) c inRest

theorem cookie_insert_pair (key value : List UInt8) (keyChars : ∀ c ∈ key, CookieChar c)
    (valueChars : ∀ c ∈ value, CookieChar c) : cookieInsert (pairText (key, value)) [] = .ok [⟨key, value⟩] := by
  have chars := pair_text_chars (key, value) keyChars valueChars
  obtain ⟨spare, decoded⟩ := url_decoder_plain (pairText (key, value))
    (fun c member => ⟨(chars c member).2.2.2.1, (chars c member).2.2.2.2⟩)
  have made := single_cookie_gen_pair key value spare (fun member => (keyChars _ member).2.2.2.1 rfl)
    (fun member => (cookie_char_pair _ (keyChars _ member)).2.1 rfl)
    (fun member => (cookie_char_pair _ (valueChars _ member)).2.1 rfl)
  rw [cookieInsert, if_pos (by simp [pairText]), decoded]
  simp only [bind, Except.bind]
  rw [pairText, made]

theorem cookie_insert_none (text : List UInt8) (noEquals : chr '=' ∉ text) : cookieInsert text [] = .ok [] := by
  rw [cookieInsert, if_neg noEquals]

theorem separator_char (text : List UInt8) (k : Nat) (occurs : OccursAt (ascii "; ") text k) :
    text[k]? = some (chr ';') :=
  (occurs_iff _ _ _).mp occurs 0 (by decide)

theorem first_segment_single (p : List UInt8 × List UInt8) (chars : ∀ c ∈ pairText p, PairChar c) :
    firstSegment (pairText p) = .ok (pairText p) := by
  have absent : Absent (ascii "; ") (pairText p) := fun k occurs =>
    (chars _ (List.mem_of_getElem? (separator_char _ k occurs))).2.2.1 rfl
  have search := find_first_of_absent (pairText p) (ascii "; ") (by decide) (by decide) separator_low absent
    (fun c member => (chars c member).1)
  simp only [firstSegment, search, bind, Except.bind]

-- With a second pair the last byte of the first one is lost.
theorem first_segment_many (p q : List UInt8 × List UInt8) (rest : List (List UInt8 × List UInt8))
    (chars : ∀ r ∈ p :: q :: rest, ∀ c ∈ pairText r, PairChar c) :
    firstSegment (cookieText (p :: q :: rest)) = .ok (pairText p).dropLast := by
  have pChars := chars p List.mem_cons_self
  have first : FirstAt (ascii "; ") (cookieText (p :: q :: rest)) (pairText p).length := by
    refine ⟨occurs_append _ _ _, ?_⟩
    intro k less occurs
    have seen := separator_char _ k occurs
    rw [cookieText, List.append_assoc, List.getElem?_append_left less] at seen
    exact (pChars _ (List.mem_of_getElem? seen)).2.2.1 rfl
  have search := find_first_of_first _ (ascii "; ") _ (by decide) (by decide) separator_low first
    (fun c member => (cookie_text_chars _ chars c (List.mem_of_mem_take member)).1)
  have positive : 0 < (pairText p).length := by
    rw [pairText, List.length_append]
    exact Nat.lt_add_left _ (Nat.succ_pos _)
  simp only [firstSegment, search, bind, Except.bind]
  rw [if_neg (by omega), List.dropLast_eq_take, cookieText, List.append_assoc, List.take_append_of_le_length (by omega)]
  congr 2
  omega

theorem cookies_parser_text (header : Header) (str : List UInt8) (clean : 0 ∉ str) (nonempty : str ≠ [])
    (sent : headerGet header (ascii "cookie") = some str) :
    cookiesParser header = (do
      let text ← firstSegment str
      let cookies ← cookieInsert text []
      .ok (some cookies)) := by
  rw [cookiesParser, sent]
  simp only [cookies_loop_once str clean nonempty, bind, Except.bind]
  cases firstSegment str <;> rfl

theorem cookie_insert_cut (key value : List UInt8) (keyChars : ∀ c ∈ key, CookieChar c)
    (valueChars : ∀ c ∈ value, CookieChar c) :
    ∃ cookies, cookieInsert (pairText (key, value)).dropLast [] = .ok cookies ∧ ∀ c ∈ cookies, c.key = key := by
  cases value with
  | nil =>
      have cut : (pairText (key, [])).dropLast = key := List.dropLast_concat
      exact ⟨[], by rw [cut, cookie_insert_none key fun member => (keyChars _ member).2.2.2.1 rfl], by simp⟩
  | cons v rest =>
      have cut : (pairText (key, v :: rest)).dropLast = pairText (key, (v :: rest).dropLast) := by
        rw [pairText, pairText, List.dropLast_append_of_ne_nil (by simp), List.dropLast_cons_cons]
      refine ⟨[⟨key, (v :: rest).dropLast⟩], ?_, by simp⟩
      rw [cut, cookie_insert_pair key _ keyChars fun c member => valueChars c (List.dropLast_subset _ member)]

theorem cookies_parsed_iff (header : Header) (pairs : List (List UInt8 × List UInt8)) (valid : CookiePairs pairs)
    (sent : headerGet header (ascii "cookie") = some (cookieText pairs)) :
    CookiesParsed header pairs ↔ pairs.length = 1 := by
  have chars : ∀ p ∈ pairs, ∀ c ∈ pairText p, PairChar c := fun p member =>
    pair_text_chars p (valid.keys p member).2 (valid.values p member)
  have clean : 0 ∉ cookieText pairs := fun member => (cookie_text_chars pairs chars 0 member).2 rfl
  match pairs, valid, chars, clean, sent with
  | [], valid, _, _, _ => exact absurd rfl valid.nonempty
  | [p], valid, chars, clean, sent =>
      have inserted := cookie_insert_pair p.1 p.2 (valid.keys p (by simp)).2 (valid.values p (by simp))
      have parsed := cookies_parser_text header (pairText p) clean (by simp [pairText]) sent
      simp only [first_segment_single p (chars p (by simp)), bind, Except.bind, inserted] at parsed
      refine iff_of_true ⟨_, parsed, ?_, ?_⟩ rfl
      · intro q member
        rw [List.mem_singleton.mp member]
        simp [cookiesGet]
      · intro key other
        have different : p.1 ≠ key := fun same => other (by simp [same])
        simp [cookiesGet, different]
  | p :: q :: rest, valid, chars, clean, sent =>
      obtain ⟨cookies, inserted, keys⟩ := cookie_insert_cut p.1 p.2 (valid.keys p (by simp)).2 (valid.values p (by simp))
      have parsed := cookies_parser_text header _ clean (by simp [cookieText, pairText]) sent
      simp only [first_segment_many p q rest chars, bind, Except.bind, inserted] at parsed
      refine iff_of_false ?_ (by simp)
      rintro ⟨result, run, found, _⟩
      cases parsed.symm.trans run
      have second := found q (by simp)
      have missing : cookiesGet (some cookies) q.1 = none := by
        refine List.find?_eq_none.mpr ?_
        intro c member same
        have apart := (List.nodup_cons.mp valid.distinct).1
        rw [← keys c member, of_decide_eq_true same] at apart
        simp at apart
      rw [missing] at second
      cases second

theorem cookies_parsed_sid : CookiesParsed [(ascii "cookie", ascii "sid=abc")] [(ascii "sid", ascii "abc")] ↔
    [(ascii "sid", ascii "abc")].length = 1 :=
  cookies_parsed_iff _ _ ⟨by decide +kernel, by decide +kernel, by decide +kernel, by decide +kernel⟩ (by decide +kernel)

theorem cookies_lost : headerGet [(ascii "cookie", ascii "a=1; b=2")] (ascii "cookie") =
      some (cookieText [(ascii "a", ascii "1"), (ascii "b", ascii "2")]) ∧
    cookiesParser [(ascii "cookie", ascii "a=1; b=2")] = .ok (some [⟨ascii "a", []⟩]) ∧
    ¬ CookiesParsed [(ascii "cookie", ascii "a=1; b=2")] [(ascii "a", ascii "1"), (ascii "b", ascii "2")] := by
  have parsed : cookiesParser [(ascii "cookie", ascii "a=1; b=2")] = .ok (some [⟨ascii "a", []⟩]) := by decide +kernel
  refine ⟨by decide, parsed, ?_⟩
  rintro ⟨cookies, run, found, _⟩
  cases parsed.symm.trans run
  exact absurd (found (ascii "b", ascii "2") (by simp)) (by decide)

end Facebooc
