import Facebooc.Request

set_option autoImplicit false

namespace Facebooc

open CMemory StringSearch

-- application/x-www-form-urlencoded, as a client writes it.
def isalnum (c : UInt8) : Bool :=
  (chr '0' ≤ c && c ≤ chr '9') || (chr 'A' ≤ c && c ≤ chr 'Z') || (chr 'a' ≤ c && c ≤ chr 'z')

def upperHex (n : Nat) : UInt8 := (ascii "0123456789ABCDEF").getD n 0

def encodeByte (c : UInt8) : List UInt8 :=
  if isalnum c then [c]
  else if c = chr ' ' then [chr '+']
  else [chr '%', upperHex (c.toNat / 16), upperHex (c.toNat % 16)]

def joinPairs (spell : List UInt8 → List UInt8) (pairs : Form) : List UInt8 :=
  [chr '&'].intercalate (pairs.map fun pair => spell pair.1 ++ chr '=' :: spell pair.2)

def encodePairs (pairs : Form) : List UInt8 := joinPairs (fun text => text.flatMap encodeByte) pairs

def lastValue (pairs : Form) (key : List UInt8) : Option (List UInt8) :=
  (pairs.reverse.find? fun pair => pair.1 = key).map Prod.snd

def QueryRoundTrips (pairs : Form) : Prop :=
  ∃ q, queryParser (encodePairs pairs) = .ok q ∧ ∀ key, queryGet (some q) key = lastValue pairs key

def BodyRoundTrips (pairs : Form) : Prop :=
  ∀ header o buffer, headerGet header (ascii "content-type") = some (ascii "application/x-www-form-urlencoded") →
    cstrAt o buffer = .ok (encodePairs pairs) →
      ∃ b, bodyParser header o buffer = .ok b ∧ ∀ key, bodyGet b key = lastValue pairs key

def RoundTrips (pairs : Form) : Prop := QueryRoundTrips pairs ∧ BodyRoundTrips pairs

structure ValidPair (pair : List UInt8 × List UInt8) : Prop where
  nonempty : pair.1 ≠ []
  key : 0 ∉ pair.1
  value : 0 ∉ pair.2

def CleanPair (pair : List UInt8 × List UInt8) : Prop := 0 ∉ pair.1 ∧ 0 ∉ pair.2

-- A pair that is still the same when it is taken apart after the decoding. An &
-- at the end of a key only makes a pair without a key, which is never returned.
structure PlainPair (pair : List UInt8 × List UInt8) : Prop where
  equals : chr '=' ∉ pair.1
  key : chr '&' ∉ pair.1.dropLast
  value : chr '&' ∉ pair.2

-- What an encoded text stands for.
inductive Spells : List UInt8 → List UInt8 → Prop where
  | done : Spells [] []
  | plain (c : UInt8) (str text : List UInt8) (percent : c ≠ chr '%') (plus : c ≠ chr '+') (rest : Spells str text) :
      Spells (c :: str) (c :: text)
  | space (str text : List UInt8) (rest : Spells str text) : Spells (chr '+' :: str) (chr ' ' :: text)
  | escape (a b : UInt8) (str text : List UInt8) (high : isxdigit a = true) (low : isxdigit b = true)
      (rest : Spells str text) : Spells (chr '%' :: a :: b :: str) ((16 * hexDigit a + hexDigit b) :: text)

theorem spells_append (str text str' text' : List UInt8) (front : Spells str text) (back : Spells str' text') :
    Spells (str ++ str') (text ++ text') := by
  induction front with
  | done => exact back
  | plain c str text percent plus _ ih => exact .plain c _ _ percent plus ih
  | space str text _ ih => exact .space _ _ ih
  | escape a b str text high low _ ih => exact .escape a b _ _ high low ih

theorem urldecode2_literal (c : UInt8) (str : List UInt8) (percent : c ≠ chr '%') :
    urldecode2 (c :: str) = plusToSpace c :: urldecode2 str ∧ escapes (c :: str) = escapes str := by
  match str with
  | [] => exact ⟨rfl, rfl⟩
  | [_] => exact ⟨rfl, rfl⟩
  | a :: b :: str =>
      have literal : ¬ (c = chr '%' ∧ isxdigit a ∧ isxdigit b) := fun escape => percent escape.1
      rw [urldecode2, escapes, if_neg literal, if_neg literal]
      exact ⟨rfl, rfl⟩

theorem xdigit_not_percent (c : UInt8) (digit : isxdigit c = true) : c ≠ chr '%' := by
  rintro rfl
  exact absurd digit (by decide)

-- Every % of an encoded text begins an escape.
theorem spells_decoded (str text : List UInt8) (spells : Spells str text) :
    urldecode2 str = text ∧ escapes str = str.count (chr '%') := by
  induction spells with
  | done => exact ⟨rfl, rfl⟩
  | plain c str text percent plus _ ih =>
      obtain ⟨decoded, counted⟩ := urldecode2_literal c str percent
      rw [decoded, counted, ih.1, ih.2, plusToSpace, if_neg plus, List.count_cons_of_ne percent]
      exact ⟨rfl, rfl⟩
  | space str text _ ih =>
      obtain ⟨decoded, counted⟩ := urldecode2_literal (chr '+') str (by decide)
      rw [decoded, counted, ih.1, ih.2, List.count_cons_of_ne (by decide)]
      exact ⟨rfl, rfl⟩
  | escape a b str text high low _ ih =>
      have escape : chr '%' = chr '%' ∧ isxdigit a ∧ isxdigit b := ⟨rfl, high, low⟩
      rw [urldecode2, escapes, if_pos escape, if_pos escape, ih.1, ih.2, List.count_cons_self,
        List.count_cons_of_ne (xdigit_not_percent a high), List.count_cons_of_ne (xdigit_not_percent b low)]
      exact ⟨rfl, rfl⟩

theorem spells_alnum (c : UInt8) (alnum : isalnum c = true) : Spells [c] [c] := by
  refine .plain c [] [] ?_ ?_ .done
  · rintro rfl
    exact absurd alnum (by decide)
  · rintro rfl
    exact absurd alnum (by decide)

theorem spells_hex (a b c : UInt8) (high : isxdigit a = true) (low : isxdigit b = true)
    (value : 16 * hexDigit a + hexDigit b = c) : Spells [chr '%', a, b] [c] := by
  have escape := Spells.escape a b [] [] high low .done
  rwa [value] at escape

theorem spells_each (spell : UInt8 → List UInt8) (each : ∀ c, Spells (spell c) [c]) (text : List UInt8) :
    Spells (text.flatMap spell) text := by
  induction text with
  | nil => exact .done
  | cons c text ih => exact spells_append _ [c] _ text (each c) ih

theorem hex_digits (c : UInt8) : isxdigit (upperHex (c.toNat / 16)) = true ∧ isxdigit (upperHex (c.toNat % 16)) = true ∧
    16 * hexDigit (upperHex (c.toNat / 16)) + hexDigit (upperHex (c.toNat % 16)) = c := by
  revert c
  exact every_byte _ (by decide +kernel)

theorem spells_byte (c : UInt8) : Spells (encodeByte c) [c] := by
  rw [encodeByte]
  split
  · rename_i alnum
    exact spells_alnum c alnum
  · split
    · rename_i blank
      rw [blank]
      exact .space [] [] .done
    · obtain ⟨high, low, value⟩ := hex_digits c
      exact spells_hex _ _ c high low value

theorem spells_text (text : List UInt8) : Spells (text.flatMap encodeByte) text := spells_each encodeByte spells_byte text

theorem join_pairs_cons (spell : List UInt8 → List UInt8) (pair : List UInt8 × List UInt8) (pairs : Form)
    (more : pairs ≠ []) : joinPairs spell (pair :: pairs) =
      spell pair.1 ++ chr '=' :: (spell pair.2 ++ chr '&' :: joinPairs spell pairs) := by
  rw [joinPairs, List.map_cons, List.intercalate_cons_of_ne_nil (by simpa using more)]
  simp [joinPairs]

theorem join_pairs_one (spell : List UInt8 → List UInt8) (pair : List UInt8 × List UInt8) :
    joinPairs spell [pair] = spell pair.1 ++ chr '=' :: spell pair.2 := List.intercalate_singleton

theorem spells_pairs (pairs : Form) : Spells (encodePairs pairs) (joinPairs id pairs) := by
  have equals : ∀ str text, Spells str text → Spells (chr '=' :: str) (chr '=' :: text) :=
    fun str text rest => .plain _ str text (by decide) (by decide) rest
  induction pairs with
  | nil => exact .done
  | cons pair pairs ih =>
      by_cases more : pairs = []
      · subst more
        rw [encodePairs, join_pairs_one, join_pairs_one]
        exact spells_append _ _ _ _ (spells_text pair.1) (equals _ _ (spells_text pair.2))
      · rw [encodePairs, join_pairs_cons _ pair pairs more, join_pairs_cons _ pair pairs more]
        refine spells_append _ _ _ _ (spells_text pair.1) (equals _ _ ?_)
        exact spells_append _ _ _ _ (spells_text pair.2) (.plain _ _ _ (by decide) (by decide) ih)

theorem form_parser_decoded (str text : List UInt8) (spells : Spells str text) (clean : 0 ∉ text) :
    ∃ rest rounds, (text ++ [chr '&']).length < rounds ∧
      formParser str = formLoop rounds (text ++ [chr '&'] ++ 0 :: rest) 0 [] := by
  obtain ⟨decoded, counted⟩ := spells_decoded str text spells
  have few : percentCounter str ≤ escapes str := by
    rw [counted, percentCounter]
    exact (List.tail_sublist str).count_le _
  have room : 17 + 2 * escapes str - 2 * percentCounter str = (15 + 2 * escapes str - 2 * percentCounter str) + 1 + 1 := by
    omega
  have made := (url_decoder_iff str _).mpr ⟨by omega, rfl⟩
  rw [decoded, room, List.replicate_succ, List.replicate_succ] at made
  generalize List.replicate (15 + 2 * escapes str - 2 * percentCounter str) (0 : UInt8) = rest at made
  have first := store_append text (0 :: rest) 0 (chr '&') text.length rfl
  have second : store (text ++ chr '&' :: 0 :: rest) ((text.length : Int) + 1) 0 = .ok (text ++ [chr '&'] ++ 0 :: rest) := by
    have stored := store_append (text ++ [chr '&']) rest 0 0 ((text.length : Int) + 1) (by simp)
    simpa using stored
  refine ⟨rest, (text ++ [chr '&'] ++ 0 :: rest).length + 1, ?_, ?_⟩
  · simp only [List.length_append, List.length_cons]
    omega
  · simp only [formParser, made, cstr_at_start text _ clean, bind, Except.bind, first, second]

theorem pair_lexer_spec (before key value more rest : List UInt8) (noEquals : chr '=' ∉ key) (noAmp : chr '&' ∉ value)
    (clean : 0 ∉ key ++ chr '=' :: (value ++ chr '&' :: more)) :
    pairLexer (before ++ (key ++ chr '=' :: (value ++ chr '&' :: more) ++ 0 :: rest)) before.length (chr '=') (chr '&') =
      .ok (some (key, value)) := by
  have text := cstr_at_append before (key ++ chr '=' :: (value ++ chr '&' :: more)) rest _ rfl clean
  simp only [List.mem_append, List.mem_cons, not_or] at clean
  have equals := idx_of_append key (value ++ chr '&' :: more) (chr '=') noEquals
  have behind : (key ++ chr '=' :: (value ++ chr '&' :: more)).drop (key.length + 1) = value ++ chr '&' :: more := by
    rw [List.drop_append]
    simp
  have amp := idx_of_append value more (chr '&') noAmp
  have keyDup := string_view_dup_piece before key (chr '=' :: (value ++ chr '&' :: more) ++ 0 :: rest)
    ⟨before.length, some ((before.length : Int) + key.length), key.length⟩ clean.1 rfl rfl
  have valueDup := string_view_dup_piece (before ++ (key ++ [chr '='])) value (chr '&' :: more ++ 0 :: rest)
    ⟨before.length + key.length + 1, some ((before.length : Int) + key.length + 1 + value.length), value.length⟩ clean.2.2.1
    (by simp [Nat.add_assoc]) rfl
  have keyShape : before ++ (key ++ chr '=' :: (value ++ chr '&' :: more) ++ 0 :: rest) =
      before ++ (key ++ (chr '=' :: (value ++ chr '&' :: more) ++ 0 :: rest)) := by simp
  have valueShape : before ++ (key ++ chr '=' :: (value ++ chr '&' :: more) ++ 0 :: rest) =
      before ++ (key ++ [chr '=']) ++ (value ++ (chr '&' :: more ++ 0 :: rest)) := by simp
  rw [← keyShape] at keyDup
  rw [← valueShape] at valueDup
  simp only [pairLexer, text, equals, behind, amp, bind, Except.bind]
  rw [keyDup, valueDup]

-- The next search starts behind the first & of the text, wherever the pair ends.
theorem form_loop_step (before key value more front back rest : List UInt8) (rounds : Nat) (form : Form)
    (shape : key ++ chr '=' :: (value ++ chr '&' :: more) = front ++ chr '&' :: back) (noEquals : chr '=' ∉ key)
    (noAmp : chr '&' ∉ value) (first : chr '&' ∉ front) (clean : 0 ∉ front ++ chr '&' :: back) :
    formLoop (rounds + 1) (before ++ (front ++ chr '&' :: back ++ 0 :: rest)) before.length form =
      formLoop rounds (before ++ (front ++ [chr '&']) ++ (back ++ 0 :: rest)) (before ++ (front ++ [chr '&'])).length
        ((key, value) :: form) := by
  have text := cstr_at_append before (front ++ chr '&' :: back) rest _ rfl clean
  have lexed := pair_lexer_spec before key value more rest noEquals noAmp (by rwa [shape])
  rw [shape] at lexed
  obtain ⟨c, tail, same⟩ : ∃ c tail, front ++ chr '&' :: back = c :: tail := List.exists_cons_of_ne_nil (by simp)
  have nonzero : c ≠ 0 := by
    rintro rfl
    exact clean (by rw [same]; exact List.mem_cons_self)
  have loaded : load (before ++ (front ++ chr '&' :: back ++ 0 :: rest)) (before.length : Int) = .ok c := by
    rw [same]
    exact load_append before (tail ++ 0 :: rest) c _ rfl
  have moved : before ++ (front ++ chr '&' :: back ++ 0 :: rest) =
      before ++ (front ++ [chr '&']) ++ (back ++ 0 :: rest) := by simp
  have place : before.length + front.length + 1 = (before ++ (front ++ [chr '&'])).length := by
    simp [Nat.add_assoc]
  simp only [formLoop, loaded, bind, Except.bind, if_neg nonzero, lexed, text, idx_of_append front back (chr '&') first]
  rw [moved, place]

def fieldText (pair : List UInt8 × List UInt8) : List UInt8 := pair.1 ++ chr '=' :: (pair.2 ++ [chr '&'])

theorem join_pairs_text (pairs : Form) (some_pair : pairs ≠ []) :
    joinPairs id pairs ++ [chr '&'] = pairs.flatMap fieldText := by
  induction pairs with
  | nil => exact absurd rfl some_pair
  | cons pair pairs ih =>
      by_cases more : pairs = []
      · subst more
        rw [join_pairs_one]
        simp [fieldText]
      · rw [join_pairs_cons _ pair pairs more, List.flatMap_cons, ← ih more]
        simp [fieldText]

theorem valid_clean (pairs : Form) (valid : ∀ pair ∈ pairs, ValidPair pair) : ∀ pair ∈ pairs, CleanPair pair :=
  fun pair member => ⟨(valid pair member).key, (valid pair member).value⟩

theorem field_texts_clean (pairs : Form) (clean : ∀ pair ∈ pairs, CleanPair pair) : 0 ∉ pairs.flatMap fieldText := by
  simp only [List.mem_flatMap, not_exists, not_and]
  intro pair member
  simp only [fieldText, List.mem_append, List.mem_cons, List.not_mem_nil, not_or]
  exact ⟨(clean pair member).1, by decide, (clean pair member).2, by decide, not_false⟩

theorem join_pairs_clean (pairs : Form) (clean : ∀ pair ∈ pairs, CleanPair pair) : 0 ∉ joinPairs id pairs := by
  by_cases some_pair : pairs = []
  · subst some_pair
    exact List.not_mem_nil
  · intro zero
    have inside := List.mem_append_left [chr '&'] zero
    rw [join_pairs_text pairs some_pair] at inside
    exact field_texts_clean pairs clean inside

def named (form : Form) : Form := form.filter fun entry => entry.1 ≠ []

theorem form_get_named (form : Form) (key : List UInt8) :
    formGet (some form) key = ((named form).find? fun entry => entry.1 = key).map Prod.snd := by
  rw [formGet, named, List.find?_filter]
  by_cases empty : key = []
  · rw [if_pos empty, List.find?_eq_none.mpr]
    · rfl
    · intro entry _
      simp [empty]
  · rw [if_neg empty, Option.bind_some]
    congr 2
    funext entry
    by_cases same : entry.1 = key
    · simp [same, empty]
    · simp [same]

-- One round for a pair, and one more for the & at the end of its key.
theorem form_loop_pair (before more rest : List UInt8) (pair : List UInt8 × List UInt8) (valid : ValidPair pair)
    (plain : PlainPair pair) (clean : 0 ∉ fieldText pair ++ more) :
    ∃ used entries, used ≤ 2 ∧ named entries = [pair] ∧ ∀ rounds form,
      formLoop (rounds + used) (before ++ (fieldText pair ++ more ++ 0 :: rest)) before.length form =
        formLoop rounds (before ++ fieldText pair ++ (more ++ 0 :: rest)) (before ++ fieldText pair).length (entries ++ form) := by
  obtain ⟨key, value⟩ := pair
  obtain ⟨nonempty, _, _⟩ := valid
  obtain ⟨noEquals, inner, noAmp⟩ := plain
  simp only at nonempty noEquals inner noAmp
  have text : fieldText (key, value) ++ more = key ++ chr '=' :: (value ++ chr '&' :: more) := by simp [fieldText]
  rw [text] at clean ⊢
  by_cases amp : chr '&' ∈ key
  · obtain ⟨front, back, parts, first⟩ := List.eq_append_cons_of_mem amp
    have last : back = [] := by
      by_contra more
      rw [parts, List.dropLast_append_of_ne_nil (List.cons_ne_nil _ _), List.dropLast_cons_of_ne_nil more] at inner
      exact inner (List.mem_append_right _ List.mem_cons_self)
    subst last parts
    refine ⟨2, [([], value), (front ++ [chr '&'], value)], by omega, by simp [named], fun rounds form => ?_⟩
    have shape : front ++ [chr '&'] ++ chr '=' :: (value ++ chr '&' :: more) =
        front ++ chr '&' :: (chr '=' :: (value ++ chr '&' :: more)) := by simp
    rw [shape] at clean ⊢
    rw [form_loop_step before (front ++ [chr '&']) value more front _ rest (rounds + 1) form shape noEquals noAmp first clean]
    have next := form_loop_step (before ++ (front ++ [chr '&'])) [] value more (chr '=' :: value) more rest rounds
      ((front ++ [chr '&'], value) :: form) (by simp) (by simp) noAmp
      (by rw [List.mem_cons, not_or]; exact ⟨by decide, noAmp⟩)
      (fun zero => clean (List.mem_append_right _ (List.mem_cons_of_mem _ (by simpa using zero))))
    refine Eq.trans ?_ (next.trans ?_)
    · simp
    · simp [fieldText]
  · refine ⟨1, [(key, value)], by omega, by simp [named, nonempty], fun rounds form => ?_⟩
    have shape : key ++ chr '=' :: (value ++ chr '&' :: more) = (key ++ chr '=' :: value) ++ chr '&' :: more := by simp
    have clean' := clean
    rw [shape] at clean'
    have first : chr '&' ∉ key ++ chr '=' :: value := by
      simp only [List.mem_append, List.mem_cons, not_or]
      exact ⟨amp, by decide, noAmp⟩
    have stepped := form_loop_step before key value more (key ++ chr '=' :: value) more rest rounds form shape noEquals noAmp
      first clean'
    rw [← shape] at stepped
    rw [stepped]
    simp [fieldText]

theorem form_loop_plain (pairs : Form) (before rest : List UInt8) (rounds : Nat) (form : Form)
    (valid : ∀ pair ∈ pairs, ValidPair pair) (plain : ∀ pair ∈ pairs, PlainPair pair)
    (enough : (pairs.flatMap fieldText).length < rounds) :
    ∃ last, formLoop rounds (before ++ (pairs.flatMap fieldText ++ 0 :: rest)) before.length form = .ok last ∧
      named last = pairs.reverse ++ named form := by
  induction pairs generalizing before rounds form with
  | nil =>
      obtain ⟨rounds, rfl⟩ := Nat.exists_eq_succ_of_ne_zero (by omega : rounds ≠ 0)
      have loaded : load (before ++ (([] : Form).flatMap fieldText ++ 0 :: rest)) (before.length : Int) = .ok 0 :=
        load_append before rest 0 _ rfl
      refine ⟨form, ?_, rfl⟩
      simp only [formLoop, loaded, bind, Except.bind, if_true]
  | cons pair pairs ih =>
      have others : ∀ pair ∈ pairs, ValidPair pair := fun other member => valid other (List.mem_cons_of_mem _ member)
      have clean := field_texts_clean (pair :: pairs) (valid_clean _ valid)
      rw [List.flatMap_cons] at clean
      obtain ⟨used, entries, few, names, ran⟩ := form_loop_pair before (pairs.flatMap fieldText) rest pair
        (valid pair List.mem_cons_self) (plain pair List.mem_cons_self) clean
      have long : 2 ≤ (fieldText pair).length := by
        simp only [fieldText, List.length_append, List.length_cons]
        omega
      rw [List.flatMap_cons, List.length_append] at enough
      obtain ⟨left, rfl⟩ : ∃ left, rounds = left + used := ⟨rounds - used, by omega⟩
      obtain ⟨last, done, lastNames⟩ := ih (before ++ fieldText pair) left (entries ++ form) others
        (fun other member => plain other (List.mem_cons_of_mem _ member)) (by omega)
      refine ⟨last, ?_, ?_⟩
      · rw [List.flatMap_cons, ran, done]
      · rw [lastNames, named, List.filter_append, ← named, names, List.reverse_cons, List.append_assoc]
        rfl

theorem form_parser_plain (pairs : Form) (valid : ∀ pair ∈ pairs, ValidPair pair) (plain : ∀ pair ∈ pairs, PlainPair pair) :
    ∃ form, formParser (encodePairs pairs) = .ok form ∧ ∀ key, formGet (some form) key = lastValue pairs key := by
  obtain ⟨rest, rounds, enough, parsed⟩ := form_parser_decoded _ _ (spells_pairs pairs)
    (join_pairs_clean pairs (valid_clean pairs valid))
  by_cases none : pairs = []
  · subst none
    obtain ⟨rounds, rfl⟩ := Nat.exists_eq_succ_of_ne_zero (by omega : rounds ≠ 0)
    refine ⟨[], ?_, fun key => by simp [formGet, lastValue]⟩
    have text := cstr_at_append [] [chr '&'] rest 0 rfl (by decide)
    have loaded : load ([chr '&'] ++ 0 :: rest) 0 = .ok (chr '&') := load_append [] (0 :: rest) (chr '&') 0 rfl
    rw [List.nil_append] at text
    rw [parsed]
    change formLoop (rounds + 1) ([chr '&'] ++ 0 :: rest) 0 [] = _
    have lexed : pairLexer ([chr '&'] ++ 0 :: rest) 0 (chr '=') (chr '&') = .ok none := by
      simp only [pairLexer, text, bind, Except.bind]
      rfl
    have amp : chr '&' ≠ 0 := by decide
    simp only [formLoop, Int.natCast_zero, loaded, lexed, bind, Except.bind, if_neg amp]
  · rw [join_pairs_text pairs none] at enough parsed
    obtain ⟨form, ran, names⟩ := form_loop_plain pairs [] rest rounds [] valid plain enough
    refine ⟨form, parsed.trans ran, fun key => ?_⟩
    have kept : named form = pairs.reverse := by rw [names]; exact List.append_nil _
    rw [form_get_named, kept, lastValue]

def Lexed (entry : List UInt8 × List UInt8) : Prop := chr '=' ∉ entry.1 ∧ chr '&' ∉ entry.2

theorem dup_subset (o : Object) (sv : StringView) (copy : List UInt8) (copied : stringViewDup o sv = .ok copy) :
    copy ⊆ (o.drop sv.start).take sv.size.toNat := by
  rw [stringViewDup] at copied
  split at copied
  · obtain ⟨_, _, copied⟩ := (except_bind_ok _ _ _).mp copied
    rw [strncpy] at copied
    split at copied
    · cases copied
      exact List.takeWhile_subset _
    · cases copied
  · cases copied
    exact List.nil_subset _

theorem pair_lexer_lexed (o : Object) (str : Nat) (entry : List UInt8 × List UInt8)
    (lexed : pairLexer o str (chr '=') (chr '&') = .ok (some entry)) : Lexed entry := by
  rw [pairLexer] at lexed
  obtain ⟨text, read, lexed⟩ := (except_bind_ok _ _ _).mp lexed
  obtain ⟨rest, whole⟩ := cstr_at_prefix o str text read
  cases equals : text.idxOf? (chr '=') with
  | none =>
      rw [equals] at lexed
      cases lexed
  | some d =>
      simp only [equals] at lexed
      cases amp : (text.drop (d + 1)).idxOf? (chr '&') with
      | none =>
          rw [amp] at lexed
          cases lexed
      | some t =>
          simp only [amp] at lexed
          obtain ⟨key, keyCopied, lexed⟩ := (except_bind_ok _ _ _).mp lexed
          obtain ⟨value, valueCopied, lexed⟩ := (except_bind_ok _ _ _).mp lexed
          cases lexed
          have keyPart := dup_subset o _ key keyCopied
          have valuePart := dup_subset o _ value valueCopied
          obtain ⟨bound, _⟩ := List.idxOf?_eq_some_iff.mp equals
          have behind : o.drop (str + d + 1) = text.drop (d + 1) ++ rest := by
            rw [Nat.add_assoc, ← List.drop_drop, whole, List.drop_append_of_le_length (by omega)]
          simp only [whole, behind, Int.toNat_natCast] at keyPart valuePart
          exact ⟨fun member => idx_of_clean text rest _ d equals (keyPart member),
            fun member => idx_of_clean (text.drop (d + 1)) rest _ t amp (valuePart member)⟩

theorem form_loop_lexed (rounds : Nat) (o : Object) (decoded : Nat) (form last : Form)
    (ran : formLoop rounds o decoded form = .ok last) (good : ∀ entry ∈ form, Lexed entry) :
    form <:+ last ∧ ∀ entry ∈ last, Lexed entry := by
  induction rounds generalizing decoded form with
  | zero => cases ran
  | succ rounds ih =>
      rw [formLoop] at ran
      obtain ⟨c, _, ran⟩ := (except_bind_ok _ _ _).mp ran
      split at ran
      · cases ran
        exact ⟨List.suffix_refl _, good⟩
      · obtain ⟨found, lexed, ran⟩ := (except_bind_ok _ _ _).mp ran
        cases found with
        | none =>
            cases ran
            exact ⟨List.suffix_refl _, good⟩
        | some entry =>
            obtain ⟨text, _, ran⟩ := (except_bind_ok _ _ _).mp ran
            cases amp : text.idxOf? (chr '&') with
            | none =>
                rw [amp] at ran
                cases ran
            | some i =>
                rw [amp] at ran
                have here := pair_lexer_lexed o decoded entry lexed
                obtain ⟨longer, all⟩ := ih (decoded + i + 1) (entry :: form) ran (List.forall_mem_cons.mpr ⟨here, good⟩)
                exact ⟨(List.suffix_cons entry form).trans longer, all⟩

theorem form_get_some (form : Form) (key value : List UInt8) (got : formGet (some form) key = some value) :
    (key, value) ∈ form := by
  rw [formGet] at got
  split at got
  · cases got
  · obtain ⟨entry, found, same⟩ := Option.map_eq_some_iff.mp got
    have named : entry.1 = key := by simpa using List.find?_some found
    rw [← named, ← same]
    exact List.mem_of_find?_eq_some found

theorem form_get_member (form : Form) (key value : List UInt8) (nonempty : key ≠ []) (member : (key, value) ∈ form) :
    formGet (some form) key ≠ none := by
  rw [formGet, if_neg nonempty, Option.bind_some, ne_eq, Option.map_eq_none_iff, List.find?_eq_none]
  intro absent
  exact absent (key, value) member (decide_eq_true rfl)

-- A key with an & inside is also read from there on.
theorem suffix_lexed (front back value rest : List UInt8) (rounds : Nat) (last : Form)
    (noEquals : chr '=' ∉ front ++ chr '&' :: back) (noAmp : chr '&' ∉ value) (first : chr '&' ∉ front)
    (clean : 0 ∉ fieldText (front ++ chr '&' :: back, value))
    (enough : (fieldText (front ++ chr '&' :: back, value)).length < rounds)
    (ran : formLoop rounds (fieldText (front ++ chr '&' :: back, value) ++ 0 :: rest) 0 [] = .ok last) :
    (back, value) ∈ last := by
  obtain ⟨rounds, rfl⟩ : ∃ left, rounds = left + 1 + 1 := by
    simp only [fieldText, List.length_append, List.length_cons] at enough
    exact ⟨rounds - 2, by omega⟩
  have shape : fieldText (front ++ chr '&' :: back, value) =
      front ++ chr '&' :: (back ++ chr '=' :: (value ++ [chr '&'])) := by simp [fieldText]
  rw [shape] at clean ran
  have one := form_loop_step [] (front ++ chr '&' :: back) value [] front (back ++ chr '=' :: (value ++ [chr '&'])) rest
    (rounds + 1) [] (by simp) noEquals noAmp first clean
  have second : chr '&' ∈ back ++ chr '=' :: (value ++ [chr '&']) := by simp
  obtain ⟨front', back', split, first'⟩ := List.eq_append_cons_of_mem second
  have two := form_loop_step (front ++ [chr '&']) back value [] front' back' rest rounds
    [(front ++ chr '&' :: back, value)] split
    (fun equals => noEquals (List.mem_append_right _ (List.mem_cons_of_mem _ equals))) noAmp first'
    (by
      rw [← split]
      exact fun zero => clean (List.mem_append_right _ (List.mem_cons_of_mem _ zero)))
  rw [← split] at two
  simp only [List.nil_append, List.length_nil] at one
  rw [one, two] at ran
  have good : ∀ entry ∈ [(back, value), (front ++ chr '&' :: back, value)], Lexed entry := by
    intro entry member
    rcases List.mem_pair.mp member with rfl | rfl
    · exact ⟨fun equals => noEquals (List.mem_append_right _ (List.mem_cons_of_mem _ equals)), noAmp⟩
    · exact ⟨noEquals, noAmp⟩
  exact (form_loop_lexed _ _ _ _ _ ran good).1.mem List.mem_cons_self

theorem plain_of_round_trip (pair : List UInt8 × List UInt8) (valid : ValidPair pair) (trips : QueryRoundTrips [pair]) :
    PlainPair pair := by
  obtain ⟨q, parsed, gets⟩ := trips
  have valids : ∀ other ∈ [pair], ValidPair other := by simpa using valid
  obtain ⟨rest, rounds, enough, decoded⟩ := form_parser_decoded _ _ (spells_pairs [pair])
    (join_pairs_clean [pair] (valid_clean _ valids))
  have clean := field_texts_clean [pair] (valid_clean _ valids)
  rw [join_pairs_text [pair] (List.cons_ne_nil _ _)] at enough decoded
  simp only [List.flatMap_cons, List.flatMap_nil, List.append_nil] at enough decoded clean
  have ran : formLoop rounds (fieldText pair ++ 0 :: rest) 0 [] = .ok q := decoded.symm.trans parsed
  obtain ⟨_, lexed⟩ := form_loop_lexed _ _ _ _ _ ran (fun entry member => absurd member List.not_mem_nil)
  have own : queryGet (some q) pair.1 = some pair.2 := by
    rw [gets, lastValue]
    simp
  obtain ⟨noEquals, noAmp⟩ := lexed pair (form_get_some q pair.1 pair.2 own)
  refine ⟨noEquals, fun inner => ?_, noAmp⟩
  obtain ⟨key, value⟩ := pair
  obtain ⟨front, back, parts, first⟩ := List.eq_append_cons_of_mem (List.dropLast_subset _ inner)
  simp only at parts noEquals noAmp inner gets
  subst parts
  have more : back ≠ [] := by
    rintro rfl
    rw [List.dropLast_concat] at inner
    exact first inner
  have member := suffix_lexed front back value rest rounds q noEquals noAmp first clean enough ran
  have absent : lastValue [(front ++ chr '&' :: back, value)] back = none := by
    have longer : front ++ chr '&' :: back ≠ back := by
      intro same
      have length := congrArg List.length same
      rw [List.length_append, List.length_cons] at length
      omega
    rw [lastValue]
    simp [longer]
  exact form_get_member q back value more member ((gets back).trans absent)

theorem body_parser_form (header : Header) (o : Object) (buffer : Nat) (text : List UInt8)
    (type : headerGet header (ascii "content-type") = some (ascii "application/x-www-form-urlencoded"))
    (read : cstrAt o buffer = .ok text) : bodyParser header o buffer = (formParser text).map some := by
  have supported : checkHeader header = true := by
    rw [checkHeader, type]
    decide +kernel
  rw [bodyParser, if_pos supported, read]
  simp only [bind, Except.bind]
  cases formParser text <;> rfl

-- The texts are decoded before they are taken apart. A list with other pairs
-- may still come out right, when it lists by itself what is read in addition.
-- Texts of 2^30 bytes, which no request has, are past the int of url_decoder.
theorem form_round_trips_iff (pairs : Form) (valid : ∀ pair ∈ pairs, ValidPair pair) :
    ((∀ part, (∀ pair ∈ part, pair ∈ pairs) → RoundTrips part) ↔ ∀ pair ∈ pairs, PlainPair pair) ∧
      ∀ part, (encodePairs part).length < 2 ^ 30 → DecoderExact (encodePairs part) := by
  refine ⟨?_, fun part short => decoder_exact _ short⟩
  constructor
  · intro trips pair member
    have single : ∀ other ∈ [pair], other ∈ pairs := by
      intro other same
      rwa [List.mem_singleton.mp same]
    exact plain_of_round_trip pair (valid pair member) (trips [pair] single).1
  · intro plain part inside
    obtain ⟨form, parsed, gets⟩ := form_parser_plain part (fun pair member => valid pair (inside pair member))
      (fun pair member => plain pair (inside pair member))
    refine ⟨⟨form, parsed, gets⟩, ?_⟩
    intro header o buffer type read
    rw [body_parser_form header o buffer _ type read, parsed]
    exact ⟨some form, rfl, gets⟩

theorem form_round_trips_percent :
    ((∀ part, (∀ pair ∈ part, pair ∈ [(ascii "k 1", ascii "100%")]) → RoundTrips part) ↔
      ∀ pair ∈ [(ascii "k 1", ascii "100%")], PlainPair pair) ∧
      ∀ part, (encodePairs part).length < 2 ^ 30 → DecoderExact (encodePairs part) :=
  form_round_trips_iff [(ascii "k 1", ascii "100%")] (by
    intro pair member
    rw [List.mem_singleton.mp member]
    exact ⟨by decide, by decide +kernel, by decide +kernel⟩)

theorem form_value_cut : ValidPair (ascii "k", ascii "a&b") ∧
    queryParser (ascii "k=a%26b") = .ok [(ascii "k", ascii "a")] ∧ ¬ RoundTrips [(ascii "k", ascii "a&b")] := by
  have parsed : queryParser (encodePairs [(ascii "k", ascii "a&b")]) = .ok [(ascii "k", ascii "a")] := by decide +kernel
  refine ⟨⟨by decide, by decide +kernel, by decide +kernel⟩, by decide +kernel, ?_⟩
  rintro ⟨⟨q, same, gets⟩, _⟩
  cases parsed.symm.trans same
  exact absurd (gets (ascii "k")) (by decide +kernel)

end Facebooc
