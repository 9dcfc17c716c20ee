import Facebooc.Handlers

set_option autoImplicit false

namespace Facebooc

open CMemory

-- A Basic_string with the whole array its data points to.
structure HeapString where
  data : Object
  size : Nat
deriving DecidableEq, Repr

def putBytes : List UInt8 → Object → Nat → Except Fault (Object × Nat)
  | [], o, p => .ok (o, p)
  | c :: text, o, p => do
      let o ← store o p c
      putBytes text o (p + 1)

-- The writing loop of both passes: every character is replaced where the
-- pointer stands, and the pointer is moved behind it.
def rewriteLoop (spell : UInt8 → List UInt8) : List UInt8 → Object → Nat → Except Fault (Object × Nat)
  | [], o, p => .ok (o, p)
  | c :: text, o, p => do
      let (o, p) ← putBytes (spell c) o p
      rewriteLoop spell text o p

def rewriteInto (spell : UInt8 → List UInt8) (text : List UInt8) (newSize : Nat) : Except Fault HeapString := do
  let size ← malloc (newSize + 1)
  let (newBuf, _) ← rewriteLoop spell text (List.replicate size 0) 0
  let newBuf ← store newBuf newSize 0
  .ok ⟨newBuf, newSize⟩

-- src/utility.c. One counter for each key of the table.
def escapeCounter (text : List UInt8) : List Nat := escapeTable.map fun entry => text.count entry.1

def escapedSize (text : List UInt8) (size : Nat) : Nat := (escapeCounter text).foldl (fun n counter => n + 4 * counter) size

def htmlEscapeTransAt (str : HeapString) : Except Fault HeapString :=
  let text := str.data.take str.size
  let newSize := escapedSize text str.size
  if newSize = str.size then .ok str else rewriteInto escapeChar text newSize

-- src/utility.c, html_escape_trans with its counters, which are ints, and
-- new_size, to which an int is added.
def intCounter (text : List UInt8) : List Int := escapeTable.map fun entry => Int.bmod (text.count entry.1) (2 ^ 32)

def intEscapedSize (text : List UInt8) (size : Nat) : Int :=
  (intCounter text).foldl (fun n counter => n + Int.bmod (4 * counter) (2 ^ 32)) size

def rewriteSized (spell : UInt8 → List UInt8) (text : List UInt8) (newSize : Int) : Except Fault HeapString := do
  let size ← malloc (newSize + 1)
  let (newBuf, _) ← rewriteLoop spell text (List.replicate size 0) 0
  let newBuf ← store newBuf newSize 0
  .ok ⟨newBuf, newSize.toNat⟩

def htmlEscapeTransInt (str : HeapString) : Except Fault HeapString :=
  let text := str.data.take str.size
  let newSize := intEscapedSize text str.size
  if newSize = str.size then .ok str else rewriteSized escapeChar text newSize

-- Few enough characters of each kind for the counters.
def EscapesFit (text : List UInt8) : Prop := ∀ entry ∈ escapeTable, text.count entry.1 < 2 ^ 29

def newlineToBrAt (str : HeapString) : Except Fault HeapString := do
  let text := str.data.take str.size
  let counter := text.count (chr '\n')
  if (← load str.data 0) = 0 ∨ counter = 0 then .ok str else rewriteInto brChar text (str.size + counter * 3)

def displayChar (c : UInt8) : List UInt8 :=
  if c = chr '"' then ascii "&#34;"
  else if c = chr '\'' then ascii "&#39;"
  else if c = chr '&' then ascii "&#38;"
  else if c = chr '<' then ascii "&#60;"
  else if c = chr '>' then ascii "&#62;"
  else if c = chr '\n' then ascii "<br>"
  else [c]

def displayForm (text : List UInt8) : List UInt8 := text.flatMap displayChar

-- The array of a string is as long as its text and a NUL.
structure Exactly (str : HeapString) (text : List UInt8) : Prop where
  data : str.data = text ++ [0]
  size : str.size = text.length
  read : cstrAt str.data 0 = .ok text

theorem put_bytes_next (text done junk : List UInt8) (room : text.length ≤ junk.length) :
    putBytes text (done ++ junk) done.length = .ok (done ++ text ++ junk.drop text.length, (done ++ text).length) := by
  induction text generalizing done junk with
  | nil => simp [putBytes]
  | cons c text ih =>
      cases junk with
      | nil => cases room
      | cons d junk =>
          have stored := store_append done junk d c done.length rfl
          have rest := ih (done ++ [c]) junk (Nat.le_of_succ_le_succ room)
          simp only [List.append_assoc, List.singleton_append, List.length_append, List.length_cons, List.length_nil] at rest
          simp only [putBytes, stored, bind, Except.bind]
          rw [rest]
          simp

theorem rewrite_loop_next (spell : UInt8 → List UInt8) (text done junk : List UInt8)
    (room : (text.flatMap spell).length ≤ junk.length) :
    rewriteLoop spell text (done ++ junk) done.length =
      .ok (done ++ text.flatMap spell ++ junk.drop (text.flatMap spell).length, (done ++ text.flatMap spell).length) := by
  induction text generalizing done junk with
  | nil => simp [rewriteLoop]
  | cons c text ih =>
      rw [List.flatMap_cons, List.length_append] at room
      have put := put_bytes_next (spell c) done junk (by omega)
      have rest := ih (done ++ spell c) (junk.drop (spell c).length) (by rw [List.length_drop]; omega)
      rw [rewriteLoop, put]
      simp only [bind, Except.bind]
      rw [rest]
      simp only [List.flatMap_cons, List.append_assoc, List.length_append, List.drop_drop]

-- The counting loop and the writing loop agree on the size.
theorem rewrite_into_exactly (spell : UInt8 → List UInt8) (text : List UInt8) (newSize : Nat)
    (counted : newSize = (text.flatMap spell).length) (clean : 0 ∉ text.flatMap spell) :
    ∃ str, rewriteInto spell text newSize = .ok str ∧ Exactly str (text.flatMap spell) := by
  have size : malloc ((newSize : Int) + 1) = .ok (newSize + 1) := malloc_size _
  have written := rewrite_loop_next spell text [] (List.replicate (newSize + 1) 0) (by rw [List.length_replicate]; omega)
  have spare : newSize + 1 - (text.flatMap spell).length = 1 := by omega
  rw [List.nil_append, List.nil_append, List.drop_replicate, spare, List.replicate_one] at written
  have ended := store_append (text.flatMap spell) [] 0 0 (newSize : Int) (by omega)
  refine ⟨⟨text.flatMap spell ++ [0], newSize⟩, ?_, rfl, counted, cstr_at_start _ [] clean⟩
  simp only [List.length_nil] at written
  simp only [rewriteInto, size, bind, Except.bind, written, ended]

theorem escaped_size_length (text : List UInt8) (size : Nat) (exact : size = text.length) :
    escapedSize text size = (text.flatMap escapeChar).length := by
  subst exact
  have sum : ∀ text : List UInt8, escapedSize text text.length = text.length + 4 * text.count (chr '"') +
      4 * text.count (chr '\'') + 4 * text.count (chr '&') + 4 * text.count (chr '<') + 4 * text.count (chr '>') := by
    intro text
    rfl
  induction text with
  | nil => rfl
  | cons c text ih =>
      rw [sum] at ih
      rw [sum, List.flatMap_cons, List.length_append, ← ih]
      simp only [List.count_cons, List.length_cons]
      have each : (escapeChar c).length = 1 + 4 * (if c == chr '"' then 1 else 0) + 4 * (if c == chr '\'' then 1 else 0) +
          4 * (if c == chr '&' then 1 else 0) + 4 * (if c == chr '<' then 1 else 0) + 4 * (if c == chr '>' then 1 else 0) := by
        revert c
        exact every_byte _ (by decide +kernel)
      omega

theorem exactly_taken (str : HeapString) (text : List UInt8) (exact : Exactly str text) : str.data.take str.size = text := by
  rw [exact.data, exact.size, List.take_left]

theorem flat_map_longer (spell : UInt8 → List UInt8) (text : List UInt8) (each : ∀ c, spell c = [c] ∨ 1 < (spell c).length) :
    text.length ≤ (text.flatMap spell).length ∧
      ((text.flatMap spell).length = text.length → text.flatMap spell = text) := by
  induction text with
  | nil => exact ⟨Nat.le_refl 0, fun _ => rfl⟩
  | cons c text ih =>
      obtain ⟨longer, exact⟩ := ih
      rw [List.flatMap_cons, List.length_append, List.length_cons]
      rcases each c with plain | long
      · rw [plain]
        refine ⟨by rw [List.length_singleton]; omega, fun same => ?_⟩
        rw [exact (by rw [List.length_singleton] at same; omega)]
        rfl
      · exact ⟨by omega, fun same => by omega⟩

theorem escape_char_cases (c : UInt8) : escapeChar c = [c] ∨ 1 < (escapeChar c).length := by
  rw [escapeChar]
  cases found : escapeTable.find? fun entry => c = entry.1 with
  | none => exact .inl rfl
  | some entry =>
      have long : ∀ entry ∈ escapeTable, 1 < entry.2.length := by decide
      exact .inr (long entry (List.mem_of_find?_eq_some found))

theorem br_char_cases (c : UInt8) : brChar c = [c] ∨ 1 < (brChar c).length := by
  rw [brChar]
  split
  · exact .inr (by decide)
  · exact .inl rfl

theorem html_escape_trans_exactly (str : HeapString) (text : List UInt8) (exact : Exactly str text) (clean : 0 ∉ text) :
    ∃ escaped, htmlEscapeTransAt str = .ok escaped ∧ Exactly escaped (text.flatMap escapeChar) := by
  have sized := escaped_size_length text str.size exact.size
  rw [htmlEscapeTransAt]
  simp only [exactly_taken str text exact]
  by_cases same : escapedSize text str.size = str.size
  · have unchanged := (flat_map_longer escapeChar text escape_char_cases).2 (by rw [← sized, same, exact.size])
    rw [if_pos same, unchanged]
    exact ⟨str, rfl, exact⟩
  · rw [if_neg same]
    exact rewrite_into_exactly escapeChar text _ sized (flat_map_clean escapeChar text clean escape_char_clean)

theorem newline_to_br_exactly (str : HeapString) (text : List UInt8) (exact : Exactly str text) (clean : 0 ∉ text) :
    ∃ shown, newlineToBrAt str = .ok shown ∧ Exactly shown (text.flatMap brChar) := by
  have sized := flat_map_br_length text
  obtain ⟨c, loaded, first⟩ : ∃ c, load str.data 0 = .ok c ∧ (c = 0 → text = []) := by
    rw [exact.data]
    cases text with
    | nil => exact ⟨0, rfl, fun _ => rfl⟩
    | cons c text =>
        refine ⟨c, rfl, fun zero => ?_⟩
        rw [zero] at clean
        exact absurd List.mem_cons_self clean
  rw [newlineToBrAt]
  simp only [loaded, bind, Except.bind, exactly_taken str text exact]
  by_cases same : c = 0 ∨ text.count (chr '\n') = 0
  · have none_counted : text.count (chr '\n') = 0 := by
      rcases same with zero | none
      · rw [first zero]
        rfl
      · exact none
    have unchanged := (flat_map_longer brChar text br_char_cases).2 (by omega)
    rw [if_pos same, unchanged]
    exact ⟨str, rfl, exact⟩
  · rw [if_neg same]
    exact rewrite_into_exactly brChar text _ (by rw [exact.size, sized]) (flat_map_clean brChar text clean br_char_clean)

def displayTable : List (UInt8 × List UInt8) := escapeTable ++ [(chr '\n', ascii "<br>")]

theorem display_char_table (c : UInt8) : (c, displayChar c) ∈ displayTable ∨
    displayChar c = [c] ∧ c ≠ chr '&' ∧ c ≠ chr '<' ∧ c ≠ chr '>' := by
  revert c
  exact every_byte _ (by decide +kernel)

theorem display_char_passes (c : UInt8) : (escapeChar c).flatMap brChar = displayChar c := by
  revert c
  exact every_byte _ (by decide +kernel)

theorem display_form_passes (text : List UInt8) : (text.flatMap escapeChar).flatMap brChar = displayForm text := by
  rw [List.flatMap_assoc, displayForm]
  simp only [display_char_passes]

-- A code no word of which begins another, whatever stands behind them.
def PrefixFree {α β : Type} (code : α → List β) : Prop :=
  ∀ (a b : α) (s t : List β), code a ++ s = code b ++ t → a = b

theorem flat_map_injective {α β : Type} (code : α → List β) (nonempty : ∀ a, code a ≠ []) (free : PrefixFree code)
    (s t : List α) (same : s.flatMap code = t.flatMap code) : s = t := by
  induction s generalizing t with
  | nil =>
      cases t with
      | nil => rfl
      | cons b t =>
          rw [List.flatMap_cons, List.flatMap_nil] at same
          exact absurd (List.append_eq_nil_iff.mp same.symm).1 (nonempty b)
  | cons a s ih =>
      cases t with
      | nil =>
          rw [List.flatMap_cons, List.flatMap_nil] at same
          exact absurd (List.append_eq_nil_iff.mp same).1 (nonempty a)
      | cons b t =>
          rw [List.flatMap_cons, List.flatMap_cons] at same
          have first := free a b _ _ same
          subst first
          rw [ih t (List.append_cancel_left same)]

-- Entities begin with & and breaks with <, which no other character is shown as.
theorem display_char_prefix_free : PrefixFree displayChar := by
  have long : ∀ entry ∈ displayTable, 4 ≤ entry.2.length ∧
    (entry.2.head? = some (chr '&') ∨ entry.2.head? = some (chr '<')) := by
    decide +kernel
  have apart : ∀ left ∈ displayTable, ∀ right ∈ displayTable, left.2.take 4 = right.2.take 4 → left.1 = right.1 := by
    decide +kernel
  have mixed : ∀ (a b : UInt8) (s t : List UInt8), (a, displayChar a) ∈ displayTable → displayChar b = [b] →
      b ≠ chr '&' → b ≠ chr '<' → displayChar a ++ s ≠ displayChar b ++ t := by
    intro a b s t coded plain noAmp noLess same
    obtain ⟨size, first⟩ := long _ coded
    have heads := congrArg List.head? same
    rw [List.head?_append_of_ne_nil _ (List.ne_nil_of_length_pos (Nat.lt_of_lt_of_le (by decide) size)), plain, List.singleton_append,
      List.head?_cons] at heads
    rcases first with amp | less
    · exact noAmp (Option.some.inj (heads.symm.trans amp))
    · exact noLess (Option.some.inj (heads.symm.trans less))
  intro a b s t same
  rcases display_char_table a with aCoded | ⟨aPlain, aAmp, aLess, _⟩
  · rcases display_char_table b with bCoded | ⟨bPlain, bAmp, bLess, _⟩
    · have cut := congrArg (List.take 4) same
      rw [List.take_append_of_le_length (long _ aCoded).1, List.take_append_of_le_length (long _ bCoded).1] at cut
      exact apart _ aCoded _ bCoded cut
    · exact absurd same (mixed a b s t aCoded bPlain bAmp bLess)
  · rcases display_char_table b with bCoded | ⟨bPlain, _, _, _⟩
    · exact absurd same.symm (mixed b a t s bCoded aPlain aAmp aLess)
    · rw [aPlain, bPlain] at same
      exact (List.cons.inj same).1

theorem display_char_nonempty (c : UInt8) : displayChar c ≠ [] := by
  rcases display_char_table c with coded | ⟨plain, _⟩
  · have long : ∀ entry ∈ displayTable, entry.2 ≠ [] := by decide +kernel
    exact long _ coded
  · rw [plain]
    exact List.cons_ne_nil _ _

-- The place of an angle bracket in the display form is inside the break of one
-- newline of the text.
def InsideBreak (text : List UInt8) (i : Nat) : Prop :=
  ∃ before after, text = before ++ chr '\n' :: after ∧
    displayForm text = displayForm before ++ ascii "<br>" ++ displayForm after ∧
    (displayForm before).length ≤ i ∧ i < (displayForm before).length + 4

theorem display_char_brackets (c d : UInt8) (member : d ∈ displayChar c) (bracket : d = chr '<' ∨ d = chr '>') :
    c = chr '\n' := by
  rcases display_char_table c with coded | ⟨plain, _, noLess, noGreater⟩
  · have only : ∀ entry ∈ displayTable, chr '<' ∈ entry.2 ∨ chr '>' ∈ entry.2 → entry.1 = chr '\n' := by decide +kernel
    apply only _ coded
    rcases bracket with less | greater
    · exact .inl (less ▸ member)
    · exact .inr (greater ▸ member)
  · rw [plain, List.mem_singleton] at member
    rcases bracket with less | greater
    · exact absurd (member.symm.trans less) noLess
    · exact absurd (member.symm.trans greater) noGreater

theorem bracket_inside_break (text : List UInt8) (i : Nat) (d : UInt8) (seen : (displayForm text)[i]? = some d)
    (bracket : d = chr '<' ∨ d = chr '>') : InsideBreak text i := by
  induction text generalizing i with
  | nil => cases seen
  | cons c text ih =>
      have shape : displayForm (c :: text) = displayChar c ++ displayForm text := List.flatMap_cons
      rw [shape] at seen
      by_cases here : i < (displayChar c).length
      · rw [List.getElem?_append_left here] at seen
        have newline := display_char_brackets c d (List.mem_of_getElem? seen) bracket
        subst newline
        exact ⟨[], text, rfl, shape, Nat.zero_le i, here⟩
      · rw [List.getElem?_append_right (by omega)] at seen
        obtain ⟨before, after, parts, shown, low, high⟩ := ih _ seen
        have front : displayForm (c :: before) = displayChar c ++ displayForm before := List.flatMap_cons
        refine ⟨c :: before, after, by rw [parts]; rfl, ?_, ?_, ?_⟩
        · rw [shape, shown, front]
          simp only [List.append_assoc]
        · rw [front, List.length_append]
          omega
        · rw [front, List.length_append]
          omega

-- The counters are right as long as four times each is an int.
theorem int_counter_iff (count : Nat) :
    Int.bmod (4 * Int.bmod count (2 ^ 32)) (2 ^ 32) = 4 * count ↔ count < 2 ^ 29 := by
  have inner : Int.bmod (4 * Int.bmod count (2 ^ 32)) (2 ^ 32) = Int.bmod (4 * count) (2 ^ 32) := by
    rw [Int.mul_bmod_bmod]
  rw [inner]
  constructor
  · intro same
    have limit : Int.bmod (4 * count) (2 ^ 32) < (2 ^ 32 + 1) / 2 := Int.bmod_lt (by decide)
    omega
  · intro small
    exact Int.bmod_eq_of_le (by omega) (by omega)

theorem int_counter_le (count : Nat) : Int.bmod (4 * Int.bmod count (2 ^ 32)) (2 ^ 32) ≤ 4 * count := by
  by_cases small : count < 2 ^ 29
  · rw [(int_counter_iff count).mpr small]
  · have limit : Int.bmod (4 * Int.bmod count (2 ^ 32)) (2 ^ 32) < (2 ^ 32 + 1) / 2 := Int.bmod_lt (by decide)
    omega

theorem counted_sum (counts : List Nat) (size : Nat) (n : Int) (below : n ≤ size) :
    let summed := (counts.map fun count => Int.bmod (count : Int) (2 ^ 32)).foldl
      (fun n counter => n + Int.bmod (4 * counter) (2 ^ 32)) n
    let exact := counts.foldl (fun n count => n + 4 * count) size
    summed ≤ exact ∧ (summed = exact ↔ n = size ∧ ∀ count ∈ counts, count < 2 ^ 29) := by
  induction counts generalizing size n with
  | nil => simpa using below
  | cons count counts ih =>
      have bound := int_counter_le count
      have limit := int_counter_iff count
      have rest := ih (size + 4 * count) (n + Int.bmod (4 * Int.bmod count (2 ^ 32)) (2 ^ 32)) (by omega)
      simp only [List.foldl_cons]
      refine ⟨rest.1, rest.2.trans ?_⟩
      rw [List.forall_mem_cons, ← limit]
      constructor
      · rintro ⟨same, small⟩
        exact ⟨by omega, by omega, small⟩
      · rintro ⟨same, here, small⟩
        exact ⟨by omega, small⟩

theorem int_escaped_size (text : List UInt8) (size : Nat) :
    intEscapedSize text size ≤ escapedSize text size ∧ (intEscapedSize text size = escapedSize text size ↔ EscapesFit text) := by
  have counted := counted_sum (escapeCounter text) size size (Int.le_refl _)
  have counters : intCounter text = (escapeCounter text).map fun count : Nat => Int.bmod (count : Int) (2 ^ 32) := by
    simp only [intCounter, escapeCounter, List.map_map, Function.comp_def]
  have fits : EscapesFit text ↔ ∀ count ∈ escapeCounter text, count < 2 ^ 29 := by
    rw [EscapesFit, escapeCounter, List.forall_mem_map]
  rw [intEscapedSize, counters, escapedSize, fits]
  exact ⟨counted.1, counted.2.trans (and_iff_right rfl)⟩

theorem html_escape_trans_int (str : HeapString) (fits : EscapesFit (str.data.take str.size)) :
    htmlEscapeTransInt str = htmlEscapeTransAt str := by
  have counted := (int_escaped_size (str.data.take str.size) str.size).2.mpr fits
  rw [htmlEscapeTransInt, htmlEscapeTransAt, counted]
  simp only [Int.ofNat_inj]
  rfl

-- The int counters of a post body are far from their limit.
theorem post_escapes_fit (text : List UInt8) (short : text.length < maxBodyLen) : EscapesFit text := by
  intro entry _
  have bound : text.count entry.1 ≤ text.length := List.count_le_length
  have limit : text.length < 65536 := short
  omega

theorem stored_body_shown (id createdAt authorId : Int) (s : List UInt8) (clean : 0 ∉ s) :
    postOfRow ⟨id, createdAt, authorId, (htmlEscapeTrans ⟨s, s.length⟩).data⟩ =
      ⟨id, createdAt, authorId, ⟨displayForm s, (displayForm s).length⟩⟩ := by
  have escaped := flat_map_clean escapeChar s clean escape_char_clean
  have data := newline_to_br_text (s.flatMap escapeChar)
  have size := newline_to_br_size (s.flatMap escapeChar)
  rw [data, display_form_passes] at size
  rw [display_form_passes] at data
  rw [postOfRow, html_escape_trans_text, basicStringInit, cstr_clean _ escaped]
  generalize newlineToBr ⟨s.flatMap escapeChar, (s.flatMap escapeChar).length⟩ = body at data size ⊢
  cases body with
  | mk text length =>
      simp only at data size
      rw [data, size]

-- A post that is stored and read again has this form as its body.
theorem post_display_form (db : Database) (now authorId : Int) (s : List UInt8) (clean : 0 ∉ s) :
    ∃ row ∈ (postCreateMove db now authorId ⟨s, s.length⟩).posts, row ∉ db.posts ∧
      (postOfRow row).body = ⟨displayForm s, (displayForm s).length⟩ := by
  refine ⟨_, List.mem_append_right _ (List.mem_singleton_self _), fun member => ?_, ?_⟩
  · exact next_rowid_fresh _ (List.mem_map_of_mem (f := PostRow.id) member)
  · rw [stored_body_shown _ _ _ s clean]

-- The passes with their arrays, and with the int counters where the body is one
-- that a post takes; what is read of a stored post.
theorem display_form_exact (s : List UInt8) (clean : 0 ∉ s) :
    (∃ escaped shown, htmlEscapeTransAt ⟨s ++ [0], s.length⟩ = .ok escaped ∧ newlineToBrAt escaped = .ok shown ∧
      Exactly shown (displayForm s)) ∧
    (s.length < maxBodyLen → htmlEscapeTransInt ⟨s ++ [0], s.length⟩ = htmlEscapeTransAt ⟨s ++ [0], s.length⟩) ∧
    (∀ db now authorId, ∃ row ∈ (postCreateMove db now authorId ⟨s, s.length⟩).posts, row ∉ db.posts ∧
      (postOfRow row).body = ⟨displayForm s, (displayForm s).length⟩) ∧
    (∀ (i : Nat) (d : UInt8), (displayForm s)[i]? = some d → d = chr '<' ∨ d = chr '>' → InsideBreak s i) ∧
    ∀ t, displayForm s = displayForm t → s = t := by
  have whole : Exactly ⟨s ++ [0], s.length⟩ s := ⟨rfl, rfl, cstr_at_start s [] clean⟩
  refine ⟨?_, ?_, ?_, ?_, ?_⟩
  · obtain ⟨escaped, ran, exact⟩ := html_escape_trans_exactly _ s whole clean
    obtain ⟨shown, showed, last⟩ := newline_to_br_exactly escaped _ exact (flat_map_clean escapeChar s clean escape_char_clean)
    rw [display_form_passes] at last
    exact ⟨escaped, shown, ran, showed, last⟩
  · intro short
    apply html_escape_trans_int
    rw [exactly_taken _ s whole]
    exact post_escapes_fit s short
  · intro db now authorId
    exact post_display_form db now authorId s clean
  · intro i d seen bracket
    exact bracket_inside_break s i d seen bracket
  · intro t same
    exact flat_map_injective displayChar display_char_nonempty display_char_prefix_free s t same

theorem display_form_exact_hello :
    (∃ escaped shown, htmlEscapeTransAt ⟨ascii "<b>\n" ++ [0], 4⟩ = .ok escaped ∧ newlineToBrAt escaped = .ok shown ∧
      Exactly shown (displayForm (ascii "<b>\n"))) ∧
    (4 < maxBodyLen → htmlEscapeTransInt ⟨ascii "<b>\n" ++ [0], 4⟩ = htmlEscapeTransAt ⟨ascii "<b>\n" ++ [0], 4⟩) ∧
    (∀ db now authorId, ∃ row ∈ (postCreateMove db now authorId ⟨ascii "<b>\n", 4⟩).posts, row ∉ db.posts ∧
      (postOfRow row).body = ⟨displayForm (ascii "<b>\n"), (displayForm (ascii "<b>\n")).length⟩) ∧
    (∀ (i : Nat) (d : UInt8), (displayForm (ascii "<b>\n"))[i]? = some d → d = chr '<' ∨ d = chr '>' →
      InsideBreak (ascii "<b>\n") i) ∧
    ∀ t, displayForm (ascii "<b>\n") = displayForm t → ascii "<b>\n" = t :=
  display_form_exact (ascii "<b>\n") (by decide)

end Facebooc
