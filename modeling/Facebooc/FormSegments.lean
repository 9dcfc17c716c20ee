import Facebooc.FormRoundTrip

set_option autoImplicit false

namespace Facebooc

open CMemory StringSearch

def segments (text : List UInt8) : List (List UInt8) := text.splitOn (chr '&')

def segmentEntry (segment : List UInt8) : Option (List UInt8 × List UInt8) :=
  (segment.idxOf? (chr '=')).map fun d => (segment.take d, segment.drop (d + 1))

def segmentEntries (text : List UInt8) : Form := (segments text).filterMap segmentEntry

-- The list of entries has an order of its own, the last one in front.
def QuerySegments (text : List UInt8) : Prop := ∃ q, queryParser text = .ok q ∧ q.Perm (segmentEntries text)

def BodySegments (text : List UInt8) : Prop :=
  ∀ header o buffer, headerGet header (ascii "content-type") = some (ascii "application/x-www-form-urlencoded") →
    cstrAt o buffer = .ok text → ∃ b, bodyParser header o buffer = .ok (some b) ∧ b.Perm (segmentEntries text)

-- Segments without = only stand behind the last one that has it.
def EqualsFirst (segs : List (List UInt8)) : Prop :=
  segs.Pairwise fun segment later => chr '=' ∈ later → chr '=' ∈ segment

-- What pair_lexer reads from the front of these segments: those without = go
-- into the key of the first that has it.
def carriedEntry : List (List UInt8) → Option (List UInt8 × List UInt8)
  | [] => none
  | segment :: more =>
      match segmentEntry segment with
      | some entry => some entry
      | none => (carriedEntry more).map fun entry => (segment ++ chr '&' :: entry.1, entry.2)

def readEntries : List (List UInt8) → Form
  | [] => []
  | segment :: more =>
      match carriedEntry (segment :: more) with
      | none => []
      | some entry => readEntries more ++ [entry]

def closedText (segs : List (List UInt8)) : List UInt8 := segs.flatMap fun segment => segment ++ [chr '&']

theorem segment_entry_none (segment : List UInt8) : segmentEntry segment = none ↔ chr '=' ∉ segment := by
  rw [segmentEntry, Option.map_eq_none_iff, List.idxOf?_eq_none_iff]

theorem segment_entry_some (segment : List UInt8) (entry : List UInt8 × List UInt8)
    (found : segmentEntry segment = some entry) : segment = entry.1 ++ chr '=' :: entry.2 ∧ chr '=' ∉ entry.1 := by
  obtain ⟨d, place, same⟩ := Option.map_eq_some_iff.mp found
  subst same
  obtain ⟨bound, here, _⟩ := List.idxOf?_eq_some_iff.mp place
  constructor
  · have parts := (List.take_append_drop d segment).symm
    rwa [List.drop_eq_getElem_cons bound, here] at parts
  · have clean := idx_of_clean segment [] (chr '=') d place
    rwa [List.append_nil] at clean

theorem segments_silent (segs : List (List UInt8)) (missing : ∀ segment ∈ segs, chr '=' ∉ segment) :
    segs.filterMap segmentEntry = [] := by
  rw [List.filterMap_eq_nil_iff]
  intro segment inside
  exact (segment_entry_none segment).mpr (missing segment inside)

theorem carried_none (segs : List (List UInt8)) : carriedEntry segs = none ↔ ∀ segment ∈ segs, chr '=' ∉ segment := by
  induction segs with
  | nil => simp [carriedEntry]
  | cons segment more ih =>
      rw [carriedEntry, List.forall_mem_cons, ← ih]
      cases found : segmentEntry segment with
      | none => simp [(segment_entry_none segment).mp found]
      | some entry =>
          have present : ¬ chr '=' ∉ segment := by
            rw [← segment_entry_none, found]
            exact Option.some_ne_none entry
          simp [present]

theorem carried_some (segs : List (List UInt8)) (entry : List UInt8 × List UInt8) (found : carriedEntry segs = some entry)
    (apart : ∀ segment ∈ segs, chr '&' ∉ segment) :
    ∃ more, closedText segs = entry.1 ++ chr '=' :: (entry.2 ++ chr '&' :: more) ∧ chr '=' ∉ entry.1 ∧
      chr '&' ∉ entry.2 := by
  induction segs generalizing entry with
  | nil => cases found
  | cons segment more ih =>
      rw [closedText, List.flatMap_cons]
      rw [carriedEntry] at found
      cases own : segmentEntry segment with
      | some pair =>
          rw [own] at found
          cases found
          obtain ⟨parts, clean⟩ := segment_entry_some segment entry own
          refine ⟨closedText more, ?_, clean, ?_⟩
          · rw [parts]
            simp [closedText]
          · intro amp
            apply apart segment List.mem_cons_self
            rw [parts]
            exact List.mem_append_right _ (List.mem_cons_of_mem _ amp)
      | none =>
          rw [own] at found
          obtain ⟨later, carried, same⟩ := Option.map_eq_some_iff.mp found
          subst same
          obtain ⟨rest, text, clean, noAmp⟩ := ih later carried (fun other member => apart other (List.mem_cons_of_mem _ member))
          refine ⟨rest, ?_, ?_, noAmp⟩
          · rw [← closedText, text]
            simp
          · have absent := (segment_entry_none segment).mp own
            have different : chr '=' ≠ chr '&' := by decide
            simpa [different] using ⟨absent, clean⟩

theorem form_loop_end (before text rest : List UInt8) (rounds : Nat) (form : Form) (nonempty : text ≠ []) (clean : 0 ∉ text)
    (absent : chr '=' ∉ text) :
    formLoop (rounds + 1) (before ++ (text ++ 0 :: rest)) before.length form = .ok form := by
  have read := cstr_at_append before text rest _ rfl clean
  obtain ⟨c, tail, rfl⟩ := List.exists_cons_of_ne_nil nonempty
  have loaded : load (before ++ (c :: tail ++ 0 :: rest)) (before.length : Int) = .ok c :=
    load_append before (tail ++ 0 :: rest) c _ rfl
  have nonzero : c ≠ 0 := by
    intro zero
    subst zero
    exact clean List.mem_cons_self
  have lexed : pairLexer (before ++ (c :: tail ++ 0 :: rest)) before.length (chr '=') (chr '&') = .ok none := by
    rw [pairLexer, read]
    simp only [bind, Except.bind, List.idxOf?_eq_none_iff.mpr absent]
  simp only [formLoop, loaded, bind, Except.bind, if_neg nonzero, lexed]

theorem form_loop_segments (segs : List (List UInt8)) (before rest : List UInt8) (rounds : Nat) (form : Form)
    (apart : ∀ segment ∈ segs, chr '&' ∉ segment) (clean : 0 ∉ closedText segs) (enough : (closedText segs).length < rounds) :
    formLoop rounds (before ++ (closedText segs ++ 0 :: rest)) before.length form = .ok (readEntries segs ++ form) := by
  induction segs generalizing before rounds form with
  | nil =>
      obtain ⟨rounds, rfl⟩ := Nat.exists_eq_succ_of_ne_zero (by omega : rounds ≠ 0)
      have loaded : load (before ++ (closedText [] ++ 0 :: rest)) (before.length : Int) = .ok 0 :=
        load_append before rest 0 _ rfl
      simp only [formLoop, loaded, bind, Except.bind, if_true]
      rfl
  | cons segment more ih =>
      obtain ⟨rounds, rfl⟩ := Nat.exists_eq_succ_of_ne_zero (by omega : rounds ≠ 0)
      have shape : closedText (segment :: more) = segment ++ chr '&' :: closedText more := by simp [closedText]
      have inner : ∀ other ∈ more, chr '&' ∉ other := fun other member => apart other (List.mem_cons_of_mem _ member)
      rw [readEntries]
      cases carried : carriedEntry (segment :: more) with
      | none =>
          have absent : chr '=' ∉ closedText (segment :: more) := by
            intro member
            obtain ⟨other, inside, here⟩ := List.mem_flatMap.mp member
            have missing := (carried_none _).mp carried other inside
            have different : chr '=' ≠ chr '&' := by decide
            simp [missing, different] at here
          have nonempty : closedText (segment :: more) ≠ [] := by simp [closedText]
          exact form_loop_end before _ rest rounds form nonempty clean absent
      | some entry =>
          obtain ⟨tail, text, noEquals, noAmp⟩ := carried_some (segment :: more) entry carried apart
          rw [shape] at clean text enough ⊢
          have stepped := form_loop_step before entry.1 entry.2 tail segment (closedText more) rest rounds form text.symm
            noEquals noAmp (apart segment List.mem_cons_self) clean
          rw [stepped, ih (before ++ (segment ++ [chr '&'])) rounds (entry :: form) inner
            (fun zero => clean (List.mem_append_right _ (List.mem_cons_of_mem _ zero)))
            (by rw [List.length_append, List.length_cons] at enough; omega)]
          simp

theorem segment_apart (text segment : List UInt8) (member : segment ∈ segments text) : chr '&' ∉ segment := by
  induction text generalizing segment with
  | nil =>
      have empty : segment = [] := by simpa [segments] using member
      rw [empty]
      exact List.not_mem_nil
  | cons c text ih =>
      rw [segments, List.splitOn_cons_eq_if_modifyHead, ← segments] at member
      split at member
      · cases List.mem_cons.mp member with
        | inl empty =>
            rw [empty]
            exact List.not_mem_nil
        | inr inside => exact ih segment inside
      · rename_i other
        cases parts : segments text with
        | nil =>
            rw [parts] at member
            cases member
        | cons head more =>
            rw [parts] at member ih
            cases List.mem_cons.mp member with
            | inl same =>
                rw [same, List.mem_cons, not_or]
                exact ⟨fun amp => other (beq_iff_eq.mpr amp.symm), ih head List.mem_cons_self⟩
            | inr inside => exact ih segment (List.mem_cons_of_mem head inside)

theorem closed_segments (text : List UInt8) : closedText (segments text) = text ++ [chr '&'] := by
  have joined : [chr '&'].intercalate (text.splitOn (chr '&')) = text := List.intercalate_splitOn (chr '&')
  have close : ∀ segs : List (List UInt8), segs ≠ [] → closedText segs = [chr '&'].intercalate segs ++ [chr '&'] := by
    intro segs nonempty
    induction segs with
    | nil => exact absurd rfl nonempty
    | cons segment more ih =>
        by_cases last : more = []
        · subst last
          simp [closedText]
        · rw [List.intercalate_cons_of_ne_nil last, closedText, List.flatMap_cons, ← closedText, ih last]
          simp
  rw [close (segments text) (List.splitOn_ne_nil _ _), segments, joined]

-- Every segment up to the last one with = makes an entry.
theorem read_entries_length (segs : List (List UInt8)) :
    (segs.filterMap segmentEntry).length ≤ (readEntries segs).length ∧
      ((readEntries segs).length = (segs.filterMap segmentEntry).length → EqualsFirst segs) := by
  induction segs with
  | nil => exact ⟨Nat.le_refl 0, fun _ => List.Pairwise.nil⟩
  | cons segment more ih =>
      obtain ⟨atLeast, exact⟩ := ih
      rw [readEntries, carriedEntry, EqualsFirst, List.pairwise_cons, ← EqualsFirst]
      cases own : segmentEntry segment with
      | some entry =>
          rw [List.filterMap_cons_some own]
          simp only [List.length_append, List.length_cons, List.length_nil]
          refine ⟨by omega, fun same => ⟨?_, exact (by omega)⟩⟩
          intro later _ _
          by_contra absent
          rw [← segment_entry_none, own] at absent
          cases absent
      | none =>
          rw [List.filterMap_cons_none own]
          cases carried : carriedEntry more with
          | none =>
              have missing := (carried_none more).mp carried
              rw [segments_silent more missing]
              refine ⟨Nat.le_refl 0, fun _ => ⟨?_, ?_⟩⟩
              · intro later inside present
                exact absurd present (missing later inside)
              · apply List.pairwise_of_forall_mem_list
                intro _ _ later inside present
                exact absurd present (missing later inside)
          | some entry =>
              simp only [Option.map_some, List.length_append, List.length_cons, List.length_nil]
              exact ⟨by omega, fun same => by omega⟩

theorem read_entries_reverse (segs : List (List UInt8)) (ordered : EqualsFirst segs) :
    readEntries segs = (segs.filterMap segmentEntry).reverse := by
  induction segs with
  | nil => rfl
  | cons segment more ih =>
      obtain ⟨head, tail⟩ := List.pairwise_cons.mp ordered
      rw [readEntries, carriedEntry]
      cases own : segmentEntry segment with
      | some entry =>
          rw [List.filterMap_cons_some own, List.reverse_cons]
          simp only [ih tail]
      | none =>
          have missing : ∀ later ∈ more, chr '=' ∉ later := by
            intro later inside present
            exact (segment_entry_none segment).mp own (head later inside present)
          rw [List.filterMap_cons_none own, segments_silent more missing, (carried_none more).mpr missing]
          rfl

theorem spells_plain (text : List UInt8) (plain : ∀ c ∈ text, c ≠ chr '%' ∧ c ≠ chr '+') : Spells text text := by
  induction text with
  | nil => exact .done
  | cons c text ih =>
      obtain ⟨percent, plus⟩ := plain c List.mem_cons_self
      exact .plain c text text percent plus (ih fun d member => plain d (List.mem_cons_of_mem c member))

-- Whatever a text without NUL stands for, the parser ends.
theorem form_parser_reads (str text : List UInt8) (spells : Spells str text) (clean : 0 ∉ text) :
    formParser str = .ok (readEntries (segments text)) := by
  obtain ⟨rest, rounds, enough, parsed⟩ := form_parser_decoded str text spells clean
  rw [parsed, ← closed_segments text]
  rw [← closed_segments text] at enough
  have closedClean : 0 ∉ closedText (segments text) := by
    rw [closed_segments]
    simpa using ⟨clean, by decide⟩
  have ran := form_loop_segments (segments text) [] rest rounds [] (segment_apart text) closedClean enough
  rw [List.append_nil] at ran
  exact ran

theorem form_parser_segments (text : List UInt8) (clean : 0 ∉ text) (plain : ∀ c ∈ text, c ≠ chr '%' ∧ c ≠ chr '+') :
    formParser text = .ok (readEntries (segments text)) :=
  form_parser_reads text text (spells_plain text plain) clean

theorem query_segments_iff (text : List UInt8) (clean : 0 ∉ text) (plain : ∀ c ∈ text, c ≠ chr '%' ∧ c ≠ chr '+') :
    QuerySegments text ↔ EqualsFirst (segments text) := by
  have parsed := form_parser_segments text clean plain
  constructor
  · intro exact
    obtain ⟨q, same, perm⟩ := exact
    rw [queryParser, parsed] at same
    cases same
    exact (read_entries_length (segments text)).2 perm.length_eq
  · intro ordered
    refine ⟨_, parsed, ?_⟩
    rw [read_entries_reverse (segments text) ordered]
    exact List.reverse_perm _

theorem body_segments (text : List UInt8) (clean : 0 ∉ text) (plain : ∀ c ∈ text, c ≠ chr '%' ∧ c ≠ chr '+')
    (ordered : EqualsFirst (segments text)) : BodySegments text := by
  intro header o buffer type read
  rw [body_parser_form header o buffer text type read, form_parser_segments text clean plain]
  refine ⟨_, rfl, ?_⟩
  rw [read_entries_reverse (segments text) ordered]
  exact List.reverse_perm _

theorem form_segments_iff (text : List UInt8) (clean : 0 ∉ text) (plain : ∀ c ∈ text, c ≠ chr '%' ∧ c ≠ chr '+') :
    QuerySegments text ∧ BodySegments text ↔ EqualsFirst (segments text) := by
  rw [query_segments_iff text clean plain]
  exact and_iff_left_of_imp (body_segments text clean plain)

theorem form_segments_empty : QuerySegments (ascii "a=1&b") ∧ BodySegments (ascii "a=1&b") ↔
    EqualsFirst (segments (ascii "a=1&b")) :=
  form_segments_iff (ascii "a=1&b") (by decide +kernel) (by decide +kernel)

-- The segment in front of the pair is read as a part of its key, and the pair
-- is read again.
theorem form_segments_fails : ¬ ∀ text : List UInt8, 0 ∉ text → (∀ c ∈ text, c ≠ chr '%' ∧ c ≠ chr '+') →
    QuerySegments text ∧ BodySegments text := by
  intro all
  obtain ⟨⟨q, parsed, perm⟩, _⟩ := all (ascii "a&b=1") (by decide +kernel) (by decide +kernel)
  have twice : queryParser (ascii "a&b=1") = .ok [(ascii "b", ascii "1"), (ascii "a&b", ascii "1")] := by decide +kernel
  rw [twice] at parsed
  cases parsed
  have lengths := perm.length_eq
  have one : (segmentEntries (ascii "a&b=1")).length = 1 := by decide +kernel
  rw [one] at lengths
  cases lengths

end Facebooc
