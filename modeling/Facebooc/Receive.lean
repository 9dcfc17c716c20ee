import Facebooc.Dispatch
import Facebooc.RequestLine

set_option autoImplicit false

namespace Facebooc

open CMemory StringSearch

-- src/server.c: the array of handle, whose bytes behind the received ones are
-- whatever the stack held.
def buffSize : Nat := 20480

def terminate (received stack : List UInt8) : Except Fault Object :=
  store (received ++ stack.drop received.length) received.length 0

-- The path up to its first question mark, which split_query_string makes the uri.
def pathUri (path : List UInt8) : List UInt8 := path.takeWhile fun c => c ≠ chr '?'

-- The writes and scans on the way to the handler stay in their buffers, and of
-- the three arrays of the request line none is read that was not written.
structure BuffersRespected (received stack : List UInt8) : Prop where
  nul : ∃ buff, terminate received stack = .ok buff
  uriLen : ∃ n, getUriLen received = .ok n
  words : ∀ n, getUriLen received = .ok n → ∃ words, scanLine n (cstr received) = .ok words
  line : ∀ buff, terminate received stack = .ok buff → ∃ line, parseRequestLine buff = .ok line
  dir : ∀ buff method path offset, terminate received stack = .ok buff →
    parseRequestLine buff = .ok (some (method, path, offset)) → ∃ dir, routeDir (pathUri path) = .ok dir ∧ 0 ∈ dir

def uriOf (received : List UInt8) : List UInt8 := pathUri (word (cstr received) 1)

def SegmentFits (uri : List UInt8) : Prop := uri ≠ [] ∧ ∀ sep, uri.tail.idxOf? (chr '/') = some sep → sep ≤ 31

-- What the checks let through: the character behind "HTTP/1" is not looked at.
structure LineAccepted (text : List UInt8) : Prop where
  method : setMethod (word text 0) ≠ none
  version : (word text 2).take 6 = ascii "HTTP/1"
  digit : (word text 2).getD 7 0 = chr '1' ∨ (word text 2).getD 7 0 = chr '0'

structure BytesFit (received : List UInt8) : Prop where
  short : received.length < buffSize
  spaces : 2 ≤ received.count (chr ' ')
  words : WordsFit (betweenSpaces received).length (cstr received)
  line : Refused (cstr received) ∨ LineAccepted (cstr received) ∧ SegmentFits (uriOf received)

theorem terminate_iff (received stack : List UInt8) (size : stack.length = buffSize) (limit : received.length ≤ buffSize) :
    (∃ buff, terminate received stack = .ok buff) ↔ received.length < buffSize := by
  have length : (received ++ stack.drop received.length).length = buffSize := by
    rw [List.length_append, List.length_drop]
    omega
  rw [terminate, store, length]
  constructor
  · rintro ⟨buff, written⟩
    split at written
    · omega
    · cases written
  · intro short
    exact ⟨_, if_pos (by omega)⟩

theorem terminated_text (received stack buff : List UInt8) (written : terminate received stack = .ok buff) :
    ∃ rest, buff = received ++ 0 :: rest := by
  rw [terminate, store] at written
  split at written
  · cases written
    cases spare : stack.drop received.length with
    | nil =>
        rename_i inside
        rw [spare, List.append_nil] at inside
        omega
    | cons c rest => exact ⟨rest, by simp⟩
  · cases written

theorem get_uri_len_some (buf : Object) (n : Nat) (run : getUriLen buf = .ok n) : 2 ≤ buf.count (chr ' ') := by
  obtain ⟨first, one, run⟩ := (except_bind_ok _ _ _).mp run
  obtain ⟨second, two, _⟩ := (except_bind_ok _ _ _).mp run
  rw [skipToSpace] at one two
  cases at1 : (buf.drop 0).idxOf? (chr ' ') with
  | none =>
      rw [at1] at one
      cases one
  | some i =>
      rw [at1] at one
      cases one
      cases at2 : (buf.drop (0 + i + 1)).idxOf? (chr ' ') with
      | none =>
          rw [at2] at two
          cases two
      | some j =>
          have later : 0 < (buf.drop (i + 1)).count (chr ' ') := by
            rw [List.count_pos_iff]
            by_contra absent
            rw [Nat.zero_add, List.idxOf?_eq_none_iff.mpr absent] at at2
            cases at2
          rw [List.drop_zero] at at1
          obtain ⟨inside, here, _⟩ := List.idxOf?_eq_some_iff.mp at1
          have split := List.take_append_drop (i + 1) buf
          rw [← split, List.count_append]
          have earlier : 0 < (buf.take (i + 1)).count (chr ' ') := by
            rw [List.count_pos_iff, List.mem_take_iff_getElem]
            exact ⟨i, by omega, here⟩
          omega

theorem cstr_at_terminated (received rest : List UInt8) : cstrAt (received ++ 0 :: rest) 0 = .ok (cstr received) := by
  have whole : cstr (received ++ 0 :: rest) = cstr received := by
    by_cases stops : 0 ∈ received
    · exact cstr_append_stop received (0 :: rest) stops
    · rw [cstr_append_clean received (0 :: rest) stops, cstr_clean received stops]
      exact List.append_nil received
  rw [cstrAt, List.drop_zero, if_pos (by simp)]
  exact congrArg Except.ok whole

theorem word_clean (text : List UInt8) (n : Nat) (clean : 0 ∉ text) : 0 ∉ word text n := by
  induction n generalizing text with
  | zero =>
      intro member
      exact clean (List.dropWhile_subset _ (List.takeWhile_subset _ member))
  | succ n ih =>
      refine ih (afterWord text) fun member => clean ?_
      exact List.dropWhile_subset _ (List.dropWhile_subset _ member)

theorem given_read (word text : List UInt8) (run : initialized (given word) = .ok text) : text = word ∧ word ≠ [] := by
  rw [initialized_given] at run
  split at run
  · cases run
  · rename_i written
    cases run
    exact ⟨rfl, written⟩

theorem check_line_some (uriLen : Nat) (method uri version : List UInt8) (line : Method × List UInt8 × Nat) :
    checkLine uriLen (given method) (given uri) (given version) = .ok (some line) ↔ method ≠ [] ∧ uri ≠ [] ∧
      version.take 6 = ascii "HTTP/1" ∧ (version.getD 7 0 = chr '1' ∨ version.getD 7 0 = chr '0') ∧
      ∃ known, setMethod method = some known ∧ line = (known, uri, method.length + uriLen + version.length + 4) := by
  constructor
  · intro run
    obtain ⟨name, read, named⟩ := (except_bind_ok _ _ _).mp run
    obtain ⟨rfl, noMethod⟩ := given_read method name read
    cases known : setMethod name with
    | none =>
        rw [known] at named
        cases named
    | some m =>
        rw [known] at named
        obtain ⟨text, read, versioned⟩ := (except_bind_ok _ _ _).mp named
        obtain ⟨rfl, noVersion⟩ := given_read version text read
        split at versioned
        · cases versioned
        · rename_i head
          obtain ⟨digit, shown, checked⟩ := (except_bind_ok _ _ _).mp versioned
          rw [versionDigit] at shown
          split at shown
          · cases shown
          · cases shown
            split at checked
            · cases checked
            · rename_i digit
              obtain ⟨path, read, last⟩ := (except_bind_ok _ _ _).mp checked
              obtain ⟨rfl, noUri⟩ := given_read uri path read
              cases last
              exact ⟨noMethod, noUri, not_not.mp head, (not_and_or.mp digit).imp not_not.mp not_not.mp, m, rfl, rfl⟩
  · rintro ⟨noMethod, noUri, head, digit, known, found, rfl⟩
    have noVersion : version ≠ [] := by
      intro empty
      rw [empty] at head
      exact absurd head (by decide)
    have long : ¬ version.length < 7 := by
      intro short
      rw [List.getD_eq_getElem?_getD, List.getElem?_eq_none (by omega)] at digit
      exact absurd digit (by decide)
    simp only [checkLine, initialized_given, if_neg noMethod, if_neg noUri, if_neg noVersion, found, versionDigit, if_neg long,
      head, bind, Except.bind, ne_eq, not_true_eq_false, if_false]
    rw [if_neg (not_and_or.mpr (digit.imp not_not.mpr not_not.mpr))]

theorem word_stops (text : List UInt8) (empty : word text 1 = []) : word text 2 = [] := by
  have nothing := first_word_nil (afterWord text) empty
  rw [word, word, word, nothing]
  rfl

theorem set_method_named (segment : List UInt8) (known : setMethod segment ≠ none) : segment ≠ [] := by
  intro empty
  rw [empty] at known
  exact known (by decide +kernel)

-- The checks end in a refusal, or in a line with the second word as its path.
theorem check_words (uriLen : Nat) (text : List UInt8) :
    let checked := checkLine uriLen (given (word text 0)) (given (word text 1)) (given (word text 2))
    (checked = .ok none ↔ Refused text) ∧ ((∃ line, checked = .ok (some line)) ↔ LineAccepted text) ∧
      ∀ method path offset, checked = .ok (some (method, path, offset)) → path = word text 1 := by
  refine ⟨check_line_none _ _ _ _, ⟨?_, ?_⟩, ?_⟩
  · rintro ⟨line, run⟩
    obtain ⟨_, _, head, digit, known, found, _⟩ := (check_line_some _ _ _ _ _).mp run
    exact ⟨by rw [found]; exact Option.some_ne_none _, head, digit⟩
  · rintro ⟨method, head, digit⟩
    obtain ⟨known, found⟩ := Option.ne_none_iff_exists'.mp method
    refine ⟨_, (check_line_some _ _ _ _ _).mpr ⟨set_method_named _ method, fun empty => ?_, head, digit, known, found, rfl⟩⟩
    rw [word_stops text empty] at head
    exact absurd head (by decide)
  · intro method path offset run
    obtain ⟨_, _, _, _, known, _, same⟩ := (check_line_some _ _ _ _ _).mp run
    exact congrArg (fun line => line.2.1) same

theorem split_query_uri (path uri : List UInt8) (query : Option Form) (run : splitQueryString path = .ok (uri, query)) :
    uri = pathUri path := by
  rw [splitQueryString] at run
  cases found : path.idxOf? (chr '?') with
  | none =>
      rw [found] at run
      cases run
      exact (idx_of_none path (chr '?') found).symm
  | some begin =>
      rw [found] at run
      obtain ⟨form, _, run⟩ := (except_bind_ok _ _ _).mp run
      cases run
      exact idx_of_take path (chr '?') begin found

theorem accepted_line (buff : Object) (req : Request) (accepted : requestNew buff = .ok (some req)) :
    ∃ method path offset, parseRequestLine buff = .ok (some (method, path, offset)) ∧ req.uri = pathUri path := by
  obtain ⟨parsed, run, same⟩ := (except_bind_ok _ _ _).mp accepted
  cases parsed with
  | none => cases same
  | some parsed =>
      cases same
      obtain ⟨line, lineRun, run⟩ := (except_bind_ok _ _ _).mp run
      cases line with
      | none => cases run
      | some line =>
          obtain ⟨method, path, offset⟩ := line
          obtain ⟨⟨uri, query⟩, split, run⟩ := (except_bind_ok _ _ _).mp run
          obtain ⟨⟨headers, buff, next⟩, _, run⟩ := (except_bind_ok _ _ _).mp run
          obtain ⟨cookies, _, run⟩ := (except_bind_ok _ _ _).mp run
          obtain ⟨body, _, run⟩ := (except_bind_ok _ _ _).mp run
          cases run
          exact ⟨method, path, offset, lineRun, split_query_uri path uri query split⟩

-- What handle itself hands to fetch_dir.
theorem fetch_dir_respected (received stack : List UInt8) (buff : Object) (req : Request)
    (respected : BuffersRespected received stack) (written : terminate received stack = .ok buff)
    (accepted : requestNew buff = .ok (some req)) : ∃ dir, routeDir req.uri = .ok dir ∧ 0 ∈ dir := by
  obtain ⟨method, path, offset, line, same⟩ := accepted_line buff req accepted
  rw [same]
  exact respected.dir buff method path offset written line

theorem segment_fits_iff (uri : List UInt8) (clean : 0 ∉ uri) :
    (∃ dir, routeDir uri = .ok dir ∧ 0 ∈ dir) ↔ SegmentFits uri := by
  cases uri with
  | nil => exact iff_of_false (by rintro ⟨dir, copied, _⟩; cases copied) fun fits => fits.1 rfl
  | cons c tail =>
      have tailClean : 0 ∉ tail := fun member => clean (List.mem_cons_of_mem c member)
      have text : cstrAt (c :: tail ++ [0]) 1 = .ok tail := cstr_at_append [c] tail [] 1 rfl tailClean
      simp only [routeDir, fetchDir, text, bind, Except.bind, SegmentFits, List.tail_cons, List.length_replicate]
      cases found : tail.idxOf? (chr '/') with
      | none => exact iff_of_true ⟨_, rfl, by decide⟩ ⟨List.cons_ne_nil c tail, fun sep same => by cases same⟩
      | some sep =>
          by_cases fits : sep ≤ 32
          · simp only [if_pos fits]
            constructor
            · rintro ⟨dir, copied, ends⟩
              cases copied
              refine ⟨List.cons_ne_nil c tail, ?_⟩
              rintro other ⟨rfl⟩
              rcases List.mem_append.mp ends with inTail | spare
              · exact absurd (List.mem_of_mem_take inTail) tailClean
              · rw [List.drop_replicate] at spare
                have more := (List.mem_replicate.mp spare).1
                omega
            · intro short
              have less := short.2 sep rfl
              refine ⟨_, rfl, List.mem_append_right _ ?_⟩
              rw [List.drop_replicate, List.mem_replicate]
              exact ⟨by omega, rfl⟩
          · simp only [if_neg fits]
            refine iff_of_false (by rintro ⟨dir, copied, _⟩; cases copied) fun short => ?_
            have less := short.2 sep rfl
            omega

theorem received_line (received stack : List UInt8) (buff : Object) (written : terminate received stack = .ok buff)
    (spaces : 2 ≤ received.count (chr ' ')) (fit : WordsFit (betweenSpaces received).length (cstr received)) :
    parseRequestLine buff = checkLine (betweenSpaces received).length (given (word (cstr received) 0))
      (given (word (cstr received) 1)) (given (word (cstr received) 2)) := by
  obtain ⟨rest, rfl⟩ := terminated_text received stack buff written
  have words := (scan_line_iff _ (cstr received) _).mpr ⟨fit, rfl⟩
  simp only [parse_request_line_steps, get_uri_len_spaces received (0 :: rest) spaces, cstr_at_terminated received rest, words,
    bind, Except.bind]

-- Nothing on the path checks the number of bytes, the blanks or the length of
-- a word before it writes or scans.
theorem buffers_respected_iff (received stack : List UInt8) (size : stack.length = buffSize)
    (limit : received.length ≤ buffSize) : (BuffersRespected received stack ↔ BytesFit received) ∧
      (BuffersRespected received stack → ∀ buff req, terminate received stack = .ok buff → requestNew buff = .ok (some req) →
        ∃ dir, routeDir req.uri = .ok dir ∧ 0 ∈ dir) := by
  refine ⟨?_, fun respected buff req => fetch_dir_respected received stack buff req respected⟩
  have uriClean : 0 ∉ uriOf received := fun member =>
    word_clean (cstr received) 1 (cstr_split received).1 (List.takeWhile_subset _ member)
  obtain ⟨refused, accepted, uri⟩ := check_words (betweenSpaces received).length (cstr received)
  constructor
  · intro respected
    obtain ⟨n, scanned⟩ := respected.uriLen
    have spaces := get_uri_len_some received n scanned
    have length := get_uri_len_spaces received [] spaces
    rw [List.append_nil] at length
    obtain ⟨words, stored⟩ := respected.words _ length
    have fit := ((scan_line_iff _ _ _).mp stored).1
    obtain ⟨buff, written⟩ := respected.nul
    refine ⟨(terminate_iff received stack size limit).mp ⟨buff, written⟩, spaces, fit, ?_⟩
    obtain ⟨line, run⟩ := respected.line buff written
    -- From here on the line is checked on the three words.
    have steps := received_line received stack buff written spaces fit
    cases line with
    | none => exact .inl (refused.mp (steps.symm.trans run))
    | some line =>
        obtain ⟨method, path, offset⟩ := line
        have copied := respected.dir buff method path offset written run
        rw [uri method path offset (steps.symm.trans run)] at copied
        exact .inr ⟨accepted.mp ⟨_, steps.symm.trans run⟩, (segment_fits_iff _ uriClean).mp copied⟩
  · intro fit
    have length := get_uri_len_spaces received [] fit.spaces
    rw [List.append_nil] at length
    refine ⟨(terminate_iff received stack size limit).mpr fit.short, ⟨_, length⟩, ?_, ?_, ?_⟩
    · intro n scanned
      cases length.symm.trans scanned
      exact ⟨_, (scan_line_iff _ _ _).mpr ⟨fit.words, rfl⟩⟩
    · intro buff written
      rw [received_line received stack buff written fit.spaces fit.words]
      rcases fit.line with turned | ⟨taken, _⟩
      · exact ⟨none, refused.mpr turned⟩
      · obtain ⟨line, run⟩ := accepted.mpr taken
        exact ⟨some line, run⟩
    · intro buff method path offset written run
      rw [received_line received stack buff written fit.spaces fit.words] at run
      rcases fit.line with turned | ⟨_, short⟩
      · cases (refused.mpr turned).symm.trans run
      · rw [uri method path offset run]
        exact (segment_fits_iff _ uriClean).mpr short

theorem buffers_respected_get :
    let received := ascii "GET / HTTP/1.1\r\n\r\n"
    let stack := List.replicate buffSize 0
    (BuffersRespected received stack ↔ BytesFit received) ∧
      (BuffersRespected received stack → ∀ buff req, terminate received stack = .ok buff → requestNew buff = .ok (some req) →
        ∃ dir, routeDir req.uri = .ok dir ∧ 0 ∈ dir) :=
  buffers_respected_iff (ascii "GET / HTTP/1.1\r\n\r\n") (List.replicate buffSize 0) List.length_replicate
    (by change 18 ≤ 20480; omega)

theorem buffers_overrun : (∀ received stack, received.length = buffSize → stack.length = buffSize →
      ¬ BuffersRespected received stack) ∧
    ¬ BuffersRespected (ascii "PROPFIND / HTTP/1.1\r\n\r\n") (List.replicate buffSize 0) := by
  constructor
  · intro received stack full size respected
    have short := (terminate_iff received stack size (Nat.le_of_eq full)).mp respected.nul
    omega
  · intro respected
    have length : getUriLen (ascii "PROPFIND / HTTP/1.1\r\n\r\n") = .ok 1 := by decide +kernel
    obtain ⟨words, scanned⟩ := respected.words 1 length
    exact absurd ((scan_line_iff _ _ _).mp scanned).1.method (by decide +kernel)

end Facebooc
