import Facebooc.RequestRoundTrip

set_option autoImplicit false

namespace Facebooc

open CMemory

-- Request-Line = Method SP Request-URI SP HTTP-Version CRLF
structure RequestLine (text : List UInt8) (method : Method) (uri version after : List UInt8) : Prop where
  text : text = method.name ++ ascii " " ++ uri ++ ascii " " ++ version ++ ascii "\r\n" ++ after
  nonempty : uri ≠ []
  word : ∀ c ∈ uri, isspace c = false
  version : version = ascii "HTTP/1.0" ∨ version = ascii "HTTP/1.1"

def WellFormed (text : List UInt8) : Prop := ∃ method uri version after, RequestLine text method uri version after

-- The line is accepted when it is well formed and only then, with its URI as
-- the path and the offset of the byte behind its CRLF.
def LineExact (buf : Object) (text : List UInt8) : Prop :=
  ∃ result, parseRequestLine buf = .ok result ∧ (result.isSome = true ↔ WellFormed text) ∧
    ∀ method path offset, result = some (method, path, offset) →
      ∃ version after, RequestLine text method path version after ∧ offset + after.length = text.length

def firstWord (text : List UInt8) : List UInt8 := (text.dropWhile isspace).takeWhile fun c => !isspace c

def afterWord (text : List UInt8) : List UInt8 := (text.dropWhile isspace).dropWhile fun c => !isspace c

def word (text : List UInt8) : Nat → List UInt8
  | 0 => firstWord text
  | n + 1 => word (afterWord text) n

def betweenSpaces (text : List UInt8) : List UInt8 :=
  (text.dropWhile fun c => c ≠ chr ' ').tail.takeWhile fun c => c ≠ chr ' '

structure WordsFit (uriLen : Nat) (text : List UInt8) : Prop where
  method : (word text 0).length < 8
  uri : (word text 1).length < uriLen + 1
  version : (word text 2).length < 9

-- A first word that names no method, or a third word the version check refuses.
def Refused (text : List UInt8) : Prop :=
  word text 0 ≠ [] ∧ (setMethod (word text 0) = none ∨ word text 2 ≠ [] ∧ ((word text 2).take 6 ≠ ascii "HTTP/1" ∨
    7 ≤ (word text 2).length ∧ (word text 2).getD 7 0 ≠ chr '1' ∧ (word text 2).getD 7 0 ≠ chr '0'))

def scanLine (uriLen : Nat) (text : List UInt8) :
    Except Fault (Option (List UInt8) × Option (List UInt8) × Option (List UInt8)) := do
  let (method, text) ← scanWord 8 text
  let (uri, text) ← scanWord (uriLen + 1) text
  let (version, _) ← scanWord 9 text
  .ok (method, uri, version)

def given (word : List UInt8) : Option (List UInt8) := if word = [] then none else some word

theorem first_word_nil (text : List UInt8) (empty : firstWord text = []) : afterWord text = [] := by
  rw [firstWord] at empty
  rw [afterWord]
  cases input : text.dropWhile isspace with
  | nil => rfl
  | cons c rest =>
      have stop := List.head_dropWhile_not isspace (l := text) (by rw [input]; exact List.cons_ne_nil c rest)
      simp only [input, List.head_cons] at stop
      rw [input, List.takeWhile_cons_of_pos (by simp [stop])] at empty
      cases empty

theorem scan_word_iff (size : Nat) (text : List UInt8) (room : 0 < size) (result : Option (List UInt8) × List UInt8) :
    scanWord size text = .ok result ↔ (firstWord text).length < size ∧ result = (given (firstWord text), afterWord text) := by
  have shape : scanWord size text = if firstWord text = [] then .ok (none, [])
    else if (firstWord text).length < size then .ok (some (firstWord text), afterWord text) else .error .bounds := rfl
  rw [shape]
  by_cases empty : firstWord text = []
  · rw [if_pos empty, first_word_nil text empty, given, if_pos empty, empty, Except.ok.injEq, eq_comm]
    exact (and_iff_right room).symm
  · rw [if_neg empty, given, if_neg empty]
    by_cases fits : (firstWord text).length < size
    · rw [if_pos fits, Except.ok.injEq, eq_comm]
      exact (and_iff_right fits).symm
    · rw [if_neg fits]
      exact iff_of_false (by simp) fun both => fits both.1

theorem scan_line_iff (uriLen : Nat) (text : List UInt8)
    (words : Option (List UInt8) × Option (List UInt8) × Option (List UInt8)) :
    scanLine uriLen text = .ok words ↔
      WordsFit uriLen text ∧ words = (given (word text 0), given (word text 1), given (word text 2)) := by
  constructor
  · intro run
    obtain ⟨first, scanned, run⟩ := (except_bind_ok _ _ _).mp run
    obtain ⟨method, rfl⟩ := (scan_word_iff _ _ (by omega) _).mp scanned
    obtain ⟨second, scanned, run⟩ := (except_bind_ok _ _ _).mp run
    obtain ⟨uri, rfl⟩ := (scan_word_iff _ _ (by omega) _).mp scanned
    obtain ⟨third, scanned, run⟩ := (except_bind_ok _ _ _).mp run
    obtain ⟨version, rfl⟩ := (scan_word_iff _ _ (by omega) _).mp scanned
    cases run
    exact ⟨⟨method, uri, version⟩, rfl⟩
  · intro ⟨fit, same⟩
    have first := (scan_word_iff 8 text (by omega) _).mpr ⟨fit.method, rfl⟩
    have second := (scan_word_iff (uriLen + 1) (afterWord text) (by omega) _).mpr ⟨fit.uri, rfl⟩
    have third := (scan_word_iff 9 (afterWord (afterWord text)) (by omega) _).mpr ⟨fit.version, rfl⟩
    rw [same]
    simp only [scanLine, first, second, third, bind, Except.bind]
    rfl

def checkLine (uriLen : Nat) (method uri version : Option (List UInt8)) :
    Except Fault (Option (Method × List UInt8 × Nat)) := do
  let method ← initialized method
  match setMethod method with
  | none => .ok none
  | some known =>
      let version ← initialized version
      if version.take 6 ≠ ascii "HTTP/1" then .ok none
      else
        let digit ← versionDigit version
        if digit ≠ chr '1' ∧ digit ≠ chr '0' then .ok none
        else
          let uri ← initialized uri
          .ok (some (known, uri, method.length + uriLen + version.length + 4))

theorem parse_request_line_steps (buf : Object) : parseRequestLine buf = (do
    let uriLen ← getUriLen buf
    let text ← cstrAt buf 0
    let (method, uri, version) ← scanLine uriLen text
    checkLine uriLen method uri version) := by
  simp only [parseRequestLine, scanLine, bind, Except.bind]
  cases getUriLen buf with
  | error fault => rfl
  | ok uriLen =>
      cases cstrAt buf 0 with
      | error fault => rfl
      | ok text =>
          cases first : scanWord 8 text with
          | error fault => simp only [first]
          | ok method =>
              cases second : scanWord (uriLen + 1) method.2 with
              | error fault => simp only [first, second]
              | ok uri =>
                  cases third : scanWord 9 uri.2 with
                  | error fault => simp only [first, second, third]
                  | ok version =>
                      simp only [first, second, third]
                      rfl

theorem two_spaces (text : List UInt8) (spaces : 2 ≤ text.count (chr ' ')) : ∃ first rest,
    text = first ++ chr ' ' :: (betweenSpaces text ++ chr ' ' :: rest) ∧ chr ' ' ∉ first ∧ chr ' ' ∉ betweenSpaces text := by
  obtain ⟨first, tail, split, firstClean⟩ := List.eq_append_cons_of_mem
    (List.count_pos_iff.mp (by omega : 0 < text.count (chr ' ')))
  rw [split, List.count_append, List.count_eq_zero.mpr firstClean, List.count_cons_self] at spaces
  obtain ⟨second, rest, tailSplit, secondClean⟩ :=
    List.eq_append_cons_of_mem (List.count_pos_iff.mp (by omega : 0 < tail.count (chr ' ')))
  have between : betweenSpaces text = second := by
    have skip : ∀ c ∈ first, decide (c ≠ chr ' ') = true :=
      fun c member => decide_eq_true fun same => firstClean (same ▸ member)
    rw [betweenSpaces, split, List.dropWhile_append_of_pos skip, List.dropWhile_cons_of_neg (by simp), List.tail_cons, tailSplit]
    exact take_while_stop second rest (chr ' ') secondClean
  exact ⟨first, rest, by rw [between, ← tailSplit, ← split], firstClean, by rw [between]; exact secondClean⟩

theorem get_uri_len_spaces (text rest : List UInt8) (spaces : 2 ≤ text.count (chr ' ')) :
    getUriLen (text ++ rest) = .ok (betweenSpaces text).length := by
  obtain ⟨first, tail, split, firstClean, betweenClean⟩ := two_spaces text spaces
  generalize betweenSpaces text = between at split betweenClean
  have one : skipToSpace (text ++ rest) 0 = .ok first.length := by
    have found := skip_to_space_spec [] first (between ++ chr ' ' :: tail ++ rest) firstClean
    rw [split]
    simpa using found
  have two : skipToSpace (text ++ rest) (first.length + 1) = .ok (first.length + 1 + between.length) := by
    have found := skip_to_space_spec (first ++ [chr ' ']) between (tail ++ rest) betweenClean
    rw [split]
    simpa using found
  simp only [getUriLen, one, two, bind, Except.bind, Except.ok.injEq]
  omega

theorem well_formed_words (text : List UInt8) (method : Method) (uri version after : List UInt8)
    (line : RequestLine text method uri version after) :
    word text 0 = method.name ∧ word text 1 = uri ∧ word text 2 = version := by
  obtain ⟨methodNonempty, methodWord, _⟩ := method_name_spec method
  obtain ⟨versionNonempty, versionWord, _⟩ := version_spec version line.version
  have one := scan_word_spec (method.name.length + 1) [] method.name (uri ++ chr ' ' :: (version ++ chr '\r' :: chr '\n' :: after))
    (chr ' ') (by simp) methodNonempty methodWord (by decide) (Nat.lt_succ_self _)
  have two := scan_word_spec (uri.length + 1) [chr ' '] uri (version ++ chr '\r' :: chr '\n' :: after) (chr ' ')
    (by decide +kernel) line.nonempty line.word (by decide) (Nat.lt_succ_self _)
  have three := scan_word_spec (version.length + 1) [chr ' '] version (chr '\n' :: after) (chr '\r')
    (by decide +kernel) versionNonempty versionWord (by decide) (Nat.lt_succ_self _)
  obtain ⟨_, first⟩ := (scan_word_iff _ _ (by omega) _).mp one
  obtain ⟨_, second⟩ := (scan_word_iff _ _ (by omega) _).mp two
  obtain ⟨_, third⟩ := (scan_word_iff _ _ (by omega) _).mp three
  have shape : text = method.name ++ chr ' ' :: (uri ++ chr ' ' :: (version ++ chr '\r' :: chr '\n' :: after)) := by
    rw [line.text]
    simp [ascii]
  have taken : ∀ (given' found : List UInt8), found ≠ [] → some found = given given' → given' = found := by
    intro given' found nonempty same
    rw [given] at same
    split at same
    · cases same
    · exact (Option.some.inj same).symm
  simp only [List.nil_append, Prod.mk.injEq] at first
  simp only [List.singleton_append, Prod.mk.injEq] at second third
  rw [shape]
  refine ⟨taken _ _ methodNonempty first.1, ?_, ?_⟩
  · rw [word, word, ← first.2]
    exact taken _ _ line.nonempty second.1
  · rw [word, word, word, ← first.2, ← second.2]
    exact taken _ _ versionNonempty third.1

theorem initialized_given (word : List UInt8) :
    initialized (given word) = if word = [] then .error .uninit else .ok word := by
  rw [given]
  split <;> rfl

theorem check_line_none (uriLen : Nat) (method uri version : List UInt8) :
    checkLine uriLen (given method) (given uri) (given version) = .ok none ↔
      method ≠ [] ∧ (setMethod method = none ∨ version ≠ [] ∧ (version.take 6 ≠ ascii "HTTP/1" ∨
        7 ≤ version.length ∧ version.getD 7 0 ≠ chr '1' ∧ version.getD 7 0 ≠ chr '0')) := by
  simp only [checkLine, initialized_given]
  by_cases noMethod : method = []
  · rw [if_pos noMethod]
    exact iff_of_false (by simp [bind, Except.bind]) fun both => both.1 noMethod
  · rw [if_neg noMethod]
    simp only [bind, Except.bind]
    cases known : setMethod method with
    | none => exact iff_of_true rfl ⟨noMethod, .inl rfl⟩
    | some m =>
        by_cases noVersion : version = []
        · rw [if_pos noVersion]
          exact iff_of_false (by simp) fun both => (both.2.resolve_left (by simp)).1 noVersion
        · rw [if_neg noVersion]
          dsimp only
          by_cases head : version.take 6 = ascii "HTTP/1"
          · rw [if_neg (by simp [head]), versionDigit]
            by_cases short : version.length < 7
            · rw [if_pos short]
              refine iff_of_false (by simp) fun both => ?_
              rcases (both.2.resolve_left (by simp)).2 with other | long
              · exact other head
              · omega
            · rw [if_neg short]
              by_cases digit : version.getD 7 0 ≠ chr '1' ∧ version.getD 7 0 ≠ chr '0'
              · exact iff_of_true (if_pos digit) ⟨noMethod, .inr ⟨noVersion, .inr ⟨by omega, digit⟩⟩⟩
              · simp only [if_neg digit]
                refine iff_of_false ?_ fun both => ?_
                · split <;> simp
                · rcases (both.2.resolve_left (by simp)).2 with other | long
                  · exact other head
                  · exact digit long.2
          · rw [if_pos head]
            exact iff_of_true rfl ⟨noMethod, .inr ⟨noVersion, .inl head⟩⟩

theorem refused_not_well_formed (text : List UInt8) (refused : Refused text) : ¬ WellFormed text := by
  rintro ⟨method, uri, version, after, line⟩
  obtain ⟨first, _, third⟩ := well_formed_words text method uri version after line
  obtain ⟨_, _, _, _, _, known⟩ := method_name_spec method
  obtain ⟨_, _, _, _, head, digit, found, accepted⟩ := version_spec version line.version
  rw [Refused, first, third, known] at refused
  rcases refused.2 with unknown | ⟨_, other | ⟨long, refusedDigit⟩⟩
  · cases unknown
  · exact other head
  · rw [versionDigit, if_neg (by omega)] at found
    cases found
    exact accepted refusedDigit

theorem well_formed_parsed (text rest : List UInt8) (method : Method) (uri version after : List UInt8) (clean : 0 ∉ text)
    (line : RequestLine text method uri version after) : parseRequestLine (text ++ 0 :: rest) =
      .ok (some (method, uri, method.name.length + uri.length + version.length + 4)) := by
  have pieces := clean
  rw [line.text] at pieces
  simp only [List.mem_append, not_or] at pieces
  rw [line.text]
  exact parse_request_line_spec method uri version after rest line.nonempty line.word pieces.1.1.1.1.2 line.version pieces.2

-- A line that is neither well formed nor refused is accepted all the same, or
-- checked against bytes that were never written.
theorem line_exact_iff (text rest : List UInt8) (clean : 0 ∉ text) (spaces : 2 ≤ text.count (chr ' '))
    (fit : WordsFit (betweenSpaces text).length text) :
    LineExact (text ++ 0 :: rest) text ↔ WellFormed text ∨ Refused text := by
  have steps : parseRequestLine (text ++ 0 :: rest) = checkLine (betweenSpaces text).length (given (word text 0))
      (given (word text 1)) (given (word text 2)) := by
    have scanned := (scan_line_iff _ text _).mpr ⟨fit, rfl⟩
    simp only [parse_request_line_steps, get_uri_len_spaces text (0 :: rest) spaces, cstr_at_start text rest clean, scanned,
      bind, Except.bind]
  constructor
  · rintro ⟨result, run, accepted, _⟩
    cases result with
    | some parsed => exact .inl (accepted.mp rfl)
    | none =>
        rw [steps] at run
        exact .inr ((check_line_none _ _ _ _).mp run)
  · rintro (⟨method, uri, version, after, line⟩ | refused)
    · refine ⟨_, well_formed_parsed text rest method uri version after clean line, ?_, ?_⟩
      · exact iff_of_true rfl ⟨method, uri, version, after, line⟩
      · intro m path offset same
        cases same
        refine ⟨version, after, line, ?_⟩
        have size := congrArg List.length line.text
        simp only [List.length_append] at size
        change text.length = method.name.length + 1 + uri.length + 1 + version.length + 2 + after.length at size
        omega
    · refine ⟨none, ?_, ?_, fun method path offset same => by cases same⟩
      · rw [steps]
        exact (check_line_none _ _ _ _).mpr refused
      · exact iff_of_false (by simp) (refused_not_well_formed text refused)

theorem line_exact_get : LineExact (ascii "GET / HTTP/1.1\r\n" ++ 0 :: []) (ascii "GET / HTTP/1.1\r\n") ↔
    WellFormed (ascii "GET / HTTP/1.1\r\n") ∨ Refused (ascii "GET / HTTP/1.1\r\n") :=
  line_exact_iff (ascii "GET / HTTP/1.1\r\n") [] (by decide +kernel) (by decide +kernel)
    ⟨by decide +kernel, by decide +kernel, by decide +kernel⟩

-- Six of the seven characters of "HTTP/1." are compared.
theorem line_lenient : 2 ≤ (ascii "GET / HTTP/1x1\r\n").count (chr ' ') ∧
    WordsFit (betweenSpaces (ascii "GET / HTTP/1x1\r\n")).length (ascii "GET / HTTP/1x1\r\n") ∧
    parseRequestLine (ascii "GET / HTTP/1x1\r\n" ++ [0]) = .ok (some (.GET, ascii "/", 16)) ∧
    ¬ LineExact (ascii "GET / HTTP/1x1\r\n" ++ [0]) (ascii "GET / HTTP/1x1\r\n") := by
  have parsed : parseRequestLine (ascii "GET / HTTP/1x1\r\n" ++ [0]) = .ok (some (.GET, ascii "/", 16)) := by
    decide +kernel
  refine ⟨by decide +kernel, ⟨by decide +kernel, by decide +kernel, by decide +kernel⟩, parsed, ?_⟩
  rintro ⟨result, run, accepted, _⟩
  cases parsed.symm.trans run
  obtain ⟨method, uri, version, after, line⟩ := accepted.mp rfl
  obtain ⟨_, _, third⟩ := well_formed_words _ method uri version after line
  have seen : word (ascii "GET / HTTP/1x1\r\n") 2 = ascii "HTTP/1x1" := by decide +kernel
  rw [seen] at third
  rcases line.version with old | new
  · exact absurd (third.trans old) (by decide +kernel)
  · exact absurd (third.trans new) (by decide +kernel)

end Facebooc
