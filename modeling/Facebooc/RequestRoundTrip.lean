import Facebooc.HeaderLines
import Facebooc.Request

set_option autoImplicit false

namespace Facebooc

open CMemory StringSearch

-- The printed form of a request, and what its parts may be made of.
def headerText (h : List UInt8 × List UInt8) : List UInt8 := h.1 ++ ascii ":" ++ h.2 ++ ascii "\r\n"

def requestText (method : Method) (uri version : List UInt8) (headers : Header) (body : List UInt8) : List UInt8 :=
  method.name ++ ascii " " ++ uri ++ ascii " " ++ version ++ ascii "\r\n" ++ headers.flatMap headerText ++
    ascii "\r\n" ++ body

def Graphic (c : UInt8) : Prop := 0x21 ≤ c.toNat ∧ c.toNat ≤ 0x7e

def ValueChar (c : UInt8) : Prop := (0x20 ≤ c.toNat ∧ c.toNat ≤ 0x7e) ∨ c = chr '\t'

structure ValidHeader (h : List UInt8 × List UInt8) : Prop where
  nonempty : h.1 ≠ []
  name : ∀ c ∈ h.1, Graphic c ∧ c ≠ chr ':'
  value : ∀ c ∈ h.2, ValueChar c
  notCookie : h.1.map tolower ≠ ascii "cookie"

structure ValidRequest (uri version : List UInt8) (headers : Header) (body : List UInt8) : Prop where
  nonempty : uri ≠ []
  uri : ∀ c ∈ uri, Graphic c
  version : version = ascii "HTTP/1.0" ∨ version = ascii "HTTP/1.1"
  headers : ∀ h ∈ headers, ValidHeader h
  body : 0 ∉ body

def parsedHeader (h : List UInt8 × List UInt8) : List UInt8 × List UInt8 := (h.1.map tolower, h.2.dropWhile isspace)

instance (c : UInt8) : Decidable (Graphic c) := inferInstanceAs (Decidable (_ ∧ _))

instance (c : UInt8) : Decidable (ValueChar c) := inferInstanceAs (Decidable (_ ∨ _))

theorem value_char_line (c : UInt8) (valid : ValueChar c) : c.toNat < 128 ∧ c ≠ 0 ∧ c ≠ chr '\r' := by
  refine ⟨?_, ?_, ?_⟩
  · rcases valid with range | rfl
    · omega
    · decide
  · rintro rfl
    exact absurd valid (by decide)
  · rintro rfl
    exact absurd valid (by decide)

theorem graphic_value_char (c : UInt8) (valid : Graphic c) : ValueChar c := .inl ⟨by have := valid.1; omega, valid.2⟩

theorem graphic_not_space (c : UInt8) (valid : Graphic c) : isspace c = false := by
  have low : 0x21 ≤ c.toNat := valid.1
  have blank : c ≠ chr ' ' := by rintro rfl; exact absurd low (by decide)
  have tabs : ¬ c ≤ 13 := by
    rw [UInt8.le_iff_toNat_le]
    change ¬ c.toNat ≤ 13
    omega
  simp [isspace, blank, tabs]

theorem header_line_chars (name value : List UInt8) (valid : ValidHeader (name, value)) :
    ∀ c ∈ name ++ chr ':' :: value, c.toNat < 128 ∧ c ≠ 0 ∧ c ≠ chr '\r' := by
  intro c member
  rcases List.mem_append.mp member with inName | inRest
  · exact value_char_line c (graphic_value_char c (valid.name c inName).1)
  · rcases List.mem_cons.mp inRest with same | inValue
    · subst same
      decide
    · exact value_char_line c (valid.value c inValue)

theorem header_text_clean (h : List UInt8 × List UInt8) (valid : ValidHeader h) : 0 ∉ headerText h := by
  simp only [headerText, List.mem_append, not_or]
  refine ⟨⟨⟨?_, by decide⟩, ?_⟩, by decide⟩
  · exact fun member => absurd (valid.name 0 member).1 (by decide)
  · exact fun member => absurd (valid.value 0 member) (by decide)

theorem searched_low (line : List UInt8) (low : ∀ c ∈ line, c.toNat < 128) : searched line = true := by
  induction line using searched.induct with
  | case1 a rest ih =>
      rw [searched, if_pos rfl, decide_eq_true (low a List.mem_cons_self), Bool.true_and]
      exact ih fun c member => low c (List.mem_cons_of_mem a member)
  | case2 a rest newline ih =>
      rw [searched, if_neg newline, if_pos (rfl : chr '\r' = chr '\r')]
      exact ih fun c member => low c (List.mem_cons_of_mem a member)
  | case3 a b rest newline ret ih =>
      rw [searched, if_neg newline, if_neg ret, decide_eq_true (low b (by simp)), Bool.true_and]
      exact ih fun c member => low c (List.mem_cons_of_mem a (List.mem_cons_of_mem b member))
  | case4 line short => rw [searched.eq_2 line short]

theorem printed_line (h : List UInt8 × List UInt8) : headerText h = lineText (h.1 ++ chr ':' :: h.2) := by
  simp [headerText, lineText, ascii]

theorem valid_header_line (h : List UInt8 × List UInt8) (valid : ValidHeader h) :
    HeaderLine (h.1 ++ chr ':' :: h.2) ∧ ownLine (h.1 ++ chr ':' :: h.2) = parsedHeader h := by
  obtain ⟨name, value⟩ := h
  have chars := header_line_chars name value valid
  refine ⟨⟨by simp, ?_, searched_low _ fun c member => (chars c member).1⟩, ?_⟩
  · intro inside
    exact (chars (chr '\r') (inside.subset (by decide))).2.2 rfl
  · exact own_line_parts name value fun member => (valid.name _ member).2 rfl

theorem header_loop_spec (headers : Header) (before body rest : List UInt8) (h : Header) (rounds : Nat)
    (valid : ∀ entry ∈ headers, ValidHeader entry) (clean : 0 ∉ body) (enough : headers.length < rounds) :
    ∃ done, done.length = before.length + (headers.flatMap headerText).length ∧
      headerLoop rounds (before ++ (headers.flatMap headerText ++ (ascii "\r\n" ++ body ++ 0 :: rest))) before.length h =
        .ok (h ++ headers.map parsedHeader, done ++ (ascii "\r\n" ++ body ++ 0 :: rest), done.length) := by
  let lines := headers.map fun entry => entry.1 ++ chr ':' :: entry.2
  have printed : headers.flatMap headerText = lines.flatMap lineText := by
    rw [List.flatMap_map]
    exact List.flatMap_congr fun entry _ => printed_line entry
  have parsed : lines.map ownLine = headers.map parsedHeader := by
    rw [List.map_map]
    exact List.map_congr_left fun entry member => (valid_header_line entry (valid entry member)).2
  have good : ∀ line ∈ lines, HeaderLine line := by
    intro line member
    obtain ⟨entry, inHeaders, rfl⟩ := List.mem_map.mp member
    exact (valid_header_line entry (valid entry inHeaders)).1
  have textClean : 0 ∉ lines.flatMap lineText ++ (ascii "\r\n" ++ body) := by
    simp only [← printed, List.mem_append, List.mem_flatMap, not_or, not_exists, not_and]
    exact ⟨fun entry member => header_text_clean entry (valid entry member), by decide, clean⟩
  have ran := header_loop_lines lines before body rest h rounds good textClean (by rwa [List.length_map])
  rw [← printed, parsed, List.append_assoc (headers.flatMap headerText)] at ran
  exact ran

theorem skip_to_space_spec (before word rest : List UInt8) (clean : chr ' ' ∉ word) :
    skipToSpace (before ++ (word ++ chr ' ' :: rest)) before.length = .ok (before.length + word.length) := by
  rw [skipToSpace, List.drop_left, idx_of_append word rest (chr ' ') clean]

theorem scan_word_spec (size : Nat) (blanks word rest : List UInt8) (stop : UInt8) (blank : ∀ c ∈ blanks, isspace c = true)
    (nonempty : word ≠ []) (clean : ∀ c ∈ word, isspace c = false) (ends : isspace stop = true) (fits : word.length < size) :
    scanWord size (blanks ++ (word ++ stop :: rest)) = .ok (some word, stop :: rest) := by
  obtain ⟨c, word, rfl⟩ := List.exists_cons_of_ne_nil nonempty
  have input : (blanks ++ (c :: word ++ stop :: rest)).dropWhile isspace = c :: word ++ stop :: rest := by
    rw [List.dropWhile_append_of_pos blank, List.cons_append,
      List.dropWhile_cons_of_neg (by rw [clean c List.mem_cons_self]; simp)]
  have through : ∀ d ∈ c :: word, (!isspace d) = true := fun d member => by rw [clean d member]; rfl
  have taken : (c :: word ++ stop :: rest).takeWhile (fun d => !isspace d) = c :: word := by
    rw [List.takeWhile_append_of_pos through, List.takeWhile_cons_of_neg (by simp [ends]), List.append_nil]
  have left : (c :: word ++ stop :: rest).dropWhile (fun d => !isspace d) = stop :: rest := by
    rw [List.dropWhile_append_of_pos through, List.dropWhile_cons_of_neg (by simp [ends])]
  simp only [scanWord, input, taken, left]
  rw [if_neg (List.cons_ne_nil c word), if_pos fits]

theorem method_name_spec (method : Method) : method.name ≠ [] ∧ (∀ c ∈ method.name, isspace c = false) ∧
    method.name.length < 8 ∧ 0 ∉ method.name ∧ chr ' ' ∉ method.name ∧ setMethod method.name = some method := by
  cases method <;> decide +kernel

theorem version_spec (version : List UInt8) (known : version = ascii "HTTP/1.0" ∨ version = ascii "HTTP/1.1") :
    version ≠ [] ∧ (∀ c ∈ version, isspace c = false) ∧ version.length < 9 ∧ 0 ∉ version ∧
      version.take 6 = ascii "HTTP/1" ∧
      ∃ digit, versionDigit version = .ok digit ∧ ¬ (digit ≠ chr '1' ∧ digit ≠ chr '0') := by
  rcases known with rfl | rfl
  · exact ⟨by decide, by decide +kernel, by decide, by decide, by decide, chr '0', by decide, by decide⟩
  · exact ⟨by decide, by decide +kernel, by decide, by decide, by decide, chr '1', by decide, by decide⟩

theorem parse_request_line_spec (method : Method) (uri version after rest : List UInt8) (nonempty : uri ≠ [])
    (uriWord : ∀ c ∈ uri, isspace c = false) (uriClean : 0 ∉ uri)
    (known : version = ascii "HTTP/1.0" ∨ version = ascii "HTTP/1.1") (clean : 0 ∉ after) :
    parseRequestLine (method.name ++ ascii " " ++ uri ++ ascii " " ++ version ++ ascii "\r\n" ++ after ++ 0 :: rest) =
      .ok (some (method, uri, method.name.length + uri.length + version.length + 4)) := by
  obtain ⟨methodNonempty, methodWord, methodFits, methodClean, methodBlank, methodKnown⟩ := method_name_spec method
  obtain ⟨versionNonempty, versionWord, versionFits, versionClean, versionHead, digit, versionDigit, digitKnown⟩ :=
    version_spec version known
  have uriBlank : chr ' ' ∉ uri := fun member => absurd (uriWord _ member) (by decide)
  let tail := version ++ chr '\r' :: chr '\n' :: after
  have tailClean : 0 ∉ tail := by
    simp only [tail, List.mem_append, List.mem_cons, not_or]
    exact ⟨versionClean, by decide, by decide, clean⟩
  let text := method.name ++ chr ' ' :: (uri ++ chr ' ' :: tail)
  have shape : method.name ++ ascii " " ++ uri ++ ascii " " ++ version ++ ascii "\r\n" ++ after ++ 0 :: rest =
      text ++ 0 :: rest := by simp [text, tail, ascii]
  have textClean : 0 ∉ text := by
    simp only [text, List.mem_append, List.mem_cons, not_or]
    exact ⟨methodClean, by decide, uriClean, by decide, tailClean⟩
  have first : skipToSpace (text ++ 0 :: rest) 0 = .ok method.name.length := by
    have found := skip_to_space_spec [] method.name (uri ++ chr ' ' :: tail ++ 0 :: rest) methodBlank
    simpa [text] using found
  have second : skipToSpace (text ++ 0 :: rest) (method.name.length + 1) = .ok (method.name.length + 1 + uri.length) := by
    have found := skip_to_space_spec (method.name ++ [chr ' ']) uri (tail ++ 0 :: rest) uriBlank
    simpa [text] using found
  have uriLen : getUriLen (text ++ 0 :: rest) = .ok uri.length := by
    simp only [getUriLen, first, second, bind, Except.bind]
    congr 1
    omega
  have scanMethod : scanWord 8 text = .ok (some method.name, chr ' ' :: (uri ++ chr ' ' :: tail)) :=
    scan_word_spec 8 [] method.name _ (chr ' ') (by simp) methodNonempty methodWord (by decide) methodFits
  have scanUri : scanWord (uri.length + 1) (chr ' ' :: (uri ++ chr ' ' :: tail)) = .ok (some uri, chr ' ' :: tail) :=
    scan_word_spec _ [chr ' '] uri _ (chr ' ') (by decide +kernel) nonempty uriWord (by decide) (Nat.lt_succ_self _)
  have scanVersion : scanWord 9 (chr ' ' :: tail) = .ok (some version, chr '\r' :: chr '\n' :: after) :=
    scan_word_spec _ [chr ' '] version _ (chr '\r') (by decide +kernel) versionNonempty versionWord (by decide) versionFits
  rw [shape]
  simp only [parseRequestLine, uriLen, cstr_at_start text rest textClean, scanMethod, scanUri, scanVersion, bind,
    Except.bind, initialized, methodKnown, versionHead, versionDigit]
  rw [if_neg (by simp), if_neg digitKnown]

-- What the two form parsers make of the request, faults included.
def queryPart (uri : List UInt8) : Except Fault (Option Form) :=
  match uri.idxOf? (chr '?') with
  | none => .ok none
  | some begin => (queryParser (uri.drop (begin + 1))).map some

def bodyPart (headers : Header) (body : List UInt8) : Except Fault (Option Form) :=
  if checkHeader headers then (formParser body).map some else .ok none

theorem split_query_string_spec (path : List UInt8) :
    splitQueryString path = (queryPart path).map fun query => (path.takeWhile (fun c => c ≠ chr '?'), query) := by
  rw [splitQueryString, queryPart]
  cases found : path.idxOf? (chr '?') with
  | none => simp only [idx_of_none path _ found, Except.map]
  | some begin =>
      rw [← idx_of_take path _ begin found]
      dsimp only
      cases queryParser (path.drop (begin + 1)) <;> rfl

theorem header_get_parsed (headers : Header) (name : List UInt8) (nonempty : name ≠ []) :
    headerGet (headers.map parsedHeader) name =
      (headers.find? fun h => h.1.map tolower = name).map fun h => h.2.dropWhile isspace := by
  rw [headerGet, if_neg nonempty, List.find?_map, Option.map_map]
  rfl

theorem parsed_cookies (headers : Header) (valid : ∀ h ∈ headers, ValidHeader h) :
    cookiesParser (headers.map parsedHeader) = .ok none := by
  have missing : headers.find? (fun h => h.1.map tolower = ascii "cookie") = none :=
    List.find?_eq_none.mpr fun h member same => (valid h member).notCookie (of_decide_eq_true same)
  rw [cookiesParser, header_get_parsed headers _ (by decide), missing]
  rfl

theorem header_count (headers : Header) : headers.length ≤ (headers.flatMap headerText).length := by
  induction headers with
  | nil => exact Nat.le_refl 0
  | cons h headers ih =>
      have positive : 0 < (headerText h).length := by
        simp only [headerText, List.length_append]
        change 0 < _ + 1 + _ + 2
        omega
      simp only [List.flatMap_cons, List.length_append, List.length_cons]
      omega

theorem body_parser_spec (headers : Header) (done body rest : List UInt8) (clean : 0 ∉ body) :
    bodyParser headers (done ++ (ascii "\r\n" ++ body ++ 0 :: rest)) (done.length + 2) =
      bodyPart headers body := by
  have text := cstr_at_append (done ++ ascii "\r\n") body rest (done.length + 2)
    (by rw [List.length_append]; rfl) clean
  rw [List.append_assoc, ← List.append_assoc (ascii "\r\n")] at text
  simp only [bodyParser, bodyPart, text, bind, Except.bind]
  cases formParser body <;> rfl

-- What requestNew makes of the printed form of a request, with the offset at
-- which it hands the body over.
theorem request_round_trip (method : Method) (uri version : List UInt8) (headers : Header) (body rest : List UInt8)
    (valid : ValidRequest uri version headers body) :
    requestParse (requestText method uri version headers body ++ 0 :: rest) = (do
      let query ← queryPart uri
      let postBody ← bodyPart (headers.map parsedHeader) body
      .ok (some (⟨method, uri, uri.takeWhile (fun c => c ≠ chr '?'), query, postBody, none, headers.map parsedHeader⟩,
        (requestText method uri version headers body).length - body.length))) ∧
    (requestText method uri version headers body ++ 0 :: rest).drop
      ((requestText method uri version headers body).length - body.length) = body ++ 0 :: rest ∧
    ∀ name, name ≠ [] → headerGet (headers.map parsedHeader) name =
      (headers.find? fun h => h.1.map tolower = name).map fun h => h.2.dropWhile isspace := by
  let line := method.name ++ ascii " " ++ uri ++ ascii " " ++ version ++ ascii "\r\n"
  let after := headers.flatMap headerText ++ ascii "\r\n" ++ body
  have afterClean : 0 ∉ after := by
    simp only [after, List.mem_append, List.mem_flatMap, not_or, not_exists, not_and]
    exact ⟨⟨fun h member => header_text_clean h (valid.headers h member), by decide⟩, valid.body⟩
  have text : requestText method uri version headers body = line ++ after := by simp [requestText, line, after]
  have size : line.length = method.name.length + uri.length + version.length + 4 := by
    simp only [line, List.length_append]
    change method.name.length + 1 + uri.length + 1 + version.length + 2 = _
    omega
  have offset : (requestText method uri version headers body).length - body.length =
      line.length + (headers.flatMap headerText).length + 2 := by
    simp only [text, after, List.length_append]
    change _ + (_ + 2 + body.length) - body.length = _
    omega
  refine ⟨?_, ?_, fun name nonempty => header_get_parsed headers name nonempty⟩
  · have first : parseRequestLine (line ++ after ++ 0 :: rest) = .ok (some (method, uri, line.length)) := by
      rw [size]
      exact parse_request_line_spec method uri version after rest valid.nonempty
        (fun c member => graphic_not_space c (valid.uri c member)) (fun member => absurd (valid.uri 0 member) (by decide))
        valid.version afterClean
    obtain ⟨done, length, ran⟩ := header_loop_spec headers line body rest [] ((line ++ after ++ 0 :: rest).length + 1)
      valid.headers valid.body (by
        have count := header_count headers
        simp only [after, List.length_append]
        omega)
    have shape : line ++ (headers.flatMap headerText ++ (ascii "\r\n" ++ body ++ 0 :: rest)) = line ++ after ++ 0 :: rest := by
      simp [after]
    rw [shape, List.nil_append] at ran
    rw [offset, ← length, text]
    simp only [requestParse, first, bind, Except.bind, headerParser, ran, parsed_cookies headers valid.headers,
      body_parser_spec (headers.map parsedHeader) done body rest valid.body, split_query_string_spec]
    cases queryPart uri with
    | error fault => rfl
    | ok query => rfl
  · have parts : requestText method uri version headers body ++ 0 :: rest =
        (line ++ headers.flatMap headerText ++ ascii "\r\n") ++ (body ++ 0 :: rest) := by simp [text, after]
    have front : line.length + (headers.flatMap headerText).length + 2 =
        (line ++ headers.flatMap headerText ++ ascii "\r\n").length := by
      simp only [List.length_append]
      rfl
    rw [offset, parts, front, List.drop_left]

theorem request_round_trip_post : ValidRequest (ascii "/login/?r=1") (ascii "HTTP/1.1") [(ascii "HOST", ascii " a:b")] (ascii "x") ∧
    requestParse (ascii "POST /login/?r=1 HTTP/1.1\r\nHOST: a:b\r\n\r\nx" ++ [0]) =
      .ok (some (⟨.POST, ascii "/login/?r=1", ascii "/login/", some [(ascii "r", ascii "1")], none, none,
        [(ascii "host", ascii "a:b")]⟩, 40)) := by
  have valid : ValidRequest (ascii "/login/?r=1") (ascii "HTTP/1.1") [(ascii "HOST", ascii " a:b")] (ascii "x") := by
    refine ⟨by decide +kernel, by decide +kernel, .inr rfl, ?_, by decide +kernel⟩
    intro h member
    rw [List.mem_singleton.mp member]
    exact ⟨by decide +kernel, by decide +kernel, by decide +kernel, by decide +kernel⟩
  have parsed := (request_round_trip .POST _ _ _ _ [] valid).1
  exact ⟨valid, parsed.trans (by decide +kernel)⟩

end Facebooc
