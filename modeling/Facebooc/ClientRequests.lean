import Facebooc.FormSegments
import Facebooc.Serve
import Facebooc.SessionCookie
import Mathlib.Data.Bool.AllAny

set_option autoImplicit false

namespace Facebooc

open CMemory StringSearch

-- A request as a client prints it: a path with a handler's name in front, a
-- query, the session it keeps, and a form to post.
structure ClientRequest where
  method : Method
  seg : List UInt8
  rest : List UInt8
  query : Form
  others : Header
  sid : Option (List UInt8)
  form : Option Form
deriving DecidableEq, Repr

def ClientRequest.path (c : ClientRequest) : List UInt8 := segmentUri c.seg (some c.rest)

def ClientRequest.target (c : ClientRequest) : List UInt8 :=
  c.path ++ if c.query = [] then [] else chr '?' :: encodePairs c.query

def cookieHeader (sid : List UInt8) : List UInt8 × List UInt8 := (ascii "Cookie", ascii " sid=" ++ sid)

def formHeader : List UInt8 × List UInt8 := (ascii "Content-Type", ascii " application/x-www-form-urlencoded")

def ClientRequest.headers (c : ClientRequest) : Header :=
  c.others ++ ((c.sid.map cookieHeader).toList ++ (c.form.map fun _ => formHeader).toList)

def ClientRequest.text (c : ClientRequest) : List UInt8 :=
  requestText c.method c.target (ascii "HTTP/1.1") c.headers ((c.form.map encodePairs).getD [])

-- What is read as a request of its route, whatever becomes of its pairs.
structure ClientRequest.Printable (c : ClientRequest) (route : Route) : Prop where
  named : registered c.seg = .page route
  known : route ≠ .notFound
  rest : ∀ ch ∈ c.rest, Graphic ch ∧ ch ≠ chr '?'
  query : ∀ pair ∈ c.query, CleanPair pair
  form : ∀ pairs, c.form = some pairs → ∀ pair ∈ pairs, CleanPair pair
  sid : ∀ sid, c.sid = some sid → ∀ ch ∈ sid, CookieChar ch
  others : ∀ h ∈ c.others, ValidHeader h ∧ h.1.map tolower ≠ ascii "content-type"
  short : c.text.length < buffSize

-- And whose pairs can be told apart again behind the decoding.
structure ClientRequest.Valid (c : ClientRequest) (route : Route) : Prop extends c.Printable route where
  plainQuery : ∀ pair ∈ c.query, ValidPair pair ∧ PlainPair pair
  plainForm : ∀ pairs, c.form = some pairs → ∀ pair ∈ pairs, ValidPair pair ∧ PlainPair pair

-- The entries of a printed list, as the parsers read them.
def printedEntries (pairs : Form) : Form := readEntries (segments (joinPairs id pairs))

structure SentAs (c : ClientRequest) (arrival : Arrival) : Prop where
  method : arrival.req.method = c.method
  uri : arrival.req.uri = c.path
  query : arrival.req.queryString = if c.query = [] then none else some (printedEntries c.query)
  form : arrival.req.postBody = c.form.map printedEntries
  cookies : arrival.req.cookies = c.sid.map fun sid => [⟨ascii "sid", sid⟩]

-- What a handler can tell of the request.
structure StandsFor (c : ClientRequest) (arrival : Arrival) : Prop where
  method : arrival.req.method = c.method
  uri : arrival.req.uri = c.path
  query : ∀ key, queryGet arrival.req.queryString key = lastValue c.query key
  form : ∀ key, bodyGet arrival.req.postBody key = lastValue (c.form.getD []) key
  cookies : arrival.req.cookies = c.sid.map fun sid => [⟨ascii "sid", sid⟩]

theorem printed_parsed (pairs : Form) (clean : ∀ pair ∈ pairs, CleanPair pair) :
    formParser (encodePairs pairs) = .ok (printedEntries pairs) :=
  form_parser_reads _ _ (spells_pairs pairs) (join_pairs_clean pairs clean)

theorem printed_values (pairs : Form) (plain : ∀ pair ∈ pairs, ValidPair pair ∧ PlainPair pair) (key : List UInt8) :
    formGet (some (printedEntries pairs)) key = lastValue pairs key := by
  obtain ⟨form, parsed, values⟩ :=
    form_parser_plain pairs (fun pair member => (plain pair member).1) (fun pair member => (plain pair member).2)
  have same := printed_parsed pairs (valid_clean _ fun pair member => (plain pair member).1)
  cases parsed.symm.trans same
  exact values key

-- Pairs that are plain are found under their keys.
theorem sent_stands (c : ClientRequest) (arrival : Arrival) (route : Route) (valid : c.Valid route) (sent : SentAs c arrival) :
    StandsFor c arrival where
  method := sent.method
  uri := sent.uri
  query := by
    intro key
    rw [sent.query]
    by_cases empty : c.query = []
    · rw [if_pos empty, empty]
      simp [queryGet, formGet, lastValue]
    · rw [if_neg empty]
      exact printed_values c.query valid.plainQuery key
  form := by
    intro key
    rw [sent.form]
    cases posted : c.form with
    | none => simp [bodyGet, formGet, lastValue]
    | some pairs => exact printed_values pairs (valid.plainForm pairs posted) key
  cookies := sent.cookies

theorem encode_byte_graphic : ∀ c : UInt8, ∀ d ∈ encodeByte c, Graphic d ∧ d ≠ chr '?' := by
  have table : ∀ c : UInt8, (encodeByte c).all fun d => Graphic d ∧ d ≠ chr '?' := every_byte _ (by decide +kernel)
  exact fun c => List.all_iff_forall_prop.mp (table c)

theorem encode_pairs_graphic (pairs : Form) : ∀ c ∈ encodePairs pairs, Graphic c ∧ c ≠ chr '?' := by
  have text : ∀ t : List UInt8, ∀ c ∈ t.flatMap encodeByte, Graphic c ∧ c ≠ chr '?' := by
    intro t c member
    obtain ⟨b, _, inside⟩ := List.mem_flatMap.mp member
    exact encode_byte_graphic b c inside
  have amp : Graphic (chr '&') ∧ chr '&' ≠ chr '?' := by decide
  have equals : Graphic (chr '=') ∧ chr '=' ≠ chr '?' := by decide
  intro c member
  induction pairs with
  | nil => cases member
  | cons pair pairs ih =>
      by_cases more : pairs = []
      · rw [more, encodePairs, join_pairs_one] at member
        rcases List.mem_append.mp member with key | rest
        · exact text _ c key
        · rcases List.mem_cons.mp rest with rfl | value
          · exact equals
          · exact text _ c value
      · rw [encodePairs, join_pairs_cons _ _ _ more] at member
        rcases List.mem_append.mp member with key | rest
        · exact text _ c key
        · rcases List.mem_cons.mp rest with rfl | rest
          · exact equals
          · rcases List.mem_append.mp rest with value | later
            · exact text _ c value
            · rcases List.mem_cons.mp later with rfl | later
              · exact amp
              · exact ih later

theorem registered_name (seg : List UInt8) (route : Route) (named : registered seg = .page route) (known : route ≠ .notFound) :
    seg.length ≤ 31 ∧ ∀ c ∈ seg, Graphic c ∧ c ≠ chr '?' ∧ c ≠ chr '/' := by
  have table : ∀ entry ∈ handlerTable,
      entry.1.length ≤ 31 ∧ entry.1.all fun c => Graphic c ∧ c ≠ chr '?' ∧ c ≠ chr '/' := by decide +kernel
  obtain ⟨short, chars⟩ := table _ (registered_entry seg _ named (by simpa using known))
  exact ⟨short, List.all_iff_forall_prop.mp chars⟩

theorem path_graphic (c : ClientRequest) (route : Route) (printable : c.Printable route) :
    ∀ ch ∈ c.path, Graphic ch ∧ ch ≠ chr '?' := by
  have slash : Graphic (chr '/') ∧ chr '/' ≠ chr '?' := by decide
  have name := (registered_name c.seg route printable.named printable.known).2
  intro ch member
  simp only [ClientRequest.path, segmentUri, List.mem_cons, List.mem_append] at member
  rcases member with rfl | inSeg | rfl | inRest
  · exact slash
  · exact ⟨(name ch inSeg).1, (name ch inSeg).2.1⟩
  · exact slash
  · exact printable.rest ch inRest

theorem target_graphic (c : ClientRequest) (route : Route) (printable : c.Printable route) : ∀ ch ∈ c.target, Graphic ch := by
  intro ch member
  rw [ClientRequest.target] at member
  rcases List.mem_append.mp member with inPath | inQuery
  · exact (path_graphic c route printable ch inPath).1
  · split at inQuery
    · cases inQuery
    · rcases List.mem_cons.mp inQuery with rfl | inside
      · decide
      · exact (encode_pairs_graphic c.query ch inside).1

theorem target_query (c : ClientRequest) (route : Route) (printable : c.Printable route) :
    queryPart c.target = .ok (if c.query = [] then none else some (printedEntries c.query)) ∧
      (c.target.takeWhile fun ch => ch ≠ chr '?') = c.path := by
  have noMark : chr '?' ∉ c.path := fun member => (path_graphic c route printable _ member).2 rfl
  rw [queryPart, ClientRequest.target]
  by_cases empty : c.query = []
  · rw [if_pos empty, if_pos empty, List.append_nil, List.idxOf?_eq_none_iff.mpr noMark]
    exact ⟨rfl, idx_of_none _ _ (List.idxOf?_eq_none_iff.mpr noMark)⟩
  · have behind : (c.path ++ chr '?' :: encodePairs c.query).drop (c.path.length + 1) = encodePairs c.query := by
      rw [← List.drop_drop, List.drop_left]
      rfl
    rw [if_neg empty, if_neg empty, idx_of_append c.path (encodePairs c.query) (chr '?') noMark]
    refine ⟨?_, take_while_stop c.path _ (chr '?') noMark⟩
    simp only [behind, queryParser, printed_parsed c.query printable.query]
    rfl

theorem sent_header_line (name value : List UInt8) (nameChars : ∀ c ∈ name, Graphic c ∧ c ≠ chr ':')
    (valueChars : ∀ c ∈ value, ValueChar c) :
    HeaderLine (name ++ chr ':' :: value) ∧ 0 ∉ name ++ chr ':' :: value ∧
      ownLine (name ++ chr ':' :: value) = (name.map tolower, value.dropWhile isspace) := by
  have chars : ∀ c ∈ name ++ chr ':' :: value, c.toNat < 128 ∧ c ≠ 0 ∧ c ≠ chr '\r' := by
    intro c member
    rcases List.mem_append.mp member with inName | rest
    · exact value_char_line c (graphic_value_char c (nameChars c inName).1)
    · rcases List.mem_cons.mp rest with rfl | inValue
      · decide
      · exact value_char_line c (valueChars c inValue)
  refine ⟨⟨by simp, ?_, searched_low _ fun c member => (chars c member).1⟩, fun zero => (chars 0 zero).2.1 rfl, ?_⟩
  · intro inside
    exact (chars (chr '\r') (inside.subset (by decide))).2.2 rfl
  · exact own_line_parts name value fun member => (nameChars _ member).2 rfl

theorem request_new_lines (method : Method) (uri version : List UInt8) (headers : Header) (body rest : List UInt8)
    (uriChars : uri ≠ [] ∧ ∀ c ∈ uri, Graphic c) (known : version = ascii "HTTP/1.0" ∨ version = ascii "HTTP/1.1")
    (names : ∀ h ∈ headers, ∀ c ∈ h.1, Graphic c ∧ c ≠ chr ':') (values : ∀ h ∈ headers, ∀ c ∈ h.2, ValueChar c)
    (clean : 0 ∉ body) : requestNew (requestText method uri version headers body ++ 0 :: rest) = (do
      let query ← queryPart uri
      let cookies ← cookiesParser (headers.map parsedHeader)
      let postBody ← bodyPart (headers.map parsedHeader) body
      .ok (some ⟨method, uri, uri.takeWhile (fun c => c ≠ chr '?'), query, postBody, cookies, headers.map parsedHeader⟩)) := by
  let line := method.name ++ ascii " " ++ uri ++ ascii " " ++ version ++ ascii "\r\n"
  let lines := headers.map fun h => h.1 ++ chr ':' :: h.2
  have printed : headers.flatMap headerText = lines.flatMap lineText := by
    rw [List.flatMap_map]
    exact List.flatMap_congr fun h _ => printed_line h
  have good : ∀ line ∈ lines, HeaderLine line ∧ 0 ∉ line := by
    intro line member
    obtain ⟨h, inHeaders, rfl⟩ := List.mem_map.mp member
    have sent := sent_header_line h.1 h.2 (names h inHeaders) (values h inHeaders)
    exact ⟨sent.1, sent.2.1⟩
  have parsed : lines.map ownLine = headers.map parsedHeader := by
    rw [List.map_map]
    exact List.map_congr_left fun h member => (sent_header_line h.1 h.2 (names h member) (values h member)).2.2
  have afterClean : 0 ∉ lines.flatMap lineText ++ (ascii "\r\n" ++ body) := by
    simp only [lineText, List.mem_append, List.mem_flatMap, not_or, not_exists, not_and]
    exact ⟨fun line member => ⟨(good line member).2, by decide⟩, by decide, clean⟩
  have text : requestText method uri version headers body = line ++ (lines.flatMap lineText ++ (ascii "\r\n" ++ body)) := by
    simp only [requestText, line, printed, List.append_assoc]
  have size : line.length = method.name.length + uri.length + version.length + 4 := by
    simp only [line, List.length_append]
    change method.name.length + 1 + uri.length + 1 + version.length + 2 = _
    omega
  have first : parseRequestLine (line ++ (lines.flatMap lineText ++ (ascii "\r\n" ++ body)) ++ 0 :: rest) =
      .ok (some (method, uri, line.length)) := by
    rw [size]
    exact parse_request_line_spec method uri version _ rest uriChars.1
      (fun c member => graphic_not_space c (uriChars.2 c member)) (fun member => absurd (uriChars.2 0 member) (by decide))
      known afterClean
  obtain ⟨done, length, ran⟩ := header_loop_lines lines line body rest []
    ((line ++ (lines.flatMap lineText ++ (ascii "\r\n" ++ body)) ++ 0 :: rest).length + 1) (fun l member => (good l member).1)
    afterClean (by
      have count := line_count lines
      simp only [List.length_append]
      omega)
  rw [← List.append_assoc line (_ ++ _), List.nil_append, parsed] at ran
  rw [text]
  simp only [requestNew, requestParse, first, bind, Except.bind, headerParser, ran,
    body_parser_spec (headers.map parsedHeader) done body rest clean, split_query_string_spec]
  cases queryPart uri with
  | error fault => rfl
  | ok query =>
      simp only [Except.map]
      cases cookiesParser (headers.map parsedHeader) with
      | error fault => rfl
      | ok cookies =>
          simp only
          cases bodyPart (headers.map parsedHeader) body <;> rfl

theorem header_get_append (front back : Header) (key : List UInt8) (absent : ∀ entry ∈ front, entry.1 ≠ key) :
    headerGet (front ++ back) key = headerGet back key := by
  have missing : (front.find? fun entry => entry.1 = key) = none :=
    List.find?_eq_none.mpr fun entry member => by simpa using absent entry member
  rw [headerGet, headerGet, List.find?_append, missing, Option.none_or]

-- What the server finds under the two names it looks for.
theorem sent_headers (c : ClientRequest) (route : Route) (printable : c.Printable route) :
    headerGet (c.headers.map parsedHeader) (ascii "cookie") = c.sid.map (fun sid => ascii "sid=" ++ sid) ∧
      headerGet (c.headers.map parsedHeader) (ascii "content-type") =
        c.form.map fun _ => ascii "application/x-www-form-urlencoded" := by
  have cookie : ∀ sid, parsedHeader (cookieHeader sid) = (ascii "cookie", ascii "sid=" ++ sid) := fun sid => rfl
  have form : parsedHeader formHeader = (ascii "content-type", ascii "application/x-www-form-urlencoded") := by decide +kernel
  have apart : ascii "cookie" ≠ ascii "content-type" := by decide
  have others : ∀ entry ∈ c.others.map parsedHeader, entry.1 ≠ ascii "cookie" ∧ entry.1 ≠ ascii "content-type" := by
    intro entry member
    obtain ⟨h, inOthers, rfl⟩ := List.mem_map.mp member
    exact ⟨(printable.others h inOthers).1.notCookie, (printable.others h inOthers).2⟩
  rw [ClientRequest.headers, List.map_append, header_get_append _ _ _ fun entry member => (others entry member).1,
    header_get_append _ _ _ fun entry member => (others entry member).2]
  cases c.sid with
  | none =>
      cases c.form with
      | none => exact ⟨rfl, rfl⟩
      | some pairs =>
          simp only [Option.map_none, Option.map_some, Option.toList_none, Option.toList_some, List.nil_append, List.map_cons,
            List.map_nil, form]
          decide +kernel
  | some sid =>
      cases c.form with
      | none =>
          simp only [Option.map_none, Option.map_some, Option.toList_none, Option.toList_some, List.append_nil, List.map_cons,
            List.map_nil, cookie]
          exact ⟨rfl, rfl⟩
      | some pairs =>
          simp only [Option.map_some, Option.toList_some, List.cons_append, List.nil_append, List.map_cons, List.map_nil, cookie,
            form]
          exact ⟨rfl, rfl⟩

theorem sent_cookies (c : ClientRequest) (route : Route) (printable : c.Printable route) :
    cookiesParser (c.headers.map parsedHeader) = .ok (c.sid.map fun sid => [⟨ascii "sid", sid⟩]) := by
  have sent := (sent_headers c route printable).1
  cases kept : c.sid with
  | none =>
      rw [kept] at sent
      rw [cookiesParser, sent]
      rfl
  | some sid =>
      rw [kept] at sent
      exact session_cookie_parsed _ sid (printable.sid sid kept) sent

theorem sent_body (c : ClientRequest) (route : Route) (printable : c.Printable route) :
    bodyPart (c.headers.map parsedHeader) ((c.form.map encodePairs).getD []) = .ok (c.form.map printedEntries) := by
  have sent := (sent_headers c route printable).2
  cases posted : c.form with
  | none =>
      rw [posted] at sent
      rw [bodyPart, checkHeader, sent]
      rfl
  | some pairs =>
      rw [posted] at sent
      simp only [bodyPart, checkHeader, sent, Option.map_some, Option.any_some, isSupportedType, decide_true, if_true,
        Option.getD_some, printed_parsed pairs (printable.form pairs posted)]
      rfl

theorem sent_chars (c : ClientRequest) (route : Route) (printable : c.Printable route) :
    ∀ h ∈ c.headers, (∀ ch ∈ h.1, Graphic ch ∧ ch ≠ chr ':') ∧ ∀ ch ∈ h.2, ValueChar ch := by
  have table : ∀ name ∈ [ascii "Cookie", ascii "Content-Type"], name.all fun ch => Graphic ch ∧ ch ≠ chr ':' := by
    decide +kernel
  have names := fun name member => List.all_iff_forall_prop.mp (table name member)
  have form : ValueText formHeader.2 := by decide +kernel
  have before : ValueText (ascii " sid=") := by decide +kernel
  intro h member
  rcases List.mem_append.mp member with inOthers | own
  · exact ⟨(printable.others h inOthers).1.name, (printable.others h inOthers).1.value⟩
  · rcases List.mem_append.mp own with inCookie | inForm
    · obtain ⟨sid, kept, rfl⟩ := Option.map_eq_some_iff.mp (Option.mem_toList.mp inCookie)
      refine ⟨names _ (by simp [cookieHeader]), fun ch inside => ?_⟩
      rcases List.mem_append.mp inside with front | back
      · exact before ch front
      · exact .inl ⟨by have := (printable.sid sid kept ch back).1; omega, (printable.sid sid kept ch back).2.1⟩
    · obtain ⟨pairs, _, rfl⟩ := Option.map_eq_some_iff.mp (Option.mem_toList.mp inForm)
      exact ⟨names _ (by simp [formHeader]), form⟩

theorem dispatch_path (site : Site) (c : ClientRequest) (route : Route) (named : registered c.seg = .page route)
    (known : route ≠ .notFound) (restClean : 0 ∉ c.rest) : dispatch site.handlers c.path = .ok (.page route) := by
  obtain ⟨handlers, made, table⟩ := fb_new_handlers
  cases site.made.symm.trans made
  obtain ⟨short, name⟩ := registered_name c.seg route named known
  have segClean : 0 ∉ c.seg := fun zero => absurd (name 0 zero).1 (by decide)
  have dir := route_dir_slash (chr '/') c.seg c.rest (by omega) (fun member => (name _ member).2.2 rfl) segClean restClean
  have room : 32 - c.seg.length = (31 - c.seg.length) + 1 := by omega
  rw [room, List.replicate_succ] at dir
  rw [← named]
  exact dispatch_found site.handlers _ c.seg _ table dir segClean

-- A printed request reaches the handler of its first segment.
theorem client_request_sent (site : Site) (incoming : Incoming) (c : ClientRequest) (route : Route) (printable : c.Printable route)
    (sent : incoming.received = c.text) (stack : incoming.stack.length = buffSize) :
    ∃ arrival, arrivalOf site incoming = some arrival ∧ arrival.now = incoming.now ∧ arrival.route = route ∧
      SentAs c arrival := by
  obtain ⟨queried, path⟩ := target_query c route printable
  have bodyClean : 0 ∉ (c.form.map encodePairs).getD [] := by
    cases c.form with
    | none => exact List.not_mem_nil
    | some pairs => exact fun zero => absurd (encode_pairs_graphic pairs 0 zero).1 (by decide)
  have target : c.target ≠ [] ∧ ∀ ch ∈ c.target, Graphic ch :=
    ⟨by simp [ClientRequest.target, ClientRequest.path, segmentUri], target_graphic c route printable⟩
  obtain ⟨buff, written⟩ := (terminate_iff incoming.received incoming.stack stack
    (by rw [sent]; exact Nat.le_of_lt printable.short)).mpr (by rw [sent]; exact printable.short)
  obtain ⟨rest, shape⟩ := terminated_text incoming.received incoming.stack buff written
  have chars := sent_chars c route printable
  have parsed := request_new_lines c.method c.target (ascii "HTTP/1.1") c.headers _ rest target (.inr rfl)
    (fun h member => (chars h member).1) (fun h member => (chars h member).2) bodyClean
  simp only [queried, sent_cookies c route printable, sent_body c route printable, path, bind, Except.bind] at parsed
  have full : incoming.received ≠ [] := by
    rw [sent, ClientRequest.text, requestText]
    have name := (method_name_spec c.method).1
    simp [name]
  have restClean : 0 ∉ c.rest := fun zero => absurd (printable.rest 0 zero).1 (by decide)
  have routed := dispatch_path site c route printable.named printable.known restClean
  refine ⟨⟨incoming.now, route, ⟨c.method, c.target, c.path, if c.query = [] then none else some (printedEntries c.query),
    c.form.map printedEntries, c.sid.map fun sid => [⟨ascii "sid", sid⟩], c.headers.map parsedHeader⟩⟩, ?_, rfl, rfl,
    ⟨rfl, rfl, rfl, rfl, rfl⟩⟩
  have accepted : (do requestNew (← terminate incoming.received incoming.stack)) = .ok (some
      ⟨c.method, c.target, c.path, if c.query = [] then none else some (printedEntries c.query), c.form.map printedEntries,
        c.sid.map fun sid => [⟨ascii "sid", sid⟩], c.headers.map parsedHeader⟩) := by
    rw [written, shape, sent]
    exact parsed
  rw [arrivalOf, if_neg full, accepted]
  simp only [routed]

end Facebooc
