import Facebooc.Header
import Facebooc.Response
import Facebooc.StaticFiles

set_option autoImplicit false

namespace Facebooc

open CMemory FileTree

-- src/handler/static_handler.c. The texts hold no NUL, so that strncmp compares
-- as many bytes as it is told to.
def revCmp (str1 str2 : List UInt8) : Bool :=
  let smaller := min str1.length str2.length
  str1.drop (str1.length - smaller) = str2.drop (str2.length - smaller)

def fileTypes : List (List UInt8 × List UInt8) :=
  [(ascii "html", ascii "text/html"), (ascii "json", ascii "application/json"), (ascii "jpeg", ascii "image/jpeg"),
    (ascii "jpg", ascii "image/jpeg"), (ascii "gif", ascii "image/gif"), (ascii "png", ascii "image/png"),
    (ascii "css", ascii "text/css"), (ascii "js", ascii "application/javascript")]

def mimeTypeMux (path : List UInt8) : List UInt8 :=
  ((fileTypes.find? fun entry => revCmp path entry.1).map Prod.snd).getD (ascii "text/plain")

-- A mapped file: behind its last byte the page is filled up with NULs, and the
-- mapping ends with the page.
def mapFile (page : Nat) (content : List UInt8) : Object :=
  content ++ List.replicate ((page - content.length % page) % page) 0

def strdup (o : Object) : Except Fault Object := do
  let text ← cstrAt o 0
  .ok (text ++ [0])

-- %ld of a size.
def sizeText (n : Nat) : List UInt8 := (Nat.toDigits 10 n).map chr

-- content_len has eleven bytes.
def contentLen (len : Nat) : List UInt8 := (sizeText len).take 10

-- A response whose body is an array of its own, with the length recorded for it.
structure FileResponse where
  status : Status
  header : Header
  body : Object
  bodyLen : Nat
deriving DecidableEq, Repr

-- fm is passed as a Basic_string: its address as data, its length as size.
def responseSetBody (r : FileResponse) (data : Object) (size : Nat) : Except Fault FileResponse := do
  let body ← strdup data
  .ok { r with body := body, bodyLen := size }

def fileResponse (page : Nat) (uri content : List UInt8) : Except Fault FileResponse := do
  let response ← responseSetBody ⟨.OK, [], [], 0⟩ (mapFile page content) content.length
  .ok { response with
    status := .OK
    header := [(ascii "Content-Type", mimeTypeMux uri), (ascii "Content-Length", contentLen content.length),
      (ascii "Cache-Control", ascii "max-age=2592000")] }

-- The table behind the request, and the answer.
def staticAnswer (page : Nat) (files : Files) (cwd : Path) (openable : Path → Bool) (table : StaticTable) (uri : List UInt8) :
    StaticTable × Except Fault (Option FileResponse) :=
  let file := staticHandler files cwd openable table uri
  (file.table, do
    match ← file.fm with
    | none => .ok none
    | some content => do
        let response ← fileResponse page uri content
        .ok (some response))

-- src/response.c: the bytes that the last send of responseWrite is given.
def sentBody (r : FileResponse) : Except Fault (List UInt8) :=
  if r.bodyLen ≤ r.body.length then .ok (r.body.take r.bodyLen) else .error .bounds

def AnswersWith (content : List UInt8) (answer : Except Fault (Option FileResponse)) : Prop :=
  ∃ r sent, answer = .ok (some r) ∧ sentBody r = .ok sent ∧
    headerGet r.header (ascii "Content-Length") = some (sizeText sent.length) ∧ sent = content

-- No NUL in front of the last byte, one there or room for one in the last page,
-- and a length of ten digits.
structure Copied (page : Nat) (content : List UInt8) : Prop where
  inner : 0 ∉ content.dropLast
  ended : 0 ∈ content ∨ content.length % page ≠ 0
  short : content.length < 10 ^ 10

theorem strdup_stop (before after : List UInt8) (clean : 0 ∉ before) :
    strdup (before ++ 0 :: after) = .ok (before ++ [0]) := by
  rw [strdup, cstr_at_start before after clean]
  rfl

theorem map_file_stop (page : Nat) (content : List UInt8) (paged : 0 < page) (spare : content.length % page ≠ 0) :
    ∃ rest, mapFile page content = content ++ 0 :: rest := by
  have inside := Nat.mod_lt content.length paged
  have room : (page - content.length % page) % page = (page - content.length % page - 1) + 1 := by
    rw [Nat.mod_eq_of_lt (by omega)]
    omega
  exact ⟨List.replicate (page - content.length % page - 1) 0, by rw [mapFile, room, List.replicate_succ]⟩

theorem map_file_full (page : Nat) (content : List UInt8) (full : content.length % page = 0) :
    mapFile page content = content := by
  rw [mapFile, full, Nat.sub_zero, Nat.mod_self, List.replicate_zero, List.append_nil]

theorem content_len_iff (n : Nat) : contentLen n = sizeText n ↔ n < 10 ^ 10 := by
  rw [contentLen, List.take_eq_self_iff, sizeText, List.length_map, Nat.length_toDigits_le_iff (by decide) (by decide)]

-- What is copied of a mapped file: up to its first NUL, or all of it when the
-- page has room for one.
theorem strdup_file (page : Nat) (content : List UInt8) (paged : 0 < page) :
    strdup (mapFile page content) = if 0 ∈ content ∨ content.length % page ≠ 0 then .ok (cstr content ++ [0])
      else .error .bounds := by
  by_cases stops : 0 ∈ content
  · obtain ⟨before, after, split, clean⟩ := List.eq_append_cons_of_mem stops
    rw [if_pos (.inl stops), mapFile, split, List.append_assoc, List.cons_append, strdup_stop before _ clean,
      cstr_append_clean before _ clean]
    simp [cstr]
  · rw [cstr_clean content stops]
    by_cases spare : content.length % page = 0
    · rw [if_neg (by simp [stops, spare]), map_file_full page content spare, strdup, cstrAt, List.drop_zero, if_neg stops]
      rfl
    · obtain ⟨rest, mapped⟩ := map_file_stop page content paged spare
      rw [if_pos (.inr spare), mapped, strdup_stop content rest stops]

theorem cstr_stop (before after : List UInt8) (clean : 0 ∉ before) : cstr (before ++ 0 :: after) = before := by
  rw [cstr_append_clean before _ clean]
  simp [cstr]

-- A copy and its NUL are as long as the file only if the first NUL is the last byte.
theorem copied_whole_iff (content : List UInt8) :
    (content.length ≤ (cstr content ++ [0]).length ∧ (cstr content ++ [0]).take content.length = content) ↔
      0 ∉ content.dropLast := by
  by_cases stops : 0 ∈ content
  · obtain ⟨before, after, split, clean⟩ := List.eq_append_cons_of_mem stops
    subst split
    rw [cstr_stop before after clean]
    cases after with
    | nil =>
        rw [List.dropLast_concat]
        exact iff_of_true ⟨Nat.le_refl _, List.take_length⟩ clean
    | cons c after =>
        apply iff_of_false
        · intro both
          have longer := both.1
          simp only [List.length_append, List.length_cons, List.length_nil] at longer
          omega
        · rw [List.dropLast_append_of_ne_nil (List.cons_ne_nil _ _), List.dropLast_cons_of_ne_nil (List.cons_ne_nil c after)]
          simp
  · rw [cstr_clean content stops]
    apply iff_of_true
    · exact ⟨by rw [List.length_append]; omega, List.take_left⟩
    · exact fun inner => stops (List.dropLast_subset _ inner)

theorem file_response_iff (page : Nat) (uri content : List UInt8) (r : FileResponse) (paged : 0 < page) :
    fileResponse page uri content = .ok r ↔ (0 ∈ content ∨ content.length % page ≠ 0) ∧
      r = ⟨.OK, [(ascii "Content-Type", mimeTypeMux uri), (ascii "Content-Length", contentLen content.length),
        (ascii "Cache-Control", ascii "max-age=2592000")], cstr content ++ [0], content.length⟩ := by
  rw [fileResponse, responseSetBody, strdup_file page content paged]
  by_cases ended : 0 ∈ content ∨ content.length % page ≠ 0
  · rw [if_pos ended, and_iff_right ended]
    constructor
    · intro same
      cases same
      rfl
    · intro same
      rw [same]
      rfl
  · rw [if_neg ended]
    apply iff_of_false
    · intro wrong
      cases wrong
    · intro both
      exact ended both.1

theorem content_length_header (mime len cache : List UInt8) : headerGet [(ascii "Content-Type", mime),
    (ascii "Content-Length", len), (ascii "Cache-Control", cache)] (ascii "Content-Length") = some len := by
  have named : ascii "Content-Length" ≠ [] := by decide
  have other : ascii "Content-Type" ≠ ascii "Content-Length" := by decide
  rw [headerGet, if_neg named]
  simp [other]

-- No file whose name goes to the same slot was served before, and less than half
-- of the slots are taken.
structure FirstServed (table : StaticTable) (filename : List UInt8) : Prop where
  free : ¬ table.Holds filename
  room : table.len < initialCapacity >>> 1

theorem content_answered_iff (page : Nat) (uri content : List UInt8) (paged : 0 < page) :
    AnswersWith content ((fileResponse page uri content).map some) ↔ Copied page content := by
  constructor
  · intro answers
    obtain ⟨r, sent, answered, body, announced, same⟩ := answers
    obtain ⟨response, built, same'⟩ := (except_map_ok _ _ _).mp answered
    cases same'
    obtain ⟨ended, parts⟩ := (file_response_iff page uri content r paged).mp built
    subst same parts
    rw [content_length_header] at announced
    rw [sentBody] at body
    split at body
    · rename_i inside
      exact ⟨(copied_whole_iff sent).mp ⟨inside, Except.ok.inj body⟩, ended,
        (content_len_iff sent.length).mp (Option.some.inj announced)⟩
    · cases body
  · intro copied
    obtain ⟨inside, whole⟩ := (copied_whole_iff content).mpr copied.inner
    refine ⟨_, content, (except_map_ok _ _ _).mpr
      ⟨_, (file_response_iff page uri content _ paged).mpr ⟨copied.ended, rfl⟩, rfl⟩,
      ?_, ?_, rfl⟩
    · rw [sentBody, if_pos inside, whole]
    · rw [content_length_header, (content_len_iff content.length).mpr copied.short]

section

variable (page : Nat) (files : Files) (cwd : Path) (openable : Path → Bool)

theorem static_handler_named (table : StaticTable) (uri filename : List UInt8) (noUp : ¬ ascii "../" <:+: uri)
    (named : cstrAt (uri ++ [0]) 1 = .ok filename) :
    staticHandler files cwd openable table uri = getStaticFile files cwd openable table filename := by
  rw [staticHandler, if_neg noUp, named]

-- What becomes of a request for a file that can be opened.
theorem static_answer_file (table : StaticTable) (uri filename : List UInt8) (path : Path) (content : List UInt8)
    (noUp : ¬ ascii "../" <:+: uri) (named : cstrAt (uri ++ [0]) 1 = .ok filename)
    (target : resolve files cwd filename = some path) (file : files.node path = some (.file content)) (opens : openable path = true) :
    (FirstServed table filename → (staticAnswer page files cwd openable table uri).2 = (fileResponse page uri content).map some) ∧
      (¬ FirstServed table filename → (staticAnswer page files cwd openable table uri).2 = .error .uninit) := by
  have got := get_static_file_got files cwd openable table filename
  rw [staticAnswer, static_handler_named files cwd openable table uri filename noUp named]
  generalize getStaticFile files cwd openable table filename = result at got ⊢
  cases got with
  | held taken => exact ⟨fun first => absurd taken first.free, fun _ => rfl⟩
  | missing free absent =>
      rw [absent path content target file] at opens
      cases opens
  | full free other otherContent _ _ crowded => exact ⟨fun first => absurd first.room (Nat.not_lt.mpr crowded), fun _ => rfl⟩
  | served free other otherContent otherTarget otherFile room grown inserted =>
      cases target.symm.trans otherTarget
      cases file.symm.trans otherFile
      refine ⟨fun _ => ?_, fun later => absurd ⟨free, room⟩ later⟩
      simp only [bind, Except.bind]
      cases fileResponse page uri content <;> rfl

theorem static_answer_iff (table : StaticTable) (uri filename : List UInt8) (path : Path) (content : List UInt8) (paged : 0 < page)
    (noUp : ¬ ascii "../" <:+: uri) (named : cstrAt (uri ++ [0]) 1 = .ok filename)
    (target : resolve files cwd filename = some path) (file : files.node path = some (.file content)) (opens : openable path = true) :
    AnswersWith content (staticAnswer page files cwd openable table uri).2 ↔ Copied page content ∧ FirstServed table filename := by
  obtain ⟨now, again⟩ := static_answer_file page files cwd openable table uri filename path content noUp named target file opens
  by_cases first : FirstServed table filename
  · rw [now first, content_answered_iff page uri content paged, and_iff_left first]
  · rw [again first]
    refine iff_of_false ?_ fun both => first both.2
    rintro ⟨_, _, answered, _⟩
    cases answered

theorem static_handler_table (table : StaticTable) (uri other : List UInt8) (held : table.Holds other) :
    (staticHandler files cwd openable table uri).table.Holds other := by
  rw [staticHandler]
  split
  · exact held
  · split
    · exact held
    · exact (get_static_file_table files cwd openable table _).1 other held

theorem static_answers_table (table : StaticTable) (uris : List (List UInt8)) (other : List UInt8) (held : table.Holds other) :
    (uris.foldl (fun table uri => (staticAnswer page files cwd openable table uri).1) table).Holds other := by
  induction uris generalizing table with
  | nil => exact held
  | cons uri rest ih => exact ih _ (static_handler_table files cwd openable table uri other held)

-- The process serves a file once: the next request for it reads the key that the
-- first one left, whatever was asked for in between.
theorem static_answered_once (table : StaticTable) (uri filename : List UInt8) (r : FileResponse) (uris : List (List UInt8))
    (noUp : ¬ ascii "../" <:+: uri) (named : cstrAt (uri ++ [0]) 1 = .ok filename)
    (answered : (staticAnswer page files cwd openable table uri).2 = .ok (some r)) :
    let after := (staticAnswer page files cwd openable table uri).1
    (staticAnswer page files cwd openable
      (uris.foldl (fun table uri => (staticAnswer page files cwd openable table uri).1) after) uri).2 = .error .uninit := by
  intro after
  have held : after.Holds filename := by
    obtain ⟨fm, read, _⟩ := (except_bind_ok _ _ _).mp answered
    simp only [after, staticAnswer]
    rw [static_handler_named files cwd openable table uri filename noUp named] at read ⊢
    cases fm with
    | none =>
        rename_i none_answered
        cases none_answered
    | some content => exact (get_static_file_table files cwd openable table filename).2 content read
  have later := static_answers_table page files cwd openable after uris filename held
  generalize uris.foldl _ after = table' at later
  rw [staticAnswer, static_handler_named files cwd openable table' uri filename noUp named, getStaticFile, staticTableGet,
    if_pos later]
  rfl

end

theorem static_answer_asset : AnswersWith (ascii "body\n")
      (staticAnswer 4096 (assets (ascii "body\n")) [] (fun _ => true) staticTableNew (ascii "/static/a")).2 ↔
    Copied 4096 (ascii "body\n") ∧ FirstServed staticTableNew (ascii "static/a") :=
  static_answer_iff 4096 (assets (ascii "body\n")) [] (fun _ => true) staticTableNew (ascii "/static/a") (ascii "static/a")
    [ascii "static", ascii "a"] (ascii "body\n") (by decide) (by decide +kernel) (by decide +kernel) (by decide +kernel)
    (by decide +kernel) rfl

-- Behind its first NUL a file is not copied, but it is sent; and no file is
-- served twice.
theorem static_answer_fails :
    let answer := fun content table => staticAnswer 4096 (assets content) [] (fun _ => true) table (ascii "/static/a")
    ¬ AnswersWith [7, 0, 7] (answer [7, 0, 7] staticTableNew).2 ∧
      ¬ AnswersWith [7] (answer [7] (answer [7] staticTableNew).1).2 := by
  have noUp : ¬ ascii "../" <:+: ascii "/static/a" := by decide +kernel
  have named : cstrAt (ascii "/static/a" ++ [0]) 1 = .ok (ascii "static/a") := by decide +kernel
  have first : FirstServed staticTableNew (ascii "static/a") := ⟨by decide +kernel, by decide +kernel⟩
  constructor
  · rw [(static_answer_file 4096 (assets [7, 0, 7]) [] (fun _ => true) staticTableNew _ _ [ascii "static", ascii "a"] [7, 0, 7]
      noUp named (by decide +kernel) (by decide +kernel) rfl).1 first, content_answered_iff _ _ _ (by decide)]
    intro copied
    exact copied.inner (by decide)
  · have answered := (static_answer_file 4096 (assets [7]) [] (fun _ => true) staticTableNew _ _ [ascii "static", ascii "a"] [7]
      noUp named (by decide +kernel) (by decide +kernel) rfl).1 first
    have made := (file_response_iff 4096 (ascii "/static/a") [7] _ (by decide)).mpr ⟨by decide, rfl⟩
    rw [made] at answered
    have again := static_answered_once 4096 (assets [7]) [] (fun _ => true) staticTableNew _ _ _ [] noUp named answered
    rintro ⟨_, _, second, _⟩
    cases again.symm.trans second

end Facebooc
