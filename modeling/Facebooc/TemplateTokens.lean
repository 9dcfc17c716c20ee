import Facebooc.StringView
import Facebooc.TemplateHoles

set_option autoImplicit false

namespace Facebooc

open CMemory StringSearch

theorem strtok_first (o : Object) (pos : Nat) (text token : List UInt8) (delim : UInt8) (read : cstrAt o pos = .ok text)
    (some_char : token ≠ []) (taken : text.takeWhile (fun c => c ≠ delim) = token) : strtokR o pos delim =
      if o[pos + token.length]? = some 0 then .ok (some pos, o, pos + token.length)
      else .ok (some pos, o.set (pos + token.length) 0, pos + token.length + 1) := by
  cases text with
  | nil => exact absurd taken.symm some_char
  | cons a rest =>
      have first : a ≠ delim := by
        rintro rfl
        simp at taken
        exact some_char taken
      simp only [strtokR, read, bind, Except.bind]
      simp only [List.takeWhile_cons, List.dropWhile_cons, first, decide_false, decide_true, not_false_eq_true, ne_eq,
        if_true, Bool.false_eq_true, if_false, List.length_nil, Nat.add_zero] at taken ⊢
      rw [taken, if_neg some_char]

-- strtok_r on a text that is the rest of a buffer: what is in front of it was
-- taken by earlier calls, what is behind its terminator is never reached.
section Strtok

variable (front text junk : List UInt8) (delim : UInt8) (clean : 0 ∉ text)

theorem strtok_none : strtokR (front ++ 0 :: junk) front.length delim = .ok (none, front ++ 0 :: junk, front.length) := by
  have read := cstr_at_append front [] junk front.length rfl (by simp)
  rw [List.nil_append] at read
  simp [strtokR, read, bind, Except.bind]

include clean

theorem strtok_last (some_char : text ≠ []) (absent : delim ∉ text) :
    strtokR (front ++ (text ++ 0 :: junk)) front.length delim =
      .ok (some front.length, front ++ text ++ 0 :: junk, (front ++ text).length) := by
  have through : text.takeWhile (fun c => c ≠ delim) = text := by
    rw [List.takeWhile_eq_self_iff]
    exact fun c member => decide_eq_true fun same => absent (same ▸ member)
  rw [strtok_first _ _ text text delim (cstr_at_append front text junk _ rfl clean) some_char through,
    ← List.append_assoc, ← List.length_append, if_pos (by simp)]

theorem strtok_cut (some_char : text ≠ []) (absent : delim ∉ text) (stop : delim ≠ 0) (after : List UInt8)
    (more : 0 ∉ after) : strtokR (front ++ (text ++ delim :: (after ++ 0 :: junk))) front.length delim =
      .ok (some front.length, front ++ text ++ [0] ++ (after ++ 0 :: junk), (front ++ text ++ [0]).length) := by
  have seen : 0 ∉ text ++ delim :: after := by simp [clean, more, stop.symm]
  have read := cstr_at_append front _ junk front.length rfl seen
  rw [List.append_assoc, List.cons_append] at read
  rw [strtok_first _ _ _ text delim read some_char (take_while_stop text after delim absent), ← List.append_assoc,
    ← List.length_append, if_neg (by simp [stop])]
  simp [Nat.add_assoc]

theorem strtok_skip (stop : delim ≠ 0) : strtokR (front ++ (delim :: text ++ 0 :: junk)) front.length delim =
    strtokR (front ++ [delim] ++ (text ++ 0 :: junk)) (front ++ [delim]).length delim := by
  have here := cstr_at_append front (delim :: text) junk front.length rfl (by simp [clean, stop.symm])
  have next := cstr_at_append (front ++ [delim]) text junk _ rfl clean
  have same : front ++ [delim] ++ (text ++ 0 :: junk) = front ++ (delim :: text ++ 0 :: junk) := by simp
  rw [same] at next ⊢
  have shift : ∀ n, front.length + (n + 1) = (front ++ [delim]).length + n := by
    intro n
    rw [List.length_append, List.length_singleton, Nat.add_assoc, Nat.add_comm n 1]
  rw [strtokR, strtokR, here, next]
  simp only [bind, Except.bind, List.takeWhile_cons_of_pos, List.dropWhile_cons_of_pos, decide_true, List.length_cons,
    shift]

theorem strtok_head (a : UInt8) (rest : List UInt8) (stop : delim ≠ 0) (starts : text = a :: rest) (first : a ≠ delim) :
    ∃ token left pos, strtokR (front ++ (text ++ 0 :: junk)) front.length delim =
        .ok (some front.length, front ++ (a :: token ++ 0 :: left), pos) ∧ 0 ∉ a :: token ∧
      ∀ b more, rest = b :: more → b ≠ delim → ∃ tail, token = b :: tail := by
  by_cases inside : delim ∈ text
  · obtain ⟨before, after, split, absent⟩ := List.eq_append_cons_of_mem inside
    cases before with
    | nil => exact absurd (List.head_eq_of_cons_eq (starts.symm.trans split)) first
    | cons c token =>
        have both := starts.symm.trans split
        simp only [List.cons_append, List.cons.injEq] at both
        obtain ⟨rfl, restSplit⟩ := both
        rw [split] at clean
        have tokenClean : 0 ∉ a :: token := fun member => clean (List.mem_append_left _ member)
        have afterClean : 0 ∉ after := fun member => clean (List.mem_append_right _ (List.mem_cons_of_mem _ member))
        have cut := strtok_cut front (a :: token) junk delim tokenClean (by simp) absent stop after afterClean
        refine ⟨token, after ++ 0 :: junk, (front ++ a :: token ++ [0]).length, ?_, tokenClean, ?_⟩
        · have shape : text ++ 0 :: junk = a :: token ++ delim :: (after ++ 0 :: junk) := by
            rw [split, List.append_assoc]
            rfl
          rw [shape, cut]
          simp
        · intro b more same second
          cases token with
          | nil => exact absurd (List.head_eq_of_cons_eq (same.symm.trans restSplit)) second
          | cons d tail => exact ⟨tail, by rw [List.head_eq_of_cons_eq (same.symm.trans restSplit)]⟩
  · refine ⟨rest, junk, (front ++ text).length, ?_, starts ▸ clean, fun b more same _ => ⟨more, same⟩⟩
    rw [strtok_last front text junk delim clean (by simp [starts]) inside, starts]
    simp

end Strtok

theorem drop_last_char_end (front text junk : List UInt8) (last : UInt8) (clean : 0 ∉ text ++ [last]) :
    dropLastChar (front ++ (text ++ last :: 0 :: junk)) front.length = .ok (front ++ (text ++ 0 :: 0 :: junk)) := by
  have read := cstr_at_append front _ junk front.length rfl clean
  have split : front ++ (text ++ last :: 0 :: junk) = (front ++ text) ++ last :: 0 :: junk := by simp
  rw [List.append_assoc, List.singleton_append] at read
  rw [dropLastChar, read, split]
  simp only [bind, Except.bind]
  rw [store_append (front ++ text) (0 :: junk) last 0 _ (by simp only [List.length_append, List.length_singleton]; omega),
    List.append_assoc]

theorem cut_at_space_end (front word text junk : List UInt8) (absent : chr ' ' ∉ word)
    (clean : 0 ∉ word ++ chr ' ' :: text) : cutAtSpace (front ++ (word ++ chr ' ' :: (text ++ 0 :: junk))) front.length =
      .ok (front ++ word ++ 0 :: (text ++ 0 :: junk), (front ++ word).length) := by
  have read := cstr_at_append front _ junk front.length rfl clean
  rw [List.append_assoc, List.cons_append] at read
  rw [cutAtSpace, read]
  simp only [bind, Except.bind, idx_of_append word text _ absent]
  rw [← List.append_assoc, ← List.length_append]
  simp

-- The template language. A piece other than a literal run stands between { and
-- }, and the second brace of a placeholder is left behind.
inductive Piece where
  | literal (text : List UInt8)
  | placeholder (key : List UInt8)
  | nestedInclude (path : List UInt8)
  | statusSwitcher (key value text : List UInt8)
deriving DecidableEq, Repr

inductive Kind where
  | literal
  | placeholder
  | nestedInclude
  | statusSwitcher
deriving DecidableEq, Repr

def Piece.kind : Piece → Kind
  | .literal _ => .literal
  | .placeholder _ => .placeholder
  | .nestedInclude _ => .nestedInclude
  | .statusSwitcher _ _ _ => .statusSwitcher

def Piece.text : Piece → List UInt8
  | .literal text => text
  | .placeholder key => ascii "\x7b\x7b" ++ key ++ ascii "\x7d\x7d"
  | .nestedInclude path => ascii "\x7b%include " ++ path ++ ascii "%\x7d"
  | .statusSwitcher key value text =>
      ascii "\x7b%when " ++ key ++ ascii " " ++ value ++ ascii " " ++ text ++ ascii "%\x7d"

-- A run, a key or a path: a C string without braces.
def BraceFree (bytes : List UInt8) : Prop := 0 ∉ bytes ∧ chr '{' ∉ bytes ∧ chr '}' ∉ bytes

def Piece.WellFormed : Piece → Prop
  | .literal text => text ≠ [] ∧ BraceFree text
  | .placeholder key => BraceFree key
  | .nestedInclude path => BraceFree path
  | .statusSwitcher key value text =>
      BraceFree key ∧ BraceFree value ∧ BraceFree text ∧ chr ' ' ∉ key ∧ chr ' ' ∉ value

def Piece.segment : Piece → List UInt8
  | .literal text => text
  | .placeholder key => chr '{' :: key
  | .nestedInclude path => ascii "%include " ++ (path ++ [chr '%'])
  | .statusSwitcher key value text => ascii "%when " ++ (key ++ chr ' ' :: (value ++ chr ' ' :: (text ++ [chr '%'])))

def Piece.behind : Piece → List UInt8
  | .placeholder _ => [chr '}']
  | _ => []

theorem piece_text (piece : Piece) (braced : piece.kind ≠ .literal) :
    piece.text = chr '{' :: (piece.segment ++ chr '}' :: piece.behind) := by
  cases piece with
  | literal text => exact absurd rfl braced
  | placeholder key => rfl
  | nestedInclude path =>
      simp only [Piece.text, Piece.segment, Piece.behind, List.append_assoc]
      rfl
  | statusSwitcher key value text =>
      simp only [Piece.text, Piece.segment, Piece.behind, List.append_assoc, List.cons_append]
      rfl

theorem segment_one_token (piece : Piece) (wellFormed : piece.WellFormed) (braced : piece.kind ≠ .literal) :
    piece.segment ≠ [] ∧ 0 ∉ piece.segment ∧ chr '}' ∉ piece.segment := by
  cases piece with
  | literal text => exact absurd rfl braced
  | placeholder key =>
      obtain ⟨clean, _, noClose⟩ := wellFormed
      simp only [Piece.segment, List.mem_cons, not_or]
      exact ⟨by simp, ⟨by decide, clean⟩, by decide, noClose⟩
  | nestedInclude path =>
      obtain ⟨clean, _, noClose⟩ := wellFormed
      simp only [Piece.segment, List.mem_append, List.mem_singleton, not_or]
      exact ⟨by simp [ascii], ⟨by decide, clean, by decide⟩, by decide, noClose, by decide⟩
  | statusSwitcher key value text =>
      obtain ⟨⟨keyClean, _, keyClose⟩, ⟨valueClean, _, valueClose⟩, ⟨textClean, _, textClose⟩, _⟩ := wellFormed
      simp only [Piece.segment, List.mem_append, List.mem_cons, List.not_mem_nil, or_false, not_or]
      exact ⟨by simp [ascii], ⟨by decide, keyClean, by decide, valueClean, by decide, textClean, by decide⟩, by decide,
        keyClose, by decide, valueClose, by decide, textClose, by decide⟩

theorem piece_behind (piece : Piece) : piece.behind = [] ∨ piece.behind = [chr '}'] := by
  cases piece with
  | placeholder key => exact .inr rfl
  | _ => exact .inl rfl

theorem piece_text_nonempty (piece : Piece) (wellFormed : piece.WellFormed) : piece.text ≠ [] := by
  by_cases braced : piece.kind = .literal
  · cases piece with
    | literal text => exact wellFormed.1
    | placeholder key => cases braced
    | nestedInclude path => cases braced
    | statusSwitcher key value text => cases braced
  · rw [piece_text piece braced]
    exact List.cons_ne_nil _ _

theorem piece_text_clean (piece : Piece) (wellFormed : piece.WellFormed) : 0 ∉ piece.text := by
  by_cases braced : piece.kind = .literal
  · cases piece with
    | literal text => exact wellFormed.2.1
    | placeholder key => cases braced
    | nestedInclude path => cases braced
    | statusSwitcher key value text => cases braced
  · have behind : 0 ∉ piece.behind := by
      rcases piece_behind piece with none | brace
      · rw [none]
        exact List.not_mem_nil
      · rw [brace]
        decide
    rw [piece_text piece braced, List.mem_cons, List.mem_append, List.mem_cons, not_or, not_or, not_or]
    exact ⟨by decide, (segment_one_token piece wellFormed braced).2.1, by decide, behind⟩

theorem text_drop_last (piece : Piece) (braced : piece.kind ≠ .literal) :
    piece.text.dropLast = chr '{' :: (piece.segment ++ piece.behind) := by
  have whole := piece_text piece braced
  rcases piece_behind piece with none | brace
  · rw [none] at whole ⊢
    rw [whole, ← List.cons_append, List.dropLast_concat, List.append_nil]
  · have shape : chr '{' :: (piece.segment ++ [chr '}', chr '}']) =
        (chr '{' :: (piece.segment ++ [chr '}'])) ++ [chr '}'] := by
      simp
    rw [brace] at whole ⊢
    rw [whole, shape, List.dropLast_concat]

theorem percent_not_brace : ¬ some (chr '%') = some (chr '{') := by decide

section Directive

variable (nested : List UInt8 → Except Fault (List Chunk)) (context : HashMap Page) (values : Values)
  (found : ∀ key, hashMapGet context key = .ok (values key))

def pieceChunks (values : Values) : Piece → Except Fault (List Chunk)
  | .literal text => .ok [.text text]
  | .placeholder key => .ok (fillChunks values [.hole key])
  | .nestedInclude path => nested path
  | .statusSwitcher key value text => .ok (if statusOf values key = some value then [.text text] else [])

include found

theorem when_piece (front key value text junk : List UInt8)
    (wellFormed : (Piece.statusSwitcher key value text).WellFormed) :
    ∃ left, left.length = front.length + (key ++ chr ' ' :: (value ++ chr ' ' :: (text ++ [chr '%']))).length ∧
      templateWhen context (front ++ (key ++ chr ' ' :: (value ++ chr ' ' :: (text ++ [chr '%'])) ++ 0 :: junk))
          front.length =
        .ok (left ++ 0 :: junk, if statusOf values key = some value then [.text text] else []) := by
  obtain ⟨⟨keyClean, -⟩, ⟨valueClean, -⟩, ⟨textClean, -⟩, keyWord, valueWord⟩ := wellFormed
  have lastClean : 0 ∉ text ++ [chr '%'] := by simp [textClean, chr]
  have restClean : 0 ∉ value ++ chr ' ' :: (text ++ [chr '%']) := by simp [valueClean, textClean, chr]
  have wholeClean : 0 ∉ key ++ chr ' ' :: (value ++ chr ' ' :: (text ++ [chr '%'])) := by
    simp [keyClean, valueClean, textClean, chr]
  have first := cut_at_space_end front key _ junk keyWord wholeClean
  have named := cstr_at_append front key (value ++ chr ' ' :: (text ++ [chr '%']) ++ 0 :: junk) _ rfl keyClean
  rw [← List.append_assoc] at named
  have second := cut_at_space_end (front ++ key ++ [0]) value _ junk valueWord restClean
  have wanted := cstr_at_append (front ++ key ++ [0]) value (text ++ [chr '%'] ++ 0 :: junk) _ rfl valueClean
  rw [← List.append_assoc] at wanted
  have dropped := drop_last_char_end (front ++ key ++ [0] ++ value ++ [0]) text junk (chr '%') lastClean
  have shown := cstr_at_append (front ++ key ++ [0] ++ value ++ [0]) text (0 :: junk) _ rfl textClean
  have next : (front ++ key).length + 1 = (front ++ key ++ [0]).length := by
    simp only [List.length_append, List.length_singleton]
  have last : (front ++ key ++ [0] ++ value).length + 1 = (front ++ key ++ [0] ++ value ++ [0]).length := by
    simp only [List.length_append, List.length_singleton]
  simp only [List.append_assoc, List.cons_append, List.nil_append] at first named second wanted dropped shown next last ⊢
  rcases Option.eq_none_or_eq_some (values key) with absent | ⟨page, held⟩
  · refine ⟨front ++ (key ++ 0 :: (value ++ chr ' ' :: (text ++ [chr '%']))), by simp, ?_⟩
    rw [if_neg (by simp [statusOf, absent])]
    simp only [templateWhen, first, bind, Except.bind, named, found, absent, List.append_assoc, List.cons_append,
      List.nil_append]
  · by_cases same : pageBytes page = value
    · refine ⟨front ++ (key ++ 0 :: (value ++ 0 :: (text ++ [0]))), by simp, ?_⟩
      rw [if_pos (by simp [statusOf, held, same])]
      simp only [templateWhen, first, bind, Except.bind, named, found, held, next, second, wanted, last, if_pos same,
        dropped, shown, List.append_assoc, List.cons_append, List.nil_append]
    · refine ⟨front ++ (key ++ 0 :: (value ++ 0 :: (text ++ [chr '%']))), by simp, ?_⟩
      rw [if_neg (by simp [statusOf, held, same])]
      simp only [templateWhen, first, bind, Except.bind, named, found, held, next, second, wanted, if_neg same,
        List.append_assoc, List.cons_append, List.nil_append]

-- One piece of the language is one token up to }.
theorem directive_piece (front junk : List UInt8) (piece : Piece) (wellFormed : piece.WellFormed)
    (braced : piece.kind ≠ .literal) : ∃ left, left.length = (front ++ piece.segment).length ∧
      templateDirective nested context (front ++ (piece.segment ++ 0 :: junk)) front.length =
        (pieceChunks nested values piece).map fun chunks => (left ++ 0 :: junk, chunks, some true) := by
  have clean := (segment_one_token piece wellFormed braced).2.1
  cases piece with
  | literal text => exact absurd rfl braced
  | placeholder key =>
      refine ⟨front ++ chr '{' :: key, rfl, ?_⟩
      have read := cstr_at_append front (chr '{' :: key) junk front.length rfl clean
      simp only [templateDirective, Piece.segment, read, bind, Except.bind, List.head?_cons, if_true, List.tail_cons]
      rw [template_value_fill context values found, pieceChunks]
      simp [Except.map]
  | nestedInclude path =>
      have pathEnd : 0 ∉ path ++ [chr '%'] := by simp [wellFormed.1, chr]
      have read := cstr_at_append front (ascii "%include " ++ (path ++ [chr '%'])) junk front.length rfl clean
      have dropped := drop_last_char_end (front ++ ascii "%include ") path junk (chr '%') pathEnd
      have named := cstr_at_append (front ++ ascii "%include ") path (0 :: junk) _ rfl wellFormed.1
      have start : (front ++ ascii "%include ").length = front.length + 9 := List.length_append
      have head : (ascii "%include " ++ (path ++ [chr '%'])).head? = some (chr '%') := rfl
      have named7 : (ascii "include").isPrefixOf (ascii "%include " ++ (path ++ [chr '%'])).tail = true := rfl
      refine ⟨front ++ (ascii "%include " ++ (path ++ [0])), by simp [Piece.segment], ?_⟩
      rw [start] at dropped named
      simp only [List.append_assoc, List.cons_append, List.nil_append] at dropped named read ⊢
      simp only [templateDirective, Piece.segment, List.append_assoc, List.cons_append, List.nil_append, read, bind,
        Except.bind, head, named7, if_true, if_neg percent_not_brace, dropped, named, pieceChunks]
      cases nested path <;> rfl
  | statusSwitcher key value text =>
      have read := cstr_at_append front _ junk front.length rfl clean
      obtain ⟨left, long, when⟩ := when_piece context values found (front ++ ascii "%when ") key value text junk wellFormed
      have start : (front ++ ascii "%when ").length = front.length + 6 := List.length_append
      have head : (Piece.statusSwitcher key value text).segment.head? = some (chr '%') := rfl
      have named7 : (ascii "include").isPrefixOf (Piece.statusSwitcher key value text).segment.tail = false := rfl
      have named4 : (ascii "when").isPrefixOf (Piece.statusSwitcher key value text).segment.tail = true := rfl
      refine ⟨left, by rw [long, Piece.segment, ← List.length_append, List.append_assoc], ?_⟩
      have same : front ++ ((Piece.statusSwitcher key value text).segment ++ 0 :: junk) = front ++ ascii "%when " ++
          (key ++ chr ' ' :: (value ++ chr ' ' :: (text ++ [chr '%'])) ++ 0 :: junk) := by
        simp only [Piece.segment, List.append_assoc]
      rw [start, ← same] at when
      simp only [templateDirective, read, bind, Except.bind, head, named7, named4, if_true, if_neg percent_not_brace,
        Bool.false_eq_true, if_false, when, pieceChunks, Except.map]

end Directive

section Engine

variable (nested : List UInt8 → Except Fault (List Chunk)) (context : HashMap Page)

-- The engine behind a directive: one byte is skipped, the text up to the next {
-- is copied, and the loop goes on.
def restChunks (rounds : Nat) (o : Object) (pos : Nat) : Except Fault (List Chunk) := do
  match ← strtokR o pos (chr '{') with
  | (none, _, _) => .ok []
  | (some segment, o, pos) =>
      let text ← cstrAt o segment
      let rest ← templateLoop nested context rounds o pos
      .ok (.text text.tail :: rest)

theorem loop_rest (rounds : Nat) (o taken left : Object) (pos segment next : Nat) (made : Except Fault (List Chunk))
    (token : strtokR o pos (chr '}') = .ok (some segment, taken, next))
    (directive : templateDirective nested context taken segment = made.map fun chunks => (left, chunks, some true)) :
    templateLoop nested context (rounds + 1) o pos =
      made >>= fun chunks => (restChunks nested context rounds left next).map (chunks ++ ·) := by
  rw [templateLoop, token]
  simp only [bind, Except.bind, directive]
  cases made with
  | error fault => rfl
  | ok chunks =>
      simp only [Except.map, restChunks, bind, Except.bind]
      cases strtokR left next (chr '{') with
      | error fault => rfl
      | ok found =>
          obtain ⟨token, o, pos⟩ := found
          cases token with
          | none => simp
          | some segment =>
              simp only
              cases cstrAt o segment with
              | error fault => rfl
              | ok text =>
                  simp only
                  cases templateLoop nested context rounds o pos with
                  | error fault => rfl
                  | ok rest => simp

-- The file is read behind a blank, which is skipped like the byte behind a
-- directive, and without its last byte.
theorem chunks_start (files : List UInt8 → Option (List UInt8)) (depth : Nat) (filename content : List UInt8)
    (file : files filename = some content) (some_byte : content ≠ []) (clean : 0 ∉ content) :
    templateChunks files context (depth + 1) filename =
      restChunks (templateChunks files context depth) context (content.length + 2)
        (chr ' ' :: content.dropLast ++ [0]) 0 := by
  obtain ⟨init, last, same⟩ := (List.eq_nil_or_concat content).resolve_left some_byte
  rw [List.concat_eq_append] at same
  subst same
  have buffer : readfile files filename = some (chr ' ' :: init ++ [0]) := by
    rw [readfile, file]
    simp [ascii]
  have absent : 0 ∉ chr ' ' :: init := by
    rw [List.mem_append, not_or] at clean
    rw [List.mem_cons, not_or]
    exact ⟨by decide, clean.1⟩
  obtain ⟨token, left, pos, taken, tokenClean, _⟩ := strtok_head [] _ [] (chr '{') absent (chr ' ') init (by decide) rfl
    (by decide)
  have whole := cstr_at_start (chr ' ' :: token) left tokenClean
  have text := cstr_at_append [chr ' '] token left 1 rfl fun member => tokenClean (List.mem_cons_of_mem _ member)
  simp only [List.nil_append, List.length_nil, List.cons_append] at taken whole text
  rw [templateChunks, buffer, restChunks, List.dropLast_concat]
  simp only [List.cons_append, taken, bind, Except.bind, whole, Nat.zero_add, text, List.tail_cons, List.length_append,
    List.length_cons, List.length_nil]

theorem literal_last (rounds : Nat) (front pre junk : List UInt8) (c : UInt8) (clean : 0 ∉ c :: pre)
    (unopened : chr '{' ∉ c :: pre) :
    restChunks nested context (rounds + 1) (front ++ (c :: pre ++ 0 :: junk)) front.length = .ok [.text pre] := by
  have taken := strtok_last front (c :: pre) junk (chr '{') clean (by simp) unopened
  have text := cstr_at_append front (c :: pre) junk _ rfl clean
  have ended := strtok_none (front ++ c :: pre) junk (chr '}')
  rw [← List.append_assoc] at text
  rw [restChunks, taken]
  simp only [bind, Except.bind, text, templateLoop, ended, List.tail_cons]

variable (values : Values) (found : ∀ key, hashMapGet context key = .ok (values key))

include found

theorem piece_cut (rounds : Nat) (front pre after junk : List UInt8) (c : UInt8) (piece : Piece)
    (clean : 0 ∉ c :: pre) (unopened : chr '{' ∉ c :: pre) (wellFormed : piece.WellFormed)
    (braced : piece.kind ≠ .literal) (more : 0 ∉ after) :
    ∃ left, restChunks nested context (rounds + 1)
        (front ++ (c :: pre ++ chr '{' :: (piece.segment ++ chr '}' :: (after ++ 0 :: junk)))) front.length =
      pieceChunks nested values piece >>= fun chunks =>
        (restChunks nested context rounds (left ++ (after ++ 0 :: junk)) left.length).map fun rest =>
          .text pre :: (chunks ++ rest) := by
  obtain ⟨some_byte, segmentClean, noClose⟩ := segment_one_token piece wellFormed braced
  have behind : 0 ∉ piece.segment ++ chr '}' :: after := by
    rw [List.mem_append, List.mem_cons, not_or, not_or]
    exact ⟨segmentClean, by decide, more⟩
  have opened := strtok_cut front (c :: pre) junk (chr '{') clean (by simp) unopened (by decide) _ behind
  have text := cstr_at_append front (c :: pre) (piece.segment ++ chr '}' :: (after ++ 0 :: junk)) _ rfl clean
  have closed := strtok_cut (front ++ c :: pre ++ [0]) piece.segment junk (chr '}') segmentClean some_byte noClose
    (by decide) after more
  obtain ⟨left, long, directive⟩ := directive_piece nested context values found (front ++ c :: pre ++ [0])
    (after ++ 0 :: junk) piece wellFormed braced
  refine ⟨left ++ [0], ?_⟩
  have next : (front ++ c :: pre ++ [0] ++ piece.segment ++ [0]).length = (left ++ [0]).length := by
    simp only [List.length_append, long]
  have shape : front ++ c :: pre ++ [0] ++ piece.segment ++ [0] ++ (after ++ 0 :: junk) =
      front ++ c :: pre ++ [0] ++ (piece.segment ++ 0 :: (after ++ 0 :: junk)) := by
    simp
  rw [shape, next] at closed
  have looped := loop_rest nested context rounds _ _ _ _ _ _ _ closed directive
  simp only [List.append_assoc, List.cons_append, List.nil_append] at opened text looped ⊢
  rw [restChunks, opened]
  simp only [bind, Except.bind, text, looped, List.tail_cons]
  cases pieceChunks nested values piece with
  | error fault => rfl
  | ok chunks =>
      simp only
      cases restChunks nested context rounds (left ++ 0 :: (after ++ 0 :: junk)) (left ++ [0]).length <;> rfl

theorem braced_behind (rounds : Nat) (front pre text junk : List UInt8) (c : UInt8) (piece : Piece)
    (clean : 0 ∉ c :: pre) (unopened : chr '{' ∉ c :: pre) (wellFormed : piece.WellFormed)
    (braced : piece.kind ≠ .literal) (more : 0 ∉ text) :
    ∃ left, restChunks nested context (rounds + 1) (front ++ (c :: pre ++ (piece.text ++ text) ++ 0 :: junk)) front.length =
      pieceChunks nested values piece >>= fun chunks =>
        (restChunks nested context rounds (left ++ (piece.behind ++ text ++ 0 :: junk)) left.length).map fun rest =>
          .text pre :: (chunks ++ rest) := by
  have behind : 0 ∉ piece.behind ++ text := by
    rw [List.mem_append, not_or]
    exact ⟨fun member => piece_text_clean piece wellFormed (by rw [piece_text piece braced]; simp [member]), more⟩
  obtain ⟨left, ran⟩ := piece_cut nested context values found rounds front pre _ junk c piece clean unopened wellFormed
    braced behind
  refine ⟨left, ?_⟩
  rw [piece_text piece braced, ← ran]
  simp only [List.append_assoc, List.cons_append]

theorem piece_last (rounds : Nat) (front pre junk : List UInt8) (c : UInt8) (piece : Piece)
    (clean : 0 ∉ c :: pre) (unopened : chr '{' ∉ c :: pre) (wellFormed : piece.WellFormed)
    (braced : piece.kind ≠ .literal) :
    restChunks nested context (rounds + 1) (front ++ (c :: pre ++ chr '{' :: (piece.segment ++ 0 :: junk))) front.length =
      (pieceChunks nested values piece).map fun chunks => .text pre :: chunks := by
  obtain ⟨some_byte, segmentClean, noClose⟩ := segment_one_token piece wellFormed braced
  have opened := strtok_cut front (c :: pre) junk (chr '{') clean (by simp) unopened (by decide) _ segmentClean
  have text := cstr_at_append front (c :: pre) (piece.segment ++ 0 :: junk) _ rfl clean
  have closed := strtok_last (front ++ c :: pre ++ [0]) piece.segment junk (chr '}') segmentClean some_byte noClose
  obtain ⟨left, long, directive⟩ := directive_piece nested context values found (front ++ c :: pre ++ [0]) junk piece
    wellFormed braced
  rw [← long, List.append_assoc (front ++ c :: pre ++ [0]) piece.segment] at closed
  have looped := loop_rest nested context rounds _ _ _ _ _ _ _ closed directive
  have ended := strtok_none left junk (chr '{')
  simp only [List.append_assoc, List.cons_append, List.nil_append] at opened text looped ⊢
  rw [restChunks, opened]
  simp only [bind, Except.bind, text, looped, List.tail_cons, restChunks, ended]
  cases pieceChunks nested values piece with
  | error fault => rfl
  | ok chunks => simp [Except.map]

end Engine

end Facebooc
