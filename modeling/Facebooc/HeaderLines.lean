import Facebooc.LineEnd

set_option autoImplicit false

namespace Facebooc

open CMemory StringSearch

-- The pair that a line gives.
def ownLine (line : List UInt8) : List UInt8 × List UInt8 :=
  ((line.takeWhile fun c => c ≠ chr ':').map tolower, (line.dropWhile fun c => c ≠ chr ':').tail.dropWhile isspace)

def lineText (line : List UInt8) : List UInt8 := line ++ ascii "\r\n"

structure HeaderLine (line : List UInt8) : Prop where
  colon : chr ':' ∈ line
  single : ¬ ascii "\r\n" <:+: line
  searched : searched line = true

-- Lines with a colon in each, and an empty one behind them.
def HeaderBlock (text : List UInt8) : Prop :=
  ∃ (lines : List (List UInt8)) (tail : List UInt8), text = lines.flatMap lineText ++ (ascii "\r\n" ++ tail) ∧
    ∀ line ∈ lines, HeaderLine line

def crlfLines : List UInt8 → List (List UInt8)
  | [] => [[]]
  | [c] => [[c]]
  | a :: b :: rest =>
      if a = chr '\r' ∧ b = chr '\n' then [] :: crlfLines rest
      else (crlfLines (b :: rest)).modifyHead fun line => a :: line

-- A call returns, each of its headers is that of a line of the text, and the
-- offset stays within the text.
def HeadersRobust (before text rest : List UInt8) : Prop :=
  ∃ h o offset, headerParser (before ++ (text ++ 0 :: rest)) before.length = .ok (h, o, offset) ∧
    h.Sublist ((crlfLines text).map ownLine) ∧ offset ≤ before.length + text.length

theorem to_lower_nonzero (c : UInt8) (nonzero : c ≠ 0) : tolower c ≠ 0 := by
  rw [tolower]
  split
  · rename_i upper
    intro zero
    have low : 65 ≤ c.toNat := UInt8.le_iff_toNat_le.mp upper.1
    have high : c.toNat ≤ 90 := UInt8.le_iff_toNat_le.mp upper.2
    have sum := congrArg UInt8.toNat zero
    rw [UInt8.toNat_add] at sum
    change (c.toNat + 32) % 2 ^ 8 = 0 at sum
    omega
  · exact nonzero

theorem strip_loop_spec (before value after : List UInt8) (rounds : Nat) (enough : value.length < rounds) :
    stripLoop (before ++ (value ++ 0 :: after)) rounds
        ⟨before.length, some (before.length + value.length : Nat), value.length⟩ =
      .ok ⟨before.length + (value.takeWhile isspace).length, some (before.length + value.length : Nat),
        (value.dropWhile isspace).length⟩ := by
  induction value generalizing before rounds with
  | nil =>
      obtain ⟨rounds, rfl⟩ := Nat.exists_eq_succ_of_ne_zero (by omega : rounds ≠ 0)
      have loaded : load (before ++ ([] ++ 0 :: after)) (before.length : Int) = .ok 0 := load_append before after 0 _ rfl
      simp only [stripLoop, loaded, bind, Except.bind]
      rfl
  | cons c value ih =>
      obtain ⟨rounds, rfl⟩ := Nat.exists_eq_succ_of_ne_zero (by omega : rounds ≠ 0)
      have loaded : load (before ++ (c :: value ++ 0 :: after)) (before.length : Int) = .ok c :=
        load_append before (value ++ 0 :: after) c _ rfl
      simp only [stripLoop, loaded, bind, Except.bind]
      by_cases blank : isspace c = true
      · have inside : some ((before.length + (c :: value).length : Nat) : Int) ≠ some (before.length : Int) := by
          simp only [List.length_cons, ne_eq, Option.some.injEq]
          omega
        have next := ih (before ++ [c]) rounds (by simp only [List.length_cons] at enough; omega)
        have size : ((c :: value).length : Int) - 1 = value.length := by simp
        have stop : before.length + (c :: value).length = before.length + 1 + value.length := by
          simp only [List.length_cons]
          omega
        have start : before.length + (c :: value.takeWhile isspace).length =
            before.length + 1 + (value.takeWhile isspace).length := by
          simp only [List.length_cons]
          omega
        rw [if_pos ⟨blank, inside⟩, List.takeWhile_cons_of_pos blank, List.dropWhile_cons_of_pos blank, size, stop, start]
        simpa using next
      · rw [if_neg (fun both => blank both.1), List.takeWhile_cons_of_neg blank, List.dropWhile_cons_of_neg blank]
        simp

theorem strip_head_spaces_spec (before value after : List UInt8) :
    stripHeadSpaces (before ++ (value ++ 0 :: after))
        ⟨before.length, some (before.length + value.length : Nat), value.length⟩ =
      .ok ⟨before.length + (value.takeWhile isspace).length, some (before.length + value.length : Nat),
        if value.dropWhile isspace = [] then -1 else (value.dropWhile isspace).length⟩ := by
  have parts := congrArg List.length (List.takeWhile_append_dropWhile (p := isspace) (l := value))
  rw [List.length_append] at parts
  have stripped := strip_loop_spec before value after ((before ++ (value ++ 0 :: after)).length + 1)
    (by simp only [List.length_append, List.length_cons]; omega)
  simp only [stripHeadSpaces, stripped, bind, Except.bind]
  by_cases empty : value.dropWhile isspace = []
  · rw [empty, List.length_nil] at parts
    rw [if_pos empty, if_pos (by congr 2; omega)]
  · have positive := List.length_pos_iff.mpr empty
    rw [if_neg empty, if_neg (by rw [Option.some.injEq]; omega)]

theorem stripped_dup (before value after : List UInt8) (clean : 0 ∉ value) (sv : StringView)
    (start : sv.start = before.length + (value.takeWhile isspace).length)
    (size : sv.size = if value.dropWhile isspace = [] then -1 else ((value.dropWhile isspace).length : Int)) :
    stringViewDup (before ++ (value ++ 0 :: after)) sv = .ok (value.dropWhile isspace) := by
  by_cases empty : value.dropWhile isspace = []
  · rw [if_pos empty] at size
    rw [stringViewDup, if_neg (by simp [size]), empty]
  · rw [if_neg empty] at size
    have split : before ++ (value ++ 0 :: after) =
        (before ++ value.takeWhile isspace) ++ (value.dropWhile isspace ++ 0 :: after) := by
      rw [List.append_assoc, ← List.append_assoc (value.takeWhile isspace), List.takeWhile_append_dropWhile]
    rw [split]
    exact string_view_dup_piece _ _ _ sv (fun member => clean (List.dropWhile_subset _ member)) (by simp [start]) size

theorem to_lower_case_spec (before text after : List UInt8) (clean : 0 ∉ text) :
    toLowerCase (before ++ (text ++ 0 :: after)) before.length = .ok (before ++ (text.map tolower ++ 0 :: after)) := by
  simp only [toLowerCase, cstr_at_append before text after _ rfl clean, bind, Except.bind]
  have rest : (before ++ (text ++ 0 :: after)).drop (before.length + text.length) = 0 :: after := by
    rw [← List.append_assoc, ← List.length_append, List.drop_left]
  rw [List.take_left, rest, List.append_assoc]

theorem header_cuts (before name value tail : List UInt8) :
    store (before ++ (name ++ chr ':' :: value ++ ascii "\r\n" ++ tail)) (before.length + (name.length : Int)) 0 =
        .ok (before ++ (name ++ 0 :: (value ++ chr '\r' :: chr '\n' :: tail))) ∧
      store (before ++ (name ++ 0 :: (value ++ chr '\r' :: chr '\n' :: tail)))
          (before.length + (name ++ chr ':' :: value).length : Nat) 0 =
        .ok (before ++ (name ++ 0 :: (value ++ 0 :: chr '\n' :: tail))) := by
  constructor
  · have done := store_append (before ++ name) (value ++ chr '\r' :: chr '\n' :: tail) (chr ':') 0
      (before.length + (name.length : Int)) (by simp)
    simpa [ascii] using done
  · have done := store_append (before ++ (name ++ 0 :: value)) (chr '\n' :: tail) (chr '\r') 0
      (before.length + (name ++ chr ':' :: value).length : Nat) (by simp)
    simpa using done

theorem header_pieces (before name value rest : List UInt8) (nameClean : 0 ∉ name) (valueClean : 0 ∉ value) (stop : Nat)
    (ends : stop = before.length + (name.length + 1 + value.length)) :
    ∃ sv, stripHeadSpaces (before ++ (name.map tolower ++ 0 :: (value ++ 0 :: rest)))
          ⟨before.length + name.length + 1, some stop, (stop : Int) - (before.length + name.length + 1 : Nat)⟩ = .ok sv ∧
      stringViewDup (before ++ (name.map tolower ++ 0 :: (value ++ 0 :: rest)))
          ⟨before.length, some (before.length + (name.length : Int)), name.length⟩ = .ok (name.map tolower) ∧
      stringViewDup (before ++ (name.map tolower ++ 0 :: (value ++ 0 :: rest))) sv = .ok (value.dropWhile isspace) := by
  have front : (before ++ (name.map tolower ++ [0])).length = before.length + name.length + 1 := by
    rw [List.length_append, List.length_append, List.length_map]
    rfl
  have shape : before ++ (name.map tolower ++ 0 :: (value ++ 0 :: rest)) =
      (before ++ (name.map tolower ++ [0])) ++ (value ++ 0 :: rest) := by simp
  have size : (stop : Int) - (before.length + name.length + 1 : Nat) = value.length := by omega
  have stopIs : stop = before.length + name.length + 1 + value.length := by omega
  have stripped := strip_head_spaces_spec (before ++ (name.map tolower ++ [0])) value rest
  rw [← shape, front, ← stopIs] at stripped
  refine ⟨_, by rw [size]; exact stripped, ?_, ?_⟩
  · exact string_view_dup_piece before (name.map tolower) _ _
      (by simpa using fun c member => to_lower_nonzero c fun zero => nameClean (zero ▸ member)) rfl (by simp)
  · rw [shape]
    exact stripped_dup (before ++ (name.map tolower ++ [0])) value rest valueClean _ (by rw [front]) rfl

theorem own_line_parts (name value : List UInt8) (noColon : chr ':' ∉ name) :
    ownLine (name ++ chr ':' :: value) = (name.map tolower, value.dropWhile isspace) := by
  have through : ∀ c ∈ name, decide (c ≠ chr ':') = true := fun c member => decide_eq_true fun same => noColon (same ▸ member)
  rw [ownLine, take_while_stop name value (chr ':') noColon, List.dropWhile_append_of_pos through,
    List.dropWhile_cons_of_neg (by simp), List.tail_cons]

theorem header_line_spec (before tail rest name value : List UInt8) (line : HeaderLine (name ++ chr ':' :: value))
    (noColon : chr ':' ∉ name) (clean : 0 ∉ lineText (name ++ chr ':' :: value) ++ tail) :
    headerLine (before ++ (lineText (name ++ chr ':' :: value) ++ tail ++ 0 :: rest)) before.length =
      .ok (some (before ++ (name.map tolower ++ 0 :: (value ++ 0 :: chr '\n' :: (tail ++ 0 :: rest))),
        ownLine (name ++ chr ':' :: value), before.length + (lineText (name ++ chr ':' :: value)).length)) := by
  have lineLength : (name ++ chr ':' :: value).length = name.length + 1 + value.length := by
    simp only [List.length_append, List.length_cons]
    omega
  have text := cstr_at_append before (lineText (name ++ chr ':' :: value) ++ tail) rest _ rfl clean
  simp only [lineText, List.mem_append, List.mem_cons, not_or] at clean
  have lineEnd := line_end_search (name ++ chr ':' :: value) tail line.single
  rw [if_pos line.searched] at lineEnd
  have colon : findFirstOf (name ++ chr ':' :: value ++ ascii "\r\n" ++ tail) (ascii ":") = .ok (some (name.length : Int)) := by
    have split : name ++ chr ':' :: value ++ ascii "\r\n" ++ tail = name ++ chr ':' :: (value ++ ascii "\r\n" ++ tail) := by simp
    rw [split]
    exact find_first_of_char_found name _ (chr ':') noColon
  obtain ⟨cutName, cutLine⟩ := header_cuts before name value (tail ++ 0 :: rest)
  have whole : before ++ (name ++ chr ':' :: value ++ ascii "\r\n" ++ (tail ++ 0 :: rest)) =
      before ++ (name ++ chr ':' :: value ++ ascii "\r\n" ++ tail ++ 0 :: rest) := by simp
  rw [whole] at cutName
  have stopIs : (before.length : Int) + (((name ++ chr ':' :: value).length : Int) - 1 + 1) =
      (before.length + (name ++ chr ':' :: value).length : Nat) := by omega
  have lowered := to_lower_case_spec before name (value ++ 0 :: chr '\n' :: (tail ++ 0 :: rest)) clean.1.1.1
  obtain ⟨sv, stripped, keyDup, valueDup⟩ := header_pieces before name value (chr '\n' :: (tail ++ 0 :: rest))
    clean.1.1.1 clean.1.1.2.2 (before.length + (name ++ chr ':' :: value).length) (by rw [lineLength])
  rw [lineText] at text ⊢
  simp only [headerLine, stringViewCtor, text, lineEnd, bind, Except.bind, colon, cutName, stopIs, cutLine, lowered]
  rw [if_neg (by omega)]
  simp only [Int.toNat_natCast, stripped, keyDup, valueDup, own_line_parts name value noColon, Except.ok.injEq,
    Option.some.injEq, Prod.mk.injEq, true_and]
  have total : (name ++ chr ':' :: value ++ ascii "\r\n").length = (name ++ chr ':' :: value).length + 2 := List.length_append
  rw [total]
  omega

theorem header_loop_end (before body rest : List UInt8) (rounds : Nat) (h : Header) (clean : 0 ∉ body) :
    headerLoop (rounds + 1) (before ++ (ascii "\r\n" ++ body ++ 0 :: rest)) before.length h =
      .ok (h, before ++ (ascii "\r\n" ++ body ++ 0 :: rest), before.length) := by
  have loaded : load (before ++ (ascii "\r\n" ++ body ++ 0 :: rest)) (before.length : Int) = .ok (chr '\r') :=
    load_append before (chr '\n' :: (body ++ 0 :: rest)) (chr '\r') _ rfl
  have text := cstr_at_append before (ascii "\r\n" ++ body) rest _ rfl
    (by simp only [List.mem_append, not_or]; exact ⟨by decide, clean⟩)
  have found : findFirstOf (ascii "\r\n" ++ body) (ascii "\r\n") = .ok (some (-1)) :=
    line_end_search [] body (by decide)
  simp only [headerLoop, loaded, headerLine, stringViewCtor, text, found, bind, Except.bind]
  rfl

-- A colon behind the line leaves a value of negative size.
theorem strip_loop_past (o : Object) (stop : Int) (rounds : Nat) (sv stripped : StringView) (ends : sv.stop = some stop)
    (past : stop < sv.start) (ran : stripLoop o rounds sv = .ok stripped) :
    stripped.stop = some stop ∧ stop < stripped.start ∧ stripped.size ≤ sv.size := by
  induction rounds generalizing sv with
  | zero => cases ran
  | succ rounds ih =>
      rw [stripLoop] at ran
      obtain ⟨c, _, ran⟩ := (except_bind_ok _ _ _).mp ran
      split at ran
      · obtain ⟨sameStop, later, smaller⟩ := ih { sv with start := sv.start + 1, size := sv.size - 1 } ends
          (by simp only; omega) ran
        exact ⟨sameStop, later, by simp only at smaller; omega⟩
      · cases ran
        exact ⟨ends, past, Int.le_refl _⟩

theorem strip_head_spaces_past (o : Object) (stop : Int) (sv stripped : StringView) (ends : sv.stop = some stop)
    (past : stop < sv.start) (ran : stripHeadSpaces o sv = .ok stripped) : stripped.size ≤ sv.size := by
  rw [stripHeadSpaces] at ran
  obtain ⟨last, ran, done⟩ := (except_bind_ok _ _ _).mp ran
  obtain ⟨sameStop, later, smaller⟩ := strip_loop_past o stop _ sv last ends past ran
  rw [if_neg (by rw [sameStop, Option.some.injEq]; omega)] at done
  cases done
  exact smaller

theorem string_view_dup_negative (o : Object) (sv : StringView) (size : sv.size < -1) :
    stringViewDup o sv = .error .null := by
  rw [stringViewDup, if_pos (by omega), malloc, if_neg (by omega)]
  rfl

theorem line_end_split (text : List UInt8) (t : Nat) (first : FirstAt (ascii "\r\n") text t) :
    ∃ tail, text = lineText (text.take t) ++ tail ∧ ¬ ascii "\r\n" <:+: text.take t :=
  first_at_split (ascii "\r\n") text t (by decide) first

theorem line_end_low : ∀ c ∈ ascii "\r\n", c.toNat < 128 := by decide +kernel

theorem header_line_steps (o : Object) (buf : Nat) (result : Option (Object × (List UInt8 × List UInt8) × Nat))
    (ran : headerLine o buf = .ok result) : ∃ line, stringViewCtor o buf (ascii "\r\n") = .ok line ∧
      (line.size = 0 ∨ ∃ text seperator stop cut value copy, cstrAt o buf = .ok text ∧
        findFirstOf text (ascii ":") = .ok (some seperator) ∧ line.stop = some stop ∧
        stripHeadSpaces cut ⟨buf + seperator.toNat + 1, some stop, stop - (buf + seperator.toNat + 1 : Nat)⟩ = .ok value ∧
        stringViewDup cut value = .ok copy) := by
  rw [headerLine] at ran
  obtain ⟨line, viewed, ran⟩ := (except_bind_ok _ _ _).mp ran
  refine ⟨line, viewed, ?_⟩
  split at ran
  · rename_i empty
    exact .inl empty
  · obtain ⟨text, read, ran⟩ := (except_bind_ok _ _ _).mp ran
    obtain ⟨colon, found, ran⟩ := (except_bind_ok _ _ _).mp ran
    cases colon with
    | none => cases ran
    | some seperator =>
        obtain ⟨cutName, _, ran⟩ := (except_bind_ok _ _ _).mp ran
        cases ends : line.stop with
        | none =>
            rw [ends] at ran
            cases ran
        | some stop =>
            rw [ends] at ran
            obtain ⟨cutLine, _, ran⟩ := (except_bind_ok _ _ _).mp ran
            obtain ⟨cut, _, ran⟩ := (except_bind_ok _ _ _).mp ran
            obtain ⟨value, stripped, ran⟩ := (except_bind_ok _ _ _).mp ran
            obtain ⟨key, _, ran⟩ := (except_bind_ok _ _ _).mp ran
            obtain ⟨copy, copied, _⟩ := (except_bind_ok _ _ _).mp ran
            exact .inr ⟨text, seperator, stop, cut, value, copy, read, found, rfl, stripped, copied⟩

theorem line_view (o : Object) (buf : Nat) (text : List UInt8) (line : StringView) (read : cstrAt o buf = .ok text)
    (viewed : stringViewCtor o buf (ascii "\r\n") = .ok line) : (line.stop = none ∧ line.size ≠ 0) ∨
      ∃ t, line = ⟨buf, some (buf + t : Nat), t⟩ ∧ FirstAt (ascii "\r\n") text t ∧
        findFirstOf text (ascii "\r\n") = .ok (some ((t : Int) - 1)) := by
  have ends := find_first_of_ends text (ascii "\r\n") (by decide) (by decide) line_end_low
  rw [stringViewCtor, read] at viewed
  obtain ⟨_, same, viewed⟩ := (except_bind_ok _ _ _).mp viewed
  cases same
  obtain ⟨found, searchEnds, viewed⟩ := (except_bind_ok _ _ _).mp viewed
  rw [searchEnds] at ends ⊢
  cases ends with
  | absent nowhere =>
      cases viewed
      exact .inl ⟨rfl, fun size => absurd size (by decide : (-1 : Int) ≠ 0)⟩
  | found t _ occurs first =>
      cases viewed
      refine .inr ⟨t, ?_, ⟨occurs, fun k => first k (Nat.zero_le k)⟩, rfl⟩
      rw [Int.sub_add_cancel]
      rfl

theorem header_line_inv (before text rest : List UInt8) (result : Option (Object × (List UInt8 × List UInt8) × Nat))
    (clean : 0 ∉ text) (ran : headerLine (before ++ (text ++ 0 :: rest)) before.length = .ok result) :
    (∃ tail, text = ascii "\r\n" ++ tail) ∨ ∃ name value tail, text = lineText (name ++ chr ':' :: value) ++ tail ∧
      chr ':' ∉ name ∧ HeaderLine (name ++ chr ':' :: value) := by
  have whole := cstr_at_append before text rest _ rfl clean
  obtain ⟨line, viewed, steps⟩ := header_line_steps _ _ _ ran
  rcases line_view _ _ text line whole viewed with ⟨noStop, noSize⟩ | ⟨t, rfl, first, found⟩
  · rcases steps with empty | ⟨_, _, stop, _, _, _, _, _, ends, _⟩
    · exact absurd empty noSize
    · rw [noStop] at ends
      cases ends
  obtain ⟨tail, split, single⟩ := line_end_split text t first
  rcases steps with empty | ⟨_, seperator, stop, cut, value, copy, read, colon, ends, stripped, copied⟩
  · have start : t = 0 := by simpa using empty
    rw [start] at split
    exact .inl ⟨tail, split⟩
  rw [whole] at read
  cases read
  cases ends
  obtain ⟨sep, index, rfl⟩ : ∃ sep, text.idxOf? (chr ':') = some sep ∧ Int.ofNat sep = seperator := by
    have char := (find_first_of_char text (chr ':')).symm.trans colon
    exact Option.map_eq_some_iff.mp (Except.ok.inj char)
  by_cases own : chr ':' ∈ text.take t
  · obtain ⟨name, value, parts, noColon⟩ := List.eq_append_cons_of_mem own
    refine .inr ⟨name, value, tail, by rw [← parts]; exact split, noColon, ?_⟩
    rw [← parts]
    refine ⟨own, single, ?_⟩
    have search := line_end_search (text.take t) tail single
    rw [← lineText, ← split, found] at search
    split at search
    · assumption
    · cases search
  · exfalso
    -- The colon lies behind the line end, and the value has a negative size.
    have inside : t + 2 ≤ text.length := occurs_bound (ascii "\r\n") text t (by decide) first.occurs
    have behind : t + 2 ≤ sep := by
      by_contra early
      obtain ⟨bound, here, _⟩ := List.idxOf?_eq_some_iff.mp index
      have seen : text[sep]? = some (chr ':') := by rw [List.getElem?_eq_getElem bound, here]
      have length : (lineText (text.take t)).length = t + 2 := by
        rw [lineText, List.length_append, List.length_take_of_le (by omega)]
        rfl
      rw [split, List.getElem?_append_left (by omega)] at seen
      rcases List.mem_append.mp (List.mem_of_getElem? seen) with inLine | inEnd
      · exact own inLine
      · exact absurd inEnd (by decide)
    have size : value.size ≤ -3 := by
      have smaller := strip_head_spaces_past cut _ _ value rfl (by simp only [Int.ofNat_eq_natCast]; omega) stripped
      simp only [Int.ofNat_eq_natCast] at smaller
      omega
    rw [string_view_dup_negative cut value (by omega)] at copied
    cases copied

theorem crlf_lines_cons (line tail : List UInt8) (single : ¬ ascii "\r\n" <:+: line) :
    crlfLines (line ++ ascii "\r\n" ++ tail) = line :: crlfLines tail := by
  induction line with
  | nil => exact if_pos ⟨rfl, rfl⟩
  | cons a line ih =>
      have later := ih fun inside => single (List.infix_cons inside)
      cases line with
      | nil =>
          change (if a = chr '\r' ∧ chr '\r' = chr '\n' then _ else _) = _
          rw [if_neg fun both => absurd both.2 (by decide)]
          exact congrArg (List.modifyHead fun line => a :: line) later
      | cons b line =>
          have apart : ¬ (a = chr '\r' ∧ b = chr '\n') := fun both =>
            single ((crlf_infix_cons a b line).mpr (.inl both))
          change (if a = chr '\r' ∧ b = chr '\n' then _ else _) = _
          rw [if_neg apart]
          exact congrArg (List.modifyHead fun line => a :: line) later

theorem crlf_lines_block (lines : List (List UInt8)) (tail : List UInt8) (good : ∀ line ∈ lines, HeaderLine line) :
    crlfLines (lines.flatMap lineText ++ tail) = lines ++ crlfLines tail := by
  induction lines with
  | nil => rfl
  | cons line lines ih =>
      have here := (good line List.mem_cons_self).single
      rw [List.flatMap_cons, List.append_assoc, lineText, crlf_lines_cons line _ here,
        ih fun line member => good line (List.mem_cons_of_mem _ member), List.cons_append]

theorem header_loop_step (o cut : Object) (buf next rounds : Nat) (c : UInt8) (h : Header) (entry : List UInt8 × List UInt8)
    (loaded : load o buf = .ok c) (nonzero : c ≠ 0) (stepped : headerLine o buf = .ok (some (cut, entry, next))) :
    headerLoop (rounds + 1) o buf h = headerLoop rounds cut next (h ++ [entry]) := by
  rw [headerLoop, loaded]
  simp only [bind, Except.bind, if_neg nonzero, stepped]

theorem cut_line_length (before name value : List UInt8) :
    (before ++ (name.map tolower ++ 0 :: (value ++ [0, chr '\n']))).length =
      before.length + (lineText (name ++ chr ':' :: value)).length := by
  simp only [lineText, List.length_append, List.length_map, List.length_cons, List.length_nil]
  change _ = before.length + (name.length + (value.length + 1) + 2)
  omega

theorem header_loop_lines (lines : List (List UInt8)) (before tail rest : List UInt8) (h : Header) (rounds : Nat)
    (good : ∀ line ∈ lines, HeaderLine line) (clean : 0 ∉ lines.flatMap lineText ++ (ascii "\r\n" ++ tail))
    (enough : lines.length < rounds) :
    ∃ done, done.length = before.length + (lines.flatMap lineText).length ∧
      headerLoop rounds (before ++ (lines.flatMap lineText ++ (ascii "\r\n" ++ tail) ++ 0 :: rest)) before.length h =
        .ok (h ++ lines.map ownLine, done ++ (ascii "\r\n" ++ tail ++ 0 :: rest), done.length) := by
  obtain ⟨rounds, rfl⟩ := Nat.exists_eq_succ_of_ne_zero (by omega : rounds ≠ 0)
  induction lines generalizing before h rounds with
  | nil =>
      have tailClean : 0 ∉ tail := fun member => clean (List.mem_append_right _ (List.mem_append_right _ member))
      exact ⟨before, rfl, by simpa using header_loop_end before tail rest rounds h tailClean⟩
  | cons line lines ih =>
      obtain ⟨rounds, rfl⟩ := Nat.exists_eq_succ_of_ne_zero (by rw [List.length_cons] at enough; omega : rounds ≠ 0)
      have here := good line List.mem_cons_self
      obtain ⟨name, value, parts, noColon⟩ := List.eq_append_cons_of_mem here.colon
      subst parts
      let more := lines.flatMap lineText ++ (ascii "\r\n" ++ tail)
      rw [List.flatMap_cons, List.append_assoc] at clean
      have moreClean : 0 ∉ more := fun member => clean (List.mem_append_right _ member)
      let next := before ++ (name.map tolower ++ 0 :: (value ++ [0, chr '\n']))
      have nextLength := cut_line_length before name value
      have stepped := header_line_spec before more rest name value here noColon clean
      have after : before ++ (name.map tolower ++ 0 :: (value ++ 0 :: chr '\n' :: (more ++ 0 :: rest))) =
          next ++ (more ++ 0 :: rest) := by simp [next]
      obtain ⟨c, text, same⟩ : ∃ c text, lineText (name ++ chr ':' :: value) ++ more = c :: text :=
        List.exists_cons_of_ne_nil (by simp [lineText])
      have nonzero : c ≠ 0 := by
        rintro rfl
        exact clean (by rw [same]; exact List.mem_cons_self)
      have loaded : load (before ++ (lineText (name ++ chr ':' :: value) ++ more ++ 0 :: rest)) before.length = .ok c := by
        rw [same]
        exact load_append before (text ++ 0 :: rest) c _ rfl
      obtain ⟨done, length, ran⟩ := ih next (h ++ [ownLine (name ++ chr ':' :: value)])
        (fun line member => good line (List.mem_cons_of_mem _ member)) moreClean rounds
        (by rw [List.length_cons] at enough; omega)
      refine ⟨done, ?_, ?_⟩
      · rw [length, nextLength, List.flatMap_cons, List.length_append, Nat.add_assoc]
      · rw [after, ← nextLength] at stepped
        rw [List.append_assoc h] at ran
        rw [List.flatMap_cons, List.append_assoc (lineText _)]
        exact (header_loop_step _ _ _ _ _ c h _ loaded nonzero stepped).trans ran

theorem header_loop_inv (rounds : Nat) (before text rest : List UInt8) (h last : Header) (o : Object) (buf : Nat)
    (clean : 0 ∉ text) (ran : headerLoop rounds (before ++ (text ++ 0 :: rest)) before.length h = .ok (last, o, buf)) :
    ∃ lines tail, text = List.flatMap lineText lines ++ tail ∧ (∀ line ∈ lines, HeaderLine line) ∧
      buf = before.length + (List.flatMap lineText lines).length ∧ (tail = [] ∨ ∃ more, tail = ascii "\r\n" ++ more) := by
  induction rounds generalizing before text h with
  | zero => cases ran
  | succ rounds ih =>
      cases text with
      | nil =>
          have loaded : load (before ++ ([] ++ 0 :: rest)) (before.length : Int) = .ok 0 := load_append before rest 0 _ rfl
          simp only [headerLoop, loaded, bind, Except.bind, if_true] at ran
          cases ran
          exact ⟨[], [], rfl, by simp, rfl, .inl rfl⟩
      | cons c text =>
          have loaded : load (before ++ (c :: text ++ 0 :: rest)) (before.length : Int) = .ok c :=
            load_append before (text ++ 0 :: rest) c _ rfl
          have nonzero : c ≠ 0 := by
            rintro rfl
            exact clean List.mem_cons_self
          cases stepped : headerLine (before ++ (c :: text ++ 0 :: rest)) before.length with
          | error fault =>
              simp only [headerLoop, loaded, bind, Except.bind, if_neg nonzero, stepped] at ran
              cases ran
          | ok result =>
              rcases header_line_inv before (c :: text) rest result clean stepped with
                ⟨tail, split⟩ | ⟨name, value, tail, split, noColon, good⟩
              · rw [split] at ran clean ⊢
                have tailClean : 0 ∉ tail := fun member => clean (List.mem_append_right _ member)
                rw [header_loop_end before tail rest rounds h tailClean] at ran
                cases ran
                exact ⟨[], ascii "\r\n" ++ tail, rfl, by simp, rfl, .inr ⟨tail, rfl⟩⟩
              · rw [split] at loaded ran clean ⊢
                have tailClean : 0 ∉ tail := fun member => clean (List.mem_append_right _ member)
                -- The line as it is left, in front of the next round.
                let next := before ++ (name.map tolower ++ 0 :: (value ++ [0, chr '\n']))
                have nextLength := cut_line_length before name value
                have stepped := header_line_spec before tail rest name value good noColon clean
                have after : before ++ (name.map tolower ++ 0 :: (value ++ 0 :: chr '\n' :: (tail ++ 0 :: rest))) =
                    next ++ (tail ++ 0 :: rest) := by simp [next]
                rw [after, ← nextLength] at stepped
                rw [header_loop_step _ _ _ _ _ c h _ loaded nonzero stepped] at ran
                obtain ⟨lines, last, split, goods, place, ends⟩ := ih next tail _ tailClean ran
                refine ⟨(name ++ chr ':' :: value) :: lines, last, ?_, ?_, ?_, ends⟩
                · rw [List.flatMap_cons, List.append_assoc, ← split]
                · exact List.forall_mem_cons.mpr ⟨good, goods⟩
                · rw [place, nextLength, List.flatMap_cons, List.length_append, Nat.add_assoc]

theorem line_count (lines : List (List UInt8)) : lines.length ≤ (lines.flatMap lineText).length := by
  induction lines with
  | nil => exact Nat.le_refl 0
  | cons line lines ih =>
      have positive : 0 < (lineText line).length := by
        rw [lineText, List.length_append]
        exact Nat.lt_of_lt_of_le (by decide : 0 < (ascii "\r\n").length) (Nat.le_add_left _ _)
      rw [List.flatMap_cons, List.length_append, List.length_cons]
      omega

theorem header_parser_lines (lines : List (List UInt8)) (before tail rest : List UInt8)
    (good : ∀ line ∈ lines, HeaderLine line) (clean : 0 ∉ lines.flatMap lineText ++ (ascii "\r\n" ++ tail)) :
    ∃ o, headerParser (before ++ (lines.flatMap lineText ++ (ascii "\r\n" ++ tail) ++ 0 :: rest)) before.length =
      .ok (lines.map ownLine, o, before.length + (lines.flatMap lineText).length + 2) := by
  obtain ⟨done, length, ran⟩ := header_loop_lines lines before tail rest []
    ((before ++ (lines.flatMap lineText ++ (ascii "\r\n" ++ tail) ++ 0 :: rest)).length + 1) good clean (by
      have count := line_count lines
      simp only [List.length_append]
      omega)
  refine ⟨done ++ (ascii "\r\n" ++ tail ++ 0 :: rest), ?_⟩
  rw [headerParser, ran, length]
  rfl

-- Anything else is written through the pointer of a colon or a line end that is
-- not there, copied with a size below zero, searched with an index below zero,
-- or passed by two bytes.
theorem headers_robust_iff (before text rest : List UInt8) (clean : 0 ∉ text) :
    HeadersRobust before text rest ↔ HeaderBlock text := by
  constructor
  · rintro ⟨h, o, offset, parsed, _, bound⟩
    rw [headerParser] at parsed
    obtain ⟨⟨last, cut, buf⟩, ran, done⟩ := (except_bind_ok _ _ _).mp parsed
    cases done
    obtain ⟨lines, tail, split, good, place, ends⟩ := header_loop_inv _ before text rest [] _ _ _ clean ran
    rcases ends with rfl | ⟨more, rfl⟩
    · rw [List.append_nil] at split
      rw [split, place] at bound
      omega
    · exact ⟨lines, more, split, good⟩
  · rintro ⟨lines, tail, rfl, good⟩
    obtain ⟨o, parsed⟩ := header_parser_lines lines before tail rest good clean
    refine ⟨_, o, _, parsed, ?_, ?_⟩
    · rw [crlf_lines_block lines _ good, List.map_append]
      exact List.sublist_append_left _ _
    · rw [List.length_append, List.length_append, Nat.add_assoc]
      exact Nat.add_le_add_left (Nat.add_le_add_left (Nat.le_add_right 2 tail.length) _) _

theorem headers_robust_host : HeadersRobust (ascii "GET / HTTP/1.1\r\n") (ascii "Host: a\r\n\r\n") [] ↔
    HeaderBlock (ascii "Host: a\r\n\r\n") :=
  headers_robust_iff (ascii "GET / HTTP/1.1\r\n") (ascii "Host: a\r\n\r\n") [] (by decide)

theorem headers_not_robust : (∀ o, headerParser (ascii "a\r\n\r\n" ++ [0]) 0 ≠ .ok o) ∧
    headerParser (ascii "a:b" ++ [0]) 0 = .error .null ∧ headerParser [0] 0 = .ok ([], [0], 2) ∧
    ¬ HeadersRobust [] (ascii "a\r\n\r\n") [] := by
  have fault : headerParser (ascii "a\r\n\r\n" ++ [0]) 0 = .error .null := by decide +kernel
  refine ⟨?_, by decide +kernel, by decide +kernel, ?_⟩
  · intro o done
    rw [fault] at done
    cases done
  · rintro ⟨h, o, offset, done, _⟩
    exact absurd (fault.symm.trans done) (by simp)

end Facebooc
