import Facebooc.Header
import Facebooc.Runs

set_option autoImplicit false

namespace Facebooc

open CMemory Runs

def entryText (entry : List UInt8 × List UInt8) : List UInt8 := entry.1 ++ ascii ": " ++ entry.2 ++ ascii "\r\n"

-- The bytes behind the old ones are not set; a size of zero frees the array.
def realloc (o : Object) (size : Nat) : Object := o.take size ++ List.replicate (size - o.length) 0

-- snprintf into an array from an index on, with the length of the text and its
-- NUL as the bound.
def printAt (o : Object) (index : Int) (text : List UInt8) : Except Fault Object :=
  if 0 ≤ index ∧ index + text.length + 1 ≤ o.length then
    .ok (o.take index.toNat ++ (text ++ 0 :: o.drop (index.toNat + text.length + 1)))
  else .error .bounds

-- src/http/header.c. RESP_SIZE is an unsigned int and index an int; their
-- comparison is one of size_t.
def headerStringLoop : Header → UInt32 → Object → Int → Except Fault (UInt32 × Object)
  | [], respSize, sbuf, _ => .ok (respSize, sbuf)
  | entry :: h, respSize, sbuf, index => do
      let entryLen := entry.1.length + entry.2.length + 5
      let grow := respSize.toNat < ((entryLen : Int) + index) % 2 ^ 64
      let respSize := if grow then respSize <<< 1 else respSize
      let sbuf := if grow then realloc sbuf respSize.toNat else sbuf
      let sbuf ← printAt sbuf index (entryText entry)
      headerStringLoop h respSize sbuf (Int.bmod (index + (entryLen - 1)) (2 ^ 32))

-- An empty list makes no text.
def headerToString (respSize : UInt32) (h : Header) : Except Fault (UInt32 × Option Object) :=
  if h = [] then .ok (respSize, none)
  else do
    let (respSize, sbuf) ← headerStringLoop h respSize (List.replicate respSize.toNat 0) 0
    .ok (respSize, some sbuf)

-- What a call leaves in RESP_SIZE for the next.
def respNext (respSize : UInt32) (h : Header) : UInt32 :=
  match headerToString respSize h with
  | .error _ => respSize
  | .ok (respSize, _) => respSize

def CallExact (respSize : UInt32) (h : Header) : Prop :=
  ∃ next sbuf, headerToString respSize h = .ok (next, some sbuf) ∧ cstrAt sbuf 0 = .ok (h.flatMap entryText)

-- One doubling is enough for an entry, and it does not come to 2^32.
def Room (respSize need : Nat) : Prop := need ≤ respSize ∨ need ≤ 2 * respSize ∧ 2 * respSize < 2 ^ 32

def EntriesFit : Nat → Nat → Header → Prop
  | _, _, [] => True
  | respSize, index, entry :: h =>
      let need := index + (entryText entry).length + 1
      Room respSize need ∧
        EntriesFit (if need ≤ respSize then respSize else 2 * respSize) (index + (entryText entry).length) h

-- The sizes RESP_SIZE takes as long as it does not wrap around.
def Doubled (respSize : Nat) : Prop := ∃ k ≤ 20, respSize = 2 ^ (11 + k)

theorem doubled_small (respSize : Nat) (doubled : Doubled respSize) : respSize ≤ 2 ^ 31 := by
  obtain ⟨k, bound, same⟩ := doubled
  rw [same]
  exact Nat.pow_le_pow_right (by decide) (by omega)

theorem doubled_next (respSize : Nat) (doubled : Doubled respSize) (short : 2 * respSize < 2 ^ 32) :
    Doubled (2 * respSize) := by
  obtain ⟨k, bound, same⟩ := doubled
  refine ⟨k + 1, ?_, ?_⟩
  · by_contra last
    have k_last : k = 20 := by omega
    rw [same, k_last] at short
    exact absurd short (by decide)
  · rw [same, ← Nat.add_assoc, Nat.pow_succ]
    omega

theorem entry_text_length (entry : List UInt8 × List UInt8) :
    (entryText entry).length = entry.1.length + entry.2.length + 4 := by
  have colon : (ascii ": ").length = 2 := rfl
  have ended : (ascii "\r\n").length = 2 := rfl
  simp only [entryText, List.length_append, colon, ended]
  omega

theorem shift_one (respSize : UInt32) : (respSize <<< 1).toNat = 2 * respSize.toNat % 2 ^ 32 := by
  rw [UInt32.toNat_shiftLeft]
  change respSize.toNat <<< 1 % 2 ^ 32 = _
  rw [Nat.shiftLeft_eq, Nat.mul_comm]

theorem realloc_length (o : Object) (size : Nat) : (realloc o size).length = size := by
  rw [realloc, List.length_append, List.length_take, List.length_replicate]
  omega

theorem realloc_longer (o : Object) (size : Nat) (longer : o.length ≤ size) :
    realloc o size = o ++ List.replicate (size - o.length) 0 := by
  rw [realloc, List.take_of_length_le longer]

theorem print_at_next (done junk text : List UInt8) (index : Int) (here : index = done.length)
    (room : text.length + 1 ≤ junk.length) :
    printAt (done ++ junk) index text = .ok (done ++ text ++ 0 :: junk.drop (text.length + 1)) := by
  subst here
  rw [printAt, if_pos (by rw [List.length_append]; omega), Int.toNat_natCast, List.take_left, Nat.add_assoc,
    List.drop_append, List.append_assoc]
  simp

theorem print_at_short (o : Object) (index : Nat) (text : List UInt8) (short : o.length < index + text.length + 1) :
    printAt o index text = .error .bounds := by
  rw [printAt, if_neg (by omega)]

-- The size and the array in which an entry is printed.
def grownSize (respSize : UInt32) (need : Nat) : UInt32 := if respSize.toNat < need % 2 ^ 64 then respSize <<< 1 else respSize

def grownArray (respSize : UInt32) (sbuf : Object) (need : Nat) : Object :=
  if respSize.toNat < need % 2 ^ 64 then realloc sbuf (grownSize respSize need).toNat else sbuf

theorem header_string_cons (entry : List UInt8 × List UInt8) (h : Header) (respSize : UInt32) (sbuf : Object) (index : Nat) :
    headerStringLoop (entry :: h) respSize sbuf index =
      (printAt (grownArray respSize sbuf (index + (entryText entry).length + 1)) index (entryText entry)).bind fun sbuf =>
        headerStringLoop h (grownSize respSize (index + (entryText entry).length + 1)) sbuf
          (Int.bmod ((index + (entryText entry).length : Nat) : Int) (2 ^ 32)) := by
  have text := entry_text_length entry
  have need : (((entry.1.length + entry.2.length + 5 : Nat) : Int) + index) % 2 ^ 64 =
      (((index + (entryText entry).length + 1) % 2 ^ 64 : Nat) : Int) := by omega
  have moved : (index : Int) + (((entry.1.length + entry.2.length + 5 : Nat) : Int) - 1) =
      ((index + (entryText entry).length : Nat) : Int) := by omega
  rw [headerStringLoop]
  simp only [need, moved, Int.ofNat_lt, grownArray, grownSize]
  by_cases grow : respSize.toNat < (index + (entryText entry).length + 1) % 2 ^ 64
  · simp only [if_pos grow]
    rfl
  · simp only [if_neg grow]
    rfl

theorem grown_room (respSize : UInt32) (done junk : List UInt8) (need : Nat) (doubled : Doubled respSize.toNat)
    (length : (done ++ junk).length = respSize.toNat) (room : Room respSize.toNat need) :
    Doubled (grownSize respSize need).toNat ∧ need ≤ (grownSize respSize need).toNat ∧
      (grownSize respSize need).toNat = (if need ≤ respSize.toNat then respSize.toNat else 2 * respSize.toNat) ∧
      ∃ spare, grownArray respSize (done ++ junk) need = done ++ spare ∧
        (done ++ spare).length = (grownSize respSize need).toNat := by
  have small := doubled_small _ doubled
  rw [grownArray]
  by_cases fits : need ≤ respSize.toNat
  · have stays : ¬ respSize.toNat < need % 2 ^ 64 := by omega
    rw [grownSize, if_neg stays, if_pos fits, if_neg stays]
    exact ⟨doubled, fits, rfl, junk, rfl, length⟩
  · obtain ⟨enough, short⟩ := room.resolve_left fits
    have grows : respSize.toNat < need % 2 ^ 64 := by omega
    have twice : (respSize <<< 1).toNat = 2 * respSize.toNat := by rw [shift_one, Nat.mod_eq_of_lt short]
    rw [grownSize, if_pos grows, twice, if_neg fits, if_pos grows]
    have longer := realloc_longer (done ++ junk) (2 * respSize.toNat) (by omega)
    refine ⟨doubled_next _ doubled short, enough, rfl, _, longer.trans (List.append_assoc _ _ _), ?_⟩
    rw [← List.append_assoc, ← longer, realloc_length]

theorem grown_no_room (respSize : UInt32) (sbuf : Object) (need : Nat) (doubled : Doubled respSize.toNat)
    (length : sbuf.length = respSize.toNat) (noRoom : ¬ Room respSize.toNat need) :
    (grownArray respSize sbuf need).length < need := by
  have small := doubled_small _ doubled
  rw [Room, not_or] at noRoom
  rw [grownArray]
  split
  · rename_i grows
    rw [realloc_length, grownSize, if_pos grows, shift_one]
    omega
  · omega

-- An entry that has room is printed behind the text so far.
theorem header_string_step (entry : List UInt8 × List UInt8) (h : Header) (respSize : UInt32) (done junk : List UInt8)
    (doubled : Doubled respSize.toNat) (length : (done ++ junk).length = respSize.toNat)
    (room : Room respSize.toNat (done.length + (entryText entry).length + 1)) :
    ∃ grown spare, headerStringLoop (entry :: h) respSize (done ++ junk) done.length =
        headerStringLoop h grown ((done ++ entryText entry) ++ 0 :: spare) (done ++ entryText entry).length ∧
      Doubled grown.toNat ∧ ((done ++ entryText entry) ++ 0 :: spare).length = grown.toNat ∧
      grown.toNat = if done.length + (entryText entry).length + 1 ≤ respSize.toNat then respSize.toNat
        else 2 * respSize.toNat := by
  obtain ⟨next, enough, value, spare, array, size⟩ := grown_room respSize done junk _ doubled length room
  have small := doubled_small _ next
  have kept : Int.bmod ((done.length + (entryText entry).length : Nat) : Int) (2 ^ 32) =
      ((done ++ entryText entry).length : Nat) := by
    rw [List.length_append]
    exact Int.bmod_eq_of_le (by omega) (by omega)
  rw [List.length_append] at size
  have printed := print_at_next done spare (entryText entry) done.length rfl (by omega)
  refine ⟨_, spare.drop ((entryText entry).length + 1), ?_, next, ?_, value⟩
  · rw [header_string_cons, array, printed, kept]
    rfl
  · simp only [List.length_append, List.length_cons, List.length_drop]
    omega

theorem header_string_loop_fits (h : Header) (respSize : UInt32) (done junk : List UInt8)
    (doubled : Doubled respSize.toNat) (length : (done ++ junk).length = respSize.toNat)
    (fits : EntriesFit respSize.toNat done.length h) (stopped : h = [] → ∃ rest, junk = 0 :: rest) :
    ∃ next rest, headerStringLoop h respSize (done ++ junk) done.length =
      .ok (next, done ++ h.flatMap entryText ++ 0 :: rest) ∧ Doubled next.toNat := by
  induction h generalizing respSize done junk with
  | nil =>
      obtain ⟨rest, parts⟩ := stopped rfl
      subst parts
      exact ⟨respSize, rest, by simp [headerStringLoop], doubled⟩
  | cons entry h ih =>
      obtain ⟨room, more⟩ := fits
      obtain ⟨grown, spare, step, next, size, value⟩ := header_string_step entry h respSize done junk doubled length room
      rw [← value, ← List.length_append] at more
      obtain ⟨last, rest, ran, final⟩ := ih grown (done ++ entryText entry) (0 :: spare) next size more (fun _ => ⟨_, rfl⟩)
      refine ⟨last, rest, ?_, final⟩
      rw [step, ran, List.flatMap_cons, List.append_assoc done]

theorem header_string_loop_ok (h : Header) (respSize next : UInt32) (done junk : List UInt8) (sbuf : Object)
    (doubled : Doubled respSize.toNat) (length : (done ++ junk).length = respSize.toNat)
    (ran : headerStringLoop h respSize (done ++ junk) done.length = .ok (next, sbuf)) :
    EntriesFit respSize.toNat done.length h := by
  induction h generalizing respSize done junk with
  | nil => trivial
  | cons entry h ih =>
      by_cases room : Room respSize.toNat (done.length + (entryText entry).length + 1)
      · obtain ⟨grown, spare, step, doubledNext, size, value⟩ :=
          header_string_step entry h respSize done junk doubled length room
        have more := ih grown (done ++ entryText entry) (0 :: spare) doubledNext size (step ▸ ran)
        rw [value, List.length_append] at more
        exact ⟨room, more⟩
      · have short := grown_no_room respSize (done ++ junk) _ doubled length room
        rw [header_string_cons, print_at_short _ _ _ short] at ran
        cases ran

theorem entry_texts_clean (h : Header) (clean : ∀ entry ∈ h, 0 ∉ entry.1 ∧ 0 ∉ entry.2) : 0 ∉ h.flatMap entryText := by
  intro zero
  obtain ⟨entry, member, inside⟩ := List.mem_flatMap.mp zero
  have colon : 0 ∉ ascii ": " := by decide +kernel
  have ended : 0 ∉ ascii "\r\n" := by decide +kernel
  simp only [entryText, List.mem_append] at inside
  rcases inside with ((key | between) | value) | behind
  · exact (clean entry member).1 key
  · exact colon between
  · exact (clean entry member).2 value
  · exact ended behind

theorem header_to_string_fits (respSize : UInt32) (h : Header) (doubled : Doubled respSize.toNat) (nonempty : h ≠ [])
    (fits : EntriesFit respSize.toNat 0 h) :
    ∃ next rest, headerToString respSize h = .ok (next, some (h.flatMap entryText ++ 0 :: rest)) ∧ Doubled next.toNat := by
  obtain ⟨next, rest, ran, last⟩ := header_string_loop_fits h respSize [] (List.replicate respSize.toNat 0) doubled
    (by rw [List.nil_append, List.length_replicate]) fits (fun empty => absurd empty nonempty)
  simp only [List.nil_append, List.length_nil, Int.natCast_zero] at ran
  refine ⟨next, rest, ?_, last⟩
  rw [headerToString, if_neg nonempty, ran]
  rfl

theorem call_exact_iff (respSize : UInt32) (h : Header) (doubled : Doubled respSize.toNat) (nonempty : h ≠ [])
    (clean : ∀ entry ∈ h, 0 ∉ entry.1 ∧ 0 ∉ entry.2) : CallExact respSize h ↔ EntriesFit respSize.toNat 0 h := by
  constructor
  · intro exact
    obtain ⟨next, sbuf, ran, _⟩ := exact
    rw [headerToString, if_neg nonempty] at ran
    obtain ⟨⟨size, array⟩, looped, _⟩ := (except_bind_ok _ _ _).mp ran
    exact header_string_loop_ok h respSize size [] (List.replicate respSize.toNat 0) array doubled
      (by rw [List.nil_append, List.length_replicate]) looped
  · intro fits
    obtain ⟨next, rest, ran, _⟩ := header_to_string_fits respSize h doubled nonempty fits
    exact ⟨next, _, ran, cstr_at_start _ rest (entry_texts_clean h clean)⟩

theorem header_calls_from (calls : List Header) (respSize : UInt32) (doubled : Doubled respSize.toNat)
    (nonempty : ∀ h ∈ calls, h ≠ []) (clean : ∀ h ∈ calls, ∀ entry ∈ h, 0 ∉ entry.1 ∧ 0 ∉ entry.2) :
    Along respNext CallExact respSize calls ↔
      Along respNext (fun respSize h => EntriesFit respSize.toNat 0 h) respSize calls := by
  induction calls generalizing respSize with
  | nil => exact Iff.rfl
  | cons h calls ih =>
      rw [Along, Along, call_exact_iff respSize h doubled (nonempty h List.mem_cons_self) (clean h List.mem_cons_self)]
      apply and_congr_right
      intro fits
      obtain ⟨next, rest, ran, last⟩ := header_to_string_fits respSize h doubled (nonempty h List.mem_cons_self) fits
      have after : respNext respSize h = next := by rw [respNext, ran]
      rw [after]
      exact ih next last (fun other member => nonempty other (List.mem_cons_of_mem h member))
        (fun other member => clean other (List.mem_cons_of_mem h member))

-- Every call of a sequence is exact if and only if at each entry the text so far
-- fits RESP_SIZE or its double.
theorem header_calls_exact_iff (calls : List Header) (nonempty : ∀ h ∈ calls, h ≠ [])
    (clean : ∀ h ∈ calls, ∀ entry ∈ h, 0 ∉ entry.1 ∧ 0 ∉ entry.2) :
    Along respNext CallExact 2048 calls ↔
      Along respNext (fun respSize h => EntriesFit respSize.toNat 0 h) 2048 calls :=
  header_calls_from calls 2048 ⟨0, by decide, rfl⟩ nonempty clean

def longHeader : Header := [(ascii "k", List.replicate 2100 (chr 'v'))]

def locationHeader : Header := [(ascii "Location", ascii "/dashboard/")]

-- The first of the calls doubles RESP_SIZE for the second.
theorem header_calls_exact_location : Along respNext CallExact 2048 [longHeader, locationHeader] := by
  have key : (ascii "k").length = 1 := rfl
  have grows : EntriesFit (2048 : UInt32).toNat 0 longHeader := by
    have start : (2048 : UInt32).toNat = 2048 := rfl
    refine ⟨?_, trivial⟩
    rw [Room, entry_text_length, key, List.length_replicate, start]
    omega
  have clean : ∀ entry ∈ longHeader, 0 ∉ entry.1 ∧ 0 ∉ entry.2 := by
    intro entry inside
    have keyClean : 0 ∉ ascii "k" := by decide
    rw [List.mem_singleton.mp inside]
    exact ⟨keyClean, fun zero => absurd (List.eq_of_mem_replicate zero) (by decide)⟩
  obtain ⟨next, rest, ran, doubled⟩ := header_to_string_fits 2048 longHeader ⟨0, by decide, rfl⟩ (List.cons_ne_nil _ _) grows
  have after : respNext 2048 longHeader = next := by rw [respNext, ran]
  have fits : EntriesFit next.toNat 0 locationHeader := by
    obtain ⟨k, _, size⟩ := doubled
    have large : 2 ^ 11 ≤ next.toNat := by
      rw [size]
      exact Nat.pow_le_pow_right (by decide) (by omega)
    have text : (entryText (ascii "Location", ascii "/dashboard/")).length = 23 := rfl
    refine ⟨.inl ?_, trivial⟩
    rw [text]
    omega
  refine (header_calls_exact_iff [longHeader, locationHeader] ?_ ?_).mpr ⟨grows, ?_, trivial⟩
  · rw [List.forall_mem_cons, List.forall_mem_singleton]
    exact ⟨List.cons_ne_nil _ _, List.cons_ne_nil _ _⟩
  · rw [List.forall_mem_cons, List.forall_mem_singleton]
    exact ⟨clean, by decide +kernel⟩
  · rw [after]
    exact fits

-- An entry of 4097 bytes and its NUL does not fit into twice 2048.
theorem header_calls_exact_fails : ¬ ∀ calls : List Header, (∀ h ∈ calls, h ≠ []) →
    (∀ h ∈ calls, ∀ entry ∈ h, 0 ∉ entry.1 ∧ 0 ∉ entry.2) → Along respNext CallExact 2048 calls := by
  intro all
  obtain ⟨value, length, clean⟩ : ∃ value : List UInt8, value.length = 4092 ∧ 0 ∉ value :=
    ⟨List.replicate 4092 (chr 'v'), List.length_replicate,
      fun zero => absurd (List.eq_of_mem_replicate zero) (by decide)⟩
  have cleanEntry : ∀ entry ∈ [(ascii "k", value)], 0 ∉ entry.1 ∧ 0 ∉ entry.2 := by
    intro entry inside
    have keyClean : 0 ∉ ascii "k" := by decide
    rw [List.mem_singleton.mp inside]
    exact ⟨keyClean, clean⟩
  have exact := all [[(ascii "k", value)]]
    (by
      intro h member
      rw [List.mem_singleton.mp member]
      exact List.cons_ne_nil _ _)
    (by
      intro h member
      rw [List.mem_singleton.mp member]
      exact cleanEntry)
  obtain ⟨room, _⟩ := (call_exact_iff 2048 _ ⟨0, by decide, rfl⟩ (List.cons_ne_nil _ _) cleanEntry).mp exact.1
  have key : (ascii "k").length = 1 := rfl
  have size : (2048 : UInt32).toNat = 2048 := rfl
  rw [Room, entry_text_length, length, key, size] at room
  omega

end Facebooc
