import Facebooc.Base64Bijection
import Facebooc.DisplayForm
import Facebooc.HeaderString

set_option autoImplicit false

namespace Facebooc

open CMemory Runs

def memcpyInto (o : Object) (p : Nat) (src : Object) (n : Nat) : Except Fault Object :=
  if n ≤ src.length ∧ p + n ≤ o.length then .ok (o.take p ++ src.take n ++ o.drop (p + n)) else .error .bounds

-- src/basic_string.c with the arrays of the strings.
def basicStringNewAt : HeapString := ⟨[0], 0⟩

def basicStringInitAt (src : Option (List UInt8)) : HeapString :=
  match src with
  | none => basicStringNewAt
  | some src => ⟨src ++ [0], src.length⟩

def basicStringCombineAt (s1 s2 : HeapString) : Except Fault HeapString := do
  let size ← malloc (s1.size + s2.size + 1)
  let data ← memcpyInto (List.replicate size 0) 0 s1.data s1.size
  let data ← memcpyInto data s1.size s2.data s2.size
  let data ← store data (s1.size + s2.size) 0
  .ok ⟨data, s1.size + s2.size⟩

def stringAt (strings : List HeapString) (i : Nat) : Except Fault HeapString :=
  match strings[i]? with
  | none => .error .null
  | some str => .ok str

-- The two structs may be one, so every statement reads their fields anew.
def basicStringAppendAt (strings : List HeapString) (dst src : Nat) : Except Fault (List HeapString) := do
  let d ← stringAt strings dst
  let s ← stringAt strings src
  let strings := strings.set dst { d with data := realloc d.data (d.size + s.size + 1) }
  let d ← stringAt strings dst
  let s ← stringAt strings src
  let data ← memcpyInto d.data d.size s.data s.size
  let strings := strings.set dst { d with data := data }
  let d ← stringAt strings dst
  let s ← stringAt strings src
  let strings := strings.set dst { d with size := d.size + s.size }
  let d ← stringAt strings dst
  let data ← store d.data d.size 0
  .ok (strings.set dst { d with data := data })

-- The source is a string of its own; strncpy copies it without its NUL.
def basicStringAppendRawAt (dst : HeapString) (src : Option (List UInt8)) : Except Fault HeapString :=
  match src with
  | none => .ok dst
  | some src =>
      if src = [] then .ok dst
      else do
        let data ← memcpyInto (realloc dst.data (dst.size + src.length + 1)) dst.size src src.length
        let data ← store data (dst.size + src.length) 0
        .ok ⟨data, dst.size + src.length⟩

-- src/base64.c, base64_encode on an array of len bytes, with the NUL.
def base64EncodeAt (data : Object) (len : Nat) : Except Fault HeapString := do
  let out ← base64EncodeBuffer (data.take len) len
  .ok ⟨out.data ++ [0], out.size⟩

-- get_rand after ++counter, a static int.
def nextCounter (counter : Int) : Int := Int.bmod (counter + 1) (2 ^ 32)

def randomChar (address : Nat) (counter : Int) : UInt8 :=
  randTable.getD (address * address * (counter % 2 ^ 64).toNat % 2 ^ 64 % address % 64) 0

def randomLoop (address : Nat) : Nat → Int → Object → Nat → Except Fault (Object × Int)
  | 0, counter, buf, _ => .ok (buf, counter)
  | n + 1, counter, buf, i => do
      let counter := nextCounter counter
      let buf ← store buf i (randomChar address counter)
      randomLoop address n counter buf (i + 1)

def genRandomDummyStringAt (address len : Nat) (counter : Int) : Except Fault (HeapString × Int) := do
  let size ← malloc (len + 1)
  let (buf, counter) ← randomLoop address len counter (List.replicate size 0) 0
  let buf ← store buf len 0
  .ok (⟨buf, len⟩, counter)

-- The calls; strings are numbered in the order in which they were made.
inductive StringCall where
  | new
  | init (src : Option CText)
  | combine (s1 s2 : Nat)
  | append (dst src : Nat)
  | appendRaw (dst : Nat) (src : Option CText)
  | htmlEscapeTrans (str : Nat)
  | newlineToBr (str : Nat)
  | base64Encode (str : Nat)
  | base64EncodeText (src : CText)
  | genRandomDummyString (len : Nat)

structure StringHeap where
  strings : List HeapString
  counter : Int

def StringHeap.push (heap : StringHeap) (str : HeapString) : StringHeap := { heap with strings := heap.strings ++ [str] }

def StringHeap.put (heap : StringHeap) (i : Nat) (str : HeapString) : StringHeap := { heap with strings := heap.strings.set i str }

def stringCall (address : Nat) (heap : StringHeap) : StringCall → Except Fault StringHeap
  | .new => .ok (heap.push basicStringNewAt)
  | .init src => .ok (heap.push (basicStringInitAt (src.map Subtype.val)))
  | .combine s1 s2 => do
      let str ← basicStringCombineAt (← stringAt heap.strings s1) (← stringAt heap.strings s2)
      .ok (heap.push str)
  | .append dst src => do
      let strings ← basicStringAppendAt heap.strings dst src
      .ok { heap with strings := strings }
  | .appendRaw dst src => do
      let str ← basicStringAppendRawAt (← stringAt heap.strings dst) (src.map Subtype.val)
      .ok (heap.put dst str)
  | .htmlEscapeTrans i => do
      let str ← htmlEscapeTransInt (← stringAt heap.strings i)
      .ok (heap.put i str)
  | .newlineToBr i => do
      let str ← newlineToBrAt (← stringAt heap.strings i)
      .ok (heap.put i str)
  | .base64Encode i => do
      let str ← stringAt heap.strings i
      let out ← base64EncodeAt str.data str.size
      .ok (heap.push out)
  | .base64EncodeText src => do
      let out ← base64EncodeAt (src.val ++ [0]) src.val.length
      .ok (heap.push out)
  | .genRandomDummyString len => do
      let (str, counter) ← genRandomDummyStringAt address len heap.counter
      .ok { heap.push str with counter := counter }

-- What the calls mean for the texts of the strings.
def randomText (address : Nat) : Nat → Int → List UInt8
  | 0, _ => []
  | n + 1, counter => randomChar address (nextCounter counter) :: randomText address n (nextCounter counter)

structure TextState where
  texts : List (List UInt8)
  counter : Int

def TextState.text (state : TextState) (i : Nat) : List UInt8 := state.texts.getD i []

def TextState.push (state : TextState) (text : List UInt8) : TextState := { state with texts := state.texts ++ [text] }

def TextState.put (state : TextState) (i : Nat) (text : List UInt8) : TextState :=
  { state with texts := state.texts.set i text }

def textCall (address : Nat) (state : TextState) : StringCall → TextState
  | .new => state.push []
  | .init src => state.push ((src.map Subtype.val).getD [])
  | .combine s1 s2 => state.push (state.text s1 ++ state.text s2)
  | .append dst src => state.put dst (state.text dst ++ state.text src)
  | .appendRaw dst src => state.put dst (state.text dst ++ (src.map Subtype.val).getD [])
  | .htmlEscapeTrans i => state.put i ((state.text i).flatMap escapeChar)
  | .newlineToBr i => state.put i ((state.text i).flatMap brChar)
  | .base64Encode i => state.push (base64Encode (state.text i))
  | .base64EncodeText src => state.push (base64Encode src.val)
  | .genRandomDummyString len =>
      { state.push (randomText address len state.counter) with counter := nextCounter^[len] state.counter }

-- The strings a call is applied to have been made.
def Made (state : TextState) : StringCall → Prop
  | .combine s1 s2 => s1 < state.texts.length ∧ s2 < state.texts.length
  | .append dst src => dst < state.texts.length ∧ src < state.texts.length
  | .appendRaw i _ | .htmlEscapeTrans i | .newlineToBr i | .base64Encode i => i < state.texts.length
  | .new | .init _ | .base64EncodeText _ | .genRandomDummyString _ => True

-- What a string is to be: its text and a NUL, in an array with room for both.
structure StringHolds (str : HeapString) (text : List UInt8) : Prop where
  ended : str.data[str.size]? = some 0
  room : str.size + 1 ≤ str.data.length
  read : cstrAt str.data 0 = .ok text
  size : str.size = text.length

structure HeapHolds (heap : StringHeap) (state : TextState) : Prop where
  count : heap.strings.length = state.texts.length
  each : ∀ i str, heap.strings[i]? = some str → StringHolds str (state.text i)
  counter : heap.counter = state.counter

-- The next call of a run, which ends at the first one that faults.
def stringNext (address : Nat) (run : Except Fault StringHeap) (call : StringCall) : Except Fault StringHeap :=
  run.bind fun heap => stringCall address heap call

-- After each call every string made so far is as it is to be.
def StringsHold (address : Nat) (counter : Int) (calls : List StringCall) : Prop :=
  ∀ past, past <+: calls → ∃ heap, run (stringNext address) (.ok ⟨[], counter⟩) past = .ok heap ∧
    HeapHolds heap (run (textCall address) ⟨[], counter⟩ past)

def CallFits (state : TextState) : StringCall → Prop
  | .htmlEscapeTrans i => EscapesFit (state.text i)
  | _ => True

theorem holds_whole (text rest : List UInt8) (clean : 0 ∉ text) : StringHolds ⟨text ++ 0 :: rest, text.length⟩ text where
  ended := by simp
  room := by simp
  read := cstr_at_start text rest clean
  size := rfl

theorem holds_shape (str : HeapString) (text : List UInt8) (held : StringHolds str text) :
    0 ∉ text ∧ ∃ rest, str.data = text ++ 0 :: rest := by
  have clean : 0 ∉ text := by
    have read := held.read
    rw [cstrAt] at read
    split at read
    · rw [← Except.ok.inj read]
      exact (cstr_split _).1
    · cases read
  obtain ⟨rest, split⟩ := cstr_at_prefix _ _ _ held.read
  have ended := held.ended
  rw [List.drop_zero] at split
  rw [split, held.size, List.getElem?_append_right (Nat.le_refl _), Nat.sub_self] at ended
  cases rest with
  | nil => cases ended
  | cons c rest =>
      cases ended
      exact ⟨clean, rest, split⟩

theorem holds_taken (str : HeapString) (text : List UInt8) (held : StringHolds str text) : str.data.take str.size = text := by
  obtain ⟨_, rest, split⟩ := holds_shape str text held
  rw [split, held.size, List.take_left]

theorem joined_holds (str : HeapString) (left right : List UInt8) (size : Nat) (held : StringHolds str left)
    (clean : 0 ∉ right) (counted : size = right.length) :
    StringHolds ⟨left ++ right ++ [0], str.size + size⟩ (left ++ right) := by
  have both : 0 ∉ left ++ right := by
    rw [List.mem_append]
    exact fun either => either.elim (holds_shape str left held).1 clean
  have whole := holds_whole (left ++ right) [] both
  rwa [List.length_append, ← held.size, ← counted] at whole

-- The last copy and the NUL behind it.
theorem copy_behind (o front src text : List UInt8) (p n : Nat) (size : o.length = p + n + 1) (before : o.take p = front)
    (whole : src.take n = text) (given : n ≤ src.length) :
    ∃ data, memcpyInto o p src n = .ok data ∧ store data ((p : Int) + n) 0 = .ok (front ++ text ++ [0]) := by
  have last : ∃ c, o.drop (p + n) = [c] := List.length_eq_one_iff.mp (by rw [List.length_drop]; omega)
  obtain ⟨c, last⟩ := last
  have sizes : (front ++ text).length = p + n := by
    rw [← before, ← whole, List.length_append, List.length_take, List.length_take]
    omega
  refine ⟨front ++ text ++ [c], ?_, ?_⟩
  · rw [memcpyInto, if_pos ⟨given, by omega⟩, before, whole, last]
  · exact store_append (front ++ text) [] c 0 _ (by omega)

theorem realloc_take (o : Object) (size p : Nat) (kept : p ≤ size) (inside : p ≤ o.length) :
    (realloc o size).take p = o.take p := by
  rw [realloc, List.take_append_of_le_length (by rw [List.length_take]; omega), List.take_take, Nat.min_eq_left kept]

theorem combine_holds (s1 s2 : HeapString) (left right : List UInt8) (first : StringHolds s1 left) (second : StringHolds s2 right) :
    ∃ str, basicStringCombineAt s1 s2 = .ok str ∧ StringHolds str (left ++ right) := by
  have size : malloc ((s1.size : Int) + s2.size + 1) = .ok (s1.size + s2.size + 1) := malloc_size _
  have firstRoom := first.room
  have secondRoom := second.room
  have copied : memcpyInto (List.replicate (s1.size + s2.size + 1) 0) 0 s1.data s1.size =
      .ok (left ++ List.replicate (s2.size + 1) 0) := by
    have spare : s1.size + s2.size + 1 - (0 + s1.size) = s2.size + 1 := by omega
    rw [memcpyInto, if_pos ⟨by omega, by rw [List.length_replicate]; omega⟩, holds_taken s1 left first, List.drop_replicate, spare]
    rfl
  obtain ⟨data, filled, stored⟩ := copy_behind (left ++ List.replicate (s2.size + 1) 0) left s2.data right s1.size s2.size
    (by rw [List.length_append, List.length_replicate, ← first.size]; omega) (by rw [first.size, List.take_left])
    (holds_taken s2 right second) (by omega)
  refine ⟨⟨left ++ right ++ [0], s1.size + s2.size⟩, ?_, ?_⟩
  · simp only [basicStringCombineAt, size, copied, filled, stored, bind, Except.bind]
  · exact joined_holds s1 left right s2.size first (holds_shape s2 right second).1 second.size

theorem append_raw_holds (dst : HeapString) (text : List UInt8) (src : Option CText) (held : StringHolds dst text) :
    ∃ str, basicStringAppendRawAt dst (src.map Subtype.val) = .ok str ∧
      StringHolds str (text ++ (src.map Subtype.val).getD []) := by
  cases src with
  | none => exact ⟨dst, rfl, by rwa [Option.map_none, Option.getD_none, List.append_nil]⟩
  | some src =>
      rw [Option.map_some, Option.getD_some]
      by_cases empty : src.val = []
      · refine ⟨dst, by rw [basicStringAppendRawAt, if_pos empty], ?_⟩
        rwa [empty, List.append_nil]
      · have room := held.room
        have before : (realloc dst.data (dst.size + src.val.length + 1)).take dst.size = text := by
          rw [realloc_take _ _ _ (by omega) (by omega), holds_taken dst text held]
        obtain ⟨data, filled, stored⟩ := copy_behind _ text src.val src.val dst.size src.val.length (realloc_length _ _) before
          (List.take_length) (Nat.le_refl _)
        refine ⟨⟨text ++ src.val ++ [0], dst.size + src.val.length⟩, ?_, ?_⟩
        · rw [basicStringAppendRawAt, if_neg empty]
          simp only [filled, stored, bind, Except.bind]
        · exact joined_holds dst text src.val src.val.length held src.property rfl

theorem string_at_some (strings : List HeapString) (i : Nat) (str : HeapString) (here : strings[i]? = some str) :
    stringAt strings i = .ok str := by
  rw [stringAt, here]

theorem string_at_set (strings : List HeapString) (i j : Nat) (str : HeapString) (inside : i < strings.length) :
    stringAt (strings.set i str) j = if j = i then .ok str else stringAt strings j := by
  rw [stringAt, List.getElem?_set]
  by_cases same : i = j
  · rw [if_pos same, if_pos inside, if_pos same.symm]
  · rw [if_neg same, if_neg (Ne.symm same)]
    rfl

-- After the array has moved, the source still has its text, also when it is the
-- string that has grown.
theorem append_source (strings : List HeapString) (dst src : Nat) (d s : HeapString) (text : List UInt8)
    (at_dst : strings[dst]? = some d) (at_src : strings[src]? = some s) (held : StringHolds s text) :
    ∃ source, stringAt (strings.set dst { d with data := realloc d.data (d.size + s.size + 1) }) src = .ok source ∧
      source.data.take s.size = text ∧ s.size ≤ source.data.length ∧ source.size = s.size := by
  obtain ⟨inside, _⟩ := List.getElem?_eq_some_iff.mp at_dst
  have room := held.room
  rw [string_at_set strings dst src _ inside]
  by_cases self : src = dst
  · subst self
    have same : d = s := Option.some.inj (at_dst.symm.trans at_src)
    subst same
    refine ⟨_, if_pos rfl, ?_, ?_, rfl⟩
    · rw [realloc_take _ _ _ (by omega) (by omega), holds_taken d text held]
    · rw [realloc_length]
      omega
  · rw [if_neg self]
    exact ⟨s, string_at_some strings src s at_src, holds_taken s text held, by omega, rfl⟩

theorem append_holds (strings : List HeapString) (dst src : Nat) (d s : HeapString) (left right : List UInt8)
    (at_dst : strings[dst]? = some d) (at_src : strings[src]? = some s) (first : StringHolds d left) (second : StringHolds s right) :
    ∃ str, basicStringAppendAt strings dst src = .ok (strings.set dst str) ∧ StringHolds str (left ++ right) := by
  obtain ⟨inside, _⟩ := List.getElem?_eq_some_iff.mp at_dst
  obtain ⟨source, read, taken, given, size⟩ := append_source strings dst src d s right at_dst at_src second
  have room := first.room
  have before : (realloc d.data (d.size + s.size + 1)).take d.size = left := by
    rw [realloc_take _ _ _ (by omega) (by omega), holds_taken d left first]
  obtain ⟨data, filled, stored⟩ := copy_behind _ left source.data right d.size s.size (realloc_length _ _) before taken given
  have again : ∃ later, stringAt (strings.set dst { d with data := data }) src = .ok later ∧ later.size = s.size := by
    rw [string_at_set strings dst src _ inside]
    by_cases self : src = dst
    · subst self
      have same : d = s := Option.some.inj (at_dst.symm.trans at_src)
      exact ⟨_, if_pos rfl, by rw [same]⟩
    · rw [if_neg self]
      exact ⟨s, string_at_some strings src s at_src, rfl⟩
  obtain ⟨later, readAgain, sizeAgain⟩ := again
  have own : ∀ str, stringAt (strings.set dst str) dst = .ok str := by
    intro str
    rw [string_at_set strings dst dst str inside, if_pos rfl]
  refine ⟨⟨left ++ right ++ [0], d.size + s.size⟩, ?_, ?_⟩
  · simp only [basicStringAppendAt, string_at_some strings dst d at_dst, string_at_some strings src s at_src, own, read, size,
      filled, List.set_set, readAgain, sizeAgain, Int.natCast_add, stored, bind, Except.bind]
  · exact joined_holds d left right s.size first (holds_shape s right second).1 second.size

theorem exactly_holds (str : HeapString) (text : List UInt8) (clean : 0 ∉ text) (exact : Exactly str text) :
    StringHolds str text := by
  cases str with
  | mk data size =>
      obtain ⟨same, count, _⟩ := exact
      simp only at same count
      rw [same, count]
      exact holds_whole text [] clean

theorem rewrite_sized_size (spell : UInt8 → List UInt8) (text : List UInt8) (newSize : Int) (out : HeapString)
    (ran : rewriteSized spell text newSize = .ok out) : out.size = newSize.toNat := by
  obtain ⟨_, _, ran⟩ := (except_bind_ok _ _ _).mp ran
  obtain ⟨_, _, ran⟩ := (except_bind_ok _ _ _).mp ran
  obtain ⟨_, _, ran⟩ := (except_bind_ok _ _ _).mp ran
  rw [← Except.ok.inj ran]

-- A size that has wrapped around is not that of the escaped text.
theorem html_escape_holds_iff (str : HeapString) (text : List UInt8) (held : StringHolds str text) :
    (∃ out, htmlEscapeTransInt str = .ok out ∧ StringHolds out (text.flatMap escapeChar)) ↔ EscapesFit text := by
  have sized := escaped_size_length text str.size held.size
  obtain ⟨below, fits⟩ := int_escaped_size text str.size
  have longer := flat_map_longer escapeChar text escape_char_cases
  rw [htmlEscapeTransInt, holds_taken str text held, ← fits]
  constructor
  · rintro ⟨out, ran, right⟩
    have size := right.size
    split at ran
    · rename_i same
      have unchanged : out = str := (Except.ok.inj ran).symm
      rw [unchanged] at size
      rw [same, sized, size]
    · rw [rewrite_sized_size _ _ _ _ ran] at size
      have least := longer.1
      by_cases empty : text = []
      · exact fits.mpr fun entry _ => by rw [empty]; exact Nat.two_pow_pos 29
      · have filled := List.length_pos_of_ne_nil empty
        rw [sized] at below ⊢
        omega
  · intro same
    rw [same]
    by_cases plain : escapedSize text str.size = str.size
    · have unchanged := longer.2 (by rw [← sized, plain, held.size])
      rw [if_pos (by rw [plain]), unchanged]
      exact ⟨str, rfl, held⟩
    · rw [if_neg fun again => plain (Int.ofNat_inj.mp again)]
      have clean := flat_map_clean escapeChar text (holds_shape str text held).1 escape_char_clean
      obtain ⟨out, ran, exact⟩ := rewrite_into_exactly escapeChar text (escapedSize text str.size) sized clean
      exact ⟨out, ran, exactly_holds out _ clean exact⟩

theorem newline_to_br_holds (str : HeapString) (text : List UInt8) (held : StringHolds str text) :
    ∃ out, newlineToBrAt str = .ok out ∧ StringHolds out (text.flatMap brChar) := by
  obtain ⟨clean, rest, shape⟩ := holds_shape str text held
  have sized := flat_map_br_length text
  obtain ⟨c, loaded, first⟩ : ∃ c, load str.data 0 = .ok c ∧ (c = 0 → text = []) := by
    rw [shape]
    cases text with
    | nil => exact ⟨0, rfl, fun _ => rfl⟩
    | cons c text => exact ⟨c, rfl, fun zero => absurd List.mem_cons_self (zero ▸ clean)⟩
  rw [newlineToBrAt]
  simp only [loaded, bind, Except.bind, holds_taken str text held]
  by_cases same : c = 0 ∨ text.count (chr '\n') = 0
  · have uncounted : text.count (chr '\n') = 0 := same.elim (fun zero => by rw [first zero]; rfl) id
    have unchanged := (flat_map_longer brChar text br_char_cases).2 (by omega)
    rw [if_pos same, unchanged]
    exact ⟨str, rfl, held⟩
  · rw [if_neg same]
    have broken := flat_map_clean brChar text clean br_char_clean
    obtain ⟨out, ran, exact⟩ := rewrite_into_exactly brChar text (str.size + text.count (chr '\n') * 3)
      (by rw [held.size, sized]) broken
    exact ⟨out, ran, exactly_holds out _ broken exact⟩

theorem base64_encode_holds (str : HeapString) (text : List UInt8) (held : StringHolds str text) :
    ∃ out, base64EncodeAt str.data str.size = .ok out ∧ StringHolds out (base64Encode text) := by
  have encoded := base64_encode_buffer text
  have whole := holds_whole (base64Encode text) [] (base64_encode_nonzero text)
  rw [encode_length] at whole
  refine ⟨_, ?_, whole⟩
  rw [base64EncodeAt, holds_taken str text held, held.size, encoded]
  rfl

theorem random_char_table (address : Nat) (counter : Int) : randomChar address counter ∈ randTable := by
  have inside : address * address * (counter % 2 ^ 64).toNat % 2 ^ 64 % address % 64 < randTable.length :=
    Nat.mod_lt _ (by decide)
  rw [randomChar, List.getD_eq_getElem?_getD, List.getElem?_eq_getElem inside]
  exact List.getElem_mem inside

theorem random_text_table (address n : Nat) (counter : Int) : ∀ c ∈ randomText address n counter, c ∈ randTable := by
  induction n generalizing counter with
  | zero => exact fun c member => absurd member List.not_mem_nil
  | succ n ih =>
      rw [randomText, List.forall_mem_cons]
      exact ⟨random_char_table address _, ih _⟩

theorem random_text_length (address n : Nat) (counter : Int) : (randomText address n counter).length = n := by
  induction n generalizing counter with
  | zero => rfl
  | succ n ih => rw [randomText, List.length_cons, ih]

theorem random_loop_next (address n : Nat) (counter : Int) (done junk : List UInt8) (room : n ≤ junk.length) :
    randomLoop address n counter (done ++ junk) done.length =
      .ok (done ++ randomText address n counter ++ junk.drop n, nextCounter^[n] counter) := by
  induction n generalizing counter done junk with
  | zero => simp [randomLoop, randomText]
  | succ n ih =>
      cases junk with
      | nil => cases room
      | cons d junk =>
          have stored := store_append done junk d (randomChar address (nextCounter counter)) done.length rfl
          have rest := ih (nextCounter counter) (done ++ [randomChar address (nextCounter counter)]) junk (Nat.le_of_succ_le_succ room)
          simp only [List.append_assoc, List.singleton_append, List.length_append, List.length_cons, List.length_nil] at rest
          simp only [randomLoop, stored, bind, Except.bind]
          rw [rest]
          simp [randomText]

theorem gen_random_holds (address len : Nat) (counter : Int) :
    ∃ str, genRandomDummyStringAt address len counter = .ok (str, nextCounter^[len] counter) ∧
      StringHolds str (randomText address len counter) := by
  have size : malloc ((len : Int) + 1) = .ok (len + 1) := malloc_size _
  have length := random_text_length address len counter
  have filled := random_loop_next address len counter [] (List.replicate (len + 1) 0) (by rw [List.length_replicate]; omega)
  rw [List.nil_append, List.nil_append, List.drop_replicate, Nat.add_sub_cancel_left, List.replicate_one] at filled
  have ended := store_append (randomText address len counter) [] 0 0 (len : Int) (by rw [length])
  have clean : 0 ∉ randomText address len counter := by
    intro member
    have zero := random_text_table address len counter 0 member
    exact absurd zero (by decide)
  have whole := holds_whole (randomText address len counter) [] clean
  rw [length] at whole
  refine ⟨_, ?_, whole⟩
  simp only [List.length_nil] at filled
  simp only [genRandomDummyStringAt, size, filled, ended, bind, Except.bind]

-- Before the counter wraps around, these are the characters of a session id.
theorem random_text_small (address len counter : Nat) (small : counter + len < 2 ^ 31) :
    randomText address len counter = genRandomDummyString address counter len := by
  induction len generalizing counter with
  | zero => rfl
  | succ len ih =>
      have next : nextCounter counter = (counter + 1 : Nat) := Int.bmod_eq_of_le (by omega) (by omega)
      have char : randomChar address (counter + 1 : Nat) = randTable.getD (getRand address counter % 64) 0 := by
        have kept : (((counter + 1 : Nat) : Int) % 2 ^ 64).toNat = counter + 1 := by omega
        rw [randomChar, kept, getRand]
      rw [randomText, next, char, ih (counter + 1) (by omega), genRandomDummyString, genRandomDummyString, List.range_succ_eq_map,
        List.map_cons, List.map_map]
      simp only [Function.comp_def, Nat.add_zero, Nat.succ_eq_add_one, Nat.add_assoc, Nat.add_comm 1]

theorem heap_holds_at (heap : StringHeap) (state : TextState) (i : Nat) (held : HeapHolds heap state)
    (made : i < state.texts.length) :
    ∃ str, heap.strings[i]? = some str ∧ stringAt heap.strings i = .ok str ∧ StringHolds str (state.text i) := by
  have inside : i < heap.strings.length := by rwa [held.count]
  have here := List.getElem?_eq_getElem inside
  exact ⟨_, here, string_at_some _ i _ here, held.each i _ here⟩

theorem heap_holds_push (heap : StringHeap) (state : TextState) (str : HeapString) (text : List UInt8)
    (held : HeapHolds heap state) (right : StringHolds str text) : HeapHolds (heap.push str) (state.push text) := by
  refine ⟨?_, ?_, held.counter⟩
  · simp only [StringHeap.push, TextState.push, List.length_append, held.count, List.length_singleton]
  · intro i last here
    rw [TextState.text, List.getD_eq_getElem?_getD]
    simp only [StringHeap.push, TextState.push] at here ⊢
    by_cases old : i < heap.strings.length
    · rw [List.getElem?_append_left old] at here
      rw [List.getElem?_append_left (by rwa [← held.count]), ← List.getD_eq_getElem?_getD]
      exact held.each i last here
    · rw [List.getElem?_append_right (by omega)] at here
      obtain ⟨same, found⟩ := List.getElem?_eq_some_iff.mp here
      have new : i - heap.strings.length = 0 := by rw [List.length_singleton] at same; omega
      rw [List.getElem?_append_right (by rw [← held.count]; omega), ← held.count, new]
      simp only [new, List.getElem_singleton] at found
      rw [← found]
      exact right

theorem heap_holds_put (heap : StringHeap) (state : TextState) (i : Nat) (str : HeapString) (text : List UInt8)
    (held : HeapHolds heap state) (right : StringHolds str text) : HeapHolds (heap.put i str) (state.put i text) := by
  refine ⟨?_, ?_, held.counter⟩
  · simp only [StringHeap.put, TextState.put, List.length_set, held.count]
  · intro j other here
    rw [TextState.text, List.getD_eq_getElem?_getD]
    simp only [StringHeap.put, TextState.put, List.getElem?_set] at here ⊢
    by_cases same : i = j
    · rw [if_pos same] at here ⊢
      by_cases inside : i < heap.strings.length
      · rw [if_pos inside] at here
        rw [if_pos (by rwa [← held.count]), ← Option.some.inj here]
        exact right
      · rw [if_neg inside] at here
        cases here
    · rw [if_neg same] at here ⊢
      rw [← List.getD_eq_getElem?_getD]
      exact held.each j other here

theorem heap_holds_put_back (heap : StringHeap) (state : TextState) (i : Nat) (str : HeapString) (text : List UInt8)
    (made : i < state.texts.length) (count : heap.strings.length = state.texts.length)
    (held : HeapHolds (heap.put i str) (state.put i text)) : StringHolds str text := by
  have here : (heap.put i str).strings[i]? = some str := by
    simp only [StringHeap.put]
    rw [List.getElem?_set_self (by rwa [count])]
  have put : (state.put i text).text i = text := by
    simp only [TextState.text, TextState.put]
    rw [List.getD_eq_getElem?_getD, List.getElem?_set_self made, Option.getD_some]
  have back := held.each i str here
  rwa [put] at back

theorem escape_call_fits (address : Nat) (heap : StringHeap) (state : TextState) (i : Nat) (held : HeapHolds heap state)
    (made : i < state.texts.length) :
    (∃ after, stringCall address heap (.htmlEscapeTrans i) = .ok after ∧
      HeapHolds after (textCall address state (.htmlEscapeTrans i))) ↔ EscapesFit (state.text i) := by
  obtain ⟨str, _, read, text⟩ := heap_holds_at heap state i held made
  have step : stringCall address heap (.htmlEscapeTrans i) = htmlEscapeTransInt str >>= fun out => .ok (heap.put i out) := by
    rw [stringCall, read, except_ok_bind]
  have next : textCall address state (.htmlEscapeTrans i) = state.put i ((state.text i).flatMap escapeChar) := rfl
  rw [step, next, ← html_escape_holds_iff str _ text]
  constructor
  · rintro ⟨after, ran, whole⟩
    obtain ⟨out, escaped, last⟩ := (except_bind_ok _ _ _).mp ran
    have last := Except.ok.inj last
    subst last
    exact ⟨out, escaped, heap_holds_put_back heap state i out _ made held.count whole⟩
  · rintro ⟨out, ran, whole⟩
    exact ⟨heap.put i out, by rw [ran, except_ok_bind], heap_holds_put heap state i _ _ held whole⟩

-- One call: only the int counters can spoil it.
theorem string_call_holds (address : Nat) (heap : StringHeap) (state : TextState) (call : StringCall)
    (held : HeapHolds heap state) (made : Made state call) :
    (∃ after, stringCall address heap call = .ok after ∧ HeapHolds after (textCall address state call)) ↔
      CallFits state call := by
  cases call with
  | new => exact iff_of_true ⟨_, rfl, heap_holds_push heap state _ _ held (holds_whole [] [] List.not_mem_nil)⟩ trivial
  | init src =>
      refine iff_of_true ⟨_, rfl, heap_holds_push heap state _ _ held ?_⟩ trivial
      cases src with
      | none => exact holds_whole [] [] List.not_mem_nil
      | some src => exact holds_whole src.val [] src.property
  | combine s1 s2 =>
      obtain ⟨first, _, firstRead, left⟩ := heap_holds_at heap state s1 held made.1
      obtain ⟨second, _, secondRead, right⟩ := heap_holds_at heap state s2 held made.2
      obtain ⟨str, ran, whole⟩ := combine_holds first second _ _ left right
      refine iff_of_true ⟨heap.push str, ?_, heap_holds_push heap state _ _ held whole⟩ trivial
      simp only [stringCall, firstRead, secondRead, ran, bind, Except.bind]
  | append dst src =>
      obtain ⟨d, at_dst, _, left⟩ := heap_holds_at heap state dst held made.1
      obtain ⟨s, at_src, _, right⟩ := heap_holds_at heap state src held made.2
      obtain ⟨str, ran, whole⟩ := append_holds heap.strings dst src d s _ _ at_dst at_src left right
      refine iff_of_true ⟨heap.put dst str, ?_, heap_holds_put heap state dst _ _ held whole⟩ trivial
      simp only [stringCall, ran, bind, Except.bind, StringHeap.put]
  | appendRaw dst src =>
      obtain ⟨d, _, read, left⟩ := heap_holds_at heap state dst held made
      obtain ⟨str, ran, whole⟩ := append_raw_holds d _ src left
      refine iff_of_true ⟨heap.put dst str, ?_, heap_holds_put heap state dst _ _ held whole⟩ trivial
      simp only [stringCall, read, ran, bind, Except.bind]
  | htmlEscapeTrans i =>
      exact escape_call_fits address heap state i held made
  | newlineToBr i =>
      obtain ⟨str, _, read, text⟩ := heap_holds_at heap state i held made
      obtain ⟨out, ran, whole⟩ := newline_to_br_holds str _ text
      refine iff_of_true ⟨heap.put i out, ?_, heap_holds_put heap state i _ _ held whole⟩ trivial
      simp only [stringCall, read, ran, bind, Except.bind]
  | base64Encode i =>
      obtain ⟨str, _, read, text⟩ := heap_holds_at heap state i held made
      obtain ⟨out, ran, whole⟩ := base64_encode_holds str _ text
      refine iff_of_true ⟨heap.push out, ?_, heap_holds_push heap state _ _ held whole⟩ trivial
      simp only [stringCall, read, ran, bind, Except.bind]
  | base64EncodeText src =>
      obtain ⟨out, ran, whole⟩ := base64_encode_holds ⟨src.val ++ [0], src.val.length⟩ src.val
        (holds_whole src.val [] src.property)
      refine iff_of_true ⟨heap.push out, ?_, heap_holds_push heap state _ _ held whole⟩ trivial
      simp only [stringCall, ran, bind, Except.bind]
  | genRandomDummyString len =>
      obtain ⟨str, ran, whole⟩ := gen_random_holds address len heap.counter
      rw [held.counter] at ran whole
      have pushed := heap_holds_push heap state str _ held whole
      refine iff_of_true ⟨{ heap.push str with counter := nextCounter^[len] state.counter }, ?_,
        ⟨pushed.count, pushed.each, rfl⟩⟩ trivial
      simp only [stringCall, held.counter, ran, bind, Except.bind]

theorem heap_holds_start (counter : Int) : HeapHolds ⟨[], counter⟩ ⟨[], counter⟩ :=
  ⟨rfl, fun _ _ here => absurd here (by simp), rfl⟩

-- The strings are right after every call exactly when no call overflows a
-- counter; the random ones are those of a session id up to there.
theorem strings_hold_iff (address : Nat) (counter : Int) (calls : List StringCall)
    (made : Along (textCall address) Made ⟨[], counter⟩ calls) :
    (StringsHold address counter calls ↔ Along (textCall address) CallFits ⟨[], counter⟩ calls) ∧
      ∀ len before : Nat, before + len < 2 ^ 31 → randomText address len before = genRandomDummyString address before len := by
  refine ⟨?_, fun len before small => random_text_small address len before small⟩
  let held (state : Except Fault StringHeap × TextState) : Prop := ∃ heap, state.1 = .ok heap ∧ HeapHolds heap state.2
  have kept : ∀ state call, held state → Made state.2 call →
      (held (both (stringNext address) (textCall address) state call) ↔ CallFits state.2 call) := by
    rintro ⟨heapRun, texts⟩ call ⟨heap, ran, holds⟩ known
    simp only at ran
    subst ran
    exact string_call_holds address heap texts call holds known
  have start : held (.ok ⟨[], counter⟩, ⟨[], counter⟩) := ⟨_, rfl, heap_holds_start counter⟩
  have exact := throughout_guarded (both (stringNext address) (textCall address)) (fun state call => Made state.2 call)
    (fun state call => CallFits state.2 call) held kept calls _ start ((along_both _ _ Made _ calls).mpr made)
  rw [along_both] at exact
  rw [← exact, Throughout]
  simp only [run_both]
  exact Iff.rfl

def doubledCalls : List StringCall :=
  [.init (some ⟨ascii "a<b", by decide⟩), .append 0 0, .htmlEscapeTrans 0, .base64Encode 0]

theorem strings_hold_doubled : StringsHold 1 0 doubledCalls :=
  (strings_hold_iff 1 0 doubledCalls ⟨trivial, ⟨Nat.zero_lt_one, Nat.zero_lt_one⟩, Nat.zero_lt_one, Nat.zero_lt_one,
    trivial⟩).1.mpr
    ⟨trivial, trivial, fun entry member => by
      have few : ∀ entry ∈ escapeTable, (ascii "a<ba<b").count entry.1 < 2 ^ 29 := by decide +kernel
      exact few entry member, trivial, trivial⟩

theorem many_quotes (count : Nat) : ∃ src : CText, src.val.count (chr '"') = count := by
  refine ⟨⟨List.replicate count (chr '"'), fun zero => ?_⟩, List.count_replicate_self⟩
  exact absurd (List.eq_of_mem_replicate zero) (by decide)

-- 2^29 quotation marks are counted as -2^31 bytes more.
theorem strings_hold_fails : ¬ ∀ (address : Nat) (counter : Int) (calls : List StringCall),
    Along (textCall address) Made ⟨[], counter⟩ calls → StringsHold address counter calls := by
  intro all
  obtain ⟨src, count⟩ := many_quotes (2 ^ 29)
  have held := all 1 0 [.init (some src), .htmlEscapeTrans 0] ⟨trivial, Nat.zero_lt_one, trivial⟩
  obtain ⟨heap, ran, holds⟩ := held [.init (some src)] ⟨[.htmlEscapeTrans 0], rfl⟩
  obtain ⟨after, last, right⟩ := held [.init (some src), .htmlEscapeTrans 0] List.prefix_rfl
  have split : [StringCall.init (some src), .htmlEscapeTrans 0] = [.init (some src)] ++ [.htmlEscapeTrans 0] := rfl
  rw [split, run_snoc, ran] at last
  have text : (run (textCall 1) ⟨[], 0⟩ [.init (some src)]).text 0 = src.val := rfl
  have fits := (escape_call_fits 1 heap _ 0 holds Nat.zero_lt_one).mp ⟨after, last, right⟩
  rw [text] at fits
  have quotes := fits (chr '"', ascii "&#34;") List.mem_cons_self
  rw [count] at quotes
  exact Nat.lt_irrefl _ quotes

end Facebooc
