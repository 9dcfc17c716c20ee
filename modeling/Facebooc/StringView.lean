import Facebooc.CMemory
import Facebooc.StringSearch

set_option autoImplicit false

namespace Facebooc

open CMemory StringSearch

-- Plain char is signed.
def signedChar (c : UInt8) : Int := if c.toNat < 128 then c.toNat else c.toNat - 256

-- src/utility.c. The table has one char for every 7-bit character; any other
-- character of the pattern is a write in front of it.
def badCharLoop : List UInt8 → Nat → List Int → Except Fault (List Int)
  | [], _, badchar => .ok badchar
  | c :: rest, i, badchar =>
      if signedChar c < 0 then .error .bounds
      else badCharLoop rest (i + 1) (badchar.set c.toNat (Int.bmod i 256))

def badCharHeuristic (pat : List UInt8) : Except Fault (List Int) := badCharLoop pat 0 (List.replicate 256 (-1))

-- How many characters at the front of the window are left when the comparison
-- from its end stops: none for a match.
def matchBack (txt pat : List UInt8) (s : Nat) : Nat → Nat
  | 0 => 0
  | j + 1 => if pat[j]? = txt[s + j]? then matchBack txt pat s j else j + 1

def boyerMooreLoop (txt pat : List UInt8) (badchar : List Int) : Nat → Nat → Except Fault (Option Int)
  | 0, _ => .error .loop
  | rounds + 1, s =>
      if s ≤ txt.length - pat.length then
        match matchBack txt pat s pat.length with
        | 0 => .ok (some ((s : Int) - 1))
        | j + 1 =>
            match txt[s + j]? with
            | none => .error .bounds
            | some c =>
                if signedChar c < 0 then .error .bounds
                else boyerMooreLoop txt pat badchar rounds (s + (max 1 ((j : Int) - badchar.getD c.toNat 0)).toNat)
      else .ok none

-- The result is relative to the text. For patterns of two or more characters
-- it points one character in front of the occurrence.
def boyerMoore (txt pat : List UInt8) : Except Fault (Option Int) :=
  if pat.length = 0 ∨ txt.length < pat.length then .ok none
  else if pat.length = 1 then .ok ((txt.idxOf? (pat.headD 0)).map Int.ofNat)
  else do
    let badchar ← badCharHeuristic pat
    boyerMooreLoop txt pat badchar (txt.length + 1) 0

def findFirstOf (str delim : List UInt8) : Except Fault (Option Int) :=
  if str = [] then .ok none else boyerMoore str delim

-- src/string_view.c. Offsets are those of the object the view looks into; no
-- stop is the pointer 1, which NULL + 1 leaves behind.
structure StringView where
  start : Nat
  stop : Option Int
  size : Int
deriving DecidableEq, Repr

def stringViewCtor (o : Object) (buf : Nat) (delim : List UInt8) : Except Fault StringView := do
  match ← findFirstOf (← cstrAt o buf) delim with
  | none => .ok ⟨buf, none, -1⟩
  | some found => .ok ⟨buf, some (buf + (found + 1)), found + 1⟩

-- strncpy stops at a NUL and pads with NULs.
def strncpy (o : Object) (src n : Nat) : Except Fault (List UInt8) :=
  if src + n ≤ o.length ∨ 0 ∈ o.drop src then .ok (cstr ((o.drop src).take n)) else .error .bounds

def stringViewDup (o : Object) (sv : StringView) : Except Fault (List UInt8) :=
  if sv.size ≠ -1 then do
    let _ ← malloc (sv.size + 1)
    strncpy o sv.start sv.size.toNat
  else .ok []

theorem signed_char_neg (c : UInt8) : signedChar c < 0 ↔ 128 ≤ c.toNat := by
  have bound := c.toNat_lt
  rw [signedChar]
  split <;> omega

-- The last place of a character in the pattern, as one signed char keeps it.
def storedPlace (pat : List UInt8) (c : UInt8) : Int :=
  match lastPlace c pat with
  | none => -1
  | some i => Int.bmod i 256

theorem bad_char_loop_entries (rest : List UInt8) (i : Nat) (badchar : List Int) (slots : badchar.length = 256)
    (low : ∀ c ∈ rest, c.toNat < 128) :
    ∃ filled, badCharLoop rest i badchar = .ok filled ∧ filled.length = 256 ∧ ∀ c : UInt8,
      filled.getD c.toNat 0 = match lastPlace c rest with
        | none => badchar.getD c.toNat 0
        | some k => Int.bmod ((i + k : Nat) : Int) 256 := by
  induction rest generalizing i badchar with
  | nil => exact ⟨badchar, rfl, slots, fun c => rfl⟩
  | cons d rest ih =>
      obtain ⟨filled, ran, length, entries⟩ := ih (i + 1) (badchar.set d.toNat (Int.bmod i 256))
        (by rw [List.length_set, slots]) (fun c member => low c (List.mem_cons_of_mem d member))
      have dLow := low d List.mem_cons_self
      refine ⟨filled, ?_, length, ?_⟩
      · rw [badCharLoop, if_neg (by rw [signed_char_neg]; omega), ran]
      · intro c
        rw [entries c, lastPlace]
        cases place : lastPlace c rest with
        | some k =>
            simp only
            congr 2
            omega
        | none =>
            simp only
            by_cases same : d = c
            · subst same
              simp only [if_true]
              rw [List.getD_eq_getElem?_getD, List.getElem?_set_self (by omega), Option.getD_some, Nat.add_zero]
            · have apart : d.toNat ≠ c.toNat := fun numbers => same (UInt8.toNat_inj.mp numbers)
              simp only [if_neg same]
              rw [List.getD_eq_getElem?_getD, List.getElem?_set_ne apart, List.getD_eq_getElem?_getD]

theorem bad_char_heuristic_entries (pat : List UInt8) (low : ∀ c ∈ pat, c.toNat < 128) :
    ∃ badchar, badCharHeuristic pat = .ok badchar ∧ badchar.length = 256 ∧
      ∀ c : UInt8, badchar.getD c.toNat 0 = storedPlace pat c := by
  obtain ⟨badchar, filled, slots, entries⟩ := bad_char_loop_entries pat 0 (List.replicate 256 (-1)) List.length_replicate low
  refine ⟨badchar, filled, slots, fun c => ?_⟩
  have bound := c.toNat_lt
  rw [entries c, storedPlace]
  cases lastPlace c pat with
  | none =>
      simp only
      rw [List.getD_eq_getElem?_getD, List.getElem?_replicate, if_pos (by omega), Option.getD_some]
  | some k => simp only [Nat.zero_add]

-- Up to 128 characters a place is kept as it is.
theorem stored_place_short (pat : List UInt8) (c : UInt8) (short : pat.length ≤ 128) :
    -1 ≤ storedPlace pat c ∧ ∀ i : Nat, storedPlace pat c < i → pat[i]? ≠ some c := by
  have kept : ∀ i, lastPlace c pat = some i → storedPlace pat c = i := by
    intro i place
    have bound := last_place_bound c pat i place
    rw [storedPlace, place]
    exact Int.bmod_eq_of_le (by omega) (by omega)
  constructor
  · cases place : lastPlace c pat with
    | none =>
        simp only [storedPlace, place]
        omega
    | some i =>
        rw [kept i place]
        omega
  · intro i past
    apply last_place_behind c pat i
    intro k place
    have same := kept k place
    omega

structure BadChars (pat : List UInt8) (badchar : List Int) : Prop where
  slots : badchar.length = 256
  last : ∀ c : UInt8, c.toNat < 128 → ∃ b : Int, badchar[c.toNat]? = some b ∧ -1 ≤ b ∧
    ∀ i : Nat, b < i → pat[i]? ≠ some c

theorem bad_char_heuristic (pat : List UInt8) (short : pat.length ≤ 127) (low : ∀ c ∈ pat, c.toNat < 128) :
    ∃ badchar, badCharHeuristic pat = .ok badchar ∧ BadChars pat badchar := by
  obtain ⟨badchar, filled, slots, entries⟩ := bad_char_heuristic_entries pat low
  refine ⟨badchar, filled, slots, ?_⟩
  intro c _
  have bound := c.toNat_lt
  obtain ⟨atLeast, behind⟩ := stored_place_short pat c (by omega)
  have inside : c.toNat < badchar.length := by omega
  refine ⟨storedPlace pat c, ?_, atLeast, behind⟩
  rw [← entries c, List.getD_eq_getElem?_getD, List.getElem?_eq_getElem inside, Option.getD_some]

theorem match_back_zero (txt pat : List UInt8) (s j : Nat) (matched : matchBack txt pat s j = 0) :
    ∀ i < j, txt[s + i]? = pat[i]? := by
  induction j with
  | zero => intro i less; omega
  | succ j ih =>
      rw [matchBack] at matched
      split at matched
      · rename_i same
        intro i less
        by_cases last : i = j
        · rw [last, same]
        · exact ih matched i (by omega)
      · omega

theorem match_back_mismatch (txt pat : List UInt8) (s n r : Nat) (stopped : matchBack txt pat s n = r + 1)
    (inside : n ≤ pat.length) (fits : s + pat.length ≤ txt.length)
    (behind : ∀ i, n ≤ i → i < pat.length → pat[i]? = txt[s + i]?) : ∃ c, Mismatch pat txt s r c := by
  induction n with
  | zero => cases stopped
  | succ n ih =>
      rw [matchBack] at stopped
      split at stopped
      · rename_i same
        apply ih stopped (by omega)
        intro i from_n bound
        by_cases last : i = n
        · rw [last, same]
        · exact behind i (by omega) bound
      · rename_i different
        have place : n = r := by omega
        subst place
        have seen : txt[s + n]? = some txt[s + n] := List.getElem?_eq_getElem (by omega)
        rw [seen] at different
        exact ⟨_, by omega, seen, different, fun i after bound => behind i (by omega) bound⟩

-- What one window of a search comes to: it lies beyond the text, it matches, or
-- it mismatches and is moved on.
theorem boyer_moore_step (txt pat : List UInt8) (badchar : List Int) (rounds s : Nat) (fits : pat.length ≤ txt.length) :
    (txt.length < s + pat.length ∧ boyerMooreLoop txt pat badchar (rounds + 1) s = .ok none) ∨
    (OccursAt pat txt s ∧ boyerMooreLoop txt pat badchar (rounds + 1) s = .ok (some ((s : Int) - 1))) ∨
    ∃ j c, Mismatch pat txt s j c ∧ boyerMooreLoop txt pat badchar (rounds + 1) s =
      if c.toNat < 128 then boyerMooreLoop txt pat badchar rounds (s + (max 1 ((j : Int) - badchar.getD c.toNat 0)).toNat)
      else .error .bounds := by
  rw [boyerMooreLoop]
  by_cases inside : s ≤ txt.length - pat.length
  · rw [if_pos inside]
    cases back : matchBack txt pat s pat.length with
    | zero => exact .inr (.inl ⟨(occurs_iff pat txt s).mpr (match_back_zero txt pat s pat.length back), rfl⟩)
    | succ j =>
        obtain ⟨c, stopped⟩ := match_back_mismatch txt pat s pat.length j back (Nat.le_refl _) (by omega)
          (fun i from_end bound => absurd bound (by omega))
        refine .inr (.inr ⟨j, c, stopped, ?_⟩)
        simp only [stopped.seen, signed_char_neg]
        by_cases low : c.toNat < 128
        · rw [if_neg (by omega), if_pos low]
        · rw [if_pos (by omega), if_neg low]
  · exact .inl ⟨by omega, if_neg inside⟩

-- How a search from offset s ends. A fault comes from a character that is not
-- 7-bit, at or in front of the end of every occurrence from s on.
inductive SearchEnds (pat txt : List UInt8) (s : Nat) : Except Fault (Option Int) → Prop
  | found (t : Nat) (after : s ≤ t) (occurs : OccursAt pat txt t) (first : ∀ k, s ≤ k → k < t → ¬ OccursAt pat txt k) :
      SearchEnds pat txt s (.ok (some ((t : Int) - 1)))
  | absent (nowhere : ∀ k, s ≤ k → ¬ OccursAt pat txt k) : SearchEnds pat txt s (.ok none)
  | fault (i : Nat) (c : UInt8) (seen : txt[i]? = some c) (high : 128 ≤ c.toNat)
      (near : ∀ t, s ≤ t → OccursAt pat txt t → i < t + pat.length) : SearchEnds pat txt s (.error .bounds)

theorem search_ends_skip (pat txt : List UInt8) (s t : Nat) (result : Except Fault (Option Int)) (ahead : s ≤ t)
    (skipped : ∀ k, s ≤ k → k < t → ¬ OccursAt pat txt k) (ends : SearchEnds pat txt t result) :
    SearchEnds pat txt s result := by
  cases ends with
  | found u after occurs first =>
      refine .found u (by omega) occurs ?_
      intro k low high
      by_cases early : k < t
      · exact skipped k low early
      · exact first k (by omega) high
  | absent nowhere =>
      refine .absent ?_
      intro k low
      by_cases early : k < t
      · exact skipped k low early
      · exact nowhere k (by omega)
  | fault i c seen high near =>
      refine .fault i c seen high ?_
      intro u low occurs
      by_cases early : u < t
      · exact absurd occurs (skipped u low early)
      · exact near u (by omega) occurs

theorem boyer_moore_loop_ends (txt pat : List UInt8) (badchar : List Int) (rounds s : Nat) (nonempty : pat ≠ [])
    (fits : pat.length ≤ txt.length) (table : BadChars pat badchar) (positive : 0 < rounds)
    (enough : txt.length - pat.length + 1 < s + rounds) :
    SearchEnds pat txt s (boyerMooreLoop txt pat badchar rounds s) := by
  induction rounds generalizing s with
  | zero => omega
  | succ rounds ih =>
      rcases boyer_moore_step txt pat badchar rounds s fits with ⟨beyond, run⟩ | ⟨occurs, run⟩ | ⟨j, c, stopped, run⟩
      · rw [run]
        exact .absent (occurs_beyond pat txt s nonempty beyond)
      · rw [run]
        exact .found s (Nat.le_refl s) occurs (fun k low high => absurd low (by omega))
      · have here := mismatch_not_occurs pat txt s j c stopped
        have bound := mismatch_bound pat txt s j c stopped
        have jInside := stopped.inside
        rw [run]
        by_cases low : c.toNat < 128
        · obtain ⟨b, slot, atLeast, behind⟩ := table.last c low
          have entry : badchar.getD c.toNat 0 = b := by rw [List.getD_eq_getElem?_getD, slot]; rfl
          rw [if_pos low, entry]
          refine search_ends_skip pat txt s _ _ (by omega) ?_ (ih _ (by omega) (by omega))
          intro k from_s before
          obtain ⟨moved, rfl⟩ := Nat.exists_eq_add_of_le from_s
          by_cases still : moved = 0
          · rw [still]
            exact here
          · exact bad_character_skip pat txt s j moved c b jInside stopped.seen (fun i past _ => behind i past) atLeast
              (by omega) (by omega)
        · rw [if_neg low]
          exact .fault (s + j) c stopped.seen (by omega) (fun t after _ => by omega)

theorem find_first_of_ends (txt pat : List UInt8) (long : 2 ≤ pat.length) (short : pat.length ≤ 127)
    (low : ∀ c ∈ pat, c.toNat < 128) : SearchEnds pat txt 0 (findFirstOf txt pat) := by
  have nonempty : pat ≠ [] := List.ne_nil_of_length_pos (by omega)
  have small : txt.length < pat.length → SearchEnds pat txt 0 (.ok none) :=
    fun less => .absent (occurs_beyond pat txt 0 nonempty (by omega))
  rw [findFirstOf]
  split
  · rename_i empty
    exact small (by rw [empty, List.length_nil]; omega)
  · rw [boyerMoore]
    split
    · exact small (by omega)
    · rename_i fits
      obtain ⟨badchar, filled, table⟩ := bad_char_heuristic pat short low
      rw [if_neg (by omega), filled]
      exact boyer_moore_loop_ends txt pat badchar (txt.length + 1) 0 nonempty (by omega) table (by omega) (by omega)

theorem find_first_of_first (txt pat : List UInt8) (s : Nat) (long : 2 ≤ pat.length) (short : pat.length ≤ 127)
    (low : ∀ c ∈ pat, c.toNat < 128) (first : FirstAt pat txt s) (clean : ∀ c ∈ txt.take (s + pat.length), c.toNat < 128) :
    findFirstOf txt pat = .ok (some ((s : Int) - 1)) := by
  have ends := find_first_of_ends txt pat long short low
  generalize findFirstOf txt pat = result at ends
  cases ends with
  | found t _ occurs least =>
      have same := first_unique pat txt s t first ⟨occurs, fun k less => least k (Nat.zero_le k) less⟩
      rw [same]
  | absent nowhere => exact absurd first.occurs (nowhere s (Nat.zero_le s))
  | fault i c seen high near =>
      have inside := near s (Nat.zero_le s) first.occurs
      have member : c ∈ txt.take (s + pat.length) := List.mem_of_getElem? ((List.getElem?_take_of_lt inside).trans seen)
      exact absurd (clean c member) (by omega)

theorem find_first_of_absent (txt pat : List UInt8) (long : 2 ≤ pat.length) (short : pat.length ≤ 127)
    (low : ∀ c ∈ pat, c.toNat < 128) (absent : Absent pat txt) (clean : ∀ c ∈ txt, c.toNat < 128) :
    findFirstOf txt pat = .ok none := by
  have ends := find_first_of_ends txt pat long short low
  generalize findFirstOf txt pat = result at ends
  cases ends with
  | found t _ occurs _ => exact absurd occurs (absent t)
  | absent nowhere => rfl
  | fault i c seen high near => exact absurd (clean c (List.mem_of_getElem? seen)) (by omega)

theorem find_first_of_char (txt : List UInt8) (c : UInt8) :
    findFirstOf txt [c] = .ok ((txt.idxOf? c).map Int.ofNat) := by
  cases txt with
  | nil => rfl
  | cons head tail =>
      rw [findFirstOf, if_neg (List.cons_ne_nil head tail), boyerMoore, if_neg (by simp), if_pos List.length_singleton]
      rfl

theorem find_first_of_char_found (before rest : List UInt8) (c : UInt8) (clean : c ∉ before) :
    findFirstOf (before ++ c :: rest) [c] = .ok (some (before.length : Int)) := by
  rw [find_first_of_char, idx_of_append before rest c clean]
  rfl

theorem find_first_of_char_absent (txt : List UInt8) (c : UInt8) (clean : c ∉ txt) : findFirstOf txt [c] = .ok none := by
  rw [find_first_of_char, List.idxOf?_eq_none_iff.mpr clean]
  rfl

theorem string_view_dup_piece (before piece after : List UInt8) (sv : StringView) (clean : 0 ∉ piece)
    (start : sv.start = before.length) (size : sv.size = piece.length) :
    stringViewDup (before ++ (piece ++ after)) sv = .ok piece := by
  rw [stringViewDup, if_pos (by omega), malloc, if_pos (by omega)]
  change strncpy _ sv.start sv.size.toNat = _
  rw [start, size, Int.toNat_natCast, strncpy, if_pos (.inl (by simp)), List.drop_left, List.take_left,
    cstr_clean piece clean]

end Facebooc
