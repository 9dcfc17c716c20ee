import Facebooc.StringView

set_option autoImplicit false

namespace Facebooc

open CMemory StringSearch

def windowMove (pat : List UInt8) (j : Nat) (c : UInt8) : Nat := (max 1 ((j : Int) - storedPlace pat c)).toNat

theorem window_move_pos (pat : List UInt8) (j : Nat) (c : UInt8) : 0 < windowMove pat j c := by
  rw [windowMove]
  omega

theorem bad_char_loop_high (rest : List UInt8) (i : Nat) (badchar : List Int) (c : UInt8) (member : c ∈ rest)
    (high : 128 ≤ c.toNat) : badCharLoop rest i badchar = .error .bounds := by
  induction rest generalizing i badchar with
  | nil => exact absurd member List.not_mem_nil
  | cons d rest ih =>
      rw [badCharLoop]
      split
      · rfl
      · rename_i positive
        apply ih
        cases List.mem_cons.mp member with
        | inl same =>
            rw [signed_char_neg, ← same] at positive
            exact absurd high positive
        | inr inside => exact inside

-- What a search that starts at the window s is meant to return.
inductive LeftmostFrom (pat txt : List UInt8) (s : Nat) : Except Fault (Option Int) → Prop
  | found (t : Nat) (after : s ≤ t) (occurs : OccursAt pat txt t) (first : ∀ k, s ≤ k → k < t → ¬ OccursAt pat txt k) :
      LeftmostFrom pat txt s (.ok (some ((t : Int) - 1)))
  | absent (nowhere : ∀ k, s ≤ k → ¬ OccursAt pat txt k) : LeftmostFrom pat txt s (.ok none)

-- One move of a search: the table is read inside its 256 entries, and no
-- occurrence is jumped over.
structure SafeMove (pat txt : List UInt8) (s j : Nat) (c : UInt8) : Prop where
  low : c.toNat < 128
  skipped : ∀ k, s < k → k < s + windowMove pat j c → ¬ OccursAt pat txt k

def SafeFrom (pat txt : List UInt8) (s : Nat) : Prop :=
  ∀ (t j : Nat) (c : UInt8), Reaches pat txt (windowMove pat) s t → Mismatch pat txt t j c → SafeMove pat txt t j c

theorem safe_from_step (pat txt : List UInt8) (s j : Nat) (c : UInt8) (stopped : Mismatch pat txt s j c) :
    SafeFrom pat txt s ↔ SafeMove pat txt s j c ∧ SafeFrom pat txt (s + windowMove pat j c) := by
  constructor
  · intro safe
    refine ⟨safe s j c (.here s) stopped, ?_⟩
    intro t i d reaches other
    exact safe t i d (.moved s j t c stopped reaches) other
  · intro both t i d reaches other
    cases (reaches_mismatch_iff pat txt (windowMove pat) s j t c stopped).mp reaches with
    | inl same =>
        subst same
        obtain ⟨place, char⟩ := mismatch_unique pat txt t i j d c other stopped
        rw [place, char]
        exact both.1
    | inr onward => exact both.2 t i d onward other

theorem safe_from_stop (pat txt : List UInt8) (s : Nat) (matched : ∀ (j : Nat) (c : UInt8), ¬ Mismatch pat txt s j c) :
    SafeFrom pat txt s := by
  intro t j c reaches stopped
  cases reaches with
  | here => exact absurd stopped (matched j c)
  | moved _ i _ d other _ => exact absurd other (matched i d)

theorem boyer_moore_loop_place (txt pat : List UInt8) (badchar : List Int) (rounds s : Nat) (p : Int)
    (fits : pat.length ≤ txt.length) (found : boyerMooreLoop txt pat badchar rounds s = .ok (some p)) :
    ∃ t : Nat, p = t - 1 ∧ s ≤ t := by
  induction rounds generalizing s with
  | zero => cases found
  | succ rounds ih =>
      rcases boyer_moore_step txt pat badchar rounds s fits with ⟨_, run⟩ | ⟨_, run⟩ | ⟨j, c, _, run⟩
      · cases run.symm.trans found
      · cases run.symm.trans found
        exact ⟨s, rfl, Nat.le_refl s⟩
      · rw [run] at found
        split at found
        · obtain ⟨t, place, later⟩ := ih _ found
          exact ⟨t, place, by omega⟩
        · cases found

theorem leftmost_move (pat txt : List UInt8) (s j : Nat) (c : UInt8) (result : Except Fault (Option Int))
    (stopped : Mismatch pat txt s j c) (low : c.toNat < 128)
    (after : ∀ t : Nat, result = .ok (some ((t : Int) - 1)) → s + windowMove pat j c ≤ t) :
    LeftmostFrom pat txt s result ↔
      SafeMove pat txt s j c ∧ LeftmostFrom pat txt (s + windowMove pat j c) result := by
  have here := mismatch_not_occurs pat txt s j c stopped
  constructor
  · intro leftmost
    cases leftmost with
    | found t _ occurs first =>
        have later := after t rfl
        refine ⟨⟨low, ?_⟩, .found t later occurs ?_⟩
        · intro k behind inside
          exact first k (by omega) (by omega)
        · intro k from_move before
          exact first k (by omega) before
    | absent nowhere =>
        refine ⟨⟨low, ?_⟩, .absent ?_⟩
        · intro k behind _
          exact nowhere k (by omega)
        · intro k from_move
          exact nowhere k (by omega)
  · intro both
    obtain ⟨safe, leftmost⟩ := both
    have skipped : ∀ k, s ≤ k → k < s + windowMove pat j c → ¬ OccursAt pat txt k := by
      intro k from_s before
      by_cases same : k = s
      · rw [same]
        exact here
      · exact safe.skipped k (by omega) before
    cases leftmost with
    | found t later occurs first =>
        refine .found t (by omega) occurs ?_
        intro k from_s before
        by_cases early : k < s + windowMove pat j c
        · exact skipped k from_s early
        · exact first k (by omega) before
    | absent nowhere =>
        apply LeftmostFrom.absent
        intro k from_s
        by_cases early : k < s + windowMove pat j c
        · exact skipped k from_s early
        · exact nowhere k (by omega)

theorem boyer_moore_loop_leftmost (txt pat : List UInt8) (badchar : List Int) (rounds s : Nat) (nonempty : pat ≠ [])
    (fits : pat.length ≤ txt.length) (table : ∀ c : UInt8, badchar.getD c.toNat 0 = storedPlace pat c)
    (positive : 0 < rounds) (enough : txt.length - pat.length + 1 < s + rounds) :
    LeftmostFrom pat txt s (boyerMooreLoop txt pat badchar rounds s) ↔ SafeFrom pat txt s := by
  induction rounds generalizing s with
  | zero => omega
  | succ rounds ih =>
      rcases boyer_moore_step txt pat badchar rounds s fits with ⟨beyond, run⟩ | ⟨occurs, run⟩ | ⟨j, c, stopped, run⟩
      · rw [run]
        apply iff_of_true
        · exact .absent (occurs_beyond pat txt s nonempty beyond)
        · apply safe_from_stop
          intro j c stopped
          have bound := mismatch_bound pat txt s j c stopped
          omega
      · rw [run]
        apply iff_of_true
        · exact .found s (Nat.le_refl s) occurs (fun k low high => absurd low (by omega))
        · apply safe_from_stop
          intro j c stopped
          exact mismatch_not_occurs pat txt s j c stopped occurs
      · have forward := window_move_pos pat j c
        have bound := mismatch_bound pat txt s j c stopped
        rw [run, table c, ← windowMove]
        by_cases low : c.toNat < 128
        · rw [if_pos low, safe_from_step pat txt s j c stopped, ← ih (s + windowMove pat j c) (by omega) (by omega)]
          apply leftmost_move pat txt s j c _ stopped low
          intro t found
          obtain ⟨u, place, later⟩ := boyer_moore_loop_place txt pat badchar rounds _ _ fits found
          omega
        · rw [if_neg low]
          apply iff_of_false
          · intro leftmost
            cases leftmost
          · intro safe
            exact low (safe s j c (.here s) stopped).low

-- The delimiter does not fit into the text, or its bytes and the bytes of the
-- text on which a window fails are 7-bit and no move is too far.
def Searchable (pat txt : List UInt8) : Prop :=
  txt.length < pat.length ∨ (∀ c ∈ pat, c.toNat < 128) ∧ SafeFrom pat txt 0

theorem find_first_of_leftmost (txt pat : List UInt8) (long : 2 ≤ pat.length) :
    LeftmostFrom pat txt 0 (findFirstOf txt pat) ↔ Searchable pat txt := by
  have nonempty : pat ≠ [] := List.ne_nil_of_length_pos (by omega)
  by_cases small : txt.length < pat.length
  · have missing : findFirstOf txt pat = .ok none := by
      rw [findFirstOf]
      split
      · rfl
      · rw [boyerMoore, if_pos (.inr small)]
    rw [missing]
    exact iff_of_true (.absent (occurs_beyond pat txt 0 nonempty (by omega))) (.inl small)
  · have some_text : txt ≠ [] := List.ne_nil_of_length_pos (by omega)
    rw [findFirstOf, if_neg some_text, boyerMoore, if_neg (by omega), if_neg (by omega), Searchable,
      or_iff_right small]
    by_cases low : ∀ c ∈ pat, c.toNat < 128
    · obtain ⟨badchar, filled, _, table⟩ := bad_char_heuristic_entries pat low
      rw [filled, and_iff_right low]
      exact boyer_moore_loop_leftmost txt pat badchar (txt.length + 1) 0 nonempty (by omega) table (by omega) (by omega)
    · rw [badCharHeuristic]
      have high : ∃ c ∈ pat, 128 ≤ c.toNat := by simpa using low
      obtain ⟨c, member, above⟩ := high
      rw [bad_char_loop_high pat 0 _ c member above]
      apply iff_of_false
      · intro leftmost
        cases leftmost
      · intro both
        exact low both.1

-- Up to 128 bytes a place is kept as it is, and no move is too far.
theorem searchable_short (pat txt : List UInt8) (short : pat.length ≤ 128) :
    Searchable pat txt ↔ txt.length < pat.length ∨ (∀ c ∈ pat, c.toNat < 128) ∧
      ∀ (t j : Nat) (c : UInt8), Reaches pat txt (windowMove pat) 0 t → Mismatch pat txt t j c → c.toNat < 128 := by
  rw [Searchable]
  apply or_congr_right
  apply and_congr_right
  intro low
  constructor
  · intro safe t j c reaches stopped
    exact (safe t j c reaches stopped).low
  · intro lows t j c reaches stopped
    refine ⟨lows t j c reaches stopped, ?_⟩
    intro k behind inside
    obtain ⟨moved, rfl⟩ := Nat.exists_eq_add_of_lt behind
    obtain ⟨atLeast, last⟩ := stored_place_short pat c short
    apply bad_character_skip pat txt t j (moved + 1) c (storedPlace pat c) stopped.inside stopped.seen
      (fun i past _ => last i past) atLeast (by omega)
    rw [windowMove] at inside
    omega

theorem find_first_of_place (txt pat : List UInt8) (long : 2 ≤ pat.length) (p : Int)
    (found : findFirstOf txt pat = .ok (some p)) : ∃ t : Nat, p = t - 1 := by
  rw [findFirstOf] at found
  split at found
  · cases found
  · rw [boyerMoore] at found
    split at found
    · cases found
    · rw [if_neg (by omega)] at found
      obtain ⟨badchar, _, found⟩ := (except_bind_ok _ _ _).mp found
      obtain ⟨t, place, _⟩ := boyer_moore_loop_place txt pat badchar _ 0 p (by omega) found
      exact ⟨t, place⟩

def LeftmostSize (text delim : List UInt8) : Prop :=
  ∃ sv, stringViewCtor (text ++ [0]) 0 delim = .ok sv ∧ (sv.size = -1 ↔ Absent delim text) ∧
    ∀ s : Nat, FirstAt delim text s → sv.size = s

theorem leftmost_size_found (text delim : List UInt8) (t : Nat) (present : ¬ Absent delim text)
    (first : ∀ s : Nat, FirstAt delim text s → (t : Int) = s) :
    LeftmostFrom delim text 0 (.ok (some ((t : Int) - 1))) := by
  have occurs : ∃ k, OccursAt delim text k := by simpa [Absent] using present
  obtain ⟨k, here⟩ := occurs
  obtain ⟨s, least⟩ := first_exists delim text k here
  have same := first s least
  have place : t = s := by omega
  subst place
  exact .found t (Nat.zero_le t) least.occurs (fun k _ before => least.first k before)

theorem leftmost_size_iff (text delim : List UInt8) (clean : 0 ∉ text) (long : 2 ≤ delim.length) :
    LeftmostSize text delim ↔ LeftmostFrom delim text 0 (findFirstOf text delim) := by
  rw [LeftmostSize, stringViewCtor, cstr_at_start text [] clean]
  simp only [bind, Except.bind]
  cases result : findFirstOf text delim with
  | error fault =>
      apply iff_of_false
      · intro sized
        obtain ⟨sv, wrong, _⟩ := sized
        cases wrong
      · intro leftmost
        cases leftmost
  | ok found =>
      cases found with
      | none =>
          constructor
          · intro sized
            obtain ⟨sv, same, absent, _⟩ := sized
            cases same
            exact .absent fun k _ => absent.mp rfl k
          · intro leftmost
            cases leftmost with
            | absent nowhere =>
                refine ⟨_, rfl, iff_of_true rfl (fun k => nowhere k (Nat.zero_le k)), ?_⟩
                intro s first
                exact absurd first.occurs (nowhere s (Nat.zero_le s))
      | some p =>
          obtain ⟨t, place⟩ := find_first_of_place text delim long p result
          subst place
          simp only [Int.sub_add_cancel]
          constructor
          · intro sized
            obtain ⟨sv, same, absent, first⟩ := sized
            cases same
            simp only at absent first
            apply leftmost_size_found text delim t ?_ first
            intro nowhere
            have wrong := absent.mpr nowhere
            omega
          · intro leftmost
            generalize place : (t : Int) - 1 = p at leftmost
            cases leftmost with
            | found u _ occurs first =>
                have same : t = u := by omega
                subst same
                refine ⟨_, rfl, iff_of_false (by simp only; omega) (fun absent => absent t occurs), ?_⟩
                intro s other
                rw [first_unique delim text s t other ⟨occurs, fun k less => first k (Nat.zero_le k) less⟩]

theorem string_view_ctor_leftmost_iff (text delim : List UInt8) (clean : 0 ∉ text) (long : 2 ≤ delim.length) :
    (LeftmostSize text delim ↔ Searchable delim text) ∧
      (delim.length ≤ 128 → (Searchable delim text ↔ text.length < delim.length ∨ (∀ c ∈ delim, c.toNat < 128) ∧
        ∀ (t j : Nat) (c : UInt8), Reaches delim text (windowMove delim) 0 t → Mismatch delim text t j c → c.toNat < 128)) := by
  refine ⟨?_, fun short => searchable_short delim text short⟩
  rw [leftmost_size_iff text delim clean long]
  exact find_first_of_leftmost text delim long

theorem string_view_ctor_leftmost_line :
    let text := ascii "Host: a\r\n\r\n"
    let delim := ascii "\r\n"
    (LeftmostSize text delim ↔ Searchable delim text) ∧
      (delim.length ≤ 128 → (Searchable delim text ↔ text.length < delim.length ∨ (∀ c ∈ delim, c.toNat < 128) ∧
        ∀ (t j : Nat) (c : UInt8), Reaches delim text (windowMove delim) 0 t → Mismatch delim text t j c → c.toNat < 128)) :=
  string_view_ctor_leftmost_iff (ascii "Host: a\r\n\r\n") (ascii "\r\n") (by decide +kernel) (by decide +kernel)

-- The first window of "\r\n" fails on the second character of the text.
theorem string_view_ctor_leftmost_fails :
    ¬ ∀ text delim : List UInt8, 0 ∉ text → 0 ∉ delim → 2 ≤ delim.length → LeftmostSize text delim := by
  intro all
  have sized := all [97, 233] (ascii "\r\n") (by decide) (by decide +kernel) (by decide +kernel)
  have wrong : stringViewCtor ([97, 233] ++ [0]) 0 (ascii "\r\n") = .error .bounds := by decide +kernel
  obtain ⟨sv, same, _⟩ := sized
  rw [wrong] at same
  cases same

end Facebooc
