import Mathlib.Data.List.Basic
import Mathlib.Data.List.TakeWhile
import Mathlib.Data.Nat.Find

set_option autoImplicit false

namespace StringSearch

variable {α : Type}

def OccursAt (pat txt : List α) (s : Nat) : Prop := pat <+: txt.drop s

theorem occurs_iff (pat txt : List α) (s : Nat) :
    OccursAt pat txt s ↔ ∀ i, i < pat.length → txt[s + i]? = pat[i]? := by
  rw [OccursAt, List.prefix_iff_getElem?]
  constructor
  · intro occurs i bound
    rw [← List.getElem?_drop, occurs i bound, List.getElem?_eq_getElem bound]
  · intro same i bound
    rw [List.getElem?_drop, same i bound, List.getElem?_eq_getElem bound]

theorem occurs_bound (pat txt : List α) (s : Nat) (nonempty : pat ≠ []) (occurs : OccursAt pat txt s) :
    s + pat.length ≤ txt.length := by
  have short := occurs.length_le
  have positive := List.length_pos_iff.mpr nonempty
  rw [List.length_drop] at short
  omega

theorem occurs_beyond (pat txt : List α) (s : Nat) (nonempty : pat ≠ []) (beyond : txt.length < s + pat.length) :
    ∀ k, s ≤ k → ¬ OccursAt pat txt k := by
  intro k from_s occurs
  have bound := occurs_bound pat txt k nonempty occurs
  omega

-- Only the text up to the end of an occurrence decides it.
theorem occurs_append (pat before after : List α) : OccursAt pat (before ++ pat ++ after) before.length := by
  rw [OccursAt, List.append_assoc, List.drop_left]
  exact List.prefix_append pat after

-- A window that fails on the character c at j may be moved until the last c of
-- the pattern in front of j comes under it.
theorem bad_character_skip (pat txt : List α) (s j k : Nat) (c : α) (last : Int) (inside : j < pat.length)
    (seen : txt[s + j]? = some c) (lastSeen : ∀ i : Nat, last < i → i < j → pat[i]? ≠ some c)
    (atLeast : -1 ≤ last) (moved : 0 < k) (near : (k : Int) < j - last) : ¬ OccursAt pat txt (s + k) := by
  intro occurs
  have aligned := (occurs_iff pat txt (s + k)).mp occurs (j - k) (by omega)
  have place : s + k + (j - k) = s + j := by omega
  rw [place, seen] at aligned
  exact lastSeen (j - k) (by omega) (by omega) aligned.symm

-- Two ways to compare characters that agree on the ones at hand.
theorem occurs_map_congr {β γ : Type} (pat txt : List α) (f : α → β) (g : α → γ) (s : Nat)
    (agree : ∀ x ∈ pat, ∀ y ∈ txt, f y = f x ↔ g y = g x) :
    OccursAt (pat.map f) (txt.map f) s ↔ OccursAt (pat.map g) (txt.map g) s := by
  rw [occurs_iff, occurs_iff, List.length_map, List.length_map]
  refine forall₂_congr fun i bound => ?_
  rw [List.getElem?_map, List.getElem?_map, List.getElem?_map, List.getElem?_map, List.getElem?_eq_getElem bound]
  cases seen : txt[s + i]? with
  | none => simp
  | some y => simpa using agree pat[i] (List.getElem_mem bound) y (List.mem_of_getElem? seen)

structure FirstAt (pat txt : List α) (s : Nat) : Prop where
  occurs : OccursAt pat txt s
  first : ∀ k < s, ¬ OccursAt pat txt k

theorem first_at_split (pat txt : List α) (s : Nat) (nonempty : pat ≠ []) (found : FirstAt pat txt s) :
    ∃ after, txt = txt.take s ++ pat ++ after ∧ ¬ pat <:+: txt.take s := by
  obtain ⟨after, here⟩ := found.occurs
  refine ⟨after, by rw [List.append_assoc, here, List.take_append_drop], ?_⟩
  rintro ⟨front, back, inside⟩
  have positive := List.length_pos_iff.mpr nonempty
  have length := congrArg List.length inside
  rw [List.length_append, List.length_append] at length
  have short := List.length_take_le s txt
  refine found.first front.length (by omega) ?_
  have whole : txt = front ++ pat ++ (back ++ txt.drop s) := by
    rw [← List.append_assoc, inside, List.take_append_drop]
  rw [whole]
  exact occurs_append pat front _

def Absent (pat txt : List α) : Prop := ∀ k, ¬ OccursAt pat txt k

theorem first_unique (pat txt : List α) (s t : Nat) (left : FirstAt pat txt s) (right : FirstAt pat txt t) : s = t := by
  rcases Nat.lt_trichotomy s t with less | same | more
  · exact absurd left.occurs (right.first s less)
  · exact same
  · exact absurd right.occurs (left.first t more)

theorem first_exists (pat txt : List α) (t : Nat) (occurs : OccursAt pat txt t) : ∃ s, FirstAt pat txt s := by
  classical
  have some_place : ∃ k, OccursAt pat txt k := ⟨t, occurs⟩
  exact ⟨Nat.find some_place, Nat.find_spec some_place, fun k less => Nat.find_min some_place less⟩

structure Mismatch (pat txt : List α) (s j : Nat) (c : α) : Prop where
  inside : j < pat.length
  seen : txt[s + j]? = some c
  differs : pat[j]? ≠ some c
  behind : ∀ i, j < i → i < pat.length → pat[i]? = txt[s + i]?

theorem mismatch_bound (pat txt : List α) (s j : Nat) (c : α) (stopped : Mismatch pat txt s j c) :
    s + pat.length ≤ txt.length := by
  have inside := stopped.inside
  by_cases last : j + 1 = pat.length
  · obtain ⟨bound, _⟩ := List.getElem?_eq_some_iff.mp stopped.seen
    omega
  · have same := stopped.behind (pat.length - 1) (by omega) (by omega)
    rw [List.getElem?_eq_getElem (by omega)] at same
    obtain ⟨bound, _⟩ := List.getElem?_eq_some_iff.mp same.symm
    omega

theorem mismatch_unique (pat txt : List α) (s i j : Nat) (c d : α) (left : Mismatch pat txt s i c)
    (right : Mismatch pat txt s j d) : i = j ∧ c = d := by
  rcases Nat.lt_trichotomy i j with less | same | more
  · have agree := left.behind j less right.inside
    rw [right.seen] at agree
    exact absurd agree right.differs
  · subst same
    exact ⟨rfl, Option.some.inj (left.seen.symm.trans right.seen)⟩
  · have agree := right.behind i more left.inside
    rw [left.seen] at agree
    exact absurd agree left.differs

theorem mismatch_not_occurs (pat txt : List α) (s j : Nat) (c : α) (stopped : Mismatch pat txt s j c) :
    ¬ OccursAt pat txt s := by
  intro occurs
  have same := (occurs_iff pat txt s).mp occurs j stopped.inside
  exact stopped.differs (same.symm.trans stopped.seen)

-- The windows a search comes to when every mismatch moves it on by a distance
-- that depends on the place and the character.
inductive Reaches (pat txt : List α) (move : Nat → α → Nat) : Nat → Nat → Prop
  | here (s : Nat) : Reaches pat txt move s s
  | moved (s j t : Nat) (c : α) (stopped : Mismatch pat txt s j c) (onward : Reaches pat txt move (s + move j c) t) :
      Reaches pat txt move s t

theorem reaches_mismatch_iff (pat txt : List α) (move : Nat → α → Nat) (s j t : Nat) (c : α)
    (stopped : Mismatch pat txt s j c) :
    Reaches pat txt move s t ↔ t = s ∨ Reaches pat txt move (s + move j c) t := by
  constructor
  · intro reaches
    cases reaches with
    | here => exact .inl rfl
    | moved _ i _ d other onward =>
        obtain ⟨place, char⟩ := mismatch_unique pat txt s i j d c other stopped
        subst place char
        exact .inr onward
  · intro either
    cases either with
    | inl same => rw [same]; exact .here s
    | inr onward => exact .moved s j t c stopped onward

section Index

variable [DecidableEq α]

def lastPlace (c : α) : List α → Option Nat
  | [] => none
  | d :: rest =>
      match lastPlace c rest with
      | some i => some (i + 1)
      | none => if d = c then some 0 else none

theorem last_place_behind (c : α) (pat : List α) (i : Nat)
    (behind : ∀ j, lastPlace c pat = some j → j < i) : pat[i]? ≠ some c := by
  induction pat generalizing i with
  | nil => simp
  | cons d rest ih =>
      rw [lastPlace] at behind
      cases i with
      | zero =>
          cases place : lastPlace c rest with
          | some k =>
              rw [place] at behind
              exact absurd (behind (k + 1) rfl) (by omega)
          | none =>
              intro seen
              have same : d = c := by simpa using seen
              rw [place] at behind
              simp only [if_pos same] at behind
              exact absurd (behind 0 rfl) (by omega)
      | succ i =>
          rw [List.getElem?_cons_succ]
          apply ih i
          intro k found
          rw [found] at behind
          exact Nat.lt_of_succ_lt_succ (behind (k + 1) rfl)

theorem last_place_bound (c : α) (pat : List α) (i : Nat) (found : lastPlace c pat = some i) : i < pat.length := by
  induction pat generalizing i with
  | nil => cases found
  | cons d rest ih =>
      rw [lastPlace] at found
      cases place : lastPlace c rest with
      | some k =>
          rw [place] at found
          cases found
          exact Nat.succ_lt_succ (ih k place)
      | none =>
          rw [place] at found
          simp only at found
          split at found
          · cases found
            exact Nat.succ_pos _
          · cases found

theorem idx_of_append (before rest : List α) (c : α) (clean : c ∉ before) :
    (before ++ c :: rest).idxOf? c = some before.length := by
  induction before with
  | nil => simp [List.idxOf?_cons]
  | cons head tail ih =>
      rw [List.mem_cons, not_or] at clean
      rw [List.cons_append, List.idxOf?_cons, ih clean.2, if_neg (by simpa using fun same : head = c => clean.1 same.symm)]
      rfl

theorem idx_of_take (text : List α) (c : α) (i : Nat) (found : text.idxOf? c = some i) :
    text.take i = text.takeWhile (fun d => d ≠ c) := by
  induction text generalizing i with
  | nil => cases found
  | cons head tail ih =>
      rw [List.idxOf?_cons] at found
      by_cases same : head = c
      · rw [if_pos (by simp [same])] at found
        cases found
        simp [same]
      · rw [if_neg (by simpa using same)] at found
        obtain ⟨j, inner, rfl⟩ := Option.map_eq_some_iff.mp found
        rw [List.take_succ_cons, ih j inner, List.takeWhile_cons_of_pos (by simpa using same)]

theorem idx_of_none (text : List α) (c : α) (missing : text.idxOf? c = none) :
    text.takeWhile (fun d => d ≠ c) = text := by
  rw [List.takeWhile_eq_self_iff]
  intro d member
  exact decide_eq_true fun same => List.idxOf?_eq_none_iff.mp missing (same ▸ member)

theorem idx_of_clean (text rest : List α) (c : α) (i : Nat) (found : text.idxOf? c = some i) :
    c ∉ (text ++ rest).take i := by
  obtain ⟨bound, _, before⟩ := List.idxOf?_eq_some_iff.mp found
  rw [List.take_append_of_le_length (Nat.le_of_lt bound)]
  intro member
  obtain ⟨j, inside, same⟩ := List.mem_take_iff_getElem.mp member
  exact before j (by omega) same

end Index

end StringSearch
