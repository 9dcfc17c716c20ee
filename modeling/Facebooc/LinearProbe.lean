import Mathlib.Data.List.ReduceOption
import Mathlib.Data.List.Perm.Basic
import Mathlib.Data.Nat.ModEq

set_option autoImplicit false

namespace LinearProbe

-- Open addressing with linear probing over an arbitrary element type. A table
-- is a list of slots, `home` sends an element to the slot its search starts at,
-- and nothing is assumed about collisions.

def next (n i : Nat) : Nat := if n ≤ i + 1 then 0 else i + 1

inductive Stop (α : Type) where
  | hole (i : Nat)
  | hit (i : Nat) (x : α)
  | lost
deriving DecidableEq, Repr

-- One slot per unit of fuel. `lost` is a read outside the table or a search
-- that has used up its fuel.
def probe {α : Type} (t : List (Option α)) (stop : α → Bool) : Nat → Nat → Stop α
  | 0, _ => .lost
  | fuel + 1, i =>
      match t[i]? with
      | none => .lost
      | some none => .hole i
      | some (some x) => if stop x then .hit i x else probe t stop fuel (next t.length i)

theorem probe_hole_cases {α : Type} (t : List (Option α)) (fuel index i : Nat)
    (ends : probe t (fun _ => false) (fuel + 1) index = .hole i) :
    (t[index]? = some none ∧ index = i) ∨
      ∃ x slot, t[index]? = some (some x) ∧ t[next t.length index]? = some slot ∧
        probe t (fun _ => false) fuel (next t.length index) = .hole i := by
  rw [probe] at ends
  split at ends
  · cases ends
  · rename_i empty
    exact .inl ⟨empty, by injection ends⟩
  · rename_i x taken
    simp only [Bool.false_eq_true, if_false] at ends
    cases behind : t[next t.length index]? with
    | some slot => exact .inr ⟨x, slot, taken, rfl, ends⟩
    | none =>
        cases fuel with
        | zero => cases ends
        | succ fuel =>
            rw [probe, behind] at ends
            cases ends

def Occupied {α : Type} (t : List (Option α)) (i : Nat) : Prop := ∃ x, t[i]? = some (some x)

def Hole {α : Type} (t : List (Option α)) (i : Nat) : Prop := t[i]? = some none

-- Slot `j` can be reached from `h`: walking cyclically from `h`, no hole is met
-- before `j`.
def Reached {α : Type} (t : List (Option α)) (h j : Nat) : Prop :=
  ∃ d < t.length, (h + d) % t.length = j ∧ ∀ k < d, Occupied t ((h + k) % t.length)

def Closed {α : Type} (home : α → Nat) (t : List (Option α)) : Prop :=
  ∀ j x, t[j]? = some (some x) → Reached t (home x) j

def contents {α : Type} (t : List (Option α)) : List α := t.reduceOption

theorem contents_none {α : Type} (t : List (Option α)) : contents (none :: t) = contents t :=
  List.reduceOption_cons_of_none t

theorem contents_some {α : Type} (t : List (Option α)) (x : α) : contents (some x :: t) = x :: contents t :=
  List.reduceOption_cons_of_some x t

theorem mem_contents {α : Type} (t : List (Option α)) (x : α) :
    x ∈ contents t ↔ ∃ j : Nat, t[j]? = some (some x) := by
  rw [contents, List.reduceOption_mem_iff, List.mem_iff_getElem?]

theorem next_walk (n h d : Nat) (positive : 0 < n) : next n ((h + d) % n) = (h + (d + 1)) % n := by
  have bound := Nat.mod_lt (h + d) positive
  have step : (h + (d + 1)) % n = ((h + d) % n + 1) % n := by
    rw [← Nat.add_assoc, Nat.mod_add_mod]
  rw [step]
  by_cases full : n ≤ (h + d) % n + 1
  · have last : (h + d) % n + 1 = n := by omega
    rw [next, if_pos full, last, Nat.mod_self]
  · rw [next, if_neg full, Nat.mod_eq_of_lt (show (h + d) % n + 1 < n by omega)]

theorem walk_onto (n h j : Nat) (bound : j < n) : ∃ d < n, (h + d) % n = j := by
  have reduced := Nat.mod_lt h (show 0 < n by omega)
  refine ⟨(j + (n - h % n)) % n, Nat.mod_lt _ (by omega), ?_⟩
  calc (h + (j + (n - h % n)) % n) % n = (h + (j + (n - h % n))) % n := Nat.add_mod_mod _ _ _
    _ = (h % n + (j + (n - h % n))) % n := (Nat.mod_add_mod h n _).symm
    _ = (j + n) % n := by congr 1; omega
    _ = j := by rw [Nat.add_mod_right, Nat.mod_eq_of_lt bound]

theorem hole_or_occupied {α : Type} (t : List (Option α)) (i : Nat) (bound : i < t.length) :
    Hole t i ∨ Occupied t i := by
  cases slot : t[i]? with
  | none => exact absurd (List.getElem?_eq_none_iff.mp slot) (by omega)
  | some content =>
      cases content with
      | none => exact .inl slot
      | some x => exact .inr ⟨x, slot⟩

theorem hole_not_occupied {α : Type} (t : List (Option α)) (i : Nat) (hole : Hole t i) : ¬ Occupied t i := by
  rintro ⟨x, full⟩
  rw [Hole, full] at hole
  cases hole

theorem room_has_hole {α : Type} (t : List (Option α)) (h : Nat) (room : (contents t).length < t.length) :
    ∃ d < t.length, Hole t ((h + d) % t.length) := by
  have absent : none ∈ t := by
    by_contra full
    have some_all : ∀ slot ∈ t, slot.isSome = true := by
      intro slot member
      cases slot with
      | none => exact absurd member full
      | some x => rfl
    have same : t.filter Option.isSome = t := List.filter_eq_self.mpr some_all
    rw [contents, List.reduceOption_length_eq, same] at room
    exact Nat.lt_irrefl _ room
  obtain ⟨j, bound, slot⟩ := List.mem_iff_getElem.mp absent
  obtain ⟨d, dBound, reach⟩ := walk_onto t.length h j bound
  exact ⟨d, dBound, by rw [reach, Hole, List.getElem?_eq_getElem bound, slot]⟩

-- What the first `d` slots of a walk have shown while it has not stopped.
def Passed {α : Type} (t : List (Option α)) (stop : α → Bool) (h d : Nat) : Prop :=
  ∀ k < d, ∃ x, t[(h + k) % t.length]? = some (some x) ∧ stop x = false

theorem passed_succ {α : Type} (t : List (Option α)) (stop : α → Bool) (h d : Nat) (x : α)
    (passed : Passed t stop h d) (slot : t[(h + d) % t.length]? = some (some x)) (goes : stop x = false) :
    Passed t stop h (d + 1) := by
  intro k less
  rcases Nat.lt_succ_iff_lt_or_eq.mp less with earlier | here
  · exact passed k earlier
  · subst here
    exact ⟨x, slot, goes⟩

inductive ProbeEnds {α : Type} (t : List (Option α)) (stop : α → Bool) (h : Nat) : Stop α → Prop where
  | hole (d : Nat) (bound : d < t.length) (passed : Passed t stop h d) (hole : Hole t ((h + d) % t.length)) :
      ProbeEnds t stop h (.hole ((h + d) % t.length))
  | hit (d : Nat) (x : α) (bound : d < t.length) (passed : Passed t stop h d)
      (slot : t[(h + d) % t.length]? = some (some x)) (stops : stop x = true) :
      ProbeEnds t stop h (.hit ((h + d) % t.length) x)

theorem probe_from {α : Type} (t : List (Option α)) (stop : α → Bool) (h e fuel d : Nat) (eBound : e < t.length)
    (hole : Hole t ((h + e) % t.length)) (budget : fuel + d = t.length) (passed : Passed t stop h d) :
    ProbeEnds t stop h (probe t stop fuel ((h + d) % t.length)) := by
  induction fuel generalizing d with
  | zero =>
      obtain ⟨x, slot, _⟩ := passed e (by omega)
      exact absurd ⟨x, slot⟩ (hole_not_occupied t _ hole)
  | succ fuel ih =>
      have positive : 0 < t.length := by omega
      rcases hole_or_occupied t ((h + d) % t.length) (Nat.mod_lt _ positive) with empty | ⟨x, slot⟩
      · rw [probe, empty]
        exact .hole d (by omega) passed empty
      · rw [probe, slot]
        dsimp only
        by_cases stops : stop x = true
        · rw [if_pos stops]
          exact .hit d x (by omega) passed slot stops
        · rw [if_neg stops, next_walk t.length h d positive]
          exact ih (d + 1) (by omega) (passed_succ t stop h d x passed slot (by simpa using stops))

theorem probe_ends {α : Type} (t : List (Option α)) (stop : α → Bool) (h : Nat)
    (room : (contents t).length < t.length) (home : h < t.length) :
    ProbeEnds t stop h (probe t stop t.length h) := by
  obtain ⟨e, eBound, hole⟩ := room_has_hole t h room
  have start : (h + 0) % t.length = h := Nat.mod_eq_of_lt home
  have result := probe_from t stop h e t.length 0 eBound hole (Nat.add_zero _) (fun k less => absurd less (Nat.not_lt_zero k))
  rwa [start] at result

theorem walk_injective (n h d e : Nat) (dBound : d < n) (eBound : e < n)
    (same : (h + d) % n = (h + e) % n) : d = e := by
  have residues : d % n = e % n := Nat.ModEq.add_left_cancel' h same
  rwa [Nat.mod_eq_of_lt dBound, Nat.mod_eq_of_lt eBound] at residues

theorem probe_hit_from {α : Type} (t : List (Option α)) (stop : α → Bool) (h d fuel e : Nat) (x : α) (bound : d < t.length)
    (passed : Passed t stop h d) (slot : t[(h + d) % t.length]? = some (some x)) (stops : stop x = true)
    (budget : fuel + e = t.length) (before : e ≤ d) :
    probe t stop fuel ((h + e) % t.length) = .hit ((h + d) % t.length) x := by
  induction fuel generalizing e with
  | zero => omega
  | succ fuel ih =>
      rcases Nat.eq_or_lt_of_le before with rfl | earlier
      · rw [probe, slot]
        exact if_pos stops
      · obtain ⟨y, seen, goes⟩ := passed e earlier
        rw [probe, seen]
        simp only [goes, Bool.false_eq_true, if_false]
        rw [next_walk t.length h e (by omega)]
        exact ih (e + 1) (by omega) earlier

theorem probe_hit {α : Type} (t : List (Option α)) (stop : α → Bool) (h d : Nat) (x : α) (home : h < t.length)
    (bound : d < t.length) (passed : Passed t stop h d) (slot : t[(h + d) % t.length]? = some (some x))
    (stops : stop x = true) : probe t stop t.length h = .hit ((h + d) % t.length) x := by
  have start : (h + 0) % t.length = h := Nat.mod_eq_of_lt home
  have result := probe_hit_from t stop h d t.length 0 x bound passed slot stops (Nat.add_zero _) (Nat.zero_le d)
  rwa [start] at result

-- A write behind the part of the walk that matters changes nothing about it.
theorem passed_set {α : Type} (t : List (Option α)) (stop : α → Bool) (h d i : Nat) (slot : Option α)
    (passed : Passed t stop h d) (away : ∀ k < d, i ≠ (h + k) % t.length) : Passed (t.set i slot) stop h d := by
  intro k less
  obtain ⟨x, seen, goes⟩ := passed k less
  exact ⟨x, by rw [List.length_set, List.getElem?_set_ne (away k less), seen], goes⟩

theorem passed_occupied {α : Type} (t : List (Option α)) (stop : α → Bool) (h d : Nat) (passed : Passed t stop h d) :
    ∀ k < d, Occupied t ((h + k) % t.length) := by
  intro k less
  obtain ⟨x, slot, _⟩ := passed k less
  exact ⟨x, slot⟩

-- A search that ends in a hole has seen every stored element it could want.
theorem hole_excludes {α : Type} (home : α → Nat) (t : List (Option α)) (stop : α → Bool) (h d : Nat)
    (closed : Closed home t) (homes : ∀ x, stop x = true → home x = h) (bound : d < t.length)
    (passed : Passed t stop h d) (hole : Hole t ((h + d) % t.length)) :
    ∀ x ∈ contents t, stop x = false := by
  intro x member
  by_contra stops
  have wanted : stop x = true := by simpa using stops
  obtain ⟨j, slot⟩ := (mem_contents t x).mp member
  obtain ⟨e, eBound, atJ, chain⟩ := closed j x slot
  rw [homes x wanted] at atJ chain
  rcases Nat.lt_trichotomy e d with before | same | after
  · obtain ⟨y, seen, goes⟩ := passed e before
    rw [atJ, slot] at seen
    cases seen
    exact stops goes
  · subst same
    rw [atJ] at hole
    exact hole_not_occupied t j hole ⟨x, slot⟩
  · exact hole_not_occupied t _ hole (chain d after)

theorem reached_mono {α : Type} (t u : List (Option α)) (h j : Nat) (lengths : u.length = t.length)
    (keeps : ∀ i, Occupied t i → Occupied u i) (reached : Reached t h j) : Reached u h j := by
  obtain ⟨d, bound, atJ, chain⟩ := reached
  refine ⟨d, by omega, by rw [lengths]; exact atJ, ?_⟩
  intro k less
  rw [lengths]
  exact keeps _ (chain k less)

theorem set_keeps_occupied {α : Type} (t : List (Option α)) (i j : Nat) (x : α) (full : Occupied t j) :
    Occupied (t.set i (some x)) j := by
  obtain ⟨y, slot⟩ := full
  have bound : j < t.length := (List.getElem?_eq_some_iff.mp slot).1
  by_cases same : i = j
  · subst same
    exact ⟨x, List.getElem?_set_self bound⟩
  · exact ⟨y, by rw [List.getElem?_set_ne same, slot]⟩

theorem closed_set {α : Type} (home : α → Nat) (t : List (Option α)) (i : Nat) (x : α)
    (closed : Closed home t) (reached : Reached t (home x) i) : Closed home (t.set i (some x)) := by
  intro j y slot
  apply reached_mono t _ (home y) j (List.length_set ..) (fun k => set_keeps_occupied t i k x)
  by_cases same : i = j
  · subst same
    have inside : i < t.length := by
      obtain ⟨d, bound, atI, _⟩ := reached
      rw [← atI]
      exact Nat.mod_lt _ (by omega)
    rw [List.getElem?_set_self inside] at slot
    cases slot
    exact reached
  · rw [List.getElem?_set_ne same] at slot
    exact closed j y slot

theorem contents_split {α : Type} (t : List (Option α)) (i : Nat) (slot : Option α) (bound : i < t.length) :
    contents (t.set i slot) = contents (t.take i) ++ (slot.toList ++ contents (t.drop (i + 1))) := by
  rw [contents, List.set_eq_take_append_cons_drop, if_pos bound, List.reduceOption_append]
  cases slot with
  | none => exact congrArg (_ ++ ·) (contents_none _)
  | some x => exact congrArg (_ ++ ·) (contents_some _ x)

theorem contents_at {α : Type} (t : List (Option α)) (i : Nat) (slot : Option α) (present : t[i]? = some slot) :
    contents t = contents (t.take i) ++ (slot.toList ++ contents (t.drop (i + 1))) := by
  obtain ⟨bound, value⟩ := List.getElem?_eq_some_iff.mp present
  rw [← contents_split t i slot bound, ← value, List.set_getElem_self]

theorem mem_contents_take {α : Type} (t : List (Option α)) (j : Nat) (x : α) :
    x ∈ contents (t.take j) ↔ ∃ i < j, t[i]? = some (some x) := by
  rw [mem_contents]
  constructor
  · intro stored
    obtain ⟨i, slot⟩ := stored
    have bound := (List.getElem?_eq_some_iff.mp slot).1
    rw [List.length_take] at bound
    have inside : i < j := by omega
    exact ⟨i, inside, by rwa [List.getElem?_take_of_lt inside] at slot⟩
  · intro stored
    obtain ⟨i, inside, slot⟩ := stored
    exact ⟨i, by rw [List.getElem?_take_of_lt inside, slot]⟩

theorem contents_unique {α β : Type} (t : List (Option α)) (f : α → β) (i j : Nat) (x y : α)
    (distinct : ((contents t).map f).Nodup) (iSlot : t[i]? = some (some x)) (jSlot : t[j]? = some (some y))
    (same : f x = f y) : i = j := by
  have ordered : ∀ (i j : Nat) (x y : α), t[i]? = some (some x) → t[j]? = some (some y) → f x = f y → ¬ i < j := by
    intro i j x y iSlot jSlot same less
    have member := (mem_contents_take t j x).mpr ⟨i, less, iSlot⟩
    rw [contents_at t j _ jSlot, List.map_append] at distinct
    exact (List.nodup_append.mp distinct).2.2 _ (List.mem_map_of_mem member) _ (by simp) same
  rcases Nat.lt_trichotomy i j with less | rfl | more
  · exact absurd less (ordered i j x y iSlot jSlot same)
  · rfl
  · exact absurd more (ordered j i y x jSlot iSlot same.symm)

theorem contents_fill {α : Type} (t : List (Option α)) (i : Nat) (x : α) (hole : Hole t i) :
    (contents (t.set i (some x))).Perm (x :: contents t) := by
  have bound : i < t.length := (List.getElem?_eq_some_iff.mp hole).1
  rw [contents_split t i _ bound, contents_at t i none hole]
  exact List.perm_middle

theorem contents_replace {α : Type} (t : List (Option α)) (i : Nat) (x y : α) (slot : t[i]? = some (some y)) :
    ∃ rest, (contents t).Perm (y :: rest) ∧ (contents (t.set i (some x))).Perm (x :: rest) := by
  have bound : i < t.length := (List.getElem?_eq_some_iff.mp slot).1
  refine ⟨contents (t.take i) ++ contents (t.drop (i + 1)), ?_, ?_⟩
  · rw [contents_at t i _ slot]
    exact List.perm_middle
  · rw [contents_split t i _ bound]
    exact List.perm_middle

def place {α : Type} (home : α → Nat) (x : α) (t : List (Option α)) : List (Option α) :=
  match probe t (fun _ => false) t.length (home x) with
  | .hole i => t.set i (some x)
  | _ => t

structure Placed {α : Type} (home : α → Nat) (x : α) (t u : List (Option α)) : Prop where
  length : u.length = t.length
  closed : Closed home u
  contents : (contents u).Perm (x :: contents t)

theorem set_placed {α : Type} (home : α → Nat) (t : List (Option α)) (stop : α → Bool) (x : α) (d : Nat)
    (closed : Closed home t) (bound : d < t.length) (passed : Passed t stop (home x) d)
    (hole : Hole t ((home x + d) % t.length)) :
    Placed home x t (t.set ((home x + d) % t.length) (some x)) where
  length := List.length_set ..
  closed := closed_set home t _ x closed ⟨d, bound, rfl, passed_occupied t stop (home x) d passed⟩
  contents := contents_fill t _ x hole

-- A placement fills the first hole from the home slot on.
theorem place_cases {α : Type} (home : α → Nat) (x : α) (t : List (Option α)) (room : (contents t).length < t.length)
    (inside : home x < t.length) :
    ∃ d < t.length, Passed t (fun _ => false) (home x) d ∧ Hole t ((home x + d) % t.length) ∧
      place home x t = t.set ((home x + d) % t.length) (some x) := by
  have ends := probe_ends t (fun _ => false) (home x) room inside
  rw [place]
  generalize probe t (fun _ => false) t.length (home x) = last at ends
  cases ends with
  | hole d bound passed hole => exact ⟨d, bound, passed, hole, rfl⟩
  | hit d y bound passed slot stops => cases stops

theorem place_placed {α : Type} (home : α → Nat) (x : α) (t : List (Option α)) (closed : Closed home t)
    (room : (contents t).length < t.length) (inside : home x < t.length) : Placed home x t (place home x t) := by
  obtain ⟨d, bound, passed, hole, same⟩ := place_cases home x t room inside
  rw [same]
  exact set_placed home t _ x d closed bound passed hole

theorem closed_empty {α : Type} (home : α → Nat) (n : Nat) : Closed home (List.replicate n (none : Option α)) := by
  intro j x slot
  simp [List.getElem?_replicate] at slot

theorem contents_empty {α : Type} (n : Nat) : contents (List.replicate n (none : Option α)) = [] :=
  List.reduceOption_replicate_none

-- What is left of the room for a list once its first element is placed.
theorem place_next {α : Type} (home : α → Nat) (x : α) (xs : List α) (t : List (Option α)) (closed : Closed home t)
    (room : (contents t).length + (x :: xs).length < t.length) (inside : ∀ y ∈ x :: xs, home y < t.length) :
    Placed home x t (place home x t) ∧ (contents (place home x t)).length + xs.length < (place home x t).length ∧
      ∀ y ∈ xs, home y < (place home x t).length := by
  rw [List.length_cons] at room
  obtain ⟨here, behind⟩ := List.forall_mem_cons.mp inside
  have placed := place_placed home x t closed (by omega) here
  have count := placed.contents.length_eq
  rw [List.length_cons] at count
  rw [placed.length]
  exact ⟨placed, by omega, behind⟩

-- What every single placement keeps is kept by all of them.
theorem place_all_keeps {α : Type} (home : α → Nat) (kept : List (Option α) → Prop)
    (step : ∀ u y, (contents u).length < u.length → home y < u.length → kept u → kept (place home y u)) (xs : List α)
    (t : List (Option α)) (closed : Closed home t) (room : (contents t).length + xs.length < t.length)
    (inside : ∀ x ∈ xs, home x < t.length) (start : kept t) : kept (xs.foldl (fun u x => place home x u) t) := by
  induction xs generalizing t with
  | nil => exact start
  | cons x xs ih =>
      obtain ⟨placed, roomNext, insideNext⟩ := place_next home x xs t closed room inside
      exact ih (place home x t) placed.closed roomNext insideNext (step t x (by omega) (inside x List.mem_cons_self) start)

-- Rehashing: elements placed one after another into a table with enough slots.
theorem place_all {α : Type} (home : α → Nat) (xs : List α) (t : List (Option α)) (closed : Closed home t)
    (room : (contents t).length + xs.length < t.length) (inside : ∀ x ∈ xs, home x < t.length) :
    let u := xs.foldl (fun u x => place home x u) t
    u.length = t.length ∧ Closed home u ∧ (contents u).Perm (xs ++ contents t) := by
  induction xs generalizing t with
  | nil => exact ⟨rfl, closed, List.Perm.refl _⟩
  | cons x xs ih =>
      obtain ⟨placed, roomNext, insideNext⟩ := place_next home x xs t closed room inside
      have rest := ih (place home x t) placed.closed roomNext insideNext
      refine ⟨rest.1.trans placed.length, rest.2.1, rest.2.2.trans ?_⟩
      exact (placed.contents.append_left xs).trans List.perm_middle

end LinearProbe
