import Facebooc.CMemory
import Mathlib.Data.Nat.Digits.Defs

set_option autoImplicit false

namespace Facebooc

open CMemory

-- The text of a page, with who wrote each piece of it: the program and its
-- files, or a user. The labels are ghost state, the text is in the bytes.
inductive Source where
  | name
  | email
  | username
  | body
  | query
deriving DecidableEq, Repr

inductive Fragment where
  | markup (bytes : List UInt8)
  | user (source : Source) (bytes : List UInt8)
deriving DecidableEq, Repr

def Fragment.bytes : Fragment → List UInt8
  | .markup bytes => bytes
  | .user _ bytes => bytes

def Fragment.map (f : List UInt8 → List UInt8) : Fragment → Fragment
  | .markup bytes => .markup (f bytes)
  | .user source bytes => .user source (f bytes)

abbrev Page := List Fragment

def pageBytes (page : Page) : List UInt8 := page.flatMap Fragment.bytes

def literal (s : String) : Page := [.markup (ascii s)]

-- A %s argument.
def shown (source : Source) (text : List UInt8) : Fragment := .user source (cstr text)

-- %d takes an int.
def decimal (i : Int) : List UInt8 :=
  let v := i.bmod (2 ^ 32)
  if v < 0 then chr '-' :: (Nat.toDigits 10 v.natAbs).map chr else (Nat.toDigits 10 v.natAbs).map chr

def pageCstr : Page → Page
  | [] => []
  | fragment :: page => if 0 ∈ fragment.bytes then [fragment.map cstr] else fragment :: pageCstr page

def pageTake : Nat → Page → Page
  | _, [] => []
  | n, fragment :: page => fragment.map (List.take n) :: pageTake (n - fragment.bytes.length) page

-- snprintf with a bound of n into an array of `size` bytes.
def snprintf (size n : Nat) (page : Page) : Except Fault Page :=
  let out := pageTake (n - 1) page
  if (pageBytes out).length < size then .ok out else .error .bounds

-- src/basic_string.c
def basicStringAppendRaw (dst src : Page) : Page := dst ++ pageCstr src

@[simp] theorem fragment_map_bytes (f : List UInt8 → List UInt8) (fragment : Fragment) :
    (fragment.map f).bytes = f fragment.bytes := by
  cases fragment with
  | markup bytes => rfl
  | user source bytes => rfl

@[simp] theorem page_bytes_cons (fragment : Fragment) (page : Page) :
    pageBytes (fragment :: page) = fragment.bytes ++ pageBytes page := List.flatMap_cons

@[simp] theorem page_bytes_append (front back : Page) : pageBytes (front ++ back) = pageBytes front ++ pageBytes back :=
  List.flatMap_append

theorem decimal_length (i : Int) : (decimal i).length ≤ 11 := by
  have low : (i.bmod (2 ^ 32)).natAbs < 10 ^ 10 := by
    have above : i.bmod (2 ^ 32) < (2 ^ 32 + 1) / 2 := Int.bmod_lt (by decide)
    have below : -(2 ^ 32 / 2 : Int) ≤ i.bmod (2 ^ 32) := Int.le_bmod (by decide)
    omega
  have digits := Nat.toDigits_length 10 _ 10 (by decide) low
  rw [decimal]
  split
  · rw [List.length_cons, List.length_map]
    omega
  · rw [List.length_map]
    omega

theorem page_cstr_bytes (page : Page) : pageBytes (pageCstr page) = cstr (pageBytes page) := by
  induction page with
  | nil => rfl
  | cons fragment page ih =>
      by_cases stops : 0 ∈ fragment.bytes
      · rw [pageCstr, if_pos stops, page_bytes_cons, fragment_map_bytes, page_bytes_cons, pageBytes, List.flatMap_nil,
          List.append_nil]
        exact (cstr_append_stop _ _ stops).symm
      · rw [pageCstr, if_neg stops, page_bytes_cons, page_bytes_cons, ih, cstr_append_clean _ _ stops]

theorem page_take_bytes (n : Nat) (page : Page) : pageBytes (pageTake n page) = (pageBytes page).take n := by
  induction page generalizing n with
  | nil => simp [pageTake, pageBytes]
  | cons fragment page ih => rw [pageTake, page_bytes_cons, page_bytes_cons, fragment_map_bytes, ih, List.take_append]

def Shows (ok : Source → List UInt8 → Prop) (page : Page) : Prop :=
  ∀ source bytes, Fragment.user source bytes ∈ page → ok source bytes

def Unlabelled (page : Page) : Prop := Shows (fun _ _ => False) page

theorem shows_append (ok : Source → List UInt8 → Prop) (front back : Page) :
    Shows ok (front ++ back) ↔ Shows ok front ∧ Shows ok back := by
  simp only [Shows, List.mem_append, or_imp, forall_and]

theorem shows_user (ok : Source → List UInt8 → Prop) (source : Source) (bytes : List UInt8) :
    Shows ok [.user source bytes] ↔ ok source bytes := by
  simp [Shows]

theorem unlabelled_shows (ok : Source → List UInt8 → Prop) (page : Page) (unlabelled : Unlabelled page) : Shows ok page :=
  fun source bytes member => (unlabelled source bytes member).elim

theorem markup_unlabelled (bytes : List UInt8) : Unlabelled [.markup bytes] := by
  intro source text member
  cases List.mem_singleton.mp member

theorem literal_unlabelled (s : String) : Unlabelled (literal s) := markup_unlabelled (ascii s)

theorem shows_cstr (ok : Source → List UInt8 → Prop) (page : Page) (clean : ∀ source bytes, ok source bytes → 0 ∉ bytes)
    (shows : Shows ok page) : Shows ok (pageCstr page) := by
  induction page with
  | nil => exact shows
  | cons fragment page ih =>
      have here : Shows ok [fragment] ∧ Shows ok page := (shows_append ok [fragment] page).mp shows
      rw [pageCstr]
      split
      · rename_i stops
        cases fragment with
        | markup bytes => exact unlabelled_shows ok _ (markup_unlabelled _)
        | user source bytes => exact absurd stops (clean source bytes ((shows_user ok source bytes).mp here.1))
      · exact (shows_append ok [fragment] _).mpr ⟨here.1, ih here.2⟩

theorem page_take_append (n : Nat) (front back : Page) (fits : (pageBytes front).length ≤ n) :
    pageTake n (front ++ back) = front ++ pageTake (n - (pageBytes front).length) back := by
  induction front generalizing n with
  | nil => rfl
  | cons fragment front ih =>
      rw [page_bytes_cons, List.length_append] at fits
      have whole : fragment.map (List.take n) = fragment := by
        cases fragment with
        | markup bytes => exact congrArg Fragment.markup (List.take_of_length_le (Nat.le_trans (Nat.le_add_right _ _) fits))
        | user source bytes =>
            exact congrArg (Fragment.user source) (List.take_of_length_le (Nat.le_trans (Nat.le_add_right _ _) fits))
      rw [List.cons_append, pageTake, whole, ih _ (by omega), page_bytes_cons, List.length_append, List.cons_append,
        Nat.sub_sub]

theorem unlabelled_take (n : Nat) (page : Page) (unlabelled : Unlabelled page) : Unlabelled (pageTake n page) := by
  induction page generalizing n with
  | nil => exact unlabelled
  | cons fragment page ih =>
      have here : Unlabelled [fragment] ∧ Unlabelled page := (shows_append _ [fragment] page).mp unlabelled
      rw [pageTake]
      refine (shows_append _ [_] _).mpr ⟨?_, ih _ here.2⟩
      cases fragment with
      | markup bytes => exact markup_unlabelled _
      | user source bytes => exact ((shows_user _ source bytes).mp here.1).elim

-- Texts of users are printed whole when only what the program writes behind
-- them can be cut off.
theorem snprintf_shows (ok : Source → List UInt8 → Prop) (size n : Nat) (front back out : Page) (shows : Shows ok front)
    (unlabelled : Unlabelled back) (fits : (pageBytes front).length ≤ n - 1)
    (run : snprintf size n (front ++ back) = .ok out) : Shows ok out := by
  rw [snprintf, page_take_append _ _ _ fits] at run
  split at run
  · cases run
    exact (shows_append ok _ _).mpr ⟨shows, unlabelled_shows ok _ (unlabelled_take _ _ unlabelled)⟩
  · cases run

theorem shows_append_raw (ok : Source → List UInt8 → Prop) (dst src : Page)
    (clean : ∀ source bytes, ok source bytes → 0 ∉ bytes) (dstShows : Shows ok dst) (srcShows : Shows ok src) :
    Shows ok (basicStringAppendRaw dst src) :=
  (shows_append ok _ _).mpr ⟨dstShows, shows_cstr ok src clean srcShows⟩

end Facebooc
