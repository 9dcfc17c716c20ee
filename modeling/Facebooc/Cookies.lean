import Facebooc.Header
import Facebooc.UrlCodec

set_option autoImplicit false

namespace Facebooc

open CMemory StringSearch

-- src/http/cookies.c. A parsed cookie has no attributes.
structure Cookie where
  key : List UInt8
  value : List UInt8
deriving DecidableEq, Repr

-- With no separator the size is a negative address and the copy goes to NULL.
def singleCookieGen (o : Object) : Except Fault Cookie := do
  let str ← cstrAt o 0
  match ← findFirstOf str (ascii "=") with
  | none => .error .null
  | some seperator =>
      let key ← stringViewDup o ⟨0, some seperator, seperator⟩
      let value ← stringViewDup o ⟨seperator.toNat + 1, some (str.length + 1), str.length - seperator - 1⟩
      .ok ⟨key, value⟩

def cookieInsert (text : List UInt8) (cookies : List Cookie) : Except Fault (List Cookie) := do
  if chr '=' ∈ text then
    let decoded ← urlDecoder text
    let c ← singleCookieGen decoded
    .ok (c :: cookies)
  else .ok cookies

-- The byte in front of the separator is cut off, and the text behind it is
-- never reached: str moves to the NUL that was written.
def cookiesLoop : Nat → Object → Nat → List Cookie → Except Fault (List Cookie)
  | 0, _, _, _ => .error .loop
  | rounds + 1, o, str, cookies => do
      if (← load o str) = 0 then .ok cookies
      else
        let sep ← stringViewCtor o str (ascii "; ")
        let o ← match sep.stop with
          | none => .ok o
          | some stop => store o (stop - 1) 0
        let text ← cstrAt o str
        let cookies ← cookieInsert text cookies
        cookiesLoop rounds o (str + text.length) cookies

def cookiesParser (header : Header) : Except Fault (Option (List Cookie)) :=
  match headerGet header (ascii "cookie") with
  | none => .ok none
  | some str => do
      let cookies ← cookiesLoop (str.length + 1) (str ++ [0]) 0 []
      .ok (some cookies)

def cookiesGet (c : Option (List Cookie)) (key : List UInt8) : Option Cookie :=
  c.bind fun cookies => cookies.find? fun cookie => cookie.key = key

theorem single_cookie_gen_pair (key value spare : List UInt8) (noEquals : chr '=' ∉ key) (keyClean : 0 ∉ key)
    (valueClean : 0 ∉ value) :
    singleCookieGen (key ++ chr '=' :: value ++ 0 :: spare) = .ok ⟨key, value⟩ := by
  have clean : 0 ∉ key ++ chr '=' :: value := by
    simp only [List.mem_append, List.mem_cons, not_or]
    exact ⟨keyClean, by decide, valueClean⟩
  have text : cstrAt (key ++ chr '=' :: value ++ 0 :: spare) 0 = .ok (key ++ chr '=' :: value) :=
    cstr_at_start _ spare clean
  have found : findFirstOf (key ++ chr '=' :: value) (ascii "=") = .ok (some (key.length : Int)) :=
    find_first_of_char_found key value (chr '=') noEquals
  have left : stringViewDup (key ++ chr '=' :: value ++ 0 :: spare) ⟨0, some key.length, key.length⟩ = .ok key := by
    rw [List.append_assoc]
    exact string_view_dup_piece [] key _ _ keyClean rfl rfl
  have right : stringViewDup (key ++ chr '=' :: value ++ 0 :: spare)
      ⟨(key.length : Int).toNat + 1, some ((key ++ chr '=' :: value).length + 1),
        (key ++ chr '=' :: value).length - key.length - 1⟩ = .ok value := by
    have split : key ++ chr '=' :: value ++ 0 :: spare = (key ++ [chr '=']) ++ (value ++ 0 :: spare) := by simp
    have size : ((key ++ chr '=' :: value).length : Int) - key.length - 1 = value.length := by
      rw [List.length_append, List.length_cons]
      omega
    rw [split]
    exact string_view_dup_piece _ value _ _ valueClean (by simp) size
  simp only [singleCookieGen, text, bind, Except.bind, found, left, right]

theorem single_cookie_gen_none (text spare : List UInt8) (noEquals : chr '=' ∉ text) (clean : 0 ∉ text) :
    singleCookieGen (text ++ 0 :: spare) = .error .null := by
  have whole : cstrAt (text ++ 0 :: spare) 0 = .ok text := cstr_at_start text spare clean
  have found : findFirstOf text (ascii "=") = .ok none := find_first_of_char_absent text (chr '=') noEquals
  simp only [singleCookieGen, whole, bind, Except.bind, found]

def firstSegment (str : List UInt8) : Except Fault (List UInt8) := do
  match ← findFirstOf str (ascii "; ") with
  | none => .ok str
  | some found => if found < 0 then .error .bounds else .ok (str.take found.toNat)

theorem first_segment_length (str text : List UInt8) (segment : firstSegment str = .ok text) : text.length ≤ str.length := by
  obtain ⟨found, _, segment⟩ := (except_bind_ok _ _ _).mp segment
  cases found with
  | none => exact (congrArg List.length (Except.ok.inj segment)).ge
  | some found =>
      dsimp only at segment
      split at segment
      · cases segment
      · cases segment
        rw [List.length_take]
        exact Nat.min_le_right _ _

theorem separator_low : ∀ c ∈ ascii "; ", c.toNat < 128 := by decide +kernel

theorem cookies_loop_end (o : Object) (str rounds : Nat) (cookies : List Cookie) (nul : o[str]? = some 0) :
    cookiesLoop (rounds + 1) o str cookies = .ok cookies := by
  have loaded : load o str = .ok 0 := by
    rw [load, if_neg (by omega)]
    simp [nul]
  simp only [cookiesLoop, loaded, bind, Except.bind, if_true]

theorem store_inside (str rest : Object) (p : Nat) (c : UInt8) (inside : p < str.length) :
    store (str ++ rest) p c = .ok (str.take p ++ c :: (str.drop (p + 1) ++ rest)) := by
  have split : str ++ rest = str.take p ++ str[p] :: (str.drop (p + 1) ++ rest) := by
    rw [← List.cons_append, ← List.append_assoc, ← List.drop_eq_getElem_cons, List.take_append_drop]
  rw [split]
  exact store_append _ _ _ _ _ (by simp; omega)

-- Whatever the text, the loop body runs at most once.
theorem cookies_loop_once (str : List UInt8) (clean : 0 ∉ str) (nonempty : str ≠ []) :
    cookiesLoop (str.length + 1) (str ++ [0]) 0 [] = (do
      let text ← firstSegment str
      cookieInsert text []) := by
  obtain ⟨head, tail, rfl⟩ := List.exists_cons_of_ne_nil nonempty
  have headNonzero : head ≠ 0 := fun same => clean (by simp [same])
  have loaded : load (head :: tail ++ [0]) ((0 : Nat) : Int) = .ok head := load_append [] _ head _ rfl
  have text : cstrAt (head :: tail ++ [0]) 0 = .ok (head :: tail) := cstr_at_start _ [] clean
  have ends := find_first_of_ends (head :: tail) (ascii "; ") (by decide) (by decide) separator_low
  simp only [cookiesLoop, loaded, bind, Except.bind, if_neg headNonzero, stringViewCtor, text, firstSegment]
  generalize findFirstOf (head :: tail) (ascii "; ") = search at ends
  cases ends with
  | fault i c seen high near => rfl
  | absent nowhere =>
      dsimp only
      cases cookieInsert (head :: tail) [] with
      | error fault => rfl
      | ok cookies => exact cookies_loop_end _ _ _ _ (by simp)
  | found t _ occurs first =>
      have inside := occurs_bound _ _ t (by decide) occurs
      have position : ((0 : Nat) : Int) + ((t : Int) - 1 + 1) - 1 = (t : Int) - 1 := by omega
      dsimp only
      rw [position]
      cases t with
      | zero => rfl
      | succ p =>
          have place : ((p + 1 : Nat) : Int) - 1 = p := by omega
          have below : p < (head :: tail).length := by omega
          have cutClean : 0 ∉ (head :: tail).take p := fun member => clean (List.mem_of_mem_take member)
          rw [place, store_inside _ _ p 0 below, if_neg (by omega), Int.toNat_natCast]
          dsimp only
          rw [cstr_at_start _ _ cutClean]
          dsimp only
          cases cookieInsert ((head :: tail).take p) [] with
          | error fault => rfl
          | ok cookies => exact cookies_loop_end _ _ _ _ (by simp)

end Facebooc
