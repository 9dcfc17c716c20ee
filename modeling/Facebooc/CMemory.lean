import Mathlib.Data.Int.Cast.Lemmas
import Mathlib.Data.List.TakeWhile

set_option autoImplicit false

namespace CMemory

-- How a C program can leave the behaviour the language defines for it: a NULL
-- (or never valid) pointer is used, an access falls outside its object, an
-- indeterminate value is read, or a loop never ends.
inductive Fault where
  | null
  | bounds
  | uninit
  | loop
deriving DecidableEq, Repr

-- The bytes of one allocated object. Pointers into it are offsets; an offset
-- is an Int because pointer arithmetic may step in front of the object.
abbrev Object := List UInt8

def load (o : Object) (p : Int) : Except Fault UInt8 :=
  if p < 0 then .error .bounds
  else match o[p.toNat]? with
    | none => .error .bounds
    | some c => .ok c

def store (o : Object) (p : Int) (c : UInt8) : Except Fault Object :=
  if 0 ≤ p ∧ p < o.length then .ok (o.set p.toNat c) else .error .bounds

-- The string that starts at an offset: the bytes in front of the next NUL.
def cstrAt (o : Object) (p : Nat) : Except Fault (List UInt8) :=
  if 0 ∈ o.drop p then .ok ((o.drop p).takeWhile (fun c => c ≠ 0)) else .error .bounds

-- A buffer that was filled through a counted interface, read as a C string.
def cstr (bytes : List UInt8) : List UInt8 := bytes.takeWhile (fun c => c ≠ 0)

-- The text of a string argument.
abbrev CText := { text : List UInt8 // 0 ∉ text }

-- Character and string literals of the source. All of them are 7-bit.
def chr (c : Char) : UInt8 := c.toNat.toUInt8

def ascii (s : String) : List UInt8 := s.toList.map chr

-- A request that went below zero in size_t arithmetic is past PTRDIFF_MAX and
-- is refused with NULL, which none of the callers checks before it writes.
def malloc (size : Int) : Except Fault Nat := if 0 ≤ size then .ok size.toNat else .error .null

theorem malloc_size (size : Nat) : malloc (size : Int) = .ok size := by
  rw [malloc, if_pos (by omega), Int.toNat_natCast]

theorem except_ok_bind {α β : Type} (a : α) (f : α → Except Fault β) : (Except.ok a >>= f) = f a := rfl

theorem except_bind_ok {α β : Type} (x : Except Fault α) (f : α → Except Fault β) (r : β) :
    (x >>= f) = .ok r ↔ ∃ a, x = .ok a ∧ f a = .ok r := by
  cases x with
  | error fault => simp [bind, Except.bind]
  | ok a => simp [bind, Except.bind]

theorem except_map_ok {α β : Type} (x : Except Fault α) (f : α → β) (r : β) :
    x.map f = .ok r ↔ ∃ a, x = .ok a ∧ f a = r := by
  cases x with
  | error fault => simp [Except.map]
  | ok a => simp [Except.map]

theorem every_byte (p : UInt8 → Prop) (all : ∀ n < 256, p (UInt8.ofNat n)) (c : UInt8) : p c := by
  have here := all c.toNat c.toNat_lt
  rwa [UInt8.ofNat_toNat] at here

theorem load_append (before after : Object) (c : UInt8) (p : Int) (here : p = before.length) :
    load (before ++ c :: after) p = .ok c := by
  subst here
  rw [load, if_neg (by omega)]
  simp

theorem store_append (before after : Object) (c d : UInt8) (p : Int) (here : p = before.length) :
    store (before ++ c :: after) p d = .ok (before ++ d :: after) := by
  subst here
  rw [store, if_pos (by rw [List.length_append, List.length_cons]; omega)]
  simp

theorem take_while_stop (text rest : List UInt8) (stop : UInt8) (clean : stop ∉ text) :
    (text ++ stop :: rest).takeWhile (fun c => c ≠ stop) = text := by
  have through : ∀ c ∈ text, decide (c ≠ stop) = true := by
    intro c member
    exact decide_eq_true fun same => clean (same ▸ member)
  rw [List.takeWhile_append_of_pos through]
  simp

theorem cstr_clean (text : List UInt8) (clean : 0 ∉ text) : cstr text = text := by
  rw [cstr, List.takeWhile_eq_self_iff]
  intro c member
  exact decide_eq_true fun same => clean (same ▸ member)

theorem cstr_append_clean (text rest : List UInt8) (clean : 0 ∉ text) : cstr (text ++ rest) = text ++ cstr rest := by
  rw [cstr, List.takeWhile_append_of_pos]
  · rfl
  · intro c member
    exact decide_eq_true fun same => clean (same ▸ member)

theorem cstr_append_stop (text rest : List UInt8) (stops : 0 ∈ text) : cstr (text ++ rest) = cstr text := by
  obtain ⟨before, after, split, clean⟩ := List.eq_append_cons_of_mem stops
  rw [split, List.append_assoc, cstr_append_clean _ _ clean, cstr_append_clean _ _ clean]
  rfl

theorem cstr_split (text : List UInt8) :
    0 ∉ cstr text ∧ ∃ rest, text = cstr text ++ rest ∧ (rest = [] ∨ ∃ tail, rest = 0 :: tail) := by
  refine ⟨?_, text.dropWhile (fun c => c ≠ 0), (List.takeWhile_append_dropWhile).symm, ?_⟩
  · intro member
    exact absurd (List.mem_takeWhile_imp member) (by simp)
  · cases split : text.dropWhile (fun c => c ≠ 0) with
    | nil => exact .inl rfl
    | cons c tail =>
        have stop := List.head_dropWhile_not (fun c : UInt8 => c ≠ 0) (l := text) (by rw [split]; simp)
        simp only [split, List.head_cons] at stop
        exact .inr ⟨tail, by rw [(by simpa using stop : c = 0)]⟩

theorem cstr_at_append (before text rest : List UInt8) (p : Nat) (here : p = before.length) (clean : 0 ∉ text) :
    cstrAt (before ++ (text ++ 0 :: rest)) p = .ok text := by
  subst here
  rw [cstrAt, List.drop_left, if_pos (by simp), take_while_stop text rest 0 clean]

theorem cstr_at_start (text rest : List UInt8) (clean : 0 ∉ text) : cstrAt (text ++ 0 :: rest) 0 = .ok text :=
  cstr_at_append [] text rest 0 rfl clean

theorem cstr_at_prefix (o : Object) (p : Nat) (text : List UInt8) (read : cstrAt o p = .ok text) :
    ∃ rest, o.drop p = text ++ rest := by
  rw [cstrAt] at read
  split at read
  · cases read
    exact ⟨_, (List.takeWhile_append_dropWhile).symm⟩
  · cases read

end CMemory
