import Mathlib.Data.List.Basic
import Mathlib.Tactic.Common

set_option autoImplicit false

namespace HttpMessage

-- A start line, fields and a body. Lines end with CR LF, and an empty one ends
-- the fields.
structure Message where
  start : List UInt8
  fields : List (List UInt8 × List UInt8)
  body : List UInt8
deriving DecidableEq, Repr

def crlf : List UInt8 := [13, 10]

def fieldLine (field : List UInt8 × List UInt8) : List UInt8 := field.1 ++ [58, 32] ++ field.2

def Message.bytes (m : Message) : List UInt8 :=
  m.start ++ crlf ++ m.fields.flatMap (fun field => fieldLine field ++ crlf) ++ crlf ++ m.body

-- Texts that stay on their line.
def OneLine (text : List UInt8) : Prop := 13 ∉ text ∧ 10 ∉ text

instance (text : List UInt8) : Decidable (OneLine text) := inferInstanceAs (Decidable (_ ∧ _))

structure Message.Sound (m : Message) : Prop where
  start : OneLine m.start
  names : ∀ field ∈ m.fields, OneLine field.1 ∧ 58 ∉ field.1
  values : ∀ field ∈ m.fields, OneLine field.2

-- What a client reads: the first line, the fields up to the empty line, and the
-- rest.
def takeLine : List UInt8 → Option (List UInt8 × List UInt8)
  | a :: b :: rest =>
      if a = 13 ∧ b = 10 then some ([], rest) else (takeLine (b :: rest)).map fun line => (a :: line.1, line.2)
  | _ => none

def takeField (line : List UInt8) : Option (List UInt8 × List UInt8) :=
  let name := line.takeWhile fun c => c ≠ 58
  let rest := line.drop name.length
  if rest.take 2 = [58, 32] then some (name, rest.drop 2) else none

def takeFields : Nat → List UInt8 → Option (List (List UInt8 × List UInt8) × List UInt8)
  | 0, _ => none
  | rounds + 1, bytes => do
      let line ← takeLine bytes
      if line.1 = [] then some ([], line.2)
      else
        let field ← takeField line.1
        let more ← takeFields rounds line.2
        some (field :: more.1, more.2)

def readMessage (bytes : List UInt8) : Option Message := do
  let line ← takeLine bytes
  let fields ← takeFields (line.2.length + 1) line.2
  some ⟨line.1, fields.1, fields.2⟩

theorem take_line_crlf (text rest : List UInt8) (oneLine : OneLine text) :
    takeLine (text ++ crlf ++ rest) = some (text, rest) := by
  induction text with
  | nil => rfl
  | cons a text ih =>
      obtain ⟨noReturn, noFeed⟩ := oneLine
      simp only [List.mem_cons, not_or] at noReturn noFeed
      have later := ih ⟨noReturn.2, noFeed.2⟩
      have next : text ++ crlf ++ rest ≠ [] := by simp [crlf]
      obtain ⟨b, more, shape⟩ := List.exists_cons_of_ne_nil next
      rw [List.cons_append, List.cons_append, shape, takeLine, if_neg (fun ends => noReturn.1 ends.1.symm), ← shape, later]
      rfl

theorem take_field_line (field : List UInt8 × List UInt8) (name : 58 ∉ field.1) : takeField (fieldLine field) = some field := by
  have before : ∀ c ∈ field.1, decide (c ≠ 58) = true := by
    intro c member
    exact decide_eq_true fun same => name (same ▸ member)
  have taken : (fieldLine field).takeWhile (fun c => c ≠ 58) = field.1 := by
    rw [fieldLine, List.append_assoc, List.takeWhile_append_of_pos before]
    exact List.append_nil _
  have dropped : (fieldLine field).drop field.1.length = [58, 32] ++ field.2 := by
    rw [fieldLine, List.append_assoc, List.drop_left]
  simp only [takeField, taken, dropped]
  rfl

theorem take_fields_texts (fields : List (List UInt8 × List UInt8)) (body : List UInt8) (rounds : Nat)
    (names : ∀ field ∈ fields, OneLine field.1 ∧ 58 ∉ field.1) (values : ∀ field ∈ fields, OneLine field.2)
    (enough : fields.length < rounds) :
    takeFields rounds (fields.flatMap (fun field => fieldLine field ++ crlf) ++ crlf ++ body) = some (fields, body) := by
  induction fields generalizing rounds with
  | nil =>
      obtain ⟨more, rfl⟩ := Nat.exists_eq_succ_of_ne_zero (by omega : rounds ≠ 0)
      rfl
  | cons field fields ih =>
      obtain ⟨more, rfl⟩ := Nat.exists_eq_succ_of_ne_zero (by omega : rounds ≠ 0)
      have name := names field List.mem_cons_self
      have value := values field List.mem_cons_self
      have line : OneLine (fieldLine field) := by
        simp only [OneLine, fieldLine, List.mem_append, not_or] at name value ⊢
        exact ⟨⟨⟨name.1.1, by decide⟩, value.1⟩, ⟨name.1.2, by decide⟩, value.2⟩
      have later := ih more (fun other member => names other (List.mem_cons_of_mem _ member))
        (fun other member => values other (List.mem_cons_of_mem _ member)) (by simpa using enough)
      have first := take_line_crlf (fieldLine field)
        (fields.flatMap (fun field => fieldLine field ++ crlf) ++ crlf ++ body) line
      have full : fieldLine field ≠ [] := by simp [fieldLine]
      simp only [List.flatMap_cons, List.append_assoc] at first later ⊢
      rw [takeFields, first]
      simp only [Option.bind_eq_bind, Option.bind_some, if_neg full, take_field_line field name.2, later]

theorem fields_length (fields : List (List UInt8 × List UInt8)) :
    fields.length ≤ (fields.flatMap fun field => fieldLine field ++ crlf).length := by
  induction fields with
  | nil => exact Nat.le_refl 0
  | cons field fields ih =>
      have line : 0 < (fieldLine field).length := by
        simp only [fieldLine, List.length_append, List.length_cons]
        omega
      simp only [List.flatMap_cons, List.length_append, List.length_cons]
      omega

theorem read_bytes (m : Message) (sound : m.Sound) : readMessage m.bytes = some m := by
  have first := take_line_crlf m.start (m.fields.flatMap (fun field => fieldLine field ++ crlf) ++ crlf ++ m.body) sound.start
  have length := fields_length m.fields
  have fields := take_fields_texts m.fields m.body
    ((m.fields.flatMap (fun field => fieldLine field ++ crlf) ++ crlf ++ m.body).length + 1) sound.names sound.values
    (by simp only [List.length_append]; omega)
  have shape : m.bytes = m.start ++ crlf ++ (m.fields.flatMap (fun field => fieldLine field ++ crlf) ++ crlf ++ m.body) := by
    simp only [Message.bytes, List.append_assoc]
  rw [readMessage, shape, first]
  simp only [Option.bind_eq_bind, Option.bind_some, fields]

end HttpMessage
