import Facebooc.Dispatch
import Facebooc.IntegrityRuns

set_option autoImplicit false

namespace Facebooc

open CMemory Runs StringSearch

def afterSign (text : List UInt8) : List UInt8 :=
  if text.head? = some (chr '-') ∨ text.head? = some (chr '+') then text.tail else text

def digitsValue (digits : List UInt8) : Nat := digits.foldl (fun n c => 10 * n + (c.toNat - 48)) 0

-- The digits atoi comes to in a text, behind blanks and one sign.
def numberPart (text : List UInt8) : List UInt8 := afterSign (text.dropWhile isspace)

def isNegative (text : List UInt8) : Prop := (text.dropWhile isspace).head? = some (chr '-')

instance (text : List UInt8) : Decidable (isNegative text) := inferInstanceAs (Decidable (_ = _))

-- The text starts with the digits of n and a slash.
def Names (n : Nat) (rest : List UInt8) : Prop :=
  ∃ digits more, rest = digits ++ chr '/' :: more ∧ digits ≠ [] ∧ (∀ c ∈ digits, isdigit c = true) ∧
    digitsValue digits = n ∧ n ≤ 2147483647

structure PositiveIds (db : Database) : Prop where
  accounts : ∀ row ∈ db.accounts, 0 < row.id
  posts : ∀ row ∈ db.posts, 0 < row.id

-- The tables number their rows from 1 on.
def NoRow (id : Int) : Prop :=
  ∀ db, PositiveIds db → accountGetById db id = .ok none ∧ postGetById db id = none

def IdExact (seg rest : List UInt8) : Prop :=
  ∃ id, getId (segmentUri seg (some rest)) = .ok id ∧ (∀ n : Nat, Names n rest → id = n) ∧
    ((∀ n, ¬ Names n rest) → NoRow id)

-- What may stand between the two slashes: at most nine digits, or a text of up
-- to ten characters that starts with no number above zero and, when it has all
-- ten, goes on behind that number.
structure IdText (text : List UInt8) : Prop where
  short : text.length ≤ 10
  ended : text.length = 10 → (numberPart text).dropWhile isdigit ≠ []
  harmless : (text ≠ [] ∧ ∀ c ∈ text, isdigit c = true) ∨ isNegative text ∨
    ∀ c ∈ (numberPart text).takeWhile isdigit, c = chr '0'

def IdRest (rest : List UInt8) : Prop :=
  ∃ text more, rest = text ++ chr '/' :: more ∧ chr '/' ∉ text ∧ IdText text

theorem positive_posts_step (env : Env) (world after : World) (arrival : Arrival) (wrote : Wrote env world arrival after)
    (positive : ∀ row ∈ world.db.posts, 0 < row.id) : ∀ row ∈ after.db.posts, 0 < row.id := by
  cases wrote with
  | post me route client size => exact (forall_mem_snoc ..).mpr ⟨positive, next_rowid_positive _⟩
  | nothing | account | session | connection | like | unlike => exact positive

theorem positive_ids_run (env : Env) (arrivals : List Arrival) :
    PositiveIds (run (handleNext env) ⟨Database.empty, 0⟩ arrivals).db := by
  refine ⟨(linked_run env arrivals).positive, ?_⟩
  apply history_invariant (handleNext env) (fun _ _ => True) (fun _ world => ∀ row ∈ world.db.posts, 0 < row.id) _
    (by simp [Database.empty]) ?_ arrivals (along_true _ _ _)
  intro past world arrival positive _
  exact positive_posts_step env world _ arrival (handle_wrote env world arrival) positive

theorem no_row_iff (id : Int) : NoRow id ↔ id ≤ 0 := by
  constructor
  · intro missing
    by_contra positive
    have ids : PositiveIds ⟨[], [], [], [⟨id, 0, 0, []⟩], []⟩ := ⟨by simp, by simpa using positive⟩
    have wrong := (missing _ ids).2
    rw [postGetById, if_neg (by omega)] at wrong
    simp at wrong
  · intro small db ids
    constructor
    · rw [accountGetById]
      split
      · rfl
      · rw [accountSelect, List.find?_eq_none.mpr]
        intro row member
        have positive := ids.accounts row member
        simp only [decide_eq_true_eq]
        omega
    · rw [postGetById]
      split
      · rfl
      · rw [List.find?_eq_none.mpr]
        · rfl
        · intro row member
          have positive := ids.posts row member
          simp only [decide_eq_true_eq]
          omega

theorem after_sign_zeros (text : List UInt8) (n : Nat) :
    afterSign (text ++ List.replicate n 0) = afterSign text ++ List.replicate n 0 := by
  cases text with
  | nil =>
      cases n with
      | zero => rfl
      | succ n => rfl
  | cons c text =>
      by_cases sign : c = chr '-' ∨ c = chr '+'
      · simp [afterSign, sign]
      · simp [afterSign, sign]

theorem drop_while_zeros (p : UInt8 → Bool) (text : List UInt8) (n : Nat) (stops : p 0 = false) :
    (text ++ List.replicate n 0).dropWhile p = text.dropWhile p ++ List.replicate n 0 := by
  have kept : (List.replicate n (0 : UInt8)).dropWhile p = List.replicate n 0 := by
    cases n with
    | zero => rfl
    | succ n => rw [List.replicate_succ, List.dropWhile_cons_of_neg (by simp [stops])]
  rw [List.dropWhile_append, kept]
  split
  · rename_i empty
    rw [List.isEmpty_iff.mp empty, List.nil_append]
  · rfl

theorem take_while_zeros (p : UInt8 → Bool) (text : List UInt8) (n : Nat) (stops : p 0 = false) :
    (text ++ List.replicate n 0).takeWhile p = text.takeWhile p := by
  have none_taken : (List.replicate n (0 : UInt8)).takeWhile p = [] := by
    cases n with
    | zero => rfl
    | succ n => rw [List.replicate_succ, List.takeWhile_cons_of_neg (by simp [stops])]
  rw [List.takeWhile_append, none_taken, List.append_nil]
  split
  · rename_i whole
    exact ((List.takeWhile_prefix p).eq_of_length whole).symm
  · rfl

theorem head_zeros (text : List UInt8) (n : Nat) :
    (text ++ List.replicate n 0).head? = some (chr '-') ↔ text.head? = some (chr '-') := by
  cases text with
  | nil =>
      cases n with
      | zero => exact Iff.rfl
      | succ n =>
          have other : (0 : UInt8) ≠ chr '-' := by decide
          simp [List.replicate_succ, other]
  | cons c text => exact Iff.rfl

-- The rest of the array is NULs, on which the blanks, the sign and the digits stop.
theorem atoi_array (text : List UInt8) (n : Nat) : atoi (text ++ List.replicate n 0) =
    if (numberPart text).dropWhile isdigit = [] ∧ n = 0 then .error .bounds
    else .ok (if isNegative text then -(digitsValue ((numberPart text).takeWhile isdigit) : Int)
      else digitsValue ((numberPart text).takeWhile isdigit)) := by
  have blanks := drop_while_zeros isspace text n (by decide)
  have sign := after_sign_zeros (text.dropWhile isspace) n
  have whole : atoi (text ++ List.replicate n 0) =
      if (afterSign ((text ++ List.replicate n 0).dropWhile isspace)).dropWhile isdigit = [] then .error .bounds
      else .ok (if ((text ++ List.replicate n 0).dropWhile isspace).head? = some (chr '-')
        then -(digitsValue ((afterSign ((text ++ List.replicate n 0).dropWhile isspace)).takeWhile isdigit) : Int)
        else digitsValue ((afterSign ((text ++ List.replicate n 0).dropWhile isspace)).takeWhile isdigit)) := rfl
  rw [whole, blanks, sign, drop_while_zeros isdigit _ n (by decide), take_while_zeros isdigit _ n (by decide)]
  simp only [head_zeros, List.append_eq_nil_iff, List.replicate_eq_nil_iff, numberPart, isNegative]
  congr

theorem get_id_segment (seg rest : List UInt8) (noSlash : chr '/' ∉ seg) : getId (segmentUri seg (some rest)) =
    match rest.idxOf? (chr '/') with
    | none => .error .bounds
    | some len => if len ≤ 10 then atoi (rest.take len ++ List.replicate (10 - len) 0) else .error .bounds := by
  have slash := idx_of_append seg rest (chr '/') noSlash
  rw [getId, segmentUri, if_neg (List.cons_ne_nil _ _)]
  cases found : rest.idxOf? (chr '/') with
  | none => simp only [List.tail_cons, strchrFrom, slash, bind, Except.bind, List.drop_left, found]
  | some len => simp only [List.tail_cons, strchrFrom, slash, bind, Except.bind, List.drop_left, found]

theorem registered_no_slash (entry : List UInt8 × Handler) (member : entry ∈ handlerTable) : chr '/' ∉ entry.1 := by
  have all : ∀ entry ∈ handlerTable, chr '/' ∉ entry.1 := by decide +kernel
  exact all entry member

theorem digits_value_bound (digits : List UInt8) (each : ∀ c ∈ digits, isdigit c = true) :
    digitsValue digits < 10 ^ digits.length := by
  induction digits using List.reverseRecOn with
  | nil => exact Nat.one_pos
  | append_singleton digits c ih =>
      have bound := ih (fun d member => each d (List.mem_append_left _ member))
      have digit := each c (List.mem_append_right _ (List.mem_singleton_self c))
      simp only [isdigit, Bool.and_eq_true, decide_eq_true_eq] at digit
      have high : c.toNat ≤ 57 := digit.2
      rw [digitsValue, List.foldl_append, ← digitsValue, List.length_append, List.length_singleton, Nat.pow_succ]
      change 10 * digitsValue digits + (c.toNat - 48) < _
      omega

theorem digits_value_zero (digits : List UInt8) (each : ∀ c ∈ digits, isdigit c = true) :
    digitsValue digits = 0 ↔ ∀ c ∈ digits, c = chr '0' := by
  induction digits using List.reverseRecOn with
  | nil => exact iff_of_true rfl (fun c member => absurd member List.not_mem_nil)
  | append_singleton digits c ih =>
      have front := ih (fun d member => each d (List.mem_append_left _ member))
      have digit := each c (List.mem_append_right _ (List.mem_singleton_self c))
      simp only [isdigit, Bool.and_eq_true, decide_eq_true_eq] at digit
      have low : 48 ≤ c.toNat := digit.1
      rw [digitsValue, List.foldl_append, ← digitsValue]
      change 10 * digitsValue digits + (c.toNat - 48) = 0 ↔ _
      rw [List.forall_mem_append, ← front, List.forall_mem_singleton]
      have same : c = chr '0' ↔ c.toNat = 48 := by
        rw [← UInt8.toNat_inj]
        exact Iff.rfl
      rw [same]
      omega

theorem take_segment (text more : List UInt8) (noSlash : chr '/' ∉ text) :
    (text ++ chr '/' :: more).idxOf? (chr '/') = some text.length ∧ (text ++ chr '/' :: more).take text.length = text :=
  ⟨idx_of_append text more (chr '/') noSlash, List.take_left⟩

theorem segment_unique (text other more rest : List UInt8) (noSlash : chr '/' ∉ text) (otherNoSlash : chr '/' ∉ other)
    (same : text ++ chr '/' :: more = other ++ chr '/' :: rest) : text = other := by
  have lengths := (take_segment text more noSlash).1
  rw [same, (take_segment other rest otherNoSlash).1] at lengths
  have parts := congrArg (List.take text.length) same
  rw [List.take_left, ← Option.some.inj lengths, List.take_left] at parts
  exact parts

theorem digits_no_slash (digits : List UInt8) (each : ∀ c ∈ digits, isdigit c = true) : chr '/' ∉ digits := by
  intro member
  exact absurd (each _ member) (by decide)

theorem digit_no_sign (c : UInt8) : isdigit c = true → isspace c = false ∧ c ≠ chr '-' ∧ c ≠ chr '+' := by
  revert c
  exact every_byte _ (by decide +kernel)

theorem number_part_digits (digits : List UInt8) (each : ∀ c ∈ digits, isdigit c = true) :
    numberPart digits = digits ∧ ¬ isNegative digits := by
  cases digits with
  | nil => exact ⟨rfl, by decide⟩
  | cons c digits =>
      obtain ⟨noSpace, noMinus, noPlus⟩ := digit_no_sign c (each c List.mem_cons_self)
      rw [numberPart, isNegative, List.dropWhile_cons_of_neg (by simp [noSpace])]
      exact ⟨by simp [afterSign, noMinus, noPlus], by simp [noMinus]⟩

theorem names_iff (n : Nat) (text more : List UInt8) (noSlash : chr '/' ∉ text) : Names n (text ++ chr '/' :: more) ↔
    text ≠ [] ∧ (∀ c ∈ text, isdigit c = true) ∧ digitsValue text = n ∧ n ≤ 2147483647 := by
  constructor
  · intro names
    obtain ⟨digits, rest, same, facts⟩ := names
    have parts := segment_unique text digits more rest noSlash (digits_no_slash digits facts.2.1) same
    rwa [parts]
  · intro facts
    exact ⟨text, more, rfl, facts⟩

-- What get_id answers for a text between two slashes.
theorem get_id_text (seg text more : List UInt8) (noSlash : chr '/' ∉ seg) (textNoSlash : chr '/' ∉ text) (id : Int) :
    getId (segmentUri seg (some (text ++ chr '/' :: more))) = .ok id ↔
      text.length ≤ 10 ∧ (text.length = 10 → (numberPart text).dropWhile isdigit ≠ []) ∧
        id = if isNegative text then -(digitsValue ((numberPart text).takeWhile isdigit) : Int)
          else digitsValue ((numberPart text).takeWhile isdigit) := by
  obtain ⟨place, taken⟩ := take_segment text more textNoSlash
  rw [get_id_segment seg _ noSlash, place]
  simp only [taken]
  by_cases short : text.length ≤ 10
  · rw [if_pos short, atoi_array]
    by_cases full : (numberPart text).dropWhile isdigit = [] ∧ 10 - text.length = 0
    · rw [if_pos full]
      apply iff_of_false
      · intro wrong
        cases wrong
      · intro facts
        exact facts.2.1 (by omega) full.1
    · rw [if_neg full]
      constructor
      · intro same
        refine ⟨short, fun ten part => full ⟨part, by omega⟩, (Except.ok.inj same).symm⟩
      · intro facts
        rw [facts.2.2]
  · rw [if_neg short]
    apply iff_of_false
    · intro wrong
      cases wrong
    · intro facts
      exact short facts.1

theorem taken_digits (text : List UInt8) : ∀ c ∈ text.takeWhile isdigit, isdigit c = true :=
  fun _ member => List.mem_takeWhile_imp member

theorem digits_read (text : List UInt8) (each : ∀ c ∈ text, isdigit c = true) :
    (numberPart text).takeWhile isdigit = text ∧ (numberPart text).dropWhile isdigit = [] := by
  rw [(number_part_digits text each).1]
  exact ⟨List.takeWhile_eq_self_iff.mpr each, List.dropWhile_eq_nil_iff.mpr each⟩

-- A text that is no number in range has to be answered with an id of no row.
theorem id_text_of_exact (seg text more : List UInt8) (noSlash : chr '/' ∉ seg) (textNoSlash : chr '/' ∉ text)
    (exact : IdExact seg (text ++ chr '/' :: more)) : IdText text := by
  obtain ⟨id, got, same, other⟩ := exact
  obtain ⟨short, ended, value⟩ := (get_id_text seg text more noSlash textNoSlash id).mp got
  refine ⟨short, ended, ?_⟩
  by_cases numeral : text ≠ [] ∧ ∀ c ∈ text, isdigit c = true
  · exact .inl numeral
  · have unnamed : ∀ n, ¬ Names n (text ++ chr '/' :: more) := by
      intro n names
      have facts := (names_iff n text more textNoSlash).mp names
      exact numeral ⟨facts.1, facts.2.1⟩
    have small := (no_row_iff id).mp (other unnamed)
    by_cases negative : isNegative text
    · exact .inr (.inl negative)
    · rw [if_neg negative] at value
      exact .inr (.inr ((digits_value_zero _ (taken_digits _)).mp (by omega)))

-- Nine digits stay in range, so a numeral that short is a number with a name.
theorem exact_of_id_text (seg text more : List UInt8) (noSlash : chr '/' ∉ seg) (textNoSlash : chr '/' ∉ text)
    (good : IdText text) : IdExact seg (text ++ chr '/' :: more) := by
  refine ⟨_, (get_id_text seg text more noSlash textNoSlash _).mpr ⟨good.short, good.ended, rfl⟩, ?_, ?_⟩
  · intro n names
    obtain ⟨_, each, value, _⟩ := (names_iff n text more textNoSlash).mp names
    rw [if_neg (number_part_digits text each).2, (digits_read text each).1, value]
  · intro unnamed
    rw [no_row_iff]
    have sign := digits_value_zero _ (taken_digits (numberPart text))
    rcases good.harmless with numeral | negative | zeros
    · obtain ⟨nonempty, each⟩ := numeral
      have nine : text.length ≠ 10 := fun ten => good.ended ten (digits_read text each).2
      have bound := digits_value_bound text each
      have short := good.short
      have power : 10 ^ text.length ≤ 10 ^ 9 := Nat.pow_le_pow_right (by decide) (by omega)
      have fits : digitsValue text ≤ 2147483647 := by omega
      exact absurd ((names_iff _ text more textNoSlash).mpr ⟨nonempty, each, rfl, fits⟩) (unnamed _)
    · rw [if_pos negative]
      omega
    · rw [sign.mpr zeros]
      split <;> omega

theorem get_id_exact_iff (seg rest : List UInt8) (route : seg ∈ handlerTable.map Prod.fst) :
    IdExact seg rest ↔ IdRest rest := by
  obtain ⟨entry, member, named⟩ := List.mem_map.mp route
  have noSlash := registered_no_slash entry member
  rw [named] at noSlash
  constructor
  · intro exact
    by_cases slash : chr '/' ∈ rest
    · obtain ⟨text, more, parts, textNoSlash⟩ := List.eq_append_cons_of_mem slash
      subst parts
      exact ⟨text, more, rfl, textNoSlash, id_text_of_exact seg text more noSlash textNoSlash exact⟩
    · obtain ⟨id, got, _⟩ := exact
      rw [get_id_segment seg rest noSlash, List.idxOf?_eq_none_iff.mpr slash] at got
      cases got
  · intro idRest
    obtain ⟨text, more, parts, textNoSlash, good⟩ := idRest
    subst parts
    exact exact_of_id_text seg text more noSlash textNoSlash good

theorem get_id_exact_profile : IdExact (ascii "profile") (ascii "12/") ↔ IdRest (ascii "12/") :=
  get_id_exact_iff (ascii "profile") (ascii "12/") (by decide +kernel)

-- The length up to a missing slash is that of no array.
theorem get_id_exact_fails : ¬ ∀ seg rest : List UInt8, seg ∈ handlerTable.map Prod.fst → 0 ∉ rest → IdExact seg rest := by
  intro all
  obtain ⟨id, got, _⟩ := all (ascii "profile") (ascii "12") (by decide +kernel) (by decide +kernel)
  have wrong : getId (segmentUri (ascii "profile") (some (ascii "12"))) = .error .bounds := by decide +kernel
  rw [wrong] at got
  cases got

end Facebooc
