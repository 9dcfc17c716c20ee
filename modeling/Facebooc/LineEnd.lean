import Facebooc.Header

set_option autoImplicit false

namespace Facebooc

open CMemory StringSearch

-- A search for the line end reads every character of the line that it does not
-- step over, and uses it as an index into the table.
def searched : List UInt8 → Bool
  | a :: b :: rest =>
      if b = chr '\n' then a.toNat < 128 && searched (b :: rest)
      else if b = chr '\r' then searched (b :: rest)
      else b.toNat < 128 && searched rest
  | _ => true

def crlfTable : List Int := ((List.replicate 256 (-1)).set 13 0).set 10 1

theorem crlf_heuristic : badCharHeuristic (ascii "\r\n") = .ok crlfTable := by decide +kernel

theorem crlf_table_get (c : UInt8) :
    crlfTable.getD c.toNat 0 = if c = chr '\n' then 1 else if c = chr '\r' then 0 else -1 := by
  have bound := c.toNat_lt
  have newline : c.toNat = 10 ↔ c = chr '\n' := UInt8.toNat_inj (b := chr '\n')
  have ret : c.toNat = 13 ↔ c = chr '\r' := UInt8.toNat_inj (b := chr '\r')
  rw [crlfTable, List.getD_eq_getElem?_getD, List.getElem?_set, List.getElem?_set, List.getElem?_replicate]
  by_cases isNewline : c = chr '\n'
  · rw [if_pos (newline.mpr isNewline).symm, if_pos isNewline,
      if_pos (by rw [List.length_set, List.length_replicate]; decide)]
    rfl
  · rw [if_neg fun same => isNewline (newline.mp same.symm), if_neg isNewline]
    by_cases isReturn : c = chr '\r'
    · rw [if_pos (ret.mpr isReturn).symm, if_pos isReturn, if_pos (by rw [List.length_replicate]; decide)]
      rfl
    · rw [if_neg fun same => isReturn (ret.mp same.symm), if_neg isReturn, if_pos bound]
      rfl

theorem crlf_window (pre rest : List UInt8) (a b : UInt8) (rounds : Nat) :
    boyerMooreLoop (pre ++ a :: b :: rest) (ascii "\r\n") crlfTable (rounds + 1) pre.length =
      if b = chr '\n' then
        if a = chr '\r' then .ok (some ((pre.length : Int) - 1))
        else if a.toNat < 128 then
          boyerMooreLoop (pre ++ a :: b :: rest) (ascii "\r\n") crlfTable rounds (pre.length + 1)
        else .error .bounds
      else if b.toNat < 128 then
        boyerMooreLoop (pre ++ a :: b :: rest) (ascii "\r\n") crlfTable rounds
          (pre.length + if b = chr '\r' then 1 else 2)
      else .error .bounds := by
  have first : (pre ++ a :: b :: rest)[pre.length]? = some a := by simp
  have second : (pre ++ a :: b :: rest)[pre.length + 1]? = some b := by
    rw [List.getElem?_append_right (by omega), Nat.add_sub_cancel_left]
    rfl
  have inside : pre.length ≤ (pre ++ a :: b :: rest).length - (ascii "\r\n").length := by
    change pre.length ≤ _ - 2
    rw [List.length_append, List.length_cons, List.length_cons]
    omega
  have back : matchBack (pre ++ a :: b :: rest) (ascii "\r\n") pre.length (ascii "\r\n").length =
      if b = chr '\n' then if a = chr '\r' then 0 else 1 else 2 := by
    change matchBack _ (ascii "\r\n") pre.length 2 = _
    simp only [matchBack, first, second, Nat.add_zero]
    change (if some (chr '\n') = some b then if some (chr '\r') = some a then 0 else 1 else 2) = _
    simp only [Option.some.injEq, eq_comm]
  rw [boyerMooreLoop, if_pos inside, back]
  by_cases newline : b = chr '\n'
  · rw [if_pos newline, if_pos newline]
    by_cases ret : a = chr '\r'
    · rw [if_pos ret, if_pos ret]
    · rw [if_neg ret, if_neg ret]
      simp only [Nat.add_zero, first, signed_char_neg, crlf_table_get]
      by_cases low : a.toNat < 128
      · have move : (max 1 (((0 : Nat) : Int) - if a = chr '\n' then 1 else if a = chr '\r' then 0 else -1)).toNat = 1 := by
          rw [if_neg ret]
          split <;> rfl
        rw [if_pos low, if_neg (by omega), move]
      · rw [if_neg low, if_pos (by omega)]
  · rw [if_neg newline, if_neg newline]
    simp only [second, signed_char_neg, crlf_table_get]
    by_cases low : b.toNat < 128
    · have move : (max 1 (((1 : Nat) : Int) - if b = chr '\n' then 1 else if b = chr '\r' then 0 else -1)).toNat =
          if b = chr '\r' then 1 else 2 := by
        rw [if_neg newline]
        split <;> rfl
      rw [if_pos low, if_neg (by omega), move]
    · rw [if_neg low, if_pos (by omega)]

theorem crlf_infix_cons (a b : UInt8) (rest : List UInt8) :
    ascii "\r\n" <:+: a :: b :: rest ↔ (a = chr '\r' ∧ b = chr '\n') ∨ ascii "\r\n" <:+: b :: rest := by
  rw [List.infix_cons_iff]
  refine or_congr_left ?_
  change [chr '\r', chr '\n'] <+: _ ↔ _
  simp [List.cons_prefix_cons, eq_comm]

-- A window that moves on over the first bytes of a line leaves the rest of it.
theorem line_end_moved (pre front line tail : List UInt8) (rounds : Nat)
    (next : boyerMooreLoop (pre ++ front ++ (line ++ ascii "\r\n" ++ tail)) (ascii "\r\n") crlfTable rounds
      (pre ++ front).length =
        if searched line then .ok (some (((pre ++ front).length + line.length : Nat) - 1 : Int)) else .error .bounds) :
    boyerMooreLoop (pre ++ (front ++ line ++ ascii "\r\n" ++ tail)) (ascii "\r\n") crlfTable rounds
      (pre.length + front.length) =
        if searched line then .ok (some ((pre.length + (front ++ line).length : Nat) - 1 : Int)) else .error .bounds := by
  have total : (pre ++ front).length + line.length = pre.length + (front ++ line).length := by
    rw [← List.length_append, List.append_assoc, List.length_append]
  rw [total, List.append_assoc pre front, ← List.append_assoc front, ← List.append_assoc front, List.length_append] at next
  exact next

theorem line_end_loop (line pre tail : List UInt8) (rounds : Nat) (single : ¬ ascii "\r\n" <:+: line)
    (enough : line.length < rounds) :
    boyerMooreLoop (pre ++ (line ++ ascii "\r\n" ++ tail)) (ascii "\r\n") crlfTable rounds pre.length =
      if searched line then .ok (some ((pre.length + line.length : Nat) - 1 : Int)) else .error .bounds := by
  obtain ⟨rounds, rfl⟩ := Nat.exists_eq_succ_of_ne_zero (by omega : rounds ≠ 0)
  induction line using searched.induct generalizing pre rounds with
  | case1 a rest ih =>
      -- A newline that no '\r' precedes: the character in front of it is the index.
      rw [crlf_infix_cons, not_or] at single
      obtain ⟨rounds, rfl⟩ := Nat.exists_eq_succ_of_ne_zero (by rw [List.length_cons] at enough; omega : rounds ≠ 0)
      have next := line_end_moved pre [a] _ tail (rounds + 1)
        (ih (pre ++ [a]) single.2 rounds (by simp only [List.length_cons] at enough ⊢; omega))
      have window := crlf_window pre (rest ++ ascii "\r\n" ++ tail) a (chr '\n') (rounds + 1)
      rw [if_pos rfl, if_neg fun ret => single.1 ⟨ret, rfl⟩] at window
      refine window.trans ?_
      rw [searched, if_pos rfl]
      by_cases low : a.toNat < 128
      · rw [if_pos low, decide_eq_true low, Bool.true_and]
        exact next
      · rw [if_neg low, decide_eq_false low, Bool.false_and]
        rfl
  | case2 a rest _ ih =>
      -- A '\r' may begin the line end, so the window moves by one.
      rw [crlf_infix_cons, not_or] at single
      obtain ⟨rounds, rfl⟩ := Nat.exists_eq_succ_of_ne_zero (by rw [List.length_cons] at enough; omega : rounds ≠ 0)
      have next := line_end_moved pre [a] _ tail (rounds + 1)
        (ih (pre ++ [a]) single.2 rounds (by simp only [List.length_cons] at enough ⊢; omega))
      have window := crlf_window pre (rest ++ ascii "\r\n" ++ tail) a (chr '\r') (rounds + 1)
      rw [if_neg (by decide), if_pos (by decide), if_pos rfl] at window
      refine window.trans ?_
      have apart : chr '\r' ≠ chr '\n' := by decide
      rw [searched, if_neg apart, if_pos (rfl : chr '\r' = chr '\r')]
      exact next
  | case3 a b rest newline ret ih =>
      -- Any other character: the window moves by two.
      rw [crlf_infix_cons, not_or] at single
      obtain ⟨rounds, rfl⟩ := Nat.exists_eq_succ_of_ne_zero (by rw [List.length_cons] at enough; omega : rounds ≠ 0)
      have next := line_end_moved pre [a, b] rest tail (rounds + 1)
        (ih (pre ++ [a, b]) (fun inside => single.2 (List.infix_cons inside)) rounds
          (by simp only [List.length_cons] at enough ⊢; omega))
      have window := crlf_window pre (rest ++ ascii "\r\n" ++ tail) a b (rounds + 1)
      rw [if_neg newline, if_neg ret] at window
      refine window.trans ?_
      rw [searched, if_neg newline, if_neg ret]
      by_cases low : b.toNat < 128
      · rw [if_pos low, decide_eq_true low, Bool.true_and]
        exact next
      · rw [if_neg low, decide_eq_false low, Bool.false_and]
        rfl
  | case4 line short =>
      -- At most one character is left in front of the line end.
      match line with
      | [] =>
          have window := crlf_window pre tail (chr '\r') (chr '\n') rounds
          rw [if_pos rfl, if_pos rfl] at window
          exact window
      | [a] =>
          obtain ⟨rounds, rfl⟩ := Nat.exists_eq_succ_of_ne_zero (by rw [List.length_cons] at enough; omega : rounds ≠ 0)
          have first := crlf_window pre (chr '\n' :: tail) a (chr '\r') (rounds + 1)
          rw [if_neg (by decide), if_pos (by decide), if_pos rfl] at first
          have second := crlf_window (pre ++ [a]) tail (chr '\r') (chr '\n') rounds
          rw [if_pos rfl, if_pos rfl, List.append_assoc pre [a], List.length_append] at second
          refine first.trans (second.trans ?_)
          rfl
      | a :: b :: rest => exact (short a b rest rfl).elim

theorem line_end_search (line tail : List UInt8) (single : ¬ ascii "\r\n" <:+: line) :
    findFirstOf (line ++ ascii "\r\n" ++ tail) (ascii "\r\n") =
      if searched line then .ok (some ((line.length : Int) - 1)) else .error .bounds := by
  have found := line_end_loop line [] tail ((line ++ ascii "\r\n" ++ tail).length + 1) single (by
    rw [List.length_append, List.length_append]
    omega)
  have nonempty : line ++ ascii "\r\n" ++ tail ≠ [] := by simp [ascii]
  rw [findFirstOf, if_neg nonempty, boyerMoore, if_neg, if_neg (by decide), crlf_heuristic]
  · rw [List.length_nil, Nat.zero_add] at found
    exact found
  · rintro (empty | short)
    · exact absurd empty (by decide)
    · rw [List.length_append, List.length_append] at short
      omega

end Facebooc
