import Facebooc.Base64

set_option autoImplicit false

namespace Facebooc

open CMemory

-- src/utility.c
def escapeTable : List (UInt8 × List UInt8) :=
  [(chr '"', ascii "&#34;"), (chr '\'', ascii "&#39;"), (chr '&', ascii "&#38;"), (chr '<', ascii "&#60;"),
   (chr '>', ascii "&#62;")]

def escapeChar (c : UInt8) : List UInt8 :=
  match escapeTable.find? fun entry => c = entry.1 with
  | none => [c]
  | some entry => entry.2

-- The text is left alone when its length stays the same.
def htmlEscapeTrans (str : BasicString) : BasicString :=
  let text := str.data.take str.size
  let newSize := str.size + 4 * text.countP fun c => escapeTable.any fun entry => c = entry.1
  if newSize = str.size then str else ⟨text.flatMap escapeChar, newSize⟩

def brChar (c : UInt8) : List UInt8 := if c = chr '\n' then ascii "<br>" else [c]

def newlineToBr (str : BasicString) : BasicString :=
  let text := str.data.take str.size
  let counter := text.count (chr '\n')
  if str.data = [] ∨ counter = 0 then str else ⟨text.flatMap brChar, str.size + counter * 3⟩

theorem flat_map_unchanged (f : UInt8 → List UInt8) (text : List UInt8) (plain : ∀ c ∈ text, f c = [c]) :
    text.flatMap f = text := by
  induction text with
  | nil => rfl
  | cons c text ih =>
      rw [List.flatMap_cons, plain c List.mem_cons_self, ih fun d member => plain d (List.mem_cons_of_mem c member)]
      rfl

theorem html_escape_trans_text (text : List UInt8) :
    (htmlEscapeTrans ⟨text, text.length⟩).data = text.flatMap escapeChar := by
  simp only [htmlEscapeTrans, List.take_length]
  split
  · rename_i same
    have unmarked : text.countP (fun c => escapeTable.any fun entry => c = entry.1) = 0 := by omega
    refine (flat_map_unchanged escapeChar text fun c member => ?_).symm
    have absent := List.countP_eq_zero.mp unmarked c member
    rw [escapeChar, List.find?_eq_none.mpr]
    intro entry inside same
    exact absent (List.any_eq_true.mpr ⟨entry, inside, same⟩)
  · rfl

theorem newline_to_br_text (text : List UInt8) : (newlineToBr ⟨text, text.length⟩).data = text.flatMap brChar := by
  simp only [newlineToBr, List.take_length]
  split
  · rename_i same
    refine (flat_map_unchanged brChar text fun c member => ?_).symm
    rw [brChar, if_neg]
    rintro rfl
    rcases same with empty | unmarked
    · rw [empty] at member
      cases member
    · exact List.count_eq_zero.mp unmarked member
  · rfl

theorem flat_map_br_length (text : List UInt8) :
    (text.flatMap brChar).length = text.length + text.count (chr '\n') * 3 := by
  induction text with
  | nil => rfl
  | cons c text ih =>
      rw [List.flatMap_cons, List.length_append, ih, List.length_cons, List.count_cons, brChar]
      by_cases newline : c = chr '\n'
      · rw [if_pos newline, if_pos (beq_iff_eq.mpr newline)]
        change 4 + _ = _
        omega
      · rw [if_neg newline, if_neg (by simpa using newline)]
        change 1 + _ = _
        omega

theorem newline_to_br_size (text : List UInt8) :
    (newlineToBr ⟨text, text.length⟩).size = (newlineToBr ⟨text, text.length⟩).data.length := by
  rw [newline_to_br_text, flat_map_br_length]
  simp only [newlineToBr, List.take_length]
  split
  · rename_i same
    have unmarked : text.count (chr '\n') = 0 := by
      rcases same with empty | none
      · rw [empty]
        rfl
      · exact none
    rw [unmarked]
    rfl
  · rfl

theorem escape_char_clean (c : UInt8) (nonzero : c ≠ 0) : 0 ∉ escapeChar c := by
  rw [escapeChar]
  cases found : escapeTable.find? fun entry => c = entry.1 with
  | none => simpa using nonzero.symm
  | some entry =>
      have clean : ∀ entry ∈ escapeTable, 0 ∉ entry.2 := by decide
      exact clean entry (List.mem_of_find?_eq_some found)

theorem br_char_clean (c : UInt8) (nonzero : c ≠ 0) : 0 ∉ brChar c := by
  rw [brChar]
  split
  · decide
  · simpa using nonzero.symm

theorem flat_map_clean (f : UInt8 → List UInt8) (text : List UInt8) (clean : 0 ∉ text)
    (each : ∀ c, c ≠ 0 → 0 ∉ f c) : 0 ∉ text.flatMap f := by
  intro member
  obtain ⟨c, inText, inOutput⟩ := List.mem_flatMap.mp member
  exact each c (fun zero => clean (zero ▸ inText)) inOutput

end Facebooc
