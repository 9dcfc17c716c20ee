import Mathlib.Data.List.Basic

set_option autoImplicit false

namespace Conversations

section

variable {Key Event Phase : Type} [DecidableEq Key] (key : Event → Key) (next : Phase → Event → Option Phase)

-- Where an automaton that reads the events on one key stands, as long as it
-- accepts them.
def phaseOf (start : Phase) (events : List Event) (k : Key) : Option Phase :=
  (events.filter fun event => key event = k).foldlM next start

theorem phase_append (start : Phase) (events later : List Event) (k : Key) :
    phaseOf key next start (events ++ later) k =
      (phaseOf key next start events k).bind fun phase => phaseOf key next phase later k := by
  rw [phaseOf, List.filter_append, List.foldlM_append]
  rfl

theorem phase_other (start : Phase) (events later : List Event) (k : Key) (other : ∀ event ∈ later, key event ≠ k) :
    phaseOf key next start (events ++ later) k = phaseOf key next start events k := by
  have none_here : later.filter (fun event => key event = k) = [] :=
    List.filter_eq_nil_iff.mpr fun event member => by simpa using other event member
  rw [phaseOf, List.filter_append, none_here, List.append_nil, phaseOf]

theorem phase_own (start : Phase) (events later : List Event) (k : Key) (own : ∀ event ∈ later, key event = k) :
    phaseOf key next start (events ++ later) k =
      (phaseOf key next start events k).bind fun phase => later.foldlM next phase := by
  have all_here : later.filter (fun event => key event = k) = later :=
    List.filter_eq_self.mpr fun event member => decide_eq_true (own event member)
  rw [phase_append]
  simp only [phaseOf, all_here]

-- Pieces of events on keys of their own, one behind the other.
theorem phase_pieces (start : Phase) (pieces : List (Key × List Event)) :
    ∀ events, (∀ piece ∈ pieces, ∀ event ∈ piece.2, key event = piece.1) → (pieces.map Prod.fst).Nodup →
      (∀ k, k ∉ pieces.map Prod.fst →
        phaseOf key next start (events ++ pieces.flatMap Prod.snd) k = phaseOf key next start events k) ∧
      ∀ piece ∈ pieces, phaseOf key next start (events ++ pieces.flatMap Prod.snd) piece.1 =
        (phaseOf key next start events piece.1).bind fun phase => piece.2.foldlM next phase := by
  induction pieces with
  | nil =>
      intro events _ _
      simp
  | cons piece rest ih =>
      intro events own keys
      obtain ⟨ownFirst, ownRest⟩ := List.forall_mem_cons.mp own
      rw [List.map_cons, List.nodup_cons] at keys
      obtain ⟨absent, later⟩ := ih (events ++ piece.2) ownRest keys.2
      rw [List.flatMap_cons, ← List.append_assoc]
      constructor
      · intro k outside
        rw [List.map_cons, List.mem_cons, not_or] at outside
        rw [absent k outside.2]
        exact phase_other key next start events piece.2 k fun event member same =>
          outside.1 (same.symm.trans (ownFirst event member))
      · intro other member
        rcases List.mem_cons.mp member with rfl | inRest
        · rw [absent _ keys.1]
          exact phase_own key next start events other.2 other.1 ownFirst
        · rw [later other inRest]
          have apart : other.1 ≠ piece.1 := fun same => keys.1 (same ▸ List.mem_map_of_mem inRest)
          rw [phase_other key next start events piece.2 other.1 fun event inside same =>
            apart (same.symm.trans (ownFirst event inside))]

end

end Conversations
