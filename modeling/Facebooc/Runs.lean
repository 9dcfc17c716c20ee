import Mathlib.Data.List.Induction

set_option autoImplicit false

namespace Runs

section

variable {State Input : Type} (next : State → Input → State)

-- The state after a list of inputs, and that each of them met a condition in
-- the state it found.
def run (state : State) (inputs : List Input) : State := inputs.foldl next state

def Along (condition : State → Input → Prop) : State → List Input → Prop
  | _, [] => True
  | state, input :: rest => condition state input ∧ Along condition (next state input) rest

theorem run_snoc (state : State) (past : List Input) (input : Input) :
    run next state (past ++ [input]) = next (run next state past) input := by
  rw [run, List.foldl_append]
  rfl

theorem along_append (condition : State → Input → Prop) (state : State) (past rest : List Input) :
    Along next condition state (past ++ rest) ↔
      Along next condition state past ∧ Along next condition (run next state past) rest := by
  induction past generalizing state with
  | nil => simp [Along, run]
  | cons input past ih => simp only [List.cons_append, Along, ih, and_assoc, run, List.foldl_cons]

theorem along_snoc (condition : State → Input → Prop) (state : State) (past : List Input) (input : Input) :
    Along next condition state (past ++ [input]) ↔
      Along next condition state past ∧ condition (run next state past) input := by
  rw [along_append]
  simp [Along]

theorem along_true (state : State) (inputs : List Input) : Along next (fun _ _ => True) state inputs := by
  induction inputs generalizing state with
  | nil => trivial
  | cons input rest ih => exact ⟨trivial, ih _⟩

-- An invariant that may speak about the inputs so far.
theorem history_invariant (condition : State → Input → Prop) (inv : List Input → State → Prop) (first : State)
    (start : inv [] first)
    (kept : ∀ past state input, inv past state → condition state input → inv (past ++ [input]) (next state input)) :
    ∀ inputs, Along next condition first inputs → inv inputs (run next first inputs) := by
  intro inputs
  induction inputs using List.reverseRecOn with
  | nil => exact fun _ => start
  | append_singleton past input ih =>
      intro along
      obtain ⟨before, last⟩ := (along_snoc next condition first past input).mp along
      rw [run_snoc]
      exact kept past _ input (ih before) last

theorem along_and (left right : State → Input → Prop) (state : State) (inputs : List Input) :
    Along next (fun state input => left state input ∧ right state input) state inputs ↔
      Along next left state inputs ∧ Along next right state inputs := by
  induction inputs generalizing state with
  | nil => simp [Along]
  | cons input rest ih =>
      rw [Along, Along, Along, ih]
      exact and_and_and_comm

theorem along_congr (guard left right : State → Input → Prop)
    (agree : ∀ state input, guard state input → (left state input ↔ right state input)) :
    ∀ state inputs, Along next guard state inputs → (Along next left state inputs ↔ Along next right state inputs) := by
  intro state inputs
  induction inputs generalizing state with
  | nil => exact fun _ => Iff.rfl
  | cons input rest ih =>
      rintro ⟨here, later⟩
      rw [Along, Along, agree state input here, ih _ later]

def Throughout (inv : State → Prop) (state : State) (inputs : List Input) : Prop :=
  ∀ past, past <+: inputs → inv (run next state past)

theorem throughout_cons (inv : State → Prop) (state : State) (input : Input) (rest : List Input) :
    Throughout next inv state (input :: rest) ↔ inv state ∧ Throughout next inv (next state input) rest := by
  constructor
  · intro held
    refine ⟨held [] (List.nil_prefix), fun past early => held (input :: past) ?_⟩
    exact List.cons_prefix_cons.mpr ⟨rfl, early⟩
  · rintro ⟨here, later⟩ past early
    cases past with
    | nil => exact here
    | cons first past =>
        obtain ⟨same, early⟩ := List.cons_prefix_cons.mp early
        rw [same]
        exact later past early

theorem throughout_nil (inv : State → Prop) (state : State) : Throughout next inv state [] ↔ inv state := by
  constructor
  · exact fun held => held [] List.nil_prefix
  · intro here past early
    rw [List.prefix_nil.mp early]
    exact here

theorem throughout_append (inv : State → Prop) (state : State) (past rest : List Input) :
    Throughout next inv state (past ++ rest) ↔ Throughout next inv state past ∧ Throughout next inv (run next state past) rest := by
  induction past generalizing state with
  | nil =>
      refine ⟨fun held => ⟨?_, held⟩, And.right⟩
      exact (throughout_nil next inv state).mpr (held [] List.nil_prefix)
  | cons input past ih =>
      rw [List.cons_append, throughout_cons, throughout_cons, ih, and_assoc]
      rfl

-- An invariant that a step keeps exactly when it meets a condition.
theorem throughout_guarded (guard condition : State → Input → Prop) (inv : State → Prop)
    (kept : ∀ state input, inv state → guard state input → (inv (next state input) ↔ condition state input)) :
    ∀ inputs first, inv first → Along next guard first inputs →
      (Throughout next inv first inputs ↔ Along next condition first inputs) := by
  intro inputs
  induction inputs with
  | nil =>
      intro first start _
      exact iff_of_true ((throughout_nil next inv first).mpr start) trivial
  | cons input rest ih =>
      intro first start guarded
      rw [throughout_cons, Along]
      constructor
      · rintro ⟨_, later⟩
        have held : inv (next first input) := later [] List.nil_prefix
        exact ⟨(kept first input start guarded.1).mp held, (ih _ held guarded.2).mp later⟩
      · rintro ⟨met, later⟩
        have held := (kept first input start guarded.1).mpr met
        exact ⟨start, (ih _ held guarded.2).mpr later⟩

theorem throughout_iff (condition : State → Input → Prop) (inv : State → Prop)
    (kept : ∀ state input, inv state → (inv (next state input) ↔ condition state input)) :
    ∀ inputs first, inv first → (Throughout next inv first inputs ↔ Along next condition first inputs) := by
  intro inputs first start
  exact throughout_guarded next (fun _ _ => True) condition inv (fun state input held _ => kept state input held) inputs first start
    (along_true next first inputs)

end

section

variable {Left Right Input : Type} (left : Left → Input → Left) (right : Right → Input → Right)

-- Two machines that are given the same inputs.
def both (state : Left × Right) (input : Input) : Left × Right := (left state.1 input, right state.2 input)

theorem run_both (state : Left × Right) (inputs : List Input) :
    run (both left right) state inputs = (run left state.1 inputs, run right state.2 inputs) := by
  induction inputs generalizing state with
  | nil => rfl
  | cons input rest ih => exact ih (both left right state input)

theorem along_both (condition : Right → Input → Prop) (state : Left × Right) (inputs : List Input) :
    Along (both left right) (fun state input => condition state.2 input) state inputs ↔ Along right condition state.2 inputs := by
  induction inputs generalizing state with
  | nil => exact Iff.rfl
  | cons input rest ih => exact and_congr Iff.rfl (ih (both left right state input))

end

end Runs
