import Facebooc.Runs

set_option autoImplicit false

namespace Runs

-- A list that every input may lengthen by one entry: each entry is where it is
-- because of one input.
section

variable {State Input Entry : Type} (next : State → Input → State) (entries : State → List Entry)
  (adds : State → Input → Option Entry)

theorem entries_grow (step : ∀ state input, entries (next state input) = entries state ++ (adds state input).toList)
    (state : State) (inputs : List Input) : entries state <+: entries (run next state inputs) := by
  induction inputs generalizing state with
  | nil => exact List.prefix_refl _
  | cons input rest ih =>
      have first : entries state <+: entries (next state input) := step state input ▸ List.prefix_append _ _
      exact first.trans (ih (next state input))

theorem entry_added (step : ∀ state input, entries (next state input) = entries state ++ (adds state input).toList)
    (state : State) (empty : entries state = []) (inputs : List Input) (p : Nat) (entry : Entry) :
    (entries (run next state inputs))[p]? = some entry ↔ ∃ before input after, inputs = before ++ input :: after ∧
      adds (run next state before) input = some entry ∧ (entries (run next state before)).length = p := by
  constructor
  · induction inputs using List.reverseRecOn with
    | nil =>
        intro here
        rw [run, List.foldl_nil, empty] at here
        cases here
    | append_singleton past input ih =>
        intro here
        rw [run_snoc, step, List.getElem?_append] at here
        split at here
        · obtain ⟨before, earlier, after, split, added, place⟩ := ih here
          exact ⟨before, earlier, after ++ [input], by rw [split]; simp, added, place⟩
        · rename_i beyond
          cases added : adds (run next state past) input with
          | none =>
              rw [added] at here
              cases here
          | some new =>
              rw [added, Option.toList_some, List.getElem?_singleton] at here
              split at here
              · rename_i first
                cases here
                exact ⟨past, input, [], rfl, added, by omega⟩
              · cases here
  · rintro ⟨before, input, after, rfl, added, place⟩
    have now : (entries (run next state (before ++ [input])))[p]? = some entry := by
      rw [run_snoc, step, added, ← place]
      simp
    have later := entries_grow next entries adds step (run next state (before ++ [input])) after
    have whole : run next (run next state (before ++ [input])) after = run next state (before ++ input :: after) := by
      rw [run, run, run, ← List.foldl_append, List.append_assoc]
      rfl
    rw [whole] at later
    obtain ⟨inside, same⟩ := List.getElem?_eq_some_iff.mp now
    rw [List.getElem?_eq_some_iff]
    exact ⟨Nat.lt_of_lt_of_le inside later.length_le, by rw [← same, later.getElem inside]⟩

theorem entry_member (step : ∀ state input, entries (next state input) = entries state ++ (adds state input).toList)
    (state : State) (empty : entries state = []) (inputs : List Input) (entry : Entry) :
    entry ∈ entries (run next state inputs) ↔
      ∃ before input after, inputs = before ++ input :: after ∧ adds (run next state before) input = some entry := by
  rw [List.mem_iff_getElem?]
  simp only [entry_added next entries adds step state empty inputs]
  constructor
  · rintro ⟨p, before, input, after, split, added, _⟩
    exact ⟨before, input, after, split, added⟩
  · rintro ⟨before, input, after, split, added⟩
    exact ⟨_, before, input, after, split, added, rfl⟩

end

-- Machines that answer every input.
section

variable {State Input Answer : Type} (step : State → Input → State × Answer)

def follow (state : State) (input : Input) : State := (step state input).1

def answers : State → List Input → List (Input × Answer)
  | _, [] => []
  | state, input :: rest => (input, (step state input).2) :: answers (follow step state input) rest

theorem follow_append (state : State) (past rest : List Input) :
    run (follow step) state (past ++ rest) = run (follow step) (run (follow step) state past) rest := List.foldl_append

theorem answers_append (state : State) (past rest : List Input) :
    answers step state (past ++ rest) = answers step state past ++ answers step (run (follow step) state past) rest := by
  induction past generalizing state with
  | nil => rfl
  | cons input past ih => rw [List.cons_append, answers, answers, ih, List.cons_append, run, run, List.foldl_cons]

theorem run_map {Other : Type} (map : Other → Input) (state : State) (inputs : List Other) :
    run (fun state input => follow step state (map input)) state inputs = run (follow step) state (inputs.map map) := by
  rw [run, run, List.foldl_map]

end

section

variable {Low High Input Request Out Answer : Type} (low : Low → Input → Low × Out) (high : High → Request → High × Answer)

-- An input stands for a request of the machine above, or for none, and then
-- nothing happens there.
structure Simulates (stands : Input → Option Request) (related : Low → High → Prop) (shows : Out → Answer → Prop) : Prop where
  matched : ∀ l h input request, related l h → stands input = some request →
    related (low l input).1 (high h request).1 ∧ shows (low l input).2 (high h request).2
  silent : ∀ l h input, related l h → stands input = none → related (low l input).1 h

def standingAnswers (stands : Input → Option Request) (entries : List (Input × Out)) : List Out :=
  entries.filterMap fun entry => (stands entry.1).map fun _ => entry.2

theorem simulates_run (stands : Input → Option Request) (related : Low → High → Prop) (shows : Out → Answer → Prop)
    (simulates : Simulates low high stands related shows) (inputs : List Input) :
    ∀ l h, related l h →
      related (run (follow low) l inputs) (run (follow high) h (inputs.filterMap stands)) ∧
        List.Forall₂ shows (standingAnswers stands (answers low l inputs))
          ((answers high h (inputs.filterMap stands)).map Prod.snd) := by
  induction inputs with
  | nil => exact fun l h here => ⟨here, .nil⟩
  | cons input rest ih =>
      intro l h here
      cases request : stands input with
      | none =>
          have later := ih (follow low l input) h (simulates.silent l h input here request)
          rw [List.filterMap_cons_none request]
          refine ⟨later.1, ?_⟩
          rw [answers, standingAnswers, List.filterMap_cons_none (by rw [request]; rfl)]
          exact later.2
      | some request' =>
          obtain ⟨next, answered⟩ := simulates.matched l h input request' here request
          have later := ih (follow low l input) (follow high h request') next
          rw [List.filterMap_cons_some request]
          refine ⟨later.1, ?_⟩
          rw [answers, standingAnswers, List.filterMap_cons_some (by rw [request]; rfl), answers, List.map_cons]
          exact .cons answered later.2

end

end Runs
