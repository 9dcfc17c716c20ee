import Facebooc.Simulation

set_option autoImplicit false

namespace Runs

section

variable {State Input Answer : Type} (step : State → Input → State × Answer) (hidden : State → Input → Bool)

-- The answers to the inputs that are not hidden, and the inputs without the
-- hidden ones. Whether an input is hidden depends on the state it finds.
def seen : State → List Input → List (Input × Answer)
  | _, [] => []
  | state, input :: rest =>
      let later := seen (follow step state input) rest
      if hidden state input then later else (input, (step state input).2) :: later

def purged : State → List Input → List Input
  | _, [] => []
  | state, input :: rest =>
      let later := purged (follow step state input) rest
      if hidden state input then later else input :: later

-- States that are alike answer the same, and stay alike whatever is hidden.
structure Hides (alike : State → State → Prop) : Prop where
  quiet : ∀ s t input, alike s t → hidden s input = true → alike (follow step s input) t
  told : ∀ s t input, alike s t → hidden s input = false →
    alike (follow step s input) (follow step t input) ∧ (step s input).2 = (step t input).2

theorem hides_run (alike : State → State → Prop) (hides : Hides step hidden alike) (inputs : List Input) :
    ∀ s t, alike s t → seen step hidden s inputs = answers step t (purged step hidden s inputs) ∧
      alike (run (follow step) s inputs) (run (follow step) t (purged step hidden s inputs)) := by
  induction inputs with
  | nil => exact fun s t here => ⟨rfl, here⟩
  | cons input rest ih =>
      intro s t here
      rw [seen, purged]
      cases unseen : hidden s input with
      | true => exact ih _ t (hides.quiet s t input here unseen)
      | false =>
          obtain ⟨next, same⟩ := hides.told s t input here unseen
          obtain ⟨later, last⟩ := ih _ _ next
          refine ⟨?_, last⟩
          simp only [Bool.false_eq_true, if_false]
          rw [answers, later, same]

end

end Runs
