namespace Async

variable {α β : Type}

-- However the steps are chosen, they come to the goal, and a step can be taken until then.
inductive Ends (step : α → α → Prop) (goal : α → Prop) : α → Prop
  | now {a : α} : goal a → Ends step goal a
  | later {a : α} : (∃ b, step a b) → (∀ b, step a b → Ends step goal b) → Ends step goal a

namespace Ends

variable {step : α → α → Prop} {step' : β → β → Prop} {goal middle : α → Prop} {goal' : β → Prop}

-- A system whose steps another one matches ends where the other one does.
theorem simulate {a : α} {b : β} (h : Ends step goal a) (rel : α → β → Prop) (hrel : rel a b)
    (hgoal : ∀ a b, rel a b → goal a → Ends step' goal' b)
    (hnext : ∀ a b, rel a b → ¬goal a → ∀ a', step a a' → ∃ b', step' b b')
    (hstep : ∀ a b, rel a b → ¬goal a → ∀ b', step' b b' → ∃ a', step a a' ∧ rel a' b') :
    Ends step' goal' b := by
  induction h generalizing b with
  | now ha => exact hgoal _ b hrel ha
  | @later a hex _ ih =>
    by_cases ha : goal a
    · exact hgoal a b hrel ha
    · obtain ⟨a', ha'⟩ := hex
      apply Ends.later (hnext a b hrel ha a' ha')
      intro b' hb'
      obtain ⟨a₂, ha₂, hrel₂⟩ := hstep a b hrel ha b' hb'
      exact ih a₂ ha₂ hrel₂

end Ends

end Async
