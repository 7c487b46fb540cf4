import Mathlib.Data.List.Basic

namespace Text

variable {α : Type} {sep : α} {l l' r r' : List α}

-- A text splits in one way at a separator that its first part does not contain.
theorem split_first (hl : sep ∉ l) (hl' : sep ∉ l') (h : l ++ sep :: r = l' ++ sep :: r') :
    l = l' ∧ r = r' := by
  induction l generalizing l' with
  | nil =>
    cases l' with
    | nil => exact ⟨rfl, by simpa using h⟩
    | cons c l' =>
      rw [List.nil_append, List.cons_append, List.cons.injEq] at h
      exact absurd (h.1 ▸ List.mem_cons_self) hl'
  | cons c l ih =>
    cases l' with
    | nil =>
      rw [List.nil_append, List.cons_append, List.cons.injEq] at h
      exact absurd (h.1 ▸ List.mem_cons_self) hl
    | cons c' l' =>
      rw [List.cons_append, List.cons_append, List.cons.injEq] at h
      obtain ⟨rfl, h⟩ := h
      have htails := ih (fun hmem => hl (List.mem_cons_of_mem _ hmem))
        (fun hmem => hl' (List.mem_cons_of_mem _ hmem)) h
      exact ⟨by rw [htails.1], htails.2⟩

theorem split_last (hr : sep ∉ r) (hr' : sep ∉ r') (h : l ++ sep :: r = l' ++ sep :: r') :
    l = l' ∧ r = r' := by
  have hreversed : r.reverse ++ sep :: l.reverse = r'.reverse ++ sep :: l'.reverse := by
    simpa using congrArg List.reverse h
  have hparts := split_first (by simpa using hr) (by simpa using hr') hreversed
  exact ⟨List.reverse_injective hparts.2, List.reverse_injective hparts.1⟩

end Text
