import TranscodeForge.Interaction.Logic

namespace Interaction

variable {τ O : Type} {Res : O → Type} {σ ι ε α : Type}

-- A handler that remembers whether a call of some kind has been made.
def Handler.marking (H : Handler τ O Res σ ι) (marks : O → ι → Bool) :
    Handler τ O Res (σ × Bool) ι where
  exec t op i s := ((H.next t op i s.1, s.2 || marks op i), H.answer t op i s.1)
  ready t op s := H.ready t op s.1

def Contract.marking (C : Contract O σ ι) : Contract O (σ × Bool) ι where
  rely s s' := C.rely s.1 s'.1 ∧ s'.2 = s.2
  assume op i s := C.assume op i s.1
  guar op i s s' := C.guar op i s.1 s'.1

variable {H : Handler τ O Res σ ι} {t : τ} {C : Contract O σ ι} {marks : O → ι → Bool}

theorem Exec.marking (marks : O → ι → Bool) {p p' : Program O Res ε α} {s s' : σ} {es : List (CallRecord O σ ι)}
    (h : Exec H t C.rely p s es p' s') (hassume : ∀ e ∈ es, C.assume e.op e.input e.pre)
    (marked : Bool) :
    ∃ es', Exec (H.marking marks) t C.marking.rely p (s, marked) es' p'
        (s', marked || es.any fun e => marks e.op e.input) ∧
      ∀ e ∈ es', C.marking.assume e.op e.input e.pre := by
  induction h with
  | refl => exact ⟨[], by simpa using .refl _ _, by simp⟩
  | @call s₁ s₂ es op k i _ hr hready ih =>
    obtain ⟨es', hexec, hes'⟩ := ih fun e he => hassume e (List.mem_append_left _ he)
    have hlast : C.assume op i s₂ :=
      hassume ⟨op, i, s₂, H.next t op i s₂⟩ (List.mem_append_right _ (List.mem_singleton_self _))
    have hrely : C.marking.rely (s₁, marked || es.any fun e => marks e.op e.input)
        (s₂, marked || es.any fun e => marks e.op e.input) := ⟨hr, rfl⟩
    have hstep := hexec.call i hrely hready
    have hmark : ∀ e : CallRecord O σ ι,
        (marked || (es ++ [e]).any fun e => marks e.op e.input) =
          ((marked || es.any fun e => marks e.op e.input) || marks e.op e.input) := by
      intro e
      simp [Bool.or_assoc]
    rw [hmark]
    refine ⟨_, hstep, fun e he => ?_⟩
    rcases List.mem_append.mp he with he | he
    · exact hes' e he
    · rw [List.mem_singleton.mp he]
      exact hlast

-- What the marking handler proves of a program holds of its executions, the mark telling
-- whether one of their calls was of the kind.
theorem Exec.marked_post {p p' : Program O Res ε α} {s s' : σ} {es : List (CallRecord O σ ι)}
    {Q : Except ε α → σ × Bool → Prop} {o : Except ε α} (h : Exec H t C.rely p s es p' s')
    (hp : p.wp (H.marking marks) t C.marking Q (s, false))
    (hassume : ∀ e ∈ es, C.assume e.op e.input e.pre) (ho : p'.outcome = some o) :
    Q o (s', es.any fun e => marks e.op e.input) := by
  obtain ⟨es', hexec, hes'⟩ := h.marking marks hassume false
  simpa using hexec.outcome_post hp hes' ho

end Interaction
