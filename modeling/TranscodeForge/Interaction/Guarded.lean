import TranscodeForge.Interaction.Pool

namespace Interaction

variable {τ ρ κ O : Type} {Res : O → Type} {σ ι ε α β : Type}

-- What is left of a program once some of its calls are answered.
inductive Program.Leads (p : Program O Res ε α) : Program O Res ε α → Prop
  | refl : Leads p p
  | next {op : O} {k : Res op → Program O Res ε α} (r : Res op) :
      Leads p (.call op k) → Leads p (k r)

theorem Program.Leads.calls {A : O → Prop} {p q : Program O Res ε α} (h : p.Leads q)
    (hp : p.Calls A) : q.Calls A := by
  induction h with
  | refl => exact hp
  | next r _ ih => exact ih.2 r

variable [DecidableEq τ]

theorem Config.threads_self (c : Config τ ρ O Res σ ε α) (s : σ) (t : τ)
    (thread : Option (Thread ρ O Res ε α)) : (c.setThread s t thread).threads t = thread :=
  Function.update_self ..

theorem Config.threads_of_ne (c : Config τ ρ O Res σ ε α) (s : σ) {t t' : τ}
    (thread : Option (Thread ρ O Res ε α)) (h : t' ≠ t) :
    (c.setThread s t thread).threads t' = c.threads t' :=
  Function.update_of_ne h ..

-- A run each of whose calls is admitted in the configuration it is made in.
inductive GuardedRun (S : System τ ρ κ O Res σ ι ε α)
    (admits : Config τ ρ O Res σ ε α → τ → O → Prop) (c : Config τ ρ O Res σ ε α) :
    Config τ ρ O Res σ ε α → Prop
  | refl : GuardedRun S admits c c
  | start {d : Config τ ρ O Res σ ε α} {t : τ} {r : ρ} {s : σ} :
      GuardedRun S admits c d → d.threads t = none → S.start t r d.state = some s →
      GuardedRun S admits c (d.setThread s t (some ⟨r, S.body t r⟩))
  | call {d : Config τ ρ O Res σ ε α} {t : τ} {r : ρ} {op : O} {k : Res op → Program O Res ε α}
      (i : ι) : GuardedRun S admits c d → d.threads t = some ⟨r, .call op k⟩ →
      S.handler.ready t op d.state → admits d t op →
      GuardedRun S admits c (d.setThread (S.handler.next t op i d.state) t
        (some ⟨r, k (S.handler.answer t op i d.state)⟩))
  | retire {d : Config τ ρ O Res σ ε α} {t : τ} {th : Thread ρ O Res ε α} :
      GuardedRun S admits c d → d.threads t = some th → th.rest.outcome.isSome →
      GuardedRun S admits c (d.setThread d.state t none)
  | disturb {d : Config τ ρ O Res σ ε α} (k : κ) :
      GuardedRun S admits c d → GuardedRun S admits c (d.disturbed S k)

variable {S : System τ ρ κ O Res σ ι ε α} {admits : Config τ ρ O Res σ ε α → τ → O → Prop}
  {c d : Config τ ρ O Res σ ε α}

theorem GuardedRun.run (h : GuardedRun S admits c d) : ∃ es, Run S c es d := by
  induction h with
  | refl => exact ⟨[], .refl⟩
  | start _ hfree hs ih =>
    obtain ⟨es, hrun⟩ := ih
    exact ⟨es, hrun.start hfree hs⟩
  | call i _ hthread hready _ ih =>
    obtain ⟨es, hrun⟩ := ih
    exact ⟨_, hrun.call i hthread hready⟩
  | retire _ hthread hdone ih =>
    obtain ⟨es, hrun⟩ := ih
    exact ⟨es, hrun.retire hthread hdone⟩
  | disturb k _ ih =>
    obtain ⟨es, hrun⟩ := ih
    exact ⟨es, hrun.disturb k⟩

-- A run none of whose calls is refused is guarded.
theorem Run.guarded {es : List (ThreadCall τ ρ O σ ι)} (h : Run S c es d)
    (hadmits : ∀ d t op, admits d t op) : GuardedRun S admits c d := by
  induction h with
  | refl => exact .refl
  | start _ hfree hs ih => exact ih.start hfree hs
  | call i _ hthread hready ih => exact ih.call i hthread hready (hadmits _ _ _)
  | retire _ hthread hdone ih => exact ih.retire hthread hdone
  | disturb k _ ih => exact ih.disturb k

theorem GuardedRun.invariant {I : Config τ ρ O Res σ ε α → Prop} (h : GuardedRun S admits c d)
    (hinit : I c)
    (hstart : ∀ d t r s, I d → d.threads t = none → S.start t r d.state = some s →
      I (d.setThread s t (some ⟨r, S.body t r⟩)))
    (hcall : ∀ d t r op k i, I d → d.threads t = some ⟨r, .call op k⟩ → admits d t op →
      I (d.setThread (S.handler.next t op i d.state) t
        (some ⟨r, k (S.handler.answer t op i d.state)⟩)))
    (hretire : ∀ d t th, I d → d.threads t = some th → th.rest.outcome.isSome →
      I (d.setThread d.state t none))
    (hdisturb : ∀ d k, I d → I (d.disturbed S k)) : I d := by
  induction h with
  | refl => exact hinit
  | start _ hfree hs ih => exact hstart _ _ _ _ ih hfree hs
  | call i _ hthread _ hadmits ih => exact hcall _ _ _ _ _ i ih hthread hadmits
  | retire _ hthread hdone ih => exact hretire _ _ _ ih hthread hdone
  | disturb k _ ih => exact hdisturb _ k ih

end Interaction
