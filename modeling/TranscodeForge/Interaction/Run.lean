import TranscodeForge.Interaction.Logic

namespace Interaction

variable {τ O : Type} {Res : O → Type} {σ ι ω V ε ε' α β : Type}

-- The run a choice of inputs determines, when nobody interferes.
def Program.run (H : Handler τ O Res σ ι) (t : τ) (choose : ω → O → ι × ω) :
    Program O Res ε α → ω → σ → Except ε α × ω × σ
  | .ret a, n, s => (.ok a, n, s)
  | .raise e, n, s => (.error e, n, s)
  | .call op k, n, s =>
    let (i, n') := choose n op
    let (s', answer) := H.exec t op i s
    (k answer).run H t choose n' s'

variable {H : Handler τ O Res σ ι} {t : τ} {choose : ω → O → ι × ω} {view : σ → V}

theorem Program.run_bind (p : Program O Res ε α) (f : α → Program O Res ε β) (n : ω) (s : σ) :
    (p.bind f).run H t choose n s =
      match p.run H t choose n s with
      | (.ok a, n', s') => (f a).run H t choose n' s'
      | (.error e, n', s') => (.error e, n', s') := by
  induction p generalizing n s with
  | ret a => rfl
  | raise e => rfl
  | call op k ih => exact ih _ _ _

theorem Program.run_post {C : Contract O σ ι} {p : Program O Res ε α}
    {Q : Except ε α → σ → Prop} {n : ω} {s : σ} (h : p.wp H t C Q s) (hrely : ∀ s, C.rely s s)
    (hready : ∀ op s, H.ready t op s = true)
    (hassume : ∀ n op s, C.assume op (choose n op).1 s) :
    Q (p.run H t choose n s).1 (p.run H t choose n s).2.2 := by
  induction p generalizing n s with
  | ret a => exact h
  | raise e => exact h
  | call op k ih =>
    obtain ⟨-, hk⟩ := h s (hrely s) (hready op s) (choose n op).1 (hassume n op s)
    exact ih _ hk

-- A run as seen through a view of the state.
def Turns (H : Handler τ O Res σ ι) (t : τ) (choose : ω → O → ι × ω) (view : σ → V)
    (p : Program O Res ε α) (n : ω) (v : V) (r : Except ε α) (n' : ω) (v' : V) : Prop :=
  ∀ s, view s = v → ∃ s', p.run H t choose n s = (r, n', s') ∧ view s' = v'

namespace Turns

variable {n n' n'' : ω} {v v' v'' : V}

theorem ret (a : α) : Turns H t choose view (.ret a : Program O Res ε α) n v (.ok a) n v :=
  fun s hs => ⟨s, rfl, hs⟩

theorem raise (e : ε) :
    Turns H t choose view (.raise e : Program O Res ε α) n v (.error e) n v :=
  fun s hs => ⟨s, rfl, hs⟩

theorem bind {p : Program O Res ε α} {f : α → Program O Res ε β} {a : α} {r : Except ε β}
    (hp : Turns H t choose view p n v (.ok a) n' v')
    (hf : Turns H t choose view (f a) n' v' r n'' v'') :
    Turns H t choose view (p.bind f) n v r n'' v'' := by
  intro s hs
  obtain ⟨s', hrun, hs'⟩ := hp s hs
  obtain ⟨s'', hrun', hs''⟩ := hf s' hs'
  refine ⟨s'', ?_, hs''⟩
  rw [Program.run_bind, hrun]
  exact hrun'

theorem bind_error {p : Program O Res ε α} {f : α → Program O Res ε β} {e : ε}
    (hp : Turns H t choose view p n v (.error e) n' v') :
    Turns H t choose view (p.bind f) n v (.error e) n' v' := by
  intro s hs
  obtain ⟨s', hrun, hs'⟩ := hp s hs
  refine ⟨s', ?_, hs'⟩
  rw [Program.run_bind, hrun]

theorem call {op : O} {k : Res op → Program O Res ε α} {a : Res op} {r : Except ε α}
    (hop : ∀ s, view s = v → H.answer t op (choose n op).1 s = a ∧
      view (H.next t op (choose n op).1 s) = v')
    (hk : Turns H t choose view (k a) (choose n op).2 v' r n'' v'') :
    Turns H t choose view (.call op k) n v r n'' v'' := by
  intro s hs
  obtain ⟨ha, hnext⟩ := hop s hs
  obtain ⟨s', hrun, hs'⟩ := hk _ hnext
  rw [← ha] at hrun
  exact ⟨s', hrun, hs'⟩

end Turns

end Interaction
