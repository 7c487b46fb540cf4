import TranscodeForge.Interaction.Logic

namespace Interaction

variable {τ O : Type} {Res : O → Type} {σ ι ε ε' α β : Type}

variable {H : Handler τ O Res σ ι} {t : τ} {rely : σ → σ → Prop}

theorem Exec.calls {A : O → Prop} {p p' : Program O Res ε α} {s s' : σ}
    {es : List (CallRecord O σ ι)} (h : Exec H t rely p s es p' s') (hp : p.Calls A) :
    (∀ e ∈ es, A e.op) ∧ p'.Calls A := by
  induction h with
  | refl => exact ⟨by simp, hp⟩
  | call i _ _ _ ih =>
    obtain ⟨hes, hop, hk⟩ := ih
    refine ⟨fun e he => ?_, hk _⟩
    rcases List.mem_append.mp he with he | he
    · exact hes e he
    · rw [List.mem_singleton.mp he]
      exact hop

theorem Exec.of_ret {a : α} {q : Program O Res ε α} {s s' : σ} {es : List (CallRecord O σ ι)}
    (h : Exec H t rely (.ret a) s es q s') : q = .ret a ∧ es = [] := by
  induction h with
  | refl => exact ⟨rfl, rfl⟩
  | call i _ _ _ ih => cases ih.1

theorem Exec.of_raise {e : ε} {q : Program O Res ε α} {s s' : σ} {es : List (CallRecord O σ ι)}
    (h : Exec H t rely (.raise e) s es q s') : q = .raise e ∧ es = [] := by
  induction h with
  | refl => exact ⟨rfl, rfl⟩
  | call i _ _ _ ih => cases ih.1

theorem Exec.head {op : O} {k : Res op → Program O Res ε α} {q : Program O Res ε α}
    {s s' : σ} {es : List (CallRecord O σ ι)} (h : Exec H t rely (.call op k) s es q s') :
    (es = [] ∧ q = .call op k ∧ s' = s) ∨
      ∃ i s₁ es', rely s s₁ ∧ es = ⟨op, i, s₁, H.next t op i s₁⟩ :: es' ∧
        Exec H t rely (k (H.answer t op i s₁)) (H.next t op i s₁) es' q s' := by
  induction h with
  | refl => exact .inl ⟨rfl, rfl, rfl⟩
  | call i _ hr hready ih =>
    rcases ih with ⟨rfl, hq, rfl⟩ | ⟨i', s₁, es', hr', rfl, hrest⟩
    · cases hq
      exact .inr ⟨i, _, [], hr, rfl, .refl _ _⟩
    · exact .inr ⟨i', s₁, _, hr', rfl, hrest.call i hr hready⟩

theorem Exec.stopped {p q : Program O Res ε α} {s s' : σ} {es : List (CallRecord O σ ι)}
    (h : Exec H t rely p s es q s') (hp : p.outcome.isSome) : q = p ∧ es = [] ∧ s' = s := by
  induction h with
  | refl => exact ⟨rfl, rfl, rfl⟩
  | call i _ _ _ ih =>
    rw [← ih.1] at hp
    cases hp

-- The first call of an execution that comes to an end.
theorem Exec.first {op : O} {k : Res op → Program O Res ε α} {q : Program O Res ε α}
    {s s' : σ} {es : List (CallRecord O σ ι)} (h : Exec H t rely (.call op k) s es q s')
    (hq : q.outcome.isSome) :
    ∃ i s₁ es', rely s s₁ ∧ es = ⟨op, i, s₁, H.next t op i s₁⟩ :: es' ∧
      Exec H t rely (k (H.answer t op i s₁)) (H.next t op i s₁) es' q s' := by
  rcases h.head with ⟨-, rfl, -⟩ | hfirst
  · cases hq
  · exact hfirst

theorem Exec.perform_ret {op : O} {r : Res op} {s s' : σ} {es : List (CallRecord O σ ι)}
    (h : Exec H t rely (Program.perform op : Program O Res ε _) s es (.ret r) s') :
    ∃ i s₁, es = [⟨op, i, s₁, H.next t op i s₁⟩] ∧ r = H.answer t op i s₁ := by
  rcases h.head with ⟨-, hq, -⟩ | ⟨i, s₁, es', -, rfl, hrest⟩
  · cases hq
  · obtain ⟨hret, rfl⟩ := hrest.of_ret
    cases hret
    exact ⟨i, s₁, rfl, rfl⟩

-- A partial execution of a sequence either has not left its first part, or splits at the
-- value which that part returned.
theorem Exec.bind_cases {p : Program O Res ε α} {f : α → Program O Res ε β}
    {q : Program O Res ε β} {s s' : σ} {es : List (CallRecord O σ ι)}
    (h : Exec H t rely (p.bind f) s es q s') :
    (∃ p', Exec H t rely p s es p' s' ∧ q = p'.bind f) ∨
      ∃ a s₁ es₁ es₂, Exec H t rely p s es₁ (.ret a) s₁ ∧ Exec H t rely (f a) s₁ es₂ q s' ∧
        es = es₁ ++ es₂ := by
  induction h with
  | refl => exact .inl ⟨p, .refl _ _, rfl⟩
  | @call s₁ s₂ es op k i h hr hready ih =>
    rcases ih with ⟨p', hp, hq⟩ | ⟨a, s₀, es₁, es₂, hp, hf, rfl⟩
    · cases p' with
      | ret a =>
        have hf : Exec H t rely (f a) s₁ [] (.call op k) s₁ := hq ▸ .refl _ _
        exact .inr ⟨a, s₁, es, _, hp, hf.call i hr hready, by simp⟩
      | raise e => cases hq
      | call op' k' =>
        cases hq
        exact .inl ⟨_, hp.call i hr hready, rfl⟩
    · exact .inr ⟨a, s₀, es₁, _, hp, hf.call i hr hready, by simp⟩

theorem Exec.bind_ret {p : Program O Res ε α} {f : α → Program O Res ε β} {b : β} {s s' : σ}
    {es : List (CallRecord O σ ι)} (h : Exec H t rely (p.bind f) s es (.ret b) s') :
    ∃ a s₁ es₁ es₂, Exec H t rely p s es₁ (.ret a) s₁ ∧ Exec H t rely (f a) s₁ es₂ (.ret b) s' ∧
      es = es₁ ++ es₂ := by
  rcases h.bind_cases with ⟨p', hp, hq⟩ | h
  · cases p' with
    | ret a => exact ⟨a, s', es, [], hp, hq ▸ .refl _ _, by simp⟩
    | raise e => cases hq
    | call op k => cases hq
  · exact h

theorem Exec.attempt_cases {p : Program O Res ε α} {q : Program O Res ε' (Except ε α)}
    {s s' : σ} {es : List (CallRecord O σ ι)} (h : Exec H t rely p.attempt s es q s') :
    ∃ p', Exec H t rely p s es p' s' ∧ q = p'.attempt := by
  induction h with
  | refl => exact ⟨p, .refl _ _, rfl⟩
  | call i _ hr hready ih =>
    obtain ⟨p', hp, hq⟩ := ih
    cases p' with
    | ret a => cases hq
    | raise e => cases hq
    | call op k =>
      cases hq
      exact ⟨_, hp.call i hr hready, rfl⟩

theorem Exec.ofExcept_ret {x : Except ε α} {a : α} {s s' : σ} {es : List (CallRecord O σ ι)}
    (h : Exec H t rely (.ofExcept x) s es (.ret a) s') : x = .ok a ∧ es = [] := by
  cases x with
  | ok b =>
    obtain ⟨hret, rfl⟩ := Exec.of_ret h
    cases hret
    exact ⟨rfl, rfl⟩
  | error e => cases (Exec.of_raise h).1

-- An execution that makes a call its first part never makes has returned from that part.
theorem Exec.past {A : O → Prop} {p : Program O Res ε α} {f : α → Program O Res ε β}
    {q : Program O Res ε β} {s s' : σ} {es : List (CallRecord O σ ι)}
    (h : Exec H t rely (p.bind f) s es q s') (hp : p.Calls fun op => ¬ A op)
    (hes : ∃ e ∈ es, A e.op) :
    ∃ a s₁ es₁ es₂, Exec H t rely p s es₁ (.ret a) s₁ ∧ Exec H t rely (f a) s₁ es₂ q s' ∧
      es = es₁ ++ es₂ ∧ ∃ e ∈ es₂, A e.op := by
  obtain ⟨e, he, hA⟩ := hes
  rcases h.bind_cases with ⟨p', hpart, _⟩ | ⟨a, s₁, es₁, es₂, hpart, hrest, rfl⟩
  · exact absurd hA ((hpart.calls hp).1 e he)
  · rcases List.mem_append.mp he with he | he
    · exact absurd hA ((hpart.calls hp).1 e he)
    · exact ⟨a, s₁, es₁, es₂, hpart, hrest, rfl, e, he, hA⟩

theorem Exec.bind_left {p p' : Program O Res ε α} (f : α → Program O Res ε β) {s s' : σ}
    {es : List (CallRecord O σ ι)} (h : Exec H t rely p s es p' s') :
    Exec H t rely (p.bind f) s es (p'.bind f) s' := by
  induction h with
  | refl => exact .refl _ _
  | call i _ hr hready ih => exact ih.call i hr hready

theorem Exec.bind {p : Program O Res ε α} {f : α → Program O Res ε β} {q : Program O Res ε β}
    {a : α} {s s₁ s' : σ} {es₁ es₂ : List (CallRecord O σ ι)}
    (h : Exec H t rely p s es₁ (.ret a) s₁) (h' : Exec H t rely (f a) s₁ es₂ q s') :
    Exec H t rely (p.bind f) s (es₁ ++ es₂) q s' := (h.bind_left f).trans h'

-- A property of every call of a program together with what the program does next.
def Program.Everywhere (P : (op : O) → (Res op → Program O Res ε α) → Prop) :
    Program O Res ε α → Prop
  | .ret _ => True
  | .raise _ => True
  | .call op k => P op k ∧ ∀ r, (k r).Everywhere P

section Everywhere

variable {P : (op : O) → (Res op → Program O Res ε α) → Prop}
  {Q : (op : O) → (Res op → Program O Res ε β) → Prop}

theorem Program.Calls.everywhere {A : O → Prop} {p : Program O Res ε α} (hp : p.Calls A)
    (h : ∀ op k, A op → P op k) : p.Everywhere P := by
  induction p with
  | ret a => trivial
  | raise e => trivial
  | call op k ih => exact ⟨h op k hp.1, fun r => ih r (hp.2 r)⟩

theorem Program.Everywhere.bind {p : Program O Res ε α} {f : α → Program O Res ε β}
    (hp : p.Everywhere P) (hf : ∀ a, (f a).Everywhere Q)
    (hbind : ∀ op k, P op k → Q op fun r => (k r).bind f) : (p.bind f).Everywhere Q := by
  induction p with
  | ret a => exact hf a
  | raise e => trivial
  | call op k ih => exact ⟨hbind op k hp.1, fun r => ih r (hp.2 r)⟩

theorem Exec.everywhere {p p' : Program O Res ε α} {s s' : σ} {es : List (CallRecord O σ ι)}
    (h : Exec H t rely p s es p' s') (hp : p.Everywhere P) : p'.Everywhere P := by
  induction h with
  | refl => exact hp
  | call i _ _ _ ih => exact ih.2 _

end Everywhere

-- Before each of its calls an execution has come to the program that makes it.
theorem Exec.reached {p p' : Program O Res ε α} {s s' : σ} {es : List (CallRecord O σ ι)}
    (h : Exec H t rely p s es p' s') : ∀ e ∈ es, ∃ es₁ k s₁,
      Exec H t rely p s es₁ (.call e.op k) s₁ ∧ rely s₁ e.pre ∧ H.ready t e.op e.pre := by
  induction h with
  | refl => exact fun e he => (List.not_mem_nil he).elim
  | call i hexec hrely hready ih =>
    intro e he
    rcases List.mem_append.mp he with he | he
    · exact ih e he
    · obtain rfl := List.mem_singleton.mp he
      exact ⟨_, _, _, hexec, hrely, hready⟩

-- A property that every call keeps holds around every call of an undisturbed execution.
theorem Exec.invariant {P : σ → Prop} {p p' : Program O Res ε α} {s s' : σ}
    {es : List (CallRecord O σ ι)} (h : Exec H t (· = ·) p s es p' s') (hs : P s)
    (hstep : ∀ e ∈ es, P e.pre → P e.post) : (∀ e ∈ es, P e.pre) ∧ P s' := by
  induction h with
  | refl => exact ⟨by simp, hs⟩
  | call i _ hr _ ih =>
    obtain ⟨hpre, hlast⟩ := ih fun e he => hstep e (List.mem_append_left _ he)
    have hnow := hr ▸ hlast
    refine ⟨fun e he => ?_, hstep _ (List.mem_append_right _ (List.mem_singleton_self _)) hnow⟩
    rcases List.mem_append.mp he with he | he
    · exact hpre e he
    · rw [List.mem_singleton.mp he]
      exact hnow

end Interaction
