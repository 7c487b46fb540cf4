import TranscodeForge.Interaction.History

namespace Interaction

variable {τ ρ κ O : Type} {Res : O → Type} {σ ι ε ε' α β : Type}

namespace Program

-- The program makes a call of the class before it ends, whatever it is answered.
def Must (A : O → Prop) : Program O Res ε α → Prop
  | .ret _ => False
  | .raise _ => False
  | .call op k => A op ∨ ∀ r, (k r).Must A

-- Every call that incurs a debt is followed by one that pays it.
def Repays (incurs : (op : O) → Res op → Prop) (pays : O → Prop) : Program O Res ε α → Prop
  | .ret _ => True
  | .raise _ => True
  | .call op k => ∀ r, (incurs op r → (k r).Must pays) ∧ (k r).Repays incurs pays

variable {A pays : O → Prop} {incurs : (op : O) → Res op → Prop}

theorem Must.bind {p : Program O Res ε α} (f : α → Program O Res ε β) (h : p.Must A) :
    (p.bind f).Must A := by
  induction p with
  | ret a => exact h.elim
  | raise e => exact h.elim
  | call op k ih =>
    rcases h with hop | hrest
    · exact .inl hop
    · exact .inr fun r => ih r (hrest r)

theorem Must.attempt {p : Program O Res ε α} (h : p.Must A) :
    (p.attempt : Program O Res ε' _).Must A := by
  induction p with
  | ret a => exact h.elim
  | raise e => exact h.elim
  | call op k ih =>
    rcases h with hop | hrest
    · exact .inl hop
    · exact .inr fun r => ih r (hrest r)

theorem Repays.bind {p : Program O Res ε α} {f : α → Program O Res ε β}
    (hp : p.Repays incurs pays) (hf : ∀ a, (f a).Repays incurs pays) :
    (p.bind f).Repays incurs pays := by
  induction p with
  | ret a => exact hf a
  | raise e => trivial
  | call op k ih =>
    exact fun r => ⟨fun hincurs => ((hp r).1 hincurs).bind f, ih r (hp r).2⟩

theorem Repays.attempt {p : Program O Res ε α} (hp : p.Repays incurs pays) :
    (p.attempt : Program O Res ε' _).Repays incurs pays := by
  induction p with
  | ret a => trivial
  | raise e => trivial
  | call op k ih => exact fun r => ⟨fun hincurs => ((hp r).1 hincurs).attempt, ih r (hp r).2⟩

theorem Repays.rescue {p : Program O Res ε α} {handler : ε → Program O Res ε' α}
    (hp : p.Repays incurs pays) (hh : ∀ e, (handler e).Repays incurs pays) :
    (p.rescue handler).Repays incurs pays := by
  refine hp.attempt.bind fun x => ?_
  cases x with
  | ok a => trivial
  | error e => exact hh e

-- A program that incurs no debt.
theorem Repays.of_calls {p : Program O Res ε α} (hp : p.Calls fun op => ∀ r, ¬incurs op r) :
    p.Repays incurs pays := by
  induction p with
  | ret a => trivial
  | raise e => trivial
  | call op k ih => exact fun r => ⟨fun hincurs => absurd hincurs (hp.1 r), ih r (hp.2 r)⟩

end Program

variable {S : System τ ρ κ O Res σ ι ε α} [DecidableEq τ]
variable {incurs : (op : O) → Res op → Prop} {pays : O → Prop}

def ThreadCall.Incurs (H : Handler τ O Res σ ι) (incurs : (op : O) → Res op → Prop)
    (e : ThreadCall τ ρ O σ ι) : Prop :=
  incurs e.op (H.answer e.thread e.op e.input e.pre)

-- The thread has incurred a debt and not paid it since.
def Owes (H : Handler τ O Res σ ι) (incurs : (op : O) → Res op → Prop) (pays : O → Prop) (t : τ)
    (es : List (ThreadCall τ ρ O σ ι)) : Prop :=
  ¬ClearSince (fun e => e.thread = t ∧ pays e.op) (fun e => e.thread = t ∧ e.Incurs H incurs) es

theorem Owes.of_incurs {H : Handler τ O Res σ ι} {es : List (ThreadCall τ ρ O σ ι)}
    {e : ThreadCall τ ρ O σ ι} (h : e.Incurs H incurs) :
    Owes H incurs pays e.thread (es ++ [e]) := by
  intro hclear
  obtain ⟨g, hg, -⟩ := hclear es e [] rfl ⟨rfl, h⟩
  cases hg

theorem Owes.append {H : Handler τ O Res σ ι} {t : τ} {es : List (ThreadCall τ ρ O σ ι)}
    {e : ThreadCall τ ρ O σ ι} (h : Owes H incurs pays t es) (he : ¬(e.thread = t ∧ pays e.op)) :
    Owes H incurs pays t (es ++ [e]) := by
  intro hclear
  refine h (ClearSince.of_append ?_ hclear).1
  exact he

theorem Owes.cases {H : Handler τ O Res σ ι} {t : τ} {es : List (ThreadCall τ ρ O σ ι)}
    {e : ThreadCall τ ρ O σ ι} (h : Owes H incurs pays t (es ++ [e])) :
    (e.thread = t ∧ e.Incurs H incurs) ∨
      Owes H incurs pays t es ∧ ¬(e.thread = t ∧ pays e.op) := by
  by_cases hincurs : e.thread = t ∧ e.Incurs H incurs
  · exact .inl hincurs
  · exact .inr ⟨fun hclear => h (hclear.append hincurs),
      fun hpays => h (ClearSince.append_own hincurs hpays)⟩

-- In a run of programs that repay their debts, a thread in debt has still to pay.
theorem Run.owed {s : σ} {d : Config τ ρ O Res σ ε α} {es : List (ThreadCall τ ρ O σ ι)}
    {A : ρ → Prop} (h : Run S (.initial s) es d) (ha : ∀ e ∈ es, A e.request)
    (hbody : ∀ t r, A r → (S.body t r).Repays incurs pays) (hkills : ∀ k t, S.kills k t = false) :
    (∀ t, Owes S.handler incurs pays t es → ∃ th, d.threads t = some th ∧ th.rest.Must pays) ∧
      ∀ t th, d.threads t = some th → A th.request → th.rest.Repays incurs pays := by
  induction h with
  | refl => exact ⟨fun t howes => absurd .nil howes, fun t th hth => (by cases hth)⟩
  | @start es d t r s' _ hfree _ ih =>
    obtain ⟨howed, hrepays⟩ := ih ha
    refine ⟨fun t' howes => ?_, fun t' th hth hr => ?_⟩
    · obtain ⟨th, hth, hmust⟩ := howed t' howes
      have hne : t' ≠ t := fun heq => by
        rw [heq, hfree] at hth
        cases hth
      exact ⟨th, (Function.update_of_ne hne ..).trans hth, hmust⟩
    · by_cases htt : t' = t
      · subst htt
        simp only [Config.setThread, Function.update_self, Option.some.injEq] at hth
        subst hth
        exact hbody _ _ hr
      · simp only [Config.setThread, Function.update_of_ne htt] at hth
        exact hrepays t' th hth hr
  | @call es d t r op k i _ hthread _ ih =>
    obtain ⟨howed, hrepays⟩ := ih fun e he => ha e (List.mem_append_left _ he)
    have hr : A r := ha _ (List.mem_append_right _ (List.mem_singleton_self _))
    have hnow := hrepays t _ hthread hr (S.handler.answer t op i d.state)
    refine ⟨fun t' howes => ?_, fun t' th hth hreq => ?_⟩
    · rcases howes.cases with ⟨rfl, hincurs⟩ | ⟨hbefore, hunpaid⟩
      · exact ⟨_, Function.update_self .., hnow.1 hincurs⟩
      · obtain ⟨th, hth, hmust⟩ := howed t' hbefore
        by_cases htt : t' = t
        · subst htt
          cases hthread.symm.trans hth
          refine ⟨_, Function.update_self .., ?_⟩
          exact (hmust.resolve_left fun hpays => hunpaid ⟨rfl, hpays⟩) _
        · exact ⟨th, (Function.update_of_ne htt ..).trans hth, hmust⟩
    · by_cases htt : t' = t
      · subst htt
        simp only [Config.setThread, Function.update_self, Option.some.injEq] at hth
        subst hth
        exact hnow.2
      · simp only [Config.setThread, Function.update_of_ne htt] at hth
        exact hrepays t' th hth hreq
  | @retire es d t th _ hthread hdone ih =>
    obtain ⟨howed, hrepays⟩ := ih ha
    refine ⟨fun t' howes => ?_, fun t' th' hth hreq => ?_⟩
    · obtain ⟨th', hth, hmust⟩ := howed t' howes
      have hne : t' ≠ t := fun heq => by
        subst heq
        cases hthread.symm.trans hth
        cases hrest : th.rest with
        | ret a => rw [hrest] at hmust; exact hmust
        | raise e => rw [hrest] at hmust; exact hmust
        | call op k => rw [hrest] at hdone; cases hdone
      exact ⟨th', (Function.update_of_ne hne ..).trans hth, hmust⟩
    · by_cases htt : t' = t
      · subst htt
        simp [Config.setThread] at hth
      · simp only [Config.setThread, Function.update_of_ne htt] at hth
        exact hrepays t' th' hth hreq
  | @disturb es d k _ ih =>
    obtain ⟨howed, hrepays⟩ := ih ha
    refine ⟨fun t' howes => ?_, fun t' th hth hreq => ?_⟩
    · obtain ⟨th, hth, hmust⟩ := howed t' howes
      exact ⟨th, by simp only [Config.disturbed, hkills, Bool.false_eq_true, if_false, hth], hmust⟩
    · simp only [Config.disturbed, hkills, Bool.false_eq_true, if_false] at hth
      exact hrepays t' th hth hreq

end Interaction
