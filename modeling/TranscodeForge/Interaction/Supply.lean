import TranscodeForge.Interaction.History

namespace Interaction

variable {τ ρ κ O : Type} {Res : O → Type} {σ ι ε ε' α β ν : Type}

-- Names that are never given out twice; `spends` is the name a call uses up.
structure Supply (S : System τ ρ κ O Res σ ι ε α) (ν : Type) where
  draws : (op : O) → Res op → Option ν
  spends : O → Option ν
  drawn : σ → ν → Prop
  fresh : ∀ t op i s n, draws op (S.handler.answer t op i s) = some n →
    ¬drawn s n ∧ drawn (S.handler.next t op i s) n
  call : ∀ t op i s n, drawn s n → drawn (S.handler.next t op i s) n
  start : ∀ t r s s' n, S.start t r s = some s' → drawn s n → drawn s' n
  disturb : ∀ k s n, drawn s n → drawn (S.disturb k s) n

namespace Program

variable [DecidableEq ν] (draws : (op : O) → Res op → Option ν) (spends : O → Option ν)

-- A program that spends only names it holds, each once; it holds what it has drawn.
def Frugal : List ν → Program O Res ε α → Prop
  | _, .ret _ => True
  | _, .raise _ => True
  | held, .call op k => (∀ n, spends op = some n → n ∈ held) ∧
    ∀ r, (∀ n, draws op r = some n → n ∉ held) →
      (k r).Frugal ((draws op r).toList ++ held.filter fun n => spends op ≠ some n)

variable {draws spends}

theorem Frugal.mono {p : Program O Res ε α} {held held' : List ν} (h : p.Frugal draws spends held)
    (hsub : held ⊆ held') : p.Frugal draws spends held' := by
  induction p generalizing held held' with
  | ret a => trivial
  | raise e => trivial
  | call op k ih =>
    refine ⟨fun n hn => hsub (h.1 n hn), fun r hr => ih r (h.2 r fun n hn => ?_) ?_⟩
    · exact fun hheld => hr n hn (hsub hheld)
    intro n hn
    simp only [List.mem_append, List.mem_filter] at hn ⊢
    exact hn.imp_right fun ⟨hheld, hkept⟩ => ⟨hsub hheld, hkept⟩

theorem Frugal.bind {p : Program O Res ε α} {f : α → Program O Res ε β} {held : List ν}
    (hp : p.Frugal draws spends held) (hf : ∀ a, (f a).Frugal draws spends []) :
    (p.bind f).Frugal draws spends held := by
  induction p generalizing held with
  | ret a => exact (hf a).mono (List.nil_subset _)
  | raise e => trivial
  | call op k ih => exact ⟨hp.1, fun r hr => ih r (hp.2 r hr)⟩

theorem Frugal.attempt {p : Program O Res ε α} {held : List ν}
    (hp : p.Frugal draws spends held) :
    (p.attempt : Program O Res ε' _).Frugal draws spends held := by
  induction p generalizing held with
  | ret a => trivial
  | raise e => trivial
  | call op k ih => exact ⟨hp.1, fun r hr => ih r (hp.2 r hr)⟩

theorem Frugal.ofExcept (x : Except ε α) : (ofExcept x).Frugal draws spends [] (O := O) := by
  cases x <;> trivial

-- A program that spends nothing holds nothing it could misuse.
theorem Calls.frugal {p : Program O Res ε α} (hp : p.Calls fun op => spends op = none) :
    p.Frugal draws spends [] := by
  induction p with
  | ret a => trivial
  | raise e => trivial
  | call op k ih =>
    refine ⟨fun n hn => ?_, fun r _ => (ih r (hp.2 r)).mono (List.nil_subset _)⟩
    rw [hp.1] at hn
    cases hn

end Program

namespace Supply

variable {S : System τ ρ κ O Res σ ι ε α} (N : Supply S ν) {n : ν} {t : τ}
variable {es : List (ThreadCall τ ρ O σ ι)} {e : ThreadCall τ ρ O σ ι}

def Draws (e : ThreadCall τ ρ O σ ι) (n : ν) : Prop :=
  N.draws e.op (S.handler.answer e.thread e.op e.input e.pre) = some n

def Drew (t : τ) (n : ν) (es : List (ThreadCall τ ρ O σ ι)) : Prop :=
  ∃ e ∈ es, e.thread = t ∧ N.Draws e n

def Unspent (n : ν) (es : List (ThreadCall τ ρ O σ ι)) : Prop :=
  ∀ e ∈ es, N.spends e.op ≠ some n

variable {N}

theorem Drew.append (h : N.Drew t n es) : N.Drew t n (es ++ [e]) := by
  obtain ⟨f, hf, hrest⟩ := h
  exact ⟨f, List.mem_append_left _ hf, hrest⟩

theorem drew_append : N.Drew t n (es ++ [e]) ↔ N.Drew t n es ∨ e.thread = t ∧ N.Draws e n := by
  simp only [Drew, List.mem_append, List.mem_singleton, or_and_right, exists_or, exists_eq_left]

theorem unspent_append : N.Unspent n (es ++ [e]) ↔ N.Unspent n es ∧ N.spends e.op ≠ some n := by
  simp only [Unspent, List.mem_append, List.mem_singleton, or_imp, forall_and, forall_eq]

-- What has been drawn and spent, at some state of a run.
structure Account (N : Supply S ν) (s : σ) (es : List (ThreadCall τ ρ O σ ι)) : Prop where
  drawn : ∀ t n, N.Drew t n es → N.drawn s n
  owner : ∀ t t' n, N.Drew t n es → N.Drew t' n es → t = t'
  spent : ∀ n, ¬N.Unspent n es → ∃ t, N.Drew t n es

structure Holds (N : Supply S ν) (t : τ) (held : List ν) (es : List (ThreadCall τ ρ O σ ι)) :
    Prop where
  drew : ∀ n ∈ held, N.Drew t n es
  unspent : ∀ n ∈ held, N.Unspent n es

theorem Account.nil (s : σ) : N.Account s [] := by
  constructor
  · rintro t n ⟨f, hf, -⟩
    cases hf
  · rintro t t' n ⟨f, hf, -⟩
    cases hf
  · intro n hspent
    exact absurd (fun f hf => by cases hf) hspent

theorem Account.call {s : σ} {i : ι} {op : O} {r : ρ} {held : List ν} (h : N.Account s es)
    (hheld : N.Holds t held es) (hspends : ∀ n, N.spends op = some n → n ∈ held) :
    N.Account (S.handler.next t op i s)
      (es ++ [⟨⟨op, i, s, S.handler.next t op i s⟩, t, r⟩]) := by
  have hnew {n : ν} (hdraws : N.Draws ⟨⟨op, i, s, S.handler.next t op i s⟩, t, r⟩ n) (t' : τ) :
      ¬N.Drew t' n es := fun hdrew => (N.fresh t op i s n hdraws).1 (h.drawn t' n hdrew)
  constructor
  · intro t' n hdrew
    rcases drew_append.mp hdrew with hold | ⟨-, hdraws⟩
    · exact N.call t op i s n (h.drawn t' n hold)
    · exact (N.fresh t op i s n hdraws).2
  · intro t₁ t₂ n hdrew₁ hdrew₂
    rcases drew_append.mp hdrew₁ with hold₁ | ⟨rfl, hdraws₁⟩ <;>
      rcases drew_append.mp hdrew₂ with hold₂ | ⟨rfl, hdraws₂⟩
    · exact h.owner t₁ t₂ n hold₁ hold₂
    · exact absurd hold₁ (hnew hdraws₂ t₁)
    · exact absurd hold₂ (hnew hdraws₁ t₂)
    · rfl
  · intro n hspent
    by_cases hold : N.Unspent n es
    · have hop : N.spends op = some n := by
        by_contra hop
        exact hspent (unspent_append.mpr ⟨hold, hop⟩)
      exact ⟨t, (hheld.drew n (hspends n hop)).append⟩
    · obtain ⟨t', hdrew⟩ := h.spent n hold
      exact ⟨t', hdrew.append⟩

theorem Holds.other {s : σ} {i : ι} {op : O} {r : ρ} {held held' : List ν} {t' : τ}
    (h : N.Holds t held es) (ha : N.Account s es) (hne : t' ≠ t) (h' : N.Holds t' held' es)
    (hspends : ∀ n, N.spends op = some n → n ∈ held') :
    N.Holds t held (es ++ [⟨⟨op, i, s, S.handler.next t' op i s⟩, t', r⟩]) where
  drew n hn := (h.drew n hn).append
  unspent n hn := by
    refine unspent_append.mpr ⟨h.unspent n hn, fun hop => hne ?_⟩
    exact ha.owner t' t n (h'.drew n (hspends n hop)) (h.drew n hn)

theorem Holds.call [DecidableEq ν] {s : σ} {i : ι} {op : O} {r : ρ} {held : List ν}
    (h : N.Holds t held es) (ha : N.Account s es)
    (hdraws : ∀ n, N.draws op (S.handler.answer t op i s) = some n → N.spends op ≠ some n) :
    N.Holds t ((N.draws op (S.handler.answer t op i s)).toList ++
        held.filter fun n => N.spends op ≠ some n)
      (es ++ [⟨⟨op, i, s, S.handler.next t op i s⟩, t, r⟩]) := by
  constructor
  · intro n hn
    rcases List.mem_append.mp hn with hdrawn | hkept
    · exact drew_append.mpr (.inr ⟨rfl, Option.mem_toList.mp hdrawn⟩)
    · exact (h.drew n (List.mem_filter.mp hkept).1).append
  · intro n hn
    rcases List.mem_append.mp hn with hdrawn | hkept
    · have hdrawn : N.draws op (S.handler.answer t op i s) = some n := Option.mem_toList.mp hdrawn
      refine unspent_append.mpr ⟨?_, hdraws n hdrawn⟩
      by_contra hspent
      obtain ⟨t', hdrew⟩ := ha.spent n hspent
      exact (N.fresh t op i s n hdrawn).1 (ha.drawn t' n hdrew)
    · obtain ⟨hheld, hne⟩ := List.mem_filter.mp hkept
      exact unspent_append.mpr ⟨h.unspent n hheld, of_decide_eq_true hne⟩

end Supply

variable {S : System τ ρ κ O Res σ ι ε α} {N : Supply S ν} [DecidableEq τ] [DecidableEq ν]
variable {s : σ} {d : Config τ ρ O Res σ ε α} {es : List (ThreadCall τ ρ O σ ι)}

theorem Run.accounted (h : Run S (.initial s) es d)
    (hbody : ∀ t r, (S.body t r).Frugal N.draws N.spends [])
    (hdraws : ∀ t op i s n, N.draws op (S.handler.answer t op i s) = some n →
      N.spends op ≠ some n) :
    N.Account d.state es ∧
      (∀ t th, d.threads t = some th →
        ∃ held, th.rest.Frugal N.draws N.spends held ∧ N.Holds t held es) ∧
      ∀ xs e ys, es = xs ++ e :: ys → ∀ n, N.spends e.op = some n →
        N.Drew e.thread n xs ∧ N.Unspent n xs := by
  induction h with
  | refl =>
    exact ⟨.nil s, fun t th hth => (by cases hth), fun xs e ys heq => (by cases xs <;> cases heq)⟩
  | @start es d t r s' _ _ hs ih =>
    obtain ⟨haccount, hthreads, hsplit⟩ := ih
    refine ⟨⟨fun t' n hn => N.start t r _ s' n hs (haccount.drawn t' n hn), haccount.owner,
      haccount.spent⟩, fun t' th hth => ?_, hsplit⟩
    by_cases htt : t' = t
    · subst htt
      simp only [Config.setThread, Function.update_self, Option.some.injEq] at hth
      subst hth
      exact ⟨[], hbody _ _, by simp, by simp⟩
    · simp only [Config.setThread, Function.update_of_ne htt] at hth
      exact hthreads t' th hth
  | @call es d t r op k i _ hthread _ ih =>
    obtain ⟨haccount, hthreads, hsplit⟩ := ih
    obtain ⟨held, ⟨hspends, hk⟩, hheld⟩ := hthreads t _ hthread
    refine ⟨haccount.call hheld hspends, fun t' th hth => ?_, ?_⟩
    · by_cases htt : t' = t
      · subst htt
        simp only [Config.setThread, Function.update_self, Option.some.injEq] at hth
        subst hth
        refine ⟨_, hk _ fun n hn hmem => ?_, hheld.call haccount (hdraws t' op i d.state)⟩
        exact (N.fresh t' op i d.state n hn).1 (haccount.drawn t' n (hheld.drew n hmem))
      · simp only [Config.setThread, Function.update_of_ne htt] at hth
        obtain ⟨held', hfrugal, hheld'⟩ := hthreads t' th hth
        exact ⟨held', hfrugal, hheld'.other haccount (Ne.symm htt) hheld hspends⟩
    · refine split_append_singleton (P := fun xs e => ∀ n, N.spends e.op = some n →
        N.Drew e.thread n xs ∧ N.Unspent n xs) hsplit fun n hn => ?_
      exact ⟨hheld.drew n (hspends n hn), hheld.unspent n (hspends n hn)⟩
  | @retire es d t th _ _ _ ih =>
    obtain ⟨haccount, hthreads, hsplit⟩ := ih
    refine ⟨haccount, fun t' th' hth => ?_, hsplit⟩
    by_cases htt : t' = t
    · subst htt
      simp [Config.setThread] at hth
    · simp only [Config.setThread, Function.update_of_ne htt] at hth
      exact hthreads t' th' hth
  | @disturb es d k _ ih =>
    obtain ⟨haccount, hthreads, hsplit⟩ := ih
    refine ⟨⟨fun t n hn => N.disturb k _ n (haccount.drawn t n hn), haccount.owner,
      haccount.spent⟩, fun t th hth => ?_, hsplit⟩
    simp only [Config.disturbed] at hth
    split at hth
    · cases hth
    · exact hthreads t th hth

-- Whatever a call of a run spends its own thread has drawn, and no call before has spent.
theorem Run.spent_once (h : Run S (.initial s) es d)
    (hbody : ∀ t r, (S.body t r).Frugal N.draws N.spends [])
    (hdraws : ∀ t op i s n, N.draws op (S.handler.answer t op i s) = some n →
      N.spends op ≠ some n) :
    ∀ xs e ys, es = xs ++ e :: ys → ∀ n, N.spends e.op = some n →
      N.Drew e.thread n xs ∧ N.Unspent n xs :=
  (h.accounted hbody hdraws).2.2

-- What a run draws had not been drawn before it.
theorem Run.drew_new (h : Run S (.initial s) es d) {t : τ} {n : ν} (hdrew : N.Drew t n es) :
    ¬N.drawn s n := by
  intro hdrawn
  obtain ⟨e, he, -, hdraws⟩ := hdrew
  have hbefore := (h.invariant (P := fun s => N.drawn s n) (A := fun _ => True)
    (fun _ _ => trivial) hdrawn (fun t r s s' hn hs => N.start t r s s' n hs hn)
    (fun k s hn => N.disturb k s n hn) fun t _ op i s hn _ => N.call t op i s n hn).1 e he
  exact (N.fresh e.thread e.op e.input e.pre n hdraws).1 hbefore

end Interaction
