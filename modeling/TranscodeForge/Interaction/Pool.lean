import TranscodeForge.Interaction.Logic

namespace Interaction

structure System (τ ρ κ O : Type) (Res : O → Type) (σ ι ε α : Type) where
  handler : Handler τ O Res σ ι
  body : τ → ρ → Program O Res ε α
  start : τ → ρ → σ → Option σ
  disturb : κ → σ → σ
  kills : κ → τ → Bool

structure Thread (ρ O : Type) (Res : O → Type) (ε α : Type) where
  request : ρ
  rest : Program O Res ε α

structure Config (τ ρ O : Type) (Res : O → Type) (σ ε α : Type) where
  state : σ
  threads : τ → Option (Thread ρ O Res ε α)

structure ThreadCall (τ ρ O σ ι : Type) extends CallRecord O σ ι where
  thread : τ
  request : ρ

variable {τ ρ κ O : Type} {Res : O → Type} {σ ι ε α : Type} [DecidableEq τ]

def Config.initial (s : σ) : Config τ ρ O Res σ ε α := ⟨s, fun _ => none⟩

variable (S : System τ ρ κ O Res σ ι ε α)

def Config.setThread (c : Config τ ρ O Res σ ε α) (s : σ) (t : τ)
    (thread : Option (Thread ρ O Res ε α)) : Config τ ρ O Res σ ε α :=
  ⟨s, Function.update c.threads t thread⟩

def Config.disturbed (c : Config τ ρ O Res σ ε α) (k : κ) : Config τ ρ O Res σ ε α :=
  ⟨S.disturb k c.state, fun t => if S.kills k t then none else c.threads t⟩

inductive Run (c : Config τ ρ O Res σ ε α) :
    List (ThreadCall τ ρ O σ ι) → Config τ ρ O Res σ ε α → Prop
  | refl : Run c [] c
  | start {es : List (ThreadCall τ ρ O σ ι)} {d : Config τ ρ O Res σ ε α} {t : τ} {r : ρ} {s : σ} :
      Run c es d → d.threads t = none → S.start t r d.state = some s →
      Run c es (d.setThread s t (some ⟨r, S.body t r⟩))
  | call {es : List (ThreadCall τ ρ O σ ι)} {d : Config τ ρ O Res σ ε α} {t : τ} {r : ρ} {op : O}
      {k : Res op → Program O Res ε α} (i : ι) :
      Run c es d → d.threads t = some ⟨r, .call op k⟩ → S.handler.ready t op d.state →
      Run c (es ++ [⟨⟨op, i, d.state, S.handler.next t op i d.state⟩, t, r⟩])
        (d.setThread (S.handler.next t op i d.state) t
          (some ⟨r, k (S.handler.answer t op i d.state)⟩))
  | retire {es : List (ThreadCall τ ρ O σ ι)} {d : Config τ ρ O Res σ ε α} {t : τ}
      {th : Thread ρ O Res ε α} :
      Run c es d → d.threads t = some th → th.rest.outcome.isSome →
      Run c es (d.setThread d.state t none)
  | disturb {es : List (ThreadCall τ ρ O σ ι)} {d : Config τ ρ O Res σ ε α} (k : κ) :
      Run c es d → Run c es (d.disturbed S k)

inductive Move (τ ρ κ ι : Type) where
  | start (t : τ) (r : ρ)
  | call (t : τ) (i : ι)
  | retire (t : τ)
  | disturb (k : κ)

def Config.play (c : Config τ ρ O Res σ ε α) :
    Move τ ρ κ ι → Option (List (ThreadCall τ ρ O σ ι) × Config τ ρ O Res σ ε α)
  | .start t r =>
    match c.threads t with
    | none => (S.start t r c.state).map fun s => ([], c.setThread s t (some ⟨r, S.body t r⟩))
    | some _ => none
  | .call t i =>
    match c.threads t with
    | some ⟨r, .call op k⟩ =>
      if S.handler.ready t op c.state then
        let (s, answer) := S.handler.exec t op i c.state
        some ([⟨⟨op, i, c.state, s⟩, t, r⟩], c.setThread s t (some ⟨r, k answer⟩))
      else none
    | _ => none
  | .retire t =>
    match c.threads t with
    | some th => if th.rest.outcome.isSome then some ([], c.setThread c.state t none) else none
    | none => none
  | .disturb k => some ([], c.disturbed S k)

-- The run that a list of moves determines, with its calls.
def Config.playAll (c : Config τ ρ O Res σ ε α) :
    List (Move τ ρ κ ι) → Option (List (ThreadCall τ ρ O σ ι) × Config τ ρ O Res σ ε α)
  | [] => some ([], c)
  | m :: ms => do
    let (es, d) ← c.play S m
    let (es', d') ← d.playAll ms
    some (es ++ es', d')

def Move.starts : Move τ ρ κ ι → Option τ
  | .start t _ => some t
  | _ => none

variable {S}

-- Only a start puts a request on a thread.
theorem Config.play_none {c d : Config τ ρ O Res σ ε α} {es : List (ThreadCall τ ρ O σ ι)}
    {m : Move τ ρ κ ι} {t : τ} (hm : c.play S m = some (es, d)) (hfree : c.threads t = none)
    (hother : t ∉ m.starts) : d.threads t = none := by
  cases m with
  | start t' r =>
    have hne : t ≠ t' := fun heq => hother (heq ▸ rfl)
    simp only [Config.play] at hm
    split at hm
    · obtain ⟨s, -, heq⟩ := Option.map_eq_some_iff.mp hm
      cases heq
      exact (Function.update_of_ne hne ..).trans hfree
    · cases hm
  | call t' i =>
    simp only [Config.play] at hm
    split at hm
    · next r op k hthread =>
      have hne : t ≠ t' := fun heq => by
        rw [← heq, hfree] at hthread
        cases hthread
      split at hm
      · cases hm
        exact (Function.update_of_ne hne ..).trans hfree
      · cases hm
    · cases hm
  | retire t' =>
    simp only [Config.play] at hm
    split at hm
    · next th hthread =>
      have hne : t ≠ t' := fun heq => by
        rw [← heq, hfree] at hthread
        cases hthread
      split at hm
      · cases hm
        exact (Function.update_of_ne hne ..).trans hfree
      · cases hm
    · cases hm
  | disturb k =>
    cases hm
    simp only [Config.disturbed, hfree, ite_self]

theorem Config.playAll_none {c d : Config τ ρ O Res σ ε α} {es : List (ThreadCall τ ρ O σ ι)}
    {ms : List (Move τ ρ κ ι)} {t : τ} (hms : c.playAll S ms = some (es, d))
    (hfree : c.threads t = none) (hother : ∀ m ∈ ms, t ∉ m.starts) : d.threads t = none := by
  induction ms generalizing c es with
  | nil =>
    cases hms
    exact hfree
  | cons m ms ih =>
    obtain ⟨⟨es₁, d₁⟩, hm, hrest⟩ := Option.bind_eq_some_iff.mp hms
    obtain ⟨⟨es₂, d₂⟩, hms', heq⟩ := Option.bind_eq_some_iff.mp hrest
    cases heq
    have hfree₁ := Config.play_none hm hfree (hother m List.mem_cons_self)
    exact ih hms' hfree₁ fun m' hm' => hother m' (List.mem_cons_of_mem _ hm')

theorem Run.play {c d d' : Config τ ρ O Res σ ε α} {es es' : List (ThreadCall τ ρ O σ ι)}
    {m : Move τ ρ κ ι} (h : Run S c es d) (hm : d.play S m = some (es', d')) :
    Run S c (es ++ es') d' := by
  cases m with
  | start t r =>
    simp only [Config.play] at hm
    split at hm
    · next hfree =>
      obtain ⟨s, hs, heq⟩ := Option.map_eq_some_iff.mp hm
      cases heq
      simpa using h.start hfree hs
    · cases hm
  | call t i =>
    simp only [Config.play] at hm
    split at hm
    · next r op k hthread =>
      split at hm
      · next hready =>
        cases hm
        exact h.call i hthread hready
      · cases hm
    · cases hm
  | retire t =>
    simp only [Config.play] at hm
    split at hm
    · next th hthread =>
      split at hm
      · next hfin =>
        cases hm
        simpa using h.retire hthread hfin
      · cases hm
    · cases hm
  | disturb k =>
    cases hm
    simpa using h.disturb k

theorem Run.playAll {c d d' : Config τ ρ O Res σ ε α} {es es' : List (ThreadCall τ ρ O σ ι)}
    {ms : List (Move τ ρ κ ι)} (h : Run S c es d) (hms : d.playAll S ms = some (es', d')) :
    Run S c (es ++ es') d' := by
  induction ms generalizing d es es' with
  | nil =>
    cases hms
    simpa using h
  | cons m ms ih =>
    obtain ⟨⟨es₁, d₁⟩, hm, hrest⟩ := Option.bind_eq_some_iff.mp hms
    obtain ⟨⟨es₂, d₂⟩, hms', heq⟩ := Option.bind_eq_some_iff.mp hrest
    cases heq
    rw [← List.append_assoc]
    exact ih (h.play hm) hms'

theorem Run.next {c d : Config τ ρ O Res σ ε α} {es : List (ThreadCall τ ρ O σ ι)} {t : τ} {r : ρ}
    {op : O} {k : Res op → Program O Res ε α} {s : σ} (h : Run S c es d)
    (hthread : d.threads t = some ⟨r, .call op k⟩) (hstate : d.state = s) (i : ι)
    (hready : S.handler.ready t op s) :
    ∃ d', Run S c (es ++ [⟨⟨op, i, s, S.handler.next t op i s⟩, t, r⟩]) d' ∧
      d'.threads t = some ⟨r, k (S.handler.answer t op i s)⟩ ∧
      d'.state = S.handler.next t op i s := by
  subst hstate
  exact ⟨_, h.call i hthread hready, Function.update_self .., rfl⟩

-- An assertion on states that starts, disturbances and admitted calls preserve holds before
-- every call and at the end.
theorem Run.invariant {P : σ → Prop} {A : ThreadCall τ ρ O σ ι → Prop}
    {c d : Config τ ρ O Res σ ε α} {es : List (ThreadCall τ ρ O σ ι)}
    (h : Run S c es d) (ha : ∀ e ∈ es, A e) (hinit : P c.state)
    (hstart : ∀ t r s s', P s → S.start t r s = some s' → P s')
    (hdisturb : ∀ k s, P s → P (S.disturb k s))
    (hcall : ∀ t r op i s, P s → A ⟨⟨op, i, s, S.handler.next t op i s⟩, t, r⟩ →
      P (S.handler.next t op i s)) : (∀ e ∈ es, P e.pre) ∧ P d.state := by
  induction h with
  | refl => exact ⟨by simp, hinit⟩
  | start _ _ hs ih => exact ⟨(ih ha).1, hstart _ _ _ _ (ih ha).2 hs⟩
  | call i _ _ _ ih =>
    obtain ⟨hpre, hlast⟩ := ih fun e he => ha e (List.mem_append_left _ he)
    refine ⟨fun e he => ?_, hcall _ _ _ i _ hlast
      (ha _ (List.mem_append_right _ (List.mem_singleton_self _)))⟩
    rcases List.mem_append.mp he with he | he
    · exact hpre e he
    · rw [List.mem_singleton.mp he]
      exact hlast
  | retire _ _ _ ih => exact ih ha
  | disturb k _ ih => exact ⟨(ih ha).1, hdisturb k _ (ih ha).2⟩

theorem Run.post_eq {c d : Config τ ρ O Res σ ε α} {es : List (ThreadCall τ ρ O σ ι)}
    (h : Run S c es d) : ∀ e ∈ es, e.post = S.handler.next e.thread e.op e.input e.pre := by
  induction h with
  | refl => simp
  | start _ _ _ ih => exact ih
  | call i _ _ _ ih => simpa [or_imp, forall_and] using ih
  | retire _ _ _ ih => exact ih
  | disturb _ _ ih => exact ih

theorem Run.ready {c d : Config τ ρ O Res σ ε α} {es : List (ThreadCall τ ρ O σ ι)}
    (h : Run S c es d) : ∀ e ∈ es, S.handler.ready e.thread e.op e.pre = true := by
  induction h with
  | refl => simp
  | start _ _ _ ih => exact ih
  | call i _ _ hready ih => simpa [or_imp, forall_and, hready] using ih
  | retire _ _ _ ih => exact ih
  | disturb _ _ ih => exact ih

-- Every call of a run is one its thread's program can make.
theorem Run.calls {A : τ → ρ → O → Prop} {s : σ} {d : Config τ ρ O Res σ ε α}
    {es : List (ThreadCall τ ρ O σ ι)} (h : Run S (.initial s) es d)
    (hbody : ∀ t r s s', S.start t r s = some s' → (S.body t r).Calls (A t r)) :
    (∀ e ∈ es, A e.thread e.request e.op) ∧
      ∀ t th, d.threads t = some th → th.rest.Calls (A t th.request) := by
  induction h with
  | refl => exact ⟨by simp, fun t th hth => by simp [Config.initial] at hth⟩
  | @start es d t r s' _ _ hs ih =>
    refine ⟨ih.1, fun t' th hth => ?_⟩
    by_cases htt : t' = t
    · subst htt
      simp only [Config.setThread, Function.update_self, Option.some.injEq] at hth
      subst hth
      exact hbody _ _ _ _ hs
    · simp only [Config.setThread, Function.update_of_ne htt] at hth
      exact ih.2 t' th hth
  | @call es d t r op k i _ hthread _ ih =>
    have hop := ih.2 t _ hthread
    refine ⟨fun e he => ?_, fun t' th hth => ?_⟩
    · rcases List.mem_append.mp he with he | he
      · exact ih.1 e he
      · rw [List.mem_singleton.mp he]
        exact hop.1
    · by_cases htt : t' = t
      · subst htt
        simp only [Config.setThread, Function.update_self, Option.some.injEq] at hth
        subst hth
        exact hop.2 _
      · simp only [Config.setThread, Function.update_of_ne htt] at hth
        exact ih.2 t' th hth
  | @retire es d t th _ _ _ ih =>
    refine ⟨ih.1, fun t' th' hth => ?_⟩
    by_cases htt : t' = t
    · subst htt
      simp [Config.setThread] at hth
    · simp only [Config.setThread, Function.update_of_ne htt] at hth
      exact ih.2 t' th' hth
  | disturb k _ ih =>
    refine ⟨ih.1, fun t' th hth => ?_⟩
    simp only [Config.disturbed] at hth
    split at hth
    · cases hth
    · exact ih.2 t' th hth

-- What holds of the state and, of every thread, of the program it has left, if every step keeps
-- both and no step of one thread spoils what holds of another.
theorem Run.jointly {Q : List (ThreadCall τ ρ O σ ι) → σ → Prop}
    {T : List (ThreadCall τ ρ O σ ι) → σ → τ → ρ → Program O Res ε α → Prop} {s : σ}
    {d : Config τ ρ O Res σ ε α} {es : List (ThreadCall τ ρ O σ ι)}
    (h : Run S (.initial s) es d) (hinit : Q [] s)
    (hstart : ∀ es s t r s', Q es s → S.start t r s = some s' → Q es s' ∧
      T es s' t r (S.body t r) ∧ ∀ t' r' p, T es s t' r' p → T es s' t' r' p)
    (hcall : ∀ es s t r op k i, Q es s → T es s t r (.call op k) →
      S.handler.ready t op s → Q (es ++ [⟨⟨op, i, s, S.handler.next t op i s⟩, t, r⟩])
          (S.handler.next t op i s) ∧
        T (es ++ [⟨⟨op, i, s, S.handler.next t op i s⟩, t, r⟩]) (S.handler.next t op i s) t r
          (k (S.handler.answer t op i s)) ∧
        ∀ t' r' p, t' ≠ t → T es s t' r' p →
          T (es ++ [⟨⟨op, i, s, S.handler.next t op i s⟩, t, r⟩]) (S.handler.next t op i s) t' r' p)
    (hdisturb : ∀ es s k, Q es s → Q es (S.disturb k s) ∧
      ∀ t r p, T es s t r p → T es (S.disturb k s) t r p) :
    Q es d.state ∧ ∀ t th, d.threads t = some th → T es d.state t th.request th.rest := by
  induction h with
  | refl => exact ⟨hinit, fun t th hth => by simp [Config.initial] at hth⟩
  | @start es d t r s' _ _ hs ih =>
    obtain ⟨hQ, hT, hothers⟩ := hstart es d.state t r s' ih.1 hs
    refine ⟨hQ, fun t' th hth => ?_⟩
    by_cases htt : t' = t
    · subst htt
      simp only [Config.setThread, Function.update_self, Option.some.injEq] at hth
      subst hth
      exact hT
    · simp only [Config.setThread, Function.update_of_ne htt] at hth
      exact hothers _ _ _ (ih.2 t' th hth)
  | @call es d t r op k i _ hthread hready ih =>
    obtain ⟨hQ, hT, hothers⟩ := hcall es d.state t r op k i ih.1 (ih.2 t _ hthread) hready
    refine ⟨hQ, fun t' th hth => ?_⟩
    by_cases htt : t' = t
    · subst htt
      simp only [Config.setThread, Function.update_self, Option.some.injEq] at hth
      subst hth
      exact hT
    · simp only [Config.setThread, Function.update_of_ne htt] at hth
      exact hothers _ _ _ htt (ih.2 t' th hth)
  | @retire es d t th _ _ _ ih =>
    refine ⟨ih.1, fun t' th' hth => ?_⟩
    by_cases htt : t' = t
    · subst htt
      simp [Config.setThread] at hth
    · simp only [Config.setThread, Function.update_of_ne htt] at hth
      exact ih.2 t' th' hth
  | @disturb es d k _ ih =>
    obtain ⟨hQ, hT⟩ := hdisturb es d.state k ih.1
    refine ⟨hQ, fun t th hth => ?_⟩
    simp only [Config.disturbed] at hth
    split at hth
    · cases hth
    · exact hT _ _ _ (ih.2 t th hth)

section RelyGuarantee

variable {C : τ → ρ → Contract O σ ι}

structure Compatible (S : System τ ρ κ O Res σ ι ε α) (C : τ → ρ → Contract O σ ι) : Prop where
  refl : ∀ t r s, (C t r).rely s s
  trans : ∀ t r s₁ s₂ s₃, (C t r).rely s₁ s₂ → (C t r).rely s₂ s₃ → (C t r).rely s₁ s₃
  body : ∀ t r s s', S.start t r s = some s' →
    (S.body t r).wp S.handler t (C t r) (fun _ _ => True) s'
  call : ∀ t r t' r' op i s, t' ≠ t → S.handler.ready t' op s → (C t' r').assume op i s →
    (C t' r').guar op i s (S.handler.next t' op i s) →
    (C t r).rely s (S.handler.next t' op i s)
  start : ∀ t r t' r' s s', t' ≠ t → S.start t' r' s = some s' → (C t r).rely s s'
  disturb : ∀ t r k s, S.kills k t = false → (C t r).rely s (S.disturb k s)

theorem Run.guarantees {s : σ} {d : Config τ ρ O Res σ ε α} {es : List (ThreadCall τ ρ O σ ι)}
    (h : Run S (.initial s) es d) (hC : Compatible S C)
    (ha : ∀ e ∈ es, (C e.thread e.request).assume e.op e.input e.pre) :
    (∀ e ∈ es, (C e.thread e.request).guar e.op e.input e.pre e.post) ∧
      ∀ t th, d.threads t = some th →
        th.rest.wp S.handler t (C t th.request) (fun _ _ => True) d.state := by
  induction h with
  | refl => exact ⟨by simp, fun t th hth => by simp [Config.initial] at hth⟩
  | @start es d t r s' _ _ hs ih =>
    obtain ⟨hg, hw⟩ := ih ha
    refine ⟨hg, fun t' th hth => ?_⟩
    by_cases htt : t' = t
    · subst htt
      simp only [Config.setThread, Function.update_self, Option.some.injEq] at hth
      subst hth
      exact hC.body _ _ _ _ hs
    · simp only [Config.setThread, Function.update_of_ne htt] at hth
      exact Program.wp_stable (hC.trans _ _) (hw t' th hth)
        (hC.start _ _ _ _ _ _ (Ne.symm htt) hs)
  | @call es d t r op k i _ hthread hready ih =>
    obtain ⟨hg, hw⟩ := ih fun e he => ha e (List.mem_append_left _ he)
    have hassume := ha _ (List.mem_append_right _ (List.mem_singleton_self _))
    have hstep := hw t _ hthread d.state (hC.refl _ _ _) hready i hassume
    refine ⟨fun e he => ?_, fun t' th hth => ?_⟩
    · rcases List.mem_append.mp he with he | he
      · exact hg e he
      · rw [List.mem_singleton.mp he]
        exact hstep.1
    · by_cases htt : t' = t
      · subst htt
        simp only [Config.setThread, Function.update_self, Option.some.injEq] at hth
        subst hth
        exact hstep.2
      · simp only [Config.setThread, Function.update_of_ne htt] at hth
        exact Program.wp_stable (hC.trans _ _) (hw t' th hth)
          (hC.call _ _ _ _ _ i _ (Ne.symm htt) hready hassume hstep.1)
  | @retire es d t th _ _ _ ih =>
    obtain ⟨hg, hw⟩ := ih ha
    refine ⟨hg, fun t' th' hth => ?_⟩
    by_cases htt : t' = t
    · subst htt
      simp [Config.setThread] at hth
    · simp only [Config.setThread, Function.update_of_ne htt] at hth
      exact hw t' th' hth
  | @disturb es d k _ ih =>
    obtain ⟨hg, hw⟩ := ih ha
    refine ⟨hg, fun t' th hth => ?_⟩
    simp only [Config.disturbed] at hth
    split at hth
    · cases hth
    · next hk =>
      exact Program.wp_stable (hC.trans _ _) (hw t' th hth)
        (hC.disturb _ _ _ _ (by simpa using hk))

end RelyGuarantee

end Interaction
