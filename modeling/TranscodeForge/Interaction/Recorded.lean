import TranscodeForge.Interaction.History

namespace Interaction

variable {τ ρ κ O : Type} {Res : O → Type} {σ ι ε α : Type} [DecidableEq τ]
variable {S : System τ ρ κ O Res σ ι ε α}

-- An invariant that the guarantees of the calls keep, and that is all the threads assume for
-- giving them.
theorem Run.secured {C : τ → ρ → Contract O σ ι} {Inv : σ → Prop} {s : σ}
    {d : Config τ ρ O Res σ ε α} {es : List (ThreadCall τ ρ O σ ι)}
    (h : Run S (.initial s) es d) (hC : Compatible S C) (hinit : Inv s)
    (hassume : ∀ t r op i s, Inv s → (C t r).assume op i s)
    (hstart : ∀ t r s s', Inv s → S.start t r s = some s' → Inv s')
    (hdisturb : ∀ k s, Inv s → Inv (S.disturb k s))
    (hcall : ∀ t r op i s, Inv s → S.handler.ready t op s = true →
      (C t r).guar op i s (S.handler.next t op i s) → Inv (S.handler.next t op i s)) :
    (∀ e ∈ es, Inv e.pre ∧ (C e.thread e.request).guar e.op e.input e.pre e.post) ∧
      Inv d.state := by
  induction h with
  | refl => exact ⟨by simp, hinit⟩
  | start _ _ hs ih => exact ⟨ih.1, hstart _ _ _ _ ih.2 hs⟩
  | @call es d t r op k i h hthread hready ih =>
    have hpre : ∀ e ∈ es ++ [⟨⟨op, i, d.state, S.handler.next t op i d.state⟩, t, r⟩],
        Inv e.pre := by
      intro e he
      rcases List.mem_append.mp he with he | he
      · exact (ih.1 e he).1
      · rw [List.mem_singleton.mp he]
        exact ih.2
    have hguar := (Run.guarantees (h.call i hthread hready) hC fun e he =>
      hassume _ _ _ _ _ (hpre e he)).1
    have hlast := hguar _ (List.mem_append_right _ (List.mem_singleton_self _))
    exact ⟨fun e he => ⟨hpre e he, hguar e he⟩, hcall t r op i d.state ih.2 hready hlast⟩
  | retire _ _ _ ih => exact ih
  | disturb k _ ih => exact ⟨ih.1, hdisturb k _ ih.2⟩

-- Contracts that rest on an invariant, which is also there when a body starts.
structure Upholds (S : System τ ρ κ O Res σ ι ε α) (C : τ → ρ → Contract O σ ι) (Inv : σ → Prop) :
    Prop where
  refl : ∀ t r s, (C t r).rely s s
  trans : ∀ t r s₁ s₂ s₃, (C t r).rely s₁ s₂ → (C t r).rely s₂ s₃ → (C t r).rely s₁ s₃
  assume : ∀ t r op i s, Inv s → (C t r).assume op i s
  body : ∀ t r s s', Inv s → S.start t r s = some s' →
    (S.body t r).wp S.handler t (C t r) (fun _ _ => True) s'
  call : ∀ t r t' r' op i s, t' ≠ t → Inv s → S.handler.ready t' op s = true →
    (C t' r').guar op i s (S.handler.next t' op i s) → (C t r).rely s (S.handler.next t' op i s)
  start : ∀ t r t' r' s s', t' ≠ t → S.start t' r' s = some s' → (C t r).rely s s'
  disturb : ∀ t r k s, S.kills k t = false → (C t r).rely s (S.disturb k s)
  keeps_call : ∀ t r op i s, Inv s → S.handler.ready t op s = true →
    (C t r).guar op i s (S.handler.next t op i s) → Inv (S.handler.next t op i s)
  keeps_start : ∀ t r s s', Inv s → S.start t r s = some s' → Inv s'
  keeps_disturb : ∀ k s, Inv s → Inv (S.disturb k s)

theorem Run.upheld {C : τ → ρ → Contract O σ ι} {Inv : σ → Prop} {s : σ}
    {d : Config τ ρ O Res σ ε α} {es : List (ThreadCall τ ρ O σ ι)}
    (h : Run S (.initial s) es d) (hC : Upholds S C Inv) (hinit : Inv s) :
    (∀ e ∈ es, Inv e.pre ∧ (C e.thread e.request).guar e.op e.input e.pre e.post) ∧
      Inv d.state ∧ ∀ t th, d.threads t = some th →
        th.rest.wp S.handler t (C t th.request) (fun _ _ => True) d.state := by
  induction h with
  | refl => exact ⟨by simp, hinit, fun t th hth => (by cases hth)⟩
  | @start es d t r s' _ _ hs ih =>
    obtain ⟨hcalls, hinv, hw⟩ := ih
    refine ⟨hcalls, hC.keeps_start _ _ _ _ hinv hs, fun t' th hth => ?_⟩
    by_cases htt : t' = t
    · subst htt
      simp only [Config.setThread, Function.update_self, Option.some.injEq] at hth
      subst hth
      exact hC.body _ _ _ _ hinv hs
    · simp only [Config.setThread, Function.update_of_ne htt] at hth
      exact Program.wp_stable (hC.trans _ _) (hw t' th hth)
        (hC.start _ _ _ _ _ _ (Ne.symm htt) hs)
  | @call es d t r op k i _ hthread hready ih =>
    obtain ⟨hcalls, hinv, hw⟩ := ih
    obtain ⟨hguar, hrest⟩ := hw t _ hthread d.state (hC.refl _ _ _) hready i
      (hC.assume _ _ _ _ _ hinv)
    refine ⟨fun e he => ?_, hC.keeps_call _ _ _ _ _ hinv hready hguar, fun t' th hth => ?_⟩
    · rcases List.mem_append.mp he with he | he
      · exact hcalls e he
      · rw [List.mem_singleton.mp he]
        exact ⟨hinv, hguar⟩
    · by_cases htt : t' = t
      · subst htt
        simp only [Config.setThread, Function.update_self, Option.some.injEq] at hth
        subst hth
        exact hrest
      · simp only [Config.setThread, Function.update_of_ne htt] at hth
        exact Program.wp_stable (hC.trans _ _) (hw t' th hth)
          (hC.call _ _ _ _ _ i _ (Ne.symm htt) hinv hready hguar)
  | @retire es d t th _ _ _ ih =>
    obtain ⟨hcalls, hinv, hw⟩ := ih
    refine ⟨hcalls, hinv, fun t' th' hth => ?_⟩
    by_cases htt : t' = t
    · subst htt
      simp [Config.setThread] at hth
    · simp only [Config.setThread, Function.update_of_ne htt] at hth
      exact hw t' th' hth
  | @disturb es d k _ ih =>
    obtain ⟨hcalls, hinv, hw⟩ := ih
    refine ⟨hcalls, hC.keeps_disturb _ _ hinv, fun t th hth => ?_⟩
    simp only [Config.disturbed] at hth
    split at hth
    · cases hth
    · next hk =>
      exact Program.wp_stable (hC.trans _ _) (hw t th hth)
        (hC.disturb _ _ _ _ (by simpa using hk))

-- The calls of a run pass the check that every body passes from a start at which the invariant
-- holds.
theorem Run.audited_from {admits checks : τ → ρ → O → ι → Traced τ O σ ι → Prop}
    {Inv : Traced τ O σ ι → Prop} {s : σ} {d : Config τ ρ O Res σ ε α}
    {es : List (ThreadCall τ ρ O σ ι)} (h : Run S (.initial s) es d) (hinit : Inv (s, []))
    (ha : ∀ xs e ys, es = xs ++ e :: ys →
      admits e.thread e.request e.op e.input (e.pre, xs.map ThreadCall.entry))
    (hbody : ∀ t r x s', Inv x → S.start t r x.1 = some s' →
      (S.body t r).wp S.traced t (S.audit admits checks t r) (fun _ _ => True) (s', x.2))
    (hstart : ∀ t r x s', Inv x → S.start t r x.1 = some s' → Inv (s', x.2))
    (hcall : ∀ t r op i x, Inv x → admits t r op i x → checks t r op i x →
      Inv (S.traced.next t op i x))
    (hdisturb : ∀ k x, Inv x → Inv (S.disturb k x.1, x.2)) :
    (∀ xs e ys, es = xs ++ e :: ys →
      Inv (e.pre, xs.map ThreadCall.entry) ∧
        checks e.thread e.request e.op e.input (e.pre, xs.map ThreadCall.entry)) ∧
      Inv (d.state, es.map ThreadCall.entry) ∧
      ∀ t th, d.threads t = some th →
        th.rest.wp S.traced t (S.audit admits checks t th.request) (fun _ _ => True)
          (d.state, es.map ThreadCall.entry) := by
  induction h with
  | refl =>
    exact ⟨fun xs e ys heq => (by cases xs <;> cases heq), hinit, fun t th hth => (by cases hth)⟩
  | @start es d t r s' _ _ hs ih =>
    obtain ⟨hc, hinv, hw⟩ := ih ha
    refine ⟨hc, hstart t r _ s' hinv hs, fun t' th hth => ?_⟩
    by_cases htt : t' = t
    · subst htt
      simp only [Config.setThread, Function.update_self, Option.some.injEq] at hth
      subst hth
      exact hbody _ _ _ _ hinv hs
    · simp only [Config.setThread, Function.update_of_ne htt] at hth
      exact System.wp_undisturbed (hw t' th hth) (.start .refl hs)
  | @call es d t r op k i _ hthread hready ih =>
    obtain ⟨hc, hinv, hw⟩ := ih fun xs e ys heq =>
      ha xs e (ys ++ _) (by rw [heq, List.append_assoc]; rfl)
    have hallow := ha es _ [] rfl
    obtain ⟨hpass, hk⟩ := hw t _ hthread _ .refl hready i hallow
    have hcheck : checks t r op i (d.state, es.map ThreadCall.entry) := hpass
    rw [List.map_append]
    refine ⟨split_append_singleton (P := fun xs e => Inv (e.pre, xs.map ThreadCall.entry) ∧
      checks e.thread e.request e.op e.input (e.pre, xs.map ThreadCall.entry)) hc ⟨hinv, hcheck⟩,
      hcall t r op i _ hinv hallow hcheck, fun t' th hth => ?_⟩
    by_cases htt : t' = t
    · subst htt
      simp only [Config.setThread, Function.update_self, Option.some.injEq] at hth
      subst hth
      exact hk
    · simp only [Config.setThread, Function.update_of_ne htt] at hth
      exact System.wp_undisturbed (hw t' th hth) (.call .refl (Ne.symm htt) hallow)
  | @retire es d t th _ _ _ ih =>
    obtain ⟨hc, hinv, hw⟩ := ih ha
    refine ⟨hc, hinv, fun t' th' hth => ?_⟩
    by_cases htt : t' = t
    · subst htt
      simp [Config.setThread] at hth
    · simp only [Config.setThread, Function.update_of_ne htt] at hth
      exact hw t' th' hth
  | @disturb es d k _ ih =>
    obtain ⟨hc, hinv, hw⟩ := ih ha
    refine ⟨hc, hdisturb k _ hinv, fun t' th hth => ?_⟩
    simp only [Config.disturbed] at hth
    split at hth
    · cases hth
    · exact System.wp_undisturbed (hw t' th hth) (.disturb k .refl)

-- The system that also keeps its own history.
def System.recorded (S : System τ ρ κ O Res σ ι ε α) :
    System τ ρ κ O Res (Traced τ O σ ι) ι ε α where
  handler := S.traced
  body := S.body
  start t r x := (S.start t r x.1).map fun s => (s, x.2)
  disturb k x := (S.disturb k x.1, x.2)
  kills := S.kills

def ThreadCall.recorded (xs : List (ThreadCall τ ρ O σ ι)) (e : ThreadCall τ ρ O σ ι) :
    ThreadCall τ ρ O (Traced τ O σ ι) ι :=
  ⟨⟨e.op, e.input, (e.pre, xs.map ThreadCall.entry), (e.post, (xs ++ [e]).map ThreadCall.entry)⟩,
    e.thread, e.request⟩

theorem Run.recorded {s : σ} {d : Config τ ρ O Res σ ε α} {es : List (ThreadCall τ ρ O σ ι)}
    (h : Run S (.initial s) es d) :
    ∃ es', Run S.recorded (.initial (s, [])) es' ⟨(d.state, es.map ThreadCall.entry), d.threads⟩ ∧
      ∀ xs e ys, es = xs ++ e :: ys → e.recorded xs ∈ es' := by
  induction h with
  | refl => exact ⟨[], .refl, fun xs e ys heq => (by cases xs <;> cases heq)⟩
  | @start es d t r s' _ hfree hs ih =>
    obtain ⟨es', hrun, hmem⟩ := ih
    have hstart : S.recorded.start t r (d.state, es.map ThreadCall.entry) =
        some (s', es.map ThreadCall.entry) := by
      simp [System.recorded, hs]
    exact ⟨es', hrun.start hfree hstart, hmem⟩
  | @call es d t r op k i _ hthread hready ih =>
    obtain ⟨es', hrun, hmem⟩ := ih
    have hcall := hrun.call i hthread hready
    rw [List.map_append]
    refine ⟨_, hcall, ?_⟩
    refine split_append_singleton (P := fun xs e => e.recorded xs ∈ _)
      (fun xs e ys heq => List.mem_append_left _ (hmem xs e ys heq)) ?_
    rw [ThreadCall.recorded, List.map_append]
    exact List.mem_append_right _ (List.mem_singleton_self _)
  | retire _ hthread hfin ih =>
    obtain ⟨es', hrun, hmem⟩ := ih
    exact ⟨es', hrun.retire hthread hfin, hmem⟩
  | disturb k _ ih =>
    obtain ⟨es', hrun, hmem⟩ := ih
    exact ⟨es', hrun.disturb k, hmem⟩

end Interaction
