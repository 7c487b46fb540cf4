import TranscodeForge.Interaction.Program

namespace Interaction

structure Handler (τ O : Type) (Res : O → Type) (σ ι : Type) where
  exec : τ → (op : O) → ι → σ → σ × Res op
  ready : τ → O → σ → Bool := fun _ _ _ => true

structure Contract (O σ ι : Type) where
  rely : σ → σ → Prop
  assume : O → ι → σ → Prop
  guar : O → ι → σ → σ → Prop

structure CallRecord (O σ ι : Type) where
  op : O
  input : ι
  pre : σ
  post : σ

variable {τ O : Type} {Res : O → Type} {σ ι ε ε' α β : Type}

namespace Handler

def next (H : Handler τ O Res σ ι) (t : τ) (op : O) (i : ι) (s : σ) : σ := (H.exec t op i s).1

def answer (H : Handler τ O Res σ ι) (t : τ) (op : O) (i : ι) (s : σ) : Res op :=
  (H.exec t op i s).2

end Handler

variable (H : Handler τ O Res σ ι) (t : τ) (C : Contract O σ ι)

namespace Program

def wp : Program O Res ε α → (Except ε α → σ → Prop) → σ → Prop
  | .ret a, Q, s => Q (.ok a) s
  | .raise e, Q, s => Q (.error e) s
  | .call op k, Q, s => ∀ s', C.rely s s' → H.ready t op s' → ∀ i, C.assume op i s' →
      C.guar op i s' (H.next t op i s') ∧
        (k (H.answer t op i s')).wp Q (H.next t op i s')

variable {H t C}

@[simp] theorem wp_ret (a : α) (Q : Except ε α → σ → Prop) (s : σ) :
    (ret a : Program O Res ε α).wp H t C Q s ↔ Q (.ok a) s := Iff.rfl

@[simp] theorem wp_raise (e : ε) (Q : Except ε α → σ → Prop) (s : σ) :
    (raise e : Program O Res ε α).wp H t C Q s ↔ Q (.error e) s := Iff.rfl

theorem wp_call (op : O) (k : Res op → Program O Res ε α) (Q : Except ε α → σ → Prop) (s : σ) :
    (call op k).wp H t C Q s ↔ ∀ s', C.rely s s' → H.ready t op s' → ∀ i, C.assume op i s' →
      C.guar op i s' (H.next t op i s') ∧
        (k (H.answer t op i s')).wp H t C Q (H.next t op i s') := Iff.rfl

theorem wp_mono {p : Program O Res ε α} {Q Q' : Except ε α → σ → Prop} {s : σ}
    (h : p.wp H t C Q s) (hQ : ∀ o s, Q o s → Q' o s) : p.wp H t C Q' s := by
  induction p generalizing s with
  | ret a => exact hQ _ _ h
  | raise e => exact hQ _ _ h
  | call op k ih =>
    intro s' hr hready i ha
    obtain ⟨hg, hk⟩ := h s' hr hready i ha
    exact ⟨hg, ih _ hk⟩

theorem wp_bind (p : Program O Res ε α) (f : α → Program O Res ε β)
    (Q : Except ε β → σ → Prop) (s : σ) :
    (p.bind f).wp H t C Q s ↔
      p.wp H t C (fun o s => match o with
        | .ok a => (f a).wp H t C Q s
        | .error e => Q (.error e) s) s := by
  induction p generalizing s with
  | ret a => rfl
  | raise e => rfl
  | call op k ih => simp only [call_bind, wp_call, ih]

theorem wp_attempt (p : Program O Res ε α) (Q : Except ε' (Except ε α) → σ → Prop) (s : σ) :
    (p.attempt : Program O Res ε' _).wp H t C Q s ↔ p.wp H t C (fun o s => Q (.ok o) s) s := by
  induction p generalizing s with
  | ret a => rfl
  | raise e => rfl
  | call op k ih => simp only [Program.attempt, wp_call, ih]

theorem wp_ofExcept (x : Except ε α) (Q : Except ε α → σ → Prop) (s : σ) :
    (ofExcept x : Program O Res ε α).wp H t C Q s ↔ Q x s := by
  cases x <;> rfl

theorem wp_rescue (p : Program O Res ε α) (handler : ε → Program O Res ε' α)
    (Q : Except ε' α → σ → Prop) (s : σ) :
    (p.rescue handler).wp H t C Q s ↔
      p.wp H t C (fun o s => match o with
        | .ok a => Q (.ok a) s
        | .error e => (handler e).wp H t C Q s) s := by
  rw [Program.rescue, wp_bind, wp_attempt]
  constructor <;> refine fun h => wp_mono h fun o s hs => ?_ <;> cases o <;> exact hs

theorem wp_call_of {op : O} {k : Res op → Program O Res ε α} {Q : Except ε α → σ → Prop} {s : σ}
    {P : σ → Prop} (hs : P s) (hrely : ∀ s s', P s → C.rely s s' → P s')
    (hcall : ∀ i s, P s → H.ready t op s → C.assume op i s →
      C.guar op i s (H.next t op i s) ∧
        (k (H.answer t op i s)).wp H t C Q (H.next t op i s)) :
    (call op k).wp H t C Q s := by
  intro s' hr hready i ha
  exact hcall i s' (hrely s s' hs hr) hready ha

theorem wp_seq {p : Program O Res ε α} {f : α → Program O Res ε β} {Q : Except ε β → σ → Prop}
    {R : Except ε α → σ → Prop} {s : σ} (hp : p.wp H t C R s)
    (hok : ∀ a s, R (.ok a) s → (f a).wp H t C Q s)
    (herror : ∀ e s, R (.error e) s → Q (.error e) s) : (p.bind f).wp H t C Q s := by
  rw [wp_bind]
  refine wp_mono hp fun o s hR => ?_
  cases o with
  | ok a => exact hok a s hR
  | error e => exact herror e s hR

theorem wp_noRaise {p : Program O Res ε α} {Q : Except ε α → σ → Prop} {s : σ}
    (hp : p.NoRaise) (h : p.wp H t C Q s) :
    p.wp H t C (fun o s => Q o s ∧ ∃ a, o = .ok a) s := by
  induction p generalizing s with
  | ret a => exact ⟨h, a, rfl⟩
  | raise e => exact hp.elim
  | call op k ih =>
    intro s' hr hready i ha
    obtain ⟨hg, hk⟩ := h s' hr hready i ha
    exact ⟨hg, ih _ (hp _) hk⟩

theorem wp_stable {p : Program O Res ε α} {s s' : σ}
    (htrans : ∀ s₁ s₂ s₃, C.rely s₁ s₂ → C.rely s₂ s₃ → C.rely s₁ s₃)
    (h : p.wp H t C (fun _ _ => True) s) (hr : C.rely s s') :
    p.wp H t C (fun _ _ => True) s' := by
  cases p with
  | ret a => trivial
  | raise e => trivial
  | call op k => exact fun s₂ hr₂ => h s₂ (htrans s s' s₂ hr hr₂)

-- An assertion that survives interference and every call of a class survives a whole
-- program made of such calls.
theorem wp_of_calls {A : O → Prop} {P : σ → Prop} {p : Program O Res ε α} {s : σ}
    (hp : p.Calls A) (hs : P s) (hrely : ∀ s s', P s → C.rely s s' → P s')
    (hcall : ∀ op i s, A op → P s → H.ready t op s → C.assume op i s →
      C.guar op i s (H.next t op i s) ∧ P (H.next t op i s)) :
    p.wp H t C (fun _ s => P s) s := by
  induction p generalizing s with
  | ret a => exact hs
  | raise e => exact hs
  | call op k ih =>
    intro s' hr hready i ha
    obtain ⟨hg, hP⟩ := hcall op i s' hp.1 (hrely s s' hs hr) hready ha
    exact ⟨hg, ih _ (hp.2 _) hP⟩

-- What every program put in the place of a call keeps, the whole keeps.
theorem wp_expand {O' : Type} {Res' : O' → Type} {f : (op : O') → Program O Res ε (Res' op)}
    {A : O' → Prop} {P : σ → Prop} {p : Program O' Res' ε α} {s : σ} (hp : p.Calls A) (hs : P s)
    (hf : ∀ op s, A op → P s → (f op).wp H t C (fun _ s => P s) s) :
    (p.expand f).wp H t C (fun _ s => P s) s := by
  induction p generalizing s with
  | ret a => exact hs
  | raise e => exact hs
  | call op k ih =>
    exact wp_seq (hf op s hp.1 hs) (fun a _ hs => ih a (hp.2 a) hs) fun _ _ hs => hs

-- Where a call is carried out on a part of the state, what holds of the program there holds of it
-- on the whole, and the rest is framed.
theorem wp_expand_view {τ' O' σ' ι' : Type} {Res' : O' → Type} {H' : Handler τ' O' Res' σ' ι'}
    {t' : τ'} {C' : Contract O' σ' ι'} {f : (op : O) → Program O' Res' ε (Res op)}
    {v : σ' → σ} {A : O → Prop} {P : σ' → Prop} {p : Program O Res ε α}
    {Q : Except ε α → σ → Prop} {s : σ'} (hcalls : p.Calls A) (hp : p.wp H t C Q (v s)) (hs : P s)
    (hf : ∀ op s (R : Res op → σ → Prop), A op → P s →
      (∀ s', C.rely (v s) s' → H.ready t op s' → ∀ i, C.assume op i s' →
        R (H.answer t op i s') (H.next t op i s')) →
      (f op).wp H' t' C' (fun o s => P s ∧ match o with
        | .ok a => R a (v s)
        | .error _ => False) s) :
    (p.expand f).wp H' t' C' (fun o s => P s ∧ Q o (v s)) s := by
  induction p generalizing s with
  | ret a => exact ⟨hs, hp⟩
  | raise e => exact ⟨hs, hp⟩
  | call op k ih =>
    have hop := hf op s (fun a s => (k a).wp H t C Q s) hcalls.1 hs fun s' hr hready i ha =>
      (hp s' hr hready i ha).2
    exact wp_seq hop (fun a _ h => ih a (hcalls.2 a) h.2 h.1) fun _ _ h => h.2.elim

-- A program that keeps to a class of calls meets every contract whose guarantee its own
-- contract implies on that class.
theorem wp_weaken {C' : Contract O σ ι} {A : O → Prop} {p : Program O Res ε α}
    {Q : Except ε α → σ → Prop} {s : σ} (hp : p.Calls A) (h : p.wp H t C Q s)
    (hrely : ∀ s s', C'.rely s s' → C.rely s s')
    (hassume : ∀ op i s, C'.assume op i s → C.assume op i s)
    (hguar : ∀ op i s s', A op → C.guar op i s s' → C'.guar op i s s') :
    p.wp H t C' Q s := by
  induction p generalizing s with
  | ret a => exact h
  | raise e => exact h
  | call op k ih =>
    intro s' hr hready i ha
    obtain ⟨hg, hk⟩ := h s' (hrely s s' hr) hready i (hassume op i s' ha)
    exact ⟨hguar op i s' _ hp.1 hg, ih _ (hp.2 _) hk⟩

end Program

-- Partial executions of one program under interference: the run may stop, or the process die,
-- after any call.
inductive Exec (rely : σ → σ → Prop) :
    Program O Res ε α → σ → List (CallRecord O σ ι) → Program O Res ε α → σ → Prop
  | refl (p : Program O Res ε α) (s : σ) : Exec rely p s [] p s
  | call {p : Program O Res ε α} {s s₁ s₂ : σ} {es : List (CallRecord O σ ι)} {op : O}
      {k : Res op → Program O Res ε α} (i : ι) :
      Exec rely p s es (.call op k) s₁ → rely s₁ s₂ → H.ready t op s₂ →
      Exec rely p s (es ++ [⟨op, i, s₂, H.next t op i s₂⟩]) (k (H.answer t op i s₂))
        (H.next t op i s₂)

-- The execution that a list of inputs drives, without interference.
def Program.drive : List ι → Program O Res ε α → σ →
    Option (List (CallRecord O σ ι) × Program O Res ε α × σ)
  | [], p, s => some ([], p, s)
  | i :: is, .call op k, s =>
    if H.ready t op s then
      let (s', answer) := H.exec t op i s
      (Program.drive is (k answer) s').map fun (es, p, s'') => (⟨op, i, s, s'⟩ :: es, p, s'')
    else none
  | _ :: _, _, _ => none

variable {H t C} {rely : σ → σ → Prop}

theorem Exec.adequate {p p' : Program O Res ε α} {s s' : σ} {es : List (CallRecord O σ ι)}
    {Q : Except ε α → σ → Prop} (h : Exec H t C.rely p s es p' s') (hp : p.wp H t C Q s)
    (ha : ∀ e ∈ es, C.assume e.op e.input e.pre) :
    (∀ e ∈ es, C.guar e.op e.input e.pre e.post) ∧ p'.wp H t C Q s' := by
  induction h with
  | refl => exact ⟨by simp, hp⟩
  | @call s₁ s₂ es op k i _ hr hready ih =>
    obtain ⟨hg, hk⟩ := ih fun e he => ha e (List.mem_append_left _ he)
    have hstep := hk s₂ hr hready i (ha _ (List.mem_append_right _ (List.mem_singleton_self _)))
    refine ⟨fun e he => ?_, hstep.2⟩
    rcases List.mem_append.mp he with he | he
    · exact hg e he
    · rw [List.mem_singleton.mp he]
      exact hstep.1

theorem Exec.outcome_post {p p' : Program O Res ε α} {s s' : σ} {es : List (CallRecord O σ ι)}
    {Q : Except ε α → σ → Prop} {o : Except ε α} (h : Exec H t C.rely p s es p' s')
    (hp : p.wp H t C Q s) (ha : ∀ e ∈ es, C.assume e.op e.input e.pre)
    (ho : p'.outcome = some o) : Q o s' := by
  have hwp := (h.adequate hp ha).2
  cases p' with
  | ret a => exact Option.some.inj ho ▸ hwp
  | raise e => exact Option.some.inj ho ▸ hwp
  | call op k => cases ho

theorem Exec.trans {p p₁ p₂ : Program O Res ε α} {s s₁ s₂ : σ}
    {es₁ es₂ : List (CallRecord O σ ι)} (h₁ : Exec H t rely p s es₁ p₁ s₁)
    (h₂ : Exec H t rely p₁ s₁ es₂ p₂ s₂) : Exec H t rely p s (es₁ ++ es₂) p₂ s₂ := by
  induction h₂ with
  | refl => simpa using h₁
  | call i _ hr hready ih => simpa using ih.call i hr hready

theorem Exec.drive {is : List ι} {p p' : Program O Res ε α} {s s' : σ}
    {es : List (CallRecord O σ ι)} (hrely : ∀ s, rely s s)
    (h : p.drive H t is s = some (es, p', s')) : Exec H t rely p s es p' s' := by
  induction is generalizing p s es with
  | nil =>
    cases h
    exact .refl _ _
  | cons i is ih =>
    cases p with
    | ret a => cases h
    | raise e => cases h
    | call op k =>
      simp only [Program.drive] at h
      split at h
      · next hready =>
        obtain ⟨⟨es', q, s₂⟩, hrest, heq⟩ := Option.map_eq_some_iff.mp h
        cases heq
        exact (Exec.call i (.refl _ _) (hrely s) hready).trans (ih hrest)
      · cases h

theorem Exec.post_eq {p p' : Program O Res ε α} {s s' : σ} {es : List (CallRecord O σ ι)}
    (h : Exec H t rely p s es p' s') : ∀ e ∈ es, e.post = H.next t e.op e.input e.pre := by
  induction h with
  | refl => simp
  | call i _ _ _ ih => simpa [or_imp, forall_and] using ih

theorem Exec.last {p p' : Program O Res ε α} {s s' : σ} {es : List (CallRecord O σ ι)}
    {e : CallRecord O σ ι} (h : Exec H t rely p s (es ++ [e]) p' s') :
    ∃ k s₁, Exec H t rely p s es (.call e.op k) s₁ ∧ rely s₁ e.pre := by
  generalize hes : es ++ [e] = es' at h
  cases h with
  | refl => simp at hes
  | call i h hr _ =>
    obtain ⟨rfl, he⟩ := List.append_inj' hes rfl
    cases he
    exact ⟨_, _, h, hr⟩

-- What becomes true without interference becomes so by a call.
theorem Exec.event {P : σ → Prop} {p p' : Program O Res ε α} {s s' : σ}
    {es : List (CallRecord O σ ι)} (h : Exec H t rely p s es p' s')
    (hrely : ∀ s s', rely s s' → P s' → P s) (hs : ¬P s) (hs' : P s') :
    ∃ e ∈ es, ¬P e.pre ∧ P e.post := by
  induction h with
  | refl => exact absurd hs' hs
  | @call s₁ s₂ es op k i _ hr _ ih =>
    by_cases hpre : P s₂
    · obtain ⟨e, he, hevent⟩ := ih (hrely s₁ s₂ hr hpre)
      exact ⟨e, List.mem_append_left _ he, hevent⟩
    · exact ⟨_, List.mem_append_right _ (List.mem_singleton_self _), hpre, hs'⟩

-- A preorder on the states, in which an execution only goes up.
structure Rising (R : σ → σ → Prop) (s : σ) (es : List (CallRecord O σ ι)) (s' : σ) : Prop where
  before : ∀ e ∈ es, R s e.pre
  between : es.Pairwise fun e e' => R e.post e'.pre
  after : ∀ e ∈ es, R e.post s'
  whole : R s s'

section Rising

variable {R : σ → σ → Prop} (hrefl : ∀ s, R s s) (htrans : ∀ s₁ s₂ s₃, R s₁ s₂ → R s₂ s₃ → R s₁ s₃)

include htrans

theorem Rising.trans {s s₁ s' : σ} {es es' : List (CallRecord O σ ι)} (h : Rising R s es s₁)
    (h' : Rising R s₁ es' s') : Rising R s (es ++ es') s' where
  before := by
    intro e he
    rcases List.mem_append.mp he with he | he
    · exact h.before e he
    · exact htrans _ _ _ h.whole (h'.before e he)
  between := by
    rw [List.pairwise_append]
    exact ⟨h.between, h'.between, fun e he e' he' => htrans _ _ _ (h.after e he) (h'.before e' he')⟩
  after := by
    intro e he
    rcases List.mem_append.mp he with he | he
    · exact htrans _ _ _ (h.after e he) h'.whole
    · exact h'.after e he
  whole := htrans _ _ _ h.whole h'.whole

include hrefl

theorem Exec.rising {p p' : Program O Res ε α} {s s' : σ} {es : List (CallRecord O σ ι)}
    (h : Exec H t rely p s es p' s') (hrely : ∀ s s', rely s s' → R s s')
    (hstep : ∀ e ∈ es, R e.pre e.post) : Rising R s es s' := by
  induction h with
  | refl => exact ⟨by simp, .nil, by simp, hrefl _⟩
  | @call s₁ s₂ es op k i _ hr _ ih =>
    have hcall : R s₂ (H.next t op i s₂) :=
      hstep _ (List.mem_append_right _ (List.mem_singleton_self _))
    have hlast : Rising R s₁ [⟨op, i, s₂, H.next t op i s₂⟩] (H.next t op i s₂) := by
      refine ⟨?_, List.pairwise_singleton _ _, ?_, htrans _ _ _ (hrely _ _ hr) hcall⟩
      · simpa using hrely s₁ s₂ hr
      · simpa using hrefl _
    exact (ih fun e he => hstep e (List.mem_append_left _ he)).trans htrans hlast

end Rising

-- An assertion that interference keeps and every call establishes holds around every call.
theorem Exec.around {P : σ → Prop} {p p' : Program O Res ε α} {s s' : σ}
    {es : List (CallRecord O σ ι)} (h : Exec H t rely p s es p' s') (hs : P s)
    (hrely : ∀ s s', P s → rely s s' → P s') (hpost : ∀ e ∈ es, P e.post) :
    (∀ e ∈ es, P e.pre) ∧ P s' := by
  induction h with
  | refl => exact ⟨by simp, hs⟩
  | call i _ hr _ ih =>
    obtain ⟨hpre, hlast⟩ := ih fun e he => hpost e (List.mem_append_left _ he)
    refine ⟨fun e he => ?_, hpost _ (List.mem_append_right _ (List.mem_singleton_self _))⟩
    rcases List.mem_append.mp he with he | he
    · exact hpre e he
    · rw [List.mem_singleton.mp he]
      exact hrely _ _ hlast hr

end Interaction
