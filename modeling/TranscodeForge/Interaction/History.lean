import Mathlib.Data.List.Basic
import Mathlib.Data.List.Induction
import TranscodeForge.Interaction.Pool

namespace Interaction

-- A call and the thread that made it.
structure Entry (τ O σ ι : Type) extends CallRecord O σ ι where
  thread : τ

variable {τ ρ κ O : Type} {Res : O → Type} {σ ι ε ε' α β : Type}

def ThreadCall.entry (e : ThreadCall τ ρ O σ ι) : Entry τ O σ ι := ⟨e.toCallRecord, e.thread⟩

abbrev Traced (τ O σ ι : Type) := σ × List (Entry τ O σ ι)

section Since

variable {own bad : β → Prop} {h : List β} {e : β}

-- Nothing bad has happened since the last own event.
def ClearSince (own bad : β → Prop) (h : List β) : Prop :=
  ∀ xs f ys, h = xs ++ f :: ys → bad f → ∃ g ∈ ys, own g

theorem ClearSince.nil : ClearSince own bad [] := by
  intro xs f ys h
  cases xs <;> cases h

theorem ClearSince.of_forall (hbad : ∀ f ∈ h, ¬bad f) : ClearSince own bad h := by
  rintro xs f ys rfl hf
  exact absurd hf (hbad f (by simp))

theorem map_split {γ : Type} {f : γ → β} {h : List γ} {xs ys : List β} {b : β}
    (heq : h.map f = xs ++ b :: ys) :
    ∃ xs' e ys', h = xs' ++ e :: ys' ∧ xs'.map f = xs ∧ f e = b ∧ ys'.map f = ys := by
  obtain ⟨xs', rest, rfl, hxs, hrest⟩ := List.map_eq_append_iff.mp heq
  obtain ⟨e, ys', rfl, he, hys⟩ := List.map_eq_cons_iff.mp hrest
  exact ⟨xs', e, ys', rfl, hxs, he, hys⟩

theorem ClearSince.map {γ : Type} {f : γ → β} {h : List γ}
    (hclear : ClearSince (fun e => own (f e)) (fun e => bad (f e)) h) :
    ClearSince own bad (h.map f) := by
  intro xs e ys heq hbad
  obtain ⟨xs', e', ys', rfl, rfl, rfl, rfl⟩ := map_split heq
  obtain ⟨g, hg, hown⟩ := hclear xs' e' ys' rfl hbad
  exact ⟨f g, List.mem_map_of_mem hg, hown⟩

theorem eq_append_singleton_cases {h xs ys : List β} {e f : β} (heq : h ++ [e] = xs ++ f :: ys) :
    (ys = [] ∧ h = xs ∧ e = f) ∨ ∃ zs, ys = zs ++ [e] ∧ h = xs ++ f :: zs := by
  rcases ys.eq_nil_or_concat' with rfl | ⟨zs, y, rfl⟩
  · obtain ⟨hxs, hf⟩ := List.append_inj' heq rfl
    cases hf
    exact .inl ⟨rfl, hxs, rfl⟩
  · rw [← List.cons_append, ← List.append_assoc] at heq
    obtain ⟨hxs, hy⟩ := List.append_inj' heq rfl
    cases hy
    exact .inr ⟨zs, rfl, hxs⟩

theorem ClearSince.append_own (he : ¬ bad e) (hown : own e) : ClearSince own bad (h ++ [e]) := by
  intro xs f ys heq hbad
  rcases eq_append_singleton_cases heq with ⟨-, -, rfl⟩ | ⟨zs, rfl, -⟩
  · exact absurd hbad he
  · exact ⟨e, List.mem_append_right _ (List.mem_singleton_self e), hown⟩

theorem ClearSince.append (hclear : ClearSince own bad h) (he : ¬bad e) :
    ClearSince own bad (h ++ [e]) := by
  intro xs f ys heq hbad
  rcases eq_append_singleton_cases heq with ⟨-, -, rfl⟩ | ⟨zs, rfl, hzs⟩
  · exact absurd hbad he
  · obtain ⟨g, hg, hown⟩ := hclear xs f zs hzs hbad
    exact ⟨g, List.mem_append_left _ hg, hown⟩

def clearSince (ownB badB : β → Bool) (h : List β) : Bool :=
  h.foldl (fun clear e => !badB e && (ownB e || clear)) true

theorem clearSince_sound {ownB badB : β → Bool} (hown : ∀ e, ownB e = true → own e)
    (hbad : ∀ e, badB e = false → ¬bad e) (hclear : clearSince ownB badB h = true) :
    ClearSince own bad h := by
  induction h using List.reverseRecOn with
  | nil => exact ClearSince.nil
  | append_singleton h e ih =>
    simp only [clearSince, List.foldl_append, List.foldl_cons, List.foldl_nil, Bool.and_eq_true,
      Bool.or_eq_true, Bool.not_eq_true'] at hclear
    obtain ⟨hnot, hmine | hclear⟩ := hclear
    · exact ClearSince.append_own (hbad e hnot) (hown e hmine)
    · exact (ih hclear).append (hbad e hnot)

-- A check of every element of a list against the elements before it.
def everySplit (p : List β → β → Bool) : List β → List β → Bool
  | _, [] => true
  | before, e :: es => p before e && everySplit p (before ++ [e]) es

theorem everySplit_sound {p : List β → β → Bool} {before es : List β}
    (h : everySplit p before es = true) :
    ∀ xs e ys, es = xs ++ e :: ys → p (before ++ xs) e = true := by
  induction es generalizing before with
  | nil =>
    intro xs e ys heq
    cases xs <;> cases heq
  | cons x es ih =>
    rw [everySplit, Bool.and_eq_true] at h
    intro xs e ys heq
    cases xs with
    | nil =>
      cases heq
      simpa using h.1
    | cons x' xs =>
      cases heq
      simpa using ih h.2 xs e ys rfl

theorem ClearSince.of_append (hown : ¬ own e) (hclear : ClearSince own bad (h ++ [e])) :
    ClearSince own bad h ∧ ¬ bad e := by
  constructor
  · rintro xs f ys rfl hbad
    obtain ⟨g, hg, hgown⟩ := hclear xs f (ys ++ [e]) (by simp) hbad
    rcases List.mem_append.mp hg with hg | hg
    · exact ⟨g, hg, hgown⟩
    · rw [List.mem_singleton.mp hg] at hgown
      exact absurd hgown hown
  · intro hbad
    obtain ⟨g, hg, -⟩ := hclear h e [] rfl hbad
    cases hg

theorem append_cons_cases {xs ys xs' ys' : List β} {a b : β}
    (heq : xs ++ a :: ys = xs' ++ b :: ys') :
    (xs = xs' ∧ a = b ∧ ys = ys') ∨ (∃ zs, xs' = xs ++ a :: zs ∧ ys = zs ++ b :: ys') ∨
      ∃ zs, xs = xs' ++ b :: zs ∧ ys' = zs ++ a :: ys := by
  rcases List.append_eq_append_iff.mp heq with ⟨zs, rfl, htail⟩ | ⟨zs, rfl, htail⟩
  · cases zs with
    | nil =>
      cases htail
      exact .inl ⟨(List.append_nil _).symm, rfl, rfl⟩
    | cons z zs =>
      cases htail
      exact .inr (.inl ⟨zs, rfl, rfl⟩)
  · cases zs with
    | nil =>
      cases htail
      exact .inl ⟨List.append_nil _, rfl, rfl⟩
    | cons z zs =>
      cases htail
      exact .inr (.inr ⟨zs, rfl, rfl⟩)

-- An event with a property, and only quiet ones after it.
def Since (P : List β → β → Prop) (quiet : β → Prop) (h : List β) : Prop :=
  ∃ xs f ys, h = xs ++ f :: ys ∧ P xs f ∧ ∀ g ∈ ys, quiet g

variable {P : List β → β → Prop} {quiet : β → Prop}

theorem Since.here (hP : P h e) : Since P quiet (h ++ [e]) :=
  ⟨h, e, [], rfl, hP, fun g hg => by cases hg⟩

theorem Since.append (hs : Since P quiet h) (he : quiet e) : Since P quiet (h ++ [e]) := by
  obtain ⟨xs, f, ys, rfl, hP, hquiet⟩ := hs
  refine ⟨xs, f, ys ++ [e], by simp, hP, fun g hg => ?_⟩
  rcases List.mem_append.mp hg with hg | hg
  · exact hquiet g hg
  · rwa [List.mem_singleton.mp hg]

theorem since_append : Since P quiet (h ++ [e]) ↔ P h e ∨ quiet e ∧ Since P quiet h := by
  constructor
  · rintro ⟨xs, f, ys, heq, hP, hquiet⟩
    rcases eq_append_singleton_cases heq with ⟨-, rfl, rfl⟩ | ⟨zs, rfl, rfl⟩
    · exact .inl hP
    · exact .inr ⟨hquiet e (by simp), xs, f, zs, rfl, hP, fun g hg => hquiet g (by simp [hg])⟩
  · rintro (hP | ⟨he, hs⟩)
    · exact .here hP
    · exact hs.append he

theorem Since.before {ys : List β} (hs : Since P quiet (h ++ ys)) (hys : ∀ us, ∀ g ∈ ys, ¬P us g) :
    Since P quiet h ∧ ∀ g ∈ ys, quiet g := by
  induction ys using List.reverseRecOn with
  | nil => exact ⟨by simpa using hs, by simp⟩
  | append_singleton ys e ih =>
    rw [← List.append_assoc, since_append] at hs
    rcases hs with hP | ⟨he, hs⟩
    · exact absurd hP (hys _ e (by simp))
    · obtain ⟨hbefore, hquiet⟩ := ih hs fun us g hg => hys us g (List.mem_append_left _ hg)
      refine ⟨hbefore, fun g hg => ?_⟩
      rcases List.mem_append.mp hg with hg | hg
      · exact hquiet g hg
      · rwa [List.mem_singleton.mp hg]

theorem Since.mono {P' : List β → β → Prop} {quiet' : β → Prop} (hs : Since P quiet h)
    (hP : ∀ xs f, P xs f → P' xs f) (hquiet : ∀ g, quiet g → quiet' g) : Since P' quiet' h := by
  obtain ⟨xs, f, ys, heq, hf, hys⟩ := hs
  exact ⟨xs, f, ys, heq, hP xs f hf, fun g hg => hquiet g (hys g hg)⟩

theorem Since.of_map {γ : Type} {f : γ → β} {h : List γ} (hs : Since P quiet (h.map f)) :
    Since (fun xs e => P (xs.map f) (f e)) (fun g => quiet (f g)) h := by
  obtain ⟨xs, b, ys, heq, hP, hquiet⟩ := hs
  obtain ⟨xs', e, ys', rfl, rfl, rfl, rfl⟩ := map_split heq
  exact ⟨xs', e, ys', rfl, hP, fun g hg => hquiet _ (List.mem_map_of_mem hg)⟩

-- The last event that is not quiet is one event.
theorem Since.both {P' : List β → β → Prop} (hs : Since P quiet h) (hs' : Since P' quiet h)
    (hP : ∀ xs f, P xs f → ¬quiet f) (hP' : ∀ xs f, P' xs f → ¬quiet f) :
    Since (fun xs f => P xs f ∧ P' xs f) quiet h := by
  obtain ⟨xs, f, ys, rfl, hf, hquiet⟩ := hs
  obtain ⟨xs', f', ys', heq, hf', hquiet'⟩ := hs'
  rcases append_cons_cases heq with ⟨rfl, rfl, rfl⟩ | ⟨zs, rfl, rfl⟩ | ⟨zs, rfl, rfl⟩
  · exact ⟨xs, f, ys, rfl, ⟨hf, hf'⟩, hquiet⟩
  · exact absurd (hquiet f' (by simp)) (hP' _ _ hf')
  · exact absurd (hquiet' f (by simp)) (hP _ _ hf)

theorem split_at {n : Nat} (hget : h[n]? = some e) : h = h.take n ++ e :: h.drop (n + 1) := by
  obtain ⟨hlt, heq⟩ := List.getElem?_eq_some_iff.mp hget
  rw [← heq, List.getElem_cons_drop, List.take_append_drop]

theorem exists_first {P : β → Prop} (hex : ∃ e ∈ h, P e) :
    ∃ us e vs, h = us ++ e :: vs ∧ P e ∧ ∀ f ∈ us, ¬P f := by
  induction h with
  | nil =>
    obtain ⟨e, he, -⟩ := hex
    cases he
  | cons x h ih =>
    by_cases hx : P x
    · exact ⟨[], x, h, rfl, hx, fun f hf => by cases hf⟩
    · obtain ⟨e, he, hP⟩ := hex
      rcases List.mem_cons.mp he with rfl | he
      · exact absurd hP hx
      · obtain ⟨us, f, vs, rfl, hf, hus⟩ := ih ⟨e, he, hP⟩
        refine ⟨x :: us, f, vs, rfl, hf, fun g hg => ?_⟩
        rcases List.mem_cons.mp hg with rfl | hg
        · exact hx
        · exact hus g hg

-- No two events have the property.
def Once (P : β → Prop) (h : List β) : Prop :=
  ∀ xs e ys e' zs, h = xs ++ e :: ys ++ e' :: zs → P e → ¬P e'

theorem Once.same {P : β → Prop} {xs ys xs' ys' : List β} {e' : β} (hP : Once P h)
    (heq : h = xs ++ e :: ys) (heq' : h = xs' ++ e' :: ys') (he : P e) (he' : P e') :
    xs = xs' ∧ e = e' ∧ ys = ys' := by
  rcases append_cons_cases (heq.symm.trans heq') with hsame | ⟨zs, rfl, rfl⟩ | ⟨zs, rfl, rfl⟩
  · exact hsame
  · exact absurd he' (hP xs e zs e' ys' (by simp [heq]) he)
  · exact absurd he (hP xs' e' zs e ys (by simp [heq']) he')

-- What each thread does at most once after its own event of a kind that happens once.
theorem Once.of_since {γ : Type} (thread : β → γ) {P Q : β → Prop} (hQ : Once Q h)
    (hP : ∀ xs e ys, h = xs ++ e :: ys → P e →
      Since (fun _ f => thread f = thread e ∧ Q f) (fun g => thread g = thread e → ¬P g) xs) :
    Once P h := by
  intro xs e ys e' zs heq he he'
  obtain ⟨us, f, vs, hus, ⟨hthread, hf⟩, -⟩ := hP xs e (ys ++ e' :: zs) (by simp [heq]) he
  obtain ⟨us', f', vs', hus', ⟨hthread', hf'⟩, hquiet⟩ := hP (xs ++ e :: ys) e' zs heq he'
  have hfirst : h = us ++ f :: (vs ++ e :: ys ++ e' :: zs) := by simp [heq, hus]
  have hsecond : h = us' ++ f' :: (vs' ++ e' :: zs) := by simp [heq, hus']
  obtain ⟨rfl, rfl, -⟩ := hQ.same hfirst hsecond hf hf'
  obtain rfl : vs' = vs ++ e :: ys := by simpa [hus] using hus'.symm
  exact hquiet e (by simp) (hthread.symm.trans hthread') he

end Since

namespace System

variable (S : System τ ρ κ O Res σ ι ε α)

def traced : Handler τ O Res (Traced τ O σ ι) ι where
  exec t op i x :=
    ((S.handler.next t op i x.1, x.2 ++ [⟨⟨op, i, x.1, S.handler.next t op i x.1⟩, t⟩]),
      S.handler.answer t op i x.1)
  ready t op x := S.handler.ready t op x.1

-- What the other threads and the world can do to a thread between two of its calls, if every
-- call is one that `admits` admits.
inductive Interference (admits : τ → ρ → O → ι → Traced τ O σ ι → Prop) (t : τ)
    (x : Traced τ O σ ι) : Traced τ O σ ι → Prop
  | refl : Interference admits t x x
  | call {y : Traced τ O σ ι} {t' : τ} {r' : ρ} {op : O} {i : ι} :
      Interference admits t x y → t' ≠ t → admits t' r' op i y →
      Interference admits t x (S.traced.next t' op i y)
  | start {y : Traced τ O σ ι} {t' : τ} {r' : ρ} {s' : σ} :
      Interference admits t x y → S.start t' r' y.1 = some s' → Interference admits t x (s', y.2)
  | disturb {y : Traced τ O σ ι} (k : κ) :
      Interference admits t x y → Interference admits t x (S.disturb k y.1, y.2)

variable {S} {admits : τ → ρ → O → ι → Traced τ O σ ι → Prop}

theorem Interference.trans {t : τ} {x y z : Traced τ O σ ι} (h : S.Interference admits t x y)
    (h' : S.Interference admits t y z) : S.Interference admits t x z := by
  induction h' with
  | refl => exact h
  | call _ hne ha ih => exact ih.call hne ha
  | start _ hs ih => exact ih.start hs
  | disturb k _ ih => exact ih.disturb k

structure Stable (S : System τ ρ κ O Res σ ι ε α)
    (admits : τ → ρ → O → ι → Traced τ O σ ι → Prop) (t : τ) (P : Traced τ O σ ι → Prop) :
    Prop where
  call : ∀ t' r' op i y, t' ≠ t → admits t' r' op i y → P y → P (S.traced.next t' op i y)
  start : ∀ t' r' s' y, S.start t' r' y.1 = some s' → P y → P (s', y.2)
  disturb : ∀ k y, P y → P (S.disturb k y.1, y.2)

theorem Stable.keeps {t : τ} {P : Traced τ O σ ι → Prop} (hP : S.Stable admits t P)
    {x y : Traced τ O σ ι} (hx : P x) (h : S.Interference admits t x y) : P y := by
  induction h with
  | refl => exact hx
  | call _ hne ha ih => exact hP.call _ _ _ _ _ hne ha ih
  | start _ hs ih => exact hP.start _ _ _ _ hs ih
  | disturb k _ ih => exact hP.disturb k _ ih

theorem Stable.true (t : τ) : S.Stable admits t fun _ => True :=
  ⟨fun _ _ _ _ _ _ _ _ => trivial, fun _ _ _ _ _ _ => trivial, fun _ _ _ => trivial⟩

theorem Stable.and {t : τ} {P P' : Traced τ O σ ι → Prop} (hP : S.Stable admits t P)
    (hP' : S.Stable admits t P') : S.Stable admits t fun x => P x ∧ P' x where
  call _ _ _ _ _ hne ha hy := ⟨hP.call _ _ _ _ _ hne ha hy.1, hP'.call _ _ _ _ _ hne ha hy.2⟩
  start _ _ _ _ hs hy := ⟨hP.start _ _ _ _ hs hy.1, hP'.start _ _ _ _ hs hy.2⟩
  disturb _ _ hy := ⟨hP.disturb _ _ hy.1, hP'.disturb _ _ hy.2⟩

-- The contract of a thread whose calls are to be checked against `checks`.
def audit (S : System τ ρ κ O Res σ ι ε α) (admits checks : τ → ρ → O → ι → Traced τ O σ ι → Prop)
    (t : τ) (r : ρ) : Contract O (Traced τ O σ ι) ι where
  rely := S.Interference admits t
  assume := admits t r
  guar op i x _ := checks t r op i x

variable {checks : τ → ρ → O → ι → Traced τ O σ ι → Prop}

theorem wp_audit {t : τ} {r : ρ} {op : O} {k : Res op → Program O Res ε' β}
    {Q : Except ε' β → Traced τ O σ ι → Prop} {P : Traced τ O σ ι → Prop} {x : Traced τ O σ ι}
    (hP : S.Stable admits t P) (hx : P x)
    (hcall : ∀ i y, P y → admits t r op i y → checks t r op i y ∧
      (k (S.handler.answer t op i y.1)).wp S.traced t (S.audit admits checks t r) Q
        (S.traced.next t op i y)) :
    (Program.call op k).wp S.traced t (S.audit admits checks t r) Q x :=
  Program.wp_call_of hx (fun _ _ hy hr => hP.keeps hy hr) fun i y hy _ ha => hcall i y hy ha

-- A program all of whose calls pass the check whatever the state.
theorem wp_audit_of_calls {t : τ} {r : ρ} {A : O → Prop} {p : Program O Res ε' β}
    {x : Traced τ O σ ι} (hp : p.Calls A)
    (hA : ∀ op i y, A op → admits t r op i y → checks t r op i y) :
    p.wp S.traced t (S.audit admits checks t r) (fun _ _ => True) x :=
  Program.wp_mono (Program.wp_of_calls (P := fun _ => True) hp trivial (fun _ _ _ _ => trivial)
    fun op i y hop _ _ ha => ⟨hA op i y hop ha, trivial⟩) fun _ _ _ => trivial

theorem wp_undisturbed {t : τ} {r : ρ} {p : Program O Res ε' β} {x y : Traced τ O σ ι}
    (h : p.wp S.traced t (S.audit admits checks t r) (fun _ _ => True) x)
    (hxy : S.Interference admits t x y) :
    p.wp S.traced t (S.audit admits checks t r) (fun _ _ => True) y :=
  Program.wp_stable (fun _ _ _ h h' => h.trans h') h hxy

end System

section Own

-- A thread's own event, after which its own calls are quiet ones.
def Own (t : τ) (P : List (Entry τ O σ ι) → Entry τ O σ ι → Prop) (quiet : O → Prop)
    (h : List (Entry τ O σ ι)) : Prop :=
  Since (fun xs e => e.thread = t ∧ P xs e) (fun g => g.thread = t → quiet g.op) h

variable {S : System τ ρ κ O Res σ ι ε α} {t : τ} {op : O} {i : ι} {x : Traced τ O σ ι}
variable {P P' : List (Entry τ O σ ι) → Entry τ O σ ι → Prop} {quiet quiet' : O → Prop}

theorem Own.here (hP : P x.2 ⟨⟨op, i, x.1, S.handler.next t op i x.1⟩, t⟩) :
    Own t P quiet (S.traced.next t op i x).2 :=
  Since.here ⟨rfl, hP⟩

theorem Own.next (h : Own t P quiet x.2) (hop : quiet op) :
    Own t P quiet (S.traced.next t op i x).2 :=
  Since.append h fun _ => hop

theorem Own.other {t' : τ} (h : Own t P quiet x.2) (hne : t' ≠ t) :
    Own t P quiet (S.traced.next t' op i x).2 :=
  Since.append h fun hthread => absurd hthread hne

theorem Own.mono {h : List (Entry τ O σ ι)} (hown : Own t P quiet h)
    (hP : ∀ xs e, P xs e → P' xs e) (hquiet : ∀ op, quiet op → quiet' op) : Own t P' quiet' h :=
  Since.mono hown (fun xs e he => ⟨he.1, hP xs e he.2⟩) fun g hg hthread => hquiet g.op (hg hthread)

theorem System.own_stable {admits : τ → ρ → O → ι → Traced τ O σ ι → Prop} :
    S.Stable admits t fun x => Own t P quiet x.2 where
  call _ _ _ _ _ hne _ hy := hy.other hne
  start _ _ _ _ _ hy := hy
  disturb _ _ hy := hy

end Own

variable {S : System τ ρ κ O Res σ ι ε α} [DecidableEq τ]
variable {admits checks : τ → ρ → O → ι → Traced τ O σ ι → Prop}

theorem split_append_singleton {es : List β} {P : List β → β → Prop}
    (h : ∀ xs e ys, es = xs ++ e :: ys → P xs e) {e : β} (he : P es e) :
    ∀ xs e' ys, es ++ [e] = xs ++ e' :: ys → P xs e' := by
  intro xs e' ys heq
  rcases eq_append_singleton_cases heq with ⟨-, rfl, rfl⟩ | ⟨zs, -, hes⟩
  · exact he
  · exact h xs e' zs hes

-- In a run whose calls are all admitted, given the history before each, every call passes the
-- check that every body passes on its own.
theorem Run.audited_threads {s : σ} {d : Config τ ρ O Res σ ε α}
    {es : List (ThreadCall τ ρ O σ ι)} (h : Run S (.initial s) es d)
    (hbody : ∀ t r x, (S.body t r).wp S.traced t (S.audit admits checks t r) (fun _ _ => True) x)
    (ha : ∀ xs e ys, es = xs ++ e :: ys →
      admits e.thread e.request e.op e.input (e.pre, xs.map ThreadCall.entry)) :
    (∀ xs e ys, es = xs ++ e :: ys →
      checks e.thread e.request e.op e.input (e.pre, xs.map ThreadCall.entry)) ∧
    ∀ t th, d.threads t = some th →
      th.rest.wp S.traced t (S.audit admits checks t th.request) (fun _ _ => True)
        (d.state, es.map ThreadCall.entry) := by
  induction h with
  | refl => exact ⟨fun xs e ys heq => (by cases xs <;> cases heq), fun t th hth => (by cases hth)⟩
  | @start es d t r s' _ _ hs ih =>
    obtain ⟨hc, hw⟩ := ih ha
    refine ⟨hc, fun t' th hth => ?_⟩
    by_cases htt : t' = t
    · subst htt
      simp only [Config.setThread, Function.update_self, Option.some.injEq] at hth
      subst hth
      exact hbody _ _ _
    · simp only [Config.setThread, Function.update_of_ne htt] at hth
      exact System.wp_undisturbed (hw t' th hth) (.start .refl hs)
  | @call es d t r op k i _ hthread hready ih =>
    obtain ⟨hc, hw⟩ := ih fun xs e ys heq => ha xs e (ys ++ _) (by rw [heq, List.append_assoc]; rfl)
    have hallow := ha es _ [] rfl
    obtain ⟨hcheck, hk⟩ := hw t _ hthread _ .refl hready i hallow
    refine ⟨split_append_singleton hc hcheck, fun t' th hth => ?_⟩
    rw [List.map_append]
    by_cases htt : t' = t
    · subst htt
      simp only [Config.setThread, Function.update_self, Option.some.injEq] at hth
      subst hth
      exact hk
    · simp only [Config.setThread, Function.update_of_ne htt] at hth
      exact System.wp_undisturbed (hw t' th hth) (.call .refl (Ne.symm htt) hallow)
  | @retire es d t th _ _ _ ih =>
    obtain ⟨hc, hw⟩ := ih ha
    refine ⟨hc, fun t' th' hth => ?_⟩
    by_cases htt : t' = t
    · subst htt
      simp [Config.setThread] at hth
    · simp only [Config.setThread, Function.update_of_ne htt] at hth
      exact hw t' th' hth
  | @disturb es d k _ ih =>
    obtain ⟨hc, hw⟩ := ih ha
    refine ⟨hc, fun t' th hth => ?_⟩
    simp only [Config.disturbed] at hth
    split at hth
    · cases hth
    · exact System.wp_undisturbed (hw t' th hth) (.disturb k .refl)

theorem Run.audited {s : σ} {d : Config τ ρ O Res σ ε α} {es : List (ThreadCall τ ρ O σ ι)}
    (h : Run S (.initial s) es d)
    (hbody : ∀ t r x, (S.body t r).wp S.traced t (S.audit admits checks t r) (fun _ _ => True) x)
    (ha : ∀ xs e ys, es = xs ++ e :: ys →
      admits e.thread e.request e.op e.input (e.pre, xs.map ThreadCall.entry)) :
    ∀ xs e ys, es = xs ++ e :: ys →
      checks e.thread e.request e.op e.input (e.pre, xs.map ThreadCall.entry) :=
  (h.audited_threads hbody ha).1

-- An assertion on states and the calls before them, in a run whose calls are all admitted given
-- the calls before each.
theorem Run.history_invariant {P : σ → List (ThreadCall τ ρ O σ ι) → Prop}
    {A : List (ThreadCall τ ρ O σ ι) → ThreadCall τ ρ O σ ι → Prop} {s : σ}
    {d : Config τ ρ O Res σ ε α} {es : List (ThreadCall τ ρ O σ ι)} (h : Run S (.initial s) es d)
    (ha : ∀ xs e ys, es = xs ++ e :: ys → A xs e) (hinit : P s [])
    (hstart : ∀ t r s s' es, P s es → S.start t r s = some s' → P s' es)
    (hdisturb : ∀ k s es, P s es → P (S.disturb k s) es)
    (hcall : ∀ (e : ThreadCall τ ρ O σ ι) es, e.post = S.handler.next e.thread e.op e.input e.pre →
      A es e → P e.pre es → P e.post (es ++ [e])) :
    (∀ xs e ys, es = xs ++ e :: ys → P e.pre xs) ∧ P d.state es := by
  induction h with
  | refl => exact ⟨fun xs e ys heq => (by cases xs <;> cases heq), hinit⟩
  | start _ _ hs ih => exact ⟨(ih ha).1, hstart _ _ _ _ _ (ih ha).2 hs⟩
  | @call es d t r op k i _ _ _ ih =>
    obtain ⟨hpre, hlast⟩ := ih fun xs e ys heq => ha xs e (ys ++ _) (by rw [heq, List.append_assoc]; rfl)
    have hallow := ha es _ [] rfl
    exact ⟨split_append_singleton (P := fun xs e => P e.pre xs) hpre hlast,
      hcall _ es rfl hallow hlast⟩
  | retire _ _ _ ih => exact ih ha
  | disturb k _ ih => exact ⟨(ih ha).1, hdisturb k _ _ (ih ha).2⟩

end Interaction
