import TranscodeForge.Scheduler.WellFormed

namespace TranscodeForge.Scheduler

open Relational Interaction Store

def Store.later (s : Store) (n : Nat) : Store := { s with now := s.now + n }

def Later (s s' : Store) : Prop := ∃ n, s' = s.later n

theorem Later.refl (s : Store) : Later s s := ⟨0, rfl⟩

theorem Later.trans {s₁ s₂ s₃ : Store} (h : Later s₁ s₂) (h' : Later s₂ s₃) : Later s₁ s₃ := by
  obtain ⟨n, rfl⟩ := h
  obtain ⟨k, rfl⟩ := h'
  exact ⟨n + k, by simp only [Store.later, Nat.add_assoc]⟩

-- A request that is served while no other one is: between its statements only time passes.
def clock {O : Type} : Contract O Store Unit where
  rely := Later
  assume _ _ _ := True
  guar _ _ _ _ := True

def Timeless (P : Store → Prop) : Prop := ∀ s n, P s → P (s.later n)

theorem Timeless.keeps {P : Store → Prop} (hP : Timeless P) (s s' : Store) (hs : P s)
    (h : Later s s') : P s' := by
  obtain ⟨n, rfl⟩ := h
  exact hP s n hs

structure Service where
  request : Request
  pre : Store
  post : Store

-- Operations that run one after another, each to its end.
inductive Serial (mode : Isolation) (s : Store) : List Service → Store → Prop
  | refl : Serial mode s [] s
  | serve {xs : List Service} {r : Request} {s₁ s₂ s₃ : Store} {es : List (CallRecord Op Store Unit)}
      {p : Route Response} :
      Serial mode s xs s₁ → Later s₁ s₂ → (scheduler mode).start 0 r s₂ = some s₂ →
      Exec handler 0 Later (r.body mode) s₂ es p s₃ → p.outcome.isSome = true →
      Serial mode s (xs ++ [⟨r, s₂, s₃⟩]) s₃

theorem exec_post {t : Nat} {ε α : Type} {p p' : Program Op Op.Answer ε α} {s s' : Store}
    {es : List (CallRecord Op Store Unit)} {Q : Except ε α → Store → Prop}
    (h : Exec handler t Later p s es p' s') (hp : p.wp handler t clock Q s)
    (hdone : p'.outcome.isSome = true) : ∃ o, Q o s' := by
  obtain ⟨o, ho⟩ := Option.isSome_iff_exists.mp hdone
  exact ⟨o, Exec.outcome_post (C := clock) h hp (fun _ _ => trivial) ho⟩

section Rules

variable {O : Type} {Res : O → Type} {H : Handler Nat O Res Store Unit} {t : Nat} {ε α β : Type}

theorem wp_clock {op : O} {k : Res op → Program O Res ε α} {Q : Except ε α → Store → Prop}
    {P : Store → Prop} {s : Store} (hP : Timeless P) (hs : P s)
    (hcall : ∀ s, P s → (k (H.answer t op () s)).wp H t clock Q (H.next t op () s)) :
    (Program.call op k).wp H t clock Q s :=
  Program.wp_call_of hs hP.keeps fun _ s hs _ _ => ⟨trivial, hcall s hs⟩

theorem wp_clock_of_calls {A : O → Prop} {p : Program O Res ε α} {P : Store → Prop} {s : Store}
    (hP : Timeless P) (hs : P s) (hp : p.Calls A)
    (hcall : ∀ op s, A op → P s → P (H.next t op () s)) :
    p.wp H t clock (fun _ s => P s) s :=
  Program.wp_of_calls hp hs hP.keeps fun op _ s hop hs _ _ => ⟨trivial, hcall op s hop hs⟩

end Rules

section Transactions

def statements : Handler Nat Statement Statement.Answer Store Unit where
  exec _ q _ s := q.exec s

variable {t : Nat} {α : Type} {Q : α → Store → Prop} {s : Store}

abbrev Block.Triple (p : Block α) (Q : α → Store → Prop) (s : Store) : Prop :=
  p.wp statements 0 clock (fun o s => ∀ a, o = .ok a → Q a s) s

theorem interleaved_wp {p : Block α} (h : p.Triple Q s) :
    (Block.interleaved p : Route α).wp handler t clock (fun o s => ∃ a, o = .ok a ∧ Q a s) s := by
  induction p generalizing s with
  | ret a => exact ⟨a, rfl, h a rfl⟩
  | raise e => exact e.elim
  | call q k ih =>
    intro s' hr hready i ha
    exact ⟨trivial, ih _ (h s' hr hready i ha).2⟩

theorem commit_post {p : Block α} (h : p.Triple Q s) :
    Q (Block.commit p s).2 (Block.commit p s).1 := by
  induction p generalizing s with
  | ret a => exact h a rfl
  | raise e => exact e.elim
  | call q k ih => exact ih _ (h s (Later.refl s) rfl () trivial).2

theorem reportTransaction_wp {mode : Isolation} {p : Block Bool} {Q : Bool → Store → Prop}
    (h : ∀ s', Later s s' → p.Triple Q s') :
    (reportTransaction mode p).wp handler t clock (fun o s => ∃ a, o = .ok a ∧ Q a s) s := by
  cases mode with
  | isolated =>
    intro s' hr _ i _
    exact ⟨trivial, _, rfl, commit_post (h s' hr)⟩
  | shared => exact interleaved_wp (h s (Later.refl s))

theorem batchTransaction_wp {mode : Isolation} {p : Block (Nat × Nat)}
    {Q : Nat × Nat → Store → Prop} (h : ∀ s', Later s s' → p.Triple Q s') :
    (batchTransaction mode p).wp handler t clock (fun o s => ∃ a, o = .ok a ∧ Q a s) s := by
  cases mode with
  | isolated =>
    intro s' hr _ i _
    exact ⟨trivial, _, rfl, commit_post (h s' hr)⟩
  | shared => exact interleaved_wp (h s (Later.refl s))

end Transactions

section Samples

variable {mode : Isolation}

-- Serving one request with the given number of calls, and no time passing.
def served (mode : Isolation) (s : Store) (r : Request) (n : Nat) : Option Store := do
  if r.token?.all fun token => s.findActive token.tokenHash = some token then
    let (_, p, s') ← (r.body mode).drive handler 0 (List.replicate n ()) s
    if p.outcome.isSome then some s' else none
  else none

def serveAll (mode : Isolation) : Store → List (Request × Nat) → Option (List Service × Store)
  | s, [] => some ([], s)
  | s, (r, n) :: rest => do
    let s' ← served mode s r n
    let (xs, s'') ← serveAll mode s' rest
    some (⟨r, s, s'⟩ :: xs, s'')

theorem Serial.served {s s₁ s₂ : Store} {xs : List Service} {r : Request} {n : Nat}
    (h : Serial mode s xs s₁) (hserved : Scheduler.served mode s₁ r n = some s₂) :
    Serial mode s (xs ++ [⟨r, s₁, s₂⟩]) s₂ := by
  rw [Scheduler.served] at hserved
  split at hserved
  · next htoken =>
    obtain ⟨⟨es, p, s'⟩, hdrive, hdone⟩ := Option.bind_eq_some_iff.mp hserved
    dsimp only at hdone
    split at hdone
    · next houtcome =>
      cases hdone
      refine h.serve (Later.refl s₁) ?_ (Exec.drive Later.refl hdrive) houtcome
      simp only [scheduler]
      exact if_pos htoken
    · cases hdone
  · cases hserved

theorem Serial.serveAll {s s₁ s₂ : Store} {xs ys : List Service} {l : List (Request × Nat)}
    (h : Serial mode s xs s₁) (hl : Scheduler.serveAll mode s₁ l = some (ys, s₂)) :
    Serial mode s (xs ++ ys) s₂ := by
  induction l generalizing s₁ xs ys with
  | nil =>
    cases hl
    simpa using h
  | cons x rest ih =>
    obtain ⟨s', hserved, hrest⟩ := Option.bind_eq_some_iff.mp hl
    obtain ⟨⟨zs, s''⟩, hall, heq⟩ := Option.bind_eq_some_iff.mp hrest
    cases heq
    rw [List.append_cons]
    exact ih (h.served hserved) hall

theorem serveAll_serial {s : Store} {l : List (Request × Nat)} {p : List Service × Store}
    (h : Scheduler.serveAll mode s l = some p) : Serial mode s p.1 p.2 :=
  Serial.serveAll .refl h

end Samples

end TranscodeForge.Scheduler
