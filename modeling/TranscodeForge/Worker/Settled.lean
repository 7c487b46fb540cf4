import TranscodeForge.Async.Ends
import TranscodeForge.Async.Task
import TranscodeForge.Interaction.Sequence

namespace TranscodeForge.Settled

open Async Interaction

variable {τ O : Type} {Res : O → Type} {σ ι ε α : Type} (cancelled : ε)

-- The loop test of `settled` and what follows the loop; `task` is the outcome of the task, if it
-- is done.
def loopTest (task : Option (Except ε α)) (wasCancelled : Bool) : Phase Bool ε α :=
  match task with
  | none => .suspended wasCancelled
  | some (.error e) => .done (.error e)
  | some (.ok a) => .done (if wasCancelled then .error cancelled else .ok a)

-- What the shielded await gives back.
def settled [DecidableEq ε] (task : Option (Except ε α)) (wasCancelled : Bool) :
    Except ε Unit → Phase Bool ε α
  | .ok () => loopTest cancelled task wasCancelled
  | .error e => if e = cancelled then loopTest cancelled task true else .done (.error e)

-- The task that runs the coroutine, and the caller that waits for it.
structure Region (O : Type) (Res : O → Type) (ε α : Type) where
  task : Program O Res ε α
  caller : Task Bool ε α

def Region.enter (coro : Program O Res ε α) (pending : Bool) : Region O Res ε α :=
  ⟨coro, .arrive cancelled (.suspended false) pending⟩

def report (o : Except ε α) : Except ε Unit := o.map fun _ => ()

def Region.resolve (r : Region O Res ε α) : Option (Region O Res ε α) := do
  let o ← r.task.outcome
  let caller ← r.caller.resolve (report o)
  some { r with caller := caller }

def Region.wake [DecidableEq ε] (r : Region O Res ε α) : Option (Region O Res ε α) := do
  let caller ← r.caller.wake cancelled (settled cancelled r.task.outcome)
  some { r with caller := caller }

def Region.cancel (r : Region O Res ε α) : Region O Res ε α :=
  { r with caller := r.caller.cancel cancelled }

variable (H : Handler τ O Res σ ι) (t : τ) (rely : σ → σ → Prop)

-- What the task and the event loop do; the calls made are the label.
inductive Step [DecidableEq ε] :
    List (CallRecord O σ ι) → σ × Region O Res ε α → σ × Region O Res ε α → Prop
  | call {s s₁ : σ} {r : Region O Res ε α} {op : O} {k : Res op → Program O Res ε α} (i : ι) :
      r.task = .call op k → rely s s₁ → H.ready t op s₁ →
      Step [⟨op, i, s₁, H.next t op i s₁⟩] (s, r)
        (H.next t op i s₁, { r with task := k (H.answer t op i s₁) })
  | resolve {s : σ} {r r' : Region O Res ε α} : r.resolve = some r' → Step [] (s, r) (s, r')
  | wake {s : σ} {r r' : Region O Res ε α} : r.wake cancelled = some r' → Step [] (s, r) (s, r')

-- Any interleaving of such steps with cancellations of the caller, and their number.
inductive Run [DecidableEq ε] (coro : Program O Res ε α) (pending : Bool) (s : σ) :
    List (CallRecord O σ ι) → Nat → σ × Region O Res ε α → Prop
  | enter : Run coro pending s [] (if pending then 1 else 0) (s, .enter cancelled coro pending)
  | step {es fs : List (CallRecord O σ ι)} {cancels : Nat} {x x' : σ × Region O Res ε α} :
      Run coro pending s es cancels x → Step cancelled H t rely fs x x' →
      Run coro pending s (es ++ fs) cancels x'
  | cancel {es : List (CallRecord O σ ι)} {cancels : Nat} {s₁ : σ} {r : Region O Res ε α}
      {q : Bool} : Run coro pending s es cancels (s₁, r) → r.caller.phase = .suspended q →
      Run coro pending s es (cancels + 1) (s₁, r.cancel cancelled)

-- What leaves `settled`.
def settledOutcome (cancels : Nat) : Except ε α → Except ε α
  | .error e => .error e
  | .ok a => if 0 < cancels then .error cancelled else .ok a

structure Sound (cancels : Nat) (r : Region O Res ε α) : Prop where
  quiet : ∀ q, r.caller.phase = .suspended q → cancels = 0 → q = false ∧ r.caller.mustCancel = false
  heard : ∀ q, r.caller.phase = .suspended q → 0 < cancels →
    q = true ∨ r.caller.mustCancel = true ∨ r.caller.waiter = some (.error cancelled)
  signal : ∀ q x, r.caller.phase = .suspended q → r.caller.waiter = some x →
    (x = .error cancelled ∧ 0 < cancels) ∨ ∃ o, r.task.outcome = some o ∧ x = report o
  ended : ∀ o, r.caller.phase = .done o →
    ∃ o', r.task.outcome = some o' ∧ o = settledOutcome cancelled cancels o'

section Soundness

variable {cancelled} {H} {t} {rely} {coro : Program O Res ε α} {pending : Bool} {s s' : σ}
  {es : List (CallRecord O σ ι)} {cancels : Nat} {r r' : Region O Res ε α}

theorem resolve_some (h : r.resolve = some r') : ∃ q o, r.caller.phase = .suspended q ∧
    r.caller.waiter = none ∧ r.task.outcome = some o ∧
    r' = { r with caller := { r.caller with waiter := some (report o) } } := by
  obtain ⟨o, ho, h₁⟩ := Option.bind_eq_some_iff.mp h
  obtain ⟨caller, hcaller, heq⟩ := Option.bind_eq_some_iff.mp h₁
  cases heq
  obtain ⟨q, hphase, hwaiter, rfl⟩ := Task.resolve_some hcaller
  exact ⟨q, o, hphase, hwaiter, ho, rfl⟩

theorem wake_some [DecidableEq ε] (h : r.wake cancelled = some r') : ∃ q x, r.caller.phase = .suspended q ∧
    r.caller.waiter = some x ∧
    r' = { r with caller := ⟨settled cancelled r.task.outcome q
      (if r.caller.mustCancel then .error cancelled else x), none, false⟩ } := by
  obtain ⟨caller, hcaller, heq⟩ := Option.bind_eq_some_iff.mp h
  cases heq
  obtain ⟨q, x, hphase, hwaiter, rfl⟩ := Task.wake_some hcaller
  exact ⟨q, x, hphase, hwaiter, rfl⟩

-- A signal that can reach the caller while the task runs is a cancellation.
theorem Sound.cancellation (h : Sound cancelled cancels r) {q : Bool} {x : Except ε Unit}
    (hphase : r.caller.phase = .suspended q) (hwaiter : r.caller.waiter = some x)
    (htask : r.task.outcome = none) : x = .error cancelled ∧ 0 < cancels := by
  rcases h.signal q x hphase hwaiter with hcancel | ⟨o, ho, -⟩
  · exact hcancel
  · rw [htask] at ho
    cases ho

theorem loopTest_cancelled {o : Except ε α} (hpos : 0 < cancels) :
    loopTest cancelled (some o) true = .done (settledOutcome cancelled cancels o) := by
  cases o <;> simp [loopTest, settledOutcome, hpos]

-- Once the task is done, the caller is woken for the last time.
theorem Sound.leaves [DecidableEq ε] (h : Sound cancelled cancels r) {q : Bool}
    {x : Except ε Unit} {o : Except ε α} (hphase : r.caller.phase = .suspended q)
    (hwaiter : r.caller.waiter = some x) (htask : r.task.outcome = some o) :
    settled cancelled (some o) q (if r.caller.mustCancel then .error cancelled else x) =
      .done (settledOutcome cancelled cancels o) := by
  cases hmust : r.caller.mustCancel with
  | true =>
    have hpos : 0 < cancels := by
      by_contra hzero
      have hquiet := (h.quiet q hphase (by omega)).2
      rw [hmust] at hquiet
      cases hquiet
    rw [if_pos rfl, settled, if_pos rfl]
    exact loopTest_cancelled hpos
  | false =>
    rw [if_neg Bool.false_ne_true]
    rcases h.signal q x hphase hwaiter with ⟨rfl, hpos⟩ | ⟨o', ho', rfl⟩
    · rw [settled, if_pos rfl]
      exact loopTest_cancelled hpos
    · obtain rfl : o' = o := Option.some.inj (ho'.symm.trans htask)
      cases o' with
      | error e =>
        simp only [report, Except.map, settled]
        split <;> rfl
      | ok a =>
        simp only [report, Except.map, settled, loopTest, settledOutcome]
        by_cases hzero : cancels = 0
        · rw [(h.quiet q hphase hzero).1, hzero]
          rfl
        · have hpos : 0 < cancels := Nat.pos_of_ne_zero hzero
          rcases h.heard q hphase hpos with hq | hmust' | hwaiter'
          · rw [if_pos hq, if_pos hpos]
          · rw [hmust] at hmust'
            cases hmust'
          · rw [hwaiter] at hwaiter'
            cases hwaiter'

theorem Sound.enter : Sound cancelled (if pending then 1 else 0)
    (Region.enter cancelled coro pending) := by
  cases pending with
  | false =>
    refine ⟨fun q hq _ => ?_, fun _ _ h => (by cases h), fun _ _ _ h => (by cases h),
      fun _ h => (by cases h)⟩
    cases hq
    exact ⟨rfl, rfl⟩
  | true =>
    refine ⟨fun _ _ h => (by cases h), fun _ _ _ => .inr (.inr rfl), fun _ x _ h => ?_,
      fun _ h => (by cases h)⟩
    cases h
    exact .inl ⟨rfl, Nat.one_pos⟩

theorem Sound.call (h : Sound cancelled cancels r) {op : O} {k : Res op → Program O Res ε α}
    (htask : r.task = .call op k) (a : Res op) :
    Sound cancelled cancels { r with task := k a } := by
  have hrunning : r.task.outcome = none := by
    rw [htask]
    rfl
  refine ⟨h.quiet, h.heard, fun q x hphase hwaiter => .inl (h.cancellation hphase hwaiter hrunning),
    fun o hover => ?_⟩
  obtain ⟨o', ho', -⟩ := h.ended o hover
  rw [hrunning] at ho'
  cases ho'

theorem Sound.resolve (h : Sound cancelled cancels r) (hr : r.resolve = some r') :
    Sound cancelled cancels r' := by
  obtain ⟨q, o, hphase, hwaiter, ho, rfl⟩ := resolve_some hr
  refine ⟨h.quiet, fun q' hphase' hpos => ?_, fun q' x _ hx => ?_,
    fun o' hover => ?_⟩
  · rcases h.heard q' hphase' hpos with hq | hmust | hwaiter'
    · exact .inl hq
    · exact .inr (.inl hmust)
    · rw [hwaiter] at hwaiter'
      cases hwaiter'
  · cases hx
    exact .inr ⟨o, ho, rfl⟩
  · rw [hphase] at hover
    cases hover

theorem Sound.cancel (h : Sound cancelled cancels r) {q : Bool}
    (hphase : r.caller.phase = .suspended q) :
    Sound cancelled (cancels + 1) (r.cancel cancelled) := by
  cases hwaiter : r.caller.waiter with
  | none =>
    have hcancel : r.cancel cancelled =
        { r with caller := { r.caller with waiter := some (.error cancelled) } } := by
      simp [Region.cancel, Task.cancel, hphase, hwaiter]
    rw [hcancel]
    refine ⟨fun _ _ h0 => (by omega), fun _ _ _ => .inr (.inr rfl), fun _ x _ hx => ?_,
      fun o hover => ?_⟩
    · cases hx
      exact .inl ⟨rfl, Nat.succ_pos _⟩
    · rw [hphase] at hover
      cases hover
  | some x =>
    have hcancel : r.cancel cancelled =
        { r with caller := { r.caller with mustCancel := true } } := by
      simp [Region.cancel, Task.cancel, hphase, hwaiter]
    rw [hcancel]
    refine ⟨fun _ _ h0 => (by omega), fun _ _ _ => .inr (.inl rfl), fun q' x' hq' hx' => ?_,
      fun o hover => ?_⟩
    · rcases h.signal q' x' hq' hx' with ⟨hcancelled, -⟩ | htask
      · exact .inl ⟨hcancelled, Nat.succ_pos _⟩
      · exact .inr htask
    · rw [hphase] at hover
      cases hover

theorem Sound.wake [DecidableEq ε] (h : Sound cancelled cancels r) (hr : r.wake cancelled = some r') :
    Sound cancelled cancels r' := by
  obtain ⟨q, x, hphase, hwaiter, rfl⟩ := wake_some hr
  cases htask : r.task.outcome with
  | none =>
    obtain ⟨rfl, hpos⟩ := h.cancellation hphase hwaiter htask
    have hsignal : (if r.caller.mustCancel then (.error cancelled : Except ε Unit)
        else .error cancelled) = .error cancelled := ite_self _
    rw [hsignal, settled, if_pos rfl]
    refine ⟨fun _ _ h0 => (by omega), fun q' hq' _ => ?_, fun _ _ _ hx => (by cases hx),
      fun o hover => (by cases hover)⟩
    cases hq'
    exact .inl rfl
  | some o =>
    rw [h.leaves hphase hwaiter htask]
    refine ⟨fun _ hq => (by cases hq), fun _ hq => (by cases hq), fun _ _ hq => (by cases hq),
      fun o' hover => ?_⟩
    cases hover
    exact ⟨o, htask, rfl⟩

theorem Sound.step [DecidableEq ε] {fs : List (CallRecord O σ ι)} {x x' : σ × Region O Res ε α}
    (h : Sound cancelled cancels x.2) (hstep : Step cancelled H t rely fs x x') :
    Sound cancelled cancels x'.2 := by
  cases hstep with
  | call i htask _ _ => exact h.call htask _
  | resolve hr => exact h.resolve hr
  | wake hr => exact h.wake hr

theorem Run.sound [DecidableEq ε] {x : σ × Region O Res ε α}
    (h : Run cancelled H t rely coro pending s es cancels x) : Sound cancelled cancels x.2 := by
  induction h with
  | enter => exact .enter
  | step _ hstep ih => exact ih.step hstep
  | cancel _ hphase ih => exact ih.cancel hphase

theorem Run.exec [DecidableEq ε] {x : σ × Region O Res ε α}
    (h : Run cancelled H t rely coro pending s es cancels x) :
    Exec H t rely coro s es x.2.task x.1 := by
  induction h with
  | enter => exact .refl _ _
  | step _ hstep ih =>
    cases hstep with
    | call i htask hrely hready =>
      simp only [htask] at ih
      exact ih.call i hrely hready
    | resolve hr =>
      obtain ⟨q, o, _, _, _, rfl⟩ := resolve_some hr
      rw [List.append_nil]
      exact ih
    | wake hr =>
      obtain ⟨q, x, _, _, rfl⟩ := wake_some hr
      rw [List.append_nil]
      exact ih
  | cancel _ _ ih => exact ih

end Soundness

section Ending

variable [DecidableEq ε]

def Over (x : σ × Region O Res ε α) : Prop := ∃ o, x.2.caller.phase = .done o

def Steps (x x' : σ × Region O Res ε α) : Prop :=
  ∃ fs : List (CallRecord O σ ι), Step cancelled H t rely fs x x'

variable {cancelled} {H} {t} {rely} {s : σ} {r : Region O Res ε α}

theorem settled_done (o : Except ε α) (q : Bool) (x : Except ε Unit) :
    ∃ o', settled cancelled (some o) q x = .done o' := by
  cases x <;> cases o <;> simp only [settled, loopTest] <;> (try split) <;> exact ⟨_, rfl⟩

theorem ends_signalled {q : Bool} {x : Except ε Unit} {o : Except ε α}
    (htask : r.task.outcome = some o) (hphase : r.caller.phase = .suspended q)
    (hwaiter : r.caller.waiter = some x) :
    Ends (Steps cancelled H t rely) Over (s, r) := by
  have hwake : r.wake cancelled = some ⟨r.task, ⟨settled cancelled r.task.outcome q
      (if r.caller.mustCancel then .error cancelled else x), none, false⟩⟩ := by
    simp [Region.wake, Task.wake, hphase, hwaiter]
  apply Ends.later
  · exact ⟨_, [], .wake hwake⟩
  · rintro x' ⟨fs, hstep⟩
    cases hstep with
    | call i hcall _ _ =>
      rw [hcall] at htask
      cases htask
    | resolve hr =>
      obtain ⟨_, _, _, hnone, _, _⟩ := resolve_some hr
      rw [hwaiter] at hnone
      cases hnone
    | wake hr =>
      obtain ⟨q', x', _, _, rfl⟩ := wake_some hr
      apply Ends.now
      rw [htask]
      exact settled_done o q' _

theorem ends_settled {o : Except ε α} (htask : r.task.outcome = some o) :
    Ends (Steps cancelled H t rely) Over (s, r) := by
  cases hphase : r.caller.phase with
  | done o' => exact .now ⟨o', hphase⟩
  | suspended q =>
    cases hwaiter : r.caller.waiter with
    | some x => exact ends_signalled htask hphase hwaiter
    | none =>
      have hresolve : r.resolve =
          some { r with caller := { r.caller with waiter := some (report o) } } := by
        simp [Region.resolve, Task.resolve, htask, hphase, hwaiter]
      apply Ends.later
      · exact ⟨_, [], .resolve hresolve⟩
      · rintro x' ⟨fs, hstep⟩
        cases hstep with
        | call i hcall _ _ =>
          rw [hcall] at htask
          cases htask
        | resolve hr =>
          obtain ⟨q', o', hq', _, _, rfl⟩ := resolve_some hr
          exact ends_signalled htask hq' rfl
        | wake hr =>
          obtain ⟨_, _, _, hsome, _⟩ := wake_some hr
          rw [hwaiter] at hsome
          cases hsome

-- The induction is on what is left of the coroutine; a wake in between ends the wait for a
-- cancellation and does not touch the task.
theorem ends [Inhabited ι] (hrefl : ∀ s, rely s s) (hready : ∀ op s, H.ready t op s)
    (s : σ) (r : Region O Res ε α) : Ends (Steps cancelled H t rely) Over (s, r) := by
  obtain ⟨p, caller⟩ := r
  induction p generalizing s caller with
  | ret a => exact ends_settled (o := .ok a) rfl
  | raise e => exact ends_settled (o := .error e) rfl
  | call op k ih =>
    have hcall : ∀ s caller, ∃ x, Steps cancelled H t rely
        (s, (⟨.call op k, caller⟩ : Region O Res ε α)) x :=
      fun s caller => ⟨_, _, .call default rfl (hrefl s) (hready op s)⟩
    have hwaiting : ∀ s caller, caller.waiter = none → Ends (Steps cancelled H t rely) Over
        (s, (⟨.call op k, caller⟩ : Region O Res ε α)) := by
      intro s caller hwaiter
      apply Ends.later (hcall s caller)
      rintro x ⟨fs, hstep⟩
      cases hstep with
      | call i htask _ _ =>
        cases htask
        exact ih _ _ _
      | resolve hr =>
        obtain ⟨_, o, _, _, ho, _⟩ := resolve_some hr
        cases ho
      | wake hr =>
        obtain ⟨_, _, _, hsome, _⟩ := wake_some hr
        rw [hwaiter] at hsome
        cases hsome
    apply Ends.later (hcall s caller)
    rintro x ⟨fs, hstep⟩
    cases hstep with
    | call i htask _ _ =>
      cases htask
      exact ih _ _ _
    | resolve hr =>
      obtain ⟨_, o, _, _, ho, _⟩ := resolve_some hr
      cases ho
    | wake hr =>
      obtain ⟨_, _, _, _, rfl⟩ := wake_some hr
      exact hwaiting _ _ rfl

end Ending

end TranscodeForge.Settled
