import TranscodeForge.Worker.Ownership
import TranscodeForge.Worker.Settled

namespace TranscodeForge.Release

open Async Interaction SourcePath Ownership

abbrev Region := Settled.Region Call Call.Answer Failure Unit

-- The loop of `_beat` has no end but an exception.
inductive Heartbeat where
  | asleep (task : Task Bool Failure Unit)
  | refreshing (region : Region)
  | ended (e : Failure)

-- The first step of the task comes to the sleep, the next one leaves it.
def sleep : Bool → Except Failure Unit → Phase Bool Failure Unit
  | _, .error e => .done (.error e)
  | false, .ok () => .suspended true
  | true, .ok () => .done (.ok ())

namespace Heartbeat

variable (refresh : Worker Unit)

def created : Heartbeat := .asleep ⟨.suspended false, some (.ok ()), false⟩

def slept (task : Task Bool Failure Unit) : Heartbeat :=
  match task.phase with
  | .suspended _ => .asleep task
  | .done (.ok ()) => .refreshing (.enter .cancelled refresh false)
  | .done (.error e) => .ended e

def refreshed (region : Region) : Heartbeat :=
  match region.caller.phase with
  | .suspended _ => .refreshing region
  | .done (.ok ()) => .asleep ⟨.suspended true, none, false⟩
  | .done (.error e) => .ended e

def cancel : Heartbeat → Heartbeat
  | .asleep task => .asleep (task.cancel .cancelled)
  | .refreshing region => .refreshing (region.cancel .cancelled)
  | .ended e => .ended e

def Over (heartbeat : Heartbeat) : Prop := ∃ e, heartbeat = .ended e

end Heartbeat

-- `release` is what is left of `_settle`, once it has begun by cancelling the heartbeat.
structure Exit where
  heartbeat : Heartbeat
  release : Option (Worker Unit)

-- `_settle` awaits the heartbeat before anything else.
def Exit.Ready (x : Exit) (c : Call) : Prop := c.action = .stopHeartbeat → x.heartbeat.Over

variable {σ ι : Type} (H : Handler Actor Call Call.Answer σ ι) (rely : σ → σ → Prop)
  (own : SourceOwnership) (refresh : Worker Unit)

-- `refresh` is what one round of the heartbeat runs as a settled unit.
inductive Step : List (Role × CallRecord Call σ ι) → σ × Exit → σ × Exit → Prop
  | timer {s : σ} {x : Exit} {task task' : Task Bool Failure Unit} :
      x.heartbeat = .asleep task → task.resolve (.ok ()) = some task' →
      Step [] (s, x) (s, { x with heartbeat := .asleep task' })
  | rouse {s : σ} {x : Exit} {task task' : Task Bool Failure Unit} :
      x.heartbeat = .asleep task → task.wake .cancelled sleep = some task' →
      Step [] (s, x) (s, { x with heartbeat := .slept refresh task' })
  | beat {s s' : σ} {x : Exit} {region region' : Region} {es : List (CallRecord Call σ ι)} :
      x.heartbeat = .refreshing region →
      Settled.Step .cancelled H ⟨own.workerId, .heartbeat⟩ rely es (s, region) (s', region') →
      Step (es.map fun e => (.heartbeat, e)) (s, x) (s', { x with heartbeat := .refreshed region' })
  | begin {s : σ} {x : Exit} : x.release = none →
      Step [] (s, x) (s, ⟨x.heartbeat.cancel, some (settle own)⟩)
  | release {s s₁ : σ} {x : Exit} {c : Call} {k : c.Answer → Worker Unit} (i : ι) :
      x.release = some (.call c k) → x.Ready c → rely s s₁ →
      Step [(.main, ⟨c, i, s₁, H.next ⟨own.workerId, .main⟩ c i s₁⟩)] (s, x)
        (H.next ⟨own.workerId, .main⟩ c i s₁,
          { x with release := some (k (H.answer ⟨own.workerId, .main⟩ c i s₁)) })

-- From the moment `__aenter__` has started the heartbeat.
inductive Run (s : σ) : List (Role × CallRecord Call σ ι) → σ × Exit → Prop
  | enter : Run s [] (s, ⟨.created, none⟩)
  | step {es fs : List (Role × CallRecord Call σ ι)} {x x' : σ × Exit} :
      Run s es x → Step H rely own refresh fs x x' → Run s (es ++ fs) x'

def Steps (x x' : σ × Exit) : Prop := ∃ fs, Step H rely own refresh fs x x'

def Released (x : σ × Exit) : Prop := ∃ p o, x.2.release = some p ∧ p.outcome = some o

namespace Heartbeat

-- `cancels` counts the cancellations that reached the settled region under way.
def Beating : Heartbeat → Prop
  | .asleep task => ∃ q, task.phase = .suspended q
  | .refreshing region => (∃ q, region.caller.phase = .suspended q) ∧
      ∃ cancels, Settled.Sound .cancelled cancels region
  | .ended _ => True

-- A cancellation is on its way.
def Doomed : Heartbeat → Prop
  | .asleep task => ∃ q x, task.phase = .suspended q ∧ task.waiter = some x ∧
      (x = .error .cancelled ∨ task.mustCancel = true)
  | .refreshing region => (∃ q, region.caller.phase = .suspended q) ∧
      ∃ cancels, 0 < cancels ∧ Settled.Sound .cancelled cancels region
  | .ended _ => True

theorem Doomed.beating {heartbeat : Heartbeat} (h : heartbeat.Doomed) : heartbeat.Beating := by
  cases heartbeat with
  | asleep task =>
    obtain ⟨q, _, hphase, _⟩ := h
    exact ⟨q, hphase⟩
  | refreshing region =>
    obtain ⟨hphase, cancels, _, hsound⟩ := h
    exact ⟨hphase, cancels, hsound⟩
  | ended e => trivial

variable {refresh : Worker Unit} {heartbeat : Heartbeat} {task task' : Task Bool Failure Unit}
  {region : Region}

theorem beating_cancel (h : heartbeat.Beating) : heartbeat.cancel.Doomed := by
  cases heartbeat with
  | asleep task =>
    obtain ⟨q, hphase⟩ := h
    cases hwaiter : task.waiter with
    | none =>
      have hcancel : task.cancel .cancelled = { task with waiter := some (.error .cancelled) } := by
        simp [Task.cancel, hphase, hwaiter]
      rw [cancel, hcancel]
      exact ⟨q, _, hphase, rfl, .inl rfl⟩
    | some x =>
      have hcancel : task.cancel .cancelled = { task with mustCancel := true } := by
        simp [Task.cancel, hphase, hwaiter]
      rw [cancel, hcancel]
      exact ⟨q, x, hphase, hwaiter, .inr rfl⟩
  | refreshing region =>
    obtain ⟨⟨q, hphase⟩, cancels, hsound⟩ := h
    have hstill : (region.cancel .cancelled).caller.phase = .suspended q := by
      cases hwaiter : region.caller.waiter <;>
        simp [Settled.Region.cancel, Task.cancel, hphase, hwaiter]
    exact ⟨⟨q, hstill⟩, cancels + 1, Nat.succ_pos _, hsound.cancel hphase⟩
  | ended e => trivial

theorem slept_beating (h : task.wake .cancelled sleep = some task') :
    (slept refresh task').Beating := by
  obtain ⟨q, x, _, _, rfl⟩ := Task.wake_some h
  generalize (if task.mustCancel then Except.error Failure.cancelled else x) = signal
  rcases signal with e | _
  · cases q <;> trivial
  · cases q with
    | false => exact ⟨true, rfl⟩
    | true =>
      have hsound : Settled.Sound .cancelled (if false then 1 else 0)
          (Settled.Region.enter .cancelled refresh false) := .enter
      exact ⟨⟨false, rfl⟩, _, hsound⟩

theorem slept_doomed (hdoomed : (asleep task).Doomed) (h : task.wake .cancelled sleep = some task') :
    slept refresh task' = .ended .cancelled := by
  obtain ⟨_, x, _, hwaiter, hcause⟩ := hdoomed
  obtain ⟨q, x', _, hwaiter', rfl⟩ := Task.wake_some h
  obtain rfl : x = x' := Option.some.inj (hwaiter.symm.trans hwaiter')
  rcases hcause with rfl | hmust
  · cases q <;> simp [slept, sleep]
  · cases q <;> simp [slept, sleep, hmust]

theorem refreshed_beating {cancels : Nat} (h : Settled.Sound .cancelled cancels region) :
    (refreshed region).Beating := by
  unfold refreshed
  split
  · next q hphase => exact ⟨⟨q, hphase⟩, cancels, h⟩
  · exact ⟨true, rfl⟩
  · trivial

-- What leaves the region is an exception: that of the refresh, or else the cancellation.
theorem refreshed_over {cancels : Nat} (h : Settled.Sound .cancelled cancels region)
    (hpos : 0 < cancels) (hover : ∃ o, region.caller.phase = .done o) : (refreshed region).Over := by
  obtain ⟨o, hdone⟩ := hover
  obtain ⟨o', -, rfl⟩ := h.ended o hdone
  cases o' with
  | error e =>
    refine ⟨e, ?_⟩
    simp only [refreshed, hdone, Settled.settledOutcome]
  | ok a =>
    refine ⟨.cancelled, ?_⟩
    simp only [refreshed, hdone, Settled.settledOutcome, if_pos hpos]

theorem refreshed_doomed {cancels : Nat} (h : Settled.Sound .cancelled cancels region)
    (hpos : 0 < cancels) : (refreshed region).Doomed := by
  cases hphase : region.caller.phase with
  | suspended q =>
    have hsame : refreshed region = .refreshing region := by simp only [refreshed, hphase]
    rw [hsame]
    exact ⟨⟨q, hphase⟩, cancels, hpos, h⟩
  | done o =>
    obtain ⟨e, hended⟩ := refreshed_over h hpos ⟨o, hphase⟩
    rw [hended]
    trivial

end Heartbeat

theorem refreshed_running {region : Region} (h : ¬∃ o, region.caller.phase = .done o) :
    Heartbeat.refreshed region = .refreshing region := by
  cases hphase : region.caller.phase with
  | suspended q => simp only [Heartbeat.refreshed, hphase]
  | done o => exact (h ⟨o, hphase⟩).elim

structure Formed (x : Exit) : Prop where
  beating : x.heartbeat.Beating
  doomed : ∀ p, x.release = some p → x.heartbeat.Doomed
  waits : ∀ p, x.release = some p → p = settle own ∨ x.heartbeat.Over

variable {H} {rely} {own} {refresh} {s : σ} {x x' : σ × Exit}
  {es fs : List (Role × CallRecord Call σ ι)}

theorem not_over_asleep {task : Task Bool Failure Unit} : ¬(Heartbeat.asleep task).Over := nofun

theorem not_over_refreshing {region : Region} : ¬(Heartbeat.refreshing region).Over := nofun

-- Whatever call the release is about to make, it has awaited the heartbeat.
theorem Formed.awaited {e : Exit} (h : Formed own e) {c : Call} {k : c.Answer → Worker Unit}
    (hrelease : e.release = some (.call c k)) (hready : e.Ready c) : e.heartbeat.Over := by
  rcases h.waits _ hrelease with hsettle | hover
  · injection hsettle with hcall
    exact hready (by rw [hcall])
  · exact hover

theorem Formed.step (h : Formed own x.2) (hstep : Step H rely own refresh fs x x') :
    Formed own x'.2 := by
  cases hstep with
  | @timer s x task task' hasleep hresolve =>
    obtain ⟨q, hphase, hwaiter, rfl⟩ := Task.resolve_some hresolve
    refine ⟨⟨q, hphase⟩, fun p hp => ?_, fun p hp => .inl ?_⟩
    · obtain ⟨_, _, _, hsome, _⟩ := hasleep ▸ h.doomed p hp
      rw [hwaiter] at hsome
      cases hsome
    · exact (h.waits p hp).resolve_right (hasleep ▸ not_over_asleep)
  | rouse hasleep hwake =>
    refine ⟨Heartbeat.slept_beating hwake, fun p hp => ?_, fun p hp => .inr ⟨.cancelled, ?_⟩⟩
    · rw [Heartbeat.slept_doomed (hasleep ▸ h.doomed p hp) hwake]
      trivial
    · exact Heartbeat.slept_doomed (hasleep ▸ h.doomed p hp) hwake
  | @beat s s' x region region' es hrefreshing hregion =>
    obtain ⟨-, cancels, hsound⟩ := hrefreshing ▸ h.beating
    refine ⟨Heartbeat.refreshed_beating (hsound.step hregion), fun p hp => ?_, fun p hp => .inl ?_⟩
    · obtain ⟨-, cancels, hpos, hsound⟩ := hrefreshing ▸ h.doomed p hp
      exact Heartbeat.refreshed_doomed (hsound.step hregion) hpos
    · exact (h.waits p hp).resolve_right (hrefreshing ▸ not_over_refreshing)
  | begin hnone =>
    have hdoomed := Heartbeat.beating_cancel h.beating
    refine ⟨hdoomed.beating, fun _ _ => hdoomed, fun p hp => .inl (Option.some.inj hp).symm⟩
  | @release s s₁ x c k i hrelease hready hrely =>
    exact ⟨h.beating, fun _ _ => h.doomed _ hrelease, fun _ _ => .inr (h.awaited hrelease hready)⟩

theorem Run.formed (h : Run H rely own refresh s es x) : Formed own x.2 := by
  induction h with
  | enter => exact ⟨⟨false, rfl⟩, fun _ hp => (by cases hp), fun _ hp => (by cases hp)⟩
  | step _ hstep ih => exact ih.step hstep

-- A call of the release finds the heartbeat over, and over it stays.
theorem Run.ordered (h : Run H rely own refresh s es x) :
    es.Pairwise (fun e e' => e.1 = .main → e'.1 = .main) ∧
      ((∃ e ∈ es, e.1 = .main) → x.2.heartbeat.Over) := by
  induction h with
  | enter => exact ⟨.nil, fun ⟨_, he, _⟩ => (by cases he)⟩
  | @step es fs x x' hrun hstep ih =>
    obtain ⟨hordered, hover⟩ := ih
    cases hstep with
    | timer hasleep _ =>
      rw [List.append_nil]
      exact ⟨hordered, fun hmain => (not_over_asleep (hasleep ▸ hover hmain)).elim⟩
    | rouse hasleep _ =>
      rw [List.append_nil]
      exact ⟨hordered, fun hmain => (not_over_asleep (hasleep ▸ hover hmain)).elim⟩
    | @beat s s' x region region' gs hrefreshing hregion =>
      have hnone : ¬∃ e ∈ es, e.1 = Role.main := fun hmain =>
        not_over_refreshing (hrefreshing ▸ hover hmain)
      have hbeats : ∀ e ∈ gs.map (fun e => (Role.heartbeat, e)), e.1 = .heartbeat := by
        intro e he
        obtain ⟨_, _, rfl⟩ := List.mem_map.mp he
        rfl
      refine ⟨List.pairwise_append.mpr ⟨hordered, ?_, ?_⟩, ?_⟩
      · exact List.pairwise_of_forall_mem_list fun e he _ _ hmain => by
          rw [hbeats e he] at hmain
          cases hmain
      · exact fun e he _ _ hmain => (hnone ⟨e, he, hmain⟩).elim
      · rintro ⟨e, he, hmain⟩
        rcases List.mem_append.mp he with he | he
        · exact (hnone ⟨e, he, hmain⟩).elim
        · rw [hbeats e he] at hmain
          cases hmain
    | begin _ =>
      rw [List.append_nil]
      refine ⟨hordered, fun hmain => ?_⟩
      obtain ⟨e, hended⟩ := hover hmain
      exact ⟨e, by rw [hended]; rfl⟩
    | @release s s₁ x c k i hrelease hready hrely =>
      refine ⟨List.pairwise_append.mpr ⟨hordered, List.pairwise_singleton _ _, ?_⟩, fun _ =>
        hrun.formed.awaited hrelease hready⟩
      rintro _ _ e he _
      rw [List.mem_singleton.mp he]

section Ending

variable [Inhabited ι]

-- Once the heartbeat is over only the release is left to run.
theorem ends_over (hrefl : ∀ s, rely s s) {f : Failure} (p : Worker Unit) (s : σ) :
    Ends (Steps H rely own refresh) Released (s, ⟨.ended f, some p⟩) := by
  induction p generalizing s with
  | ret a => exact .now ⟨_, _, rfl, rfl⟩
  | raise e => exact .now ⟨_, _, rfl, rfl⟩
  | call c k ih =>
    apply Ends.later
    · exact ⟨_, _, .release default rfl (fun _ => ⟨f, rfl⟩) (hrefl s)⟩
    · rintro x' ⟨fs, hstep⟩
      cases hstep with
      | timer hasleep _ => cases hasleep
      | rouse hasleep _ => cases hasleep
      | beat hrefreshing _ => cases hrefreshing
      | begin hnone => cases hnone
      | release i hrelease _ _ =>
        cases hrelease
        exact ih _ _

-- A doomed heartbeat asleep is woken by the cancellation.
theorem ends_asleep (hrefl : ∀ s, rely s s) {task : Task Bool Failure Unit}
    (hdoomed : (Heartbeat.asleep task).Doomed) (s : σ) :
    Ends (Steps H rely own refresh) Released (s, ⟨.asleep task, some (settle own)⟩) := by
  obtain ⟨q, x, hphase, hwaiter, _⟩ := id hdoomed
  have hwake : task.wake .cancelled sleep =
      some ⟨sleep q (if task.mustCancel then .error .cancelled else x), none, false⟩ := by
    simp [Task.wake, hphase, hwaiter]
  apply Ends.later
  · exact ⟨_, _, .rouse rfl hwake⟩
  · rintro x' ⟨fs, hstep⟩
    cases hstep with
    | timer hasleep hresolve =>
      cases hasleep
      obtain ⟨_, _, hnone, _⟩ := Task.resolve_some hresolve
      rw [hwaiter] at hnone
      cases hnone
    | rouse hasleep hwoken =>
      cases hasleep
      rw [Heartbeat.slept_doomed hdoomed hwoken]
      exact ends_over hrefl _ _
    | beat hrefreshing _ => cases hrefreshing
    | begin hnone => cases hnone
    | release i hrelease hready _ =>
      cases hrelease
      exact (not_over_asleep (hready rfl)).elim

-- A doomed heartbeat that refreshes the lock ends when its settled region does.
theorem ends_refreshing (hrefl : ∀ s, rely s s) (hready : ∀ a c s, H.ready a c s) {region : Region}
    (hdoomed : (Heartbeat.refreshing region).Doomed) (s : σ) :
    Ends (Steps H rely own refresh) Released (s, ⟨.refreshing region, some (settle own)⟩) := by
  obtain ⟨⟨q, hphase⟩, cancels, hpos, hsound⟩ := hdoomed
  have hregion : Ends (Settled.Steps .cancelled H ⟨own.workerId, .heartbeat⟩ rely) Settled.Over
      (s, region) := Settled.ends hrefl (fun c s => hready _ c s) s region
  refine hregion.simulate (fun y x => x = (y.1, ⟨.refreshed y.2, some (settle own)⟩) ∧
    Settled.Sound .cancelled cancels y.2) ⟨?_, hsound⟩ ?_ ?_ ?_
  · simp only [Heartbeat.refreshed, hphase]
  · rintro y x ⟨rfl, hsound⟩ hover
    obtain ⟨f, hended⟩ := Heartbeat.refreshed_over hsound hpos hover
    rw [hended]
    exact ends_over hrefl _ _
  · rintro y x ⟨rfl, hsound⟩ hnot y' ⟨fs, hstep⟩
    exact ⟨_, _, .beat (refreshed_running hnot) hstep⟩
  · rintro y x ⟨rfl, hsound⟩ hnot x' ⟨fs, hstep⟩
    rw [refreshed_running hnot] at hstep
    cases hstep with
    | timer hasleep _ => cases hasleep
    | rouse hasleep _ => cases hasleep
    | beat hrefreshing hbeat =>
      cases hrefreshing
      exact ⟨_, ⟨_, hbeat⟩, rfl, hsound.step hbeat⟩
    | begin hnone => cases hnone
    | release i hrelease hawaits _ =>
      cases hrelease
      exact (not_over_refreshing (hawaits rfl)).elim

theorem Formed.ends (hrefl : ∀ s, rely s s) (hready : ∀ a c s, H.ready a c s) {e : Exit}
    (h : Formed own e) {p : Worker Unit} (hbegun : e.release = some p) (s : σ) :
    Ends (Steps H rely own refresh) Released (s, e) := by
  obtain ⟨heartbeat, release⟩ := e
  cases hbegun
  rcases h.waits p rfl with rfl | ⟨f, hended⟩
  · have hdoomed : heartbeat.Doomed := h.doomed _ rfl
    cases heartbeat with
    | asleep task => exact ends_asleep hrefl hdoomed s
    | refreshing region => exact ends_refreshing hrefl hready hdoomed s
    | ended f => exact ends_over hrefl _ s
  · cases hended
    exact ends_over hrefl p s

end Ending

-- What a coroutine does, a refresh included, is not constrained anywhere; in the order of the
-- calls the deletion of the lock is one of the release's.
theorem settled_exact {τ O : Type} {Res : O → Type} {σ ι ε α : Type} [DecidableEq ε] [Inhabited ι]
    (cancelled : ε) (H : Handler τ O Res σ ι) (t : τ) (rely : σ → σ → Prop)
    (coro : Program O Res ε α) :
    (∀ pending s es cancels x, Settled.Run cancelled H t rely coro pending s es cancels x →
      (∀ o, x.2.caller.phase = .done o → Exec H t rely coro s es x.2.task x.1 ∧
        ∃ o', x.2.task.outcome = some o' ∧
          o = match o' with
            | .error e => .error e
            | .ok a => if 0 < cancels then .error cancelled else .ok a) ∧
      ((∀ s, rely s s) → (∀ op s, H.ready t op s) →
        Ends (Settled.Steps cancelled H t rely) Settled.Over x)) ∧
    ∀ {ω κ : Type} [Inhabited κ] (G : Handler Actor Call Call.Answer ω κ) (rely : ω → ω → Prop)
      (own : SourceOwnership) (refresh : Worker Unit) s es x, Run G rely own refresh s es x →
      es.Pairwise (fun e e' => e.1 = .main → e'.1 = .main) ∧
      ((∀ s, rely s s) → (∀ a c s, G.ready a c s) → ∀ p, x.2.release = some p →
        Ends (Steps G rely own refresh) Released x) := by
  constructor
  · intro pending s es cancels x hrun
    refine ⟨fun o hdone => ⟨hrun.exec, ?_⟩, fun hrefl hready => Settled.ends hrefl hready _ _⟩
    obtain ⟨o', ho', rfl⟩ := hrun.sound.ended o hdone
    exact ⟨o', ho', by cases o' <;> rfl⟩
  · intro ω κ _ G rely own refresh s es x hrun
    exact ⟨hrun.ordered.1, fun hrefl hready p hbegun =>
      hrun.formed.ends hrefl hready hbegun _⟩

section Witness

def counting : Handler Unit Unit (fun _ => Unit) Nat Unit where
  exec := fun _ _ _ n => (n + 1, ())

def tick : Program Unit (fun _ => Unit) String Nat := .call () fun _ => .ret 3

theorem tick_run : Settled.Run "cancelled" counting () Eq tick false 0 [⟨(), (), 0, 1⟩] 1
    (1, ⟨.ret 3, ⟨.done (.error "cancelled"), none, false⟩⟩) := by
  have hentered : Settled.Run "cancelled" counting () Eq tick false 0 [] 0
      (0, .enter "cancelled" tick false) := .enter
  have hcancelled := hentered.cancel rfl
  have hcalled := hcancelled.step (.call () rfl rfl rfl)
  exact hcalled.step (.wake rfl)

def failing : Handler Actor Call Call.Answer PathState Input where
  exec := exec

def releasing : Exit where
  heartbeat := (Heartbeat.refreshing (.enter .cancelled (.raise (.os .other)) false)).cancel
  release := some (settle ⟨"job", "w", "m.tf_bak.mkv"⟩)

theorem releasing_run (s : PathState) : Run failing Eq ⟨"job", "w", "m.tf_bak.mkv"⟩
    (.raise (.os .other)) s [] (s, releasing) := by
  have hcreated : Run failing Eq ⟨"job", "w", "m.tf_bak.mkv"⟩ (.raise (.os .other)) s []
      (s, ⟨.created, none⟩) := .enter
  have hasleep := hcreated.step (.rouse rfl rfl)
  have htimer := hasleep.step (.timer rfl rfl)
  have hrefreshing := htimer.step (.rouse rfl rfl)
  exact hrefreshing.step (.begin rfl)

-- A cancellation during the wait, and a release begun while a refresh that fails is under way.
theorem settled_exact_tick :
    Exec counting () Eq tick 0 [⟨(), (), 0, 1⟩] (.ret 3) 1 ∧
    ∀ s, Ends (Steps failing Eq ⟨"job", "w", "m.tf_bak.mkv"⟩ (.raise (.os .other))) Released
      (s, releasing) := by
  have hexact := settled_exact "cancelled" counting () Eq tick
  constructor
  · exact ((hexact.1 _ _ _ _ _ tick_run).1 _ rfl).1
  · intro s
    have : Inhabited Input := ⟨{}⟩
    exact (hexact.2 failing Eq _ _ s _ _ (releasing_run s)).2 (fun _ => rfl) (fun _ _ _ => rfl) _ rfl

end Witness

end TranscodeForge.Release
