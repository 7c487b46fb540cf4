import TranscodeForge.Worker.Subprocess

namespace TranscodeForge.Subprocess

open Async

variable {Q D E α : Type} {limits : Limits} {b : Block Q D E α} {w w' : World Q E α}

-- The code of the block lets a cancellation of its awaits through.
def Block.Passes (b : Block Q D E α) : Prop :=
  ∀ q now, b.resume q (.error .cancelled) now = ⟨[], .leaves (.error .cancelled)⟩

namespace World

def InBlock (w : World Q E α) : Prop := ∃ q, w.task.phase = .suspended (.block q)

def Left (w : World Q E α) : Prop := ∃ o, w.task.phase = .done o

-- When the window of the last `extend` is over.
def silentUntil (w : World Q E α) : Nat := w.called.1 + w.called.2

section Reaping

-- A wait in `terminate_process_tree` ends with the child's exit or a cancellation, and from the
-- kill on the child has been sent it.
structure Sound (w : World Q E α) : Prop where
  exited : w.child.returncode = true → w.child.exited = true
  settled : ∀ q x, w.task.phase = .suspended q → w.task.waiter = some x →
    (∃ q', q = .block q') ∨ x = .ok () ∧ w.child.returncode = true ∨ x = .error .cancelled
  reaping : ∀ o, w.task.phase = .suspended (.reap o) → w.child.killed = true
  left : ∀ o, w.task.phase = .done o → w.child.returncode = true ∨ w.child.killed = true

theorem sound_suspend {q : Await Q E α} (hexited : w.child.returncode = true → w.child.exited = true)
    (hreap : ∀ o, q = .reap o → w.child.killed = true) : (w.suspend q).Sound where
  exited := hexited
  settled := by
    intro q' x _ hwaiter
    cases hwaiter
  reaping := by
    intro o hphase
    cases hphase
    exact hreap o rfl
  left := by
    intro o hphase
    cases hphase

theorem sound_finish {o : Except (Exn E) α} (hexited : w.child.returncode = true → w.child.exited = true)
    (hleft : w.child.returncode = true ∨ w.child.killed = true) : (w.finish o).Sound where
  exited := hexited
  settled := by
    intro q x hphase
    cases hphase
  reaping := by
    intro o' hphase
    cases hphase
  left := fun _ _ => hleft

-- What a call of `extend` leaves alone.
structure Extends (w w' : World Q E α) : Prop where
  now : w'.now = w.now
  child : w'.child = w.child
  task : w'.task = w.task
  standing : w'.deadline.standing = w.deadline.standing
  graceTimer : w'.graceTimer = w.graceTimer

variable (limits w) in
theorem extend_extends (seconds : Option Nat) : Extends w (w.extend limits seconds) where
  now := rfl
  child := rfl
  task := rfl
  standing := Timeout.standing_reschedule
  graceTimer := rfl

theorem foldl_extends (calls : List (Option Nat)) : Extends w (calls.foldl (extend limits) w) := by
  induction calls generalizing w with
  | nil => exact ⟨rfl, rfl, rfl, rfl, rfl⟩
  | cons seconds calls ih =>
    have hfirst : Extends w (w.extend limits seconds) := extend_extends limits w seconds
    have hrest := ih (w := w.extend limits seconds)
    exact ⟨hrest.now.trans hfirst.now, hrest.child.trans hfirst.child, hrest.task.trans hfirst.task,
      hrest.standing.trans hfirst.standing, hrest.graceTimer.trans hfirst.graceTimer⟩

-- The signal that ends a wait of `terminate_process_tree`.
theorem Sound.signal (h : w.Sound) {q : Await Q E α} {x : Except (Exn E) Unit}
    (hsignal : w.task.signal .cancelled = some (q, x)) :
    (∃ q', q = .block q') ∨ x = .ok () ∧ w.child.returncode = true ∨ x = .error .cancelled := by
  obtain ⟨hphase, y, hwaiter, rfl⟩ := Task.signal_some hsignal
  cases hmust : w.task.mustCancel with
  | true => exact .inr (.inr rfl)
  | false => exact h.settled q y hphase hwaiter

theorem Sound.requestCancel (h : w.Sound) : w.requestCancel.Sound where
  exited := h.exited
  settled := by
    intro q x hphase hwaiter
    rw [World.requestCancel, Task.phase_cancel] at hphase
    rcases Task.waiter_cancel hwaiter with hwaiter | rfl
    · exact h.settled q x hphase hwaiter
    · exact .inr (.inr rfl)
  reaping := by
    intro o hphase
    rw [World.requestCancel, Task.phase_cancel] at hphase
    exact h.reaping o hphase
  left := by
    intro o hphase
    rw [World.requestCancel, Task.phase_cancel] at hphase
    exact h.left o hphase

theorem settle_some {o : Except (Exn E) Unit} (h : w.settle o = some w') : ∃ q task,
    w.task.phase = .suspended q ∧ w.task.resolve o = some task ∧ w' = { w with task := task } ∧
      ((∃ q', q = .block q') ∨ o = .ok () ∧ w.child.returncode = true) := by
  unfold settle at h
  split at h
  · next q hphase =>
    obtain ⟨task, htask, rfl⟩ := Option.map_eq_some_iff.mp h
    exact ⟨_, task, hphase, htask, rfl, .inl ⟨q, rfl⟩⟩
  · next q hblock hphase =>
    split at h
    · next hreaped =>
      obtain ⟨task, htask, rfl⟩ := Option.map_eq_some_iff.mp h
      exact ⟨q, task, hphase, htask, rfl, .inr ⟨rfl, hreaped⟩⟩
    · cases h
  · cases h

theorem Sound.settle {o : Except (Exn E) Unit} (h : w.Sound) (hstep : w.settle o = some w') :
    w'.Sound := by
  obtain ⟨q, task, hphase, htask, rfl, hcase⟩ := settle_some hstep
  obtain ⟨q', hphase', -, rfl⟩ := Task.resolve_some htask
  refine ⟨h.exited, fun q₁ x hq₁ hwaiter => ?_, h.reaping, h.left⟩
  cases hwaiter
  have hsame : q₁ = q := by
    have heq := hphase.symm.trans hq₁
    cases heq
    rfl
  subst hsame
  rcases hcase with hblock | hreaped
  · exact .inl hblock
  · exact .inr (.inl hreaped)

-- What the exits of the timeouts and their counts do to the world.
def timed (w : World Q E α) (deadline timer : Timeout) (requests : Nat) : World Q E α :=
  { w with deadline := deadline, graceTimer := timer, requests := requests }

variable [DecidableEq E]

variable (limits w) in
theorem leave_cases (o : Except (Exn E) α) : ∃ deadline requests o',
    deadline.standing ≠ .entered ∧ (w.deadline.standing = .entered → deadline.standing = .exited) ∧
      w.leave limits o =
        if w.child.returncode then (w.timed deadline w.graceTimer requests).finish o'
        else (w.timed deadline w.graceTimer requests).terminate limits o' := by
  let x := w.deadline.exit (.cancelled : Exn E) .timeout w.requests o
  exact ⟨x.1, x.2.1, x.2.2, Timeout.exit_not_entered _ _ _ _ _,
    fun hentered => Timeout.exit_entered _ _ _ _ _ hentered, rfl⟩

theorem graceEnds_eq (o : Except (Exn E) α) (signal : Except (Exn E) Unit) :
    w.graceEnds o signal =
      let x := w.graceTimer.exit .cancelled .timeout w.requests signal
      let w' := w.timed w.deadline x.1 x.2.1
      match x.2.2 with
      | .ok () => w'.finish o
      | .error .timeout =>
        if w'.child.returncode then w'.killTree.finish o else w'.killTree.suspend (.reap o)
      | .error .cancelled => w'.killTree.finish (.error .cancelled)
      | .error e => w'.finish (.error e) := rfl

theorem graceEnds_ok (o : Except (Exn E) α) : ∃ timer requests,
    w.graceEnds o (.ok ()) = (w.timed w.deadline timer requests).finish o := by
  rw [graceEnds_eq]
  rcases Timeout.exit_outcome (.cancelled : Exn E) .timeout w.requests (.ok ()) w.graceTimer with
    hsame | ⟨hnone, -⟩
  · dsimp only
    rw [hsame]
    exact ⟨_, _, rfl⟩
  · cases hnone

-- A wait that a cancellation ends, whether it is the timeout's or not, kills the process tree.
theorem graceEnds_cancelled (o : Except (Exn E) α) : ∃ timer requests,
    (∃ o', w.graceEnds o (.error .cancelled) =
      (w.timed w.deadline timer requests).killTree.finish o') ∨
    w.graceEnds o (.error .cancelled) =
      (w.timed w.deadline timer requests).killTree.suspend (.reap o) := by
  rw [graceEnds_eq]
  rcases Timeout.exit_outcome (.cancelled : Exn E) .timeout w.requests (.error .cancelled)
    w.graceTimer with hsame | ⟨-, htimeout⟩
  · dsimp only
    rw [hsame]
    exact ⟨_, _, .inl ⟨_, rfl⟩⟩
  · dsimp only
    rw [htimeout]
    dsimp only
    split
    · exact ⟨_, _, .inl ⟨_, rfl⟩⟩
    · exact ⟨_, _, .inr rfl⟩

theorem sound_leave {o : Except (Exn E) α} (hexited : w.child.returncode = true → w.child.exited = true) :
    (w.leave limits o).Sound := by
  obtain ⟨deadline, requests, o', -, -, heq⟩ := leave_cases limits w o
  rw [heq]
  split
  · next hreaped => exact sound_finish hexited (.inl hreaped)
  · exact sound_suspend hexited (by simp)

theorem sound_turn {t : Turn Q E α} (hexited : w.child.returncode = true → w.child.exited = true) :
    (w.turn limits t).Sound := by
  have hcalls : Extends w (t.calls.foldl (extend limits) w) := foldl_extends t.calls
  have hexited' : (t.calls.foldl (extend limits) w).child.returncode = true →
      (t.calls.foldl (extend limits) w).child.exited = true := by
    rw [hcalls.child]
    exact hexited
  unfold turn
  split
  · exact sound_suspend hexited' (by simp)
  · exact sound_leave hexited'

theorem Sound.resume (h : w.Sound) {q : Await Q E α} {x : Except (Exn E) Unit} (d : D)
    (hsignal : w.task.signal .cancelled = some (q, x)) : (w.resume limits b d q x).Sound := by
  have hends := h.signal hsignal
  cases q with
  | block q => exact sound_turn h.exited
  | grace o =>
    rcases hends with ⟨q', hblock⟩ | ⟨rfl, hreaped⟩ | rfl
    · cases hblock
    · obtain ⟨timer, requests, heq⟩ := graceEnds_ok (w := w) o
      rw [World.resume, heq]
      exact sound_finish h.exited (.inl hreaped)
    · obtain ⟨timer, requests, ⟨o', heq⟩ | heq⟩ := graceEnds_cancelled (w := w) o
      · rw [World.resume, heq]
        exact sound_finish h.exited (.inr rfl)
      · rw [World.resume, heq]
        exact sound_suspend h.exited fun _ _ => rfl
  | reap o =>
    have hkilled := h.reaping o (Task.signal_some hsignal).1
    cases x with
    | ok _ => exact sound_finish h.exited (.inr hkilled)
    | error e => exact sound_finish h.exited (.inr hkilled)

theorem Sound.step {e : Event D E} (h : w.Sound) (hstep : w.step limits b e = some w') : w'.Sound := by
  cases e with
  | tick =>
    cases hstep
    exact ⟨h.exited, h.settled, h.reaping, h.left⟩
  | childExits =>
    cases hstep
    exact ⟨fun _ => rfl, h.settled, h.reaping, h.left⟩
  | childReaped =>
    simp only [World.step] at hstep
    split at hstep
    · next hexited =>
      cases hstep
      refine ⟨fun _ => hexited, fun q x hphase hwaiter => ?_, h.reaping, fun _ _ => .inl rfl⟩
      rcases h.settled q x hphase hwaiter with hblock | ⟨rfl, -⟩ | rfl
      · exact .inl hblock
      · exact .inr (.inl ⟨rfl, rfl⟩)
      · exact .inr (.inr rfl)
    · cases hstep
  | settles o => exact h.settle hstep
  | deadlineFires =>
    obtain ⟨deadline, -, rfl⟩ := Option.map_eq_some_iff.mp hstep
    exact ⟨h.exited, h.requestCancel.settled, h.requestCancel.reaping, h.requestCancel.left⟩
  | graceFires =>
    obtain ⟨timer, -, rfl⟩ := Option.map_eq_some_iff.mp hstep
    exact ⟨h.exited, h.requestCancel.settled, h.requestCancel.reaping, h.requestCancel.left⟩
  | cancel =>
    simp only [World.step] at hstep
    split at hstep
    · cases hstep
      exact h.requestCancel
    · cases hstep
  | wake d =>
    obtain ⟨⟨q, x⟩, hsignal, rfl⟩ := Option.map_eq_some_iff.mp hstep
    exact h.resume d hsignal
  | extend seconds =>
    cases hstep
    exact ⟨h.exited, h.settled, h.reaping, h.left⟩

theorem sound_start {now requests : Nat} {exited returncode : Bool}
    (hchild : returncode = true → exited = true) :
    (World.start limits b now requests ⟨exited, returncode, false, false⟩).Sound :=
  sound_turn hchild

end Reaping

section Deadline

-- `extend` is called again before the window of the last call is over.
def Punctual (w : World Q E α) : Prop := w.InBlock → w.now < w.silentUntil

-- The deadline stands while the block runs, at the end of the last window.
structure Armed (w : World Q E α) : Prop where
  inside : w.InBlock → w.deadline.standing = .entered ∧ w.deadline.due = w.silentUntil
  outside : ¬ w.InBlock → w.deadline.standing = .exited

theorem not_inBlock_finish {o : Except (Exn E) α} : ¬ (w.finish o).InBlock := by
  rintro ⟨q, hphase⟩
  cases hphase

theorem not_inBlock_suspend {q : Await Q E α} (h : ∀ q', q ≠ .block q') : ¬ (w.suspend q).InBlock := by
  rintro ⟨q', hphase⟩
  cases hphase
  exact h q' rfl

theorem extend_due {seconds : Option Nat} (hentered : w.deadline.standing = .entered) :
    (w.extend limits seconds).deadline.due = (w.extend limits seconds).silentUntil :=
  Timeout.due_reschedule hentered

theorem foldl_due {calls : List (Option Nat)} (hentered : w.deadline.standing = .entered)
    (hdue : w.deadline.due = w.silentUntil) :
    (calls.foldl (extend limits) w).deadline.due = (calls.foldl (extend limits) w).silentUntil := by
  induction calls generalizing w with
  | nil => exact hdue
  | cons seconds calls ih =>
    refine ih ?_ (extend_due hentered)
    rw [(extend_extends limits w seconds).standing]
    exact hentered

theorem Armed.same (h : w.Armed) (hphase : w'.task.phase = w.task.phase)
    (hdeadline : w'.deadline = w.deadline) (hcalled : w'.called = w.called) : w'.Armed := by
  have hin : w'.InBlock ↔ w.InBlock := by rw [InBlock, InBlock, hphase]
  refine ⟨fun hblock => ?_, fun hout => ?_⟩
  · rw [hdeadline, silentUntil, hcalled]
    exact h.inside (hin.mp hblock)
  · rw [hdeadline]
    exact h.outside (mt hin.mpr hout)

theorem Armed.extend (h : w.Armed) (seconds : Option Nat) : (w.extend limits seconds).Armed := by
  have hstanding := (extend_extends limits w seconds).standing
  refine ⟨fun hblock => ?_, fun hout => hstanding.trans (h.outside hout)⟩
  have hentered := (h.inside hblock).1
  exact ⟨hstanding.trans hentered, extend_due hentered⟩

variable [DecidableEq E]

theorem armed_leave {o : Except (Exn E) α} (hentered : w.deadline.standing = .entered) :
    (w.leave limits o).Armed := by
  obtain ⟨deadline, requests, o', -, hexited, heq⟩ := leave_cases limits w o
  rw [heq]
  split
  · exact ⟨fun hblock => absurd hblock not_inBlock_finish, fun _ => hexited hentered⟩
  · exact ⟨fun hblock => absurd hblock (not_inBlock_suspend (by simp)), fun _ => hexited hentered⟩

theorem armed_turn {t : Turn Q E α} (hentered : w.deadline.standing = .entered)
    (hdue : w.deadline.due = w.silentUntil) : (w.turn limits t).Armed := by
  have hcalls : Extends w (t.calls.foldl (extend limits) w) := foldl_extends t.calls
  have hentered' := hcalls.standing.trans hentered
  unfold turn
  split
  · next q _ =>
    exact ⟨fun _ => ⟨hentered', foldl_due hentered hdue⟩, fun hout => absurd ⟨q, rfl⟩ hout⟩
  · exact armed_leave hentered'

variable (limits b) in
-- A wait of `terminate_process_tree` that ends leaves the deadline alone.
theorem resume_outside (hsound : w.Sound) {q : Await Q E α} {x : Except (Exn E) Unit} (d : D)
    (hout : ¬ w.InBlock) (hsignal : w.task.signal .cancelled = some (q, x)) :
    ¬ (w.resume limits b d q x).InBlock ∧
      (w.resume limits b d q x).deadline = w.deadline ∧
      (w.resume limits b d q x).child.terminated = w.child.terminated ∧
      (w.resume limits b d q x).child.returncode = w.child.returncode ∧
      ∀ o, (w.resume limits b d q x).task.phase ≠ .suspended (.grace o) := by
  have hends := hsound.signal hsignal
  cases q with
  | block q => exact absurd ⟨q, (Task.signal_some hsignal).1⟩ hout
  | grace o =>
    rcases hends with ⟨q', hblock⟩ | ⟨rfl, -⟩ | rfl
    · cases hblock
    · obtain ⟨timer, requests, heq⟩ := graceEnds_ok (w := w) o
      rw [World.resume, heq]
      exact ⟨not_inBlock_finish, rfl, rfl, rfl, fun _ hphase => by cases hphase⟩
    · obtain ⟨timer, requests, ⟨o', heq⟩ | heq⟩ := graceEnds_cancelled (w := w) o
      · rw [World.resume, heq]
        exact ⟨not_inBlock_finish, rfl, rfl, rfl, fun _ hphase => by cases hphase⟩
      · rw [World.resume, heq]
        exact ⟨not_inBlock_suspend (by simp), rfl, rfl, rfl, fun _ hphase => by cases hphase⟩
  | reap o =>
    cases x with
    | ok _ => exact ⟨not_inBlock_finish, rfl, rfl, rfl, fun _ hphase => by cases hphase⟩
    | error e => exact ⟨not_inBlock_finish, rfl, rfl, rfl, fun _ hphase => by cases hphase⟩

theorem Armed.resume (h : w.Armed) (hsound : w.Sound) {q : Await Q E α} {x : Except (Exn E) Unit}
    (d : D) (hsignal : w.task.signal .cancelled = some (q, x)) :
    (w.resume limits b d q x).Armed := by
  by_cases hin : w.InBlock
  · obtain ⟨hentered, hdue⟩ := h.inside hin
    obtain ⟨q', hphase⟩ := hin
    rw [(Task.signal_some hsignal).1] at hphase
    cases hphase
    exact armed_turn hentered hdue
  · obtain ⟨hout, hdeadline, -⟩ := resume_outside limits b hsound d hin hsignal
    exact ⟨fun hblock => absurd hblock hout, fun _ => by rw [hdeadline]; exact h.outside hin⟩

theorem Armed.step {e : Event D E} (h : w.Armed) (hsound : w.Sound) (hpunctual : w.Punctual)
    (hstep : w.step limits b e = some w') : w'.Armed := by
  cases e with
  | tick =>
    cases hstep
    exact h.same rfl rfl rfl
  | childExits =>
    cases hstep
    exact h.same rfl rfl rfl
  | childReaped =>
    simp only [World.step] at hstep
    split at hstep
    · cases hstep
      exact h.same rfl rfl rfl
    · cases hstep
  | settles o =>
    obtain ⟨q, task, -, htask, rfl, -⟩ := settle_some hstep
    obtain ⟨_, _, _, rfl⟩ := Task.resolve_some htask
    exact h.same rfl rfl rfl
  | deadlineFires =>
    obtain ⟨deadline, hfires, rfl⟩ := Option.map_eq_some_iff.mp hstep
    obtain ⟨hentered, hdue, -⟩ := Timeout.expire_some hfires
    exfalso
    by_cases hblock : w.InBlock
    · have hlate := hpunctual hblock
      have hend := (h.inside hblock).2
      omega
    · rw [h.outside hblock] at hentered
      cases hentered
  | graceFires =>
    obtain ⟨timer, -, rfl⟩ := Option.map_eq_some_iff.mp hstep
    exact h.same Task.phase_cancel rfl rfl
  | cancel =>
    simp only [World.step] at hstep
    split at hstep
    · cases hstep
      exact h.same Task.phase_cancel rfl rfl
    · cases hstep
  | wake d =>
    obtain ⟨⟨q, x⟩, hsignal, rfl⟩ := Option.map_eq_some_iff.mp hstep
    exact h.resume hsound d hsignal
  | extend seconds =>
    cases hstep
    exact h.extend seconds

end Deadline

section Silence

-- The loop runs what is due before it waits for the clock.
def Idle (w : World Q E α) : Prop :=
  w.task.signal .cancelled = none ∧
    (w.deadline.standing = .entered → w.now < w.deadline.due) ∧
    (w.graceTimer.standing = .entered → w.now < w.graceTimer.due)

-- A timer has not come to its time, or it has fired and the task is about to hear of it.
def OnTime (w : World Q E α) (t : Timeout) : Prop :=
  t.standing = .entered ∧ w.now ≤ t.due ∨ t.standing = .expiring ∧ w.task.Doomed .cancelled

structure Timed (limits : Limits) (w : World Q E α) : Prop where
  inside : w.InBlock → w.OnTime w.deadline ∧ w.now ≤ w.silentUntil ∧
    (w.deadline.standing = .entered → w.deadline.due = w.silentUntil)
  outside : ¬ w.InBlock → w.deadline.standing ≠ .entered ∧
    (w.child.terminated = true ∨ w.child.returncode = true)
  waits : ∀ o, w.task.phase = .suspended (.grace o) → w.OnTime w.graceTimer ∧
    w.now ≤ w.graceTimer.due ∧ w.graceTimer.due ≤ w.silentUntil + limits.grace ∧
    w.graceTimer.due ≤ w.now + limits.grace

theorem OnTime.cancel {t : Timeout} (h : w.OnTime t) : w.requestCancel.OnTime t := by
  rcases h with hwaits | ⟨hexpiring, hdoomed⟩
  · exact .inl hwaits
  · exact .inr ⟨hexpiring, hdoomed.cancel⟩

-- The clock moves only while the timer has time left.
theorem OnTime.tick {t : Timeout} {q : Await Q E α} (h : w.OnTime t)
    (hphase : w.task.phase = .suspended q) (hidle : w.task.signal .cancelled = none)
    (hleft : t.standing = .entered → w.now < t.due) : t.standing = .entered ∧ w.now + 1 ≤ t.due := by
  rcases h with ⟨hentered, -⟩ | ⟨-, hdoomed⟩
  · exact ⟨hentered, hleft hentered⟩
  · exact absurd hidle (hdoomed.ready hphase)

theorem OnTime.settle {t : Timeout} {o : Except (Exn E) Unit}
    {task : Task (Await Q E α) (Exn E) α} (h : w.OnTime t) (htask : w.task.resolve o = some task) :
    ({ w with task := task } : World Q E α).OnTime t := by
  rcases h with hwaits | ⟨-, hdoomed⟩
  · exact .inl hwaits
  · rw [hdoomed.resolve] at htask
    cases htask

theorem inBlock_requestCancel : w.requestCancel.InBlock ↔ w.InBlock := by
  rw [InBlock, InBlock, requestCancel, Task.phase_cancel]

theorem Timed.requestCancel (h : w.Timed limits) : w.requestCancel.Timed limits where
  inside hin := by
    obtain ⟨hontime, hnow, hdue⟩ := h.inside (inBlock_requestCancel.mp hin)
    exact ⟨hontime.cancel, hnow, hdue⟩
  outside hout := h.outside (mt inBlock_requestCancel.mpr hout)
  waits o hphase := by
    rw [World.requestCancel, Task.phase_cancel] at hphase
    obtain ⟨hontime, hrest⟩ := h.waits o hphase
    exact ⟨hontime.cancel, hrest⟩

theorem foldl_late {calls : List (Option Nat)} (hnow : w.now ≤ w.silentUntil) :
    (calls.foldl (extend limits) w).now ≤ (calls.foldl (extend limits) w).silentUntil := by
  induction calls generalizing w with
  | nil => exact hnow
  | cons seconds calls ih => exact ih (Nat.le_add_right _ _)

theorem timed_finish {o : Except (Exn E) α} (hdeadline : w.deadline.standing ≠ .entered)
    (hchild : w.child.terminated = true ∨ w.child.returncode = true) : (w.finish o).Timed limits where
  inside hin := absurd hin not_inBlock_finish
  outside _ := ⟨hdeadline, hchild⟩
  waits _ hphase := by cases hphase

theorem timed_terminate {o : Except (Exn E) α} (hdeadline : w.deadline.standing ≠ .entered)
    (hnow : w.now ≤ w.silentUntil) : (w.terminate limits o).Timed limits where
  inside hin := absurd hin (not_inBlock_suspend (by simp))
  outside _ := ⟨hdeadline, .inl rfl⟩
  waits _ _ := by
    have hdue : (w.terminate limits o).graceTimer.due = w.now + limits.grace := rfl
    have hsilent : (w.terminate limits o).silentUntil = w.silentUntil := rfl
    have hclock : (w.terminate limits o).now = w.now := rfl
    refine ⟨.inl ⟨rfl, ?_⟩, ?_, ?_, ?_⟩ <;> omega

theorem Timed.extend (h : w.Timed limits) (seconds : Option Nat) :
    (w.extend limits seconds).Timed limits where
  inside hin := by
    have hstanding := (extend_extends limits w seconds).standing
    have hnow : (w.extend limits seconds).now ≤ (w.extend limits seconds).silentUntil :=
      Nat.le_add_right _ _
    refine ⟨?_, hnow, fun hentered => extend_due (hstanding ▸ hentered)⟩
    rcases (h.inside hin).1 with ⟨hentered, -⟩ | ⟨hexpiring, hdoomed⟩
    · refine .inl ⟨hstanding.trans hentered, ?_⟩
      rw [extend_due hentered]
      exact hnow
    · exact .inr ⟨hstanding.trans hexpiring, hdoomed⟩
  outside hout := by
    rw [(extend_extends limits w seconds).standing]
    exact h.outside hout
  waits o hphase := by
    obtain ⟨hontime, hnow, -, hgrace⟩ := h.waits o hphase
    have hsilent : (w.extend limits seconds).silentUntil =
        w.now + seconds.getD limits.timeout := rfl
    have hclock : (w.extend limits seconds).now = w.now := rfl
    have htimer : (w.extend limits seconds).graceTimer = w.graceTimer := rfl
    refine ⟨hontime, hnow, ?_, hgrace⟩
    rw [htimer, hsilent]
    omega

theorem Timed.tick (h : w.Timed limits) (hidle : w.Idle) :
    ({ w with now := w.now + 1 } : World Q E α).Timed limits where
  inside hin := by
    obtain ⟨hontime, -, hdue⟩ := h.inside hin
    obtain ⟨q, hphase⟩ := hin
    obtain ⟨hentered, hleft⟩ := hontime.tick hphase hidle.1 hidle.2.1
    refine ⟨.inl ⟨hentered, hleft⟩, ?_, hdue⟩
    have hend := hdue hentered
    change w.now + 1 ≤ w.silentUntil
    omega
  outside := h.outside
  waits o hphase := by
    obtain ⟨hontime, -, hsilent, hgrace⟩ := h.waits o hphase
    obtain ⟨hentered, hleft⟩ := hontime.tick hphase hidle.1 hidle.2.2
    refine ⟨.inl ⟨hentered, hleft⟩, hleft, hsilent, ?_⟩
    change w.graceTimer.due ≤ w.now + 1 + limits.grace
    omega

theorem Timed.deadlineFires (h : w.Timed limits) {deadline : Timeout}
    (hfires : w.deadline.expire w.now = some deadline) :
    ({ w.requestCancel with deadline := deadline } : World Q E α).Timed limits := by
  obtain ⟨hentered, -, rfl⟩ := Timeout.expire_some hfires
  have hin : w.InBlock := Classical.byContradiction fun hout => (h.outside hout).1 hentered
  obtain ⟨-, hnow, -⟩ := h.inside hin
  obtain ⟨q, hphase⟩ := hin
  have hcancelled : w.requestCancel.task.phase = .suspended (.block q) := by
    rw [World.requestCancel, Task.phase_cancel, hphase]
  refine ⟨fun _ => ⟨.inr ⟨rfl, Task.cancel_doomed hphase⟩, hnow, fun hagain => by cases hagain⟩,
    fun hout => absurd ⟨q, hcancelled⟩ hout, fun o hwaits => ?_⟩
  rw [hcancelled] at hwaits
  cases hwaits

theorem Timed.graceFires (h : w.Timed limits) {timer : Timeout}
    (hfires : w.graceTimer.expire w.now = some timer) :
    ({ w.requestCancel with graceTimer := timer } : World Q E α).Timed limits := by
  obtain ⟨-, -, rfl⟩ := Timeout.expire_some hfires
  have hcancelled := h.requestCancel
  refine ⟨hcancelled.inside, hcancelled.outside, fun o hwaits => ?_⟩
  obtain ⟨-, hrest⟩ := hcancelled.waits o hwaits
  rw [World.requestCancel, Task.phase_cancel] at hwaits
  exact ⟨.inr ⟨rfl, Task.cancel_doomed hwaits⟩, hrest⟩

variable [DecidableEq E]

theorem timed_leave {o : Except (Exn E) α} (hnow : w.now ≤ w.silentUntil) :
    (w.leave limits o).Timed limits := by
  obtain ⟨deadline, requests, o', hdeadline, -, heq⟩ := leave_cases limits w o
  rw [heq]
  split
  · next hreaped => exact timed_finish hdeadline (.inr hreaped)
  · exact timed_terminate hdeadline hnow

theorem timed_turn {t : Turn Q E α} (hentered : w.deadline.standing = .entered)
    (hdue : w.deadline.due = w.silentUntil) (hnow : w.now ≤ w.silentUntil) :
    (w.turn limits t).Timed limits := by
  have hcalls : Extends w (t.calls.foldl (World.extend limits) w) := foldl_extends t.calls
  have hentered' := hcalls.standing.trans hentered
  have hdue' : (t.calls.foldl (World.extend limits) w).deadline.due =
      (t.calls.foldl (World.extend limits) w).silentUntil := foldl_due hentered hdue
  have hnow' : (t.calls.foldl (World.extend limits) w).now ≤
      (t.calls.foldl (World.extend limits) w).silentUntil := foldl_late hnow
  unfold turn
  split
  · next q _ =>
    refine ⟨fun _ => ⟨.inl ⟨hentered', ?_⟩, hnow', fun _ => hdue'⟩, fun hout => absurd ⟨q, rfl⟩ hout,
      fun _ hphase => by cases hphase⟩
    exact Nat.le_trans hnow' (Nat.le_of_eq hdue'.symm)
  · exact timed_leave hnow'

theorem Timed.resume (h : w.Timed limits) (hsound : w.Sound) (hpasses : b.Passes) {q : Await Q E α}
    {x : Except (Exn E) Unit} (d : D) (hsignal : w.task.signal .cancelled = some (q, x)) :
    (w.resume limits b d q x).Timed limits := by
  by_cases hin : w.InBlock
  · obtain ⟨hontime, hnow, hdue⟩ := h.inside hin
    obtain ⟨q', hphase⟩ := hin
    rw [(Task.signal_some hsignal).1] at hphase
    cases hphase
    rcases hontime with ⟨hentered, -⟩ | ⟨-, hdoomed⟩
    · exact timed_turn hentered (hdue hentered) hnow
    · -- The block hears of the deadline, and is left at once.
      obtain rfl := hdoomed.signal hsignal
      have hleaves : w.resume limits b d (.block q') (.error .cancelled) =
          w.leave limits (.error .cancelled) := congrArg (w.turn limits) (hpasses q' w.now)
      rw [hleaves]
      exact timed_leave hnow
  · obtain ⟨hout, hdeadline, hterminated, hreaped, hgrace⟩ :=
      resume_outside limits b hsound d hin hsignal
    refine ⟨fun hblock => absurd hblock hout, fun _ => ?_, fun o hphase => absurd hphase (hgrace o)⟩
    rw [hdeadline, hterminated, hreaped]
    exact h.outside hin

theorem Timed.step {e : Event D E} (h : w.Timed limits) (hsound : w.Sound) (hpasses : b.Passes)
    (hprompt : e = .tick → w.Idle) (hstep : w.step limits b e = some w') : w'.Timed limits := by
  cases e with
  | tick =>
    cases hstep
    exact h.tick (hprompt rfl)
  | childExits =>
    cases hstep
    exact ⟨h.inside, h.outside, h.waits⟩
  | childReaped =>
    simp only [World.step] at hstep
    split at hstep
    · cases hstep
      exact ⟨h.inside, fun hout => ⟨(h.outside hout).1, .inr rfl⟩, h.waits⟩
    · cases hstep
  | settles o =>
    obtain ⟨q, task, -, htask, rfl, -⟩ := settle_some hstep
    have hphase : task.phase = w.task.phase := by
      obtain ⟨_, _, _, rfl⟩ := Task.resolve_some htask
      rfl
    have hblock : ({ w with task := task } : World Q E α).InBlock ↔ w.InBlock := by
      rw [InBlock, InBlock, hphase]
    refine ⟨fun hin => ?_, fun hout => h.outside (mt hblock.mpr hout), fun o' hwaits => ?_⟩
    · obtain ⟨hontime, hrest⟩ := h.inside (hblock.mp hin)
      exact ⟨hontime.settle htask, hrest⟩
    · obtain ⟨hontime, hrest⟩ := h.waits o' (hphase.symm.trans hwaits)
      exact ⟨hontime.settle htask, hrest⟩
  | deadlineFires =>
    obtain ⟨deadline, hfires, rfl⟩ := Option.map_eq_some_iff.mp hstep
    exact h.deadlineFires hfires
  | graceFires =>
    obtain ⟨timer, hfires, rfl⟩ := Option.map_eq_some_iff.mp hstep
    exact h.graceFires hfires
  | cancel =>
    simp only [World.step] at hstep
    split at hstep
    · cases hstep
      exact h.requestCancel
    · cases hstep
  | wake d =>
    obtain ⟨⟨q, x⟩, hsignal, rfl⟩ := Option.map_eq_some_iff.mp hstep
    exact h.resume hsound hpasses d hsignal
  | extend seconds =>
    cases hstep
    exact h.extend seconds

end Silence

end World

section Runs

variable [DecidableEq E]

-- The loop's clock moves only when the loop has nothing to run.
def Prompt (e : Event D E) (w : World Q E α) : Prop := e = .tick → w.Idle

theorem run_sound {allows : Event D E → World Q E α → Prop} (h : Run limits b allows w) : w.Sound := by
  induction h with
  | start now requests exited returncode hchild => exact World.sound_start hchild
  | step e _ _ hstep ih => exact ih.step hstep

theorem run_armed (h : Run limits b (fun _ w => w.Punctual) w) : w.Armed := by
  induction h with
  | start now requests exited returncode hchild => exact World.armed_turn rfl rfl
  | step e hrun hpunctual hstep ih => exact ih.step (run_sound hrun) hpunctual hstep

theorem run_timed (hpasses : b.Passes) (h : Run limits b Prompt w) : w.Timed limits := by
  induction h with
  | start now requests exited returncode hchild =>
    exact World.timed_turn rfl rfl (Nat.le_add_right _ _)
  | step e hrun hprompt hstep ih => exact ih.step (run_sound hrun) hpasses hprompt hstep

-- A block that has been left leaves no child that neither exited nor was killed; a deadline that
-- is always extended in time never fires; and a child that stays silent is terminated, and killed
-- once the grace is over.
theorem child_ends_with_block (limits : Limits) (b : Block Q D E α) :
    (∀ w, Run limits b (fun _ _ => True) w → w.Left →
      w.child.exited = true ∨ w.child.killed = true) ∧
    (∀ w, Run limits b (fun _ w => w.Punctual) w →
      w.deadline.standing ≠ .expiring ∧ w.deadline.standing ≠ .expired) ∧
    (b.Passes → ∀ w, Run limits b Prompt w →
      (w.silentUntil < w.now →
        ¬ w.InBlock ∧ (w.child.exited = true ∨ w.child.terminated = true)) ∧
      (w.silentUntil + limits.grace < w.now → w.child.exited = true ∨ w.child.killed = true)) := by
  refine ⟨fun w hrun hleft => ?_, fun w hrun => ?_, fun hpasses w hrun => ⟨fun hlate => ?_, fun hlate => ?_⟩⟩
  · obtain ⟨o, hdone⟩ := hleft
    have hsound := run_sound hrun
    rcases hsound.left o hdone with hreaped | hkilled
    · exact .inl (hsound.exited hreaped)
    · exact .inr hkilled
  · have harmed := run_armed hrun
    by_cases hin : w.InBlock
    · rw [(harmed.inside hin).1]
      decide
    · rw [harmed.outside hin]
      decide
  · have htimed := run_timed hpasses hrun
    have hout : ¬ w.InBlock := by
      intro hin
      have hnow := (htimed.inside hin).2.1
      omega
    refine ⟨hout, ?_⟩
    rcases (htimed.outside hout).2 with hterminated | hreaped
    · exact .inr hterminated
    · exact .inl ((run_sound hrun).exited hreaped)
  · have htimed := run_timed hpasses hrun
    have hsound := run_sound hrun
    cases hphase : w.task.phase with
    | done o =>
      rcases hsound.left o hphase with hreaped | hkilled
      · exact .inl (hsound.exited hreaped)
      · exact .inr hkilled
    | suspended q =>
      cases q with
      | block q =>
        have hnow := (htimed.inside ⟨q, hphase⟩).2.1
        omega
      | grace o =>
        obtain ⟨-, hnow, hdue, -⟩ := htimed.waits o hphase
        omega
      | reap o => exact .inr (hsound.reaping o hphase)

end Runs

section Encode

open RunEncode

theorem encode_passes (hasStderr hasCallback : Bool) (interval : Nat) :
    (RunEncode.block hasStderr hasCallback interval).Passes := by
  intro q now
  cases q <;> rfl

def isPrompt (e : Event D E) (w : World Q E α) : Bool :=
  match e with
  | .tick => (w.task.signal .cancelled).isNone &&
      (w.deadline.standing != .entered || w.now < w.deadline.due) &&
      (w.graceTimer.standing != .entered || w.now < w.graceTimer.due)
  | _ => true

theorem prompt_of_isPrompt (e : Event D E) (w : World Q E α) (h : isPrompt e w = true) : Prompt e w := by
  rintro rfl
  simp only [isPrompt, Bool.and_eq_true, Option.isNone_iff_eq_none, Bool.or_eq_true, bne_iff_ne,
    decide_eq_true_eq] at h
  obtain ⟨⟨hsignal, hdeadline⟩, htimer⟩ := h
  refine ⟨hsignal, fun hentered => ?_, fun hentered => ?_⟩
  · exact hdeadline.resolve_left fun hnot => hnot hentered
  · exact htimer.resolve_left fun hnot => hnot hentered

variable [DecidableEq E]

-- The run that a list of events drives, while each is found to be allowed.
def drive (limits : Limits) (b : Block Q D E α) (check : Event D E → World Q E α → Bool) :
    List (Event D E) → World Q E α → Option (World Q E α)
  | [], w => some w
  | e :: es, w => if check e w then (w.step limits b e).bind (drive limits b check es) else none

theorem drive_run {check : Event D E → World Q E α → Bool} {allows : Event D E → World Q E α → Prop}
    {es : List (Event D E)} (hcheck : ∀ e w, check e w = true → allows e w)
    (hrun : Run limits b allows w) (h : drive limits b check es w = some w') :
    Run limits b allows w' := by
  induction es generalizing w with
  | nil =>
    cases h
    exact hrun
  | cons e es ih =>
    simp only [drive] at h
    split at h
    · next hallowed =>
      obtain ⟨w₁, hstep, hrest⟩ := Option.bind_eq_some_iff.mp h
      exact ih (hrun.step e (hcheck e w hallowed) hstep) hrest
    · cases h

def sampleLimits : Limits := ⟨3, 2⟩

def sampleBlock : Block Waits Answer Failure Result := RunEncode.block true true 2

abbrev EncodeWorld := World Waits Failure Result

def spawned : EncodeWorld := .start sampleLimits sampleBlock 0 0 {}

-- The child stays silent and does not heed the SIGTERM.
def stalledEvents : List (Event Answer Failure) :=
  [.tick, .tick, .tick, .deadlineFires, .wake .eof, .tick, .tick, .graceFires, .wake .eof, .tick,
    .childExits, .childReaped, .settles (.ok ()), .wake .eof]

def stalled : EncodeWorld :=
  (drive sampleLimits sampleBlock isPrompt stalledEvents spawned).get (by decide +kernel)

-- A line comes before the window is over.
def talkingEvents : List (Event Answer Failure) :=
  [.tick, .tick, .settles (.ok ()), .wake (.line { text := "frame" }), .tick, .tick]

def talking : EncodeWorld :=
  (drive sampleLimits sampleBlock (fun _ w => w.now < w.silentUntil) talkingEvents spawned).get
    (by decide +kernel)

theorem child_ends_with_block_encode :
    (stalled.child.exited = true ∨ stalled.child.killed = true) ∧
    (talking.deadline.standing ≠ .expiring ∧ talking.deadline.standing ≠ .expired) ∧
    (¬ stalled.InBlock ∧ (stalled.child.exited = true ∨ stalled.child.terminated = true)) ∧
    (stalled.child.exited = true ∨ stalled.child.killed = true) := by
  have hstart : ∀ allows, Run sampleLimits sampleBlock allows spawned := fun _ =>
    .start 0 0 false false (by simp)
  have hprompt : Run sampleLimits sampleBlock Prompt stalled :=
    drive_run prompt_of_isPrompt (hstart _) (Option.some_get _).symm
  have hany : Run sampleLimits sampleBlock (fun _ _ => True) stalled :=
    drive_run (fun _ _ _ => trivial) (hstart _) (Option.some_get (by decide +kernel)).symm
  have htalking : Run sampleLimits sampleBlock (fun _ w => w.Punctual) talking :=
    drive_run (fun _ _ hnow _ => of_decide_eq_true hnow) (hstart _) (Option.some_get _).symm
  have hpasses : sampleBlock.Passes := encode_passes true true 2
  obtain ⟨hleft, hpunctual, htimed⟩ := child_ends_with_block sampleLimits sampleBlock
  obtain ⟨hterminated, hkilled⟩ := htimed hpasses stalled hprompt
  exact ⟨hleft stalled hany ⟨_, rfl⟩, hpunctual talking htalking, hterminated (by decide +kernel),
    hkilled (by decide +kernel)⟩

end Encode

end TranscodeForge.Subprocess
