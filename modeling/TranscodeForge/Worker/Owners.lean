import TranscodeForge.Interaction.Pool
import TranscodeForge.Worker.Recovery

namespace TranscodeForge.Owners

open Interaction SourcePath Filesystem Ownership Pipeline Phases CallClasses Recovery

-- What the threads of the workers sharing a path run.
inductive Errand where
  | pipeline (job : PipelineJob)
  | claim
  | scan
  | beat (own : SourceOwnership)
deriving DecidableEq

inductive Disturbance where
  | tick (elapsed : Nat)
  | crash (worker : String)
deriving DecidableEq, Repr

-- The in-process transaction of a worker is gone, and with it its hold on the path.
def depart (w : String) (s : PathState) : PathState := (s.setOwn w {}).setHold w none

variable (staleAfter : Nat)

def body (a : Actor) : Errand → Worker Unit
  | .pipeline job => (runPipeline job).bind fun _ => .ret ()
  | .claim => (recoverSourcePath a.worker staleAfter).bind fun _ => .ret ()
  | .scan => (recoverOrphanedBackups a.worker staleAfter).bind fun _ => .ret ()
  | .beat own => beat own

-- A worker takes up its next job once the last touch of the one before is over; a round of the
-- heartbeat starts only while the transaction has it running.
def start (a : Actor) : Errand → PathState → Option PathState
  | .pipeline job, s =>
    if a.role = .main ∧ job.workerId = a.worker ∧ (s.own a.worker).touching = false then
      some (depart a.worker s)
    else none
  | .claim, s | .scan, s =>
    if a.role = .main ∧ (s.own a.worker).touching = false then some (depart a.worker s) else none
  | .beat own, s =>
    if a.role = .heartbeat ∧ own.workerId = a.worker ∧ (s.own a.worker).beating then
      some (s.setOwn a.worker { s.own a.worker with touching := true })
    else none

def owners : System Actor Errand Disturbance Call Call.Answer PathState Input Failure Unit where
  handler := handler
  body := body staleAfter
  start := start
  disturb
    | .tick elapsed, s => { s with clock := s.clock + elapsed }
    | .crash w, s => depart w s
  kills
    | .tick _, _ => false
    | .crash w, a => a.worker == w

abbrev OwnerCall := ThreadCall Actor Errand Call PathState Input

abbrev OwnerConfig := Config Actor Errand Call Call.Answer PathState Failure Unit

abbrev OwnerRun (s : PathState) (es : List OwnerCall) (d : OwnerConfig) : Prop :=
  Run (owners staleAfter) (.initial s) es d

-- The calls of a round of the heartbeat.
def Touching (c : Call) : Bool :=
  match c.action with
  | .readLock | .now | .writeNew _ | .replaceLock | .endTouch => true
  | .exists .lockNew => c.site == .touchLock
  | .unlink .lockNew => true
  | _ => false

-- The heartbeat is what the pipeline's own transaction expects of the rest of the world.
theorem exec_touching (a : Actor) (c : Call) (i : Input) (s : PathState) (hc : Touching c) :
    Undisturbed a.worker s (exec a c i s).1 := by
  obtain ⟨site, action⟩ := c
  cases action with
  | «exists» f =>
    have hcall : f = .lockNew ∧ site = .touchLock := by
      cases f <;> simp_all [Touching]
    obtain ⟨rfl, rfl⟩ := hcall
    have hstill := exec_still a ⟨.touchLock, .exists .lockNew⟩ s i rfl
    refine ⟨hstill, ?_, ?_, ?_⟩ <;>
      rcases exists_cases a .touchLock i s .lockNew (by decide) with he | he <;> simp [he]
  | unlink f =>
    have hf : f = .lockNew := by cases f <;> simp_all [Touching]
    subst hf
    rcases unlink_cases a site i s .lockNew (by decide) with ⟨e, he⟩ | ⟨-, -, he⟩ <;> rw [he]
    · exact .refl _ _
    · exact ⟨.of_rfl, rfl, rfl, rfl⟩
  | readLock =>
    simp only [exec]
    split <;> exact ⟨.of_rfl, rfl, rfl, rfl⟩
  | now => exact .refl _ _
  | writeNew text =>
    simp only [exec]
    split
    · split
      · exact ⟨.of_rfl, rfl, rfl, rfl⟩
      · exact .refl _ _
    · exact ⟨.of_rfl, rfl, rfl, rfl⟩
  | replaceLock =>
    simp only [exec]
    split
    · exact .refl _ _
    · exact .refl _ _
    · next l _ _ =>
      have hlock : Undisturbed a.worker s { s with lock := some l, lockNew := none } :=
        ⟨.of_rfl rfl rfl rfl rfl rfl fun _ => rfl, rfl, rfl, rfl⟩
      exact hlock.trans ⟨.stampHold .., by simp, by simp, by simp⟩
  | endTouch => exact ⟨.setOwn rfl rfl, rfl, rfl, rfl⟩
  | _ => cases hc

def Errand.Makes : Errand → Call → Prop
  | .pipeline _, c => Piped c
  | .claim, c | .scan, c => Recovering c
  | .beat _, c => Touching c

-- A touch, once the lock was found to be its own.
def Refreshing (c : Call) : Bool :=
  match c.action with
  | .readLock | .endTouch => false
  | _ => Touching c

theorem Refreshing.touching {c : Call} (h : Refreshing c) : Touching c := by
  unfold Refreshing at h
  split at h <;> first | exact h | cases h

theorem touchLock_refreshing (jobId workerId : String) :
    (touchLock jobId workerId).Calls (Refreshing ·) := by
  have hdelete : (safeDelete .touchLock .lockNew).Calls (Refreshing ·) :=
    safeDelete_calls (by rfl) (by rfl)
  refine (act_calls (by rfl)).bind fun timestamp => (act_calls (by rfl)).bind fun written => ?_
  cases written with
  | error e => exact hdelete.bind fun _ => trivial
  | ok _ =>
    refine (act_calls (by rfl)).bind fun replaced => ?_
    cases replaced with
    | error e => exact hdelete.bind fun _ => trivial
    | ok _ => trivial

theorem beat_touching (own : SourceOwnership) : (beat own).Calls (Touching ·) := by
  have hrefresh : (refreshLock own).Calls (Touching ·) := by
    refine (lockMatches_calls _ _ (by rfl)).bind fun held => ?_
    split
    · refine Program.Calls.rescue
        ((touchLock_refreshing ..).mono fun _ => Refreshing.touching) fun e => ?_
      cases e <;> trivial
    · trivial
  exact hrefresh.bind fun _ => act_calls (by rfl)

theorem body_makes (a : Actor) (e : Errand) : (body staleAfter a e).Calls e.Makes := by
  cases e with
  | pipeline job => exact (runPipeline_piped job).bind fun _ => trivial
  | claim => exact (recoverSourcePath_recovering ..).bind fun _ => trivial
  | scan =>
    refine Program.Calls.bind ?_ fun _ => trivial
    refine (orRaise_calls (act_calls (by rfl))).bind fun root => ?_
    split
    · exact (recoverBackupsUnder_recovering ..).bind fun _ => removeStaleLocksUnder_recovering ..
    · trivial
  | beat own => exact beat_touching own

end TranscodeForge.Owners
