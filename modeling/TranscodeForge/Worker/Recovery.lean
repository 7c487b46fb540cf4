import TranscodeForge.Worker.Outcome

namespace TranscodeForge.Recovery

open Interaction SourcePath Filesystem Pipeline Phases CallClasses

inductive RecoveryRequest where
  | sourcePath (workerId : String) (staleAfter : Nat)
  | scan (workerId : String) (staleAfter : Nat)
deriving DecidableEq, Repr

inductive RecoveryAnswer where
  | sourcePath (recovery : SourceRecovery)
  | scan (stats : RecoveryStats)
deriving DecidableEq, Repr

def RecoveryRequest.worker : RecoveryRequest → String
  | .sourcePath workerId _ => workerId
  | .scan workerId _ => workerId

def recover : RecoveryRequest → Worker RecoveryAnswer
  | .sourcePath workerId staleAfter => do
    let recovery ← recoverSourcePath workerId staleAfter
    pure (.sourcePath recovery)
  | .scan workerId staleAfter => do
    let stats ← recoverOrphanedBackups workerId staleAfter
    pure (.scan stats)

-- Between the calls of a recovery only time passes.
def TimePasses (s s' : PathState) : Prop :=
  ∃ clock, s.clock ≤ clock ∧ s' = { s with clock := clock }

abbrev PathCall := CallRecord Call PathState Input

-- Any number of recoveries one after the other, each of which may die after any call.
inductive RecoveryRuns (s : PathState) :
    List PathCall → List (Option (Except Failure RecoveryAnswer) × PathState) → PathState → Prop
  | refl : RecoveryRuns s [] [] s
  | step {es es' : List PathCall}
      {answers : List (Option (Except Failure RecoveryAnswer) × PathState)}
      {s₁ s₂ : PathState} {rest : Worker RecoveryAnswer} (r : RecoveryRequest) :
      RecoveryRuns s es answers s₁ →
      Exec handler ⟨r.worker, .main⟩ TimePasses (recover r) s₁ es' rest s₂ →
      RecoveryRuns s (es ++ es') (answers ++ [(rest.outcome, s₂)]) s₂

def Recovering (c : Call) : Bool :=
  match c.action with
  | .exists _ => c.site != .rollbackSwap
  | .isFile _ | .glob _ | .isDir | .readLock | .now => true
  | .unlink .lock | .unlink (.media .tmp) => true
  | .replace .bak .source => c.site != .rollbackSwap
  | _ => false

-- The calls of a recovery that has judged the lock.
def Clearing (c : Call) : Bool := Recovering c && c.action != .readLock

theorem Clearing.recovering {c : Call} (h : Clearing c) : Recovering c := by
  simp only [Clearing, Bool.and_eq_true] at h
  exact h.1

section Calls

theorem looksFinished_clearing {site : Site} (h : site ≠ .rollbackSwap) :
    (looksFinished site).Calls (Clearing ·) := by
  have hlook : ∀ f, (orRaise (act site (.exists f))).Calls (Clearing ·) := fun f =>
    look_calls (by simpa [Clearing, Recovering] using h)
  refine (hlook sourceFile).bind fun present => ?_
  split
  · exact (hlook .lock).bind fun _ => trivial
  · trivial

theorem clearLeftovers_clearing {site : Site} (h : site ≠ .rollbackSwap) :
    (clearLeftovers site).Calls (Clearing ·) :=
  (safeDelete_calls (by simpa [Clearing, Recovering] using h) (by rfl)).bind fun _ =>
    safeDelete_calls (by simpa [Clearing, Recovering] using h) (by rfl)

theorem restoreSource_clearing : restoreSource.Calls (Clearing ·) := by
  refine ⟨rfl, fun replaced => ?_⟩
  cases replaced with
  | error e =>
    refine (look_calls (by rfl)).bind fun present => ?_
    split
    · trivial
    · refine (look_calls (by rfl)).bind fun present => ?_
      split <;> trivial
  | ok _ => exact (clearLeftovers_clearing (by decide)).bind fun _ => trivial

theorem hasLeftovers_clearing : hasLeftovers.Calls (Clearing ·) := by
  refine (look_calls (by rfl)).bind fun present => ?_
  split
  · trivial
  · exact look_calls (by rfl)

-- A claim-time recovery that found no live lock of another worker.
def healSource : Worker SourceRecovery := do
  if ← orRaise (act .recoverSourcePath (.exists bakFile)) then do
    if ← looksFinished .recoverSourcePath then pure .attention
    else do
      let _ ← orRaise (act .recoverSourcePath (.exists sourceFile))
      restoreSource
  else do
    if ← hasLeftovers then do
      clearLeftovers .recoverSourcePath
      pure .cleaned
    else pure .clean

theorem recoverSourcePath_eq (workerId : String) (staleAfter : Nat) :
    recoverSourcePath workerId staleAfter =
      (lockedElsewhere .recoverSourcePath workerId staleAfter).bind fun active =>
        if active then .ret .active else healSource := rfl

theorem healSource_clearing : healSource.Calls (Clearing ·) := by
  refine (look_calls (by rfl)).bind fun present => ?_
  split
  · refine (looksFinished_clearing (by decide)).bind fun finished => ?_
    split
    · trivial
    · exact (look_calls (by rfl)).bind fun _ => restoreSource_clearing
  · refine hasLeftovers_clearing.bind fun leftovers => ?_
    split
    · exact (clearLeftovers_clearing (by decide)).bind fun _ => trivial
    · trivial

theorem recoverSourcePath_recovering (workerId : String) (staleAfter : Nat) :
    (recoverSourcePath workerId staleAfter).Calls (Recovering ·) := by
  rw [recoverSourcePath_eq]
  refine (lockedElsewhere_calls _ _ (by rfl) (by rfl) (by rfl)).bind fun active => ?_
  split
  · trivial
  · exact healSource_clearing.mono fun _ => Clearing.recovering

theorem restoreBackup_clearing : restoreBackup.Calls (Clearing ·) := by
  refine ⟨rfl, fun present => ?_⟩
  cases present with
  | error e => trivial
  | ok _ => exact ⟨rfl, fun _ => trivial⟩

-- The scan's restore, where no live lock of another worker was found.
def healBackup (stats : RecoveryStats) : Worker RecoveryStats := do
  if ← looksFinished .recoverBackups then
    pure { stats with needsAttention := stats.needsAttention + 1 }
  else do
    match ← restoreBackup with
    | .error _ => pure stats
    | .ok () => do
      let locks ← deleteLeftover .recoverBackups .lock
      let tmps ← deleteLeftover .recoverBackups tmpFile
      pure { stats with
        restored := stats.restored + 1
        locksRemoved := stats.locksRemoved + locks
        tmpRemoved := stats.tmpRemoved + tmps }

theorem recoverBackup_eq (workerId : String) (staleAfter : Nat) (stats : RecoveryStats) :
    recoverBackup workerId staleAfter stats =
      (lockedElsewhere .recoverBackups workerId staleAfter).bind fun active =>
        if active then .ret { stats with skippedActive := stats.skippedActive + 1 }
        else healBackup stats := rfl

theorem healBackup_clearing (stats : RecoveryStats) :
    (healBackup stats).Calls (Clearing ·) := by
  refine (looksFinished_clearing (by decide)).bind fun finished => ?_
  split
  · trivial
  refine restoreBackup_clearing.bind fun restored => ?_
  cases restored with
  | error e => trivial
  | ok _ =>
    exact (deleteLeftover_calls (by rfl) (by rfl)).bind fun _ =>
      (deleteLeftover_calls (by rfl) (by rfl)).bind fun _ => trivial

theorem recoverBackup_recovering (workerId : String) (staleAfter : Nat) (stats : RecoveryStats) :
    (recoverBackup workerId staleAfter stats).Calls (Recovering ·) := by
  rw [recoverBackup_eq]
  refine (lockedElsewhere_calls _ _ (by rfl) (by rfl) (by rfl)).bind fun active => ?_
  split
  · trivial
  · exact (healBackup_clearing stats).mono fun _ => Clearing.recovering

theorem recoverBackupsUnder_recovering (workerId : String) (staleAfter : Nat)
    (stats : RecoveryStats) :
    (recoverBackupsUnder workerId staleAfter stats).Calls (Recovering ·) := by
  refine (orRaise_calls (act_calls (by rfl))).bind fun present => ?_
  split
  · refine (orRaise_calls (act_calls (by rfl))).bind fun file => ?_
    split
    · exact recoverBackup_recovering ..
    · trivial
  · trivial

theorem removeStaleLock_recovering (workerId : String) (staleAfter : Nat)
    (stats : RecoveryStats) : (removeStaleLock workerId staleAfter stats).Calls (Recovering ·) := by
  refine (lockIsActive_calls _ _ (by rfl) (by rfl)).bind fun active => ?_
  split
  · trivial
  · refine ⟨rfl, fun removed => ?_⟩
    cases removed with
    | error e => trivial
    | ok _ => exact (deleteLeftover_calls (by rfl) (by rfl)).bind fun _ => trivial

theorem removeStaleLocksUnder_recovering (workerId : String) (staleAfter : Nat)
    (stats : RecoveryStats) :
    (removeStaleLocksUnder workerId staleAfter stats).Calls (Recovering ·) := by
  refine (orRaise_calls (act_calls (by rfl))).bind fun present => ?_
  split
  · refine (orRaise_calls (act_calls (by rfl))).bind fun file => ?_
    split
    · exact removeStaleLock_recovering ..
    · trivial
  · trivial

theorem recover_recovering (r : RecoveryRequest) : (recover r).Calls (Recovering ·) := by
  cases r with
  | sourcePath workerId staleAfter =>
    exact (recoverSourcePath_recovering ..).bind fun _ => trivial
  | scan workerId staleAfter =>
    refine Program.Calls.bind ?_ fun _ => trivial
    refine (orRaise_calls (act_calls (by rfl))).bind fun present => ?_
    split
    · exact (recoverBackupsUnder_recovering ..).bind fun _ => removeStaleLocksUnder_recovering ..
    · trivial

end Calls

end TranscodeForge.Recovery
