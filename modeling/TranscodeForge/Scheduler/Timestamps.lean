import TranscodeForge.Scheduler.Statements
import TranscodeForge.OAuth.Models
import TranscodeForge.Text.Isoformat

namespace TranscodeForge.Timestamps

open Scheduler Text Relational

-- The rows a sweep looks at, with their timestamps as the column holds them (`String`) or as the
-- instants they stand for.
structure JobRow (τ : Type) where
  id : Scheduler.Uuid
  workerId : Option Scheduler.Uuid
  status : JobStatus
  updatedAt : τ
deriving DecidableEq

structure WorkerRow (τ : Type) where
  id : Scheduler.Uuid
  status : WorkerStatus
  currentJobId : Option Scheduler.Uuid
  currentJobChangedAt : Option τ
  lastHeartbeat : Option τ
deriving DecidableEq

structure TransactionRow (τ : Type) where
  id : OAuth.Uuid
  expiresAt : τ
deriving DecidableEq

section Clauses

variable {τ : Type} [LT τ] [DecidableLT τ] (cutoff : τ)

def ownerRow (workers : List (WorkerRow τ)) (j : JobRow τ) : Option (WorkerRow τ) :=
  j.workerId.bind fun id => workers.find? fun w => w.id = id

-- `requeue_orphan_active_jobs`: the subquery, and the outer condition that repeats it.
def orphaned (workers : List (WorkerRow τ)) (j : JobRow τ) : Bool :=
  (j.status.isActive && ((ownerRow workers j).all fun w => !w.status.isAlive) &&
    decide (j.updatedAt < cutoff)) && j.status.isActive && decide (j.updatedAt < cutoff)

-- `requeue_abandoned_active_jobs`.
def abandoned (workers : List (WorkerRow τ)) (j : JobRow τ) : Bool :=
  (j.status.isActive && (ownerRow workers j).any fun w =>
    w.status.isAlive && w.currentJobId != some j.id &&
      w.currentJobChangedAt.any (fun t => decide (t < cutoff)) && decide (j.updatedAt < cutoff)) &&
    j.status.isActive && decide (j.updatedAt < cutoff)

-- `cleanup_stale_workers`.
def stale (w : WorkerRow τ) : Bool :=
  w.status.isAlive && w.lastHeartbeat.any fun t => decide (t < cutoff)

-- `purge_expired_transactions`.
def purged (r : TransactionRow τ) : Bool := decide (r.expiresAt < cutoff)

end Clauses

section Representation

variable {τ σ : Type} (f : τ → σ)

def JobRow.map (j : JobRow τ) : JobRow σ := ⟨j.id, j.workerId, j.status, f j.updatedAt⟩

def WorkerRow.map (w : WorkerRow τ) : WorkerRow σ :=
  ⟨w.id, w.status, w.currentJobId, w.currentJobChangedAt.map f, w.lastHeartbeat.map f⟩

def TransactionRow.map (r : TransactionRow τ) : TransactionRow σ := ⟨r.id, f r.expiresAt⟩

theorem ownerRow_map (workers : List (WorkerRow τ)) (j : JobRow τ) :
    ownerRow (workers.map (WorkerRow.map f)) (j.map f) = (ownerRow workers j).map (WorkerRow.map f) := by
  cases hworker : j.workerId with
  | none => simp [ownerRow, JobRow.map, hworker]
  | some id =>
    simp only [ownerRow, JobRow.map, hworker, Option.bind_some, List.find?_map]
    rfl

variable [LT τ] [DecidableLT τ] [LT σ] [DecidableLT σ] {f} (hf : ∀ x y, f x < f y ↔ x < y)
include hf

theorem before_map (t : Option τ) (cutoff : τ) :
    (t.map f).any (fun t => decide (t < f cutoff)) = t.any fun t => decide (t < cutoff) := by
  cases t with
  | none => rfl
  | some t => simp [hf]

theorem orphaned_map (cutoff : τ) (workers : List (WorkerRow τ)) (j : JobRow τ) :
    orphaned (f cutoff) (workers.map (WorkerRow.map f)) (j.map f) = orphaned cutoff workers j := by
  have howner : ((ownerRow workers j).map (WorkerRow.map f)).all (fun w => !w.status.isAlive) =
      (ownerRow workers j).all fun w => !w.status.isAlive := by
    cases ownerRow workers j <;> rfl
  rw [orphaned, ownerRow_map, howner]
  simp [orphaned, JobRow.map, hf]

theorem abandoned_map (cutoff : τ) (workers : List (WorkerRow τ)) (j : JobRow τ) :
    abandoned (f cutoff) (workers.map (WorkerRow.map f)) (j.map f) = abandoned cutoff workers j := by
  rw [abandoned, ownerRow_map, abandoned]
  cases ownerRow workers j with
  | none => simp
  | some w => simp [JobRow.map, WorkerRow.map, before_map hf, hf]

theorem stale_map (cutoff : τ) (w : WorkerRow τ) :
    stale (f cutoff) (w.map f) = stale cutoff w := by
  simp only [stale, WorkerRow.map, before_map hf]

theorem purged_map (cutoff : τ) (r : TransactionRow τ) :
    purged (f cutoff) (r.map f) = purged cutoff r := by
  simp only [purged, TransactionRow.map, hf]

end Representation

section Stored

-- The same sweeps on the scheduler's store, whose timestamps are instants.
def JobRow.of (j : Job) : JobRow Instant := ⟨j.id, j.workerId, j.status, j.updatedAt⟩

def WorkerRow.of (w : Worker) : WorkerRow Instant :=
  ⟨w.id, w.status, w.currentJobId, w.currentJobChangedAt, w.lastHeartbeat⟩

variable {s : Store} {cutoff grace : Nat}

theorem ownerRow_of (j : Job) : ownerRow (s.workers.rows.map WorkerRow.of) (.of j) =
    (s.owner j).map WorkerRow.of := by
  cases hworker : j.workerId with
  | none => simp [ownerRow, JobRow.of, Store.owner, hworker]
  | some id =>
    simp only [ownerRow, JobRow.of, Store.owner, hworker, Option.bind_some, List.find?_map]
    rfl

theorem before_cutoff (h : cutoff + grace = s.now) (t : Nat) :
    t < cutoff ↔ t + grace < s.now := by
  rw [← h]
  omega

theorem orphaned_of (h : cutoff + grace = s.now) (j : Job) :
    orphaned cutoff (s.workers.rows.map WorkerRow.of) (.of j) = s.orphaned grace j := by
  rw [orphaned, ownerRow_of, Store.orphaned]
  cases hactive : j.status.isActive with
  | false => simp [JobRow.of, hactive]
  | true => cases s.owner j <;> simp [JobRow.of, WorkerRow.of, hactive, before_cutoff h]

theorem abandoned_of (h : cutoff + grace = s.now) (j : Job) :
    abandoned cutoff (s.workers.rows.map WorkerRow.of) (.of j) = s.abandoned grace j := by
  rw [abandoned, ownerRow_of, Store.abandoned]
  cases hactive : j.status.isActive with
  | false => simp [JobRow.of, hactive]
  | true => cases s.owner j <;> simp [JobRow.of, WorkerRow.of, hactive, before_cutoff h]

theorem stale_of (h : cutoff + grace = s.now) (w : Worker) :
    stale cutoff (.of w) = s.stale grace w := by
  simp [stale, WorkerRow.of, Store.stale, before_cutoff h]

end Stored

def JobRow.texts (j : JobRow DateTime) : JobRow String := j.map DateTime.isoformat

def JobRow.instants (j : JobRow DateTime) : JobRow Nat := j.map DateTime.instant

def WorkerRow.texts (w : WorkerRow DateTime) : WorkerRow String := w.map DateTime.isoformat

def WorkerRow.instants (w : WorkerRow DateTime) : WorkerRow Nat := w.map DateTime.instant

def TransactionRow.texts (r : TransactionRow DateTime) : TransactionRow String :=
  r.map DateTime.isoformat

def TransactionRow.instants (r : TransactionRow DateTime) : TransactionRow Nat :=
  r.map DateTime.instant

-- What the sweeps select by the texts is what they select by the instants.
theorem cutoffs_exact :
    (∀ a b : DateTime, a.isoformat < b.isoformat ↔ a.instant < b.instant) ∧
    ∀ cutoff : DateTime,
      (∀ (workers : List (WorkerRow DateTime)) (j : JobRow DateTime),
        orphaned cutoff.isoformat (workers.map WorkerRow.texts) j.texts =
            orphaned cutoff.instant (workers.map WorkerRow.instants) j.instants ∧
          abandoned cutoff.isoformat (workers.map WorkerRow.texts) j.texts =
            abandoned cutoff.instant (workers.map WorkerRow.instants) j.instants) ∧
      (∀ w : WorkerRow DateTime, stale cutoff.isoformat w.texts = stale cutoff.instant w.instants) ∧
      ∀ r : TransactionRow DateTime,
        purged cutoff.isoformat r.texts = purged cutoff.instant r.instants := by
  have htext : ∀ x y : DateTime, x.isoformat < y.isoformat ↔ x < y := fun _ _ =>
    DateTime.isoformat_lt_iff
  have hinstant : ∀ x y : DateTime, x.instant < y.instant ↔ x < y := fun _ _ =>
    DateTime.instant_lt_iff
  refine ⟨fun a b => (htext a b).trans (hinstant a b).symm, fun cutoff =>
    ⟨fun workers j => ⟨?_, ?_⟩, fun w => ?_, fun r => ?_⟩⟩
  · exact (orphaned_map htext cutoff workers j).trans (orphaned_map hinstant cutoff workers j).symm
  · exact (abandoned_map htext cutoff workers j).trans (abandoned_map hinstant cutoff workers j).symm
  · exact (stale_map htext cutoff w).trans (stale_map hinstant cutoff w).symm
  · exact (purged_map htext cutoff r).trans (purged_map hinstant cutoff r).symm

end TranscodeForge.Timestamps
