import TranscodeForge.Interaction.Recorded
import TranscodeForge.Relational.Versions
import TranscodeForge.Scheduler.WellFormed

namespace TranscodeForge.Postgres

open Relational Interaction Scheduler Store

-- The rows that transactions lock. The other tables are written by statements that commit on
-- their own, one row each.
inductive RowId where
  | job (id : Uuid)
  | media (id : String)
  | skipped (filePath : String)
deriving DecidableEq

abbrev RowId.Version : RowId → Type
  | .job _ => Option Job
  | .media _ => Option MediaFile
  | .skipped _ => Option SkippedFile

def rowOf (s : Store) : (r : RowId) → r.Version
  | .job id => s.jobs.get? id
  | .media id => s.media.get? id
  | .skipped filePath => s.skippedFiles.get? filePath

def copyRow (src dst : Store) : RowId → Store
  | .job id => { dst with jobs := src.jobs.copy dst.jobs id }
  | .media id => { dst with media := src.media.copy dst.media id }
  | .skipped filePath => { dst with skippedFiles := src.skippedFiles.copy dst.skippedFiles filePath }

def storeRows : Rows Store RowId RowId.Version where
  row := rowOf
  copy := copyRow
  row_copy src dst r r' := by
    cases r <;> cases r' <;> simp [rowOf, copyRow, Table.get?_copy]

abbrev Pg := Versions Store RowId Nat

section Locking

variable (v : Store)

def jobRows (p : Job → Bool) : List RowId := (v.jobs.select p).map fun j => .job j.id

def mediaRows (p : MediaFile → Bool) : List RowId := (v.media.select p).map fun m => .media m.id

-- The rows a statement takes locks on, in the state it sees when it starts.
def locks : Statement → List RowId
  | .createJob _ => [.job v.nextUuid]
  | .updateJob id _ => jobRows v fun j => j.id == id
  | .cancelIfWaiting id => jobRows v (cancellable id)
  | .finalizeJob id workerId _ claimToken _ => jobRows v (finalizable id workerId claimToken)
  | .reportProgress id workerId claimToken _ => jobRows v (progressable id workerId claimToken)
  | .releaseJobs workerId => jobRows v (ownedActive workerId)
  | .requeueOrphanActiveJobs minIdle => jobRows v (v.orphaned minIdle)
  | .requeueAbandonedActiveJobs grace => jobRows v (v.abandoned grace)
  | .claimNextJob _ codecs supportsDownscale =>
    (v.nextClaimable (claimCodecs codecs) supportsDownscale).toList.map fun j => .job j.id
  | .cancelAllJobs => jobRows v fun j => j.status.isWaiting
  | .selectJobIds statuses => jobRows v fun j => statuses.all fun l => l.contains j.status
  | .deleteJobRows ids => jobRows v fun j => ids.contains j.id
  | .releaseMedia ids => mediaRows v (linkedTo ids)
  | .updateMediaStatus fileId _ _ _ => mediaRows v fun m => m.id == fileId
  | .updateStatusByJob jobId _ _ => mediaRows v fun m => m.jobId == some jobId
  | .updateOutput jobId _ _ => mediaRows v (v.swapped jobId)
  | .describeOutput fileId _ _ _ _ => mediaRows v fun m => m.id == fileId
  | .cancelAllMedia _ => mediaRows v v.waitingJob
  | .recordSkip f => [.skipped f.filePath]
  | _ => []

end Locking

def locksRows : Statement → Bool
  | .selectJobIds _ | .recordSkip _ => true
  | q => q.writesJobs || q.writesMedia

def skipsLocked : Statement → Bool
  | .claimNextJob _ _ _ => true
  | _ => false

namespace Pg

variable (s : Pg) (t : Nat)

-- What a statement sees when it starts. SKIP LOCKED hides what others have locked.
def snapshot (q : Statement) : Store :=
  if skipsLocked q then
    { s.view storeRows t with
      jobs := (s.view storeRows t).jobs.delete fun j => !s.isFree t (.job j.id) }
  else s.view storeRows t

def scan (q : Statement) : Pg × List RowId :=
  let v := s.snapshot t q
  let begun : Pg := Versions.setWork { s with committed := s.committed.drawUuid } t v
  if skipsLocked q then ((locks v q).foldl (fun s r => s.lock storeRows t r) begun, [])
  else (begun, locks v q)

def apply (q : Statement) : Pg × q.Answer :=
  let (w, answer) := q.exec (s.work t)
  (s.setWork t w, answer)

def direct (q : Statement) : Pg × q.Answer :=
  let (v, answer) := q.exec (s.view storeRows t)
  ({ s with
      committed :=
        { v with
          jobs := s.committed.jobs
          media := s.committed.media
          skippedFiles := s.committed.skippedFiles } }, answer)

end Pg

inductive PgOp where
  | direct (q : Statement)
  | scan (q : Statement)
  | lock (r : RowId)
  | apply (q : Statement)
  | commit

abbrev PgOp.Answer : PgOp → Type
  | .direct q | .apply q => q.Answer
  | .scan _ => List RowId
  | .lock _ | .commit => Unit

abbrev PgRoute (α : Type) := Program PgOp PgOp.Answer HttpError α

namespace PgOp

def exec (t : Nat) (s : Pg) : (op : PgOp) → Pg × op.Answer
  | .direct q => s.direct t q
  | .scan q => s.scan t q
  | .lock r => (s.lock storeRows t r, ())
  | .apply q => s.apply t q
  | .commit => (s.commit storeRows t, ())

-- A row lock is waited for.
def ready (t : Nat) (s : Pg) : PgOp → Bool
  | .lock r => s.isFree t r
  | _ => true

end PgOp

def lockEach (rows : List RowId) : PgRoute Unit := .each rows fun r => .call (.lock r) .ret

-- READ COMMITTED: a statement finds its rows in what is committed when it starts, waits for the
-- lock on each, and looks again at the row it then gets.
def statement (q : Statement) : PgRoute q.Answer :=
  if locksRows q then
    .call (.scan q) fun rows => (lockEach rows).bind fun _ => .call (.apply q) .ret
  else .call (.direct q) .ret

def transacted {α : Type} : Block α → PgRoute α
  | .ret a => .ret a
  | .raise e => e.elim
  | .call q k => (statement q).bind fun a => transacted (k a)

def committing {α : Type} (p : PgRoute α) : PgRoute α := p.bind fun a => .call .commit fun _ => .ret a

-- A statement outside a block is a transaction of its own.
def transaction : (op : Op) → PgRoute op.Answer
  | .statement q => committing (statement q)
  | .reportBlock p => committing (transacted p)
  | .batchBlock p => committing (transacted p)

inductive PgRequest where
  | serve (r : Request)
  | deleteJobs (statuses : Option (List JobStatus))
deriving DecidableEq

def PgRequest.route : PgRequest → Route Response
  | .serve r => r.body .isolated
  | .deleteJobs statuses => Scheduler.deleteJobs .isolated statuses

-- A transaction can be cut off at any point, also to break a deadlock.
inductive PgEvent where
  | elapse (n : Nat)
  | abort (t : Nat)

def pgHandler : Handler Nat PgOp PgOp.Answer Pg Unit where
  exec t op _ s := op.exec t s
  ready t op s := op.ready t s

-- A request is given a connection that holds nothing.
def postgres : System Nat PgRequest PgEvent PgOp PgOp.Answer Pg Unit HttpError Response where
  handler := pgHandler
  body _ r := r.route.expand transaction
  start t r s :=
    match r with
    | .serve r =>
      if r.token?.all fun token => s.committed.findActive token.tokenHash = some token then
        some (s.release t)
      else none
    | .deleteJobs _ => some (s.release t)
  disturb
    | .elapse n, s => { s with committed := { s.committed with now := s.committed.now + n } }
    | .abort t, s => s.release t
  kills
    | .elapse _, _ => false
    | .abort t, t' => t == t'

abbrev PgCall := ThreadCall Nat PgRequest PgOp Pg Unit

abbrev PgConfig := Config Nat PgRequest PgOp PgOp.Answer Pg HttpError Response

abbrev PgRun (s : Pg) (es : List PgCall) (d : PgConfig) : Prop :=
  Run postgres (.initial s) es d

end TranscodeForge.Postgres
