import TranscodeForge.Scheduler.JobSteps

namespace TranscodeForge.Scheduler

open Relational Interaction Store

def registration (id : Uuid) (body : RegisterRequest) : Worker where
  id := id
  name := body.name
  host := body.host
  supportedCodecs := if body.supportedCodecs.isEmpty then ["hevc"] else body.supportedCodecs
  supportsDownscale := body.supportsDownscale
  sendsClaimToken := body.sendsClaimToken
  status := .online

-- Which statements a terminal report can send.
def ReportSends (owner : Option Uuid) (jobId : Uuid) (incoming : JobStatus)
    (claimToken : Option Uuid) : Statement → Prop
  | .getJob id => id = jobId
  | .getWorker w => owner = some w ∧ claimToken = none
  | .finalizeJob id w status attempt _ =>
    id = jobId ∧ w = owner ∧ status = incoming ∧ attempt = claimToken
  | .updateStatusByJob id _ _ | .updateOutput id _ _ | .selectSwapped id => id = jobId
  | .lookupByKey _ | .utcNow | .recordSkip _ | .describeOutput _ _ _ _ _ => True
  | _ => False

namespace Request

def Sends : Request → Statement → Prop
  | register token body, q =>
    match q with
    | .getWorker w => token.workerId = some w
    | .linkWorker tokenHash _ expected =>
      tokenHash = token.tokenHash ∧ expected = token.workerId
    | .upsertWorker w => w = registration w.id body
    | .utcNow | .uuid4 | .releaseJobs _ => True
    | _ => False
  | heartbeat token body, q =>
    token.workerId = some body.workerId ∧
      q = .updateWorkerHeartbeat body.workerId body.status body.currentJobId
  | claim token workerId, q =>
    token.workerId = some workerId ∧
      match q with
      | .claimNextJob w _ _ => w = workerId
      | .isQueuePaused | .getWorker _ => True
      | _ => False
  | checkDerivative token jobId _ claimToken, q =>
    ReportSends token.workerId jobId .complete claimToken q ∧
      match q with
      | .updateStatusByJob _ _ _ | .updateOutput _ _ _ | .describeOutput _ _ _ _ _
      | .recordSkip _ => False
      | _ => True
  | progress token jobId body, q =>
    match q with
    | .getJob id => id = jobId
    | .getWorker w => token.workerId = some w ∧ body.claimToken = none
    | .reportProgress id w attempt _ =>
      id = jobId ∧ w = token.workerId ∧ attempt = body.claimToken
    | _ => False
  | complete token jobId body, q =>
    ReportSends token.workerId jobId .complete body.claimToken q
  | skipped token jobId body, q =>
    ReportSends token.workerId jobId .skipped body.claimToken q
  | failed token jobId body, q => ReportSends token.workerId jobId .failed body.claimToken q
  | retry jobId, q =>
    match q with
    | .getJob id => id = jobId
    | .updateJob id u => id = jobId ∧ ∃ job, u = retryUpdate job
    | .updateStatusByJob id status _ => id = jobId ∧ status = .queued
    | .isExcluded _ => True
    | _ => False
  | cancel jobId, q =>
    match q with
    | .getJob id | .cancelIfWaiting id => id = jobId
    | .updateStatusByJob id status _ => id = jobId ∧ status = .needsTranscode
    | _ => False
  | cancelAll, q =>
    match q with
    | .utcNow | .cancelAllMedia _ | .cancelAllJobs => True
    | _ => False
  | clearCompleted, q | reset, q =>
    match q with
    | .selectJobIds _ | .releaseMedia _ | .deleteJobRows _ => True
    | _ => False
  | queueFiles _, q =>
    match q with
    | .createJob draft => draft.status = .queued
    | .updateMediaStatus _ status _ _ => status = .queued
    | .defaultCodec | .targetVmaf | .getByIds _ | .filterExcluded _ | .activePaths _
    | .listLibraries => True
    | _ => False
  | staleWorkers _, q =>
    match q with
    | .cleanupStaleWorkers _ => True
    | _ => False
  | orphanRequeue, q =>
    match q with
    | .requeueOrphanActiveJobs minIdle => minIdle = orphanRequeueGrace
    | .requeueAbandonedActiveJobs grace => grace = abandonedGrace
    | _ => False

-- The transaction block of a terminal report.
def outcomeBlock : Request → Option (Job → Block Bool)
  | complete _ jobId body => some fun job => completeBlock jobId body job body.claimToken
  | skipped _ jobId body => some fun job => skipBlock jobId body job body.claimToken
  | failed _ jobId body => some fun job => failBlock jobId body job body.claimToken
  | _ => none

def owner? (r : Request) : Option Uuid := r.token?.bind WorkerToken.workerId

def isBatch : Request → Bool
  | queueFiles _ | clearCompleted | reset => true
  | _ => false

def Performs (r : Request) : Op → Prop
  | .statement q => r.Sends q
  | .reportBlock p => ∃ block job, r.outcomeBlock = some block ∧ p = block job ∧
      job.workerId = r.owner? ∧ r.owner? ≠ none
  | .batchBlock p => r.isBatch = true ∧ p.Calls r.Sends

end Request

section Calls

variable {A : Op → Prop} {B : Statement → Prop} {ε α β : Type}

theorem calls_run {q : Statement} {k : q.Answer → Program Op Op.Answer ε β}
    (hq : A (.statement q)) (hk : ∀ a, (k a).Calls A) : (run q >>= k).Calls A :=
  ⟨hq, hk⟩

theorem calls_ask {q : Statement} {k : q.Answer → Block β} (hq : B q)
    (hk : ∀ a, (k a).Calls B) : (ask q >>= k).Calls B :=
  ⟨hq, hk⟩

theorem calls_interleaved {p : Block α} (h : p.Calls B) (hA : ∀ q, B q → A (.statement q)) :
    (Block.interleaved p).Calls A := by
  induction p with
  | ret a => trivial
  | raise e => exact e.elim
  | call q k ih => exact ⟨hA q h.1, fun a => ih a (h.2 a)⟩

theorem calls_reportTransaction {mode : Isolation} {p : Block Bool} (h : p.Calls B)
    (hA : ∀ q, B q → A (.statement q)) (hp : A (.reportBlock p)) :
    (reportTransaction mode p).Calls A := by
  cases mode with
  | isolated => exact ⟨hp, fun _ => trivial⟩
  | shared => exact calls_interleaved h hA

theorem calls_batchTransaction {mode : Isolation} {p : Block (Nat × Nat)} (h : p.Calls B)
    (hA : ∀ q, B q → A (.statement q)) (hp : A (.batchBlock p)) :
    (batchTransaction mode p).Calls A := by
  cases mode with
  | isolated => exact ⟨hp, fun _ => trivial⟩
  | shared => exact calls_interleaved h hA

theorem calls_ofExcept {x : Except HttpError α} {k : α → Route β} (hk : ∀ a, (k a).Calls A) :
    (Program.ofExcept x >>= k).Calls A :=
  (Program.Calls.ofExcept x).bind hk

theorem calls_requireOwnedJob {owner : Option Uuid} {jobId : Uuid} {k : Job → Route β}
    (hq : A (.statement (.getJob jobId)))
    (hk : ∀ job, job.workerId = owner → owner ≠ none → (k job).Calls A) :
    (requireOwnedJob owner jobId >>= k).Calls A := by
  refine ⟨hq, fun row => ?_⟩
  cases row with
  | none => trivial
  | some job =>
    by_cases h : owner = none ∨ job.workerId ≠ owner
    · simp only [Program.ret_bind, if_pos h]
      trivial
    · simp only [Program.ret_bind, if_neg h]
      rw [not_or, not_not] at h
      exact hk job h.2 h.1

theorem calls_requireClaimToken {owner claimToken : Option Uuid} {k : Option Uuid → Route β}
    (hq : ∀ w, owner = some w → claimToken = none → A (.statement (.getWorker w)))
    (hk : (k claimToken).Calls A) : (requireClaimToken owner claimToken >>= k).Calls A := by
  cases claimToken with
  | some token => exact hk
  | none =>
    cases owner with
    | none => exact hk
    | some w =>
      refine ⟨hq w rfl rfl, fun row => ?_⟩
      by_cases h : (row.any (·.sendsClaimToken)) = true
      · simp only [Program.ret_bind, if_pos h]
        trivial
      · simp only [Program.ret_bind, if_neg h]
        exact hk

theorem requireClaimToken_only {owner claimToken : Option Uuid}
    (hA : ∀ w, A (.statement (.getWorker w))) : (requireClaimToken owner claimToken).Calls A := by
  cases claimToken with
  | some token => trivial
  | none =>
    cases owner with
    | none => trivial
    | some w =>
      refine ⟨hA w, fun row => ?_⟩
      simp only [Program.ret_bind]
      split <;> trivial

theorem calls_answerLostFinalize {jobId : Uuid} {incoming : JobStatus} {k : Unit → Route β}
    (hq : A (.statement (.getJob jobId))) (hk : ∀ a, (k a).Calls A) :
    (answerLostFinalize jobId incoming >>= k).Calls A := by
  refine Program.Calls.bind ⟨hq, fun row => ?_⟩ hk
  cases row with
  | none => trivial
  | some job =>
    refine calls_ofExcept fun duplicate => ?_
    cases duplicate <;> trivial

end Calls

section Reports

variable {mode : Isolation} {token : WorkerToken} {jobId : Uuid}

theorem finalizing_calls {job : Job} {owner claimToken : Option Uuid} {incoming : JobStatus}
    {fields : Instant → JobFields} {sync : Block Unit} (howner : job.workerId = owner)
    (hsync : sync.Calls (ReportSends owner jobId incoming claimToken)) :
    (finalizing jobId job incoming claimToken fields sync).Calls
      (ReportSends owner jobId incoming claimToken) := by
  refine calls_ask trivial fun now => calls_ask ⟨rfl, howner, rfl, rfl⟩ fun won => ?_
  cases won with
  | true => exact hsync.bind fun _ => trivial
  | false => trivial

theorem updateOutputByJob_calls {owner claimToken : Option Uuid} {incoming : JobStatus}
    {codec : String} {size : Nat} {height : Option Nat} :
    (updateOutputByJob jobId codec size height).Calls
      (ReportSends owner jobId incoming claimToken) := by
  cases height with
  | none => exact ⟨rfl, fun _ => trivial⟩
  | some h => exact calls_ask rfl fun rows => Program.Calls.each fun m _ => ⟨trivial, fun _ => trivial⟩

theorem completeBlock_calls {body : CompleteRequest} {job : Job} {owner : Option Uuid}
    (howner : job.workerId = owner) :
    (completeBlock jobId body job body.claimToken).Calls
      (ReportSends owner jobId .complete body.claimToken) :=
  finalizing_calls howner (calls_ask rfl fun _ => updateOutputByJob_calls)

theorem skipBlock_calls {body : SkippedRequest} {job : Job} {owner : Option Uuid}
    (howner : job.workerId = owner) :
    (skipBlock jobId body job body.claimToken).Calls
      (ReportSends owner jobId .skipped body.claimToken) :=
  finalizing_calls howner (calls_ask trivial fun _ => ⟨rfl, fun _ => trivial⟩)

theorem failBlock_calls {body : FailedRequest} {job : Job} {owner : Option Uuid}
    (howner : job.workerId = owner) :
    (failBlock jobId body job body.claimToken).Calls
      (ReportSends owner jobId .failed body.claimToken) :=
  finalizing_calls howner ⟨rfl, fun _ => trivial⟩

theorem terminalReport_calls {A : Op → Prop} {incoming : JobStatus} {claimToken : Option Uuid}
    {block : Job → Option Uuid → Block Bool} (hjob : A (.statement (.getJob jobId)))
    (hworker : ∀ w, token.workerId = some w → claimToken = none → A (.statement (.getWorker w)))
    (htransaction : ∀ job, job.workerId = token.workerId → token.workerId ≠ none →
      (reportTransaction mode (block job claimToken)).Calls A) :
    (terminalReport mode token jobId incoming claimToken block).Calls A := by
  refine calls_requireOwnedJob hjob fun job howner hsome => calls_ofExcept fun duplicate => ?_
  cases duplicate with
  | true => trivial
  | false =>
    refine calls_requireClaimToken hworker ((htransaction job howner hsome).bind fun won => ?_)
    cases won with
    | true => trivial
    | false => exact calls_answerLostFinalize hjob fun _ => trivial

theorem completeJob_calls {body : CompleteRequest} :
    (completeJob mode token jobId body).Calls (Request.Performs (.complete token jobId body)) :=
  terminalReport_calls rfl (fun _ hw hnone => ⟨hw, hnone⟩) fun job howner hsome =>
    calls_reportTransaction (completeBlock_calls howner) (fun _ h => h)
      ⟨_, job, rfl, rfl, howner, hsome⟩

theorem skipJob_calls {body : SkippedRequest} :
    (skipJob mode token jobId body).Calls (Request.Performs (.skipped token jobId body)) :=
  terminalReport_calls rfl (fun _ hw hnone => ⟨hw, hnone⟩) fun job howner hsome =>
    calls_reportTransaction (skipBlock_calls howner) (fun _ h => h)
      ⟨_, job, rfl, rfl, howner, hsome⟩

theorem failJob_calls {body : FailedRequest} :
    (failJob mode token jobId body).Calls (Request.Performs (.failed token jobId body)) :=
  terminalReport_calls rfl (fun _ hw hnone => ⟨hw, hnone⟩) fun job howner hsome =>
    calls_reportTransaction (failBlock_calls howner) (fun _ h => h)
      ⟨_, job, rfl, rfl, howner, hsome⟩

theorem checkDerivative_calls {key : String} {claimToken : Option Uuid} :
    (checkDerivative token jobId key claimToken).Calls
      (Request.Performs (.checkDerivative token jobId key claimToken)) := by
  refine calls_requireOwnedJob ⟨rfl, trivial⟩ fun job howner hsome =>
    calls_run ⟨trivial, trivial⟩ fun row => ?_
  cases row with
  | none => trivial
  | some existing =>
    refine calls_ofExcept fun duplicate => ?_
    cases duplicate with
    | true => trivial
    | false =>
      refine calls_requireClaimToken (fun w hw hnone => ⟨⟨hw, hnone⟩, trivial⟩)
        (calls_run ⟨trivial, trivial⟩ fun now =>
          calls_run ⟨⟨rfl, howner, rfl, rfl⟩, trivial⟩ fun won => ?_)
      cases won with
      | true => trivial
      | false => exact calls_answerLostFinalize ⟨rfl, trivial⟩ fun _ => trivial

theorem progress_calls {body : ProgressRequest} :
    (progress token jobId body).Calls (Request.Performs (.progress token jobId body)) := by
  refine calls_requireOwnedJob rfl fun job howner _ =>
    calls_requireClaimToken (fun w hw hnone => ⟨hw, hnone⟩)
      (calls_run ⟨rfl, howner, rfl⟩ fun won => ?_)
  cases won <;> trivial

theorem requireWorkerIdentity_calls {A : Op → Prop} {owner : Option Uuid} {workerId : Uuid}
    {k : Unit → Route Response} (hk : owner = some workerId → (k ()).Calls A) :
    (requireWorkerIdentity owner workerId >>= k).Calls A := by
  by_cases h : owner ≠ some workerId
  · simp only [requireWorkerIdentity, if_pos h]
    trivial
  · simp only [requireWorkerIdentity, if_neg h]
    exact hk (not_not.mp h)

theorem heartbeat_calls {body : HeartbeatRequest} :
    (heartbeat token body).Calls (Request.Performs (.heartbeat token body)) :=
  requireWorkerIdentity_calls fun h => calls_run ⟨h, rfl⟩ fun _ => trivial

theorem claimJob_calls {workerId : Uuid} :
    (claimJob token workerId).Calls (Request.Performs (.claim token workerId)) := by
  refine requireWorkerIdentity_calls fun h => calls_run ⟨h, trivial⟩ fun paused => ?_
  cases paused with
  | true => trivial
  | false => exact calls_run ⟨h, trivial⟩ fun _ => calls_run ⟨h, rfl⟩ fun _ => trivial

theorem register_calls {body : RegisterRequest} :
    (register token body).Calls (Request.Performs (.register token body)) := by
  have hcontinue : ∀ id, (Program.bind (run (.upsertWorker (registration id body))) fun _ =>
      Program.bind (run (.releaseJobs id)) fun _ =>
        (.ret (.registered id) : Route Response)).Calls
        (Request.Performs (.register token body)) := fun id =>
    calls_run rfl fun _ => calls_run trivial fun _ => trivial
  refine Program.Calls.bind (f := fun bound => _) ?_ fun bound => Program.Calls.bind ?_ hcontinue
  · unfold registrationTarget
    split
    · trivial
    · next bound hbound =>
      refine calls_run hbound fun row => ?_
      cases row with
      | none => trivial
      | some existing =>
        dsimp only
        split
        · trivial
        · refine calls_run trivial fun now => ?_
          split <;> trivial
  · cases bound with
    | some bound => trivial
    | none =>
      refine calls_run trivial fun id => calls_run ⟨rfl, rfl⟩ fun claimed => ?_
      cases claimed <;> trivial

end Reports

section Jobs

variable {mode : Isolation} {jobId : Uuid}

theorem retryJob_calls : (retryJob jobId).Calls (Request.Performs (.retry jobId)) := by
  refine calls_run rfl fun row => ?_
  cases row with
  | none => trivial
  | some job =>
    dsimp only
    split
    · trivial
    · refine calls_run trivial fun excluded => ?_
      cases excluded with
      | true => trivial
      | false =>
        exact calls_run ⟨rfl, job, rfl⟩ fun _ => calls_run rfl fun _ =>
          calls_run ⟨rfl, rfl⟩ fun _ => trivial

theorem cancelJob_calls : (cancelJob jobId).Calls (Request.Performs (.cancel jobId)) := by
  refine Program.Calls.rescue (Program.Calls.bind ?_ fun _ => trivial) fun e => by
    cases e <;> trivial
  refine calls_run rfl fun cancelled => ?_
  cases cancelled with
  | true =>
    refine calls_run ⟨rfl, rfl⟩ fun _ => calls_run rfl fun row => ?_
    cases row <;> trivial
  | false =>
    refine calls_run rfl fun row => ?_
    cases row <;> trivial

theorem cancelAllPending_calls : cancelAllPending.Calls (Request.Performs .cancelAll) :=
  calls_run trivial fun _ => calls_run trivial fun _ => calls_run trivial fun _ => trivial

theorem deleteChunks_calls {B : Statement → Prop} (hrelease : ∀ ids, B (.releaseMedia ids))
    (hdelete : ∀ ids, B (.deleteJobRows ids)) (chunks : List (List Uuid)) (counts : Nat × Nat) :
    (deleteChunks chunks counts).Calls B := by
  induction chunks generalizing counts with
  | nil => trivial
  | cons chunk chunks ih =>
    exact calls_ask (hrelease chunk) fun _ => calls_ask (hdelete chunk) fun _ => ih _

theorem deleteJobs_calls {r : Request} {statuses : Option (List JobStatus)}
    (hbatch : r.isBatch = true) (hselect : ∀ l, r.Sends (.selectJobIds l)) (hrelease : ∀ ids, r.Sends (.releaseMedia ids))
    (hdelete : ∀ ids, r.Sends (.deleteJobRows ids)) :
    (deleteJobs mode statuses).Calls r.Performs := by
  have hblock : (deleteJobsBlock statuses).Calls r.Sends :=
    calls_ask (hselect statuses) fun _ => deleteChunks_calls hrelease hdelete _ _
  unfold deleteJobs
  split
  · trivial
  · exact Program.Calls.bind (calls_batchTransaction hblock (fun _ h => h) ⟨hbatch, hblock⟩)
      fun _ => trivial

theorem clearCompleted_calls : (clearCompleted mode).Calls (Request.Performs .clearCompleted) :=
  deleteJobs_calls (r := .clearCompleted) rfl (fun _ => trivial) (fun _ => trivial) fun _ => trivial

theorem resetAllJobs_calls : (resetAllJobs mode).Calls (Request.Performs .reset) :=
  deleteJobs_calls (r := .reset) rfl (fun _ => trivial) (fun _ => trivial) fun _ => trivial

theorem queueEach_calls {body : QueueRequest} {libs : List Library} {height : Option Nat}
    {vmaf : Rat} {blocked : List String} (candidates : List (MediaFile × String))
    (seen : List String) (counts : Nat × Nat) :
    (queueEach libs height vmaf blocked candidates seen counts).Calls
      (Request.Sends (.queueFiles body)) := by
  induction candidates generalizing seen counts with
  | nil => trivial
  | cons c rest ih =>
    rw [queueEach]
    split
    · exact ih _ _
    · exact calls_ask rfl fun _ => calls_ask rfl fun _ => ih _ _

theorem queueFiles_calls {body : QueueRequest} :
    (queueFiles mode body).Calls (Request.Performs (.queueFiles body)) := by
  refine calls_run trivial fun _ => calls_run trivial fun _ => calls_run trivial fun _ =>
    calls_run trivial fun _ => calls_run trivial fun _ => Program.Calls.bind ?_ fun _ => trivial
  have hblock := fun vmaf blocked candidates skipped =>
    (calls_ask trivial fun libs => queueEach_calls candidates [] (0, skipped) :
      (queueBlock body.targetHeight vmaf blocked candidates skipped).Calls
        (Request.Sends (.queueFiles body)))
  exact calls_batchTransaction (hblock _ _ _ _) (fun _ h => h) ⟨rfl, hblock _ _ _ _⟩

end Jobs

-- What a request can do to the database, whatever it is answered.
theorem Request.body_calls (mode : Isolation) (r : Request) : (r.body mode).Calls r.Performs := by
  cases r with
  | register token body => exact register_calls
  | heartbeat token body => exact heartbeat_calls
  | claim token workerId => exact claimJob_calls
  | checkDerivative token jobId key claimToken => exact checkDerivative_calls
  | progress token jobId body => exact progress_calls
  | complete token jobId body => exact completeJob_calls
  | skipped token jobId body => exact skipJob_calls
  | failed token jobId body => exact failJob_calls
  | retry jobId => exact retryJob_calls
  | cancel jobId => exact cancelJob_calls
  | cancelAll => exact cancelAllPending_calls
  | clearCompleted => exact clearCompleted_calls
  | reset => exact resetAllJobs_calls
  | queueFiles body => exact queueFiles_calls
  | staleWorkers timeout => exact calls_run trivial fun _ => trivial
  | orphanRequeue => exact calls_run rfl fun _ => calls_run rfl fun _ => trivial

end TranscodeForge.Scheduler
