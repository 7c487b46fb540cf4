import TranscodeForge.Scheduler.Serial
import TranscodeForge.Scheduler.Terminal

namespace TranscodeForge.Catalog

open Relational Interaction Scheduler Store

section Consistency

def OpenJob (s : Store) (id : Uuid) : Prop :=
  ∃ j, s.jobs.get? id = some j ∧ j.status.isTerminal = false

def Linked (s : Store) (m : MediaFile) : Prop :=
  m.transcodeStatus.inFlight = true → ∃ id, m.jobId = some id ∧ OpenJob s id

def Consistent (s : Store) : Prop := ∀ m ∈ s.media, Linked s m

-- Between the two writes of a transition only the rows of its own job may lag behind.
def ConsistentBut (id : Uuid) (s : Store) : Prop := ∀ m ∈ s.media, m.jobId ≠ some id → Linked s m

variable {s : Store} {q : Statement} {id : Uuid}

theorem Consistent.but (h : Consistent s) (id : Uuid) : ConsistentBut id s := fun m hm _ => h m hm

theorem consistent_timeless : Timeless Consistent := fun _ _ h => h

theorem consistentBut_timeless (id : Uuid) : Timeless (ConsistentBut id) := fun _ _ h => h

theorem Linked.of_jobs {s' : Store} {m : MediaFile} (h : Linked s m)
    (hjobs : ∀ id, OpenJob s id → OpenJob s' id) : Linked s' m := by
  intro hflight
  obtain ⟨id, hid, hopen⟩ := h hflight
  exact ⟨id, hid, hjobs id hopen⟩

-- The statements that end no job.
def Continues : Statement → Prop
  | .finalizeJob _ _ _ _ _ | .cancelIfWaiting _ | .cancelAllJobs | .deleteJobRows _ => False
  | _ => True

theorem OpenJob.next (h : OpenJob s id) (hq : q.Proper) (hcontinues : Continues q) :
    OpenJob (q.next s) id := by
  obtain ⟨j, hj, hopen⟩ := h
  have hrow := q.next_row s id
  rw [hj] at hrow
  generalize hafter : (q.next s).jobs.get? id = after at hrow
  cases hrow with
  | kept => exact ⟨j, hafter, hopen⟩
  | deleted heq =>
    subst heq
    exact hcontinues.elim
  | changed hstep =>
    refine ⟨_, hafter, ?_⟩
    cases hstep with
    | finalized => exact hcontinues.elim
    | cancelled => exact hcontinues.elim
    | cancelledAll => exact hcontinues.elim
    | progressed => exact hopen
    | updated =>
      obtain ⟨job, rfl⟩ := hq
      rfl
    | _ => rfl

theorem Consistent.of_continues (hs : Consistent s) (hq : q.Proper) (hcontinues : Continues q)
    (hmedia : q.writesMedia = false) : Consistent (q.next s) := by
  intro m hm
  rw [Statement.media_eq hmedia] at hm
  exact (hs m hm).of_jobs fun id hopen => hopen.next hq hcontinues

def TouchesOnly (id : Uuid) : Statement → Prop
  | .finalizeJob id' _ _ _ _ | .cancelIfWaiting id' => id' = id
  | _ => False

-- A transition of one job leaves the rows of the others linked.
theorem Consistent.touched (hs : Consistent s) (hq : TouchesOnly id q) :
    ConsistentBut id (q.next s) := by
  have hmedia : q.writesMedia = false := by
    cases q <;> first | rfl | exact hq.elim
  intro m hm hother hflight
  rw [Statement.media_eq hmedia] at hm
  obtain ⟨id', hid', j, hj, hopen⟩ := hs m hm hflight
  have hne : id' ≠ id := fun heq => hother (heq ▸ hid')
  refine ⟨id', hid', j, ?_, hopen⟩
  have hrow := q.next_row s id'
  rw [hj] at hrow
  generalize hafter : (q.next s).jobs.get? id' = after at hrow
  cases hrow with
  | kept => rfl
  | deleted heq =>
    subst heq
    exact hq.elim
  | changed hstep =>
    cases hstep with
    | finalized hp =>
      exact absurd ((Table.get?_key hj).symm.trans ((finalizable_id hp).trans hq)) hne
    | cancelled hp =>
      exact absurd ((Table.get?_key hj).symm.trans ((cancellable_id hp).trans hq)) hne
    | _ => exact hq.elim

theorem mem_updateMedia {p : MediaFile → Bool} {set : MediaFile → MediaFile}
    {hset : ∀ m, (set m).id = m.id} {m' : MediaFile} :
    m' ∈ (s.updateMedia p set hset).media ↔ ∃ m ∈ s.media, (if p m then set m else m) = m' := by
  change m' ∈ s.media.update p set hset ↔ _
  exact Table.mem_update

-- The catalog's part of a transition brings the rows of the job back in step.
theorem ConsistentBut.synced {status : TranscodeStatus} {reason : Option String}
    (hs : ConsistentBut id s) (hstatus : status.inFlight = true → OpenJob s id) :
    Consistent ((Statement.updateStatusByJob id status reason).next s) := by
  intro m' hm'
  obtain ⟨m, hm, rfl⟩ := mem_updateMedia.mp hm'
  split
  · next hjob => exact fun hflight => ⟨id, beq_iff_eq.mp hjob, hstatus hflight⟩
  · next hjob => exact hs m hm (by simpa using hjob)

-- The statements that rewrite a media row but neither its status nor its job.
def Describes : Statement → Prop
  | .updateOutput _ _ _ | .describeOutput _ _ _ _ _ | .selectSwapped _ | .recordSkip _ => True
  | _ => False

theorem downscaled_link (m : MediaFile) (width : Option Nat) (height : Nat) :
    (m.downscaled width height).transcodeStatus = m.transcodeStatus ∧
      (m.downscaled width height).jobId = m.jobId := by
  cases width <;> exact ⟨rfl, rfl⟩

theorem described_row (hq : Describes q) {m' : MediaFile} (hm' : m' ∈ (q.next s).media) :
    ∃ m ∈ s.media, m'.transcodeStatus = m.transcodeStatus ∧ m'.jobId = m.jobId := by
  cases q with
  | selectSwapped => exact ⟨m', hm', rfl, rfl⟩
  | recordSkip => exact ⟨m', hm', rfl, rfl⟩
  | updateOutput jobId codec size =>
    obtain ⟨m, hm, rfl⟩ := mem_updateMedia.mp hm'
    refine ⟨m, hm, ?_⟩
    split <;> exact ⟨rfl, rfl⟩
  | describeOutput fileId codec size width height =>
    obtain ⟨m, hm, rfl⟩ := mem_updateMedia.mp hm'
    refine ⟨m, hm, ?_⟩
    split
    · exact downscaled_link (m.described codec size s.now) width height
    · exact ⟨rfl, rfl⟩
  | _ => exact hq.elim

theorem describes_jobs (hq : Describes q) : (q.next s).jobs = s.jobs := by
  cases q <;> first | rfl | exact hq.elim

theorem Consistent.described (hs : Consistent s) (hq : Describes q) : Consistent (q.next s) := by
  intro m' hm' hflight
  obtain ⟨m, hm, hstatus, hjob⟩ := described_row hq hm'
  rw [hstatus] at hflight
  obtain ⟨id, hid, j, hj, hopen⟩ := hs m hm hflight
  refine ⟨id, hjob.trans hid, j, ?_, hopen⟩
  rw [describes_jobs hq]
  exact hj

theorem Consistent.queued (hs : Consistent s) (hopen : OpenJob s id) (fileId : String) :
    Consistent ((Statement.updateMediaStatus fileId .queued none (some id)).next s) := by
  intro m' hm'
  obtain ⟨m, hm, rfl⟩ := mem_updateMedia.mp hm'
  split
  · exact fun _ => ⟨id, rfl, hopen⟩
  · exact hs m hm

theorem createJob_opens (hs : s.WellFormed) {draft : Job} (hdraft : draft.status = .queued) :
    OpenJob ((Statement.createJob draft).next s) s.nextUuid := by
  have hfree : s.jobs.get? s.nextUuid = none := by
    rw [Option.eq_none_iff_forall_ne_some]
    intro j hj
    exact absurd (hs.drawnId _ j hj) (Nat.lt_irrefl _)
  refine ⟨draft.inserted s.nextUuid s.now, ?_, ?_⟩
  · change (s.jobs.insert (draft.inserted s.nextUuid s.now)).get? s.nextUuid = _
    rw [Table.get?_insert_of_free hfree]
    exact if_pos rfl
  · change draft.status.isTerminal = false
    rw [hdraft]
    rfl

-- What deleting the jobs of a chunk has to find: no row points at them any more.
def Unlinked (ids : List Uuid) (s : Store) : Prop :=
  ∀ m ∈ s.media, ∀ id, m.jobId = some id → id ∉ ids

theorem Consistent.released (hs : Consistent s) (ids : List Uuid) :
    Consistent ((Statement.releaseMedia ids).next s) ∧
      Unlinked ids ((Statement.releaseMedia ids).next s) := by
  constructor
  · intro m' hm'
    obtain ⟨m, hm, rfl⟩ := mem_updateMedia.mp hm'
    split
    · intro hflight
      cases hstatus : m.transcodeStatus <;> simp [MediaFile.unlinked, hstatus] at hflight <;> cases hflight
    · exact hs m hm
  · intro m' hm' id hid
    obtain ⟨m, hm, rfl⟩ := mem_updateMedia.mp hm'
    split at hid
    · cases hid
    · next hlink =>
      rw [linkedTo, hid] at hlink
      simpa using hlink

theorem Consistent.deleted {ids : List Uuid} (hs : Consistent s) (hunlinked : Unlinked ids s) :
    Consistent ((Statement.deleteJobRows ids).next s) := by
  intro m hm hflight
  obtain ⟨id, hid, j, hj, hopen⟩ := hs m hm hflight
  refine ⟨id, hid, j, ?_, hopen⟩
  change (s.jobs.delete _).get? id = some j
  rw [Table.get?_delete, hj]
  simp [Table.get?_key hj, hunlinked m hm id hid]

-- What cancelling every waiting job has to find: no row that is in flight waits for one.
def NoneWaiting (s : Store) : Prop :=
  ∀ m ∈ s.media, m.transcodeStatus.inFlight = true → s.waitingJob m = false

theorem Consistent.cancelledMedia (hs : Consistent s) (now : Instant) :
    Consistent ((Statement.cancelAllMedia now).next s) ∧
      NoneWaiting ((Statement.cancelAllMedia now).next s) := by
  constructor <;> intro m' hm' <;> obtain ⟨m, hm, rfl⟩ := mem_updateMedia.mp hm' <;> split
  · exact fun hflight => by cases hflight
  · exact hs m hm
  · exact fun hflight => by cases hflight
  · next hwaiting => exact fun _ => Bool.eq_false_iff.mpr hwaiting

theorem Consistent.cancelledJobs (hs : Consistent s) (hnone : NoneWaiting s) :
    Consistent (Statement.cancelAllJobs.next s) := by
  intro m hm hflight
  obtain ⟨id, hid, j, hj, hopen⟩ := hs m hm hflight
  have hrow := Statement.cancelAllJobs.next_row s id
  rw [hj] at hrow
  generalize hafter : (Statement.cancelAllJobs.next s).jobs.get? id = after at hrow
  cases hrow with
  | kept => exact ⟨id, hid, j, hafter, hopen⟩
  | deleted heq => cases heq
  | changed hstep =>
    cases hstep with
    | cancelledAll hwaiting =>
      have hwait := hnone m hm hflight
      simp [Store.waitingJob, hid, hj, hwaiting] at hwait

end Consistency

section Harmless

def Harmless (q : Statement) : Prop := q.Proper ∧ Continues q ∧ q.writesMedia = false

def HarmlessOp : Op → Prop := Op.Does Harmless

abbrev Serves {ε α : Type} (p : Program Op Op.Answer ε α) (s : Store) : Prop :=
  p.wp handler 0 clock (fun _ s => Consistent s) s

variable {s : Store} {ε α β : Type}

theorem Consistent.harmless {q : Statement} (hs : Consistent s) (hq : Harmless q) :
    Consistent (q.next s) :=
  hs.of_continues hq.1 hq.2.1 hq.2.2

theorem harmless_serves {p : Program Op Op.Answer ε α} (hp : p.Calls HarmlessOp)
    (hs : Consistent s) : Serves p s :=
  wp_clock_of_calls consistent_timeless hs hp fun _ _ hop hs =>
    Op.exec_keeps hop hs fun _ _ hq hs => hs.harmless hq

-- The requests that neither end a job nor write to the catalog.
def EndsNothing : Request → Prop
  | .register _ _ | .heartbeat _ _ | .claim _ _ | .progress _ _ _ | .staleWorkers _
  | .orphanRequeue => True
  | _ => False

theorem sends_harmless {r : Request} {q : Statement} (hr : EndsNothing r) (hq : r.Sends q) :
    Harmless q := by
  refine ⟨hq.proper, ?_⟩
  cases r with
  | heartbeat => exact hq.2 ▸ ⟨trivial, rfl⟩
  | claim => cases q <;> first | exact ⟨trivial, rfl⟩ | exact hq.2.elim
  | register => cases q <;> first | exact ⟨trivial, rfl⟩ | exact hq.elim
  | progress => cases q <;> first | exact ⟨trivial, rfl⟩ | exact hq.elim
  | staleWorkers => cases q <;> first | exact ⟨trivial, rfl⟩ | exact hq.elim
  | orphanRequeue => cases q <;> first | exact ⟨trivial, rfl⟩ | exact hq.elim
  | _ => exact hr.elim

theorem endsNothing_serves {mode : Isolation} {r : Request} (hr : EndsNothing r)
    (hs : Consistent s) : Serves (r.body mode) s :=
  harmless_serves ((r.body_calls mode).mono fun _ hop =>
    (Request.Performs.does hop).mono fun _ hq => sends_harmless hr hq) hs

theorem serves_seq {p : Program Op Op.Answer ε α} {f : α → Program Op Op.Answer ε β}
    (hp : Serves p s) (hf : ∀ a s, Consistent s → Serves (f a) s) : Serves (p.bind f) s :=
  Program.wp_seq (R := fun _ s => Consistent s) hp hf fun _ _ hs => hs

theorem requireOwnedJob_harmless (owner : Option Uuid) (jobId : Uuid) :
    (requireOwnedJob owner jobId).Calls HarmlessOp :=
  Attempts.requireOwnedJob_only owner ⟨trivial, trivial, rfl⟩

end Harmless

section Reports

variable {mode : Isolation} {s : Store} {jobId : Uuid}

theorem finalizing_triple {job : Job} {incoming : JobStatus} {attempt : Option Uuid}
    {fields : Instant → JobFields} {sync : Block Unit} (hs : Consistent s)
    (hsync : ∀ s, ConsistentBut jobId s → sync.Triple (fun _ s => Consistent s) s) :
    (finalizing jobId job incoming attempt fields sync).Triple (fun _ s => Consistent s) s := by
  refine wp_clock consistent_timeless hs fun s₁ hs₁ => ?_
  refine wp_clock consistent_timeless hs₁ fun s₂ hs₂ => ?_
  change (if (s₂.finalizeJob jobId job.workerId incoming attempt (fields s₁.now)).2 = true then
    sync.bind fun _ => .ret true else .ret false : Block Bool).wp _ _ _ _
      (s₂.finalizeJob jobId job.workerId incoming attempt (fields s₁.now)).1
  rcases finalizeJob_cases s₂ jobId job.workerId incoming attempt (fields s₁.now) with
    hlost | ⟨hwon, -⟩
  · rw [hlost]
    exact fun _ _ => hs₂
  · rw [if_pos hwon]
    refine Program.wp_seq (hsync _ ?_) (fun a s hs => fun _ _ => hs a rfl) fun e => e.elim
    exact hs₂.touched (q := .finalizeJob jobId job.workerId incoming attempt (fields s₁.now)) rfl

theorem terminalReport_serves {token : WorkerToken} {incoming : JobStatus}
    {claimToken : Option Uuid} {block : Job → Option Uuid → Block Bool} (hs : Consistent s)
    (hblock : ∀ job attempt s, Consistent s →
      (block job attempt).Triple (fun _ s => Consistent s) s) :
    Serves (terminalReport mode token jobId incoming claimToken block) s := by
  refine serves_seq (harmless_serves (requireOwnedJob_harmless _ _) hs) fun job s₁ hs₁ => ?_
  cases isDuplicateTerminalReport job incoming with
  | error e => exact hs₁
  | ok duplicate =>
    cases duplicate with
    | true => exact hs₁
    | false =>
      change Serves (Program.bind (requireClaimToken token.workerId claimToken) _) s₁
      refine serves_seq (harmless_serves (requireClaimToken_only fun _ => ⟨trivial, trivial, rfl⟩) hs₁)
        fun attempt s₂ hs₂ => serves_seq ?_ fun won s₃ hs₃ => ?_
      · refine Program.wp_mono (reportTransaction_wp (Q := fun _ s => Consistent s)
          fun s₃ hlater => hblock job attempt s₃ (consistent_timeless.keeps s₂ s₃ hs₂ hlater)) ?_
        rintro o s₃ ⟨a, rfl, hs₃⟩
        exact hs₃
      · cases won with
        | true => exact hs₃
        | false =>
          exact harmless_serves
            (calls_answerLostFinalize ⟨trivial, trivial, rfl⟩ fun _ => trivial) hs₃

theorem updateOutputByJob_triple {codec : String} {size : Nat} {height : Option Nat}
    (hs : Consistent s) :
    (updateOutputByJob jobId codec size height).Triple (fun _ s => Consistent s) s := by
  have hcalls : (updateOutputByJob jobId codec size height).Calls Describes := by
    cases height with
    | none => exact ⟨trivial, fun _ => trivial⟩
    | some h => exact calls_ask trivial fun rows => Program.Calls.each fun m _ => ⟨trivial, fun _ => trivial⟩
  refine Program.wp_mono (wp_clock_of_calls consistent_timeless hs hcalls
    fun q s hq hs => hs.described hq) fun _ _ hs _ _ => hs

theorem completeBlock_triple {body : CompleteRequest} (job : Job) (attempt : Option Uuid)
    (s : Store) (hs : Consistent s) :
    (completeBlock jobId body job attempt).Triple (fun _ s => Consistent s) s :=
  finalizing_triple hs fun _ hs => wp_clock (consistentBut_timeless jobId) hs fun _ hs =>
    updateOutputByJob_triple (hs.synced fun h => by cases h)

theorem skipBlock_triple {body : SkippedRequest} (job : Job) (attempt : Option Uuid) (s : Store)
    (hs : Consistent s) : (skipBlock jobId body job attempt).Triple (fun _ s => Consistent s) s :=
  finalizing_triple hs fun _ hs => wp_clock (consistentBut_timeless jobId) hs fun _ hs =>
    wp_clock (consistentBut_timeless jobId) (P := ConsistentBut jobId) hs fun _ hs =>
      fun _ _ => hs.synced fun h => by cases h

theorem failBlock_triple {body : FailedRequest} (job : Job) (attempt : Option Uuid) (s : Store)
    (hs : Consistent s) : (failBlock jobId body job attempt).Triple (fun _ s => Consistent s) s :=
  finalizing_triple hs fun _ hs => wp_clock (consistentBut_timeless jobId) hs fun _ hs =>
    fun _ _ => hs.synced fun h => by cases h

end Reports

section Jobs

variable {mode : Isolation} {s : Store} {jobId : Uuid}

theorem retried_opens (hpresent : ∃ j, s.jobs.get? jobId = some j) (job : Job) :
    OpenJob ((Statement.updateJob jobId (retryUpdate job)).next s) jobId := by
  obtain ⟨j, hj⟩ := hpresent
  have hlook : ((Statement.updateJob jobId (retryUpdate job)).next s).jobs.get? jobId =
      (s.jobs.get? jobId).map fun j =>
        if j.id == jobId then (retryUpdate job).applyTo s.now j else j := get?_updateJobs ..
  refine ⟨(retryUpdate job).applyTo s.now j, ?_, rfl⟩
  rw [hlook, hj, Option.map_some, if_pos (beq_iff_eq.mpr (Table.get?_key hj))]

theorem retryJob_serves (hs : Consistent s) : Serves (retryJob jobId) s := by
  let Present (s : Store) : Prop := Consistent s ∧ ∃ j, s.jobs.get? jobId = some j
  have hpresent : Timeless Present := fun _ _ h => h
  refine wp_clock consistent_timeless hs fun s hs => ?_
  generalize hanswer : handler.answer 0 (.statement (.getJob jobId)) () s = row
  have hrow : s.jobs.get? jobId = row := hanswer
  cases row with
  | none => exact hs
  | some job =>
    simp only [Program.ret_bind]
    split
    · exact hs
    · refine wp_clock (P := Present) hpresent ⟨hs, job, hrow⟩ fun s hs => ?_
      change (if s.isExcluded job.sourcePath = true then _ else _ : Route Response).wp _ _ _ _ s
      split
      · exact hs.1
      · refine wp_clock (P := Present) hpresent hs fun s hs => ?_
        have hopen := retried_opens hs.2 job
        let Open (s : Store) : Prop := Consistent s ∧ OpenJob s jobId
        have hstable : Timeless Open := fun _ _ h => h
        refine wp_clock (P := Open) hstable ⟨hs.1.of_continues ⟨job, rfl⟩ trivial rfl, hopen⟩
          fun s hs => ?_
        refine wp_clock (P := Open) hstable hs fun s hs => ?_
        exact (hs.1.but jobId).synced fun _ => hs.2

theorem cancelIfWaiting_serves (hs : Consistent s) : Serves (cancelWaitingJob jobId) s := by
  refine wp_clock consistent_timeless hs fun s hs => ?_
  change (if (s.cancelIfWaiting jobId).2 = true then _ else _ :
    Program Op Op.Answer CancelError Job).wp _ _ _ _ (s.cancelIfWaiting jobId).1
  split
  · refine wp_clock (consistentBut_timeless jobId)
      (hs.touched (q := .cancelIfWaiting jobId) rfl) fun s hs => ?_
    refine wp_clock consistent_timeless (hs.synced fun h => by cases h) fun s hs => ?_
    generalize handler.answer 0 (.statement (.getJob jobId)) () s = row
    cases row <;> exact hs
  · next hlost =>
    have hsame : (s.cancelIfWaiting jobId).1 = s := by
      rcases updateJobs_cases (s := s) (p := cancellable jobId) (f := fun j => j.cancelled s.now)
        (h := fun _ => rfl) fun _ => cancellable_id with ⟨hsame, -⟩ | ⟨hcount, -⟩
      · exact hsame
      · exact absurd (by simpa [Store.cancelIfWaiting] using hcount) hlost
    rw [hsame]
    refine wp_clock consistent_timeless hs fun s hs => ?_
    generalize handler.answer 0 (.statement (.getJob jobId)) () s = row
    cases row <;> exact hs

theorem cancelJob_serves (hs : Consistent s) : Serves (cancelJob jobId) s := by
  change (Program.rescue _ _).wp _ _ _ _ _
  rw [Program.wp_rescue]
  refine Program.wp_mono (serves_seq (cancelIfWaiting_serves hs) fun _ _ hs => hs) ?_
  intro o s hs
  rcases o with e | response
  · cases e <;> exact hs
  · exact hs

theorem cancelAllPending_serves (hs : Consistent s) : Serves cancelAllPending s := by
  refine wp_clock consistent_timeless hs fun s hs => ?_
  refine wp_clock consistent_timeless hs fun s hs => ?_
  refine wp_clock (P := fun s => Consistent s ∧ NoneWaiting s) (fun _ _ h => h)
    (hs.cancelledMedia _) fun s hs => ?_
  exact hs.1.cancelledJobs hs.2

theorem deleteChunks_triple (chunks : List (List Uuid)) (counts : Nat × Nat) (hs : Consistent s) :
    (deleteChunks chunks counts).Triple (fun _ s => Consistent s) s := by
  induction chunks generalizing counts s with
  | nil => exact fun _ _ => hs
  | cons chunk chunks ih =>
    refine wp_clock consistent_timeless hs fun s hs => ?_
    refine wp_clock (P := fun s => Consistent s ∧ Unlinked chunk s) (fun _ _ h => h)
      (hs.released chunk) fun s hs => ?_
    exact ih _ (hs.1.deleted hs.2)

theorem batch_serves {p : Block (Nat × Nat)} {f : Nat × Nat → Route Response} {P : Store → Prop}
    (hP : Timeless P) (hs : P s) (hp : ∀ s, P s → p.Triple (fun _ s => Consistent s) s)
    (hf : ∀ counts s, Consistent s → Serves (f counts) s) :
    Serves ((batchTransaction mode p).bind f) s := by
  refine Program.wp_seq (batchTransaction_wp (Q := fun _ s => Consistent s)
    fun s' hlater => hp s' (hP.keeps s s' hs hlater)) ?_ ?_
  · rintro counts s ⟨_, -, hs⟩
    exact hf counts s hs
  · rintro e s ⟨_, heq, -⟩
    cases heq

theorem deleteJobs_serves {l : Option (List JobStatus)} (hs : Consistent s) :
    Serves (deleteJobs mode l) s := by
  unfold deleteJobs
  split
  · exact hs
  · exact batch_serves consistent_timeless hs
      (fun s hs => wp_clock consistent_timeless hs fun s hs => deleteChunks_triple _ _ hs)
      fun _ _ hs => hs

structure Sound (s : Store) : Prop where
  consistent : Consistent s
  wellFormed : s.WellFormed

theorem sound_timeless : Timeless Sound := fun _ n h => ⟨h.consistent, h.wellFormed.later n⟩

theorem queueEach_triple {libs : List Library} {height : Option Nat} {vmaf : Rat}
    {blocked : List String} (candidates : List (MediaFile × String)) (seen : List String)
    (counts : Nat × Nat) (hs : Sound s) :
    (queueEach libs height vmaf blocked candidates seen counts).Triple
      (fun _ s => Consistent s) s := by
  induction candidates generalizing seen counts s with
  | nil => exact fun _ _ => hs.consistent
  | cons c rest ih =>
    obtain ⟨m, resolved⟩ := c
    rw [queueEach]
    split
    · exact ih _ _ hs
    · refine wp_clock sound_timeless hs fun s hs => ?_
      have hcreate := hs.wellFormed.next (q := .createJob (jobDraft libs height vmaf m resolved)) rfl
      let draft := jobDraft libs height vmaf m resolved
      have hopen : OpenJob ((Statement.createJob draft).next s) s.nextUuid :=
        createJob_opens hs.wellFormed rfl
      refine wp_clock (P := fun s' => Sound s' ∧ OpenJob s' s.nextUuid)
        (fun s n h => ⟨sound_timeless s n h.1, h.2⟩)
        ⟨⟨hs.consistent.of_continues rfl trivial rfl, hcreate⟩, hopen⟩ fun s' hs' => ih _ _ ?_
      exact ⟨hs'.1.consistent.queued hs'.2 m.id, hs'.1.wellFormed.next trivial⟩

theorem queueFiles_serves {body : QueueRequest} (hs : Sound s) :
    Serves (queueFiles mode body) s := by
  refine wp_clock sound_timeless hs fun s hs => ?_
  refine wp_clock sound_timeless hs fun s hs => ?_
  refine wp_clock sound_timeless hs fun s hs => ?_
  refine wp_clock sound_timeless hs fun s hs => ?_
  refine wp_clock sound_timeless hs fun s hs => ?_
  exact batch_serves sound_timeless hs
    (fun s hs => wp_clock sound_timeless hs fun s hs => queueEach_triple _ _ _ hs) fun _ _ hs => hs

end Jobs

section CheckDerivative

variable {s : Store} {token : WorkerToken} {jobId : Uuid} {key : String} {claimToken : Option Uuid}

theorem finalizeJob_of_finalizable {w : Option Uuid} {status : JobStatus} {fields : JobFields}
    {j : Job} (hj : s.jobs.get? jobId = some j) (hp : finalizable jobId w claimToken j = true) :
    (s.finalizeJob jobId w status claimToken fields).2 = true ∧
      (s.finalizeJob jobId w status claimToken fields).1.jobs.get? jobId =
        some (j.finalized status fields s.now) := by
  rcases updateJobs_cases (s := s) (p := finalizable jobId w claimToken)
    (f := fun j => j.finalized status fields s.now) (h := fun _ => rfl)
    fun _ => finalizable_id with ⟨-, -, hnone⟩ | ⟨hcount, j', hj', -, hrow⟩
  · rw [hnone j hj] at hp
    cases hp
  · cases hj.symm.trans hj'
    exact ⟨by simpa [Store.finalizeJob] using hcount, hrow⟩

-- When a derivative check ends its job.
structure Ends (s : Store) (token : WorkerToken) (jobId : Uuid) (key : String)
    (claimToken : Option Uuid) : Prop where
  held : ∃ j, s.jobs.get? jobId = some j ∧ finalizable jobId token.workerId claimToken j = true
  known : s.lookupByKey key ≠ none
  attempt : claimToken = none → ∀ w row, token.workerId = some w → s.workers.get? w = some row →
    row.sendsClaimToken = false

theorem finalizable_owner {w : Option Uuid} {j : Job} (h : finalizable jobId w claimToken j = true) :
    w ≠ none ∧ j.workerId = w := by
  have hheld := (Bool.and_eq_true_iff.mp h).1
  cases w with
  | none => simp [Job.heldBy] at hheld
  | some w =>
    simp only [Job.heldBy, Option.any_some, Bool.and_eq_true, beq_iff_eq] at hheld
    exact ⟨fun hnone => (by cases hnone), hheld.1.2⟩

theorem later_timeless (s : Store) : Timeless (Later s) := fun _ n h => h.trans ⟨n, rfl⟩

def Outcome (s : Store) (token : WorkerToken) (jobId : Uuid) (key : String)
    (claimToken : Option Uuid) (s' : Store) : Prop :=
  (Ends s token jobId key claimToken → ∃ s₁ fields, Later s s₁ ∧
      s' = (s₁.finalizeJob jobId token.workerId .complete claimToken fields).1) ∧
    (¬Ends s token jobId key claimToken → Later s s')

theorem outcome_of_refused {s' : Store} (hnot : ¬Ends s token jobId key claimToken)
    (h : Later s s') : Outcome s token jobId key claimToken s' :=
  ⟨fun hends => absurd hends hnot, fun _ => h⟩

section Attempt

variable {job : Job} {existing : Derivative} {response : Response} {s₁ : Store}

-- From the transition on, the job read before and the token let through.
theorem settle_wp (hjob : s.jobs.get? jobId = some job) (howner : job.workerId = token.workerId)
    (hknown : s.lookupByKey key ≠ none)
    (hattempt : claimToken = none → ∀ w row, token.workerId = some w →
      s.workers.get? w = some row → row.sendsClaimToken = false) (h : Later s s₁) :
    (do
      let completedAt ← run .utcNow
      let won ← run (.finalizeJob jobId job.workerId .complete claimToken
        { outputSize := some existing.outputSize
          spaceSaved := some 0
          progress := some 1
          completedAt := some completedAt })
      if won then .ret response
      else do
        answerLostFinalize jobId .complete
        .ret response : Route Response).wp handler 0 clock
      (fun _ s' => Outcome s token jobId key claimToken s') s₁ := by
  refine wp_clock (later_timeless s) h fun s₂ h₂ => ?_
  refine wp_clock (later_timeless s) h₂ fun s₃ h₃ => ?_
  rw [howner]
  let fields : JobFields :=
    { outputSize := some existing.outputSize
      spaceSaved := some 0
      progress := some 1
      completedAt := some s₂.now }
  change (if (s₃.finalizeJob jobId token.workerId .complete claimToken fields).2 = true then
    .ret response else do
      answerLostFinalize jobId .complete
      .ret response : Route Response).wp _ _ _ _
        (s₃.finalizeJob jobId token.workerId .complete claimToken fields).1
  have hrow : s₃.jobs.get? jobId = some job := by
    obtain ⟨n, rfl⟩ := h₃
    exact hjob
  by_cases hp : finalizable jobId token.workerId claimToken job = true
  · rw [if_pos (finalizeJob_of_finalizable hrow hp).1]
    exact ⟨fun _ => ⟨s₃, fields, h₃, rfl⟩,
      fun hnot => absurd ⟨⟨job, hjob, hp⟩, hknown, hattempt⟩ hnot⟩
  · have hnot : ¬Ends s token jobId key claimToken := by
      rintro ⟨⟨j, hj, hpj⟩, -, -⟩
      cases hjob.symm.trans hj
      exact hp hpj
    rcases finalizeJob_cases s₃ jobId token.workerId .complete claimToken fields with
      hlost | ⟨-, j, hj, hpj, -⟩
    · rw [hlost]
      have hcalls : (do
          answerLostFinalize jobId .complete
          .ret response : Route Response).Calls fun op => ∃ id, op = .statement (.getJob id) :=
        calls_answerLostFinalize ⟨jobId, rfl⟩ fun _ => trivial
      refine Program.wp_mono (wp_clock_of_calls (later_timeless s) h₃ hcalls ?_)
        fun _ _ h => outcome_of_refused hnot h
      rintro op s' ⟨id, rfl⟩ h
      exact h
    · cases hrow.symm.trans hj
      exact absurd hpj hp

end Attempt

theorem checkDerivative_outcome :
    (checkDerivative token jobId key claimToken).wp handler 0 clock
      (fun _ s' => Outcome s token jobId key claimToken s') s := by
  refine wp_clock (later_timeless s) (Later.refl s) fun s₁ h₁ => ?_
  generalize hanswer : handler.answer 0 (.statement (.getJob jobId)) () s₁ = row
  have hjob : s.jobs.get? jobId = row := by
    obtain ⟨n, rfl⟩ := h₁
    exact hanswer
  cases row with
  | none =>
    refine outcome_of_refused ?_ h₁
    rintro ⟨⟨j, hj, -⟩, -, -⟩
    cases hjob.symm.trans hj
  | some job =>
    have hheld {j : Job} (hj : s.jobs.get? jobId = some j) : j = job :=
      Option.some.inj (hj.symm.trans hjob)
    simp only [Program.ret_bind]
    by_cases howner : token.workerId = none ∨ job.workerId ≠ token.workerId
    · simp only [if_pos howner]
      refine outcome_of_refused ?_ h₁
      rintro ⟨⟨j, hj, hp⟩, -, -⟩
      obtain ⟨hsome, howned⟩ := finalizable_owner hp
      rcases howner with hnone | hne
      · exact hsome hnone
      · exact hne (hheld hj ▸ howned)
    · simp only [if_neg howner]
      rw [not_or, not_not] at howner
      obtain ⟨hsome, howned⟩ := howner
      refine wp_clock (later_timeless s) h₁ fun s₂ h₂ => ?_
      generalize hlookup : handler.answer 0 (.statement (.lookupByKey key)) () s₂ = found
      have hknown : s.lookupByKey key = found := by
        obtain ⟨n, rfl⟩ := h₂
        exact hlookup
      cases found with
      | none => exact outcome_of_refused (fun hends => hends.known hknown) h₂
      | some existing =>
        have hknown' : s.lookupByKey key ≠ none := by
          rw [hknown]
          nofun
        have hterminal (hover : job.status.isTerminal = true) :
            ¬Ends s token jobId key claimToken := by
          rintro ⟨⟨j, hj, hp⟩, -, -⟩
          have hopen := finalizable_open hp
          rw [hheld hj, hover] at hopen
          cases hopen
        simp only [Program.ret_bind, isDuplicateTerminalReport]
        by_cases hcomplete : job.status = .complete
        · simp only [if_pos hcomplete]
          exact outcome_of_refused (hterminal (by rw [hcomplete]; rfl)) h₂
        · simp only [if_neg hcomplete]
          by_cases hover : job.status.isTerminal = true
          · simp only [if_pos hover]
            exact outcome_of_refused (hterminal hover) h₂
          · simp only [if_neg hover]
            cases claimToken with
            | some attempt => exact settle_wp hjob howned hknown' nofun h₂
            | none =>
              obtain ⟨w, hw⟩ := Option.ne_none_iff_exists'.mp hsome
              simp only [hw]
              refine wp_clock (later_timeless s) h₂ fun s₃ h₃ => ?_
              generalize hworker : handler.answer 0 (.statement (.getWorker w)) () s₃ = row
              have hrow : s.workers.get? w = row := by
                obtain ⟨n, rfl⟩ := h₃
                exact hworker
              by_cases hsends : (row.any (·.sendsClaimToken)) = true
              · simp only [Program.ret_bind, if_pos hsends]
                refine outcome_of_refused (fun hends => ?_) h₃
                cases row with
                | none => cases hsends
                | some worker =>
                  rw [Option.any_some, hends.attempt rfl w worker hw hrow] at hsends
                  cases hsends
              · simp only [Program.ret_bind, if_neg hsends]
                refine settle_wp hjob howned hknown' (fun _ w' worker hw' hworker' => ?_) h₃
                cases hw.symm.trans hw'
                cases hrow.symm.trans hworker'
                simpa using hsends

-- The operation that ends a job and leaves the rows that point at it in flight.
def Forgets : Request → Store → Prop
  | .checkDerivative token jobId key claimToken, s =>
    Ends s token jobId key claimToken ∧
      ∃ m ∈ s.media, m.transcodeStatus.inFlight = true ∧ m.jobId = some jobId
  | _, _ => False

theorem checkDerivative_serves (hs : Consistent s)
    (hremembers : ¬Forgets (.checkDerivative token jobId key claimToken) s) :
    Serves (checkDerivative token jobId key claimToken) s := by
  refine Program.wp_mono checkDerivative_outcome fun _ s' houtcome => ?_
  by_cases hends : Ends s token jobId key claimToken
  · obtain ⟨s₁, fields, ⟨n, rfl⟩, rfl⟩ := houtcome.1 hends
    have hbut : ConsistentBut jobId _ := (consistent_timeless s n hs).touched
      (q := .finalizeJob jobId token.workerId .complete claimToken fields) rfl
    intro m hm hflight
    refine hbut m hm (fun hlinked => hremembers ⟨hends, m, hm, hflight, hlinked⟩) hflight
  · exact consistent_timeless.keeps s s' hs (houtcome.2 hends)

theorem checkDerivative_forgets (hforgets : Forgets (.checkDerivative token jobId key claimToken) s) :
    (checkDerivative token jobId key claimToken).wp handler 0 clock
      (fun _ s' => ¬Consistent s') s := by
  obtain ⟨hends, m, hm, hflight, hlinked⟩ := hforgets
  refine Program.wp_mono checkDerivative_outcome fun _ s' houtcome hconsistent => ?_
  obtain ⟨s₁, fields, ⟨n, rfl⟩, rfl⟩ := houtcome.1 hends
  obtain ⟨j, hj, hp⟩ := hends.held
  obtain ⟨id, hid, j', hj', hopen⟩ := hconsistent m hm hflight
  cases hlinked.symm.trans hid
  have hafter : ((s.later n).finalizeJob jobId token.workerId .complete claimToken fields).1.jobs.get?
      jobId = some (j.finalized .complete fields (s.later n).now) :=
    (finalizeJob_of_finalizable (s := s.later n) hj hp).2
  cases hafter.symm.trans hj'
  cases hopen

end CheckDerivative

section Runs

variable {mode : Isolation} {s s' : Store} {xs : List Service}

theorem request_serves {r : Request} (hs : Sound s) (hremembers : ¬Forgets r s) :
    Serves (r.body mode) s := by
  cases r with
  | checkDerivative => exact checkDerivative_serves hs.consistent hremembers
  | complete => exact terminalReport_serves hs.consistent completeBlock_triple
  | skipped => exact terminalReport_serves hs.consistent skipBlock_triple
  | failed => exact terminalReport_serves hs.consistent failBlock_triple
  | retry => exact retryJob_serves hs.consistent
  | cancel => exact cancelJob_serves hs.consistent
  | cancelAll => exact cancelAllPending_serves hs.consistent
  | clearCompleted => exact deleteJobs_serves (l := some [.complete, .cancelled]) hs.consistent
  | reset => exact deleteJobs_serves (l := none) hs.consistent
  | queueFiles => exact queueFiles_serves hs
  | _ => exact endsNothing_serves trivial hs.consistent

theorem request_wellFormed {r : Request} (hs : s.WellFormed) :
    (r.body mode).wp handler 0 clock (fun _ s => s.WellFormed) s :=
  wp_clock_of_calls (fun _ n h => h.later n) hs (r.body_calls mode) fun _ _ hop hs =>
    Op.exec_keeps (Request.Performs.does hop) hs fun _ _ hq hs => hs.next hq.proper

theorem forgets_serves {r : Request} (hforgets : Forgets r s) :
    (r.body mode).wp handler 0 clock (fun _ s' => ¬Consistent s') s := by
  cases r with
  | checkDerivative => exact checkDerivative_forgets hforgets
  | _ => exact hforgets.elim

theorem serial_wellFormed (hs : s.WellFormed) (h : Serial mode s xs s') :
    (∀ x ∈ xs, x.pre.WellFormed) ∧ s'.WellFormed := by
  induction h with
  | refl => exact ⟨by simp, hs⟩
  | serve _ hlater _ hexec hdone ih =>
    obtain ⟨hpre, hlast⟩ := ih
    obtain ⟨n, rfl⟩ := hlater
    obtain ⟨o, hpost⟩ := exec_post hexec (request_wellFormed (hlast.later n)) hdone
    refine ⟨fun x hx => ?_, hpost⟩
    rcases List.mem_append.mp hx with hx | hx
    · exact hpre x hx
    · rw [List.mem_singleton.mp hx]
      exact hlast.later n

theorem serial_consistent (hs : Sound s) (h : Serial mode s xs s')
    (hremembers : ∀ x ∈ xs, ¬Forgets x.request x.pre) :
    (∀ x ∈ xs, Consistent x.post) ∧ Consistent s' := by
  induction h with
  | refl => exact ⟨by simp, hs.consistent⟩
  | @serve xs r s₁ s₂ s₃ _ _ hserial hlater _ hexec hdone ih =>
    obtain ⟨hposts, hlast⟩ := ih fun x hx => hremembers x (List.mem_append_left _ hx)
    have hwell := (serial_wellFormed hs.wellFormed hserial).2
    obtain ⟨n, rfl⟩ := hlater
    have hsound : Sound (s₁.later n) := ⟨hlast, hwell.later n⟩
    obtain ⟨o, hpost⟩ := exec_post hexec
      (request_serves hsound (hremembers ⟨r, s₁.later n, s₃⟩ (by simp))) hdone
    refine ⟨fun x hx => ?_, hpost⟩
    rcases List.mem_append.mp hx with hx | hx
    · exact hposts x hx
    · rw [List.mem_singleton.mp hx]
      exact hpost

theorem serial_forgets (h : Serial mode s xs s') : ∀ x ∈ xs, Forgets x.request x.pre →
    ¬Consistent x.post := by
  induction h with
  | refl => simp
  | serve _ _ _ hexec hdone ih =>
    intro x hx hforgets
    rcases List.mem_append.mp hx with hx | hx
    · exact ih x hx hforgets
    · rw [List.mem_singleton.mp hx] at hforgets ⊢
      obtain ⟨o, hpost⟩ := exec_post hexec (forgets_serves hforgets) hdone
      exact hpost

theorem catalog_consistent (hs : Sound s) (h : Serial mode s xs s') :
    (∀ x ∈ xs, Consistent x.post) ↔ ∀ x ∈ xs, ¬Forgets x.request x.pre := by
  constructor
  · exact fun hposts x hx hforgets => serial_forgets h x hx hforgets (hposts x hx)
  · exact fun hremembers => (serial_consistent hs h hremembers).1

end Runs

section Sample

def sampleDerived : Store :=
  { sampleRunning with derivatives := Table.empty.insert { derivativeKey := "key" } }

theorem sampleDerived_sound : Sound sampleDerived where
  consistent := by
    have hrows : ∀ m ∈ sampleDerived.media.rows, m.jobId = some 0 := by decide +kernel
    intro m hm _
    refine ⟨0, hrows m hm, (sampleDerived.jobs.get? 0).get (by decide +kernel),
      (Option.some_get _).symm, by decide +kernel⟩
  wellFormed := .of_rows (by decide +kernel)

-- The derivative exists: the check ends the job, and its row stays queued.
def forgotten : List Service × Store :=
  (serveAll .shared sampleDerived [(.checkDerivative sampleToken 0 "key" (some 2), 4)]).get
    (by decide +kernel)

theorem not_catalog_consistent :
    ¬∀ (mode : Isolation) (s s' : Store) (xs : List Service), Sound s → Serial mode s xs s' →
      ∀ x ∈ xs, Consistent x.post := by
  intro h
  have hserial := serveAll_serial (p := forgotten) (Option.some_get _).symm
  have hrow : ∃ x ∈ forgotten.1, ∃ m ∈ x.post.media.rows, m.transcodeStatus.inFlight = true ∧
      m.jobId = some 0 ∧ ((x.post.jobs.get? 0).all fun j => j.status.isTerminal) = true := by
    decide +kernel
  obtain ⟨x, hx, m, hm, hflight, hlinked, hterminal⟩ := hrow
  obtain ⟨id, hid, j, hj, hopen⟩ := h _ _ _ _ sampleDerived_sound hserial x hx m hm hflight
  cases hlinked.symm.trans hid
  rw [hj, Option.all_some, hopen] at hterminal
  cases hterminal

-- The report of the one attempt fails, that of the next completes the job.
def remembered : List Service × Store :=
  (serveAll .shared sampleDerived [(.failed sampleToken 0 { claimToken := some 2 }, 4),
    (.retry 0, 5), (.claim sampleToken 1, 3),
    (.checkDerivative sampleToken 0 "other" (some 3), 2),
    (.complete sampleToken 0 { claimToken := some 3, outputSize := 7 }, 5)]).get
    (by decide +kernel)

def mayForget (x : Service) : Bool :=
  match x.request with
  | .checkDerivative _ _ key _ => (x.pre.lookupByKey key).isSome
  | _ => false

theorem remembers_of {x : Service} (h : mayForget x = false) : ¬Forgets x.request x.pre := by
  obtain ⟨r, pre, post⟩ := x
  cases r with
  | checkDerivative token jobId key claimToken =>
    rintro ⟨hends, -⟩
    exact hends.known (by simpa [mayForget] using h)
  | _ => exact fun hforgets => hforgets

theorem catalog_consistent_remembered :
    (∀ x ∈ remembered.1, Consistent x.post) ∧
      (remembered.2.media.get? "a").map MediaFile.transcodeStatus = some .complete := by
  have hserial := serveAll_serial (p := remembered) (Option.some_get _).symm
  have hnone : ∀ x ∈ remembered.1, mayForget x = false := by decide +kernel
  exact ⟨(catalog_consistent sampleDerived_sound hserial).mpr fun x hx =>
    remembers_of (hnone x hx), by decide +kernel⟩

end Sample

end TranscodeForge.Catalog
