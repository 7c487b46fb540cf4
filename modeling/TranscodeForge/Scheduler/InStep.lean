import TranscodeForge.Interaction.Obligation
import TranscodeForge.Scheduler.Catalog

namespace TranscodeForge.InStep

open Relational Interaction Scheduler Store Catalog

section Views

def Waiting (id : Uuid) (s : Store) : Prop :=
  ∃ j, s.jobs.get? id = some j ∧ j.status.isWaiting = true

def Dead (j : Job) : Prop := j.status = .cancelled ∨ j.status = .failed

-- What a catalog status says about the job its row points at.
def Agrees (status : TranscodeStatus) (j : Job) : Prop :=
  ¬(status = .queued ∧ Dead j) ∧ ¬(status = .needsTranscode ∧ j.status.isLive = true)

def InStep (id : Uuid) (s : Store) : Prop :=
  ∀ j m, s.jobs.get? id = some j → m ∈ s.media → m.jobId = some id → Agrees m.transcodeStatus j

-- The job and the statuses of its rows are what they were.
structure Frame (id : Uuid) (s s' : Store) : Prop where
  job : s'.jobs.get? id = s.jobs.get? id
  rows : ∀ m' ∈ s'.media, m'.jobId = some id →
    ∃ m ∈ s.media, m.jobId = some id ∧ m'.transcodeStatus = m.transcodeStatus

variable {id : Uuid} {s s' : Store} {q : Statement}

theorem Frame.of_media (hjob : s'.jobs.get? id = s.jobs.get? id) (hmedia : s'.media = s.media) :
    Frame id s s' :=
  ⟨hjob, fun m' hm' hlinked => ⟨m', hmedia ▸ hm', hlinked, rfl⟩⟩

theorem Frame.inStep (h : Frame id s s') (hs : InStep id s) : InStep id s' := by
  intro j m' hj hm' hlinked
  rw [h.job] at hj
  obtain ⟨m, hm, hlinked₀, hstatus⟩ := h.rows m' hm' hlinked
  rw [hstatus]
  exact hs j m hj hm hlinked₀

theorem Frame.trans {s'' : Store} (h : Frame id s s') (h' : Frame id s' s'') : Frame id s s'' where
  job := h'.job.trans h.job
  rows m'' hm'' hlinked := by
    obtain ⟨m', hm', hlinked', hstatus'⟩ := h'.rows m'' hm'' hlinked
    obtain ⟨m, hm, hlinked, hstatus⟩ := h.rows m' hm' hlinked'
    exact ⟨m, hm, hlinked, hstatus'.trans hstatus⟩

theorem Frame.refl (id : Uuid) (s : Store) : Frame id s s :=
  ⟨rfl, fun m hm hlinked => ⟨m, hm, hlinked, rfl⟩⟩

theorem Frame.waiting (h : Frame id s s') (hs : Waiting id s) : Waiting id s' := by
  obtain ⟨j, hj, hwaiting⟩ := hs
  exact ⟨j, h.job.trans hj, hwaiting⟩

theorem frame_of_reads (hjobs : q.writesJobs = false) (hmedia : q.writesMedia = false) :
    Frame id s (q.next s) :=
  .of_media (by rw [Statement.jobs_eq hjobs]) (Statement.media_eq hmedia s)

theorem frame_of_describes (hq : Describes q) : Frame id s (q.next s) where
  job := by rw [describes_jobs hq]
  rows m' hm' hlinked := by
    obtain ⟨m, hm, hstatus, hjob⟩ := described_row hq hm'
    exact ⟨m, hm, hjob.symm.trans hlinked, hstatus⟩

theorem row_kept (hinsert : ∀ draft, q ≠ .createJob draft) (hdelete : ∀ ids, q ≠ .deleteJobRows ids)
    (hstep : ∀ j j', s.jobs.get? id = some j → ¬JobStep s q j j') :
    (q.next s).jobs.get? id = s.jobs.get? id := by
  have hrow := q.next_row s id
  generalize hbefore : s.jobs.get? id = before at hrow
  generalize (q.next s).jobs.get? id = after at hrow
  cases hrow with
  | kept => rfl
  | inserted heq => exact absurd heq (hinsert _)
  | deleted heq => exact absurd heq (hdelete _)
  | changed h => exact absurd h (hstep _ _ hbefore)

theorem frame_cancelIfWaiting {id' : Uuid} (h : ¬(id' = id ∧ (s.cancelIfWaiting id').2 = true)) :
    Frame id s ((Statement.cancelIfWaiting id').next s) := by
  refine .of_media ?_ rfl
  by_cases hid : id' = id
  · subst hid
    rcases updateJobs_cases (s := s) (p := cancellable id') (f := fun j => j.cancelled s.now)
      (h := fun _ => rfl) fun _ => cancellable_id with ⟨hsame, -⟩ | ⟨hcount, -⟩
    · exact congrArg (fun s => s.jobs.get? id') hsame
    · exact absurd ⟨rfl, by simpa [Store.cancelIfWaiting] using hcount⟩ h
  · refine row_kept (fun _ h => (by cases h)) (fun _ h => (by cases h)) fun j j' hj hstep => ?_
    cases hstep with
    | cancelled hp => exact hid ((cancellable_id hp).symm.trans (Table.get?_key hj))

theorem frame_finalizeJob {id' : Uuid} {w token : Option Uuid} {status : JobStatus}
    {fields : JobFields}
    (h : ¬(id' = id ∧ (s.finalizeJob id' w status token fields).2 = true)) :
    Frame id s ((Statement.finalizeJob id' w status token fields).next s) := by
  refine .of_media ?_ rfl
  by_cases hid : id' = id
  · subst hid
    rcases finalizeJob_cases s id' w status token fields with hlost | ⟨hwon, -⟩
    · exact congrArg (fun x => x.1.jobs.get? id') hlost
    · exact absurd ⟨rfl, hwon⟩ h
  · refine row_kept (fun _ h => (by cases h)) (fun _ h => (by cases h)) fun j j' hj hstep => ?_
    cases hstep with
    | finalized hp => exact hid ((finalizable_id hp).symm.trans (Table.get?_key hj))

theorem frame_updateJob {id' : Uuid} {u : JobUpdate} (h : id' ≠ id) :
    Frame id s ((Statement.updateJob id' u).next s) := by
  refine .of_media (row_kept (fun _ h => (by cases h)) (fun _ h => (by cases h)) fun j j' hj hstep => ?_) rfl
  cases hstep with
  | updated hid => exact h (hid.symm.trans (Table.get?_key hj))

theorem frame_updateStatusByJob {id' : Uuid} {status : TranscodeStatus} {reason : Option String}
    (h : id' ≠ id) : Frame id s ((Statement.updateStatusByJob id' status reason).next s) where
  job := rfl
  rows m' hm' hlinked := by
    obtain ⟨m, hm, rfl⟩ := mem_updateMedia.mp hm'
    split at hlinked
    · next hjob =>
      have hother : m.jobId = some id' := beq_iff_eq.mp hjob
      exact absurd (Option.some.inj (hother.symm.trans hlinked)) h
    · next hjob => exact ⟨m, hm, hlinked, by rw [if_neg hjob]⟩

theorem synced_inStep {status : TranscodeStatus} {reason : Option String}
    (h : ∀ j, s.jobs.get? id = some j → Agrees status j) :
    InStep id ((Statement.updateStatusByJob id status reason).next s) := by
  intro j m' hj hm' hlinked
  obtain ⟨m, hm, rfl⟩ := mem_updateMedia.mp hm'
  split at hlinked
  · next hjob =>
    rw [if_pos hjob]
    exact h j hj
  · next hjob => exact absurd (beq_iff_eq.mpr hlinked) hjob

theorem frame_cancelAllMedia {now : Instant} (h : ¬Waiting id s) :
    Frame id s ((Statement.cancelAllMedia now).next s) where
  job := rfl
  rows m' hm' hlinked := by
    obtain ⟨m, hm, rfl⟩ := mem_updateMedia.mp hm'
    split at hlinked
    · next hwaiting =>
      have hjob : m.jobId = some id := hlinked
      simp only [Store.waitingJob, hjob, Option.bind_some, Option.any_eq_true] at hwaiting
      exact absurd hwaiting h
    · next hwaiting => exact ⟨m, hm, hlinked, by rw [if_neg hwaiting]⟩

-- The claim takes this job.
def Takes (id : Uuid) (codecs : List String) (downscale : Bool) (s : Store) : Prop :=
  (s.nextClaimable (claimCodecs codecs) downscale).map Job.id = some id

theorem claimNextJob_row (w : Uuid) (codecs : List String) (downscale : Bool) :
    (¬Takes id codecs downscale s ∧
        ((Statement.claimNextJob w codecs downscale).next s).jobs.get? id = s.jobs.get? id) ∨
      Takes id codecs downscale s ∧ ∃ j, s.jobs.get? id = some j ∧
        ((Statement.claimNextJob w codecs downscale).next s).jobs.get? id =
          some (j.claimed w s.nextUuid s.now) := by
  change (_ ∧ (s.claimNextJob w codecs downscale).1.jobs.get? id = _) ∨
    _ ∧ ∃ j, _ ∧ (s.claimNextJob w codecs downscale).1.jobs.get? id = _
  rw [Store.claimNextJob, Takes]
  cases h : s.nextClaimable (claimCodecs codecs) downscale with
  | none => exact .inl ⟨fun htakes => (by cases htakes), rfl⟩
  | some next =>
    have hlook : (s.drawUuid.updateJobs (fun j => j.id == next.id)
        fun j => j.claimed w s.nextUuid s.now).jobs.get? id =
          (s.jobs.get? id).map fun j =>
            if j.id == next.id then j.claimed w s.nextUuid s.now else j :=
      get?_updateJobs ..
    by_cases hid : next.id = id
    · subst hid
      have hnext := Table.get?_of_mem (nextClaimable_waiting h).1
      refine .inr ⟨rfl, next, hnext, hlook.trans ?_⟩
      rw [hnext, Option.map_some, if_pos (beq_self_eq_true _)]
    · refine .inl ⟨fun heq => hid (Option.some.inj heq), hlook.trans ?_⟩
      cases hrow : s.jobs.get? id with
      | none => rfl
      | some j =>
        have hne : ¬(j.id == next.id) = true := by
          rw [beq_iff_eq, Table.get?_key hrow]
          exact Ne.symm hid
        rw [Option.map_some, if_neg hne]

end Views

section Debts

def Covered : Request → Prop
  | .cancel _ | .cancelAll | .retry _ | .claim _ _ | .failed _ _ _ => True
  | _ => False

-- A request moves the job, and has the rows of the catalog still to write.
def Transits (id : Uuid) : (op : Op) → op.Answer → Prop
  | .statement (.cancelIfWaiting id'), won => id' = id ∧ won = true
  | .statement (.finalizeJob id' _ _ _ _), won => id' = id ∧ won = true
  | .statement (.updateJob id' _), _ => id' = id
  | _, _ => False

def Syncs (id : Uuid) (op : Op) : Prop :=
  ∃ status reason, op = .statement (.updateStatusByJob id status reason)

-- cancel-all writes the rows first, and has the jobs still to cancel.
def Opens : (op : Op) → op.Answer → Prop
  | .statement (.cancelAllMedia _), _ => True
  | _, _ => False

def Closes (op : Op) : Prop := op = .statement .cancelAllJobs

def Unsettled (id : Uuid) (s : Store) (es : List SchedulerCall) : Prop :=
  (∃ t, Owes handler (Transits id) (Syncs id) t es) ∨
    (Waiting id s ∧ ∃ t, Owes handler Opens Closes t es)

def RowsAre (id : Uuid) (status : TranscodeStatus) (s : Store) : Prop :=
  ∃ m ∈ s.media, m.jobId = some id ∧ m.transcodeStatus = status

-- The condition on the statement a call makes, in the state before it.
def Fits (id : Uuid) (op : Op) (s : Store) : Prop :=
  match op with
  | .statement (.updateStatusByJob id' status _) =>
    id' = id → ∀ j, s.jobs.get? id = some j → Agrees status j
  | .statement .cancelAllJobs => Waiting id s → ¬RowsAre id .queued s
  | .statement (.claimNextJob _ codecs downscale) =>
    Takes id codecs downscale s → ¬RowsAre id .needsTranscode s
  | _ => True

variable {id : Uuid} {e : SchedulerCall} {es : List SchedulerCall}

theorem Unsettled.framed (h : Unsettled id e.pre es) (hframe : Frame id e.pre e.post)
    (hsync : ¬Syncs id e.op) (hclose : ¬Closes e.op) : Unsettled id e.post (es ++ [e]) := by
  rcases h with ⟨t, howes⟩ | ⟨hwaiting, t, howes⟩
  · exact .inl ⟨t, howes.append fun hpays => hsync hpays.2⟩
  · exact .inr ⟨hframe.waiting hwaiting, t, howes.append fun hpays => hclose hpays.2⟩

abbrev Settles (id : Uuid) (s : Store) (es : List SchedulerCall) : Prop :=
  InStep id s ∨ Unsettled id s es

theorem framed_settles (h : Settles id e.pre es) (hframe : Frame id e.pre e.post)
    (hsync : ¬Syncs id e.op) (hclose : ¬Closes e.op) : Settles id e.post (es ++ [e]) := by
  rcases h with hs | hunsettled
  · exact .inl (hframe.inStep hs)
  · exact .inr (hunsettled.framed hframe hsync hclose)

theorem transits_settles (h : e.Incurs handler (Transits id)) : Settles id e.post (es ++ [e]) :=
  .inr (.inl ⟨e.thread, Owes.of_incurs h⟩)

theorem cancelAllJobs_settles (h : Settles id e.pre es) (hop : e.op = .statement .cancelAllJobs)
    (hpost : e.post = Statement.cancelAllJobs.next e.pre) (hfits : Fits id e.op e.pre) :
    Settles id e.post (es ++ [e]) := by
  have hsync : ¬Syncs id e.op := by
    rintro ⟨status, reason, heq⟩
    rw [hop] at heq
    cases heq
  have hlook : e.post.jobs.get? id =
      (e.pre.jobs.get? id).map fun j => if j.status.isWaiting then j.cancelled e.pre.now else j := by
    rw [hpost]
    exact get?_updateJobs ..
  have hmedia : e.post.media = e.pre.media := by
    rw [hpost]
    rfl
  by_cases hwaiting : Waiting id e.pre
  · refine .inl fun j m hj hm hlinked => ?_
    obtain ⟨j₀, hj₀, hwait⟩ := hwaiting
    rw [hlook, hj₀, Option.map_some, if_pos hwait] at hj
    cases hj
    rw [hop] at hfits
    refine ⟨fun ⟨hqueued, _⟩ => ?_, fun ⟨_, hlive⟩ => (by cases hlive)⟩
    exact hfits ⟨j₀, hj₀, hwait⟩ ⟨m, hmedia ▸ hm, hlinked, hqueued⟩
  · have hjob : e.post.jobs.get? id = e.pre.jobs.get? id := by
      rw [hlook]
      cases hrow : e.pre.jobs.get? id with
      | none => rfl
      | some j =>
        have hnot : ¬j.status.isWaiting = true := fun hwait => hwaiting ⟨j, hrow, hwait⟩
        rw [Option.map_some, if_neg hnot]
    have hframe : Frame id e.pre e.post := .of_media hjob hmedia
    rcases h with hs | ⟨t, howes⟩ | ⟨hwait, -⟩
    · exact .inl (hframe.inStep hs)
    · exact .inr (.inl ⟨t, howes.append fun hpays => hsync hpays.2⟩)
    · exact absurd hwait hwaiting

theorem claimNextJob_settles {w : Uuid} {codecs : List String} {downscale : Bool}
    (h : Settles id e.pre es) (hop : e.op = .statement (.claimNextJob w codecs downscale))
    (hpost : e.post = (Statement.claimNextJob w codecs downscale).next e.pre)
    (hfits : Fits id e.op e.pre) : Settles id e.post (es ++ [e]) := by
  have hmedia : e.post.media = e.pre.media := by
    rw [hpost]
    exact (Statement.claimNextJob_frame w codecs downscale e.pre).1
  rcases @claimNextJob_row id e.pre w codecs downscale with ⟨-, hjob⟩ | ⟨htakes, j₀, -, hjob⟩
  · rw [← hpost] at hjob
    refine framed_settles h (.of_media hjob hmedia) ?_ ?_
    · rintro ⟨status, reason, heq⟩
      rw [hop] at heq
      cases heq
    · intro heq
      rw [hop] at heq
      cases heq
  · refine .inl fun j m hj hm hlinked => ?_
    rw [← hpost] at hjob
    cases hjob.symm.trans hj
    rw [hop] at hfits
    refine ⟨fun ⟨_, hdead⟩ => ?_, fun ⟨hneeds, _⟩ => ?_⟩
    · rcases hdead with hdead | hdead <;> cases hdead
    · exact hfits htakes ⟨m, hmedia ▸ hm, hlinked, hneeds⟩

theorem cancelAllMedia_settles {now : Instant} (h : Settles id e.pre es)
    (hop : e.op = .statement (.cancelAllMedia now))
    (hpost : e.post = (Statement.cancelAllMedia now).next e.pre) :
    Settles id e.post (es ++ [e]) := by
  by_cases hwaiting : Waiting id e.pre
  · have hincurs : e.Incurs handler Opens := by
      obtain ⟨⟨op, i, pre, post⟩, t, r⟩ := e
      cases hop
      trivial
    refine .inr (.inr ⟨?_, e.thread, Owes.of_incurs hincurs⟩)
    rw [hpost]
    exact hwaiting
  · refine framed_settles h (hpost ▸ frame_cancelAllMedia hwaiting) ?_ ?_
    · rintro ⟨status, reason, heq⟩
      rw [hop] at heq
      cases heq
    · intro heq
      rw [hop] at heq
      cases heq

-- A failed report's transaction leaves a failed job and a row to be transcoded.
theorem failed_settles {token : WorkerToken} {jobId : Uuid} {body : FailedRequest} {p : Block Bool}
    (h : Settles id e.pre es) (hop : e.op = .reportBlock p)
    (hperforms : (Request.failed token jobId body).Performs (.reportBlock p))
    (hpost : e.post = (Block.commit p e.pre).1) : Settles id e.post (es ++ [e]) := by
  have hsync : ¬Syncs id e.op := by
    rintro ⟨status, reason, heq⟩
    rw [hop] at heq
    cases heq
  have hclose : ¬Closes e.op := by
    intro heq
    rw [hop] at heq
    cases heq
  obtain ⟨rep, job, fields, hrep, hcommit⟩ := Terminal.block_synced hperforms e.pre
  cases hrep
  rw [hcommit] at hpost
  change e.post = (if (e.pre.finalizeJob jobId job.workerId .failed body.claimToken fields).2 = true
    then ((e.pre.finalizeJob jobId job.workerId .failed body.claimToken fields).1.updateStatusByJob
      jobId .needsTranscode none, true) else (e.pre, false)).1 at hpost
  rcases finalizeJob_cases e.pre jobId job.workerId .failed body.claimToken fields with
    hlost | ⟨hwon, j, -, -, hrow⟩
  · rw [hlost, if_neg Bool.false_ne_true] at hpost
    exact framed_settles h (hpost ▸ Frame.refl id e.pre) hsync hclose
  · rw [if_pos hwon] at hpost
    by_cases hid : jobId = id
    · subst hid
      rw [hpost]
      refine .inl (synced_inStep fun j' hj' => ?_)
      cases hrow.symm.trans hj'
      exact ⟨fun ⟨hqueued, _⟩ => (by cases hqueued), fun ⟨_, hlive⟩ => (by cases hlive)⟩
    · have hfinal : Frame id e.pre
          ((Statement.finalizeJob jobId job.workerId .failed body.claimToken fields).next e.pre) :=
        frame_finalizeJob fun hwins => hid hwins.1
      have hmedia (s : Store) :
          Frame id s ((Statement.updateStatusByJob jobId .needsTranscode none).next s) :=
        frame_updateStatusByJob hid
      exact framed_settles h (hpost ▸ hfinal.trans (hmedia _)) hsync hclose

-- What a covered request can send.
def InScope (q : Statement) : Prop :=
  (q.writesJobs = false ∧ q.writesMedia = false) ∨ Describes q ∨
    match q with
    | .cancelIfWaiting _ | .finalizeJob _ _ _ _ _ | .updateJob _ _ | .updateStatusByJob _ _ _
    | .cancelAllMedia _ | .cancelAllJobs | .claimNextJob _ _ _ => True
    | _ => False

theorem covered_inScope {r : Request} {q : Statement} (hr : Covered r) (hq : r.Sends q) :
    InScope q := by
  cases r with
  | claim => cases q <;> first | exact .inl ⟨rfl, rfl⟩ | exact .inr (.inr trivial) | exact hq.2.elim
  | failed =>
    cases q <;> first
      | exact .inl ⟨rfl, rfl⟩ | exact .inr (.inr trivial) | exact .inr (.inl trivial) | exact hq.elim
  | cancel => cases q <;> first | exact .inl ⟨rfl, rfl⟩ | exact .inr (.inr trivial) | exact hq.elim
  | cancelAll => cases q <;> first | exact .inl ⟨rfl, rfl⟩ | exact .inr (.inr trivial) | exact hq.elim
  | retry => cases q <;> first | exact .inl ⟨rfl, rfl⟩ | exact .inr (.inr trivial) | exact hq.elim
  | _ => exact hr.elim

theorem statement_settles {q : Statement} (h : Settles id e.pre es) (hop : e.op = .statement q)
    (hscope : InScope q) (hpost : e.post = q.next e.pre) (hfits : Fits id e.op e.pre) :
    Settles id e.post (es ++ [e]) := by
  obtain ⟨⟨op, i, pre, post⟩, t, r⟩ := e
  dsimp only at hop hpost h hfits ⊢
  subst hop hpost
  have hframed (hframe : Frame id pre (q.next pre)) (hsync : ¬Syncs id (.statement q))
      (hclose : ¬Closes (.statement q)) : Settles id (q.next pre)
        (es ++ [⟨⟨.statement q, i, pre, q.next pre⟩, t, r⟩]) :=
    framed_settles (e := ⟨⟨.statement q, i, pre, q.next pre⟩, t, r⟩) h hframe hsync hclose
  rcases hscope with ⟨hjobs, hmedia⟩ | hdescribes | hwrites
  · refine hframed (frame_of_reads hjobs hmedia) ?_ ?_
    · rintro ⟨status, reason, heq⟩
      cases heq
      cases hmedia
    · intro heq
      cases heq
      cases hjobs
  · refine hframed (frame_of_describes hdescribes) ?_ ?_
    · rintro ⟨status, reason, heq⟩
      cases heq
      exact hdescribes
    · intro heq
      cases heq
      exact hdescribes
  · cases q with
    | cancelAllMedia => exact cancelAllMedia_settles (e := ⟨⟨_, i, pre, _⟩, t, r⟩) h rfl rfl
    | cancelAllJobs => exact cancelAllJobs_settles (e := ⟨⟨_, i, pre, _⟩, t, r⟩) h rfl rfl hfits
    | claimNextJob => exact claimNextJob_settles (e := ⟨⟨_, i, pre, _⟩, t, r⟩) h rfl rfl hfits
    | updateStatusByJob id' status reason =>
      by_cases hid : id' = id
      · subst hid
        exact .inl (synced_inStep (hfits rfl))
      · refine hframed (frame_updateStatusByJob hid) ?_ fun heq => (by cases heq)
        rintro ⟨status, reason, heq⟩
        cases heq
        exact hid rfl
    | cancelIfWaiting id' =>
      by_cases hwon : id' = id ∧ (pre.cancelIfWaiting id').2 = true
      · exact transits_settles (e := ⟨⟨.statement (.cancelIfWaiting id'), i, pre, _⟩, t, r⟩) hwon
      · exact hframed (frame_cancelIfWaiting hwon) (fun ⟨_, _, heq⟩ => (by cases heq))
          fun heq => (by cases heq)
    | finalizeJob id' w status token fields =>
      by_cases hwon : id' = id ∧ (pre.finalizeJob id' w status token fields).2 = true
      · exact transits_settles
          (e := ⟨⟨.statement (.finalizeJob id' w status token fields), i, pre, _⟩, t, r⟩) hwon
      · exact hframed (frame_finalizeJob hwon) (fun ⟨_, _, heq⟩ => (by cases heq))
          fun heq => (by cases heq)
    | updateJob id' u =>
      by_cases hid : id' = id
      · exact transits_settles (e := ⟨⟨.statement (.updateJob id' u), i, pre, _⟩, t, r⟩) hid
      · exact hframed (frame_updateJob hid) (fun ⟨_, _, heq⟩ => (by cases heq))
          fun heq => (by cases heq)
    | _ => exact hwrites.elim

theorem call_settles (h : Settles id e.pre es) (hperforms : e.request.Performs e.op)
    (hcovered : Covered e.request) (hpost : e.post = (e.op.exec e.pre).1)
    (hfits : Fits id e.op e.pre) : Settles id e.post (es ++ [e]) := by
  cases hop : e.op with
  | statement q =>
    rw [hop] at hperforms hpost
    exact statement_settles h hop (covered_inScope hcovered hperforms) hpost hfits
  | reportBlock p =>
    rw [hop] at hperforms hpost
    cases hreq : e.request with
    | failed token jobId body =>
      rw [hreq] at hperforms
      exact failed_settles h hop hperforms hpost
    | _ =>
      rw [hreq] at hperforms hcovered
      first | exact hcovered.elim | (obtain ⟨block, -, hblock, -⟩ := hperforms; cases hblock)
  | batchBlock p =>
    rw [hop] at hperforms
    cases hreq : e.request <;> rw [hreq] at hperforms hcovered <;>
      first | exact hcovered.elim | cases hperforms.1

end Debts

section Bodies

variable {id jobId : Uuid} {mode : Isolation} {ε α β : Type}

-- A call that moves no job.
theorem repays_call {incurs : (op : Op) → op.Answer → Prop} {pays : Op → Prop} {op : Op}
    {k : op.Answer → Program Op Op.Answer ε α} (hop : ∀ a, ¬incurs op a)
    (hk : ∀ a, (k a).Repays incurs pays) : (Program.call op k).Repays incurs pays :=
  fun a => ⟨fun hincurs => absurd hincurs (hop a), hk a⟩

theorem cancelJob_repays : (cancelJob jobId).Repays (Transits id) (Syncs id) := by
  refine Program.Repays.rescue (Program.Repays.bind (fun won => ?_) fun _ => trivial) fun e => by
    cases e <;> trivial
  cases won with
  | true =>
    refine ⟨fun hincurs => ?_, repays_call (fun _ h => h) fun _ => repays_call (fun _ h => h) ?_⟩
    · obtain ⟨rfl, -⟩ := hincurs
      exact .inl ⟨_, _, rfl⟩
    · intro row
      cases row <;> trivial
  | false =>
    refine ⟨fun hincurs => (by cases hincurs.2), repays_call (fun _ h => h) fun row => ?_⟩
    cases row <;> trivial

theorem retryJob_repays : (retryJob jobId).Repays (Transits id) (Syncs id) := by
  refine repays_call (fun _ h => h) fun row => ?_
  cases row with
  | none => trivial
  | some job =>
    simp only [Program.ret_bind]
    split
    · trivial
    · refine repays_call (fun _ h => h) fun excluded => ?_
      cases excluded with
      | true => trivial
      | false =>
        refine fun _ => ⟨fun hid => ?_, repays_call (fun _ h => h) fun _ =>
          repays_call (fun _ h => h) fun _ => trivial⟩
        have hsame : jobId = id := hid
        subst hsame
        exact .inr fun _ => .inl ⟨_, _, rfl⟩

theorem failBlock_repays {body : FailedRequest} {job : Job} {attempt : Option Uuid} :
    (reportTransaction mode (failBlock jobId body job attempt)).Repays (Transits id) (Syncs id) := by
  cases mode with
  | isolated => exact repays_call (fun _ h => h) fun _ => trivial
  | shared =>
    refine repays_call (fun _ h => h) fun now won => ?_
    cases won with
    | true =>
      refine ⟨fun hincurs => ?_, repays_call (fun _ h => h) fun _ => trivial⟩
      obtain ⟨rfl, -⟩ := hincurs
      exact .inl ⟨_, _, rfl⟩
    | false => exact ⟨fun hincurs => (by cases hincurs.2), trivial⟩

theorem failJob_repays {token : WorkerToken} {body : FailedRequest} :
    (failJob mode token jobId body).Repays (Transits id) (Syncs id) := by
  refine Program.Repays.bind (.of_calls (Attempts.requireOwnedJob_only _ fun _ h => h))
    fun job => ?_
  cases isDuplicateTerminalReport job .failed with
  | error e => trivial
  | ok duplicate =>
    cases duplicate with
    | true => trivial
    | false =>
      change (Program.bind (requireClaimToken token.workerId body.claimToken) _).Repays _ _
      refine Program.Repays.bind ?_ fun attempt => Program.Repays.bind failBlock_repays fun won => ?_
      · exact .of_calls (requireClaimToken_only fun _ _ h => h)
      · cases won with
        | true => trivial
        | false => exact .of_calls (calls_answerLostFinalize (fun _ h => h) fun _ => trivial)

theorem covered_repays {r : Request} (hr : Covered r) :
    (r.body mode).Repays (Transits id) (Syncs id) := by
  cases r with
  | cancel => exact cancelJob_repays
  | retry => exact retryJob_repays
  | failed => exact failJob_repays
  | cancelAll =>
    exact repays_call (fun _ h => h) fun _ => repays_call (fun _ h => h) fun _ =>
      repays_call (fun _ h => h) fun _ => trivial
  | claim =>
    refine .of_calls ((Request.body_calls mode _).mono fun op hop a hincurs => ?_)
    cases op with
    | statement q => cases q <;> first | exact hincurs | exact hop.2
    | reportBlock p => exact hincurs
    | batchBlock p => exact hincurs
  | _ => exact hr.elim

theorem covered_closes {r : Request} (hr : Covered r) : (r.body mode).Repays Opens Closes := by
  by_cases hall : r = .cancelAll
  · subst hall
    exact repays_call (fun _ h => h) fun _ _ =>
      ⟨fun _ => .inl rfl, repays_call (fun _ h => h) fun _ => trivial⟩
  · refine .of_calls ((Request.body_calls mode r).mono fun op hop a hincurs => ?_)
    cases op with
    | statement q =>
      cases q with
      | cancelAllMedia =>
        cases r with
        | cancelAll => exact hall rfl
        | claim => exact hop.2
        | cancel => exact hop
        | retry => exact hop
        | failed => exact hop
        | _ => exact hr
      | _ => exact hincurs
    | reportBlock p => exact hincurs
    | batchBlock p => exact hincurs

end Bodies

section Runs

variable {mode : Isolation} {s : Store} {es : List SchedulerCall} {d : SchedulerConfig} {id : Uuid}

-- Somebody has still to write what the call leaves behind: a request that has moved the job its
-- rows, or a cancel-all that has written the row the job.
def Overwritten (id : Uuid) (xs : List SchedulerCall) (e : SchedulerCall) : Prop :=
  (∃ t, Owes handler (Transits id) (Syncs id) t (xs ++ [e])) ∨
    (Syncs id e.op ∧ Waiting id e.pre ∧ ∃ t, Owes handler Opens Closes t xs)

theorem Overwritten.unsettled {xs : List SchedulerCall} {e : SchedulerCall}
    (h : Overwritten id xs e) (hpost : e.post = (e.op.exec e.pre).1) :
    Unsettled id e.post (xs ++ [e]) := by
  rcases h with howes | ⟨⟨status, reason, hop⟩, hwaiting, t, howes⟩
  · exact .inl howes
  · refine .inr ⟨?_, t, howes.append fun hpays => ?_⟩
    · rw [hpost, hop]
      exact hwaiting
    · have hclose := hpays.2
      rw [hop] at hclose
      cases hclose

-- Every catalog write agrees with the job, a cancel-all cancels only what it has taken off the
-- queue in the catalog, and a claim takes no job whose row is off the queue; or it is overwritten.
def Orderly (id : Uuid) (es : List SchedulerCall) : Prop :=
  ∀ xs e ys, es = xs ++ e :: ys → Fits id e.op e.pre ∨ Overwritten id xs e

end Runs

section Sample

instance (status : TranscodeStatus) (j : Job) : Decidable (Agrees status j) :=
  inferInstanceAs (Decidable (¬(_ ∧ (_ ∨ _)) ∧ ¬(_ ∧ _)))

def noRowIs (id : Uuid) (status : TranscodeStatus) (s : Store) : Bool :=
  s.media.rows.all fun m => m.jobId != some id || m.transcodeStatus != status

def checkFits (id : Uuid) (e : SchedulerCall) : Bool :=
  match e.op with
  | .statement (.updateStatusByJob id' status _) =>
    id' != id || (e.pre.jobs.get? id).all fun j => decide (Agrees status j)
  | .statement .cancelAllJobs => noRowIs id .queued e.pre
  | .statement (.claimNextJob _ _ _) => noRowIs id .needsTranscode e.pre
  | _ => true

theorem noRowIs_sound {id : Uuid} {status : TranscodeStatus} {s : Store}
    (h : noRowIs id status s = true) : ¬RowsAre id status s := by
  rintro ⟨m, hm, hlinked, hstatus⟩
  have hrow := List.all_eq_true.mp h m hm
  simp [hlinked, hstatus] at hrow

theorem fits_of {id : Uuid} {e : SchedulerCall} (h : checkFits id e = true) :
    Fits id e.op e.pre := by
  obtain ⟨⟨op, i, pre, post⟩, t, r⟩ := e
  cases op with
  | statement q =>
    cases q with
    | updateStatusByJob id' status reason =>
      rintro rfl j hj
      dsimp only at hj
      simpa [checkFits, hj] using h
    | cancelAllJobs => exact fun _ => noRowIs_sound h
    | claimNextJob => exact fun _ => noRowIs_sound h
    | _ => trivial
  | _ => trivial

def covered : Request → Bool
  | .cancel _ | .cancelAll | .retry _ | .claim _ _ | .failed _ _ _ => true
  | _ => false

theorem covered_sound {r : Request} (h : covered r = true) : Covered r := by
  cases r <;> first | trivial | cases h

def sampleQueued : Store := sampleStore .queued none none

theorem sampleQueued_inStep : InStep 0 sampleQueued := by
  have hjob : ∀ j ∈ sampleQueued.jobs.rows, j.status = .queued := by decide +kernel
  have hrow : ∀ m ∈ sampleQueued.media.rows, m.transcodeStatus = .queued := by decide +kernel
  intro j m hj hm _
  rw [hrow m hm]
  refine ⟨fun ⟨_, hdead⟩ => ?_, fun ⟨hneeds, _⟩ => (by cases hneeds)⟩
  rcases hdead with h | h <;> rw [hjob j (Table.get?_mem hj)] at h <;> cases h

-- The job is cancelled and retried, and then the row is written for the cancellation.
def lateCancelMoves : List SchedulerMove :=
  .start 0 (.cancel 0) :: calls 0 1 ++ .start 1 (.retry 0) :: calls 1 5 ++ calls 0 2

def lateCancel : Played := (play .shared sampleQueued lateCancelMoves).get (by decide +kernel)

-- The cancellation's row is written before the retry, and the retry's before the claim.
def orderlyMoves : List SchedulerMove :=
  .start 0 (.cancel 0) :: calls 0 2 ++ .start 1 (.retry 0) :: calls 1 2 ++ calls 0 1 ++ calls 1 3 ++
    .start 2 (.claim sampleToken 1) :: calls 2 3

def orderly : Played := (play .shared sampleQueued orderlyMoves).get (by decide +kernel)

end Sample

end TranscodeForge.InStep
