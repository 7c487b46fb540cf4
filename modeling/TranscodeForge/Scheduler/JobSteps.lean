import TranscodeForge.Scheduler.Routes

namespace TranscodeForge.Scheduler

open Relational Interaction Store

-- Everything a statement can do to a job row that exists before and after it.
inductive JobStep (s : Store) : Statement → Job → Job → Prop
  | claimed {w : Uuid} {codecs : List String} {downscale : Bool} {j : Job} :
      j.status.isWaiting = true →
      JobStep s (.claimNextJob w codecs downscale) j (j.claimed w s.nextUuid s.now)
  | progressed {id : Uuid} {w token : Option Uuid} {fields : JobFields} {j : Job} :
      progressable id w token j = true →
      JobStep s (.reportProgress id w token fields) j (j.progressed fields s.now)
  | finalized {id : Uuid} {w token : Option Uuid} {status : JobStatus} {fields : JobFields}
      {j : Job} :
      finalizable id w token j = true →
      JobStep s (.finalizeJob id w status token fields) j (j.finalized status fields s.now)
  | released {w : Uuid} {j : Job} :
      ownedActive w j = true → JobStep s (.releaseJobs w) j (j.released s.now)
  | orphaned {minIdle : Nat} {j : Job} :
      s.orphaned minIdle j = true →
      JobStep s (.requeueOrphanActiveJobs minIdle) j (j.released s.now)
  | abandoned {grace : Nat} {j : Job} :
      s.abandoned grace j = true →
      JobStep s (.requeueAbandonedActiveJobs grace) j (j.released s.now)
  | cancelled {id : Uuid} {j : Job} :
      cancellable id j = true → JobStep s (.cancelIfWaiting id) j (j.cancelled s.now)
  | cancelledAll {j : Job} :
      j.status.isWaiting = true → JobStep s .cancelAllJobs j (j.cancelled s.now)
  | updated {id : Uuid} {u : JobUpdate} {j : Job} :
      j.id = id → JobStep s (.updateJob id u) j (u.applyTo s.now j)

-- Only a retry's UPDATE, which looks at the id alone, changes a finished job.
theorem JobStep.terminal {s : Store} {q : Statement} {j j' : Job} (h : JobStep s q j j')
    (hj : j.status.isTerminal = true) : ∃ u, q = .updateJob j.id u := by
  have hwaiting : j.status.isWaiting = false := by
    rcases j.status.waiting_active_terminal with h | h | h <;> simp_all
  have hactive : j.status.isActive = false := by
    rcases j.status.waiting_active_terminal with h | h | h <;> simp_all
  cases h with
  | updated hid =>
    subst hid
    exact ⟨_, rfl⟩
  | claimed h => simp [hwaiting] at h
  | progressed h => simp [progressable, hactive] at h
  | finalized h => simp [finalizable, hj] at h
  | released h => simp [ownedActive, hactive] at h
  | orphaned h => simp [Store.orphaned, hactive] at h
  | abandoned h => simp [Store.abandoned, hactive] at h
  | cancelled h => simp [cancellable, hwaiting] at h
  | cancelledAll h => simp [hwaiting] at h

inductive RowStep (s : Store) (q : Statement) (id : Uuid) : Option Job → Option Job → Prop
  | kept (row : Option Job) : RowStep s q id row row
  | inserted {draft : Job} :
      q = .createJob draft → id = s.nextUuid →
      RowStep s q id none (some (draft.inserted s.nextUuid s.now))
  | deleted {ids : List Uuid} {j : Job} :
      q = .deleteJobRows ids → id ∈ ids → RowStep s q id (some j) none
  | changed {j j' : Job} : JobStep s q j j' → RowStep s q id (some j) (some j')

section Rows

variable {s : Store} {id : Uuid}

theorem get?_updateJobs (p : Job → Bool) (set : Job → Job) (hset : ∀ j, (set j).id = j.id) :
    (s.updateJobs p set hset).jobs.get? id =
      (s.jobs.get? id).map fun j => if p j then set j else j :=
  Table.get?_update s.jobs p set hset id

theorem rowStep_updateJobs {q : Statement} {p : Job → Bool} {set : Job → Job}
    {hset : ∀ j, (set j).id = j.id} (hstep : ∀ j, j.id = id → p j = true → JobStep s q j (set j)) :
    RowStep s q id (s.jobs.get? id) ((s.updateJobs p set hset).jobs.get? id) := by
  rw [get?_updateJobs]
  cases h : s.jobs.get? id with
  | none => exact .kept none
  | some j =>
    by_cases hp : p j = true
    · simp only [Option.map_some, hp, if_true]
      exact .changed (hstep j (Table.get?_key h) hp)
    · simp only [Option.map_some, hp, if_false, Bool.false_eq_true]
      exact .kept (some j)

theorem oldest_mem {l : List Job} {j : Job} (h : oldest l = some j) : j ∈ l := by
  induction l generalizing j with
  | nil => cases h
  | cons x xs ih =>
    rw [oldest] at h
    cases hxs : oldest xs with
    | none =>
      rw [hxs] at h
      cases h
      exact List.mem_cons_self
    | some y =>
      rw [hxs] at h
      dsimp only at h
      split at h
      · cases h
        exact List.mem_cons_of_mem _ (ih hxs)
      · cases h
        exact List.mem_cons_self

theorem nextClaimable_waiting {codecs : List String} {downscale : Bool} {j : Job}
    (h : s.nextClaimable codecs downscale = some j) : j ∈ s.jobs ∧ j.status.isWaiting = true := by
  obtain ⟨hmem, hp⟩ := Table.mem_select.mp (oldest_mem h)
  rw [Job.claimable, Bool.and_eq_true, Bool.and_eq_true] at hp
  exact ⟨hmem, hp.1.1⟩

theorem rowStep_createJob (draft : Job) :
    RowStep s (.createJob draft) id (s.jobs.get? id)
      ((Statement.createJob draft).next s |>.jobs.get? id) := by
  change RowStep s _ id _ ((s.jobs.insert (draft.inserted s.nextUuid s.now)).get? id)
  cases h : s.jobs.get? s.nextUuid with
  | some j =>
    rw [Table.insert_of_taken h]
    exact .kept _
  | none =>
    rw [Table.get?_insert_of_free h]
    split
    · next hid =>
      change s.nextUuid = id at hid
      subst hid
      rw [h]
      exact .inserted rfl rfl
    · exact .kept _

theorem rowStep_deleteJobRows (ids : List Uuid) :
    RowStep s (.deleteJobRows ids) id (s.jobs.get? id)
      ((Statement.deleteJobRows ids).next s |>.jobs.get? id) := by
  change RowStep s _ id _ ((s.jobs.delete _).get? id)
  rw [Table.get?_delete]
  cases h : s.jobs.get? id with
  | none => exact .kept none
  | some j =>
    have hid := Table.get?_key h
    by_cases hmem : id ∈ ids
    · have hgone : (some j).filter (fun r => !ids.contains r.id) = none := by
        simp [hid, hmem]
      rw [hgone]
      exact .deleted rfl hmem
    · have hstays : (some j).filter (fun r => !ids.contains r.id) = some j := by
        simp [hid, hmem]
      rw [hstays]
      exact .kept _

theorem rowStep_claimNextJob (w : Uuid) (codecs : List String) (downscale : Bool) :
    RowStep s (.claimNextJob w codecs downscale) id (s.jobs.get? id)
      ((Statement.claimNextJob w codecs downscale).next s |>.jobs.get? id) := by
  change RowStep s _ id _ ((s.claimNextJob w codecs downscale).1.jobs.get? id)
  rw [Store.claimNextJob]
  cases h : s.nextClaimable (claimCodecs codecs) downscale with
  | none => exact .kept _
  | some next =>
    obtain ⟨hmem, hwaiting⟩ := nextClaimable_waiting h
    have hlook : (s.drawUuid.updateJobs (fun j => j.id == next.id)
        fun j => j.claimed w s.nextUuid s.now).jobs.get? id =
          (s.jobs.get? id).map fun j =>
            if j.id == next.id then j.claimed w s.nextUuid s.now else j :=
      get?_updateJobs ..
    refine hlook ▸ ?_
    cases hrow : s.jobs.get? id with
    | none => exact .kept none
    | some j =>
      by_cases hj : (j.id == next.id) = true
      · have hnext : j = next := Table.eq_of_key (Table.get?_mem hrow) hmem (by simpa using hj)
        simp only [Option.map_some, hj, if_true]
        exact .changed (.claimed (hnext ▸ hwaiting))
      · simp only [Option.map_some, hj, if_false, Bool.false_eq_true]
        exact .kept (some j)

theorem Statement.next_row (q : Statement) (s : Store) (id : Uuid) :
    RowStep s q id (s.jobs.get? id) ((q.next s).jobs.get? id) := by
  cases q with
  | createJob draft => exact rowStep_createJob draft
  | deleteJobRows ids => exact rowStep_deleteJobRows ids
  | claimNextJob w codecs downscale => exact rowStep_claimNextJob w codecs downscale
  | updateJob id' u =>
    exact rowStep_updateJobs fun j _ hp => .updated (by simpa using hp)
  | cancelIfWaiting id' => exact rowStep_updateJobs fun j _ hp => .cancelled hp
  | finalizeJob => exact rowStep_updateJobs fun j _ hp => .finalized hp
  | reportProgress => exact rowStep_updateJobs fun j _ hp => .progressed hp
  | releaseJobs => exact rowStep_updateJobs fun j _ hp => .released hp
  | requeueOrphanActiveJobs => exact rowStep_updateJobs fun j _ hp => .orphaned hp
  | requeueAbandonedActiveJobs => exact rowStep_updateJobs fun j _ hp => .abandoned hp
  | cancelAllJobs => exact rowStep_updateJobs fun j _ hp => .cancelledAll hp
  | _ => exact .kept _

end Rows

section Conditional

variable {s : Store} {id : Uuid}

-- An UPDATE that can only touch one row either finds it in its condition or does nothing.
theorem updateJobs_cases {p : Job → Bool} {f : Job → Job} {h : ∀ j, (f j).id = j.id}
    (hp : ∀ j, p j = true → j.id = id) :
    (s.updateJobs p f h = s ∧ s.jobs.rowCount p = 0 ∧
        ∀ j, s.jobs.get? id = some j → p j = false) ∨
      s.jobs.rowCount p ≠ 0 ∧ ∃ j, s.jobs.get? id = some j ∧ p j = true ∧
        (s.updateJobs p f h).jobs.get? id = some (f j) := by
  by_cases hcount : s.jobs.rowCount p = 0
  · have hnone := Table.rowCount_eq_zero.mp hcount
    refine .inl ⟨?_, hcount, fun j hj => hnone j (Table.get?_mem hj)⟩
    rw [Store.updateJobs, Table.update_eq_self hnone]
  · have hsome := hcount
    rw [Table.rowCount_eq_zero] at hsome
    push Not at hsome
    obtain ⟨j, hmem, hj⟩ := hsome
    have hpj : p j = true := by simpa using hj
    have hrow : s.jobs.get? id = some j := hp j hpj ▸ Table.get?_of_mem hmem
    refine .inr ⟨hcount, j, hrow, hpj, ?_⟩
    rw [get?_updateJobs, hrow, Option.map_some, if_pos hpj]

theorem heldBy_id {w token : Option Uuid} {j : Job} (h : j.heldBy id w token = true) :
    j.id = id := by
  simp only [Job.heldBy, Bool.and_eq_true, beq_iff_eq] at h
  exact h.1.1

theorem heldBy_token {w : Option Uuid} {token : Uuid} {j : Job}
    (h : j.heldBy id w (some token) = true) : j.claimToken = some token := by
  simp only [Job.heldBy, Bool.and_eq_true, attemptFence, beq_iff_eq] at h
  exact h.2

theorem finalizable_id {w token : Option Uuid} {j : Job} (h : finalizable id w token j = true) :
    j.id = id :=
  heldBy_id (Bool.and_eq_true_iff.mp h).1

theorem finalizable_open {w token : Option Uuid} {j : Job}
    (h : finalizable id w token j = true) : j.status.isTerminal = false := by
  simpa using (Bool.and_eq_true_iff.mp h).2

theorem progressable_id {w token : Option Uuid} {j : Job}
    (h : progressable id w token j = true) : j.id = id :=
  heldBy_id (Bool.and_eq_true_iff.mp h).1

theorem cancellable_id {j : Job} (h : cancellable id j = true) : j.id = id := by
  simp only [cancellable, Bool.and_eq_true, beq_iff_eq] at h
  exact h.1

theorem finalizeJob_cases (s : Store) (id : Uuid) (w : Option Uuid) (status : JobStatus)
    (token : Option Uuid) (fields : JobFields) :
    s.finalizeJob id w status token fields = (s, false) ∨
      (s.finalizeJob id w status token fields).2 = true ∧
        ∃ j, s.jobs.get? id = some j ∧ finalizable id w token j = true ∧
          (s.finalizeJob id w status token fields).1.jobs.get? id =
            some (j.finalized status fields s.now) := by
  rcases updateJobs_cases (s := s) (p := finalizable id w token)
    (f := fun j => j.finalized status fields s.now) (h := fun _ => rfl)
    fun _ => finalizable_id with ⟨hsame, hcount, -⟩ | ⟨hcount, hrow⟩
  · refine .inl (Prod.ext hsame ?_)
    simp [Store.finalizeJob, hcount]
  · exact .inr ⟨by simpa [Store.finalizeJob] using hcount, hrow⟩

theorem reportProgress_cases (s : Store) (id : Uuid) (w token : Option Uuid)
    (fields : JobFields) :
    s.reportProgress id w token fields = (s, false) ∨
      ∃ j, s.jobs.get? id = some j ∧ progressable id w token j = true := by
  rcases updateJobs_cases (s := s) (p := progressable id w token)
    (f := fun j => j.progressed fields s.now) (h := fun _ => rfl)
    fun _ => progressable_id with ⟨hsame, hcount, -⟩ | ⟨-, j, hrow, hp, -⟩
  · refine .inl (Prod.ext hsame ?_)
    simp [Store.reportProgress, hcount]
  · exact .inr ⟨j, hrow, hp⟩

end Conditional

section Tables

namespace Statement

def writesJobs : Statement → Bool
  | createJob _ | updateJob _ _ | cancelIfWaiting _ | finalizeJob _ _ _ _ _
  | reportProgress _ _ _ _ | releaseJobs _ | requeueOrphanActiveJobs _
  | requeueAbandonedActiveJobs _ | claimNextJob _ _ _ | cancelAllJobs | deleteJobRows _ => true
  | _ => false

def writesMedia : Statement → Bool
  | releaseMedia _ | updateMediaStatus _ _ _ _ | updateStatusByJob _ _ _ | updateOutput _ _ _
  | describeOutput _ _ _ _ _ | cancelAllMedia _ => true
  | _ => false

def writesWorkers : Statement → Bool
  | upsertWorker _ | updateWorkerHeartbeat _ _ _ | cleanupStaleWorkers _ => true
  | _ => false

theorem jobs_eq {q : Statement} (h : q.writesJobs = false) (s : Store) :
    (q.next s).jobs = s.jobs := by
  cases q <;> first | rfl | cases h

theorem claimNextJob_frame (w : Uuid) (codecs : List String) (downscale : Bool) (s : Store) :
    ((claimNextJob w codecs downscale).next s).media = s.media ∧
      ((claimNextJob w codecs downscale).next s).workers = s.workers := by
  change (s.claimNextJob w codecs downscale).1.media = _ ∧
    (s.claimNextJob w codecs downscale).1.workers = _
  rw [Store.claimNextJob]
  split <;> exact ⟨rfl, rfl⟩

theorem media_eq {q : Statement} (h : q.writesMedia = false) (s : Store) :
    (q.next s).media = s.media := by
  cases q with
  | claimNextJob w codecs downscale => exact (claimNextJob_frame w codecs downscale s).1
  | releaseMedia => cases h
  | updateMediaStatus => cases h
  | updateStatusByJob => cases h
  | updateOutput => cases h
  | describeOutput => cases h
  | cancelAllMedia => cases h
  | _ => rfl

theorem workers_eq {q : Statement} (h : q.writesWorkers = false) (s : Store) :
    (q.next s).workers = s.workers := by
  cases q with
  | claimNextJob w codecs downscale => exact (claimNextJob_frame w codecs downscale s).2
  | upsertWorker => cases h
  | updateWorkerHeartbeat => cases h
  | cleanupStaleWorkers => cases h
  | _ => rfl

end Statement

end Tables

end TranscodeForge.Scheduler
