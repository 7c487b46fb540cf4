import TranscodeForge.Scheduler.Terminal

namespace TranscodeForge.Retry

open Relational Interaction Scheduler Store Attempts

section Retryable

def Retried (j : Job) : Prop := j.status = .failed ∨ j.status = .cancelled

instance (j : Job) : Decidable (Retried j) := inferInstanceAs (Decidable (_ ∨ _))

structure Retryable (s : Store) (id : Uuid) : Prop where
  drawn : id < s.nextUuid
  row : ∀ j, s.jobs.get? id = some j → Retried j

-- Every statement but another retry's UPDATE of the job.
def NotRetry (id : Uuid) (q : Statement) : Prop := ∀ u, q ≠ .updateJob id u

variable {s : Store} {id : Uuid}

theorem Retried.terminal {j : Job} (h : Retried j) : j.status.isTerminal = true := by
  rcases h with h | h <;> rw [h] <;> rfl

theorem Retryable.next {q : Statement} (h : Retryable s id) (hq : NotRetry id q) :
    Retryable (q.next s) id where
  drawn := Nat.lt_of_lt_of_le h.drawn (q.nextUuid_le s)
  row j' hj' := by
    have hrow := q.next_row s id
    rw [hj'] at hrow
    generalize hbefore : s.jobs.get? id = before at hrow
    cases hrow with
    | kept => exact h.row j' hbefore
    | inserted _ hid => exact absurd h.drawn (hid ▸ Nat.lt_irrefl _)
    | changed hstep =>
      obtain ⟨u, rfl⟩ := hstep.terminal (h.row _ hbefore).terminal
      exact absurd (congrArg (Statement.updateJob · u) (Table.get?_key hbefore)) (hq u)

end Retryable

section Checks

-- A retry changes only its own job, and that only from failed or cancelled to pending.
def Revives (id : Uuid) (s s' : Store) : Prop :=
  ∀ id', s'.jobs.get? id' ≠ s.jobs.get? id' → id' = id ∧
    ∃ j j', s.jobs.get? id = some j ∧ s'.jobs.get? id = some j' ∧ Retried j ∧ j'.status = .pending

def Ends (id : Uuid) (e : SchedulerEntry) : Prop :=
  (¬∃ j, e.pre.jobs.get? id = some j ∧ Retried j) ∧ ∃ j, e.post.jobs.get? id = some j ∧ Retried j

-- The retry reads the job's status, or the job fails or is cancelled anew.
def Refreshes (t : Nat) (id : Uuid) (e : SchedulerEntry) : Prop :=
  (e.thread = t ∧ e.op = .statement (.getJob id)) ∨ (Ends id e ∧ Retryable e.post id)

def Overlaps (id : Uuid) (e : SchedulerEntry) : Prop := ¬e.op.Does (NotRetry id)

def Fresh (t : Nat) (r : Request) (op : Op) (h : List SchedulerEntry) : Prop :=
  ∀ id u, r = .retry id → op = .statement (.updateJob id u) →
    ClearSince (Refreshes t id) (Overlaps id) h

def Admitted (t : Nat) (r : Request) (op : Op) (_ : Unit) (x : Traced Nat Op Store Unit) : Prop :=
  r.Performs op ∧ x.1.WellFormed ∧ Fresh t r op x.2

def Checked (_ : Nat) (r : Request) (op : Op) (_ : Unit) (x : Traced Nat Op Store Unit) : Prop :=
  ∀ id, r = .retry id → Revives id x.1 (op.exec x.1).1

variable {mode : Isolation} {t : Nat} {id : Uuid}

abbrev auditing (mode : Isolation) (t : Nat) (r : Request) :
    Contract Op (Traced Nat Op Store Unit) Unit :=
  (scheduler mode).audit Admitted Checked t r

def StillRetryable (t : Nat) (id : Uuid) (x : Traced Nat Op Store Unit) : Prop :=
  ClearSince (Refreshes t id) (Overlaps id) x.2 → Retryable x.1 id

theorem stillRetryable_stable (t : Nat) (id : Uuid) :
    (scheduler mode).Stable Admitted t (StillRetryable t id) where
  call t' r' op i y hne _ hy hclear := by
    by_cases hends : Ends id ⟨⟨op, i, y.1, (op.exec y.1).1⟩, t'⟩ ∧ Retryable (op.exec y.1).1 id
    · exact hends.2
    · have hother : ¬Refreshes t id ⟨⟨op, i, y.1, (op.exec y.1).1⟩, t'⟩ := by
        rintro (⟨hthread, -⟩ | hends')
        · exact hne hthread
        · exact hends hends'
      obtain ⟨hbefore, hdoes⟩ := ClearSince.of_append hother hclear
      exact Op.exec_keeps (P := fun s => Retryable s id) (not_not.mp hdoes) (hy hbefore)
        fun q s hq hs => hs.next hq
  start t' r' s' y hs hy := by
    rw [start_state hs]
    exact hy
  disturb k y hy hclear := ⟨(hy hclear).drawn, (hy hclear).row⟩

theorem revives_of_jobs {s s' : Store} (h : s'.jobs = s.jobs) : Revives id s s' :=
  fun _ hne => absurd (by rw [h]) hne

theorem revives_updateJob {s : Store} {job : Job} (h : Retryable s id) :
    Revives id s ((Statement.updateJob id (retryUpdate job)).next s) := by
  intro id' hne
  have hrow := (Statement.updateJob id (retryUpdate job)).next_row s id'
  generalize hbefore : s.jobs.get? id' = before at hrow hne
  generalize hafter : ((Statement.updateJob id (retryUpdate job)).next s).jobs.get? id' = after
    at hrow hne
  cases hrow with
  | kept => exact absurd rfl hne
  | inserted heq => cases heq
  | deleted heq => cases heq
  | @changed j j' hstep =>
    cases hstep with
    | updated hid =>
      obtain rfl : id' = id := (Table.get?_key hbefore).symm.trans hid
      exact ⟨rfl, j, _, hbefore, hafter, h.row j hbefore, rfl⟩

theorem retryJob_wp {x : Traced Nat Op Store Unit} :
    (retryJob id).wp (scheduler mode).traced t (auditing mode t (.retry id)) (fun _ _ => True) x := by
  have hreads : ∀ {q : Statement} {y : Traced Nat Op Store Unit}, q.writesJobs = false →
      Checked t (.retry id) (.statement q) () y := fun hq _ _ => revives_of_jobs (Statement.jobs_eq hq _)
  refine System.wp_audit (System.Stable.true t) trivial fun i y _ hallow => ⟨hreads rfl, ?_⟩
  generalize hanswer : (scheduler mode).handler.answer t (.statement (.getJob id)) i y.1 = row
  have hrow : y.1.jobs.get? id = row := hanswer
  cases row with
  | none => trivial
  | some job =>
    simp only [Program.ret_bind]
    split
    · trivial
    · next hstatus =>
      rw [not_and_or, not_not, not_not] at hstatus
      have hread : StillRetryable t id
          ((scheduler mode).traced.next t (.statement (.getJob id)) i y) :=
        fun _ => ⟨hallow.2.1.drawnId id job hrow, fun j hj => by
          cases hrow.symm.trans hj
          exact hstatus⟩
      refine System.wp_audit (stillRetryable_stable t id) hread fun i z hz _ => ⟨hreads rfl, ?_⟩
      have hstill : StillRetryable t id ((scheduler mode).traced.next t
          (.statement (.isExcluded job.sourcePath)) i z) := by
        intro hclear
        have hother : ¬Refreshes t id
            ⟨⟨.statement (.isExcluded job.sourcePath), i, z.1, z.1⟩, t⟩ := by
          rintro (⟨-, heq⟩ | ⟨hends, -⟩)
          · cases heq
          · exact hends.1 hends.2
        exact hz (ClearSince.of_append hother hclear).1
      generalize (scheduler mode).handler.answer t (.statement (.isExcluded job.sourcePath)) i z.1 =
        excluded
      cases excluded with
      | true => trivial
      | false =>
        refine System.wp_audit (stillRetryable_stable t id) hstill fun i u hu hfresh => ⟨?_, ?_⟩
        · intro id' hid'
          cases hid'
          exact revives_updateJob (hu (hfresh.2.2 id _ rfl rfl))
        · exact System.wp_audit_of_calls (A := fun op => ∃ q : Statement, op = .statement q ∧
            q.writesJobs = false) ⟨⟨_, rfl, rfl⟩, fun _ => ⟨⟨_, rfl, rfl⟩, fun _ => trivial⟩⟩
            fun op i v hop _ => by
              obtain ⟨q, rfl, hq⟩ := hop
              exact hreads hq

theorem request_wp (mode : Isolation) (t : Nat) (r : Request) (x : Traced Nat Op Store Unit) :
    (r.body mode).wp (scheduler mode).traced t (auditing mode t r) (fun _ _ => True) x := by
  by_cases hretry : ∃ id, r = .retry id
  · obtain ⟨id, rfl⟩ := hretry
    exact retryJob_wp
  · exact System.wp_audit_of_calls (A := fun _ => True)
      ((r.body_calls mode).mono fun _ _ => trivial)
      fun _ _ _ _ _ id h => absurd ⟨id, h⟩ hretry

end Checks

section Runs

variable {mode : Isolation} {s : Store} {es : List SchedulerCall} {d : SchedulerConfig}

-- When a retry's UPDATE lands, every other retry of the job whose UPDATE landed since its own
-- status read has been followed by the job's failing or being cancelled again.
def Disjoint (es : List SchedulerCall) : Prop :=
  ∀ xs e ys, es = xs ++ e :: ys → Fresh e.thread e.request e.op (xs.map ThreadCall.entry)

end Runs

section Sample

def readsJob (t : Nat) (id : Uuid) (e : SchedulerCall) : Bool :=
  match e.op with
  | .statement (.getJob id') => e.thread == t && id' == id
  | _ => false

def mayRetry (id : Uuid) (e : SchedulerCall) : Bool :=
  match e.op with
  | .statement (.updateJob id' _) => id' == id
  | .statement _ => false
  | _ => true

-- A run is disjoint as soon as this evaluates to true.
def checkDisjoint (xs : List SchedulerCall) (e : SchedulerCall) : Bool :=
  match e.op with
  | .statement (.updateJob id _) => clearSince (readsJob e.thread id) (mayRetry id) xs
  | _ => true

theorem notRetry_of {id : Uuid} {e : SchedulerCall} (h : mayRetry id e = false) :
    e.op.Does (NotRetry id) := by
  obtain ⟨⟨op, i, pre, post⟩, t, r⟩ := e
  cases op with
  | statement q =>
    intro u hq
    subst hq
    simp [mayRetry] at h
  | reportBlock p => cases h
  | batchBlock p => cases h

theorem readsJob_spec {t : Nat} {id : Uuid} {e : SchedulerCall} (h : readsJob t id e = true) :
    e.thread = t ∧ e.op = .statement (.getJob id) := by
  obtain ⟨⟨op, i, pre, post⟩, t', r⟩ := e
  cases op with
  | statement q =>
    cases q with
    | getJob id' =>
      simp only [readsJob, Bool.and_eq_true, beq_iff_eq] at h
      exact ⟨h.1, by rw [h.2]⟩
    | _ => cases h
  | _ => cases h

theorem disjoint_of {es : List SchedulerCall} (h : everySplit checkDisjoint [] es = true) :
    Disjoint es := by
  intro xs e ys heq id u _ hop
  have hcheck := everySplit_sound h xs e ys heq
  simp only [checkDisjoint, hop, List.nil_append] at hcheck
  have hclear : ClearSince (fun f => Refreshes e.thread id f.entry)
      (fun f => Overlaps id f.entry) xs :=
    clearSince_sound (fun f hf => .inl (readsJob_spec hf))
      (fun f hf => not_not.mpr (notRetry_of hf)) hcheck
  exact hclear.map


def sampleFailed : Store := sampleStore .failed (some 1) (some 2)

theorem sampleFailed_wellFormed : sampleFailed.WellFormed := .of_rows (by decide +kernel)

-- Two retries overlap, and between their UPDATEs the job is claimed.
def overlapping : Played :=
  (play .shared sampleFailed (.start 0 (.retry 0) :: calls 0 2 ++ .start 1 (.retry 0) :: calls 1 5 ++
    .start 2 (.claim sampleToken 1) :: calls 2 3 ++ calls 0 1)).get (by decide +kernel)

-- The second retry reads the status again once the first one's attempt has been cancelled.
def successive : Played :=
  (play .shared sampleFailed (.start 0 (.retry 0) :: calls 0 5 ++ .start 1 (.cancel 0) ::
    calls 1 3 ++ .start 2 (.retry 0) :: calls 2 5)).get (by decide +kernel)

end Sample

end TranscodeForge.Retry
