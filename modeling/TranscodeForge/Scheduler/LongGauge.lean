import TranscodeForge.Scheduler.Attempts

namespace TranscodeForge.LongGauge

open Relational Interaction Scheduler Store

section Job

variable {w jobId k : Uuid} {t : Instant} {s : Store} {q : Statement}

-- While a row carries the claim token that an instant's claim has drawn, it is that claim's
-- worker's, and was last written at that instant or later.
structure Held (w jobId k : Uuid) (t : Instant) (s : Store) : Prop where
  row : ∀ j, s.jobs.get? jobId = some j → j.claimToken = some k →
    j.workerId = some w ∧ t ≤ j.updatedAt
  drawn : k < s.nextUuid
  later : t ≤ s.now

theorem step_held {j j' : Job} (h : JobStep s q j j') (hq : q.Proper)
    (hk : j'.claimToken = some k) (hdrawn : k < s.nextUuid) :
    j.claimToken = some k ∧ j'.workerId = j.workerId ∧ j'.updatedAt = s.now := by
  cases h with
  | claimed =>
    cases hk
    exact absurd hdrawn (Nat.lt_irrefl _)
  | progressed => exact ⟨hk, rfl, rfl⟩
  | finalized => exact ⟨hk, rfl, rfl⟩
  | released => cases hk
  | orphaned => cases hk
  | abandoned => cases hk
  | cancelled => exact ⟨hk, rfl, rfl⟩
  | cancelledAll => exact ⟨hk, rfl, rfl⟩
  | updated =>
    obtain ⟨job, rfl⟩ := hq
    cases hk

theorem Held.next (h : Held w jobId k t s) (hq : q.Proper) : Held w jobId k t (q.next s) where
  row := by
    intro j' hj' hk
    have hrow := q.next_row s jobId
    rw [hj'] at hrow
    generalize hbefore : s.jobs.get? jobId = before at hrow
    cases hrow with
    | kept => exact h.row j' hbefore hk
    | inserted => cases hk
    | changed hstep =>
      obtain ⟨htoken, hworker, hnow⟩ := step_held hstep hq hk h.drawn
      exact ⟨hworker.trans (h.row _ hbefore htoken).1, hnow ▸ h.later⟩
  drawn := Nat.lt_of_lt_of_le h.drawn (q.nextUuid_le s)
  later := q.now_eq s ▸ h.later

theorem Held.elapsed (h : Held w jobId k t s) (n : Nat) :
    Held w jobId k t { s with now := s.now + n } :=
  ⟨h.row, h.drawn, Nat.le_trans h.later (Nat.le_add_right _ _)⟩

def claims (w : Uuid) : Op → Bool
  | .statement (.claimNextJob id _ _) => id == w
  | _ => false

theorem claims_op {op : Op} (h : claims w op = true) :
    ∃ codecs downscale, op = .statement (.claimNextJob w codecs downscale) := by
  cases op with
  | statement q =>
    cases q with
    | claimNextJob id codecs downscale =>
      obtain rfl : id = w := by simpa [claims] using h
      exact ⟨codecs, downscale, rfl⟩
    | _ => cases h
  | _ => cases h

-- The claim that draws the token and stamps the job with it.
def Takes (w jobId k : Uuid) (c : SchedulerCall) : Prop :=
  claims w c.op = true ∧ c.pre.nextUuid = k ∧ ∃ j, c.post.jobs.get? jobId = some j ∧ j.claimToken = some k

theorem Takes.held {c : SchedulerCall} (h : Takes w jobId k c) (hs : c.pre.WellFormed)
    (hpost : c.post = (c.op.exec c.pre).1) : Held w jobId k c.pre.now c.post := by
  obtain ⟨hclaims, rfl, -⟩ := h
  obtain ⟨codecs, downscale, hop⟩ := claims_op hclaims
  have hnext : c.post = (Statement.claimNextJob w codecs downscale).next c.pre := by
    rw [hpost, hop]
    rfl
  rw [hnext]
  refine ⟨fun j' hj' hk => ?_, ?_, ?_⟩
  · have hrow := (Statement.claimNextJob w codecs downscale).next_row c.pre jobId
    rw [hj'] at hrow
    generalize hbefore : c.pre.jobs.get? jobId = before at hrow
    cases hrow with
    | kept => exact absurd (hs.drawnToken jobId j' _ hbefore hk) (Nat.lt_irrefl _)
    | inserted hcreate => cases hcreate
    | changed hstep =>
      cases hstep with
      | claimed => exact ⟨rfl, Nat.le_refl _⟩
  · rw [claimNextJob_nextUuid]
    exact Nat.lt_succ_self _
  · exact Nat.le_of_eq ((Statement.claimNextJob w codecs downscale).now_eq c.pre).symm

end Job

section Worker

variable {w jobId : Uuid} {T : Nat} {t : Instant} {ys : List SchedulerCall} {g : SchedulerCall}

def beats (w : Uuid) : Op → Bool
  | .statement (.updateWorkerHeartbeat id _ _) => id == w
  | _ => false

-- A heartbeat of the worker at work on the job.
def names (w jobId : Uuid) : Op → Bool
  | .statement (.updateWorkerHeartbeat id status current) =>
    id == w && current == some jobId && status.isAlive
  | _ => false

def registers (w : Uuid) : Op → Bool
  | .statement (.upsertWorker v) => v.id == w
  | _ => false

def staleAfter : Op → Option Nat
  | .statement (.cleanupStaleWorkers timeout) => some timeout
  | _ => none

-- What the worker does after its claim at an instant: all its heartbeats name the job, the first
-- comes within the abandoned grace, and none comes as late as T after the one before it.
structure Beats (w jobId : Uuid) (T : Nat) (t : Instant) (ys : List SchedulerCall) : Prop where
  named : ∀ g ∈ ys, beats w g.op = true → names w jobId g.op = true
  unregistered : ∀ g ∈ ys, registers w g.op = false
  spaced : ∀ us g vs, ys = us ++ g :: vs →
    (t + abandonedGrace < g.pre.now ∨ ∃ b ∈ us, names w jobId b.op = true) →
    ∃ b ∈ us, names w jobId b.op = true ∧ g.pre.now < b.pre.now + T

theorem Beats.of_append (h : Beats w jobId T t (ys ++ [g])) : Beats w jobId T t ys where
  named f hf := h.named f (List.mem_append_left _ hf)
  unregistered f hf := h.unregistered f (List.mem_append_left _ hf)
  spaced us f vs heq := h.spaced us f (vs ++ [g]) (by simp [heq])

-- No worker is declared dead before its heartbeat is T old.
def Patient (T : Nat) (es : List SchedulerCall) : Prop :=
  ∀ g ∈ es, ∀ timeout ∈ staleAfter g.op, T ≤ timeout

-- What the worker's row says of the job once a heartbeat has named it.
structure Engaged (w jobId : Uuid) (ys : List SchedulerCall) (s : Store) : Prop where
  row : ∃ r, s.workers.get? w = some r ∧ ∀ b ∈ ys, names w jobId b.op = true →
    r.currentJobId = some jobId ∧ r.status.isAlive = true ∧
      ∃ beat, r.lastHeartbeat = some beat ∧ b.pre.now ≤ beat
  past : ∀ g ∈ ys, g.pre.now ≤ s.now

theorem Engaged.elapsed {s : Store} (h : Engaged w jobId ys s) (n : Nat) :
    Engaged w jobId ys { s with now := s.now + n } :=
  ⟨h.row, fun g hg => Nat.le_trans (h.past g hg) (Nat.le_add_right _ _)⟩

theorem Engaged.past_append (h : Engaged w jobId ys g.pre) :
    ∀ f ∈ ys ++ [g], f.pre.now ≤ g.pre.now := by
  intro f hf
  rcases List.mem_append.mp hf with hf | hf
  · exact h.past f hf
  · exact Nat.le_of_eq (congrArg (fun f => f.pre.now) (List.mem_singleton.mp hf))

-- A call that leaves the worker's row as it was.
theorem Engaged.unchanged (h : Engaged w jobId ys g.pre) (hnames : names w jobId g.op = false)
    (hrow : g.post.workers.get? w = g.pre.workers.get? w) (hnow : g.post.now = g.pre.now) :
    Engaged w jobId (ys ++ [g]) g.post where
  row := by
    obtain ⟨r, hr, hbeats⟩ := h.row
    refine ⟨r, hrow.trans hr, fun b hb hname => ?_⟩
    rcases List.mem_append.mp hb with hb | hb
    · exact hbeats b hb hname
    · rw [List.mem_singleton.mp hb, hnames] at hname
      cases hname
  past := hnow ▸ h.past_append

-- What an UPDATE does to the worker's row.
theorem get?_updateWorkers {s : Store} {p : Worker → Bool} {set : Worker → Worker}
    {hset : ∀ v, (set v).id = v.id} {r : Worker} (hr : s.workers.get? w = some r) :
    (s.updateWorkers p set hset).workers.get? w = some (if p r then set r else r) := by
  change (s.workers.update p set hset).get? w = _
  rw [Table.get?_update, hr, Option.map_some]

theorem Engaged.heartbeat {id : Uuid} {status : WorkerStatus} {current : Option Uuid}
    (h : Engaged w jobId ys g.pre) (hop : g.op = .statement (.updateWorkerHeartbeat id status current))
    (hnamed : id = w → names w jobId g.op = true)
    (hpost : g.post = g.pre.updateWorkerHeartbeat id status current) :
    Engaged w jobId (ys ++ [g]) g.post := by
  obtain ⟨r, hr, hbeats⟩ := h.row
  have hpast := h.past_append
  rw [hpost]
  refine ⟨⟨_, get?_updateWorkers hr, fun b hb hname => ?_⟩, hpast⟩
  have hid : r.id = w := Table.get?_key hr
  by_cases hw : id = w
  · have hnames := hnamed hw
    simp only [hop, names, Bool.and_eq_true, beq_iff_eq] at hnames
    rw [if_pos (by simpa [hw] using hid)]
    exact ⟨hnames.1.2, hnames.2, _, rfl, hpast b hb⟩
  · have hother : (r.id == id) = false := by simpa [hid] using Ne.symm hw
    rw [hother]
    rcases List.mem_append.mp hb with hb | hb
    · exact hbeats b hb hname
    · rw [List.mem_singleton.mp hb, hop] at hname
      simp only [names, Bool.and_eq_true, beq_iff_eq] at hname
      exact absurd hname.1.1 hw

theorem Engaged.cleanup {timeout : Nat} (h : Engaged w jobId ys g.pre)
    (hop : g.op = .statement (.cleanupStaleWorkers timeout))
    (hrecent : (∃ b ∈ ys, names w jobId b.op = true) →
      ∃ b ∈ ys, names w jobId b.op = true ∧ g.pre.now < b.pre.now + T) (htimeout : T ≤ timeout)
    (hpost : g.post = (g.pre.cleanupStaleWorkers timeout).1) :
    Engaged w jobId (ys ++ [g]) g.post := by
  obtain ⟨r, hr, hbeats⟩ := h.row
  have hpast := h.past_append
  rw [hpost]
  refine ⟨⟨_, get?_updateWorkers hr, fun b hb hname => ?_⟩, hpast⟩
  have hmem : b ∈ ys := by
    rcases List.mem_append.mp hb with hb | hb
    · exact hb
    · rw [List.mem_singleton.mp hb, hop] at hname
      cases hname
  -- The last heartbeat is too recent for the sweep.
  have hfresh : g.pre.stale timeout r = false := by
    obtain ⟨b', hb', hname', hnow⟩ := hrecent ⟨b, hmem, hname⟩
    obtain ⟨-, -, beat, hbeat, hle⟩ := hbeats b' hb' hname'
    have hlimit : g.pre.now ≤ beat + timeout :=
      Nat.le_trans (Nat.le_of_lt hnow) (Nat.add_le_add hle htimeout)
    rw [Store.stale, hbeat, Option.any_some, decide_eq_false (Nat.not_lt.mpr hlimit), Bool.and_false]
  rw [hfresh]
  exact hbeats b hmem hname

theorem Engaged.call (h : Engaged w jobId ys g.pre) (hbeats : Beats w jobId T t (ys ++ [g]))
    (hpatient : ∀ timeout ∈ staleAfter g.op, T ≤ timeout)
    (hperforms : g.request.Performs g.op) (hpost : g.post = (g.op.exec g.pre).1) :
    Engaged w jobId (ys ++ [g]) g.post := by
  have hnow : g.post.now = g.pre.now := by
    rw [hpost]
    exact g.op.now_eq g.pre
  have hblock (hnames : names w jobId g.op = false) (hne : ∀ q, g.op ≠ .statement q) :
      Engaged w jobId (ys ++ [g]) g.post := by
    refine h.unchanged hnames ?_ hnow
    rw [hpost]
    exact Op.exec_keeps (P := fun s => s.workers.get? w = g.pre.workers.get? w)
      (Attempts.block_workers hperforms hne) rfl fun q s hq hs => by rw [Statement.workers_eq hq, hs]
  have hmem : g ∈ ys ++ [g] := by simp
  have hnamed := hbeats.named g hmem
  have hunregistered := hbeats.unregistered g hmem
  cases hop : g.op with
  | reportBlock p => exact hblock (by rw [hop]; rfl) fun q heq => by rw [hop] at heq; cases heq
  | batchBlock p => exact hblock (by rw [hop]; rfl) fun q heq => by rw [hop] at heq; cases heq
  | statement q =>
    rw [hop] at hpost hpatient hunregistered
    cases hwrites : q.writesWorkers with
    | false =>
      refine h.unchanged ?_ ?_ hnow
      · rw [hop]
        cases q with
        | updateWorkerHeartbeat => cases hwrites
        | _ => rfl
      · rw [hpost]
        exact congrArg (fun T => T.get? w) (Statement.workers_eq hwrites g.pre)
    | true =>
      cases q with
      | upsertWorker v =>
        have hid : v.id ≠ w := by simpa [registers] using hunregistered
        have hlook : (g.pre.upsertWorker v).workers.get? w = _ := Table.get?_upsert ..
        refine h.unchanged (by rw [hop]; rfl) ?_ hnow
        rw [hpost]
        exact hlook.trans (if_neg hid)
      | updateWorkerHeartbeat id status current =>
        exact h.heartbeat hop (fun hid => hnamed (by rw [hop]; simp [beats, hid])) hpost
      | cleanupStaleWorkers timeout =>
        exact h.cleanup hop (fun hnamed => hbeats.spaced ys g [] rfl (.inr hnamed))
          (hpatient timeout rfl) hpost
      | _ => cases hwrites

end Worker

section Runs

variable {mode : Isolation} {s₀ : Store} {es xs ys zs : List SchedulerCall} {d : SchedulerConfig}
variable {c e : SchedulerCall} {w jobId k : Uuid} {T : Nat}

theorem run_held (hs : s₀.WellFormed) (h : SchedulerRun mode s₀ es d) :
    ∀ xs e ys, es = xs ++ e :: ys → ∀ us c vs, xs = us ++ c :: vs → Takes w jobId k c →
      Held w jobId k c.pre.now e.pre := by
  refine (Run.history_invariant
    (P := fun s h => ∀ us c vs, h = us ++ c :: vs → Takes w jobId k c →
      Held w jobId k c.pre.now s)
    (A := fun _ e => e.op.Does e.request.Sends ∧ e.pre.WellFormed) h ?_ ?_ ?_ ?_ ?_).1
  · rintro xs e ys rfl
    exact ⟨h.does e (by simp), (hs.run h).1 e (by simp)⟩
  · intro us c vs heq
    cases us <;> cases heq
  · intro t r s s' es hheld hstart
    rw [start_state hstart]
    exact hheld
  · exact fun n s es hheld us c vs heq htakes => (hheld us c vs heq htakes).elapsed n
  · intro e es hpost hdoes hheld us c vs heq htakes
    rcases eq_append_singleton_cases heq with ⟨rfl, rfl, rfl⟩ | ⟨ws, rfl, rfl⟩
    · exact htakes.held hdoes.2 hpost
    · rw [hpost]
      exact Op.exec_keeps (hdoes.1.mono fun q => Request.Sends.proper) (hheld us c ws rfl htakes)
        fun q s hq hs => hs.next hq

theorem run_engaged (h : SchedulerRun mode s₀ es d) (hpatient : Patient T es) :
    ∀ xs e zs, es = xs ++ e :: zs → ∀ us c ys, xs = us ++ c :: ys → Takes w jobId k c →
      (c.pre.workers.get? w).isSome = true → Beats w jobId T c.pre.now ys →
      Engaged w jobId ys e.pre := by
  refine (Run.history_invariant
    (P := fun s h => ∀ us c ys, h = us ++ c :: ys → Takes w jobId k c →
      (c.pre.workers.get? w).isSome = true → Beats w jobId T c.pre.now ys → Engaged w jobId ys s)
    (A := fun _ e => e.request.Performs e.op ∧ ∀ timeout ∈ staleAfter e.op, T ≤ timeout)
    h ?_ ?_ ?_ ?_ ?_).1
  · rintro xs e ys rfl
    exact ⟨h.performs e (by simp), hpatient e (by simp)⟩
  · intro us c ys heq
    cases us <;> cases heq
  · intro t r s s' es hengaged hstart
    rw [start_state hstart]
    exact hengaged
  · exact fun n s es hengaged us c ys heq htakes hrow hbeats =>
      (hengaged us c ys heq htakes hrow hbeats).elapsed n
  · intro e es hpost hadmitted hengaged us c ys heq htakes hrow hbeats
    rcases eq_append_singleton_cases heq with ⟨rfl, rfl, rfl⟩ | ⟨ws, rfl, rfl⟩
    · obtain ⟨codecs, downscale, hop⟩ := claims_op htakes.1
      have hworkers : e.post.workers = e.pre.workers := by
        rw [hpost, hop]
        exact Statement.workers_eq (q := .claimNextJob w codecs downscale) rfl e.pre
      obtain ⟨r, hr⟩ := Option.isSome_iff_exists.mp hrow
      exact ⟨⟨r, hworkers ▸ hr, fun b hb => by cases hb⟩, fun f hf => by cases hf⟩
    · exact (hengaged us c ws rfl htakes hrow hbeats.of_append).call hbeats hadmitted.2 hadmitted.1
        hpost

theorem not_abandoned {s : Store} {j : Job} (hheld : Held w jobId k c.pre.now s)
    (hj : s.jobs.get? jobId = some j) (hk : j.claimToken = some k)
    (hengaged : s.now ≤ c.pre.now + abandonedGrace ∨
      ∃ r, s.workers.get? w = some r ∧ r.currentJobId = some jobId ∧ r.status.isAlive = true) :
    s.abandoned abandonedGrace j = false ∧ s.orphaned orphanRequeueGrace j = false := by
  obtain ⟨hworker, hupdated⟩ := hheld.row j hj hk
  rcases hengaged with hnow | ⟨r, hr, hcurrent, halive⟩
  · have hgrace : abandonedGrace ≤ orphanRequeueGrace := Nat.mul_le_mul_right _ (by decide)
    have hyoung : s.now ≤ j.updatedAt + abandonedGrace :=
      Nat.le_trans hnow (Nat.add_le_add_right hupdated _)
    have hyoung' : s.now ≤ j.updatedAt + orphanRequeueGrace :=
      Nat.le_trans hyoung (Nat.add_le_add_left hgrace _)
    constructor
    · rw [Store.abandoned, decide_eq_false (Nat.not_lt.mpr hyoung), Bool.and_false]
    · rw [Store.orphaned, decide_eq_false (Nat.not_lt.mpr hyoung'), Bool.and_false]
  · have howner : s.owner j = some r := by
      rw [Store.owner, hworker]
      exact hr
    have hid : j.id = jobId := Table.get?_key hj
    constructor
    · simp only [Store.abandoned, howner, Option.any_some, hcurrent, hid, bne_self_eq_false,
        Bool.and_false, Bool.false_and]
    · simp only [Store.orphaned, howner, Option.all_some, halive, Bool.not_true, Bool.and_false,
        Bool.false_and]

-- A worker that goes on naming its job keeps it, however long the job reports no progress.
theorem live_worker_keeps_job (hs : s₀.WellFormed) (h : SchedulerRun mode s₀ es d)
    (hpatient : Patient T es) (heq : es = xs ++ c :: ys ++ e :: zs) (htakes : Takes w jobId k c)
    (hrow : (c.pre.workers.get? w).isSome = true) (hbeats : Beats w jobId T c.pre.now (ys ++ [e]))
    (hsweep : e.request = .orphanRequeue) {j : Job} (hj : e.pre.jobs.get? jobId = some j)
    (hk : j.claimToken = some k) : e.post.jobs.get? jobId = some j := by
  have hsplit : es = (xs ++ c :: ys) ++ e :: zs := by simp [heq]
  have hheld : Held w jobId k c.pre.now e.pre := run_held hs h _ e zs hsplit xs c ys rfl htakes
  have hengaged := run_engaged h hpatient _ e zs hsplit xs c ys rfl htakes hrow hbeats.of_append
  have hnever := not_abandoned hheld hj hk (by
    by_cases hnow : c.pre.now + abandonedGrace < e.pre.now
    · obtain ⟨b, hb, hname, -⟩ := hbeats.spaced ys e [] rfl (.inl hnow)
      obtain ⟨r, hr, hnamed⟩ := hengaged.row
      exact .inr ⟨r, hr, (hnamed b hb hname).1, (hnamed b hb hname).2.1⟩
    · exact .inl (Nat.not_lt.mp hnow))
  have hperforms := h.performs e (by simp [heq])
  have hpost := h.post e (by simp [heq])
  rw [hsweep] at hperforms
  cases hop : e.op with
  | reportBlock p =>
    rw [hop] at hperforms
    obtain ⟨block, job, hblock, -⟩ := hperforms
    cases hblock
  | batchBlock p =>
    rw [hop] at hperforms
    cases hperforms.1
  | statement q =>
    rw [hop] at hperforms hpost
    cases q with
    | requeueOrphanActiveJobs minIdle =>
      obtain rfl : minIdle = orphanRequeueGrace := hperforms
      rw [hpost]
      refine (get?_updateJobs _ _ _).trans ?_
      rw [hj, Option.map_some, hnever.2]
      rfl
    | requeueAbandonedActiveJobs grace =>
      obtain rfl : grace = abandonedGrace := hperforms
      rw [hpost]
      refine (get?_updateJobs _ _ _).trans ?_
      rw [hj, Option.map_some, hnever.1]
      rfl
    | _ => exact hperforms.elim

end Runs

section Sample

-- The worker has named no job for five minutes when it claims one.
def idleWorker : Store :=
  { sampleStore .queued none none with
    workers := Table.empty.insert
      { id := 1, name := "worker", host := "host", status := .online, lastHeartbeat := some 0
        currentJobChangedAt := some 0 } }

def beat (t : Nat) (status : WorkerStatus) (current : Option Uuid) : List SchedulerMove :=
  .start t (.heartbeat sampleToken { workerId := 1, status := status, currentJobId := current }) ::
    calls t 1

-- It gauges for longer than the sweep's grace and reports nothing but its heartbeats.
def gauging : Played :=
  (play .isolated idleWorker
    (.disturb (seconds 300) :: beat 0 .online none ++ .start 1 (.claim sampleToken 1) :: calls 1 3 ++
      .disturb (seconds 80) :: beat 2 .busy (some 0) ++
      .start 3 (.staleWorkers (seconds 90)) :: calls 3 1 ++
      .disturb (seconds 80) :: beat 4 .busy (some 0) ++
      .disturb (seconds 60) :: .start 5 .orphanRequeue :: calls 5 2)).get (by decide +kernel)

def gaugingClaim : SchedulerCall := gauging.1[3]?.get (by decide +kernel)

def gaugingSweep : SchedulerCall := (gauging.1.drop 4)[4]?.get (by decide +kernel)

def gaugingBeats : List SchedulerCall := (gauging.1.drop 4).take 4

def inTime (us : List SchedulerCall) (g : SchedulerCall) : Bool :=
  decide ((gaugingClaim.pre.now + abandonedGrace < g.pre.now ∨ ∃ b ∈ us, names 1 0 b.op = true) →
    ∃ b ∈ us, names 1 0 b.op = true ∧ g.pre.now < b.pre.now + seconds 90)

theorem live_worker_keeps_job_gauging :
    ∃ j, gaugingSweep.post.jobs.get? 0 = some j ∧ j.workerId = some 1 := by
  have hrun := play_run (p := gauging) (Option.some_get _).symm
  have hwell : idleWorker.WellFormed := .of_rows (by decide +kernel)
  have hclaim := split_at (show gauging.1[3]? = some gaugingClaim from (Option.some_get _).symm)
  have hsweep := split_at (show (gauging.1.drop 4)[4]? = some gaugingSweep from
    (Option.some_get _).symm)
  have hsplit : gauging.1 =
      gauging.1.take 3 ++ gaugingClaim :: gaugingBeats ++ gaugingSweep :: gauging.1.drop 9 := by
    refine hclaim.trans ?_
    rw [List.append_assoc, List.cons_append]
    exact congrArg (fun l => gauging.1.take 3 ++ gaugingClaim :: l) (hsweep.trans (by simp [gaugingBeats]))
  have htakes : Takes 1 0 3 gaugingClaim := by
    obtain ⟨j, hj, hk⟩ := Option.map_eq_some_iff.mp
      (show (gaugingClaim.post.jobs.get? 0).map Job.claimToken = some (some 3) by decide +kernel)
    exact ⟨by decide +kernel, by decide +kernel, j, hj, hk⟩
  have hbeats : Beats 1 0 (seconds 90) gaugingClaim.pre.now (gaugingBeats ++ [gaugingSweep]) := by
    refine ⟨by decide +kernel, by decide +kernel, fun us g vs heq hdue => ?_⟩
    have hchecked : everySplit inTime [] (gaugingBeats ++ [gaugingSweep]) = true := by
      decide +kernel
    exact of_decide_eq_true (everySplit_sound hchecked us g vs heq) hdue
  obtain ⟨j, hj, hworker⟩ := Option.map_eq_some_iff.mp
    (show (gaugingSweep.pre.jobs.get? 0).map (fun j => (j.claimToken, j.workerId)) =
      some (some 3, some 1) by decide +kernel)
  obtain ⟨hk, hworker⟩ := Prod.mk.inj hworker
  have hpatient : ∀ g ∈ gauging.1, ∀ timeout ∈ staleAfter g.op, seconds 90 ≤ timeout := by
    decide +kernel
  exact ⟨j, live_worker_keeps_job hwell hrun hpatient hsplit htakes (by decide +kernel)
    hbeats (by decide +kernel) hj hk, hworker⟩

end Sample

end TranscodeForge.LongGauge
