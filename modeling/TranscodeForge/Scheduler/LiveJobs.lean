import TranscodeForge.Scheduler.Retry

namespace TranscodeForge.LiveJobs

open Relational Interaction Scheduler Store Attempts

section Rows

def OneLive (s : Store) : Prop :=
  ∀ id id' j j', s.jobs.get? id = some j → s.jobs.get? id' = some j' →
    j.sourcePath = j'.sourcePath → j.status.isLive = true → j'.status.isLive = true → id = id'

def Free (path : String) (s : Store) : Prop :=
  ∀ id j, s.jobs.get? id = some j → j.sourcePath = path → j.status.isLive = false

-- No other job on the path of this one is live.
def Sole (id : Uuid) (s : Store) : Prop :=
  ∀ j id' j', s.jobs.get? id = some j → s.jobs.get? id' = some j' →
    j'.sourcePath = j.sourcePath → j'.status.isLive = true → id' = id

-- The statements that make no job live.
def Quiet : Statement → Prop
  | .updateJob _ _ | .createJob _ => False
  | _ => True

variable {s : Store} {q : Statement}

theorem sourcePath_of_step {j j' : Job} (h : JobStep s q j j') : j'.sourcePath = j.sourcePath := by
  cases h <;> rfl

theorem live_of_step {j j' : Job} (h : JobStep s q j j') (hq : q.Proper) (hquiet : Quiet q)
    (hlive : j'.status.isLive = true) : j.status.isLive = true := by
  cases h with
  | claimed hwaiting => exact JobStatus.isLive_of_waiting hwaiting
  | progressed => exact hlive
  | @finalized _ _ _ status =>
    have hterminal : status.isTerminal = true := hq
    rw [JobStatus.isLive_eq] at hlive
    change (!status.isTerminal) = true at hlive
    rw [hterminal] at hlive
    cases hlive
  | released hp => exact JobStatus.isLive_of_active (Bool.and_eq_true_iff.mp hp).2
  | orphaned hp =>
    exact JobStatus.isLive_of_active (Bool.and_eq_true_iff.mp (Bool.and_eq_true_iff.mp hp).1).1
  | abandoned hp =>
    exact JobStatus.isLive_of_active (Bool.and_eq_true_iff.mp (Bool.and_eq_true_iff.mp hp).1).1
  | cancelled => cases hlive
  | cancelledAll => cases hlive
  | updated => exact hquiet.elim

theorem live_before (hq : q.Proper) (hquiet : Quiet q) {id : Uuid} {j' : Job}
    (hj' : (q.next s).jobs.get? id = some j') (hlive : j'.status.isLive = true) :
    ∃ j, s.jobs.get? id = some j ∧ j.sourcePath = j'.sourcePath ∧ j.status.isLive = true := by
  have hrow := q.next_row s id
  rw [hj'] at hrow
  generalize hbefore : s.jobs.get? id = before at hrow
  cases hrow with
  | kept => exact ⟨j', rfl, rfl, hlive⟩
  | inserted heq =>
    subst heq
    exact hquiet.elim
  | changed hstep => exact ⟨_, rfl, (sourcePath_of_step hstep).symm, live_of_step hstep hq hquiet hlive⟩

theorem OneLive.next (hs : OneLive s) (hq : q.Proper) (hquiet : Quiet q) : OneLive (q.next s) := by
  intro id id' j j' hj hj' hpath hlive hlive'
  obtain ⟨j₀, hj₀, hpath₀, hlive₀⟩ := live_before hq hquiet hj hlive
  obtain ⟨j₀', hj₀', hpath₀', hlive₀'⟩ := live_before hq hquiet hj' hlive'
  exact hs id id' j₀ j₀' hj₀ hj₀' (hpath₀.trans (hpath.trans hpath₀'.symm)) hlive₀ hlive₀'

theorem createJob_row {draft j : Job} {id : Uuid}
    (hj : ((Statement.createJob draft).next s).jobs.get? id = some j) :
    s.jobs.get? id = some j ∨ id = s.nextUuid ∧ j.sourcePath = draft.sourcePath := by
  have hrow := (Statement.createJob draft).next_row s id
  rw [hj] at hrow
  generalize hbefore : s.jobs.get? id = before at hrow
  cases hrow with
  | kept => exact .inl rfl
  | inserted heq hid =>
    cases heq
    exact .inr ⟨hid, rfl⟩
  | changed hstep => cases hstep

theorem OneLive.createJob {draft : Job} (hs : OneLive s) (hfree : Free draft.sourcePath s) :
    OneLive ((Statement.createJob draft).next s) := by
  intro id id' j j' hj hj' hpath hlive hlive'
  rcases createJob_row hj with hj₀ | ⟨hid, hdraft⟩ <;>
    rcases createJob_row hj' with hj₀' | ⟨hid', hdraft'⟩
  · exact hs id id' j j' hj₀ hj₀' hpath hlive hlive'
  · rw [hfree id j hj₀ (hpath.trans hdraft')] at hlive
    cases hlive
  · rw [hfree id' j' hj₀' (hpath.symm.trans hdraft)] at hlive'
    cases hlive'
  · rw [hid, hid']

theorem Free.createJob {path : String} {draft : Job} (h : Free path s)
    (hne : draft.sourcePath ≠ path) : Free path ((Statement.createJob draft).next s) := by
  intro id j hj hpath
  rcases createJob_row hj with hj₀ | ⟨-, hdraft⟩
  · exact h id j hj₀ hpath
  · exact absurd (hdraft.symm.trans hpath) hne

theorem updateJob_row {id id' : Uuid} {u : JobUpdate} {j : Job}
    (hj : ((Statement.updateJob id u).next s).jobs.get? id' = some j) :
    ∃ j₀, s.jobs.get? id' = some j₀ ∧ j₀.sourcePath = j.sourcePath ∧ (id' = id ∨ j₀ = j) := by
  have hrow := (Statement.updateJob id u).next_row s id'
  rw [hj] at hrow
  generalize hbefore : s.jobs.get? id' = before at hrow
  cases hrow with
  | kept => exact ⟨j, rfl, rfl, .inr rfl⟩
  | inserted heq => cases heq
  | @changed j₀ _ hstep =>
    refine ⟨j₀, rfl, (sourcePath_of_step hstep).symm, .inl ?_⟩
    cases hstep with
    | updated hid => exact (Table.get?_key hbefore).symm.trans hid

theorem OneLive.updateJob {id : Uuid} {u : JobUpdate} (hs : OneLive s) (hsole : Sole id s) :
    OneLive ((Statement.updateJob id u).next s) := by
  intro id₁ id₂ j₁ j₂ hj₁ hj₂ hpath hlive₁ hlive₂
  obtain ⟨r₁, hr₁, hpath₁, hcase₁⟩ := updateJob_row hj₁
  obtain ⟨r₂, hr₂, hpath₂, hcase₂⟩ := updateJob_row hj₂
  have hsame : r₁.sourcePath = r₂.sourcePath := hpath₁.trans (hpath.trans hpath₂.symm)
  rcases hcase₁ with rfl | rfl <;> rcases hcase₂ with rfl | rfl
  · rfl
  · exact (hsole r₁ id₂ r₂ hr₁ hr₂ hsame.symm hlive₂).symm
  · exact hsole r₂ id₁ r₁ hr₂ hr₁ hsame hlive₁
  · exact hs id₁ id₂ r₁ r₂ hr₁ hr₂ hsame hlive₁ hlive₂

theorem OneLive.of_jobs {s' : Store} (hs : OneLive s) (h : s'.jobs = s.jobs) : OneLive s' := by
  intro id id' j j' hj hj'
  rw [h] at hj hj'
  exact hs id id' j j' hj hj'

theorem Free.of_jobs {path : String} {s' : Store} (hs : Free path s) (h : s'.jobs = s.jobs) :
    Free path s' := by
  intro id j hj
  rw [h] at hj
  exact hs id j hj

-- active_paths reports every path that a live job is on, and some more.
theorem free_of_activePaths {path : String} {paths : List String} (hpath : path ∈ paths)
    (h : path ∉ s.activePaths paths) : Free path s := by
  intro id j hj hsource
  have hrows : (s.jobs.select (blocksPath path)).isEmpty = true := by
    rw [Store.activePaths, List.mem_filter] at h
    by_contra hne
    exact h ⟨hpath, by simpa using hne⟩
  have hnot : blocksPath path j = false := by
    by_contra hblocks
    have hmem : j ∈ s.jobs.select (blocksPath path) :=
      Table.mem_select.mpr ⟨Table.get?_mem hj, by simpa using hblocks⟩
    rw [List.isEmpty_iff.mp hrows] at hmem
    cases hmem
  cases hstatus : j.status <;> first | rfl | simp [blocksPath, hsource, hstatus] at hnot

end Rows

section Block

variable {libs : List Library} {height : Option Nat} {vmaf : Rat} {blocked : List String}

-- The paths that the rest of a batch may insert a job for.
def Queues (candidates : List (MediaFile × String)) (blocked seen : List String) (path : String) :
    Prop :=
  (∃ c ∈ candidates, c.1.filePath = path) ∧ path ∉ blocked ∧ path ∉ seen

theorem Queues.tail {c : MediaFile × String} {candidates : List (MediaFile × String)}
    {seen : List String} {path : String} (h : Queues candidates blocked seen path) :
    Queues (c :: candidates) blocked seen path := by
  obtain ⟨⟨c', hc', hpath⟩, hrest⟩ := h
  exact ⟨⟨c', List.mem_cons_of_mem _ hc', hpath⟩, hrest⟩

theorem Queues.seen {candidates : List (MediaFile × String)} {seen : List String}
    {path path' : String} (h : Queues candidates blocked (path' :: seen) path) :
    Queues candidates blocked seen path ∧ path' ≠ path := by
  obtain ⟨hc, hblocked, hseen⟩ := h
  rw [List.mem_cons, not_or] at hseen
  exact ⟨⟨hc, hblocked, hseen.2⟩, Ne.symm hseen.1⟩

theorem queues_head {m : MediaFile} {resolved : String} {candidates : List (MediaFile × String)}
    {seen : List String} (h : ¬(blocked.contains m.filePath || seen.contains m.filePath) = true) :
    Queues ((m, resolved) :: candidates) blocked seen m.filePath := by
  simp only [Bool.or_eq_true, List.contains_iff_mem, not_or] at h
  exact ⟨⟨(m, resolved), List.mem_cons_self, rfl⟩, h.1, h.2⟩

theorem queueEach_oneLive (candidates : List (MediaFile × String)) (seen : List String)
    (counts : Nat × Nat) {s : Store} (hs : OneLive s)
    (hfree : ∀ path, Queues candidates blocked seen path → Free path s) :
    OneLive (Block.commit (queueEach libs height vmaf blocked candidates seen counts) s).1 := by
  induction candidates generalizing seen counts s with
  | nil => exact hs
  | cons c rest ih =>
    obtain ⟨m, resolved⟩ := c
    rw [queueEach]
    split
    · exact ih _ _ hs fun path hpath => hfree path hpath.tail
    · next hopen =>
      let draft := jobDraft libs height vmaf m resolved
      have hdraft : draft.sourcePath = m.filePath := rfl
      have hcreated : OneLive ((Statement.createJob draft).next s) :=
        hs.createJob (hdraft ▸ hfree _ (queues_head hopen))
      refine ih (m.filePath :: seen) _ (hcreated.of_jobs rfl) fun path hpath => ?_
      obtain ⟨hqueues, hne⟩ := hpath.seen
      have hstill : Free path ((Statement.createJob draft).next s) :=
        (hfree path hqueues.tail).createJob hne
      exact hstill.of_jobs rfl

def Avoids (path : String) (q : Statement) : Prop :=
  ∀ draft, q = .createJob draft → draft.sourcePath ≠ path

theorem queueEach_inserts (candidates : List (MediaFile × String)) (seen : List String)
    (counts : Nat × Nat) {path : String} (hpath : Queues candidates blocked seen path) :
    ¬(queueEach libs height vmaf blocked candidates seen counts).Calls (Avoids path) := by
  induction candidates generalizing seen counts with
  | nil =>
    obtain ⟨⟨c, hc, -⟩, -⟩ := hpath
    cases hc
  | cons c rest ih =>
    obtain ⟨m, resolved⟩ := c
    obtain ⟨⟨c', hc', hc'path⟩, hblocked, hseen⟩ := hpath
    rw [queueEach]
    split
    · next htaken =>
      refine ih _ _ ⟨⟨c', ?_, hc'path⟩, hblocked, hseen⟩
      rcases List.mem_cons.mp hc' with rfl | hmem
      · subst hc'path
        simp only [Bool.or_eq_true, List.contains_iff_mem] at htaken
        exact absurd htaken (not_or.mpr ⟨hblocked, hseen⟩)
      · exact hmem
    · rintro ⟨havoids, hrest⟩
      by_cases hsame : m.filePath = path
      · exact havoids _ rfl hsame
      · refine ih (m.filePath :: seen) _ ⟨⟨c', ?_, hc'path⟩, hblocked, ?_⟩ ((hrest 0).2 ())
        · rcases List.mem_cons.mp hc' with rfl | hmem
          · exact absurd hc'path hsame
          · exact hmem
        · exact List.not_mem_cons_of_ne_of_not_mem (Ne.symm hsame) hseen

end Block

section Checks

-- A thread's own look at the active paths, or nothing live on the path any more.
def Refreshes (t : Nat) (path : String) (e : SchedulerEntry) : Prop :=
  (e.thread = t ∧ ∃ paths, e.op = .statement (.activePaths paths)) ∨ Free path e.post

def Raises (path : String) (e : SchedulerEntry) : Prop := Free path e.pre ∧ ¬Free path e.post

def Inserts (path : String) (op : Op) : Prop := ¬op.Does (Avoids path)

def Fresh (t : Nat) (op : Op) (h : List SchedulerEntry) : Prop :=
  ∀ path, Inserts path op → ClearSince (Refreshes t path) (Raises path) h

def Unshared (op : Op) (s : Store) : Prop :=
  ∀ id u, op = .statement (.updateJob id u) → Sole id s

def Admitted (t : Nat) (r : Request) (op : Op) (_ : Unit) (x : Traced Nat Op Store Unit) : Prop :=
  r.Performs op ∧ Unshared op x.1 ∧ Fresh t op x.2

def Checked (_ : Nat) (_ : Request) (op : Op) (_ : Unit) (x : Traced Nat Op Store Unit) : Prop :=
  OneLive x.1 → OneLive (op.exec x.1).1

variable {mode : Isolation} {t : Nat}

abbrev auditing (mode : Isolation) (t : Nat) (r : Request) :
    Contract Op (Traced Nat Op Store Unit) Unit :=
  (scheduler mode).audit Admitted Checked t r

def StillFree (t : Nat) (A : String → Prop) (x : Traced Nat Op Store Unit) : Prop :=
  ∀ path, A path → ClearSince (Refreshes t path) (Raises path) x.2 → Free path x.1

theorem StillFree.mono {A B : String → Prop} {x : Traced Nat Op Store Unit} (h : StillFree t A x)
    (hBA : ∀ path, B path → A path) : StillFree t B x :=
  fun path hpath => h path (hBA path hpath)

theorem StillFree.call {A : String → Prop} {x : Traced Nat Op Store Unit} {t' : Nat} {op : Op}
    {i : Unit} (h : StillFree t A x)
    (hop : t' = t → ∀ paths, op ≠ .statement (.activePaths paths)) :
    StillFree t A ((scheduler mode).traced.next t' op i x) := by
  intro path hpath hclear
  by_contra hfull
  have hother : ¬Refreshes t path ⟨⟨op, i, x.1, (op.exec x.1).1⟩, t'⟩ := by
    rintro (⟨hthread, paths, heq⟩ | hfree)
    · exact hop hthread paths heq
    · exact hfull hfree
  obtain ⟨hbefore, hraises⟩ := ClearSince.of_append hother hclear
  exact hraises ⟨h path hpath hbefore, hfull⟩

theorem stillFree_stable (t : Nat) (A : String → Prop) :
    (scheduler mode).Stable Admitted t (StillFree t A) where
  call t' r' op i y hne _ hy := hy.call fun heq => absurd heq hne
  start t' r' s' y hs hy := by
    rw [start_state hs]
    exact hy
  disturb k y hy := hy

theorem checked_of_jobs {t : Nat} {r : Request} {op : Op} {x : Traced Nat Op Store Unit}
    (h : (op.exec x.1).1.jobs = x.1.jobs) : Checked t r op () x :=
  fun hs => hs.of_jobs h

theorem createJob_checked {r : Request} {draft : Job} {A : String → Prop}
    {y : Traced Nat Op Store Unit} (hy : StillFree t A y) (hpath : A draft.sourcePath)
    (hfresh : Fresh t (.statement (.createJob draft)) y.2) :
    Checked t r (.statement (.createJob draft)) () y := by
  intro hs
  refine hs.createJob (hy _ hpath (hfresh _ ?_))
  intro hdoes
  exact hdoes draft rfl rfl

section Batch

variable {r : Request} {libs : List Library} {height : Option Nat} {vmaf : Rat}
  {blocked : List String}

theorem queueEach_wp (candidates : List (MediaFile × String)) (seen : List String)
    (counts : Nat × Nat) {x : Traced Nat Op Store Unit}
    (hx : StillFree t (Queues candidates blocked seen) x) :
    (Block.interleaved (queueEach libs height vmaf blocked candidates seen counts) :
      Route (Nat × Nat)).wp (scheduler .shared).traced t (auditing .shared t r)
      (fun _ _ => True) x := by
  induction candidates generalizing seen counts x with
  | nil => trivial
  | cons c rest ih =>
    obtain ⟨m, resolved⟩ := c
    rw [queueEach]
    split
    · exact ih _ _ (hx.mono fun path hpath => hpath.tail)
    · next hopen =>
      refine System.wp_audit (stillFree_stable t _) hx fun i y hy hallow =>
        ⟨createJob_checked hy (queues_head hopen) hallow.2.2, ?_⟩
      have hcreated : StillFree t _ ((scheduler .shared).traced.next t
          (.statement (.createJob (jobDraft libs height vmaf m resolved))) i y) :=
        hy.call fun _ paths heq => (by cases heq)
      refine System.wp_audit (stillFree_stable t _) hcreated fun i z hz _ =>
        ⟨checked_of_jobs rfl, ih _ _ ?_⟩
      have hupdated : StillFree t _ ((scheduler .shared).traced.next t
          (.statement (.updateMediaStatus m.id .queued none
            (some ((scheduler .shared).handler.answer t
              (.statement (.createJob (jobDraft libs height vmaf m resolved))) () y.1)))) i z) :=
        hz.call fun _ paths heq => (by cases heq)
      exact hupdated.mono fun path hpath => hpath.seen.1.tail

theorem queueBlock_wp {candidates : List (MediaFile × String)} {skipped : Nat}
    {x : Traced Nat Op Store Unit} (hx : StillFree t (Queues candidates blocked []) x) :
    (batchTransaction mode (queueBlock height vmaf blocked candidates skipped)).wp
      (scheduler mode).traced t (auditing mode t r) (fun _ _ => True) x := by
  cases mode with
  | isolated =>
    refine System.wp_audit (stillFree_stable t _) hx fun i y hy hallow => ⟨fun hs => ?_, trivial⟩
    refine queueEach_oneLive candidates [] (0, skipped) hs fun path hpath =>
      hy path hpath (hallow.2.2 path fun hdoes => ?_)
    exact queueEach_inserts candidates [] (0, skipped) hpath (hdoes.2 [])
  | shared =>
    refine System.wp_audit (stillFree_stable t _) hx fun i y hy _ =>
      ⟨checked_of_jobs rfl, queueEach_wp candidates [] (0, skipped) ?_⟩
    have hlisted : StillFree t _ ((scheduler .shared).traced.next t (.statement .listLibraries) i y) :=
      hy.call fun _ paths heq => (by cases heq)
    exact hlisted

end Batch

theorem queueFiles_wp {body : QueueRequest} {x : Traced Nat Op Store Unit} :
    (queueFiles mode body).wp (scheduler mode).traced t (auditing mode t (.queueFiles body))
      (fun _ _ => True) x := by
  have hread {q : Statement} {y : Traced Nat Op Store Unit} (hq : q.writesJobs = false) :
      Checked t (.queueFiles body) (.statement q) () y :=
    checked_of_jobs (Statement.jobs_eq hq y.1)
  refine System.wp_audit (System.Stable.true t) trivial fun i y _ _ => ⟨hread rfl, ?_⟩
  refine System.wp_audit (System.Stable.true t) trivial fun i y _ _ => ⟨hread rfl, ?_⟩
  refine System.wp_audit (System.Stable.true t) trivial fun i y _ _ => ⟨hread rfl, ?_⟩
  refine System.wp_audit (System.Stable.true t) trivial fun i y _ _ => ⟨hread rfl, ?_⟩
  refine System.wp_audit (System.Stable.true t) trivial fun i y _ _ => ⟨hread rfl, ?_⟩
  change (Program.bind (batchTransaction mode _) _).wp _ _ _ _ _
  refine Program.wp_seq (R := fun _ _ => True) (queueBlock_wp ?_) (fun _ _ _ => trivial)
    fun _ _ _ => trivial
  rintro path ⟨⟨c, hc, rfl⟩, hblocked, -⟩ -
  refine free_of_activePaths ?_ fun hactive => hblocked (List.mem_append_right _ hactive)
  exact List.mem_map.mpr ⟨c, hc, rfl⟩

theorem sends_quiet {r : Request} {q : Statement} (hq : r.Sends q)
    (hr : ∀ body, r ≠ .queueFiles body) : Quiet q ∨ ∃ id u, q = .updateJob id u ∧ r = .retry id := by
  cases q with
  | createJob =>
    cases r with
    | queueFiles body => exact absurd rfl (hr body)
    | heartbeat => cases hq.2
    | claim => exact hq.2.elim
    | checkDerivative => exact hq.1.elim
    | _ => exact hq.elim
  | updateJob =>
    cases r with
    | retry =>
      obtain ⟨rfl, -⟩ := hq
      exact .inr ⟨_, _, rfl, rfl⟩
    | heartbeat => cases hq.2
    | claim => exact hq.2.elim
    | checkDerivative => exact hq.1.elim
    | _ => exact hq.elim
  | _ => exact .inl trivial

-- A retry's UPDATE is a statement of its own; nothing else but queue_files makes a job live.
theorem performs_quiet {r : Request} {op : Op} (hop : r.Performs op)
    (hr : ∀ body, r ≠ .queueFiles body) (hupdate : ¬∃ id u, op = .statement (.updateJob id u)) :
    op.Does fun q => q.Proper ∧ Quiet q := by
  cases op with
  | statement q =>
    refine ⟨Request.Sends.proper hop, ?_⟩
    rcases sends_quiet hop hr with hquiet | ⟨id, u, rfl, -⟩
    · exact hquiet
    · exact absurd ⟨id, u, rfl⟩ hupdate
  | reportBlock p =>
    refine hop.does.mono fun q hq => ⟨hq.proper, ?_⟩
    rcases sends_quiet hq hr with hquiet | ⟨id, u, -, rfl⟩
    · exact hquiet
    · obtain ⟨block, -, hblock, -⟩ := hop
      cases hblock
  | batchBlock p =>
    refine hop.does.mono fun q hq => ⟨hq.proper, ?_⟩
    rcases sends_quiet hq hr with hquiet | ⟨id, u, -, rfl⟩
    · exact hquiet
    · cases hop.1

theorem other_checked {r : Request} {op : Op} {y : Traced Nat Op Store Unit}
    (hr : ∀ body, r ≠ .queueFiles body) (hop : r.Performs op) (hunshared : Unshared op y.1) :
    Checked t r op () y := by
  intro hs
  by_cases hretry : ∃ id u, op = .statement (.updateJob id u)
  · obtain ⟨id, u, rfl⟩ := hretry
    exact hs.updateJob (hunshared id u rfl)
  · exact Op.exec_keeps (P := OneLive) (performs_quiet hop hr hretry) hs
      fun q s hq hs => hs.next hq.1 hq.2

theorem request_wp (mode : Isolation) (t : Nat) (r : Request) (x : Traced Nat Op Store Unit) :
    (r.body mode).wp (scheduler mode).traced t (auditing mode t r) (fun _ _ => True) x := by
  by_cases hqueue : ∃ body, r = .queueFiles body
  · obtain ⟨body, rfl⟩ := hqueue
    exact queueFiles_wp
  · exact System.wp_audit_of_calls (A := r.Performs) (r.body_calls mode) fun op _ y hop hallow =>
      other_checked (fun body heq => hqueue ⟨body, heq⟩) hop hallow.2.1

end Checks

section Runs

variable {mode : Isolation} {s : Store} {es : List SchedulerCall} {d : SchedulerConfig}

-- A retry's UPDATE finds no other live job on the path; where queue_files inserts a job, none has
-- been made live on the path since it looked, or none is live any more.
def Apart (es : List SchedulerCall) : Prop :=
  ∀ xs e ys, es = xs ++ e :: ys →
    Unshared e.op e.pre ∧ Fresh e.thread e.op (xs.map ThreadCall.entry)

theorem one_live_job (hs : OneLive s) (h : SchedulerRun mode s es d) (hapart : Apart es) :
    (∀ e ∈ es, OneLive e.pre) ∧ OneLive d.state := by
  refine Run.invariant (A := fun e => OneLive e.pre → OneLive e.post) h ?_ hs ?_
    (fun _ _ hs => hs) fun _ _ _ _ _ hs hkeeps => hkeeps hs
  · intro e he
    obtain ⟨xs, ys, heq⟩ := mem_split he
    rw [SchedulerRun.post h e he]
    exact Run.audited h (request_wp mode)
      (fun xs e ys heq => ⟨SchedulerRun.performs h e (by simp [heq]), hapart xs e ys heq⟩) xs e ys heq
  · intro t r s s' hs hstart
    rw [start_state hstart]
    exact hs

end Runs

section Sample

def freeNow (path : String) (s : Store) : Bool :=
  s.jobs.rows.all fun j => j.sourcePath != path || !j.status.isLive

theorem freeNow_iff {path : String} {s : Store} : freeNow path s = true ↔ Free path s := by
  simp only [freeNow, List.all_eq_true, Bool.or_eq_true, bne_iff_ne, Bool.not_eq_true']
  constructor
  · intro h id j hj hpath
    exact (h j (Table.get?_mem hj)).resolve_left (not_not.mpr hpath)
  · intro h j hj
    by_cases hpath : j.sourcePath = path
    · exact .inr (h j.id j (Table.get?_of_mem hj) hpath)
    · exact .inl hpath

def looks (t : Nat) (e : SchedulerCall) : Bool :=
  match e.op with
  | .statement (.activePaths _) => e.thread == t
  | _ => false

-- A run on a shared connection keeps apart as soon as this evaluates to true.
def checkApart (xs : List SchedulerCall) (e : SchedulerCall) : Bool :=
  match e.op with
  | .statement (.updateJob id _) =>
    e.pre.jobs.rows.all fun j => j.id == id || !j.status.isLive ||
      (e.pre.jobs.get? id).all fun j' => j'.sourcePath != j.sourcePath
  | .statement (.createJob draft) =>
    clearSince (looks e.thread)
      (fun f => freeNow draft.sourcePath f.pre && !freeNow draft.sourcePath f.post) xs
  | .statement _ => true
  | _ => false

theorem looks_spec {t : Nat} {e : SchedulerCall} (h : looks t e = true) :
    e.thread = t ∧ ∃ paths, e.op = .statement (.activePaths paths) := by
  obtain ⟨⟨op, i, pre, post⟩, t', r⟩ := e
  cases op with
  | statement q =>
    cases q with
    | activePaths paths => exact ⟨by simpa [looks] using h, paths, rfl⟩
    | _ => cases h
  | _ => cases h

theorem apart_of {es : List SchedulerCall} (h : everySplit checkApart [] es = true) : Apart es := by
  intro xs e ys heq
  have hcheck := everySplit_sound h xs e ys heq
  rw [List.nil_append] at hcheck
  constructor
  · intro id u hop j id' j' hj hj' hpath hlive
    simp only [checkApart, hop, List.all_eq_true] at hcheck
    have hrow := hcheck j' (Table.get?_mem hj')
    simp only [hj, Option.all_some, hpath, hlive, Bool.not_true, Bool.or_false, bne_self_eq_false,
      beq_iff_eq] at hrow
    exact (Table.get?_key hj').symm.trans hrow
  · intro path hinserts
    obtain ⟨⟨op, i, pre, post⟩, t, r⟩ := e
    cases op with
    | reportBlock p => cases hcheck
    | batchBlock p => cases hcheck
    | statement q =>
      by_cases hcreate : ∃ draft, q = .createJob draft ∧ draft.sourcePath = path
      · obtain ⟨draft, rfl, rfl⟩ := hcreate
        have hclear : ClearSince (fun f => Refreshes t draft.sourcePath f.entry)
            (fun f => Raises draft.sourcePath f.entry) xs :=
          clearSince_sound (fun f hf => .inl (looks_spec hf)) (fun f hf hraises => ?_) hcheck
        · exact hclear.map
        · have hpre := freeNow_iff.mpr hraises.1
          have hpost : ¬freeNow draft.sourcePath f.post = true := fun hfree =>
            hraises.2 (freeNow_iff.mp hfree)
          change freeNow draft.sourcePath f.pre = true at hpre
          simp [hpre, hpost] at hf
      · refine absurd ?_ hinserts
        intro draft heq hpath
        exact hcreate ⟨draft, heq, hpath⟩

theorem sampleRunning_oneLive : OneLive sampleRunning := by
  intro id id' j j' hj hj' hpath _ _
  have hone : ∀ j ∈ sampleRunning.jobs.rows, j.id = 0 := by decide +kernel
  rw [← Table.get?_key hj, ← Table.get?_key hj', hone j (Table.get?_mem hj),
    hone j' (Table.get?_mem hj')]

-- The job fails, its file is queued again, and then the failed job is retried.
def twoLive : Played :=
  (play .shared sampleRunning (.start 0 (.failed sampleToken 0 { claimToken := some 2 }) ::
    calls 0 4 ++ .start 1 (.queueFiles { fileIds := ["a"] }) :: calls 1 8 ++
    .start 2 (.retry 0) :: calls 2 5)).get (by decide +kernel)

theorem not_one_live_job :
    ¬∀ (mode : Isolation) (s : Store) (es : List SchedulerCall) (d : SchedulerConfig),
      OneLive s → SchedulerRun mode s es d → OneLive d.state := by
  intro h
  have hone := h _ _ _ _ sampleRunning_oneLive (play_run (p := twoLive) (Option.some_get _).symm)
  have hrows : ∃ j j', twoLive.2.state.jobs.get? 0 = some j ∧
      twoLive.2.state.jobs.get? 3 = some j' ∧ j.sourcePath = j'.sourcePath ∧
      j.status.isLive = true ∧ j'.status.isLive = true := by
    refine ⟨(twoLive.2.state.jobs.get? 0).get (by decide +kernel),
      (twoLive.2.state.jobs.get? 3).get (by decide +kernel), (Option.some_get _).symm,
      (Option.some_get _).symm, by decide +kernel⟩
  obtain ⟨j, j', hj, hj', hpath, hlive, hlive'⟩ := hrows
  cases hone 0 3 j j' hj hj' hpath hlive hlive'

-- The job is retried and cancelled before its file is queued again.
def oneAfterOther : Played :=
  (play .shared sampleRunning (.start 0 (.failed sampleToken 0 { claimToken := some 2 }) ::
    calls 0 4 ++ .start 1 (.retry 0) :: calls 1 5 ++ .start 2 (.cancel 0) :: calls 2 3 ++
    .start 3 (.queueFiles { fileIds := ["a"] }) :: calls 3 8)).get (by decide +kernel)

theorem one_live_job_oneAfterOther :
    OneLive oneAfterOther.2.state ∧
      (oneAfterOther.2.state.jobs.rows.map fun j => (j.id, j.status)) =
        [(0, .cancelled), (3, .queued)] := by
  have hrun := play_run (p := oneAfterOther) (Option.some_get _).symm
  have hapart : Apart oneAfterOther.1 := apart_of (by decide +kernel)
  exact ⟨(one_live_job sampleRunning_oneLive hrun hapart).2, by decide +kernel⟩

end Sample

end TranscodeForge.LiveJobs
