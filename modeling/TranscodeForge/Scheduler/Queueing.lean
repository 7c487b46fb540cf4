import TranscodeForge.Interaction.Run
import TranscodeForge.Scheduler.WellFormed

namespace TranscodeForge.Scheduler

open Relational Interaction Store

-- A request served with nobody else about.
def serve {α : Type} (p : Route α) (s : Store) : Except HttpError α × Store :=
  let served := p.run handler 0 (fun (_ : Unit) (_ : Op) => ((), ())) () s
  (served.1, served.2.2)

def newJobs (s s' : Store) (path : String) : List Job :=
  s'.jobs.select fun j => (s.jobs.get? j.id).isNone && j.sourcePath == path

-- What the queue rule asks of one file.
structure Eligible (s : Store) (body : QueueRequest) (m : MediaFile) : Prop where
  idle : m.transcodeStatus ≠ .queued ∧ m.transcodeStatus ≠ .transcoding
  unscaled : body.targetHeight = none →
    m.videoCodec = some "h264" ∧ m.transcodeStatus ≠ .complete
  scaled : ∀ height, body.targetHeight = some height →
    (downscaleCodec m.videoCodec body.codec (body.codec.getD s.defaultCodec)).isSome ∧
      ∃ sourceHeight, m.height = some sourceHeight ∧ height < sourceHeight
  included : m.filePath ∉ s.excludedPaths
  free : ∀ j ∈ s.jobs, j.sourcePath = m.filePath → ¬ (j.status.isWaiting ∨ j.status.isActive)

structure AcceptsEligible (s : Store) (body : QueueRequest) (queued skipped : Nat) (s' : Store) :
    Prop where
  eligible : ∀ id ∈ body.fileIds, ∀ m, s.media.get? id = some m → Eligible s body m →
    (newJobs s s' m.filePath).length = 1
  others : ∀ id ∈ body.fileIds, ∀ m, s.media.get? id = some m → ¬ Eligible s body m →
    newJobs s s' m.filePath = []
  named : ∀ path, newJobs s s' path ≠ [] →
    ∃ id ∈ body.fileIds, ∃ m, s.media.get? id = some m ∧ m.filePath = path
  counted : queued + skipped = body.fileIds.length

-- No eligible file of the batch has a job behind it that completed or was skipped.
def Unfinished (s : Store) (body : QueueRequest) : Prop :=
  ∀ id ∈ body.fileIds, ∀ m, s.media.get? id = some m → Eligible s body m →
    ∀ j ∈ s.jobs, j.sourcePath = m.filePath → j.status ≠ .complete ∧ j.status ≠ .skipped

section Serving

variable {mode : Isolation} {s : Store}

theorem serve_bind {α β : Type} (p : Route α) (f : α → Route β) {a : α} {s' : Store}
    (h : serve p s = (.ok a, s')) : serve (p.bind f) s = serve (f a) s' := by
  simp only [serve, Prod.mk.injEq] at h ⊢
  rw [Program.run_bind]
  obtain ⟨hanswer, hstate⟩ := h
  generalize p.run handler 0 (fun (_ : Unit) (_ : Op) => ((), ())) () s = served at *
  obtain ⟨o, n, s₁⟩ := served
  cases hanswer
  cases hstate
  exact ⟨rfl, rfl⟩

theorem serve_interleaved {α : Type} (p : Block α) (s : Store) :
    serve (Block.interleaved p) s = (.ok (Block.commit p s).2, (Block.commit p s).1) := by
  induction p generalizing s with
  | ret a => rfl
  | raise e => exact e.elim
  | call q k ih => exact ih _ _

-- Alone, it makes no difference whether the database keeps the block together.
theorem serve_batch (p : Block (Nat × Nat)) (s : Store) :
    serve (batchTransaction mode p) s = (.ok (Block.commit p s).2, (Block.commit p s).1) := by
  cases mode with
  | isolated => rfl
  | shared => exact serve_interleaved p s

end Serving

section Accepted

variable {blocked : List String}

-- The candidates that become jobs.
def accepted (blocked : List String) :
    List (MediaFile × String) → List String → List (MediaFile × String)
  | [], _ => []
  | (m, resolved) :: rest, seen =>
    if blocked.contains m.filePath || seen.contains m.filePath then accepted blocked rest seen
    else (m, resolved) :: accepted blocked rest (m.filePath :: seen)

def paths (candidates : List (MediaFile × String)) : List String :=
  candidates.map fun c => c.1.filePath

theorem mem_accepted {candidates : List (MediaFile × String)} {seen : List String} {path : String} :
    path ∈ paths (accepted blocked candidates seen) ↔
      path ∈ paths candidates ∧ path ∉ blocked ∧ path ∉ seen := by
  induction candidates generalizing seen with
  | nil => simp [accepted, paths]
  | cons c rest ih =>
    obtain ⟨m, resolved⟩ := c
    rw [accepted]
    split
    · next hdup =>
      rw [ih]
      simp only [paths, List.map_cons, List.mem_cons]
      simp only [Bool.or_eq_true, List.contains_iff_mem] at hdup
      constructor
      · rintro ⟨hmem, hrest⟩
        exact ⟨.inr hmem, hrest⟩
      · rintro ⟨rfl | hmem, hblocked, hseen⟩
        · exact absurd hdup (not_or.mpr ⟨hblocked, hseen⟩)
        · exact ⟨hmem, hblocked, hseen⟩
    · next hnew =>
      have hrest : path ∈ paths (accepted blocked rest (m.filePath :: seen)) ↔ _ := ih
      simp only [paths, List.map_cons, List.mem_cons] at hrest ⊢
      rw [hrest]
      simp only [Bool.or_eq_true, List.contains_iff_mem, not_or] at hnew
      by_cases heq : path = m.filePath
      · subst heq
        simp [hnew]
      · simp [heq]

theorem nodup_accepted (candidates : List (MediaFile × String)) (seen : List String) :
    (paths (accepted blocked candidates seen)).Nodup := by
  induction candidates generalizing seen with
  | nil => simp [accepted, paths]
  | cons c rest ih =>
    obtain ⟨m, resolved⟩ := c
    rw [accepted]
    split
    · exact ih seen
    · refine List.nodup_cons.mpr ⟨fun hmem => ?_, ih (m.filePath :: seen)⟩
      exact (mem_accepted.mp hmem).2.2 List.mem_cons_self

end Accepted

section Queueing

variable {libs : List Library} {height : Option Nat} {vmaf : Rat} {blocked : List String}

-- What queueing adds to the jobs: new rows at the end, for these paths in this order.
structure Adds (s s' : Store) (queued : List String) : Prop where
  rows : ∃ added, s'.jobs.rows = s.jobs.rows ++ added ∧ added.map Job.sourcePath = queued ∧
    ∀ j ∈ added, s.nextUuid ≤ j.id
  drawn : ∀ j ∈ s'.jobs, j.id < s'.nextUuid
  later : s.nextUuid ≤ s'.nextUuid

theorem Adds.refl {s : Store} (hdrawn : ∀ j ∈ s.jobs, j.id < s.nextUuid) : Adds s s [] :=
  ⟨⟨[], by simp, rfl, by simp⟩, hdrawn, Nat.le_refl _⟩

theorem Adds.trans {s₁ s₂ s₃ : Store} {ps qs : List String} (h : Adds s₁ s₂ ps)
    (h' : Adds s₂ s₃ qs) : Adds s₁ s₃ (ps ++ qs) := by
  obtain ⟨added, hrows, hpaths, hids⟩ := h.rows
  obtain ⟨added', hrows', hpaths', hids'⟩ := h'.rows
  refine ⟨⟨added ++ added', ?_, ?_, ?_⟩, h'.drawn, Nat.le_trans h.later h'.later⟩
  · rw [hrows', hrows, List.append_assoc]
  · rw [List.map_append, hpaths, hpaths']
  · intro j hj
    rcases List.mem_append.mp hj with hj | hj
    · exact hids j hj
    · exact Nat.le_trans h.later (hids' j hj)

theorem createJob_adds {s : Store} (draft : Job) (hdrawn : ∀ j ∈ s.jobs, j.id < s.nextUuid) :
    Adds s (s.createJob draft).1 [draft.sourcePath] := by
  have hfree : s.jobs.get? (draft.inserted s.nextUuid s.now).id = none :=
    Table.get?_eq_none.mpr fun j hj heq => Nat.ne_of_lt (hdrawn j hj) heq
  have hkey : (draft.inserted s.nextUuid s.now).id ∉ s.jobs.rows.map Job.id := by
    intro hmem
    obtain ⟨j, hj, heq⟩ := List.mem_map.mp hmem
    exact Table.get?_eq_none.mp hfree j hj heq
  refine ⟨⟨[draft.inserted s.nextUuid s.now], ?_, rfl, ?_⟩, ?_, Nat.le_succ _⟩
  · simp only [Store.createJob, Table.insert, dif_neg hkey]
  · intro j hj
    rw [List.mem_singleton.mp hj]
    exact Nat.le_refl _
  · intro j hj
    rcases (Table.mem_insert_of_free hfree).mp hj with hj | rfl
    · exact Nat.lt_trans (hdrawn j hj) (Nat.lt_succ_self _)
    · exact Nat.lt_succ_self _

theorem queueEach_adds (candidates : List (MediaFile × String)) (seen : List String)
    (counts : Nat × Nat) {s : Store} (hdrawn : ∀ j ∈ s.jobs, j.id < s.nextUuid) :
    Adds s (Block.commit (queueEach libs height vmaf blocked candidates seen counts) s).1
        (paths (accepted blocked candidates seen)) ∧
      (Block.commit (queueEach libs height vmaf blocked candidates seen counts) s).2.1 +
          (Block.commit (queueEach libs height vmaf blocked candidates seen counts) s).2.2 =
        counts.1 + counts.2 + candidates.length := by
  induction candidates generalizing s seen counts with
  | nil => exact ⟨.refl hdrawn, rfl⟩
  | cons c rest ih =>
    obtain ⟨m, resolved⟩ := c
    obtain ⟨queued, skipped⟩ := counts
    rw [queueEach, accepted]
    split
    · obtain ⟨hadds, hcount⟩ := ih seen (queued, skipped + 1) hdrawn
      refine ⟨hadds, hcount.trans ?_⟩
      simp only [List.length_cons]
      omega
    · have hcreate := createJob_adds (jobDraft libs height vmaf m resolved) hdrawn
      have hmarked : Adds s ((s.createJob (jobDraft libs height vmaf m resolved)).1.updateMediaStatus
          m.id .queued none (some s.nextUuid)) [m.filePath] :=
        ⟨hcreate.rows, hcreate.drawn, hcreate.later⟩
      obtain ⟨hadds, hcount⟩ := ih (m.filePath :: seen) (queued + 1, skipped) hmarked.drawn
      refine ⟨hmarked.trans hadds, hcount.trans ?_⟩
      simp only [List.length_cons]
      omega

theorem newJobs_of_adds {s s' : Store} {queued : List String} (h : Adds s s' queued)
    (hdrawn : ∀ j ∈ s.jobs, j.id < s.nextUuid) (path : String) :
    (newJobs s s' path).length = queued.count path := by
  obtain ⟨added, hrows, rfl, hids⟩ := h.rows
  have hold : s.jobs.rows.filter
      (fun j => (s.jobs.get? j.id).isNone && j.sourcePath == path) = [] := by
    refine List.filter_eq_nil_iff.mpr fun j hj => ?_
    rw [Table.get?_of_mem hj]
    simp
  have hnew : ∀ j ∈ added, (s.jobs.get? j.id).isNone = true := fun j hj => by
    refine Option.isNone_iff_eq_none.mpr (Table.get?_eq_none.mpr fun j' hj' heq => ?_)
    exact Nat.not_lt.mpr (hids j hj) (heq ▸ hdrawn j' hj')
  rw [newJobs, Table.select, hrows, List.filter_append, hold, List.nil_append,
    ← List.countP_eq_length_filter, List.count, List.countP_map]
  refine List.countP_congr fun j hj => ?_
  simp [hnew j hj]

end Queueing

section Rule

variable {s : Store} {body : QueueRequest} {m : MediaFile}

def candidatesOf (s : Store) (body : QueueRequest) : List (MediaFile × String) :=
  queueCandidates body (body.codec.getD s.defaultCodec) (s.getByIds body.fileIds)

def blockedOf (s : Store) (body : QueueRequest) : List String :=
  s.filterExcluded (paths (candidatesOf s body)) ++ s.activePaths (paths (candidatesOf s body))

theorem serve_queueFiles (mode : Isolation) (body : QueueRequest) (hdrawn : ∀ j ∈ s.jobs, j.id < s.nextUuid) :
    ∃ queued skipped s', serve (queueFiles mode body) s = (.ok (.queued queued skipped), s') ∧
      Adds s s' (paths (accepted (blockedOf s body) (candidatesOf s body) [])) ∧
      queued + skipped = body.fileIds.length := by
  have hserve := serve_bind (batchTransaction mode (queueBlock body.targetHeight s.targetVmaf
    (blockedOf s body) (candidatesOf s body) (body.fileIds.length - (candidatesOf s body).length)))
    (fun counts => .ret (.queued counts.1 counts.2) : Nat × Nat → Route Response)
    (serve_batch _ s)
  obtain ⟨hadds, hcount⟩ := @queueEach_adds s.libraries.rows body.targetHeight s.targetVmaf
    (blockedOf s body) (candidatesOf s body) []
    (0, body.fileIds.length - (candidatesOf s body).length) s hdrawn
  have hle : (candidatesOf s body).length ≤ body.fileIds.length := List.length_filterMap_le _ _
  refine ⟨_, _, _, hserve, hadds, hcount.trans ?_⟩
  dsimp only
  omega

theorem find_getByIds {fileIds : List String} {id : String} (hid : id ∈ fileIds) :
    ((s.getByIds fileIds).find? fun m => m.id = id) = s.media.get? id := by
  rw [Store.getByIds, Table.select, List.find?_filter, Table.get?]
  congr 1
  funext m
  by_cases heq : m.id = id
  · simp [heq, hid]
  · simp [heq]

theorem mem_candidates {path : String} : path ∈ paths (candidatesOf s body) ↔
    ∃ id ∈ body.fileIds, ∃ m, s.media.get? id = some m ∧
      (resolvedCodec body (body.codec.getD s.defaultCodec) m).isSome ∧ m.filePath = path := by
  simp only [paths, candidatesOf, queueCandidates, List.mem_map, List.mem_filterMap]
  constructor
  · rintro ⟨⟨m, resolved⟩, ⟨id, hid, hrow⟩, rfl⟩
    obtain ⟨m', hm', hresolved⟩ := Option.bind_eq_some_iff.mp hrow
    obtain ⟨resolved', hr, heq⟩ := Option.bind_eq_some_iff.mp hresolved
    cases heq
    rw [find_getByIds hid] at hm'
    exact ⟨id, hid, m, hm', by simp [hr], rfl⟩
  · rintro ⟨id, hid, m, hm, hresolved, rfl⟩
    obtain ⟨resolved, hr⟩ := Option.isSome_iff_exists.mp hresolved
    refine ⟨(m, resolved), ⟨id, hid, ?_⟩, rfl⟩
    rw [find_getByIds hid, hm]
    simp [hr]

theorem resolved_iff : (resolvedCodec body (body.codec.getD s.defaultCodec) m).isSome ↔
    (m.transcodeStatus ≠ .queued ∧ m.transcodeStatus ≠ .transcoding) ∧
    (body.targetHeight = none → m.videoCodec = some "h264" ∧ m.transcodeStatus ≠ .complete) ∧
    ∀ height, body.targetHeight = some height →
      (downscaleCodec m.videoCodec body.codec (body.codec.getD s.defaultCodec)).isSome ∧
        ∃ sourceHeight, m.height = some sourceHeight ∧ height < sourceHeight := by
  have hflight : m.transcodeStatus.inFlight = false ↔
      m.transcodeStatus ≠ .queued ∧ m.transcodeStatus ≠ .transcoding := by
    simp [TranscodeStatus.inFlight, inFlightStatuses]
  rw [resolvedCodec, ← hflight]
  cases hidle : m.transcodeStatus.inFlight with
  | true => simp
  | false =>
    cases hheight : body.targetHeight with
    | none =>
      by_cases hcodec : m.videoCodec = some "h264" <;>
        by_cases hcomplete : m.transcodeStatus = .complete <;> simp [hcodec, hcomplete]
    | some height =>
      cases hcodec : downscaleCodec m.videoCodec body.codec (body.codec.getD s.defaultCodec) with
      | none => simp
      | some resolved =>
        cases hsource : m.height with
        | none => simp
        | some sourceHeight =>
          by_cases hlow : height < sourceHeight
          · have hne : sourceHeight ≠ 0 := by omega
            simp [Option.filter, hlow, hne]
          · simp [Option.filter, hlow]

theorem unblocked_iff {path : String} (hpath : path ∈ paths (candidatesOf s body)) :
    path ∉ blockedOf s body ↔ path ∉ s.excludedPaths ∧
      ∀ j ∈ s.jobs, j.sourcePath = path → j.status = .failed ∨ j.status = .cancelled := by
  have hexcluded : path ∈ s.filterExcluded (paths (candidatesOf s body)) ↔
      path ∈ s.excludedPaths := by
    simp [Store.filterExcluded, Store.isExcluded, hpath]
  have hactive : path ∉ s.activePaths (paths (candidatesOf s body)) ↔
      ∀ j ∈ s.jobs, j.sourcePath = path → j.status = .failed ∨ j.status = .cancelled := by
    have hselect : path ∈ s.activePaths (paths (candidatesOf s body)) ↔
        s.jobs.select (blocksPath path) ≠ [] := by
      simp [Store.activePaths, hpath]
    rw [hselect, not_not, List.eq_nil_iff_forall_not_mem]
    refine forall_congr' fun j => ?_
    rw [Table.mem_select, not_and]
    refine imp_congr_right fun _ => ?_
    by_cases heq : j.sourcePath = path
    · simp only [blocksPath, heq]
      cases j.status <;> simp
    · simp [blocksPath, heq]
  rw [blockedOf, List.mem_append, not_or, hexcluded, hactive]

-- The files that get a job.
theorem queued_iff {id : String} (hpaths : ∀ m ∈ s.media, ∀ m' ∈ s.media,
    m.filePath = m'.filePath → m = m') (hid : id ∈ body.fileIds) (hm : s.media.get? id = some m) :
    m.filePath ∈ paths (accepted (blockedOf s body) (candidatesOf s body) []) ↔
      (resolvedCodec body (body.codec.getD s.defaultCodec) m).isSome ∧
        m.filePath ∉ s.excludedPaths ∧
        ∀ j ∈ s.jobs, j.sourcePath = m.filePath → j.status = .failed ∨ j.status = .cancelled := by
  have hcandidate : m.filePath ∈ paths (candidatesOf s body) ↔
      (resolvedCodec body (body.codec.getD s.defaultCodec) m).isSome := by
    rw [mem_candidates]
    constructor
    · rintro ⟨id', -, m', hm', hresolved, hpath⟩
      rwa [← hpaths m' (Table.get?_mem hm') m (Table.get?_mem hm) hpath]
    · intro hresolved
      exact ⟨id, hid, m, hm, hresolved, rfl⟩
  rw [mem_accepted, ← hcandidate]
  constructor
  · rintro ⟨hpath, hblocked, -⟩
    exact ⟨hpath, (unblocked_iff hpath).mp hblocked⟩
  · rintro ⟨hpath, hfree⟩
    exact ⟨hpath, (unblocked_iff hpath).mpr hfree, by simp⟩

theorem eligible_iff : Eligible s body m ↔
    (resolvedCodec body (body.codec.getD s.defaultCodec) m).isSome ∧
      m.filePath ∉ s.excludedPaths ∧
      ∀ j ∈ s.jobs, j.sourcePath = m.filePath → ¬ (j.status.isWaiting ∨ j.status.isActive) := by
  rw [resolved_iff]
  constructor
  · exact fun h => ⟨⟨h.idle, h.unscaled, h.scaled⟩, h.included, h.free⟩
  · rintro ⟨⟨hidle, hunscaled, hscaled⟩, hincluded, hfree⟩
    exact ⟨hidle, hunscaled, hscaled, hincluded, hfree⟩

theorem queued_of_unfinished (h : m.filePath ∉ s.excludedPaths ∧ ∀ j ∈ s.jobs,
    j.sourcePath = m.filePath → ¬ (j.status.isWaiting ∨ j.status.isActive))
    (hdone : ∀ j ∈ s.jobs, j.sourcePath = m.filePath → j.status ≠ .complete ∧ j.status ≠ .skipped) :
    ∀ j ∈ s.jobs, j.sourcePath = m.filePath → j.status = .failed ∨ j.status = .cancelled := by
  intro j hj hpath
  have hlive := h.2 j hj hpath
  have hend := hdone j hj hpath
  revert hlive hend
  cases j.status <;> decide

theorem queue_accepts_eligible (mode : Isolation) (s : Store) (body : QueueRequest)
    (hdrawn : ∀ j ∈ s.jobs, j.id < s.nextUuid)
    (hpaths : ∀ m ∈ s.media, ∀ m' ∈ s.media, m.filePath = m'.filePath → m = m') :
    ∃ queued skipped s', serve (queueFiles mode body) s = (.ok (.queued queued skipped), s') ∧
      (AcceptsEligible s body queued skipped s' ↔ Unfinished s body) := by
  obtain ⟨queued, skipped, s', hserve, hadds, hcount⟩ := serve_queueFiles mode body hdrawn
  refine ⟨queued, skipped, s', hserve, ?_⟩
  have hnew := newJobs_of_adds hadds hdrawn
  have hnodup : (paths (accepted (blockedOf s body) (candidatesOf s body) [])).Nodup :=
    nodup_accepted _ _
  have hone : ∀ path ∈ paths (accepted (blockedOf s body) (candidatesOf s body) []),
      (newJobs s s' path).length = 1 := fun path hpath => by
    rw [hnew, List.count_eq_one_of_mem hnodup hpath]
  have hnone : ∀ path ∉ paths (accepted (blockedOf s body) (candidatesOf s body) []),
      newJobs s s' path = [] := fun path hpath => by
    rw [← List.length_eq_zero_iff, hnew, List.count_eq_zero.mpr hpath]
  constructor
  · intro h id hid m hm heligible j hj hpath
    have hjob := h.eligible id hid m hm heligible
    have hmem : m.filePath ∈ paths (accepted (blockedOf s body) (candidatesOf s body) []) := by
      by_contra hout
      rw [hnone _ hout] at hjob
      cases hjob
    have hstatus := ((queued_iff hpaths hid hm).mp hmem).2.2 j hj hpath
    rcases hstatus with hstatus | hstatus <;> rw [hstatus] <;> decide
  · intro h
    refine ⟨fun id hid m hm heligible => hone _ ?_, fun id hid m hm hineligible => hnone _ ?_,
      fun path hpath => ?_, hcount⟩
    · obtain ⟨hresolved, hrest⟩ := eligible_iff.mp heligible
      exact (queued_iff hpaths hid hm).mpr
        ⟨hresolved, hrest.1, queued_of_unfinished hrest (h id hid m hm heligible)⟩
    · intro hmem
      obtain ⟨hresolved, hincluded, hjobs⟩ := (queued_iff hpaths hid hm).mp hmem
      refine hineligible (eligible_iff.mpr ⟨hresolved, hincluded, fun j hj hpath => ?_⟩)
      rcases hjobs j hj hpath with hstatus | hstatus <;> rw [hstatus] <;> decide
    · have hmem : path ∈ paths (accepted (blockedOf s body) (candidatesOf s body) []) := by
        by_contra hout
        exact hpath (hnone _ hout)
      obtain ⟨id, hid, m, hm, -, heq⟩ := mem_candidates.mp (mem_accepted.mp hmem).1
      exact ⟨id, hid, m, hm, heq⟩

end Rule

section Samples

def shrunk : MediaFile where
  id := "a"
  libraryId := "movies"
  filePath := "/media/a.mkv"
  videoCodec := some "hevc"
  height := some 2160
  transcodeStatus := .complete

def shrunkStore (status : JobStatus) : Store where
  jobs := Table.empty.insert
    { id := 0
      sourcePath := "/media/a.mkv"
      library := "movies"
      sourceCodec := "h264"
      qualityValue := 21
      status := status }
  media := Table.empty.insert shrunk
  nextUuid := 1

def shrinkTwice : QueueRequest := { fileIds := ["a", "a", "b"], targetHeight := some 1080 }

theorem queue_accepts_eligible_shrink : ∃ queued skipped s',
    serve (queueFiles .isolated shrinkTwice) (shrunkStore .failed) =
      (.ok (.queued queued skipped), s') ∧
    (AcceptsEligible (shrunkStore .failed) shrinkTwice queued skipped s' ↔
      Unfinished (shrunkStore .failed) shrinkTwice) :=
  queue_accepts_eligible .isolated (shrunkStore .failed) shrinkTwice
    (by decide +kernel : ∀ j ∈ (shrunkStore .failed).jobs.rows, j.id < 1)
    (by decide +kernel : ∀ m ∈ (shrunkStore .failed).media.rows,
      ∀ m' ∈ (shrunkStore .failed).media.rows, m.filePath = m'.filePath → m = m')

-- The transcode of the file is over, and it is refused all the same.
theorem queue_refuses_finished : ∃ queued skipped s',
    serve (queueFiles .isolated shrinkTwice) (shrunkStore .complete) =
      (.ok (.queued queued skipped), s') ∧
    ¬ AcceptsEligible (shrunkStore .complete) shrinkTwice queued skipped s' := by
  refine ⟨0, 3, (serve (queueFiles .isolated shrinkTwice) (shrunkStore .complete)).2, ?_,
    fun h => ?_⟩
  · exact Prod.ext (by decide +kernel) rfl
  · have hjobs := h.eligible "a" (by decide) shrunk (by decide +kernel)
      ⟨by decide, by decide, ?_, by decide, ?_⟩
    · exact absurd hjobs (by decide +kernel)
    · intro height hheight
      cases hheight
      exact ⟨by decide, 2160, rfl, by decide⟩
    · exact (by decide +kernel : ∀ j ∈ (shrunkStore .complete).jobs.rows,
        j.sourcePath = "/media/a.mkv" → ¬ (j.status.isWaiting ∨ j.status.isActive))

end Samples

end TranscodeForge.Scheduler
