import TranscodeForge.Scheduler.Postgres

namespace TranscodeForge.Links

open Relational Interaction Scheduler Store Postgres Pg

section Rows

variable {s : Store} {q : Statement} {f : String} {id : Uuid}

def Link (s : Store) (f : String) (id : Uuid) : Prop :=
  ∃ m, s.media.get? f = some m ∧ m.jobId = some id

theorem jobs_view (s : Pg) (t : Nat) (id : Uuid) : (s.view storeRows t).jobs.get? id =
    if s.Holds t (.job id) then (s.work t).jobs.get? id else s.committed.jobs.get? id :=
  Versions.row_view (D := storeRows) (.job id)

theorem media_view (s : Pg) (t : Nat) (f : String) : (s.view storeRows t).media.get? f =
    if s.Holds t (.media f) then (s.work t).media.get? f else s.committed.media.get? f :=
  Versions.row_view (D := storeRows) (.media f)

theorem jobs_lock (s : Pg) (t : Nat) (r : RowId) (id : Uuid) :
    ((s.lock storeRows t r).work t).jobs.get? id =
      if RowId.job id = r ∧ ¬s.Holds t r then s.committed.jobs.get? id
      else (s.work t).jobs.get? id :=
  Versions.row_lock (D := storeRows) (.job id)

theorem media_lock (s : Pg) (t : Nat) (r : RowId) (f : String) :
    ((s.lock storeRows t r).work t).media.get? f =
      if RowId.media f = r ∧ ¬s.Holds t r then s.committed.media.get? f
      else (s.work t).media.get? f :=
  Versions.row_lock (D := storeRows) (.media f)

-- A statement deletes the jobs it names and no others.
theorem job_gone (h : (q.next s).jobs.get? id = none) :
    s.jobs.get? id = none ∨ ∃ ids, q = .deleteJobRows ids ∧ id ∈ ids := by
  have hrow := q.next_row s id
  rw [h] at hrow
  generalize s.jobs.get? id = before at hrow
  cases hrow with
  | kept => exact .inl rfl
  | deleted hq hid => exact .inr ⟨_, hq, hid⟩

theorem media_row {p : MediaFile → Bool} {set : MediaFile → MediaFile}
    {hset : ∀ m, (set m).id = m.id} {m' : MediaFile}
    (h : (s.updateMedia p set hset).media.get? f = some m') :
    ∃ m, s.media.get? f = some m ∧ (p m = true ∧ m' = set m ∨ p m = false ∧ m' = m) := by
  have hlook : (s.updateMedia p set hset).media.get? f =
      (s.media.get? f).map fun m => if p m then set m else m :=
    Table.get?_update s.media p set hset f
  rw [hlook] at h
  obtain ⟨m, hm, rfl⟩ := Option.map_eq_some_iff.mp h
  refine ⟨m, hm, ?_⟩
  cases hp : p m with
  | true => exact .inl ⟨rfl, rfl⟩
  | false => exact .inr ⟨rfl, rfl⟩

-- What a statement can leave of a catalog row: a link it does not change, none at all on a row
-- that waits for nothing, or the link it was told to set.
inductive MediaStep (q : Statement) (f : String) (m m' : MediaFile) : Prop
  | kept : m'.jobId = m.jobId →
      (m'.transcodeStatus.inFlight = true → m.transcodeStatus.inFlight = true ∨ m.jobId ≠ none) →
      MediaStep q f m m'
  | unlinked : m'.jobId = none → m'.transcodeStatus.inFlight = false → MediaStep q f m m'
  | linked {status : TranscodeStatus} {reason : Option String} {jobId : Option Uuid} :
      q = .updateMediaStatus f status reason jobId → m'.jobId = jobId → MediaStep q f m m'

theorem unlinked_idle (m : MediaFile) (now : Instant) :
    (m.unlinked now).transcodeStatus.inFlight = false := by
  cases hstatus : m.transcodeStatus <;> simp [MediaFile.unlinked, hstatus] <;> decide

theorem media_step {m' : MediaFile} (h : (q.next s).media.get? f = some m') :
    ∃ m, s.media.get? f = some m ∧ MediaStep q f m m' := by
  cases hwrites : q.writesMedia with
  | false =>
    rw [Statement.media_eq hwrites] at h
    exact ⟨m', h, .kept rfl .inl⟩
  | true =>
    cases q with
    | releaseMedia ids =>
      obtain ⟨m, hm, ⟨-, rfl⟩ | ⟨-, rfl⟩⟩ := media_row h
      · exact ⟨m, hm, .unlinked rfl (unlinked_idle m s.now)⟩
      · exact ⟨_, hm, .kept rfl .inl⟩
    | updateMediaStatus fileId status reason jobId =>
      obtain ⟨m, hm, ⟨hp, rfl⟩ | ⟨-, rfl⟩⟩ := media_row h
      · have hid : f = fileId := (Table.get?_key hm).symm.trans (beq_iff_eq.mp hp)
        subst hid
        exact ⟨m, hm, .linked rfl rfl⟩
      · exact ⟨_, hm, .kept rfl .inl⟩
    | updateStatusByJob jobId status reason =>
      obtain ⟨m, hm, ⟨hp, rfl⟩ | ⟨-, rfl⟩⟩ := media_row h
      · refine ⟨m, hm, .kept rfl fun _ => .inr ?_⟩
        rw [beq_iff_eq.mp hp]
        exact nofun
      · exact ⟨_, hm, .kept rfl .inl⟩
    | updateOutput jobId codec size =>
      obtain ⟨m, hm, ⟨-, rfl⟩ | ⟨-, rfl⟩⟩ := media_row h
      · exact ⟨m, hm, .kept rfl .inl⟩
      · exact ⟨_, hm, .kept rfl .inl⟩
    | describeOutput fileId codec size width height =>
      obtain ⟨m, hm, ⟨-, rfl⟩ | ⟨-, rfl⟩⟩ := media_row h
      · refine ⟨m, hm, ?_⟩
        cases width with
        | none => exact .kept rfl .inl
        | some w => exact .kept rfl .inl
      · exact ⟨_, hm, .kept rfl .inl⟩
    | cancelAllMedia now =>
      obtain ⟨m, hm, ⟨-, rfl⟩ | ⟨-, rfl⟩⟩ := media_row h
      · exact ⟨m, hm, .kept rfl nofun⟩
      · exact ⟨_, hm, .kept rfl .inl⟩
    | _ => cases hwrites

end Rows

section Invariant

-- What is committed dangles nowhere, and neither will it when a transaction commits: a link it
-- has set is to a job of its own, and the rows of a job it has deleted are its own and let go.
structure Sound (s : Pg) : Prop where
  linked : ∀ f id, Link s.committed f id → s.committed.jobs.get? id ≠ none
  inFlight : ∀ f m, s.committed.media.get? f = some m → m.transcodeStatus.inFlight = true →
    m.jobId ≠ none
  alone : s.Exclusive
  pending : ∀ t f m, s.Holds t (.media f) → (s.work t).media.get? f = some m →
    (m.transcodeStatus.inFlight = true → m.jobId ≠ none) ∧
      ∀ id, m.jobId = some id →
        Link s.committed f id ∨ s.Holds t (.job id) ∧ (s.work t).jobs.get? id ≠ none
  deleted : ∀ t id, s.Holds t (.job id) → (s.work t).jobs.get? id = none →
    ∀ f, Link s.committed f id → s.Holds t (.media f) ∧ ¬Link (s.work t) f id

-- No catalog row will point at the job once the transaction commits.
def Unlinked (s : Pg) (t : Nat) (id : Uuid) : Prop :=
  (∀ f, Link s.committed f id → s.Holds t (.media f)) ∧
    ∀ f, s.Holds t (.media f) → ¬Link (s.work t) f id

-- What the two statements that set a link and delete a job have to find.
def Lawful (s : Pg) (t : Nat) : PgOp → Prop
  | .apply (.updateMediaStatus _ _ _ jobId) =>
    ∃ id, jobId = some id ∧ s.Holds t (.job id) ∧ (s.work t).jobs.get? id ≠ none
  | .apply (.deleteJobRows ids) => ∀ id ∈ ids, Unlinked s t id
  | _ => True

variable {s s' : Pg} {t : Nat}

-- Everything but the working state of one transaction, and that only off its own rows, is as
-- it was.
theorem Sound.refreshed (h : Sound s) (hcommitted : s'.committed.jobs = s.committed.jobs)
    (hmedia : s'.committed.media = s.committed.media)
    (hlocks : ∀ t r, s'.Holds t r → s.Holds t r)
    (hlocks' : ∀ t r, s'.Holds t r → ∀ r', s.Holds t r' → s'.Holds t r')
    (hjobs : ∀ t id, s'.Holds t (.job id) → (s'.work t).jobs.get? id = (s.work t).jobs.get? id)
    (hfiles : ∀ t f, s'.Holds t (.media f) →
      (s'.work t).media.get? f = (s.work t).media.get? f) : Sound s' := by
  have hlink : ∀ f id, Link s'.committed f id ↔ Link s.committed f id := by
    intro f id
    rw [Link, Link, hmedia]
  constructor
  · intro f id hl
    rw [hcommitted]
    exact h.linked f id ((hlink f id).mp hl)
  · intro f m hm
    rw [hmedia] at hm
    exact h.inFlight f m hm
  · exact fun r t t' ht ht' => h.alone r t t' (hlocks t r ht) (hlocks t' r ht')
  · intro t f m hf hm
    rw [hfiles t f hf] at hm
    obtain ⟨hflight, hlinks⟩ := h.pending t f m (hlocks t _ hf) hm
    refine ⟨hflight, fun id hid => ?_⟩
    rcases hlinks id hid with hl | ⟨hjob, hrow⟩
    · exact .inl ((hlink f id).mpr hl)
    · have hjob' := hlocks' t _ hf _ hjob
      exact .inr ⟨hjob', by rwa [hjobs t id hjob']⟩
  · intro t id hjob hrow f hl
    rw [hjobs t id hjob] at hrow
    obtain ⟨hf, hnot⟩ := h.deleted t id (hlocks t _ hjob) hrow f ((hlink f id).mp hl)
    have hf' := hlocks' t _ hjob _ hf
    refine ⟨hf', fun hl' => hnot ?_⟩
    rwa [Link, hfiles t f hf'] at hl'

theorem Sound.release (h : Sound s) (t : Nat) : Sound (s.release t) := by
  refine h.refreshed rfl rfl (fun _ _ hr => (Versions.holds_release.mp hr).1) ?_
    (fun _ _ _ => rfl) fun _ _ _ => rfl
  exact fun t' r hr r' hr' => Versions.holds_release.mpr ⟨hr', (Versions.holds_release.mp hr).2⟩

theorem Sound.elapse (h : Sound s) (n : Nat) :
    Sound { s with committed := { s.committed with now := s.committed.now + n } } :=
  h.refreshed rfl rfl (fun _ _ hr => hr) (fun _ _ _ _ hr => hr) (fun _ _ _ => rfl) fun _ _ _ => rfl

theorem Sound.direct (h : Sound s) (t : Nat) (q : Statement) : Sound (s.direct t q).1 :=
  h.refreshed rfl rfl (fun _ _ hr => hr) (fun _ _ _ _ hr => hr) (fun _ _ _ => rfl) fun _ _ _ => rfl

theorem Sound.lock (h : Sound s) {r : RowId} (hfree : s.isFree t r = true) :
    Sound (s.lock storeRows t r) where
  linked := by
    rw [Versions.lock_committed]
    exact h.linked
  inFlight := by
    rw [Versions.lock_committed]
    exact h.inFlight
  alone := h.alone.lock hfree
  pending t' f m hf hm := by
    rw [Versions.lock_committed]
    by_cases ht : t' = t
    · subst ht
      rw [media_lock] at hm
      split at hm
      · next hr =>
        refine ⟨h.inFlight f m hm, fun id hid => .inl ⟨m, hm, hid⟩⟩
      · next hr =>
        have hf' : s.Holds t' (.media f) := by
          rcases Versions.holds_lock.mp hf with hf | ⟨-, heq⟩
          · exact hf
          · exact not_not.mp fun hnot => hr ⟨heq, heq ▸ hnot⟩
        obtain ⟨hflight, hlinks⟩ := h.pending t' f m hf' hm
        refine ⟨hflight, fun id hid => (hlinks id hid).imp_right fun hown => ?_⟩
        refine ⟨Versions.holds_lock.mpr (.inl hown.1), ?_⟩
        rw [jobs_lock, if_neg fun hr => hr.2 (hr.1 ▸ hown.1)]
        exact hown.2
    · rw [Versions.lock_other ht] at hm ⊢
      have hf' : s.Holds t' (.media f) :=
        (Versions.holds_lock.mp hf).resolve_right fun heq => ht heq.1
      obtain ⟨hflight, hlinks⟩ := h.pending t' f m hf' hm
      exact ⟨hflight, fun id hid => (hlinks id hid).imp_right fun hown =>
        ⟨Versions.holds_lock.mpr (.inl hown.1), hown.2⟩⟩
  deleted t' id hjob hrow f hl := by
    rw [Versions.lock_committed] at hl
    by_cases ht : t' = t
    · subst ht
      rw [jobs_lock] at hrow
      split at hrow
      · exact absurd hrow (h.linked f id hl)
      · next hr =>
        have hjob' : s.Holds t' (.job id) := by
          rcases Versions.holds_lock.mp hjob with hjob | ⟨-, heq⟩
          · exact hjob
          · exact not_not.mp fun hnot => hr ⟨heq, heq ▸ hnot⟩
        obtain ⟨hf, hnot⟩ := h.deleted t' id hjob' hrow f hl
        refine ⟨Versions.holds_lock.mpr (.inl hf), fun hl' => hnot ?_⟩
        rwa [Link, media_lock, if_neg fun hr => hr.2 (hr.1 ▸ hf)] at hl'
    · rw [Versions.lock_other ht] at hrow ⊢
      have hjob' : s.Holds t' (.job id) :=
        (Versions.holds_lock.mp hjob).resolve_right fun heq => ht heq.1
      obtain ⟨hf, hnot⟩ := h.deleted t' id hjob' hrow f hl
      exact ⟨Versions.holds_lock.mpr (.inl hf), hnot⟩

theorem Sound.apply (h : Sound s) {q : Statement} (hlawful : Lawful s t (.apply q)) :
    Sound (s.apply t q).1 := by
  have hwork : (s.apply t q).1.work t = q.next (s.work t) := Versions.setWork_work _
  have hother : ∀ t', t' ≠ t → (s.apply t q).1.work t' = s.work t' := fun t' ht =>
    Versions.setWork_other _ ht
  refine ⟨h.linked, h.inFlight, h.alone, fun t' f m' hf hm' => ?_, fun t' id hjob hrow f hl => ?_⟩
  · by_cases ht : t' = t
    · subst ht
      rw [hwork] at hm' ⊢
      obtain ⟨m, hm, hstep⟩ := media_step hm'
      obtain ⟨hflight, hlinks⟩ := h.pending t' f m hf hm
      cases hstep with
      | kept hjob hstays =>
        rw [hjob]
        refine ⟨fun hin => (hstays hin).elim hflight fun hne => hne, fun id hid => ?_⟩
        refine (hlinks id hid).imp_right fun hown => ⟨hown.1, fun hgone => ?_⟩
        rcases job_gone hgone with hnone | ⟨ids, rfl, hmem⟩
        · exact hown.2 hnone
        · exact (hlawful id hmem).2 f hf ⟨m, hm, hid⟩
      | unlinked hnone hidle =>
        rw [hnone, hidle]
        exact ⟨nofun, nofun⟩
      | linked heq hjob =>
        subst heq
        obtain ⟨id, rfl, hholds, hrow⟩ := hlawful
        rw [hjob]
        refine ⟨fun _ => nofun, fun id' hid' => .inr ?_⟩
        cases hid'
        exact ⟨hholds, hrow⟩
    · rw [hother t' ht] at hm' ⊢
      exact h.pending t' f m' hf hm'
  · by_cases ht : t' = t
    · subst ht
      rw [hwork] at hrow ⊢
      rcases job_gone hrow with hnone | ⟨ids, rfl, hmem⟩
      · obtain ⟨hf, hnot⟩ := h.deleted t' id hjob hnone f hl
        refine ⟨hf, ?_⟩
        rintro ⟨m', hm', hid⟩
        obtain ⟨m, hm, hstep⟩ := media_step hm'
        cases hstep with
        | kept hsame => exact hnot ⟨m, hm, hsame.symm.trans hid⟩
        | unlinked hnolink =>
          rw [hnolink] at hid
          cases hid
        | linked heq hjobId =>
          subst heq
          obtain ⟨id', hid', -, hexists⟩ := hlawful
          cases (hjobId.symm.trans hid).symm.trans hid'
          exact hexists hnone
      · obtain ⟨hlocked, hnone⟩ := hlawful id hmem
        exact ⟨hlocked f hl, hnone f (hlocked f hl)⟩
    · rw [hother t' ht] at hrow ⊢
      exact h.deleted t' id hjob hrow f hl

theorem jobs_commit (s : Pg) (t : Nat) (id : Uuid) :
    (s.commit storeRows t).committed.jobs.get? id =
      if s.Holds t (.job id) then (s.work t).jobs.get? id else s.committed.jobs.get? id :=
  jobs_view s t id

theorem media_commit (s : Pg) (t : Nat) (f : String) :
    (s.commit storeRows t).committed.media.get? f =
      if s.Holds t (.media f) then (s.work t).media.get? f else s.committed.media.get? f :=
  media_view s t f

-- A link that is new once a transaction has committed is to a job it had locked.
theorem Sound.link_commit (h : Sound s) {f : String} {id : Uuid}
    (hl : Link (s.commit storeRows t).committed f id) :
    Link s.committed f id ∨ s.Holds t (.job id) ∧ (s.work t).jobs.get? id ≠ none := by
  obtain ⟨m, hm, hid⟩ := hl
  rw [media_commit] at hm
  split at hm
  · next hf => exact (h.pending t f m hf hm).2 id hid
  · exact .inl ⟨m, hm, hid⟩

theorem Sound.commit (h : Sound s) (t : Nat) : Sound (s.commit storeRows t) where
  linked f id hl := by
    rw [jobs_commit]
    rcases h.link_commit hl with hold | ⟨hjob, hrow⟩
    · split
      · next hjob =>
        intro hgone
        obtain ⟨hf, hnot⟩ := h.deleted t id hjob hgone f hold
        refine hnot ?_
        rwa [Link, media_commit, if_pos hf] at hl
      · exact h.linked f id hold
    · rw [if_pos hjob]
      exact hrow
  inFlight f m hm := by
    rw [media_commit] at hm
    split at hm
    · next hf => exact (h.pending t f m hf hm).1
    · exact h.inFlight f m hm
  alone := h.alone.commit
  pending t' f m hf hm := by
    obtain ⟨hf, hne⟩ := Versions.holds_commit.mp hf
    obtain ⟨hflight, hlinks⟩ := h.pending t' f m hf hm
    refine ⟨hflight, fun id hid => (hlinks id hid).imp ?_ fun hown => ?_⟩
    · rintro ⟨m₀, hm₀, hid₀⟩
      refine ⟨m₀, ?_, hid₀⟩
      rw [media_commit, if_neg fun hf' => hne (h.alone _ _ _ hf hf')]
      exact hm₀
    · exact ⟨Versions.holds_commit.mpr ⟨hown.1, hne⟩, hown.2⟩
  deleted t' id hjob hrow f hl := by
    obtain ⟨hjob, hne⟩ := Versions.holds_commit.mp hjob
    rcases h.link_commit hl with hold | ⟨hjob', -⟩
    · obtain ⟨hf, hnot⟩ := h.deleted t' id hjob hrow f hold
      exact ⟨Versions.holds_commit.mpr ⟨hf, hne⟩, hnot⟩
    · exact absurd (h.alone _ _ _ hjob hjob') hne

end Invariant

section Scanning

variable {s : Pg} {t : Nat} {q : Statement}

theorem media_snapshot (s : Pg) (t : Nat) (q : Statement) :
    (s.snapshot t q).media = (s.view storeRows t).media := by
  rw [snapshot]
  split <;> rfl

theorem media_snapshot_held {f : String} (hf : s.Holds t (.media f)) :
    (s.snapshot t q).media.get? f = (s.work t).media.get? f := by
  rw [media_snapshot, media_view, if_pos hf]

theorem jobs_snapshot_held (hs : s.Exclusive) {id : Uuid} (hid : s.Holds t (.job id)) :
    (s.snapshot t q).jobs.get? id = (s.work t).jobs.get? id := by
  have hview : (s.view storeRows t).jobs.get? id = (s.work t).jobs.get? id := by
    rw [jobs_view, if_pos hid]
  rw [snapshot]
  split
  · have hfree : s.isFree t (.job id) = true :=
      Versions.isFree_iff.mpr fun t' ht' => hs _ _ _ ht' hid
    change ((s.view storeRows t).jobs.delete _).get? id = _
    rw [Table.get?_delete, hview]
    cases hrow : (s.work t).jobs.get? id with
    | none => rfl
    | some j => simp [Option.filter, Table.get?_key hrow, hfree]
  · exact hview

-- The state in which a statement has taken its snapshot and no lock yet.
def begun (s : Pg) (t : Nat) (q : Statement) : Pg :=
  Versions.setWork { s with committed := s.committed.drawUuid } t (s.snapshot t q)

theorem begun_work (s : Pg) (t : Nat) (q : Statement) :
    (begun s t q).work t = s.snapshot t q := Versions.setWork_work _

theorem begun_other {t' : Nat} (h : t' ≠ t) : (begun s t q).work t' = s.work t' :=
  Versions.setWork_other _ h

theorem Sound.begun (h : Sound s) (t : Nat) (q : Statement) : Sound (begun s t q) := by
  refine h.refreshed rfl rfl (fun _ _ hr => hr) (fun _ _ _ _ hr => hr) (fun t' id hid => ?_)
    fun t' f hf => ?_
  · by_cases ht : t' = t
    · subst ht
      have hid' : s.Holds t' (.job id) := hid
      rw [begun_work, jobs_snapshot_held h.alone hid']
    · rw [begun_other ht]
  · by_cases ht : t' = t
    · subst ht
      have hf' : s.Holds t' (.media f) := hf
      rw [begun_work, media_snapshot_held hf']
    · rw [begun_other ht]

theorem mem_jobRows {v : Store} {p : Job → Bool} {r : RowId} :
    r ∈ jobRows v p ↔ ∃ j ∈ v.jobs, p j = true ∧ r = .job j.id := by
  simp only [jobRows, List.mem_map, Table.mem_select, and_assoc, eq_comm]

theorem mem_mediaRows {v : Store} {p : MediaFile → Bool} {r : RowId} :
    r ∈ mediaRows v p ↔ ∃ m ∈ v.media, p m = true ∧ r = .media m.id := by
  simp only [mediaRows, List.mem_map, Table.mem_select, and_assoc, eq_comm]

-- A claim's snapshot leaves it only rows that nobody else has locked.
theorem locks_free (hq : skipsLocked q = true) :
    ∃ o : Option RowId, locks (s.snapshot t q) q = o.toList ∧
      ∀ r ∈ o, s.isFree t r = true := by
  cases q with
  | claimNextJob w codecs downscale =>
    generalize hv : s.snapshot t (.claimNextJob w codecs downscale) = v
    refine ⟨(v.nextClaimable (claimCodecs codecs) downscale).map fun j => .job j.id, ?_, ?_⟩
    · rw [locks]
      cases v.nextClaimable (claimCodecs codecs) downscale <;> rfl
    · intro r hr
      obtain ⟨j, hj, rfl⟩ := Option.map_eq_some_iff.mp hr
      have hmem := (nextClaimable_waiting hj).1
      rw [← hv] at hmem
      change j ∈ (s.view storeRows t).jobs.delete _ at hmem
      simpa using (Table.mem_delete.mp hmem).2
  | _ => cases hq

theorem scan_plain (hq : skipsLocked q = false) :
    s.scan t q = (begun s t q, locks (s.snapshot t q) q) := by
  rw [scan, hq]
  rfl

theorem scan_claim (hq : skipsLocked q = true) :
    (s.scan t q).1 = begun s t q ∨
      ∃ r, s.isFree t r = true ∧ (s.scan t q).1 = (begun s t q).lock storeRows t r := by
  obtain ⟨o, hrows, hfree⟩ := locks_free (s := s) (t := t) hq
  have hscan : (s.scan t q).1 =
      o.toList.foldl (fun s r => s.lock storeRows t r) (begun s t q) := by
    rw [← hrows, scan, hq]
    rfl
  cases o with
  | none => exact .inl hscan
  | some r => exact .inr ⟨r, hfree r rfl, hscan⟩

theorem Sound.scan (h : Sound s) (t : Nat) (q : Statement) : Sound (s.scan t q).1 := by
  cases hq : skipsLocked q with
  | false =>
    rw [scan_plain hq]
    exact h.begun t q
  | true =>
    rcases scan_claim (s := s) (t := t) hq with heq | ⟨r, hfree, heq⟩
    · rw [heq]
      exact h.begun t q
    · rw [heq]
      exact (h.begun t q).lock hfree

theorem Sound.step (h : Sound s) {op : PgOp} (hready : op.ready t s = true)
    (hlawful : Lawful s t op) : Sound (op.exec t s).1 := by
  cases op with
  | direct q => exact h.direct t q
  | scan q => exact h.scan t q
  | lock r => exact h.lock hready
  | apply q => exact h.apply hlawful
  | commit => exact h.commit t

end Scanning

section Interference

-- What the steps of other transactions leave a transaction.
structure Spares (t : Nat) (s s' : Pg) : Prop where
  holds : ∀ r, s'.Holds t r ↔ s.Holds t r
  work : s'.work t = s.work t
  jobs : ∀ id, s.Holds t (.job id) → s'.committed.jobs.get? id = s.committed.jobs.get? id
  links : ∀ id, s.Holds t (.job id) → ∀ f, Link s'.committed f id → Link s.committed f id

variable {s s' s'' : Pg} {t t' : Nat}

theorem Spares.refl (t : Nat) (s : Pg) : Spares t s s :=
  ⟨fun _ => Iff.rfl, rfl, fun _ _ => rfl, fun _ _ _ hl => hl⟩

theorem Spares.trans (h : Spares t s s') (h' : Spares t s' s'') : Spares t s s'' where
  holds r := (h'.holds r).trans (h.holds r)
  work := h'.work.trans h.work
  jobs id hid := (h'.jobs id ((h.holds _).mpr hid)).trans (h.jobs id hid)
  links id hid f hl := h.links id hid f (h'.links id ((h.holds _).mpr hid) f hl)

theorem Spares.of_rows (hholds : ∀ r, s'.Holds t r ↔ s.Holds t r) (hwork : s'.work t = s.work t)
    (hjobs : s'.committed.jobs = s.committed.jobs) (hmedia : s'.committed.media = s.committed.media) :
    Spares t s s' where
  holds := hholds
  work := hwork
  jobs _ _ := by rw [hjobs]
  links _ _ _ hl := by rwa [Link, hmedia] at hl

theorem release_spares (h : t' ≠ t) : Spares t s (s.release t') := by
  refine Spares.of_rows (fun r => ?_) rfl rfl rfl
  rw [Versions.holds_release]
  exact and_iff_left h.symm

theorem lock_spares (h : t' ≠ t) (r : RowId) : Spares t s (s.lock storeRows t' r) := by
  refine Spares.of_rows (fun r' => ?_) (Versions.lock_other h.symm) ?_ ?_
  · rw [Versions.holds_lock]
    exact or_iff_left fun heq => h heq.1.symm
  · rw [Versions.lock_committed]
  · rw [Versions.lock_committed]

theorem begun_spares (h : t' ≠ t) (q : Statement) : Spares t s (begun s t' q) :=
  Spares.of_rows (fun _ => Iff.rfl) (begun_other h.symm) rfl rfl

theorem scan_spares (h : t' ≠ t) (q : Statement) : Spares t s (s.scan t' q).1 := by
  cases hq : skipsLocked q with
  | false =>
    rw [scan_plain hq]
    exact begun_spares h q
  | true =>
    rcases scan_claim (s := s) (t := t') hq with heq | ⟨r, -, heq⟩
    · rw [heq]
      exact begun_spares h q
    · rw [heq]
      exact (begun_spares h q).trans (lock_spares h r)

theorem commit_spares (hs : Sound s) (h : t' ≠ t) : Spares t s (s.commit storeRows t') where
  holds r := by
    rw [Versions.holds_commit]
    exact and_iff_left h.symm
  work := rfl
  jobs id hid := hs.alone.row_commit_other (D := storeRows) h.symm hid
  links id hid f hl := by
    rcases hs.link_commit hl with hold | ⟨hjob, -⟩
    · exact hold
    · exact absurd (hs.alone _ _ _ hjob hid) h

theorem step_spares (hs : Sound s) (h : t' ≠ t) (op : PgOp) : Spares t s (op.exec t' s).1 := by
  cases op with
  | direct q => exact Spares.of_rows (fun _ => Iff.rfl) rfl rfl rfl
  | scan q => exact scan_spares h q
  | lock r => exact lock_spares h r
  | apply q => exact Spares.of_rows (fun _ => Iff.rfl) (Versions.setWork_other _ h.symm) rfl rfl
  | commit => exact commit_spares hs h

end Interference

section Contract

abbrev Seen := Traced Nat PgOp Pg Unit

-- The request deletes the jobs with one of these statuses; none stands for all of them.
def Deletes : PgRequest → Option (List JobStatus) → Prop
  | .deleteJobs statuses, l => statuses = l
  | .serve .clearCompleted, l => l = some [.complete, .cancelled]
  | .serve .reset, l => l = none
  | .serve _, _ => False

theorem Deletes.unique {r : PgRequest} {l l' : Option (List JobStatus)} (h : Deletes r l)
    (h' : Deletes r l') : l = l' := by
  cases r with
  | deleteJobs statuses => exact h.symm.trans h'
  | serve r =>
    cases r with
    | clearCompleted => exact h.trans h'.symm
    | reset => exact h.trans h'.symm
    | _ => exact h.elim

def HasStatus (statuses : Option (List JobStatus)) (s : Store) (id : Uuid) : Prop :=
  ∃ j, s.jobs.get? id = some j ∧ (statuses.all fun l => l.contains j.status) = true

-- When the transaction chose and locked its jobs, this was one of them.
def Chosen (t : Nat) (statuses : Option (List JobStatus)) (id : Uuid)
    (h : List (Entry Nat PgOp Pg Unit)) : Prop :=
  Since (fun _ f => f.thread = t ∧ f.op = .apply (.selectJobIds statuses) ∧
      HasStatus statuses f.pre.committed id)
    (fun g => g.thread = t → ∀ l, g.op ≠ .apply (.selectJobIds l)) h

-- The transaction is about to take the job away.
def Removes (t : Nat) (id : Uuid) (s : Pg) : Prop :=
  s.Holds t (.job id) ∧ (s.work t).jobs.get? id = none ∧ s.committed.jobs.get? id ≠ none

def Duty (t : Nat) (r : PgRequest) (op : PgOp) (x : Seen) : Prop :=
  Lawful x.1 t op ∧ ∀ statuses id, Deletes r statuses → op = .commit → Removes t id x.1 →
    Chosen t statuses id x.2

def Apart (t : Nat) (x x' : Seen) : Prop :=
  Spares t x.1 x'.1 ∧ ∃ zs, x'.2 = x.2 ++ zs ∧ ∀ g ∈ zs, g.thread ≠ t

def contract (t : Nat) (r : PgRequest) : Contract PgOp Seen Unit where
  rely := Apart t
  assume _ _ x := Sound x.1
  guar op _ x _ := Duty t r op x

variable {t : Nat} {x x' x'' : Seen}

theorem Apart.refl (t : Nat) (x : Seen) : Apart t x x :=
  ⟨.refl t x.1, [], (List.append_nil _).symm, fun g hg => (by cases hg)⟩

theorem Apart.trans (h : Apart t x x') (h' : Apart t x' x'') : Apart t x x'' := by
  obtain ⟨hspares, zs, heq, hzs⟩ := h
  obtain ⟨hspares', zs', heq', hzs'⟩ := h'
  refine ⟨hspares.trans hspares', zs ++ zs', by rw [heq', heq, List.append_assoc], ?_⟩
  intro g hg
  exact (List.mem_append.mp hg).elim (hzs g) (hzs' g)

theorem Apart.of_same (hspares : Spares t x.1 x'.1) (heq : x'.2 = x.2) : Apart t x x' :=
  ⟨hspares, [], heq.trans (List.append_nil _).symm, fun g hg => (by cases hg)⟩

-- A property that no step of another transaction ends.
def Stable (t : Nat) (P : Seen → Prop) : Prop := ∀ x x', P x → Apart t x x' → P x'

abbrev wp {α : Type} (t : Nat) (r : PgRequest) (p : PgRoute α) (Q : Except HttpError α → Seen → Prop)
    (x : Seen) : Prop :=
  p.wp postgres.traced t (contract t r) Q x

def stepped (t : Nat) (op : PgOp) (x : Seen) : Seen := postgres.traced.next t op () x

def answered (t : Nat) (op : PgOp) (x : Seen) : op.Answer := (op.exec t x.1).2

theorem stepped_history (t : Nat) (op : PgOp) (x : Seen) :
    (stepped t op x).2 = x.2 ++ [⟨⟨op, (), x.1, (op.exec t x.1).1⟩, t⟩] := rfl

theorem wp_call_of {α : Type} {r : PgRequest} {op : PgOp} {k : op.Answer → PgRoute α}
    {P : Seen → Prop} {Q : Except HttpError α → Seen → Prop} (hP : Stable t P) (hx : P x)
    (hcall : ∀ y, P y → Sound y.1 → op.ready t y.1 = true → Duty t r op y ∧
      wp t r (k (answered t op y)) Q (stepped t op y)) :
    wp t r (.call op k) Q x :=
  Program.wp_call_of hx hP fun _ y hy hready ha => hcall y hy ha hready

end Contract

section Statements

variable {t : Nat} {r : PgRequest} {x : Seen}

theorem lockEach_wp {rows : List RowId} {K : RowId → Prop} {L : Seen → Prop} (hL : Stable t L)
    (hlock : ∀ row ∈ rows, ∀ y, L y → Sound y.1 → L (stepped t (.lock row) y)) (hx : L x)
    (hK : ∀ row, K row → x.1.Holds t row) :
    wp t r (lockEach rows)
      (fun o y => o = .ok () ∧ L y ∧ ∀ row, K row ∨ row ∈ rows → y.1.Holds t row) x := by
  induction rows generalizing x K with
  | nil => exact ⟨rfl, hx, fun row hrow => hK row (hrow.resolve_right List.not_mem_nil)⟩
  | cons row rows ih =>
    refine wp_call_of (P := fun y => L y ∧ ∀ row, K row → y.1.Holds t row) ?_ ⟨hx, hK⟩ ?_
    · exact fun y y' hy hapart =>
        ⟨hL y y' hy.1 hapart, fun row' hrow' => (hapart.1.holds row').mpr (hy.2 row' hrow')⟩
    · rintro y ⟨hy, hheld⟩ hsound -
      refine ⟨⟨trivial, fun _ _ _ => nofun⟩, ?_⟩
      refine Program.wp_mono (ih (K := fun row' => K row' ∨ row' = row)
        (fun row' hrow' => hlock row' (List.mem_cons_of_mem _ hrow'))
        (hlock row List.mem_cons_self y hy hsound) ?_) ?_
      · rintro row' (hrow' | rfl)
        · exact Versions.holds_lock.mpr (.inl (hheld row' hrow'))
        · exact Versions.holds_lock.mpr (.inr ⟨rfl, rfl⟩)
      · rintro o z ⟨ho, hz, hall⟩
        refine ⟨ho, hz, fun row' hrow' => hall row' ?_⟩
        simpa [or_assoc] using hrow'

-- A statement step by step: what holds after its snapshot, while it waits for its locks, and
-- when it has them all.
theorem statement_wp {q : Statement} {P : Seen → Prop} {L : List RowId → Seen → Prop}
    {Q : q.Answer → Seen → Prop} (hq : locksRows q = true) (hP : Stable t P)
    (hL : ∀ rows, Stable t (L rows)) (hx : P x)
    (hscan : ∀ y, P y → Sound y.1 → L (answered t (.scan q) y) (stepped t (.scan q) y))
    (hlock : ∀ rows, ∀ row ∈ rows, ∀ y, L rows y → Sound y.1 →
      L rows (stepped t (.lock row) y))
    (happly : ∀ rows y, L rows y → (∀ row ∈ rows, y.1.Holds t row) → Sound y.1 →
      Duty t r (.apply q) y ∧ Q (answered t (.apply q) y) (stepped t (.apply q) y)) :
    wp t r (statement q) (fun o y => ∃ a, o = .ok a ∧ Q a y) x := by
  rw [statement, if_pos hq]
  refine wp_call_of hP hx fun y hy hsound _ => ⟨⟨trivial, fun _ _ _ => nofun⟩, ?_⟩
  generalize hrows : answered t (.scan q) y = rows
  have hlocked := lockEach_wp (r := r) (K := fun _ => False) (hL rows) (hlock rows)
    (hrows ▸ hscan y hy hsound) fun _ h => h.elim
  refine Program.wp_seq hlocked ?_ fun e z hz => (by cases hz.1)
  rintro - z ⟨-, hz, hall⟩
  refine wp_call_of (P := fun z => L rows z ∧ ∀ row ∈ rows, z.1.Holds t row) ?_
    ⟨hz, fun row hrow => hall row (.inr hrow)⟩ ?_
  · exact fun z z' hz hapart => ⟨hL rows z z' hz.1 hapart,
      fun row hrow => (hapart.1.holds row).mpr (hz.2 row hrow)⟩
  · rintro z ⟨hz, hall⟩ hsound -
    obtain ⟨hduty, hpost⟩ := happly rows z hz hall hsound
    exact ⟨hduty, _, rfl, hpost⟩

end Statements

end TranscodeForge.Links
