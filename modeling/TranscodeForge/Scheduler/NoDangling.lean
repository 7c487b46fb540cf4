import TranscodeForge.Scheduler.Links

namespace TranscodeForge.Links

open Relational Interaction Scheduler Store Postgres Pg

-- The two statements that can leave a link without its job.
def relinks : Statement → Bool
  | .updateMediaStatus _ _ _ _ | .deleteJobRows _ => true
  | _ => false

def harmless : PgOp → Bool
  | .apply q => !relinks q
  | .commit => false
  | _ => true

section Transactions

variable {t : Nat} {r : PgRequest} {x : Seen}

theorem duty_of_harmless {op : PgOp} (h : harmless op = true) : Duty t r op x := by
  constructor
  · cases op with
    | apply q =>
      cases q with
      | updateMediaStatus fileId status reason jobId => cases h
      | deleteJobRows ids => cases h
      | _ => trivial
    | _ => trivial
  · rintro statuses id - rfl
    cases h

theorem lockEach_harmless (rows : List RowId) :
    (lockEach rows).Calls fun op => harmless op = true :=
  Program.Calls.each fun _ _ => ⟨rfl, fun _ => trivial⟩

theorem statement_harmless {q : Statement} (hq : relinks q = false) :
    (statement q).Calls fun op => harmless op = true := by
  rw [statement]
  split
  · have happly : harmless (.apply q) = true := by simp [harmless, hq]
    exact ⟨rfl, fun rows => (lockEach_harmless rows).bind fun _ => ⟨happly, fun _ => trivial⟩⟩
  · exact ⟨rfl, fun _ => trivial⟩

theorem transacted_harmless {α : Type} {p : Block α} (hp : p.Calls fun q => relinks q = false) :
    (transacted p).Calls fun op => harmless op = true := by
  induction p with
  | ret a => trivial
  | raise e => exact e.elim
  | call q k ih => exact (statement_harmless hp.1).bind fun a => ih a (hp.2 a)

theorem harmless_wp {α : Type} {p : PgRoute α} (hp : p.Calls fun op => harmless op = true) :
    wp t r p (fun _ _ => True) x :=
  Program.wp_of_calls (P := fun _ => True) hp trivial (fun _ _ _ _ => trivial)
    fun _ _ _ hop _ _ _ => ⟨duty_of_harmless hop, trivial⟩

theorem lockEach_noRaise (rows : List RowId) : (lockEach rows).NoRaise := by
  induction rows with
  | nil => trivial
  | cons row rows ih => exact fun _ => ih

theorem statement_noRaise (q : Statement) : (statement q).NoRaise := by
  rw [statement]
  split
  · exact fun rows => (lockEach_noRaise rows).bind fun _ _ => trivial
  · exact fun _ => trivial

theorem transacted_noRaise {α : Type} (p : Block α) : (transacted p).NoRaise := by
  induction p with
  | ret a => trivial
  | raise e => exact e.elim
  | call q k ih => exact (statement_noRaise q).bind ih

-- A request holds nothing between two of its transactions.
def Idle (t : Nat) (x : Seen) : Prop := ∀ row, ¬x.1.Holds t row

theorem idle_stable (t : Nat) : Stable t (Idle t) := by
  intro x x' h hapart row hrow
  exact h row ((hapart.1.holds row).mp hrow)

theorem committing_wp {α : Type} {p : PgRoute α} {P : Seen → Prop} (hP : Stable t P)
    (hraise : p.NoRaise) (hp : wp t r p (fun _ y => P y) x) (hduty : ∀ y, P y → Duty t r .commit y) :
    wp t r (committing p) (fun _ y => Idle t y) x := by
  refine Program.wp_seq (Program.wp_noRaise hraise hp) ?_ ?_
  · rintro a y ⟨hy, -⟩
    refine wp_call_of hP hy fun y hy _ _ => ⟨hduty y hy, fun row hrow => ?_⟩
    exact (Versions.holds_commit.mp hrow).2 rfl
  · rintro e y ⟨-, a, ha⟩
    cases ha

-- A transaction of a request that deletes nothing.
theorem keeping_wp {α : Type} {p : PgRoute α} (hr : ∀ l, ¬Deletes r l) (hraise : p.NoRaise)
    (hp : wp t r p (fun _ _ => True) x) : wp t r (committing p) (fun _ y => Idle t y) x :=
  committing_wp (P := fun _ => True) (fun _ _ _ _ => trivial) hraise hp fun _ _ =>
    ⟨trivial, fun l _ hl => absurd hl (hr l)⟩

end Transactions

section Queueing

variable {t : Nat} {r : PgRequest} {x y : Seen} {id : Uuid}

-- The job a batch has just created is its own until it commits.
def Mine (t : Nat) (id : Uuid) (x : Seen) : Prop :=
  x.1.Holds t (.job id) ∧ (x.1.work t).jobs.get? id ≠ none

theorem mine_stable (t : Nat) (id : Uuid) : Stable t (Mine t id) := by
  rintro x x' ⟨hheld, hrow⟩ hapart
  refine ⟨(hapart.1.holds _).mpr hheld, ?_⟩
  rw [hapart.1.work]
  exact hrow

theorem scan_state {q : Statement} (hq : skipsLocked q = false) (y : Seen) :
    (stepped t (.scan q) y).1 = begun y.1 t q ∧
      answered t (.scan q) y = locks (y.1.snapshot t q) q := by
  have hscan := scan_plain (s := y.1) (t := t) hq
  exact ⟨congrArg Prod.fst hscan, congrArg Prod.snd hscan⟩

theorem Mine.scan {q : Statement} (hq : skipsLocked q = false) (h : Mine t id y)
    (hs : Sound y.1) : Mine t id (stepped t (.scan q) y) := by
  have hstate := (scan_state (t := t) hq y).1
  rw [Mine, hstate, begun_work, jobs_snapshot_held hs.alone h.1]
  exact h

theorem Mine.lock (h : Mine t id y) (row : RowId) : Mine t id (stepped t (.lock row) y) := by
  refine ⟨Versions.holds_lock.mpr (.inl h.1), ?_⟩
  have hjob : ((y.1.lock storeRows t row).work t).jobs.get? id = (y.1.work t).jobs.get? id := by
    rw [jobs_lock, if_neg]
    rintro ⟨rfl, hfree⟩
    exact hfree h.1
  intro hnone
  exact h.2 (hjob.symm.trans hnone)

theorem nextUuid_lock (s : Pg) (t : Nat) (row : RowId) :
    ((s.lock storeRows t row).work t).nextUuid = (s.work t).nextUuid := by
  rw [Versions.lock]
  split
  · rfl
  · change (Function.update s.work t _ t).nextUuid = _
    rw [Function.update_self]
    cases row <;> rfl

theorem createJob_row_ne_none (s : Store) (draft : Job) :
    (s.createJob draft).1.jobs.get? s.nextUuid ≠ none := by
  change (s.jobs.insert (draft.inserted s.nextUuid s.now)).get? s.nextUuid ≠ none
  have hkey : (draft.inserted s.nextUuid s.now).id = s.nextUuid := rfl
  cases hrow : s.jobs.get? s.nextUuid with
  | none =>
    rw [Table.get?_insert_of_free (r := draft.inserted s.nextUuid s.now) hrow, if_pos hkey]
    exact nofun
  | some j =>
    rw [Table.insert_of_taken (r := draft.inserted s.nextUuid s.now) hrow, hrow]
    exact nofun

theorem createJob_wp (draft : Job) :
    wp t r (statement (.createJob draft)) (fun o y => ∃ id : Uuid, o = .ok id ∧ Mine t id y) x := by
  refine statement_wp (P := fun _ => True)
    (L := fun rows y => rows = [.job (y.1.work t).nextUuid]) rfl (fun _ _ _ _ => trivial) ?_ trivial
    ?_ ?_ ?_
  · intro rows x x' hrows hapart
    rw [hrows, hapart.1.work]
  · intro y _ _
    obtain ⟨hstate, hanswer⟩ := scan_state (t := t) (q := .createJob draft) rfl y
    rw [hstate, hanswer, begun_work]
    rfl
  · intro rows row _ y hrows _
    rw [hrows]
    exact congrArg (fun n => [RowId.job n]) (nextUuid_lock y.1 t row).symm
  · intro rows y hrows hheld _
    have hjob : RowId.job (y.1.work t).nextUuid ∈ rows := by simp [hrows]
    refine ⟨duty_of_harmless rfl, hheld _ hjob, ?_⟩
    change (((y.1.setWork t _).work t).jobs.get? _) ≠ none
    rw [Versions.setWork_work]
    exact createJob_row_ne_none _ draft

theorem linkJob_wp (fileId : String) (status : TranscodeStatus) (reason : Option String)
    (hr : ∀ l, ¬Deletes r l) (hx : Mine t id x) :
    wp t r (statement (.updateMediaStatus fileId status reason (some id))) (fun _ _ => True) x := by
  have hlinks := statement_wp (r := r) (P := Mine t id) (L := fun _ => Mine t id)
    (Q := fun _ _ => True) (q := .updateMediaStatus fileId status reason (some id)) rfl
    (mine_stable t id) (fun _ => mine_stable t id) hx (fun y hy hs => hy.scan rfl hs)
    (fun _ row _ y hy _ => hy.lock row) fun rows y hy _ _ =>
      ⟨⟨⟨id, rfl, hy⟩, fun l _ hl => absurd hl (hr l)⟩, trivial⟩
  exact Program.wp_mono hlinks fun _ _ _ => trivial

theorem queueEach_wp {libs : List Library} {height : Option Nat} {vmaf : Rat}
    {blocked : List String} (hr : ∀ l, ¬Deletes r l) (candidates : List (MediaFile × String))
    (seen : List String) (counts : Nat × Nat) :
    wp t r (transacted (queueEach libs height vmaf blocked candidates seen counts))
      (fun _ _ => True) x := by
  induction candidates generalizing seen counts x with
  | nil => trivial
  | cons c rest ih =>
    rw [queueEach]
    split
    · exact ih _ _
    · refine Program.wp_seq (createJob_wp _) ?_ fun _ _ _ => trivial
      rintro _ y ⟨id, heq, hmine⟩
      cases heq
      exact Program.wp_seq (linkJob_wp _ _ _ hr hmine) (fun _ _ _ => ih _ _) fun _ _ _ => trivial

theorem queueBlock_wp {height : Option Nat} {vmaf : Rat} {blocked : List String}
    {candidates : List (MediaFile × String)} {skipped : Nat} (hr : ∀ l, ¬Deletes r l) :
    wp t r (transacted (queueBlock height vmaf blocked candidates skipped)) (fun _ _ => True) x :=
  Program.wp_seq (harmless_wp (statement_harmless rfl)) (fun _ _ _ => queueEach_wp hr _ _ _)
    fun _ _ _ => trivial

end Queueing

section Deleting

variable {t : Nat} {r : PgRequest} {x y : Seen} {statuses : Option (List JobStatus)}
variable {ids chunk : List Uuid}

def hasStatus (statuses : Option (List JobStatus)) (j : Job) : Bool :=
  statuses.all fun l => l.contains j.status

-- A job with one of the statuses has its row among those to lock, and a locked row is as it is
-- committed.
def Choosing (t : Nat) (statuses : Option (List JobStatus)) (rows : List RowId) (x : Seen) : Prop :=
  (∀ id j, .job id ∉ rows → (x.1.work t).jobs.get? id = some j → hasStatus statuses j = false) ∧
    ∀ id, x.1.Holds t (.job id) → (x.1.work t).jobs.get? id = x.1.committed.jobs.get? id

-- The jobs are locked and were chosen, and no others are taken away.
structure Taken (t : Nat) (statuses : Option (List JobStatus)) (ids : List Uuid) (x : Seen) :
    Prop where
  held : ∀ id ∈ ids, x.1.Holds t (.job id)
  chosen : ∀ id ∈ ids, Chosen t statuses id x.2
  only : ∀ id, Removes t id x.1 → id ∈ ids

theorem choosing_stable (t : Nat) (statuses : Option (List JobStatus)) (rows : List RowId) :
    Stable t (Choosing t statuses rows) := by
  rintro x x' ⟨hrest, hheld⟩ ⟨hspares, -⟩
  constructor
  · rw [hspares.work]
    exact hrest
  · intro id hid
    have hid' := (hspares.holds _).mp hid
    rw [hspares.work, hspares.jobs id hid']
    exact hheld id hid'

theorem Chosen.others {id : Uuid} {h zs : List (Entry Nat PgOp Pg Unit)}
    (hc : Chosen t statuses id h) (hzs : ∀ g ∈ zs, g.thread ≠ t) :
    Chosen t statuses id (h ++ zs) := by
  obtain ⟨xs, f, ys, rfl, hf, hys⟩ := hc
  refine ⟨xs, f, ys ++ zs, by simp, hf, fun g hg => ?_⟩
  rcases List.mem_append.mp hg with hg | hg
  · exact hys g hg
  · exact fun hthread => absurd hthread (hzs g hg)

theorem taken_stable (t : Nat) (statuses : Option (List JobStatus)) (ids : List Uuid) :
    Stable t (Taken t statuses ids) := by
  rintro x x' h ⟨hspares, zs, heq, hzs⟩
  refine ⟨fun id hid => (hspares.holds _).mpr (h.held id hid), fun id hid => ?_, ?_⟩
  · rw [heq]
    exact (h.chosen id hid).others hzs
  · rintro id ⟨hheld, hgone, hrow⟩
    have hheld' := (hspares.holds _).mp hheld
    rw [hspares.work] at hgone
    rw [hspares.jobs id hheld'] at hrow
    exact h.only id ⟨hheld', hgone, hrow⟩

theorem Taken.stepped {op : PgOp} (h : Taken t statuses ids y)
    (hholds : ∀ row, y.1.Holds t row → (stepped t op y).1.Holds t row)
    (hop : ∀ l, op ≠ .apply (.selectJobIds l))
    (hremoves : ∀ id, Removes t id (Links.stepped t op y).1 → Removes t id y.1 ∨ id ∈ ids) :
    Taken t statuses ids (Links.stepped t op y) where
  held id hid := hholds _ (h.held id hid)
  chosen id hid := (h.chosen id hid).append fun _ l => hop l
  only id hid := (hremoves id hid).elim (h.only id) fun hmem => hmem

theorem Taken.scan {q : Statement} (h : Taken t statuses ids y) (hs : Sound y.1)
    (hq : skipsLocked q = false) : Taken t statuses ids (Links.stepped t (.scan q) y) := by
  have hstate := (scan_state (t := t) hq y).1
  refine h.stepped (fun row hrow => ?_) (fun l => nofun) fun id hid => .inl ?_
  · rw [hstate]
    exact hrow
  · rw [hstate] at hid
    obtain ⟨hheld, hgone, hrow⟩ := hid
    have hheld' : y.1.Holds t (.job id) := hheld
    rw [begun_work, jobs_snapshot_held hs.alone hheld'] at hgone
    exact ⟨hheld', hgone, hrow⟩

theorem Taken.lock (h : Taken t statuses ids y) (row : RowId) :
    Taken t statuses ids (Links.stepped t (.lock row) y) := by
  refine h.stepped (fun _ hrow => Versions.holds_lock.mpr (.inl hrow)) (fun _ => nofun) ?_
  rintro id ⟨hheld, hgone, hrow⟩
  change ((y.1.lock storeRows t row).work t).jobs.get? id = none at hgone
  change (y.1.lock storeRows t row).committed.jobs.get? id ≠ none at hrow
  rw [Versions.lock_committed] at hrow
  rw [jobs_lock] at hgone
  split at hgone
  · exact absurd hgone hrow
  · next hold =>
    refine .inl ⟨?_, hgone, hrow⟩
    rcases Versions.holds_lock.mp hheld with hheld | ⟨-, heq⟩
    · exact hheld
    · exact not_not.mp fun hfree => hold ⟨heq, heq ▸ hfree⟩

theorem Taken.apply {q : Statement} (h : Taken t statuses ids y)
    (hq : ∀ l, q ≠ .selectJobIds l) (hids : ∀ chunk, q = .deleteJobRows chunk → ∀ id ∈ chunk, id ∈ ids) :
    Taken t statuses ids (Links.stepped t (.apply q) y) := by
  refine h.stepped (fun _ hrow => hrow) (fun l heq => ?_) ?_
  · cases heq
    exact hq l rfl
  · rintro id ⟨hheld, hgone, hrow⟩
    change ((y.1.setWork t (q.next (y.1.work t))).work t).jobs.get? id = none at hgone
    rw [Versions.setWork_work] at hgone
    rcases job_gone hgone with hgone | ⟨chunk, rfl, hid⟩
    · exact .inl ⟨hheld, hgone, hrow⟩
    · exact .inr (hids chunk rfl id hid)

theorem selectJobIds_wp (hx : Idle t x) :
    wp t r (statement (.selectJobIds statuses))
      (fun o y => ∃ ids : List Uuid, o = .ok ids ∧ Taken t statuses ids y) x := by
  refine statement_wp (L := Choosing t statuses) rfl (idle_stable t)
    (choosing_stable t statuses) hx ?_ ?_ ?_
  · intro y hy _
    obtain ⟨hstate, hanswer⟩ := scan_state (t := t) (q := .selectJobIds statuses) rfl y
    rw [hanswer, Choosing, hstate, begun_work]
    constructor
    · intro id j hid hj
      cases hp : hasStatus statuses j with
      | false => rfl
      | true =>
        refine absurd (mem_jobRows.mpr ⟨j, Table.get?_mem hj, hp, ?_⟩) hid
        rw [Table.get?_key hj]
    · exact fun id hid => absurd hid (hy _)
  · rintro rows row hrow y ⟨hrest, hheld⟩ -
    constructor
    · intro id j hid hj
      have hother : ¬(RowId.job id = row ∧ ¬y.1.Holds t row) := fun h => hid (h.1 ▸ hrow)
      change ((y.1.lock storeRows t row).work t).jobs.get? id = some j at hj
      rw [jobs_lock, if_neg hother] at hj
      exact hrest id j hid hj
    · intro id hid
      change ((y.1.lock storeRows t row).work t).jobs.get? id =
        (y.1.lock storeRows t row).committed.jobs.get? id
      rw [jobs_lock, Versions.lock_committed]
      split
      · rfl
      · next hnew =>
        refine hheld id ?_
        rcases Versions.holds_lock.mp hid with hid | ⟨-, heq⟩
        · exact hid
        · exact not_not.mp fun hfree => hnew ⟨heq, heq ▸ hfree⟩
  · rintro rows y ⟨hrest, hheld⟩ hrows -
    have hids : ∀ id ∈ (y.1.work t).selectJobIds statuses,
        y.1.Holds t (.job id) ∧ HasStatus statuses y.1.committed id := by
      intro id hid
      obtain ⟨j, hj, rfl⟩ := List.mem_map.mp hid
      obtain ⟨hrow, hp⟩ := Table.mem_select.mp hj
      have hget := Table.get?_of_mem hrow
      have hmem : RowId.job j.id ∈ rows := by
        by_contra hnot
        exact Bool.false_ne_true ((hrest j.id j hnot hget).symm.trans hp)
      have hlocked := hrows _ hmem
      rw [hheld j.id hlocked] at hget
      exact ⟨hlocked, j, hget, hp⟩
    refine ⟨duty_of_harmless rfl, fun id hid => (hids id hid).1, ?_, ?_⟩
    · exact fun id hid => Since.here ⟨rfl, rfl, (hids id hid).2⟩
    · rintro id ⟨hlocked, hgone, hrow⟩
      change ((y.1.setWork t (y.1.work t)).work t).jobs.get? id = none at hgone
      rw [Versions.setWork_work, hheld id hlocked] at hgone
      exact absurd hgone hrow

theorem unlinked_stable (t : Nat) {id : Uuid} {x x' : Seen} (hapart : Apart t x x')
    (hid : x.1.Holds t (.job id)) (h : Unlinked x.1 t id) : Unlinked x'.1 t id := by
  obtain ⟨hspares, -⟩ := hapart
  constructor
  · intro f hl
    exact (hspares.holds _).mpr (h.1 f (hspares.links id hid f hl))
  · intro f hf hl
    rw [hspares.work] at hl
    exact h.2 f ((hspares.holds _).mp hf) hl

theorem Unlinked.begun {s : Pg} {id : Uuid} {q : Statement} (h : Unlinked s t id) :
    Unlinked (begun s t q) t id := by
  refine ⟨h.1, fun f hf hl => h.2 f hf ?_⟩
  have hheld : s.Holds t (.media f) := hf
  rwa [Link, begun_work, media_snapshot_held hheld] at hl

theorem Unlinked.lock {s : Pg} {id : Uuid} (h : Unlinked s t id) (row : RowId) :
    Unlinked (s.lock storeRows t row) t id := by
  constructor
  · intro f hl
    rw [Versions.lock_committed] at hl
    exact Versions.holds_lock.mpr (.inl (h.1 f hl))
  · intro f hf hl
    rw [Link, media_lock] at hl
    split at hl
    · next hnew => exact hnew.2 (hnew.1 ▸ h.1 f hl)
    · next hold =>
      refine h.2 f ?_ hl
      rcases Versions.holds_lock.mp hf with hf | ⟨-, heq⟩
      · exact hf
      · exact not_not.mp fun hfree => hold ⟨heq, heq ▸ hfree⟩

-- Every catalog row of the chunk's jobs is locked or among those to lock.
def Releasing (t : Nat) (statuses : Option (List JobStatus)) (ids chunk : List Uuid)
    (rows : List RowId) (x : Seen) : Prop :=
  Taken t statuses ids x ∧ ∀ id ∈ chunk, ∀ f, Link x.1.committed f id →
    .media f ∈ rows ∨ x.1.Holds t (.media f)

def Released (t : Nat) (statuses : Option (List JobStatus)) (ids chunk : List Uuid) (x : Seen) :
    Prop :=
  Taken t statuses ids x ∧ ∀ id ∈ chunk, Unlinked x.1 t id

theorem releasing_stable (hchunk : ∀ id ∈ chunk, id ∈ ids) (rows : List RowId) :
    Stable t (Releasing t statuses ids chunk rows) := by
  rintro x x' ⟨htaken, hlinks⟩ hapart
  refine ⟨taken_stable t statuses ids x x' htaken hapart, fun id hid f hl => ?_⟩
  have hjob := htaken.held id (hchunk id hid)
  exact (hlinks id hid f (hapart.1.links id hjob f hl)).imp_right (hapart.1.holds _).mpr

theorem released_stable (hchunk : ∀ id ∈ chunk, id ∈ ids) :
    Stable t (Released t statuses ids chunk) := by
  rintro x x' ⟨htaken, hunlinked⟩ hapart
  refine ⟨taken_stable t statuses ids x x' htaken hapart, fun id hid => ?_⟩
  exact unlinked_stable t hapart (htaken.held id (hchunk id hid)) (hunlinked id hid)

theorem not_link_releaseMedia {s : Store} {id : Uuid} {f : String} (hid : id ∈ chunk) :
    ¬Link (s.releaseMedia chunk).1 f id := by
  rintro ⟨m', hm', hlink⟩
  obtain ⟨m, -, ⟨-, rfl⟩ | ⟨hp, rfl⟩⟩ := media_row hm'
  · cases hlink
  · rw [linkedTo, hlink] at hp
    simp [hid] at hp

theorem releaseMedia_wp (hchunk : ∀ id ∈ chunk, id ∈ ids) (hx : Taken t statuses ids x) :
    wp t r (statement (.releaseMedia chunk))
      (fun o y => ∃ n : Nat, o = .ok n ∧ Released t statuses ids chunk y) x := by
  refine statement_wp (L := Releasing t statuses ids chunk) rfl (taken_stable t statuses ids)
    (releasing_stable hchunk) hx ?_ ?_ ?_
  · intro y hy hs
    obtain ⟨hstate, hanswer⟩ := scan_state (t := t) (q := .releaseMedia chunk) rfl y
    refine ⟨hy.scan hs rfl, fun id hid f hl => ?_⟩
    rw [hstate] at hl ⊢
    rw [hanswer]
    by_cases hf : y.1.Holds t (.media f)
    · exact .inr hf
    · obtain ⟨m, hm, hlink⟩ := hl
      have hsnapshot : (y.1.snapshot t (.releaseMedia chunk)).media.get? f = some m := by
        rw [media_snapshot, media_view, if_neg hf]
        exact hm
      refine .inl (mem_mediaRows.mpr ⟨m, Table.get?_mem hsnapshot, ?_, ?_⟩)
      · simp [linkedTo, hlink, hid]
      · rw [Table.get?_key hsnapshot]
  · rintro rows row - y ⟨htaken, hlinks⟩ -
    refine ⟨htaken.lock row, fun id hid f hl => ?_⟩
    have hl' : Link y.1.committed f id := by
      change Link (y.1.lock storeRows t row).committed f id at hl
      rwa [Versions.lock_committed] at hl
    exact (hlinks id hid f hl').imp_right fun hf => Versions.holds_lock.mpr (.inl hf)
  · rintro rows y ⟨htaken, hlinks⟩ hheld -
    refine ⟨duty_of_harmless rfl, htaken.apply (fun _ => nofun) fun _ => nofun, ?_⟩
    intro id hid
    constructor
    · exact fun f hl => (hlinks id hid f hl).elim (hheld _) fun hf => hf
    · intro f _ hl
      change Link ((y.1.setWork t _).work t) f id at hl
      rw [Versions.setWork_work] at hl
      exact not_link_releaseMedia hid hl

theorem deleteJobRows_wp (hchunk : ∀ id ∈ chunk, id ∈ ids)
    (hx : Released t statuses ids chunk x) :
    wp t r (statement (.deleteJobRows chunk))
      (fun o y => ∃ n : Nat, o = .ok n ∧ Taken t statuses ids y) x := by
  refine statement_wp (L := fun _ => Released t statuses ids chunk) rfl (released_stable hchunk)
    (fun _ => released_stable hchunk) hx ?_ ?_ ?_
  · rintro y ⟨htaken, hunlinked⟩ hs
    refine ⟨htaken.scan hs rfl, fun id hid => ?_⟩
    rw [(scan_state (t := t) (q := .deleteJobRows chunk) rfl y).1]
    exact (hunlinked id hid).begun
  · rintro - row - y ⟨htaken, hunlinked⟩ -
    exact ⟨htaken.lock row, fun id hid => (hunlinked id hid).lock row⟩
  · rintro - y ⟨htaken, hunlinked⟩ - -
    refine ⟨⟨hunlinked, fun _ _ _ => nofun⟩, htaken.apply (fun _ => nofun) ?_⟩
    intro chunk' heq
    cases heq
    exact hchunk

theorem deleteChunks_wp (chunks : List (List Uuid))
    (hchunks : ∀ chunk ∈ chunks, ∀ id ∈ chunk, id ∈ ids) (counts : Nat × Nat)
    (hx : Taken t statuses ids x) :
    wp t r (transacted (deleteChunks chunks counts))
      (fun o y => (∃ a, o = .ok a) → Taken t statuses ids y) x := by
  induction chunks generalizing counts x with
  | nil => exact fun _ => hx
  | cons chunk chunks ih =>
    have hchunk := hchunks chunk List.mem_cons_self
    refine Program.wp_seq (releaseMedia_wp hchunk hx) ?_ fun _ _ _ => nofun
    rintro _ y ⟨released, heq, hy⟩
    cases heq
    refine Program.wp_seq (deleteJobRows_wp hchunk hy) ?_ fun _ _ _ => nofun
    rintro _ z ⟨removed, heq, hz⟩
    cases heq
    exact ih (fun chunk' hchunk' => hchunks chunk' (List.mem_cons_of_mem _ hchunk')) _ hz

theorem mem_toChunks_go {α : Type} {n : Nat} {xs chunk : List α} {a : α} {acc : Array α}
    {chunks : Array (List α)} (hc : chunk ∈ List.toChunks.go n xs acc chunks) (ha : a ∈ chunk) :
    a ∈ xs ∨ a ∈ acc ∨ ∃ c ∈ chunks, a ∈ c := by
  induction xs generalizing acc chunks with
  | nil =>
    simp only [List.toChunks.go, Array.toList_push, List.mem_append, List.mem_singleton] at hc
    rcases hc with hc | rfl
    · exact .inr (.inr ⟨chunk, Array.mem_toList_iff.mp hc, ha⟩)
    · exact .inr (.inl (Array.mem_toList_iff.mp ha))
  | cons x xs ih =>
    rw [List.toChunks.go] at hc
    split at hc
    · rcases ih hc with hxs | hacc | ⟨c, hmem, hac⟩
      · exact .inl (List.mem_cons_of_mem _ hxs)
      · refine .inl (List.mem_cons.mpr (.inl ?_))
        simpa using hacc
      · rcases Array.mem_push.mp hmem with hmem | rfl
        · exact .inr (.inr ⟨c, hmem, hac⟩)
        · exact .inr (.inl (Array.mem_toList_iff.mp hac))
    · rcases ih hc with hxs | hacc | hchunks
      · exact .inl (List.mem_cons_of_mem _ hxs)
      · rcases Array.mem_push.mp hacc with hacc | rfl
        · exact .inr (.inl hacc)
        · exact .inl List.mem_cons_self
      · exact .inr (.inr hchunks)

theorem mem_toChunks {α : Type} {n : Nat} {xs chunk : List α} {a : α}
    (hc : chunk ∈ xs.toChunks n) (ha : a ∈ chunk) : a ∈ xs := by
  cases xs with
  | nil =>
    rw [List.toChunks] at hc
    cases hc
  | cons x xs =>
    cases n with
    | zero =>
      rw [List.toChunks, List.mem_singleton] at hc
      · exact hc ▸ ha
      · exact nofun
    | succ n =>
      rw [List.toChunks] at hc
      · have hgo := mem_toChunks_go hc ha
        simpa [or_comm] using hgo
      · exact nofun

theorem deleteJobsBlock_wp (hx : Idle t x) :
    wp t r (transacted (deleteJobsBlock statuses))
      (fun o y => (∃ a, o = .ok a) → ∃ ids, Taken t statuses ids y) x := by
  refine Program.wp_seq (selectJobIds_wp hx) ?_ fun _ _ _ => nofun
  rintro ids y ⟨_, heq, hy⟩
  cases heq
  have hchunks := deleteChunks_wp (r := r) (ids.toChunks deleteChunk)
    (fun chunk hchunk id hid => mem_toChunks hchunk hid) (0, 0) hy
  exact Program.wp_mono hchunks fun o z hz ho => ⟨ids, hz ho⟩

end Deleting

section Requests

variable {t : Nat} {r : PgRequest} {x : Seen}

-- What a request asks of the database in one transaction.
inductive Asks (r : PgRequest) : Op → Prop
  | keeps {op : Op} : (∀ l, ¬Deletes r l) → op.Does (fun q => relinks q = false) → Asks r op
  | queues {height : Option Nat} {vmaf : Rat} {blocked : List String}
      {candidates : List (MediaFile × String)} {skipped : Nat} : (∀ l, ¬Deletes r l) →
      Asks r (.batchBlock (queueBlock height vmaf blocked candidates skipped))
  | deletes {statuses : Option (List JobStatus)} : Deletes r statuses →
      Asks r (.batchBlock (deleteJobsBlock statuses))

theorem transaction_wp {op : Op} (hop : Asks r op) (hx : Idle t x) :
    wp t r (transaction op) (fun _ y => Idle t y) x := by
  cases hop with
  | keeps hr hop =>
    cases op with
    | statement q =>
      exact keeping_wp hr (statement_noRaise q) (harmless_wp (statement_harmless hop))
    | reportBlock p =>
      exact keeping_wp hr (transacted_noRaise p) (harmless_wp (transacted_harmless hop))
    | batchBlock p =>
      exact keeping_wp hr (transacted_noRaise p) (harmless_wp (transacted_harmless hop))
  | queues hr => exact keeping_wp hr (transacted_noRaise _) (queueBlock_wp hr)
  | @deletes statuses hr =>
    have hdeletes : wp t r (transacted (deleteJobsBlock statuses))
        (fun o y => (∃ a, o = .ok a) → ∃ ids, Taken t statuses ids y) x := deleteJobsBlock_wp hx
    have hblock := Program.wp_noRaise (transacted_noRaise _) hdeletes
    refine committing_wp (P := fun y => ∃ ids, Taken t statuses ids y) ?_ (transacted_noRaise _)
      (Program.wp_mono hblock fun o y hy => hy.1 hy.2) ?_
    · rintro x x' ⟨ids, hids⟩ hapart
      exact ⟨ids, taken_stable t statuses ids x x' hids hapart⟩
    · rintro y ⟨ids, htaken⟩
      refine ⟨trivial, fun statuses' id hr' _ hremoves => ?_⟩
      cases hr.unique hr'
      exact htaken.chosen id (htaken.only id hremoves)

theorem sends_keeps {r : Request} {q : Statement} (hr : r.isBatch = false) (hq : r.Sends q) :
    relinks q = false := by
  cases q with
  | updateMediaStatus fileId status reason jobId =>
    cases r with
    | queueFiles body => cases hr
    | heartbeat token body => cases hq.2
    | claim token workerId => exact hq.2.elim
    | checkDerivative token jobId key claimToken => exact hq.1.elim
    | _ => exact hq.elim
  | deleteJobRows ids =>
    cases r with
    | clearCompleted => cases hr
    | reset => cases hr
    | heartbeat token body => cases hq.2
    | claim token workerId => exact hq.2.elim
    | checkDerivative token jobId key claimToken => exact hq.1.elim
    | _ => exact hq.elim
  | _ => rfl

theorem deletes_isBatch {r : Request} {l : Option (List JobStatus)}
    (h : Deletes (.serve r) l) : r.isBatch = true := by
  cases r with
  | clearCompleted => rfl
  | reset => rfl
  | _ => exact h.elim

theorem deleteJobs_asks {statuses : Option (List JobStatus)} (hr : Deletes r statuses) :
    (deleteJobs .isolated statuses).Calls (Asks r) := by
  unfold deleteJobs
  split
  · trivial
  · exact ⟨.deletes hr, fun _ => trivial⟩

theorem queueFiles_asks {body : QueueRequest} :
    (queueFiles .isolated body).Calls (Asks (.serve (.queueFiles body))) := by
  have hr : ∀ l, ¬Deletes (.serve (.queueFiles body)) l := fun _ h => h
  exact ⟨.keeps hr rfl, fun _ => ⟨.keeps hr rfl, fun _ => ⟨.keeps hr rfl, fun _ =>
    ⟨.keeps hr rfl, fun _ => ⟨.keeps hr rfl, fun _ => ⟨.queues hr, fun _ => trivial⟩⟩⟩⟩⟩⟩

theorem serve_asks (r : Request) : (r.body .isolated).Calls (Asks (.serve r)) := by
  cases hbatch : r.isBatch with
  | false =>
    refine (r.body_calls .isolated).mono fun op hop => .keeps ?_ ?_
    · intro l hl
      rw [deletes_isBatch hl] at hbatch
      cases hbatch
    · exact hop.does.mono fun q hq => sends_keeps hbatch hq
  | true =>
    cases r with
    | clearCompleted => exact deleteJobs_asks (r := .serve .clearCompleted) rfl
    | reset => exact deleteJobs_asks (r := .serve .reset) rfl
    | queueFiles body => exact queueFiles_asks
    | _ => cases hbatch

theorem route_asks (r : PgRequest) : r.route.Calls (Asks r) := by
  cases r with
  | serve r => exact serve_asks r
  | deleteJobs statuses => exact deleteJobs_asks rfl

end Requests

section Runs

theorem step_apart {t t' : Nat} {x : Seen} (hs : Sound x.1) (h : t' ≠ t) (op : PgOp) :
    Apart t x (stepped t' op x) := by
  refine ⟨step_spares hs h op, _, stepped_history t' op x, fun g hg => ?_⟩
  rw [List.mem_singleton.mp hg]
  exact h

theorem started {r : PgRequest} {t : Nat} {s s' : Pg} (h : postgres.start t r s = some s') :
    s' = s.release t := by
  cases r with
  | serve r =>
    obtain ⟨-, heq⟩ := Option.ite_none_right_eq_some.mp h
    exact (Option.some.inj heq).symm
  | deleteJobs statuses => exact (Option.some.inj h).symm

theorem recorded_start {r : PgRequest} {t : Nat} {x x' : Seen}
    (h : postgres.recorded.start t r x = some x') : x' = (x.1.release t, x.2) := by
  obtain ⟨s, hs, rfl⟩ := Option.map_eq_some_iff.mp h
  rw [started hs]

theorem postgres_compatible : Compatible postgres.recorded contract where
  refl t _ x := .refl t x
  trans _ _ _ _ _ h h' := h.trans h'
  body t r x x' hstart := by
    have hidle : Idle t x' := by
      rw [recorded_start hstart]
      exact fun row hrow => (Versions.holds_release.mp hrow).2 rfl
    exact Program.wp_mono (Program.wp_expand (route_asks r) hidle fun op _ hop hx =>
      transaction_wp hop hx) fun _ _ _ => trivial
  call t r t' r' op i x hne _ hs _ := step_apart hs hne op
  start t r t' r' x x' hne hstart := by
    rw [recorded_start hstart]
    exact .of_same (release_spares hne) rfl
  disturb t r k x hk := by
    cases k with
    | elapse n => exact .of_same (.of_rows (fun _ => Iff.rfl) rfl rfl rfl) rfl
    | abort t' =>
      have hne : t' ≠ t := fun heq => by simp [System.recorded, postgres, heq] at hk
      exact .of_same (release_spares hne) rfl

-- Every link in the catalog is to a job, and a row that waits or runs has one.
structure NoDangling (s : Store) : Prop where
  linked : ∀ m ∈ s.media, ∀ id, m.jobId = some id → s.jobs.get? id ≠ none
  inFlight : ∀ m ∈ s.media, m.transcodeStatus.inFlight = true →
    ∃ id, m.jobId = some id ∧ s.jobs.get? id ≠ none

theorem Sound.noDangling {s : Pg} (h : Sound s) : NoDangling s.committed where
  linked m hm id hid := h.linked m.id id ⟨m, Table.get?_of_mem hm, hid⟩
  inFlight m hm hflight := by
    have hrow := Table.get?_of_mem hm
    obtain ⟨id, hid⟩ := Option.ne_none_iff_exists'.mp (h.inFlight m.id m hrow hflight)
    exact ⟨id, hid, h.linked m.id id ⟨m, hrow, hid⟩⟩

theorem NoDangling.sound {s : Pg} (h : NoDangling s.committed) (hlocks : s.locks = []) :
    Sound s := by
  have hfree : ∀ t row, ¬s.Holds t row := by
    intro t row hrow
    rw [Versions.Holds, hlocks] at hrow
    cases hrow
  constructor
  · rintro f id ⟨m, hm, hid⟩
    exact h.linked m (Table.get?_mem hm) id hid
  · intro f m hm hflight
    obtain ⟨id, hid, -⟩ := h.inFlight m (Table.get?_mem hm) hflight
    rw [hid]
    exact Option.some_ne_none id
  · exact fun row t t' ht => absurd ht (hfree t row)
  · exact fun t f m hf => absurd hf (hfree t _)
  · exact fun t id hid => absurd hid (hfree t _)

def Safe (x : Seen) : Prop := Sound x.1

variable {s : Pg} {es : List PgCall} {d : PgConfig}

theorem NoDangling.safe (h : NoDangling s.committed) (hlocks : s.locks = []) : Safe (s, []) :=
  h.sound hlocks

-- Only a commit takes a job away.
theorem removes_of_gone {t : Nat} {op : PgOp} {id : Uuid} (hrow : s.committed.jobs.get? id ≠ none)
    (hgone : (op.exec t s).1.committed.jobs.get? id = none) : op = .commit ∧ Removes t id s := by
  cases op with
  | direct q => exact absurd hgone hrow
  | scan q =>
    refine absurd ?_ hrow
    cases hq : skipsLocked q with
    | false =>
      change (s.scan t q).1.committed.jobs.get? id = none at hgone
      rwa [scan_plain hq] at hgone
    | true =>
      change (s.scan t q).1.committed.jobs.get? id = none at hgone
      rcases scan_claim (s := s) (t := t) hq with heq | ⟨row, -, heq⟩
      · rwa [heq] at hgone
      · rwa [heq, Versions.lock_committed] at hgone
  | lock row =>
    change (s.lock storeRows t row).committed.jobs.get? id = none at hgone
    rw [Versions.lock_committed] at hgone
    exact absurd hgone hrow
  | apply q => exact absurd hgone hrow
  | commit =>
    change (s.commit storeRows t).committed.jobs.get? id = none at hgone
    rw [jobs_commit] at hgone
    split at hgone
    · next hheld => exact ⟨rfl, hheld, hgone, hrow⟩
    · exact absurd hgone hrow

-- Whatever commits, the catalog's links stay sound, and a request deletes only what had one of
-- its statuses when it locked its jobs.
theorem no_dangling_links (hs : NoDangling s.committed) (hlocks : s.locks = [])
    (h : PgRun s es d) :
    NoDangling d.state.committed ∧
      ∀ xs e ys statuses id, es = xs ++ e :: ys → Deletes e.request statuses →
        e.pre.committed.jobs.get? id ≠ none → e.post.committed.jobs.get? id = none →
        Since (fun _ f => f.thread = e.thread ∧ f.op = .apply (.selectJobIds statuses) ∧
            HasStatus statuses f.pre.committed id)
          (fun g => g.thread = e.thread → ∀ l, g.op ≠ .apply (.selectJobIds l)) xs := by
  have hstart : ∀ t r (x x' : Seen), Safe x → postgres.recorded.start t r x = some x' →
      Safe x' := by
    intro t r x x' hx hstart
    rw [recorded_start hstart]
    exact Sound.release hx t
  have hdisturb : ∀ k (x : Seen), Safe x → Safe (postgres.recorded.disturb k x) := by
    intro k x hx
    cases k with
    | elapse n => exact Sound.elapse hx n
    | abort t => exact Sound.release hx t
  obtain ⟨es', hrun, hmem⟩ := h.recorded
  obtain ⟨hcalls, hlast⟩ := hrun.secured postgres_compatible (hs.safe hlocks)
    (fun _ _ _ _ _ hx => hx) hstart hdisturb
    fun _ _ _ _ _ hx hready hguar => Sound.step hx hready hguar.1
  refine ⟨Sound.noDangling hlast, fun xs e ys statuses id heq hdeletes hrow hgone => ?_⟩
  have hpost : e.post = (e.op.exec e.thread e.pre).1 := Run.post_eq h e (by simp [heq])
  rw [hpost] at hgone
  obtain ⟨hop, hremoves⟩ := removes_of_gone hrow hgone
  have hduty : Duty e.thread e.request e.op (e.pre, xs.map ThreadCall.entry) :=
    (hcalls _ (hmem xs e ys heq)).2
  exact Since.of_map (hduty.2 statuses id hdeletes hop hremoves)

end Runs

section Sample

def sampleFinished (id : Uuid) (status : JobStatus) : Job where
  id := id
  sourcePath := "/media/a.mkv"
  library := "movies"
  sourceCodec := "h264"
  qualityValue := 21
  status := status

def sampleRow (id : String) (jobId : Uuid) (status : TranscodeStatus) : MediaFile where
  id := id
  libraryId := "movies"
  filePath := id
  transcodeStatus := status
  jobId := some jobId

def sampleCatalog : Store where
  jobs := (Table.empty.insert (sampleFinished 0 .complete)).insert (sampleFinished 1 .cancelled)
  media := (Table.empty.insert (sampleRow "a" 0 .complete)).insert
    (sampleRow "b" 1 .needsTranscode)
  nextUuid := 2

def samplePg : Pg where
  committed := sampleCatalog
  work _ := sampleCatalog

theorem samplePg_noDangling : NoDangling samplePg.committed where
  linked := by decide +kernel
  inFlight m hm hflight := by
    have hidle : ∀ m ∈ sampleCatalog.media.rows, m.transcodeStatus.inFlight = false := by
      decide +kernel
    rw [hidle m hm] at hflight
    cases hflight

abbrev PgMove := Move Nat PgRequest PgEvent Unit

def pgCalls (t n : Nat) : List PgMove := List.replicate n (.call t ())

def playPg (moves : List PgMove) : Option (List PgCall × PgConfig) :=
  (Config.initial samplePg : PgConfig).playAll postgres moves

theorem playPg_run {moves : List PgMove} {p : List PgCall × PgConfig}
    (h : playPg moves = some p) : PgRun samplePg p.1 p.2 :=
  Run.playAll .refl h

-- The retry has the cancelled job locked when the clearing gets to it.
def retriedFirst : List PgCall × PgConfig :=
  (playPg (.start 0 (.serve (.retry 1)) :: .start 1 (.serve .clearCompleted) :: pgCalls 0 6 ++
    pgCalls 1 2 ++ pgCalls 0 2 ++ pgCalls 1 9 ++ pgCalls 0 6)).get (by decide +kernel)

theorem no_dangling_links_retriedFirst :
    (NoDangling retriedFirst.2.state.committed ∧
      ∀ xs e ys statuses id, retriedFirst.1 = xs ++ e :: ys → Deletes e.request statuses →
        e.pre.committed.jobs.get? id ≠ none → e.post.committed.jobs.get? id = none →
        Since (fun _ f => f.thread = e.thread ∧ f.op = .apply (.selectJobIds statuses) ∧
            HasStatus statuses f.pre.committed id)
          (fun g => g.thread = e.thread → ∀ l, g.op ≠ .apply (.selectJobIds l)) xs) ∧
    retriedFirst.2.state.committed.jobs.rows.map (fun j => (j.id, j.status)) = [(1, .pending)] ∧
    retriedFirst.2.state.committed.media.rows.map (fun m => (m.jobId, m.transcodeStatus)) =
      [(none, .complete), (some 1, .queued)] := by
  have hrun : PgRun samplePg retriedFirst.1 retriedFirst.2 :=
    playPg_run (p := retriedFirst) (Option.some_get _).symm
  exact ⟨no_dangling_links samplePg_noDangling rfl hrun, by decide +kernel, by decide +kernel⟩

end Sample

end TranscodeForge.Links
