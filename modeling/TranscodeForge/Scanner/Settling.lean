import TranscodeForge.Scanner.ScanRows

namespace TranscodeForge.Runner

open Interaction Relational Scheduler Scanner Text

section Bodies

variable {tables : CharTables} {settings : Settings} {t : TaskName} {c : Call} {i : Input}
variable {x y : Seen} {r : Request} {α : Type}

-- What the callers of the door do.
def Foreign : Call → Prop
  | .newScan | .insertScan _ | .updateScan _ _ _ | .finish | .closeDb => False
  | _ => True

theorem Foreign.minds (hphase : x.1.phase t = some .running) (hc : Foreign c)
    (hstarter : (∃ m, t = .request m) ∨ t = .scheduledScans) :
    Minds settings t c x (step t c i x) := by
  refine .bystander hphase ?_ (fun _ _ => hstarter) (fun hp => ?_) fun hp => ?_
  · cases c with
    | newScan => exact hc
    | insertScan row => exact hc
    | updateScan id counts status => exact hc
    | _ => trivial
  · subst hp
    exact hc.elim
  · subst hp
    exact hc.elim

theorem act_foreign (hc : Foreign c) : (act c).Calls Foreign :=
  ⟨hc, fun _ => Program.Calls.ofExcept _⟩

theorem startEach_foreign (limit : Int) (libs : List Library) (names : List String × List String) :
    (startEach limit libs names).Calls Foreign := by
  induction libs generalizing names with
  | nil => trivial
  | cons lib libs ih =>
    refine (act_foreign (c := .startScan _) trivial).bind fun started => ?_
    cases started <;> exact ih _

theorem seedLibraries_foreign : (seedLibraries settings).Calls Foreign :=
  (Program.Calls.each fun _ _ => act_foreign (c := .createLibrary _ _ _) trivial).bind fun _ =>
    act_foreign (c := .listLibraries) trivial

theorem allLibraries_foreign : (allLibraries settings).Calls Foreign := by
  refine (act_foreign (c := .listLibraries) trivial).bind fun libs => ?_
  split
  · exact seedLibraries_foreign
  · trivial

theorem triggerScan_foreign (libraryId : Option String) (limit : Int) :
    (triggerScan settings libraryId limit).Calls Foreign := by
  refine allLibraries_foreign.bind fun libs => ?_
  dsimp only
  split
  · trivial
  · refine (startEach_foreign _ _ _).bind fun names => ?_
    split <;> trivial

theorem triggerLibraryScan_foreign (id : String) (maxFiles : Int) :
    (triggerLibraryScan id maxFiles).Calls Foreign := by
  refine (act_foreign (c := .getLibrary id) trivial).bind fun lib => ?_
  cases lib with
  | none => trivial
  | some lib =>
    refine (act_foreign (c := .startScan _) trivial).bind fun started => ?_
    cases started <;> trivial

theorem tickLibrary_foreign (now : Instant) (lib : Library) : (tickLibrary now lib).Calls Foreign := by
  unfold tickLibrary
  split
  · refine (act_foreign (c := .latestStartedAt _) trivial).bind fun last => ?_
    split
    · refine (act_foreign (c := .startScan _) trivial).bind fun started => ?_
      cases started with
      | none => trivial
      | some task => exact act_foreign (c := .awaitScan task) trivial
    · trivial
  · trivial

theorem tick_foreign : tick.Calls Foreign :=
  (act_foreign (c := .clock) trivial).bind fun now =>
    (act_foreign (c := .listLibraries) trivial).bind fun _ =>
      Program.Calls.each fun lib _ => tickLibrary_foreign now lib

theorem runScheduledScans_foreign (ticks : Nat) : (runScheduledScans ticks).Calls Foreign := by
  induction ticks with
  | zero => trivial
  | succ ticks ih =>
    refine (tick_foreign.rescue fun e => ?_).bind fun _ =>
      (act_foreign (c := .sleep) trivial).bind fun _ => ih
    split <;> trivial

abbrev Runs (tables : CharTables) (settings : Settings) (t : TaskName) (r : Request)
    (p : Coroutine α) (Q : Except Error α → Seen → Prop) (x : Seen) : Prop :=
  p.wp (server tables settings).traced t (lifecycle settings t r) Q x

theorem foreign_wp {p : Coroutine α} (hp : p.Calls Foreign)
    (hstarter : (∃ m, t = .request m) ∨ t = .scheduledScans) (hx : x.1.phase t = some .running) :
    Runs tables settings t r p (fun _ y => y.1.phase t = some .running) x :=
  Program.wp_of_calls hp hx (fun _ _ hy hxy => hxy.phase hy) fun c i y hc hy _ _ => by
    refine ⟨hc.minds hy hstarter, next_phase hy fun _ hfinish => ?_⟩
    subst hfinish
    exact hc

theorem scheduledScans_wp (ticks : Nat) (hx : x.1.phase .scheduledScans = some .running) :
    Runs tables settings .scheduledScans r
      (supervised ((act .begin).bind fun _ => runScheduledScans ticks)) (fun _ _ => True) x := by
  have hcalls : ((act .begin).bind fun _ => runScheduledScans ticks).Calls Foreign :=
    (act_foreign (c := .begin) trivial).bind fun _ => runScheduledScans_foreign ticks
  refine Program.wp_seq (R := fun _ y => y.1.phase .scheduledScans = some .running)
    ((Program.wp_attempt _ _ _).mpr (foreign_wp hcalls (.inr rfl) hx)) (fun o y hy => ?_)
    fun _ _ _ => trivial
  cases o with
  | ok _ => trivial
  | error e =>
    refine Program.wp_call_of (P := fun z => z.1.phase .scheduledScans = some .running) hy
      (fun _ _ hz hxy => hxy.phase hz) fun i z hz _ _ => ⟨?_, trivial⟩
    exact .bystander hz trivial (fun p hp => by cases hp) (fun hp => by cases hp)
      fun _ m hm => by cases hm

theorem Listed.here (hadmitted : x.1.Admitted) (hdone : x.1.scheduler = .done) :
    Listed (step t .liveScans i x) x.1.liveScans := by
  refine ⟨x.2, _, [], rfl, rfl, .refl _, hdone, fun m _ hlive => ?_⟩
  exact hadmitted.mem_liveScans.mpr (Server.isLive_iff.mp hlive)

theorem Listed.gathered {live : List Nat} (h : Listed x live)
    (hdead : ∀ m ∈ live, x.1.isLive m = false) : Listed x [] := by
  obtain ⟨us, f, vs, hx, hop, hages, hdone, hlive⟩ := h
  refine ⟨us, f, vs, hx, hop, hages, hdone, fun m hm hnow => ?_⟩
  rw [hdead m (hlive m hm hnow)] at hnow
  cases hnow

theorem cancelAll_wp (hx : x.1.scheduler = .done) :
    Runs tables settings .lifespan r cancelAll (fun _ y => Listed y []) x := by
  refine Program.wp_call_of (P := fun y => y.1.scheduler = .done) hx
    (fun _ _ hy hxy => hxy.ages.scheduler hy) fun i y hy _ hassume => ⟨.idles rfl trivial, ?_⟩
  have hlisted : Listed (step .lifespan .liveScans i y) y.1.liveScans := .here hassume.1 hy
  change Runs tables settings .lifespan r
    (if y.1.liveScans = [] then pure () else act (.gather y.1.liveScans)) _ _
  split
  · next hempty =>
    rw [hempty] at hlisted
    exact hlisted
  · refine Program.wp_call_of (P := fun z => Listed z y.1.liveScans) hlisted
      (fun _ _ hz hxy => hz.undisturbed hxy) fun j z hz hready _ => ⟨.idles rfl trivial, ?_⟩
    have hall : (y.1.liveScans.all fun m => !z.1.isLive m) = true := hready
    have hdead : ∀ m ∈ y.1.liveScans, z.1.isLive m = false := by
      simpa using hall
    exact (hz.gathered hdead).later Server.Ages.next ⟨_, rfl⟩

theorem gatherBackground_wp :
    Runs tables settings .lifespan r (act .gatherBackground) (fun _ y => y.1.scheduler = .done) x :=
  Program.wp_call_of (P := fun _ => True) trivial (fun _ _ _ _ => trivial)
    fun _ _ _ hready _ => ⟨.idles rfl trivial, (Program.wp_ofExcept _ _ _).mpr (of_decide_eq_true hready)⟩

theorem release_wp : Runs tables settings .lifespan r (release.bind fun _ => pure Reply.nothing)
    (fun _ _ => True) x := by
  refine Program.wp_seq (R := fun _ _ => True) ?_ (fun _ _ _ => trivial) fun _ _ _ => trivial
  refine Program.wp_seq gatherBackground_wp (fun _ y hdone => ?_) fun _ _ _ => trivial
  refine Program.wp_seq (cancelAll_wp hdone) (fun _ z hz => ?_) fun _ _ _ => trivial
  refine Program.wp_call_of (P := fun z => Listed z []) hz
    (fun _ _ hu hxy => hu.undisturbed hxy) fun j u hu _ _ => ⟨?_, trivial⟩
  exact .bystander rfl trivial (fun p hp => by cases hp) (fun _ => hu) fun hp => by cases hp

theorem Minds.undisturbed {t' : TaskName} (hne : t' ≠ t) (h : Minds settings t c x (step t c i x)) :
    Undisturbed t' x (step t c i x) where
  phase hx := next_phase hx fun heq => absurd heq hne
  ids j := by
    rcases h.ids with heq | ⟨-, heq⟩
    · rw [heq]
    · rw [heq, List.getElem?_append]
      split
      · rfl
      · next hj =>
        rw [List.getElem?_eq_none (by omega : x.1.ids.length ≤ j)]
        constructor
        · intro hget
          have hlen := (List.getElem?_eq_some_iff.mp hget).1
          simp only [List.length_cons, List.length_nil] at hlen
          have hzero : j - x.1.ids.length = 0 := by omega
          rw [hzero] at hget
          exact absurd (Option.some.inj hget).symm hne
        · intro hget
          cases hget
  rows j hj := by
    by_contra hchanged
    obtain ⟨m, -, hown⟩ := h.rows j hchanged
    exact hne (Option.some.inj (hj.symm.trans hown))
  ages := Server.Ages.next
  past := ⟨_, rfl, fun e he => by
    rw [List.mem_singleton.mp he]
    exact hne.symm⟩

end Bodies

section Invariant

variable {tables : CharTables} {settings : Settings} {rows : Table Nat Scan Scan.id} {now : Instant}
variable {t : TaskName} {c : Call} {i : Input} {x y : Seen} {r : Request} {s : Server} {n : Nat}

def Begun (n : Nat) (s : Server) : Prop :=
  s.phase (.scan n) = some .running ∨ s.phase (.scan n) = some .done

-- A scan that is done has its row settled, and every row is a scan's or an earlier process's.
structure Sound (settings : Settings) (rows : Table Nat Scan Scan.id) (now : Instant) (x : Seen) :
    Prop where
  admitted : x.1.Admitted
  drawn : Drawn x.1
  named : ∀ n, ∀ j : Nat, x.1.ids[j]? = some (.scan n) → Begun n x.1
  called : ∀ n, ∀ e ∈ x.2, e.thread = .scan n → Begun n x.1
  settled : ∀ n, x.1.phase (.scan n) = some .done → Settled settings n x
  origin : ∀ row ∈ x.1.rows, (∃ n, x.1.ids[row.id]? = some (.scan n)) ∨
    row ∈ (Server.boot settings rows now).rows

theorem Begun.next (h : Begun n s) : Begun n (next t c i s) := by
  rcases h with h | h
  · by_cases hends : TaskName.scan n = t ∧ c = .finish
    · obtain ⟨rfl, rfl⟩ := hends
      obtain ⟨task, hget, -⟩ := Option.map_eq_some_iff.mp h
      refine .inr ?_
      change ((s.finish (.scan n)).tasks[n]?).map _ = _
      rw [finish_tasks, if_pos rfl, hget]
      rfl
    · exact .inl (next_phase h fun heq hc => hends ⟨heq, hc⟩)
  · exact .inr (next_done h)

theorem Begun.start {s' : Server} (hs : start t r s = some s') (h : Begun n s) : Begun n s' :=
  h.imp (fun h => start_phase hs h (fun hp => by cases hp))
    fun h => start_phase hs h (fun hp => by cases hp)

-- A task that is new has not begun.
theorem next_unbegun (h : s.phase (.scan n) = none) : (next t c i s).phase (.scan n) ≠ some .done := by
  have hnone : s.tasks[n]? = none := Option.map_eq_none_iff.mp h
  intro hdone
  obtain ⟨task, hget, hphase⟩ := Option.map_eq_some_iff.mp hdone
  rcases next_cases t c i s with rfl | ⟨p, rfl⟩ | ⟨htasks, -⟩
  · change (s.finish t).tasks[n]? = _ at hget
    rw [finish_tasks, hnone] at hget
    split at hget <;> cases hget
  · change (s.startScan p).1.tasks[n]? = _ at hget
    cases hbusy : (s.scans.get? p.libraryId).any fun slot => s.isLive slot.task with
    | true =>
      rw [startScan_busy hbusy, hnone] at hget
      cases hget
    | false =>
      rw [(startScan_free hbusy).2.1, List.getElem?_append_right
        (List.getElem?_eq_none_iff.mp hnone)] at hget
      obtain ⟨hlen, heq⟩ := List.getElem?_eq_some_iff.mp hget
      simp only [List.length_cons, List.length_nil] at hlen
      simp only [show n - s.tasks.length = 0 by omega, List.getElem_cons_zero] at heq
      rw [← heq] at hphase
      cases hphase
  · rw [htasks, hnone] at hget
    cases hget

theorem done_before (hdone : (next t c i s).phase (.scan n) = some .done)
    (hne : TaskName.scan n = t → c ≠ .finish) : s.phase (.scan n) = some .done := by
  cases h : s.phase (.scan n) with
  | none => exact absurd hdone (next_unbegun h)
  | some p => rw [← hdone, next_phase h hne]

theorem Minds.ids_grow (h : Minds settings t c x y) : x.1.ids <+: y.1.ids := by
  rcases h.ids with heq | ⟨-, heq⟩
  · rw [heq]
  · rw [heq]
    exact List.prefix_append _ _

theorem Minds.keeps_id {j : Nat} {t' : TaskName} (h : Minds settings t c x y)
    (hj : x.1.ids[j]? = some t') : y.1.ids[j]? = some t' := by
  obtain ⟨rest, hrest⟩ := h.ids_grow
  rw [← hrest, List.getElem?_append_left (List.getElem?_eq_some_iff.mp hj).1, hj]

-- A row that is there after a call was there before it, or is the caller's.
theorem Minds.row_cases (h : Minds settings t c x y) {row : Scan} (hrow : row ∈ y.1.rows) :
    row ∈ x.1.rows ∨ ∃ m, t = .scan m ∧ x.1.ids[row.id]? = some t := by
  by_cases hsame : y.1.rows.get? row.id = x.1.rows.get? row.id
  · exact .inl (Table.get?_mem (hsame.symm.trans (Table.get?_of_mem hrow)))
  · exact .inr (h.rows row.id hsame)

theorem Sound.call (hx : Sound settings rows now x) (h : Minds settings t c x (step t c i x)) :
    Sound settings rows now (step t c i x) where
  admitted := hx.admitted.next
  drawn row hrow := by
    refine lt_of_lt_of_le ?_ h.ids_grow.length_le
    rcases h.row_cases hrow with hbefore | ⟨m, -, hown⟩
    · exact hx.drawn row hbefore
    · exact (List.getElem?_eq_some_iff.mp hown).1
  named n j hj := by
    rcases h.ids with heq | ⟨-, heq⟩
    · rw [heq] at hj
      exact (hx.named n j hj).next
    · rw [heq, List.getElem?_append] at hj
      split at hj
      · exact (hx.named n j hj).next
      · have hmem : TaskName.scan n ∈ [t] := List.mem_of_getElem? hj
        obtain rfl := List.mem_singleton.mp hmem
        exact Begun.next (.inl h.phase)
  called n e he hthread := by
    rcases List.mem_append.mp he with he | he
    · exact (hx.called n e he hthread).next
    · rw [List.mem_singleton.mp he] at hthread
      obtain rfl : t = .scan n := hthread
      exact Begun.next (.inl h.phase)
  settled n hdone := by
    by_cases hends : TaskName.scan n = t ∧ c = .finish
    · obtain ⟨rfl, rfl⟩ := hends
      exact h.settled rfl n rfl
    · have hbefore := done_before hdone fun heq hc => hends ⟨heq, hc⟩
      have hne : TaskName.scan n ≠ t := by
        rintro rfl
        have hrunning := h.phase
        rw [hbefore] at hrunning
        cases hrunning
      exact (hx.settled n hbefore).undisturbed (h.undisturbed hne)
  origin row hrow := by
    rcases h.row_cases hrow with hbefore | ⟨m, rfl, hown⟩
    · exact (hx.origin row hbefore).imp_left fun ⟨n, hn⟩ => ⟨n, h.keeps_id hn⟩
    · exact .inl ⟨m, h.keeps_id hown⟩

theorem start_table {s' : Server} (hs : start t r s = some s') : s'.rows = s.rows ∧ s'.ids = s.ids := by
  rcases start_cases hs with ⟨m, q, rfl, rfl, -, rfl⟩ | ⟨-, -, rfl⟩ | ⟨-, -, rfl⟩ <;>
    exact ⟨rfl, rfl⟩

theorem start_done {s' : Server} (hs : start t r s = some s') (h : s'.phase (.scan n) = some .done) :
    s.phase (.scan n) = some .done := by
  rcases start_cases hs with ⟨m, q, rfl, rfl, -, rfl⟩ | ⟨-, -, rfl⟩ | ⟨-, -, rfl⟩
  · change ((s.modifyTask (.scan m) _).tasks[n]?).map _ = _ at h
    rw [get?_modifyTask] at h
    split at h
    · cases hget : s.tasks[n]? <;> simp [hget] at h
    · exact h
  · exact h
  · exact h

theorem Sound.start {s' : Server} (hx : Sound settings rows now x) (hs : start t r x.1 = some s') :
    Sound settings rows now (s', x.2) := by
  obtain ⟨hrows, hids⟩ := start_table hs
  constructor
  · exact hx.admitted.start hs
  · simp only [Drawn, hrows, hids]
    exact hx.drawn
  · intro n j hj
    rw [hids] at hj
    exact (hx.named n j hj).start hs
  · exact fun n e he hthread => (hx.called n e he hthread).start hs
  · intro n hdone
    refine (hx.settled n (start_done hs hdone)).congr (fun j => ?_) (fun j _ => ?_) rfl rfl
    · rw [hids]
    · rw [hrows]
  · simp only [hrows, hids]
    exact hx.origin

theorem Undisturbed.start {s' : Server} {t' : TaskName} (hs : start t' r x.1 = some s') :
    Undisturbed t x (s', x.2) := by
  obtain ⟨hrows, hids⟩ := start_table hs
  refine ⟨fun hx => start_phase hs hx (fun hp => by cases hp), fun j => ?_, fun j _ => ?_,
    .start hs, [], by simp, fun e he => by cases he⟩
  · rw [hids]
  · rw [hrows]

theorem flagged_false {p : Call → Input → Bool} {h : List Past} (hh : ∀ e ∈ h, e.thread ≠ .scan n) :
    flagged n p h = false := by
  have hother := flagged_other (p := p) (h := []) hh
  exact hother

theorem Idle.of_start {p : ScanParams} (hx : Sound settings rows now x)
    (hcreated : x.1.tasks[n]? = some { params := p }) :
    Idle settings n (x.1.modifyTask (.scan n) fun task => { task with phase := .running }, x.2) := by
  have hnot : ¬Begun n x.1 := by
    rintro (h | h)
    · change (x.1.tasks[n]?).map _ = _ at h
      rw [hcreated] at h
      cases h
    · change (x.1.tasks[n]?).map _ = _ at h
      rw [hcreated] at h
      cases h
  have hpast : ∀ e ∈ x.2, e.thread ≠ .scan n := fun e he hthread => hnot (hx.called n e he hthread)
  refine ⟨?_, fun j hj => hnot (hx.named n j hj), flagged_false hpast, flagged_false hpast⟩
  change ((x.1.modifyTask (.scan n) _).tasks[n]?).map _ = _
  rw [get?_modifyTask, if_pos rfl, hcreated]
  rfl

theorem body_wp {s' : Server} (hx : Sound settings rows now x) (hs : start t r x.1 = some s') :
    Runs tables settings t r (r.body tables settings) (fun _ _ => True) (s', x.2) := by
  cases r with
  | scan p =>
    rcases start_cases hs with ⟨m, q, rfl, -, hcreated, rfl⟩ | ⟨rfl, -⟩ | ⟨hscan, -⟩
    · exact scan_wp (.of_start hx hcreated)
    · cases hs
    · cases t with
      | scan n => exact absurd rfl (hscan n)
      | _ => cases hs
  | triggerScan libraryId limit =>
    cases t with
    | request m =>
      exact Program.wp_mono (foreign_wp (triggerScan_foreign libraryId limit) (.inl ⟨m, rfl⟩) rfl)
        fun _ _ _ => trivial
    | _ => cases hs
  | triggerLibraryScan id maxFiles =>
    cases t with
    | request m =>
      exact Program.wp_mono (foreign_wp (triggerLibraryScan_foreign id maxFiles) (.inl ⟨m, rfl⟩) rfl)
        fun _ _ _ => trivial
    | _ => cases hs
  | scheduledScans ticks =>
    rcases start_cases hs with ⟨m, q, -, hr, -⟩ | ⟨rfl, -, rfl⟩ | ⟨-, hloop, -⟩
    · cases hr
    · exact scheduledScans_wp ticks rfl
    · cases t with
      | scheduledScans => exact absurd rfl hloop
      | _ => cases hs
  | release =>
    cases t with
    | lifespan => exact release_wp
    | _ => cases hs

theorem recorded_start {x' : Seen} (hs : (server tables settings).recorded.start t r x = some x') :
    ∃ s', start t r x.1 = some s' ∧ x' = (s', x.2) := by
  obtain ⟨s', hs', heq⟩ := Option.map_eq_some_iff.mp hs
  exact ⟨s', hs', heq.symm⟩

theorem lifecycle_upholds : Upholds (server tables settings).recorded (lifecycle settings)
    (Sound settings rows now) where
  refl t _ x := .refl t x
  trans _ _ _ _ _ h h' := h.trans h'
  assume _ _ _ _ _ hx := ⟨hx.admitted, hx.drawn⟩
  body t r x x' hx hs := by
    obtain ⟨s', hs', rfl⟩ := recorded_start hs
    exact body_wp hx hs'
  call t r t' r' c i x hne _ _ hguar := Minds.undisturbed hne.symm hguar
  start t r t' r' x x' _ hs := by
    obtain ⟨s', hs', rfl⟩ := recorded_start hs
    exact .start hs'
  disturb _ _ k := k.elim
  keeps_call _ _ _ _ _ hx _ hguar := hx.call hguar
  keeps_start t r x x' hx hs := by
    obtain ⟨s', hs', rfl⟩ := recorded_start hs
    exact hx.start hs'
  keeps_disturb k := k.elim

theorem lt_drawn {rs : List Scan} {row : Scan} (h : row ∈ rs) :
    row.id < rs.foldr (fun r n => max (r.id + 1) n) 0 := by
  induction rs with
  | nil => cases h
  | cons r rs ih =>
    rw [List.foldr_cons]
    rcases List.mem_cons.mp h with rfl | h
    · exact lt_of_lt_of_le (Nat.lt_succ_self _) (le_max_left _ _)
    · exact lt_of_lt_of_le (ih h) (le_max_right _ _)

theorem boot_ids : (Server.boot settings rows now).ids =
    List.replicate (rows.rows.foldr (fun r n => max (r.id + 1) n) 0) .lifespan := by
  unfold Server.boot
  split <;> rfl

theorem mem_failRunning {row : Scan} : row ∈ (s.failRunning now).rows ↔
    ∃ r ∈ s.rows, (if decide (r.status = .running) then r.ended .failed now else r) = row :=
  List.mem_map

-- A row that a process finds says that its scan is running in a demo only.
theorem boot_rows {row : Scan} (h : row ∈ (Server.boot settings rows now).rows) :
    (∃ r ∈ rows, r.id = row.id) ∧ (row.status = .running → settings.demoMode = true ∧ row ∈ rows) := by
  unfold Server.boot at h
  split at h
  · next hdemo => exact ⟨⟨row, h, rfl⟩, fun _ => ⟨hdemo, h⟩⟩
  · obtain ⟨r, hr, rfl⟩ := mem_failRunning.mp h
    split
    · exact ⟨⟨r, hr, rfl⟩, fun hrunning => by cases hrunning⟩
    · next hnot => exact ⟨⟨r, hr, rfl⟩, fun hrunning => absurd hrunning (by simpa using hnot)⟩

theorem boot_sound : Sound settings rows now (Server.boot settings rows now, []) where
  admitted := boot_admitted
  drawn row hrow := by
    obtain ⟨⟨r, hr, hid⟩, -⟩ := boot_rows hrow
    rw [boot_ids, List.length_replicate, ← hid]
    exact lt_drawn hr
  named n j hj := by
    rw [boot_ids] at hj
    exact absurd (List.eq_of_mem_replicate (List.mem_of_getElem? hj)) (by simp)
  called n e he := by cases he
  settled n hdone := by
    simp [Server.phase] at hdone
  origin row hrow := .inr hrow

variable {es : List (ThreadCall TaskName Request Call Server Input)}
variable {d : Config TaskName Request Call Call.Answer Server Error Reply}

-- The scan opened its row, and then a failure that no handler of it answers, or a closing that is
-- lost, left the row open.
def Stranded (settings : Settings) (n : Nat)
    (es : List (ThreadCall TaskName Request Call Server Input)) : Prop :=
  (∃ e ∈ es, e.thread = .scan n ∧ e.op.opens e.input = true) ∧
    ∃ e ∈ es, e.thread = .scan n ∧ e.op.strands settings e.input = true

theorem Run.lived (h : Run (server tables settings) (.initial (Server.boot settings rows now)) es d) :
    (∀ xs e ys, es = xs ++ e :: ys →
      Sound settings rows now (e.pre, xs.map ThreadCall.entry) ∧
        Minds settings e.thread e.op (e.pre, xs.map ThreadCall.entry)
          (e.post, (xs ++ [e]).map ThreadCall.entry)) ∧
      Sound settings rows now (d.state, es.map ThreadCall.entry) := by
  obtain ⟨es', hrun, hmem⟩ := h.recorded
  obtain ⟨hcalls, hlast, -⟩ := hrun.upheld lifecycle_upholds boot_sound
  exact ⟨fun xs e ys heq => hcalls _ (hmem xs e ys heq), hlast⟩

theorem flagged_iff {p : Call → Input → Bool} : flagged n p (es.map ThreadCall.entry) = true ↔
    ∃ e ∈ es, e.thread = .scan n ∧ p e.op e.input = true := by
  rw [flagged, List.any_map, List.any_eq_true]
  refine exists_congr fun e => and_congr_right' ?_
  change (decide (e.thread = .scan n) && p e.op e.input) = true ↔ _
  rw [Bool.and_eq_true, decide_eq_true_eq]

theorem Run.ages
    (h : Run (server tables settings) (.initial (Server.boot settings rows now)) es d) :
    ∀ xs e ys, es = xs ++ e :: ys → ∀ f ∈ xs, f.pre.Ages e.pre := by
  refine (h.history_invariant (P := fun s es => ∀ f ∈ es, f.pre.Ages s) (A := fun _ _ => True)
    (fun _ _ _ _ => trivial) (fun f hf => by cases hf) (fun t r s s' es hs hstart f hf => ?_)
    (fun k => k.elim) fun e es hpost _ hs f hf => ?_).1
  · exact (hs f hf).trans (.start hstart)
  · have hage : e.pre.Ages e.post := by
      rw [hpost]
      exact .next
    rcases List.mem_append.mp hf with hf | hf
    · exact (hs f hf).trans hage
    · rw [List.mem_singleton.mp hf]
      exact hage

-- A scan that is live when the database closes was started, by a request, after the shutdown had
-- listed the live ones.
theorem scans_outlived
    (h : Run (server tables settings) (.initial (Server.boot settings rows now)) es d) :
    ∀ xs e ys, es = xs ++ e :: ys → e.op = .closeDb →
      ∃ us f vs, xs = us ++ f :: vs ∧ f.op = .liveScans ∧
        (∀ n, e.pre.isLive n = true → f.pre.tasks.length ≤ n) ∧
        ∀ g ∈ vs, ∀ p, g.op = .startScan p → ∃ m, g.thread = .request m := by
  intro xs e ys heq hop
  obtain ⟨hcalls, -⟩ := Run.lived h
  obtain ⟨us', f', vs', hxs, hlive, hages, hdone, hlisted⟩ := (hcalls xs e ys heq).2.closing hop
  obtain ⟨us, f, vs, rfl, rfl, rfl, rfl⟩ := map_split hxs
  refine ⟨us, f, vs, rfl, hlive, fun n hn => ?_, fun g hg p hstart => ?_⟩
  · by_contra hlt
    cases hlisted n (Nat.lt_of_not_le hlt) hn
  · obtain ⟨as, bs, rfl⟩ := List.append_of_mem hg
    have hsplit : es = (us ++ f :: as) ++ g :: (bs ++ e :: ys) := by simp [heq]
    obtain ⟨-, hminds⟩ := hcalls _ g _ hsplit
    refine (hminds.starts p hstart).resolve_right fun hloop => ?_
    have hover : g.pre.scheduler = .done :=
      (Run.ages h _ g _ hsplit f (by simp)).scheduler hdone
    have hrunning : g.pre.phase g.thread = some .running := hminds.phase
    rw [hloop] at hrunning
    cases hrunning.symm.trans (congrArg some hover)

end Invariant

section Sample

-- The scan walks an empty library, and the last write of its row is lost.
def stranded : ServerRun :=
  (play {} (sampleTriggers ++ calls (.scan 0) 6 ++
    [.call (.scan 0) { write := .lost .database }] ++ calls (.scan 0) 1)).get (by decide +kernel)

def strandedRow : Scan := (stranded.2.state.rows.get? 0).get (by decide +kernel)

-- The shutdown ends the loop, and cancels the scan as it walks.
def closed : ServerRun :=
  (play {} (sampleTriggers ++ calls (.scan 0) 5 ++
    [.start .scheduledScans (.scheduledScans 1),
      .call .scheduledScans { error := some .cancelled }] ++ calls .scheduledScans 1 ++
    .start .lifespan .release :: calls .lifespan 2 ++
    [.call (.scan 0) { error := some .cancelled }] ++ calls (.scan 0) 3 ++
    calls .lifespan 2)).get (by decide +kernel)

def closing : ThreadCall TaskName Request Call Server Input := closed.1[20]?.get (by decide +kernel)

theorem scans_outlived_closed :
    (∃ us f vs, closed.1.take 20 = us ++ f :: vs ∧ f.op = .liveScans ∧
      (∀ n, closing.pre.isLive n = true → f.pre.tasks.length ≤ n) ∧
      ∀ g ∈ vs, ∀ p, g.op = .startScan p → ∃ m, g.thread = .request m) ∧
    closing.pre.rows.rows.map Scan.status = [.failed] :=
  ⟨scans_outlived (play_run (p := closed) (Option.some_get _).symm) _ closing _
    (split_at (show closed.1[20]? = some closing from (Option.some_get _).symm)) (by decide +kernel),
    by decide +kernel⟩

end Sample

end TranscodeForge.Runner
