import TranscodeForge.Scanner.Door

namespace TranscodeForge.Runner

open Interaction Relational Scheduler Scanner Text

abbrev Past : Type := Entry TaskName Call Server Input

abbrev Seen : Type := Traced TaskName Call Server Input

namespace Server

def phase (s : Server) : TaskName → Option Phase
  | .scan n => (s.tasks[n]?).map ScanTask.phase
  | .scheduledScans => some s.scheduler
  | _ => some .running

-- What time does to a process.
structure Ages (s s' : Server) : Prop where
  tasks : s.tasks.length ≤ s'.tasks.length
  done : ∀ n < s.tasks.length, s.isLive n = false → s'.isLive n = false
  scheduler : s.scheduler = .done → s'.scheduler = .done

theorem Ages.refl (s : Server) : Ages s s := ⟨le_rfl, fun _ _ h => h, id⟩

theorem Ages.trans {s s' s'' : Server} (h : Ages s s') (h' : Ages s' s'') : Ages s s'' where
  tasks := h.tasks.trans h'.tasks
  done n hn hdead := h'.done n (hn.trans_le h.tasks) (h.done n hn hdead)
  scheduler hdone := h'.scheduler (h.scheduler hdone)

end Server

def lost : Write → Bool
  | .lost _ => true
  | _ => false

namespace Call

-- The insertion of a row that says its scan is running.
def opens : Call → Input → Bool
  | insertScan row, i => row.status = .running && !lost i.write
  | _, _ => false

-- A failure that no handler of the scan answers by closing its row, and a closing that is lost.
def strands (settings : Settings) : Call → Input → Bool
  | insertScan _, i => i.write ≠ .done
  | commit .creation, i | commit .scan, i => i.error.isSome
  | updateScan _ _ (some _), i => lost i.write
  | lookup _, i | upsert _, i => settings.demoMode && i.error.isSome
  | randomFiles limit, i => !(Runner.randomFiles limit i.files).isOk
  | _, _ => false

end Call

section Stages

variable (settings : Settings) (n k : Nat)

def flagged (p : Call → Input → Bool) (h : List Past) : Bool :=
  h.any fun e => e.thread = .scan n && p e.op e.input

-- What there is to know of a scan's row.
structure Stage where
  status : Option ScanStatus
  opened : Bool
  failed : Bool
deriving DecidableEq, Repr

def stage (x : Seen) : Stage where
  status := (x.1.rows.get? k).map Scan.status
  opened := flagged n Call.opens x.2
  failed := flagged n (Call.strands settings) x.2

def Stage.statusAfter (st : Stage) : Call → Input → Option ScanStatus
  | .insertScan row, i => if lost i.write then st.status else some row.status
  | .updateScan _ _ status, i => if lost i.write then st.status else st.status.map status.getD
  | _, _ => st.status

def Stage.after (c : Call) (i : Input) (st : Stage) : Stage where
  status := st.statusAfter c i
  opened := st.opened || c.opens i
  failed := st.failed || c.strands settings i

def Stage.Settled (st : Stage) : Prop :=
  st.status = some .running ↔ st.opened = true ∧ st.failed = true

-- A row of the scan is running just where it was opened and a failure stranded it.
def Settled (x : Seen) : Prop :=
  (∃ r ∈ x.1.rows, x.1.ids[r.id]? = some (.scan n) ∧ r.status = .running) ↔
    flagged n Call.opens x.2 = true ∧ flagged n (Call.strands settings) x.2 = true

-- A scan at work that has drawn its id.
structure At (st : Stage) (x : Seen) : Prop where
  phase : x.1.phase (.scan n) = some .running
  ids : ∀ j, x.1.ids[j]? = some (.scan n) ↔ j = k
  stage : stage settings n k x = st

-- A scan at work that has not.
structure Idle (x : Seen) : Prop where
  phase : x.1.phase (.scan n) = some .running
  ids : ∀ j : Nat, x.1.ids[j]? ≠ some (.scan n)
  opened : flagged n Call.opens x.2 = false
  failed : flagged n (Call.strands settings) x.2 = false

-- The calls of a scan that has drawn its id.
def Fits (st : Stage) : Call → Prop
  | .insertScan row => row.id = k ∧ st.status = none
  | .updateScan id _ _ => id = k
  | .newScan | .finish | .startScan _ | .closeDb => False
  | _ => True

variable {settings n k}

theorem At.settled {st : Stage} {x : Seen} (h : At settings n k st x) (hst : st.Settled) :
    Settled settings n x := by
  obtain ⟨-, hids, rfl⟩ := h
  refine Iff.trans ?_ hst
  change _ ↔ (x.1.rows.get? k).map Scan.status = some .running
  rw [Option.map_eq_some_iff]
  constructor
  · rintro ⟨r, hr, hid, hstatus⟩
    exact ⟨r, (hids r.id).mp hid ▸ Table.get?_of_mem hr, hstatus⟩
  · rintro ⟨r, hr, hstatus⟩
    exact ⟨r, Table.get?_mem hr, (hids r.id).mpr (Table.get?_key hr), hstatus⟩

theorem Idle.settled {x : Seen} (h : Idle settings n x) : Settled settings n x := by
  rw [Settled, h.opened]
  constructor
  · rintro ⟨r, -, hid, -⟩
    exact absurd hid (h.ids r.id)
  · rintro ⟨hopened, -⟩
    cases hopened

end Stages

section Steps

variable {t : TaskName} {s : Server} {i : Input} {c : Call}

-- The calls that leave the rows and their ids alone.
def Bystander : Call → Prop
  | .newScan | .insertScan _ | .updateScan _ _ _ => False
  | _ => True

theorem exec_table (h : Bystander c) :
    (next t c i s).rows = s.rows ∧ (next t c i s).ids = s.ids := by
  cases c with
  | newScan => exact h.elim
  | insertScan row => exact h.elim
  | updateScan id counts status => exact h.elim
  | startScan p =>
    simp only [next, exec, Server.startScan]
    split <;> exact ⟨rfl, rfl⟩
  | finish =>
    cases t <;> exact ⟨rfl, rfl⟩
  | _ => exact ⟨rfl, rfl⟩

theorem exec_rows (h : Bystander c) : (next t c i s).rows = s.rows := (exec_table h).1

theorem exec_ids (h : Bystander c) : (next t c i s).ids = s.ids := (exec_table h).2

theorem insertScan_next {row : Scan} {w : Write} (hfree : s.rows.get? row.id = none) :
    (s.insertScan row w).1.ids = s.ids ∧ ∀ k, (s.insertScan row w).1.rows.get? k =
      if lost w = false ∧ row.id = k then some row else s.rows.get? k := by
  rw [Server.insertScan, hfree, Option.isSome_none, if_neg Bool.false_ne_true]
  cases w with
  | lost e => exact ⟨rfl, fun k => (if_neg (fun h => by cases h.1)).symm⟩
  | _ =>
    refine ⟨rfl, fun k => ?_⟩
    simp only [lost, true_and]
    exact Table.get?_insert_of_free hfree k

theorem updateScan_next {id : Nat} {counts : Option Counts} {status : Option ScanStatus}
    {now : Instant} {w : Write} :
    (s.updateScan id counts status now w).1.ids = s.ids ∧
    ∀ k, (s.updateScan id counts status now w).1.rows.get? k =
      if lost w = false ∧ id = k then (s.rows.get? k).map (Scan.updated counts status now)
      else s.rows.get? k := by
  unfold Server.updateScan
  cases w with
  | lost e => exact ⟨rfl, fun k => (if_neg (fun h => by cases h.1)).symm⟩
  | _ =>
    refine ⟨rfl, fun k => ?_⟩
    simp only [lost, true_and, Table.get?_update]
    cases hrow : s.rows.get? k with
    | none => simp
    | some r =>
      have hkey : r.id = k := Table.get?_key hrow
      by_cases hid : id = k
      · simp [hkey, hid]
      · simp [hkey, hid, Ne.symm hid]

theorem isLive_of_phase {n : Nat} : s.isLive n = (s.phase (.scan n)).any (· != .done) := by
  rw [Server.isLive, Server.phase, Option.any_map]

theorem next_cases (t : TaskName) (c : Call) (i : Input) (s : Server) :
    c = .finish ∨ (∃ p, c = .startScan p) ∨
      (next t c i s).tasks = s.tasks ∧ (next t c i s).scheduler = s.scheduler := by
  by_cases hfinish : c = .finish
  · exact .inl hfinish
  · by_cases hstart : ∃ p, c = .startScan p
    · exact .inr (.inl hstart)
    · have hdoor : (next t c i s).door = s.door := exec_door (fun p hp => hstart ⟨p, hp⟩) hfinish
      obtain ⟨htasks, hrest⟩ := Prod.mk.inj hdoor
      exact .inr (.inr ⟨htasks, (Prod.mk.inj hrest).2⟩)

theorem startScan_scheduler (p : ScanParams) : (s.startScan p).1.scheduler = s.scheduler := by
  unfold Server.startScan
  split <;> rfl

theorem startScan_extends (p : ScanParams) : s.tasks <+: (s.startScan p).1.tasks := by
  cases hbusy : (s.scans.get? p.libraryId).any fun slot => s.isLive slot.task with
  | true =>
    rw [startScan_busy hbusy]
  | false =>
    rw [(startScan_free hbusy).2.1]
    exact List.prefix_append _ _

theorem phase_congr {s' : Server} {t' : TaskName} {p : Phase} (htasks : s.tasks <+: s'.tasks)
    (hscheduler : s'.scheduler = s.scheduler) (h : s.phase t' = some p) : s'.phase t' = some p := by
  cases t' with
  | scan n =>
    obtain ⟨task, hget, hphase⟩ := Option.map_eq_some_iff.mp h
    obtain ⟨rest, hrest⟩ := htasks
    have hlt := (List.getElem?_eq_some_iff.mp hget).1
    refine Option.map_eq_some_iff.mpr ⟨task, ?_, hphase⟩
    rw [← hrest, List.getElem?_append_left hlt, hget]
  | scheduledScans => exact (congrArg some hscheduler).trans h
  | _ => exact h

-- Only a task itself ends.
theorem next_phase {t' : TaskName} {p : Phase} (h : s.phase t' = some p) (hne : t' = t → c ≠ .finish) :
    (next t c i s).phase t' = some p := by
  rcases next_cases t c i s with rfl | ⟨p', rfl⟩ | ⟨htasks, hscheduler⟩
  · have hother : t' ≠ t := fun heq => hne heq rfl
    cases t' with
    | scan n =>
      change ((s.finish t).tasks[n]?).map _ = _
      rwa [finish_tasks, if_neg (Ne.symm hother)]
    | scheduledScans =>
      cases t with
      | scheduledScans => exact absurd rfl hother
      | _ => exact h
    | _ => exact h
  · exact phase_congr (startScan_extends p') (startScan_scheduler p') h
  · exact phase_congr (htasks ▸ List.prefix_rfl) hscheduler h

theorem next_done {t' : TaskName} (h : s.phase t' = some .done) :
    (next t c i s).phase t' = some .done := by
  by_cases hends : t' = t ∧ c = .finish
  · obtain ⟨rfl, rfl⟩ := hends
    cases t' with
    | scan n =>
      obtain ⟨task, hget, -⟩ := Option.map_eq_some_iff.mp h
      change ((s.finish (.scan n)).tasks[n]?).map _ = _
      rw [finish_tasks, if_pos rfl, hget]
      rfl
    | scheduledScans => rfl
    | _ => cases h
  · exact next_phase h fun heq hc => hends ⟨heq, hc⟩

theorem next_length : s.tasks.length ≤ (next t c i s).tasks.length := by
  rcases next_cases t c i s with rfl | ⟨p, rfl⟩ | ⟨htasks, -⟩
  · cases t with
    | scan n => exact (List.length_modify ..).ge
    | _ => exact le_rfl
  · exact (startScan_extends p).length_le
  · rw [htasks]

theorem phase_of_not_live {n : Nat} (hn : n < s.tasks.length) (hdead : s.isLive n = false) :
    s.phase (.scan n) = some .done := by
  rw [isLive_of_phase, Server.phase, List.getElem?_eq_getElem hn, Option.map_some, Option.any_some,
    bne_eq_false_iff_eq] at hdead
  rw [Server.phase, List.getElem?_eq_getElem hn, Option.map_some, hdead]

theorem not_live_of_phase {n : Nat} (h : s.phase (.scan n) = some .done) : s.isLive n = false := by
  rw [isLive_of_phase, h]
  rfl

theorem Server.Ages.next : s.Ages (Runner.next t c i s) where
  tasks := next_length
  done _ hn hdead := not_live_of_phase (next_done (phase_of_not_live hn hdead))
  scheduler hdone := by
    have hphase : s.phase .scheduledScans = some .done := congrArg some hdone
    exact Option.some.inj (next_done hphase)

theorem start_phase {t' : TaskName} {p : Phase} {r : Request} {s' : Server} (hs : start t r s = some s')
    (h : s.phase t' = some p) (hp : p ≠ .created) : s'.phase t' = some p := by
  rcases start_cases hs with ⟨m, q, rfl, rfl, hcreated, rfl⟩ | ⟨rfl, hcreated, rfl⟩ | ⟨-, -, rfl⟩
  · cases t' with
    | scan n =>
      change ((s.modifyTask (.scan m) _).tasks[n]?).map _ = _
      rw [get?_modifyTask]
      split
      · next heq =>
        change (s.tasks[n]?).map _ = _ at h
        rw [← TaskName.scan.inj heq, hcreated] at h
        cases h
        exact absurd rfl hp
      · exact h
    | scheduledScans => exact h
    | _ => exact h
  · cases t' with
    | scheduledScans =>
      change some s.scheduler = _ at h
      rw [hcreated] at h
      cases h
      exact absurd rfl hp
    | _ => exact h
  · exact h

theorem Server.Ages.start {r : Request} {s' : Server} (hs : Runner.start t r s = some s') : s.Ages s' where
  tasks := by
    rcases start_cases hs with ⟨m, q, rfl, rfl, -, rfl⟩ | ⟨-, -, rfl⟩ | ⟨-, -, rfl⟩
    · exact (List.length_modify ..).ge
    · exact le_rfl
    · exact le_rfl
  done _ hn hdead := not_live_of_phase
    (start_phase hs (phase_of_not_live hn hdead) (fun h => by cases h))
  scheduler hdone := by
    have hphase : s.phase .scheduledScans = some .done := congrArg some hdone
    exact Option.some.inj (start_phase hs hphase (fun h => by cases h))

end Steps

section Contract

variable {tables : CharTables} {settings : Settings} {n k : Nat} {t : TaskName} {c : Call} {i : Input}
variable {x y z : Seen} {st : Stage}

theorem flagged_append {p : Call → Input → Bool} {h : List Past} {e : Past} :
    flagged n p (h ++ [e]) = (flagged n p h || (e.thread = .scan n && p e.op e.input)) := by
  simp [flagged]

theorem flagged_other {p : Call → Input → Bool} {h zs : List Past}
    (hzs : ∀ e ∈ zs, e.thread ≠ .scan n) : flagged n p (h ++ zs) = flagged n p h := by
  rw [flagged, List.any_append, ← flagged, Bool.or_eq_left_iff_imp, List.any_eq_true]
  rintro ⟨e, he, hflag⟩
  rw [Bool.and_eq_true, decide_eq_true_eq] at hflag
  exact absurd hflag.1 (hzs e he)

-- A list of the live scans was taken when the loop had ended, and of those it named only these
-- are still live.
def Listed (x : Seen) (live : List Nat) : Prop :=
  ∃ us f vs, x.2 = us ++ f :: vs ∧ f.op = .liveScans ∧ f.pre.Ages x.1 ∧
    f.pre.scheduler = .done ∧ ∀ m < f.pre.tasks.length, x.1.isLive m = true → m ∈ live

structure Undisturbed (t : TaskName) (x y : Seen) : Prop where
  phase : x.1.phase t = some .running → y.1.phase t = some .running
  ids : ∀ j : Nat, y.1.ids[j]? = some t ↔ x.1.ids[j]? = some t
  rows : ∀ j : Nat, x.1.ids[j]? = some t → y.1.rows.get? j = x.1.rows.get? j
  ages : x.1.Ages y.1
  past : ∃ zs, y.2 = x.2 ++ zs ∧ ∀ e ∈ zs, e.thread ≠ t

structure Minds (settings : Settings) (t : TaskName) (c : Call) (x y : Seen) : Prop where
  phase : x.1.phase t = some .running
  ids : y.1.ids = x.1.ids ∨ (∃ m, t = .scan m) ∧ y.1.ids = x.1.ids ++ [t]
  rows : ∀ j : Nat, y.1.rows.get? j ≠ x.1.rows.get? j → ∃ m, t = .scan m ∧ x.1.ids[j]? = some t
  starts : ∀ p, c = .startScan p → (∃ m, t = .request m) ∨ t = .scheduledScans
  closing : c = .closeDb → Listed x []
  settled : c = .finish → ∀ m, t = .scan m → Settled settings m y

-- Every row's id has been drawn.
def Drawn (s : Server) : Prop := ∀ r ∈ s.rows, r.id < s.ids.length

def lifecycle (settings : Settings) (t : TaskName) (_ : Request) : Contract Call Seen Input where
  rely := Undisturbed t
  assume _ _ x := x.1.Admitted ∧ Drawn x.1
  guar c _ x y := Minds settings t c x y

theorem Undisturbed.refl (t : TaskName) (x : Seen) : Undisturbed t x x :=
  ⟨id, fun _ => Iff.rfl, fun _ _ => rfl, .refl _, [], by simp, fun e he => by cases he⟩

theorem Undisturbed.trans (h : Undisturbed t x y) (h' : Undisturbed t y z) : Undisturbed t x z where
  phase hx := h'.phase (h.phase hx)
  ids j := (h'.ids j).trans (h.ids j)
  rows j hj := (h'.rows j ((h.ids j).mpr hj)).trans (h.rows j hj)
  ages := h.ages.trans h'.ages
  past := by
    obtain ⟨zs, hy, hzs⟩ := h.past
    obtain ⟨zs', hz, hzs'⟩ := h'.past
    refine ⟨zs ++ zs', by rw [hz, hy, List.append_assoc], fun e he => ?_⟩
    rcases List.mem_append.mp he with he | he
    · exact hzs e he
    · exact hzs' e he

theorem At.undisturbed (h : At settings n k st x) (hxy : Undisturbed (.scan n) x y) :
    At settings n k st y where
  phase := hxy.phase h.phase
  ids j := (hxy.ids j).trans (h.ids j)
  stage := by
    obtain ⟨zs, hy, hzs⟩ := hxy.past
    rw [← h.stage, Runner.stage, Runner.stage, hy, flagged_other hzs, flagged_other hzs,
      hxy.rows k ((h.ids k).mpr rfl)]

theorem Idle.undisturbed (h : Idle settings n x) (hxy : Undisturbed (.scan n) x y) :
    Idle settings n y := by
  obtain ⟨zs, hy, hzs⟩ := hxy.past
  refine ⟨hxy.phase h.phase, fun j hj => h.ids j ((hxy.ids j).mp hj), ?_, ?_⟩
  · rw [hy, flagged_other hzs, h.opened]
  · rw [hy, flagged_other hzs, h.failed]

theorem Listed.later {live : List Nat} (h : Listed x live) (hages : x.1.Ages y.1)
    (hpast : ∃ zs, y.2 = x.2 ++ zs) : Listed y live := by
  obtain ⟨us, f, vs, hx, hop, hbefore, hscheduler, hlive⟩ := h
  obtain ⟨zs, hy⟩ := hpast
  refine ⟨us, f, vs ++ zs, by rw [hy, hx]; simp, hop, hbefore.trans hages, hscheduler,
    fun m hm hlater => hlive m hm ?_⟩
  by_contra hdead
  rw [hages.done m (hm.trans_le hbefore.tasks) (by simpa using hdead)] at hlater
  cases hlater

theorem Listed.undisturbed {live : List Nat} (h : Listed x live) (hxy : Undisturbed t x y) :
    Listed y live := by
  obtain ⟨zs, hy, -⟩ := hxy.past
  exact h.later hxy.ages ⟨zs, hy⟩

abbrev step (t : TaskName) (c : Call) (i : Input) (x : Seen) : Seen :=
  (next t c i x.1, x.2 ++ [⟨⟨c, i, x.1, next t c i x.1⟩, t⟩])

theorem Fits.ids (hfits : Fits k st c) (hfree : st.status = none → x.1.rows.get? k = none) :
    (next t c i x.1).ids = x.1.ids := by
  cases c with
  | newScan => exact hfits.elim
  | insertScan row =>
    obtain ⟨rfl, hnone⟩ := hfits
    exact (insertScan_next (hfree hnone)).1
  | updateScan id counts status => exact updateScan_next.1
  | _ => exact exec_ids trivial

theorem At.free (h : At settings n k st x) (hnone : st.status = none) : x.1.rows.get? k = none := by
  rw [← h.stage] at hnone
  exact Option.map_eq_none_iff.mp hnone

theorem At.status (h : At settings n k st x) (hfits : Fits k st c) :
    ((next (.scan n) c i x.1).rows.get? k).map Scan.status = st.statusAfter c i := by
  have hstatus : (x.1.rows.get? k).map Scan.status = st.status := by
    rw [← h.stage]
    rfl
  cases c with
  | newScan => exact hfits.elim
  | insertScan row =>
    obtain ⟨rfl, hnone⟩ := hfits
    rw [show (next (.scan n) (.insertScan row) i x.1).rows.get? row.id = _ from
      (insertScan_next (h.free hnone)).2 row.id, Stage.statusAfter]
    cases lost i.write <;> simp [hstatus]
  | updateScan id counts status =>
    obtain rfl : id = k := hfits
    rw [show (next (.scan n) (.updateScan id counts status) i x.1).rows.get? id = _ from
      updateScan_next.2 id, Stage.statusAfter]
    cases lost i.write with
    | true => simp [hstatus]
    | false =>
      rw [← hstatus]
      simp [Function.comp_def, Scan.updated_status]
  | _ =>
    rw [exec_rows (by trivial)]
    exact hstatus

theorem At.next (h : At settings n k st x) (hfits : Fits k st c) :
    At settings n k (st.after settings c i) (step (.scan n) c i x) where
  phase := by
    refine next_phase h.phase fun _ hfinish => ?_
    subst hfinish
    exact hfits
  ids j := by
    change (Runner.next (.scan n) c i x.1).ids[j]? = _ ↔ _
    rw [hfits.ids h.free]
    exact h.ids j
  stage := by
    rw [Runner.stage, flagged_append, flagged_append]
    simp only [decide_true, Bool.true_and, Stage.after]
    rw [h.status hfits, ← h.stage]
    rfl

theorem At.minds (h : At settings n k st x) (hfits : Fits k st c) :
    Minds settings (.scan n) c x (step (.scan n) c i x) where
  phase := h.phase
  ids := .inl (hfits.ids h.free)
  rows j hj := by
    refine ⟨n, rfl, (h.ids j).mpr ?_⟩
    by_contra hother
    refine hj ?_
    cases c with
    | newScan => exact hfits.elim
    | insertScan row =>
      obtain ⟨rfl, hnone⟩ := hfits
      exact ((insertScan_next (h.free hnone)).2 j).trans (if_neg fun hrow => hother hrow.2.symm)
    | updateScan id counts status =>
      obtain rfl : id = k := hfits
      exact (updateScan_next.2 j).trans (if_neg fun hrow => hother hrow.2.symm)
    | _ => rw [exec_rows (by trivial)]
  starts p hp := by
    subst hp
    exact hfits.elim
  closing hc := by
    subst hc
    exact hfits.elim
  settled hc := by
    subst hc
    exact hfits.elim

-- What a thread may do besides.
def Idles : Call → Prop
  | .newScan | .insertScan _ | .updateScan _ _ _ | .finish | .startScan _ | .closeDb => False
  | _ => True

theorem Idles.bystander (hc : Idles c) : Bystander c := by
  cases c with
  | newScan => exact hc
  | insertScan row => exact hc
  | updateScan id counts status => exact hc
  | _ => trivial

theorem Minds.bystander (hphase : x.1.phase t = some .running) (hc : Bystander c)
    (hstarts : ∀ p, c = .startScan p → (∃ m, t = .request m) ∨ t = .scheduledScans)
    (hclosing : c = .closeDb → Listed x [])
    (hsettled : c = .finish → ∀ m, t = .scan m → Settled settings m (step t c i x)) :
    Minds settings t c x (step t c i x) where
  phase := hphase
  ids := .inl (exec_ids hc)
  rows j hj := absurd (congrArg (·.get? j) (exec_rows hc)) hj
  starts := hstarts
  closing := hclosing
  settled := hsettled

theorem Minds.idles (hphase : x.1.phase t = some .running) (hc : Idles c) :
    Minds settings t c x (step t c i x) := by
  refine .bystander hphase hc.bystander (fun p hp => ?_) (fun hp => ?_) fun hp => ?_
  · subst hp
    exact hc.elim
  · subst hp
    exact hc.elim
  · subst hp
    exact hc.elim

-- A scan that is over leaves its row settled.
def Ready (settings : Settings) (n : Nat) (x : Seen) : Prop :=
  x.1.phase (.scan n) = some .running ∧ Settled settings n x

theorem At.ready (h : At settings n k st x) (hst : st.Settled) : Ready settings n x :=
  ⟨h.phase, h.settled hst⟩

theorem Idle.ready (h : Idle settings n x) : Ready settings n x := ⟨h.phase, h.settled⟩

theorem Settled.congr (h : Settled settings n x)
    (hids : ∀ j : Nat, y.1.ids[j]? = some (.scan n) ↔ x.1.ids[j]? = some (.scan n))
    (hrows : ∀ j : Nat, x.1.ids[j]? = some (.scan n) → y.1.rows.get? j = x.1.rows.get? j)
    (hopened : flagged n Call.opens y.2 = flagged n Call.opens x.2)
    (hfailed : flagged n (Call.strands settings) y.2 = flagged n (Call.strands settings) x.2) :
    Settled settings n y := by
  rw [Settled, hopened, hfailed, ← show _ ↔ _ from h]
  constructor
  · rintro ⟨r, hr, hid, hstatus⟩
    have hown := (hids r.id).mp hid
    exact ⟨r, Table.get?_mem ((hrows _ hown).symm.trans (Table.get?_of_mem hr)), hown, hstatus⟩
  · rintro ⟨r, hr, hid, hstatus⟩
    exact ⟨r, Table.get?_mem ((hrows _ hid).trans (Table.get?_of_mem hr)), (hids r.id).mpr hid, hstatus⟩

theorem Settled.undisturbed (h : Settled settings n x) (hxy : Undisturbed (.scan n) x y) :
    Settled settings n y := by
  obtain ⟨zs, hy, hzs⟩ := hxy.past
  exact h.congr hxy.ids hxy.rows (by rw [hy, flagged_other hzs]) (by rw [hy, flagged_other hzs])

theorem Ready.undisturbed (h : Ready settings n x) (hxy : Undisturbed (.scan n) x y) :
    Ready settings n y :=
  ⟨hxy.phase h.1, h.2.undisturbed hxy⟩

-- The end of a task is none of the calls that count.
theorem Ready.finish (h : Ready settings n x) :
    Minds settings (.scan n) .finish x (step (.scan n) .finish i x) := by
  refine .bystander h.1 trivial (fun p hp => by cases hp) (fun hp => by cases hp) fun _ m hm => ?_
  cases hm
  refine h.2.congr (fun _ => Iff.rfl) (fun _ _ => rfl) ?_ ?_
  · simp [flagged_append, Call.opens]
  · simp [flagged_append, Call.strands]

section Scans

variable {r : Request} {α β : Type} {Q : Except Error α → Seen → Prop}

abbrev Holds (tables : CharTables) (settings : Settings) (n : Nat) (r : Request) (p : Coroutine α)
    (Q : Except Error α → Seen → Prop) (x : Seen) : Prop :=
  p.wp (server tables settings).traced (.scan n) (lifecycle settings (.scan n) r) Q x

theorem At.call_wp {kont : c.Answer → Coroutine α} (h : At settings n k st x) (hfits : Fits k st c)
    (hk : ∀ i y, At settings n k st y → At settings n k (st.after settings c i) (step (.scan n) c i y) →
      Holds tables settings n r (kont (exec (.scan n) c i y.1).2) Q (step (.scan n) c i y)) :
    Holds tables settings n r (.call c kont) Q x :=
  Program.wp_call_of h (fun _ _ hy hxy => hy.undisturbed hxy) fun i y hy _ _ =>
    ⟨hy.minds hfits, hk i y hy (hy.next hfits)⟩

theorem At.act_wp {Q : Except Error c.Result → Seen → Prop} (h : At settings n k st x)
    (hfits : Fits k st c)
    (hk : ∀ i y, At settings n k st y → At settings n k (st.after settings c i) (step (.scan n) c i y) →
      Q (exec (.scan n) c i y.1).2 (step (.scan n) c i y)) :
    Holds tables settings n r (act c) Q x :=
  h.call_wp hfits fun i y hy hnext => (Program.wp_ofExcept _ _ _).mpr (hk i y hy hnext)

-- The calls that change nothing of what counts.
def Tame (settings : Settings) (k : Nat) : Call → Prop
  | .newScan | .insertScan _ | .finish | .startScan _ | .closeDb | .commit .creation
  | .commit .scan | .randomFiles _ => False
  | .updateScan id _ status => id = k ∧ status = none
  | .lookup _ | .upsert _ => settings.demoMode = false
  | _ => True

theorem Tame.fits (hc : Tame settings k c) : Fits k st c := by
  cases c with
  | updateScan id counts status => exact hc.1
  | newScan => exact hc
  | insertScan row => exact hc.elim
  | finish => exact hc
  | startScan p => exact hc
  | closeDb => exact hc
  | _ => trivial

theorem Tame.after (hc : Tame settings k c) (i : Input) : st.after settings c i = st := by
  cases c with
  | updateScan id counts status =>
    obtain ⟨-, rfl⟩ := hc
    rcases st with ⟨status, opened, failed⟩
    cases status <;> simp [Stage.after, Stage.statusAfter, Call.opens, Call.strands]
  | insertScan row => exact hc.elim
  | commit place =>
    cases place with
    | creation => exact hc.elim
    | scan => exact hc.elim
    | _ => simp [Stage.after, Stage.statusAfter, Call.opens, Call.strands]
  | randomFiles limit => exact hc.elim
  | lookup path =>
    have hdemo : settings.demoMode = false := hc
    simp [Stage.after, Stage.statusAfter, Call.opens, Call.strands, hdemo]
  | upsert u =>
    have hdemo : settings.demoMode = false := hc
    simp [Stage.after, Stage.statusAfter, Call.opens, Call.strands, hdemo]
  | _ => simp [Stage.after, Stage.statusAfter, Call.opens, Call.strands]

theorem At.tame_wp {p : Coroutine α} (h : At settings n k st x) (hp : p.Calls (Tame settings k)) :
    Holds tables settings n r p (fun _ y => At settings n k st y) x := by
  refine Program.wp_of_calls hp h (fun _ _ hy hxy => hy.undisturbed hxy) fun c i y hc hy _ _ => ?_
  have hnext := hy.next hc.fits (i := i)
  rw [hc.after] at hnext
  exact ⟨hy.minds hc.fits, hnext⟩

theorem act_tame (hc : Tame settings k c) : (act c).Calls (Tame settings k) :=
  ⟨hc, fun _ => Program.Calls.ofExcept _⟩

theorem updateScan_tame (counts : Option Counts) :
    (updateScan k counts none).Calls (Tame settings k) :=
  (act_tame (c := .updateScan k counts none) ⟨rfl, rfl⟩).bind fun _ => act_tame (c := .commit .update) trivial

theorem fileCall_tame (hdemo : settings.demoMode = false)
    {stat : Coroutine (Except Error Stat)} {probe : Coroutine (Except Error ProbeResult)}
    (hstat : stat.Calls (Tame settings k)) (hprobe : probe.Calls (Tame settings k)) (path : Chars)
    (c : ScanCall) : (fileCall stat probe path c).Calls (Tame settings k) := by
  cases c with
  | lookup => exact ⟨hdemo, fun _ => trivial⟩
  | stat => exact hstat
  | probe => exact hprobe
  | upsert u => exact ⟨hdemo, fun _ => trivial⟩

theorem examineFile_tame (hdemo : settings.demoMode = false) {libraryId : String}
    (f : Found libraryId) : (examineFile f).Calls (Tame settings k) :=
  (Program.calls_true (scanFile f)).expand fun c _ => fileCall_tame hdemo
    (act_tame (c := .stat f.path) trivial).attempt (act_tame (c := .probe f.path) trivial).attempt f.path c

theorem probeS3Object_tame (o : S3Object) : (probeS3Object o).Calls (Tame settings k) := by
  refine (act_tame (c := .probe o.key) trivial).attempt.bind fun presigned => ?_
  split
  · trivial
  · trivial
  · refine (act_tame (c := .headBytes o.key) trivial).attempt.bind fun head => ?_
    split <;> trivial

theorem examineObject_tame (hdemo : settings.demoMode = false) (libraryId : String) (o : S3Object) :
    (examineObject libraryId o).Calls (Tame settings k) :=
  (Program.calls_true (scanFile _)).expand fun c _ => fileCall_tame hdemo (Program.calls_ret _) (probeS3Object_tame o) o.key c

theorem scanFiles_tame {limit : Int} {examine : β → Coroutine Examined}
    {tally : Counts → Examined → Counts} {progress : Counts → Coroutine Unit}
    (hexamine : ∀ f, (examine f).Calls (Tame settings k))
    (hprogress : ∀ n, (progress n).Calls (Tame settings k)) (files : List β) (counts : Counts) :
    (scanFiles limit examine tally progress files counts).Calls (Tame settings k) := by
  induction files generalizing counts with
  | nil => trivial
  | cons f files ih =>
    rw [scanFiles]
    split
    · trivial
    · refine (hexamine f).attempt.bind fun examined => ?_
      cases examined with
      | error e => trivial
      | ok examined =>
        dsimp only
        split
        · refine (hprogress _).attempt.bind fun updated => ?_
          cases updated with
          | error e => trivial
          | ok _ => exact ih _
        · exact ih _

theorem pruneAbsent_tame (libraryId : String) (walked : List Chars) :
    (pruneAbsent libraryId walked).Calls (Tame settings k) := by
  refine (act_tame (c := .pathsForLibrary libraryId) trivial).bind fun known => ?_
  refine (act_tame (c := .gone _) trivial).bind fun gone => ?_
  split
  · trivial
  · exact (act_tame (c := .deleteByIds _) trivial).bind fun _ => trivial

theorem walkLibrary_tame (hdemo : settings.demoMode = false) (p : ScanParams) :
    (walkLibrary tables k p).Calls (Tame settings k) := by
  refine (act_tame (c := .walk p.libraryPath) trivial).attempt.bind fun walked => ?_
  cases walked with
  | error e => trivial
  | ok entries =>
    refine (scanFiles_tame (fun f => examineFile_tame hdemo f) (fun n => ?_) _ _).bind fun counted => ?_
    · exact (updateScan_tame (some n)).bind fun _ => act_tame (c := .commit .progress) trivial
    · dsimp only
      split
      · refine (pruneAbsent_tame _ _).attempt.bind fun removed => ?_
        cases removed <;> trivial
      · trivial

theorem scanPages_tame (hdemo : settings.demoMode = false) (p : ScanParams)
    (pages : List (Option (List S3Object))) (counts : Counts) :
    (scanPages tables p pages counts).Calls (Tame settings k) := by
  induction pages generalizing counts with
  | nil => trivial
  | cons page pages ih =>
    refine (act_tame (c := .nextPage) trivial).attempt.bind fun fetched => ?_
    cases fetched with
    | error e => trivial
    | ok _ =>
      refine (scanFiles_tame (fun o => examineObject_tame hdemo _ o)
        (fun _ => act_tame (c := .commit .progress) trivial) _ _).bind fun counted => ?_
      dsimp only
      split
      · exact ih _
      · trivial

theorem scanListing_tame (hdemo : settings.demoMode = false) (p : ScanParams) :
    (scanListing tables p).Calls (Tame settings k) := by
  refine (act_tame (c := .listing) trivial).attempt.bind fun listed => ?_
  cases listed with
  | error e => trivial
  | ok pages => exact scanPages_tame hdemo p pages {}

theorem scanBucket_tame (hdemo : settings.demoMode = false) (p : ScanParams) :
    (scanBucket tables p).Calls (Tame settings k) := by
  refine (act_tame (c := .openClient) trivial).attempt.bind fun opened => ?_
  cases opened with
  | error e => trivial
  | ok _ =>
    refine (scanListing_tame hdemo p).bind fun counted => ?_
    refine (act_tame (c := .closeClient) trivial).attempt.bind fun closed => ?_
    cases closed <;> trivial

def Write.answer : Write → Except Error Unit
  | .done => .ok ()
  | .lost e | .unsure e => .error e

theorem insertScan_answer {s : Server} {row : Scan} {w : Write} (hfree : s.rows.get? row.id = none) :
    (s.insertScan row w).2 = Write.answer w := by
  rw [Server.insertScan, hfree, Option.isSome_none, if_neg Bool.false_ne_true]
  cases w <;> rfl

-- A scan without a row, and one whose row says it is running.
def Stage.fresh : Stage := ⟨none, false, false⟩

def Stage.created (status : ScanStatus) : Stage := ⟨some status, status = .running, false⟩

def AsFar (settings : Settings) (n k : Nat) (st : Stage) (o : Except Error α) (x : Seen) : Prop :=
  match o with
  | .ok _ => At settings n k st x
  | .error _ => Ready settings n x

-- A call whose every failure strands the row.
structure Strands (settings : Settings) (n k : Nat) (c : Call) : Prop where
  fits : ∀ st, Fits k st c
  status : ∀ i st, Stage.statusAfter st c i = st.status
  opens : ∀ i, c.opens i = false
  strands : ∀ i s, c.strands settings i = !(exec (.scan n) c i s).2.isOk

theorem At.strands_wp {status : ScanStatus} (h : At settings n k (.created status) x)
    (hc : Strands settings n k c) :
    Holds tables settings n r (act c) (AsFar settings n k (.created status)) x := by
  refine h.act_wp (hc.fits _) fun i y hy hnext => ?_
  rw [Stage.after, hc.status, hc.opens, Bool.or_false, hc.strands i y.1] at hnext
  cases hanswer : (exec (.scan n) c i y.1).2 with
  | ok a =>
    rw [hanswer] at hnext
    exact hnext
  | error e =>
    rw [hanswer] at hnext
    refine hnext.ready ?_
    simp [Stage.Settled, Stage.created, Except.isOk, Except.toBool]

theorem reply_isOk {γ : Type} {i : Input} {a : γ} : (i.reply a).isOk = !i.error.isSome := by
  cases herror : i.error <;> simp [Input.reply, herror, Except.isOk, Except.toBool]

theorem commit_strands {place : Commit} (hplace : place = .creation ∨ place = .scan) :
    Strands settings n k (.commit place) := by
  refine ⟨fun _ => trivial, fun _ _ => rfl, fun _ => rfl, fun i s => ?_⟩
  change _ = !(i.reply ()).isOk
  rw [reply_isOk, Bool.not_not]
  rcases hplace with rfl | rfl <;> rfl

theorem demo_strands (hdemo : settings.demoMode = true) (hc : (∃ path, c = .lookup path) ∨
    (∃ u, c = .upsert u) ∨ ∃ limit, c = .randomFiles limit) : Strands settings n k c := by
  rcases hc with ⟨path, rfl⟩ | ⟨u, rfl⟩ | ⟨limit, rfl⟩
  · refine ⟨fun _ => trivial, fun _ _ => rfl, fun _ => rfl, fun i s => ?_⟩
    change (settings.demoMode && _) = !(i.reply i.row).isOk
    rw [reply_isOk, hdemo, Bool.not_not, Bool.true_and]
  · refine ⟨fun _ => trivial, fun _ _ => rfl, fun _ => rfl, fun i s => ?_⟩
    change (settings.demoMode && _) = !(i.reply ()).isOk
    rw [reply_isOk, hdemo, Bool.not_not, Bool.true_and]
  · exact ⟨fun _ => trivial, fun _ _ => rfl, fun _ => rfl, fun _ _ => rfl⟩

theorem createScan_wp {library libraryId : String} {status : ScanStatus}
    (h : At settings n k .fresh x) :
    Holds tables settings n r (createScan k library libraryId status)
      (AsFar settings n k (.created status)) x := by
  refine Program.wp_seq (h.tame_wp (act_tame (c := .clock) trivial)) (fun now y hy => ?_)
    fun e y hy => hy.ready (by simp [Stage.Settled, Stage.fresh])
  refine Program.wp_seq (R := AsFar settings n k (.created status))
    (hy.act_wp (c := .insertScan _) ⟨rfl, rfl⟩ fun i z hz hnext => ?_) (fun _ z hz => ?_)
    fun e z hz => hz
  · rw [show (exec (.scan n) (.insertScan _) i z.1).2 = Write.answer i.write from
      insertScan_answer (hz.free rfl)]
    cases hw : i.write with
    | done =>
      simp [Stage.after, Stage.statusAfter, Call.opens, Call.strands, hw, lost, Stage.fresh] at hnext
      exact hnext
    | lost e =>
      refine hnext.ready ?_
      simp [Stage.Settled, Stage.after, Stage.statusAfter, Call.opens, hw, lost, Stage.fresh]
    | unsure e =>
      refine hnext.ready ?_
      simp [Stage.Settled, Stage.after, Stage.statusAfter, Call.opens, Call.strands, hw, lost,
        Stage.fresh]
  · exact hz.strands_wp (commit_strands (.inl rfl))

-- The closing of a row.
theorem closing_wp {counts : Option Counts} {status : ScanStatus} {opened : ScanStatus}
    (h : At settings n k (.created opened) x) (hstatus : status ≠ .running) :
    Holds tables settings n r (updateScan k counts (some status)) (fun _ y => Ready settings n y) x := by
  refine Program.wp_seq (R := fun _ y => ∃ st, At settings n k st y ∧ st.Settled)
    (h.act_wp (c := .updateScan k counts (some status)) rfl fun i z hz hnext => ?_)
    (fun _ z hz => ?_) fun e z hz => ?_
  · refine ⟨_, hnext, ?_⟩
    cases hlost : lost i.write <;>
      simp [Stage.Settled, Stage.after, Stage.statusAfter, Call.opens, Call.strands, hlost,
        Stage.created, hstatus]
  · obtain ⟨st, hst, hsettled⟩ := hz
    exact Program.wp_mono (hst.tame_wp (act_tame (c := .commit .update) trivial))
      fun _ _ hu => hu.ready hsettled
  · obtain ⟨st, hst, hsettled⟩ := hz
    exact hst.ready hsettled

theorem Idle.step (h : Idle settings n x) (hc : Idles c)
    (hopens : c.opens i = false) (hstrands : c.strands settings i = false) :
    Idle settings n (step (.scan n) c i x) where
  phase := next_phase h.phase fun _ hfinish => by
    subst hfinish
    exact hc
  ids j := by
    change (next (.scan n) c i x.1).ids[j]? ≠ _
    rw [exec_ids hc.bystander]
    exact h.ids j
  opened := by rw [flagged_append, h.opened, hopens, Bool.and_false, Bool.or_false]
  failed := by rw [flagged_append, h.failed, hstrands, Bool.and_false, Bool.or_false]

theorem Idle.act_wp (h : Idle settings n x) (hc : Idles c) (hopens : ∀ i, c.opens i = false)
    (hstrands : ∀ i, c.strands settings i = false) :
    Holds tables settings n r (act c) (fun _ y => Idle settings n y) x :=
  Program.wp_call_of h (fun _ _ hy hxy => hy.undisturbed hxy) fun i _ hy _ _ =>
    ⟨.idles hy.phase hc, (Program.wp_ofExcept _ _ _).mpr (hy.step hc (hopens i) (hstrands i))⟩

theorem Idle.newScan_wp (h : Idle settings n x) :
    Holds tables settings n r (act .newScan)
      (fun o y => ∃ k, o = .ok k ∧ At settings n k .fresh y) x := by
  refine Program.wp_call_of h (fun _ _ hy hxy => hy.undisturbed hxy) fun i y hy _ hassume => ?_
  refine ⟨⟨hy.phase, .inr ⟨⟨n, rfl⟩, rfl⟩, fun j hj => absurd rfl hj, fun p hp => (by cases hp),
    fun hc => (by cases hc), fun hc => (by cases hc)⟩, y.1.ids.length, rfl, hy.phase, fun j => ?_, ?_⟩
  · change (y.1.ids ++ [.scan n])[j]? = _ ↔ _
    rw [List.getElem?_append]
    split
    · next hlt => exact ⟨fun hj => absurd hj (hy.ids j), fun hj => absurd hlt (by omega)⟩
    · next hge =>
      constructor
      · intro hj
        have hlen := (List.getElem?_eq_some_iff.mp hj).1
        simp only [List.length_cons, List.length_nil] at hlen
        omega
      · rintro rfl
        simp
  · have hfree : y.1.rows.get? y.1.ids.length = none :=
      Table.get?_eq_none.mpr fun row hrow => (hassume.2 row hrow).ne
    change (⟨(y.1.rows.get? y.1.ids.length).map Scan.status, flagged n Call.opens (y.2 ++ [_]),
      flagged n (Call.strands settings) (y.2 ++ [_])⟩ : Stage) = _
    rw [hfree, flagged_append, flagged_append, hy.opened, hy.failed]
    simp [Call.opens, Call.strands, Stage.fresh]

theorem scanFiles_noRaise {limit : Int} {examine : β → Coroutine Examined}
    {tally : Counts → Examined → Counts} {progress : Counts → Coroutine Unit} (files : List β)
    (counts : Counts) : (scanFiles limit examine tally progress files counts).NoRaise := by
  induction files generalizing counts with
  | nil => trivial
  | cons f files ih =>
    rw [scanFiles]
    split
    · trivial
    · refine (Program.NoRaise.attempt _).bind fun examined => ?_
      cases examined with
      | error e => trivial
      | ok examined =>
        dsimp only
        split
        · refine (Program.NoRaise.attempt _).bind fun updated => ?_
          cases updated with
          | error e => trivial
          | ok _ => exact ih _
        · exact ih _

theorem walkLibrary_noRaise (p : ScanParams) : (walkLibrary tables k p).NoRaise := by
  refine (Program.NoRaise.attempt _).bind fun walked => ?_
  cases walked with
  | error e => trivial
  | ok entries =>
    refine (scanFiles_noRaise _ _).bind fun counted => ?_
    dsimp only
    split
    · refine (Program.NoRaise.attempt _).bind fun removed => ?_
      cases removed <;> trivial
    · trivial

theorem scanPages_noRaise (p : ScanParams) (pages : List (Option (List S3Object)))
    (counts : Counts) : (scanPages tables p pages counts).NoRaise := by
  induction pages generalizing counts with
  | nil => trivial
  | cons page pages ih =>
    refine (Program.NoRaise.attempt _).bind fun fetched => ?_
    cases fetched with
    | error e => trivial
    | ok _ =>
      refine (scanFiles_noRaise _ _).bind fun counted => ?_
      dsimp only
      split
      · exact ih _
      · trivial

theorem scanBucket_noRaise (p : ScanParams) : (scanBucket tables p).NoRaise := by
  refine (Program.NoRaise.attempt _).bind fun opened => ?_
  cases opened with
  | error e => trivial
  | ok _ =>
    refine Program.NoRaise.bind ?_ fun counted => ?_
    · refine (Program.NoRaise.attempt _).bind fun listed => ?_
      cases listed with
      | error e => trivial
      | ok pages => exact scanPages_noRaise p pages {}
    · refine (Program.NoRaise.attempt _).bind fun closed => ?_
      cases closed <;> trivial

-- A `try` block under an open row, whose handler and whose rest both close it.
theorem guarded_wp {block : Coroutine β} {rest : β → Coroutine α}
    (h : At settings n k (.created .running) x) (htame : block.Calls (Tame settings k))
    (hraise : block.NoRaise)
    (hrest : ∀ b y, At settings n k (.created .running) y →
      Holds tables settings n r (rest b) (fun _ z => Ready settings n z) y) :
    Holds tables settings n r (block.bind rest) (fun _ z => Ready settings n z) x := by
  refine Program.wp_seq (Program.wp_noRaise hraise (h.tame_wp htame)) (fun b y hy => ?_)
    fun e y hy => ?_
  · exact hrest b y hy.1
  · obtain ⟨b, hb⟩ := hy.2
    cases hb

theorem reraise_wp {closing : Coroutine Unit} {e : Error}
    (h : Holds tables settings n r closing (fun _ y => Ready settings n y) x) :
    Holds tables settings n r (closing.bind fun _ => (.raise e : Coroutine Unit))
      (fun _ y => Ready settings n y) x :=
  Program.wp_seq h (fun _ _ hy => hy) fun _ _ hy => hy

theorem scanLibrary_wp (hdemo : settings.demoMode = false) {p : ScanParams} (h : Idle settings n x) :
    Holds tables settings n r (scanLibrary tables p) (fun _ y => Ready settings n y) x := by
  refine Program.wp_seq (h.act_wp (c := .isDir p.libraryPath) trivial (fun _ => rfl) fun _ => rfl)
    (fun isDir y hy => ?_) fun e y hy => hy.ready
  refine Program.wp_seq hy.newScan_wp (fun id z hz => ?_) fun e z hz => ?_
  · obtain ⟨k, hk, hat⟩ := hz
    cases hk
    cases isDir with
    | false =>
      exact Program.wp_seq (createScan_wp hat) (fun _ u hu => closing_wp hu (by decide)) fun _ _ hu => hu
    | true =>
      refine Program.wp_seq (createScan_wp hat) (fun _ u hu => ?_) fun _ _ hu => hu
      refine guarded_wp hu (walkLibrary_tame hdemo p) (walkLibrary_noRaise p) fun counted v hv => ?_
      obtain ⟨counts, raised⟩ := counted
      cases raised with
      | none => exact closing_wp hv (by decide)
      | some e => exact reraise_wp (closing_wp hv (by decide))
  · obtain ⟨k, hk, -⟩ := hz
    cases hk

theorem scanS3Library_wp (hdemo : settings.demoMode = false) {p : ScanParams}
    (h : Idle settings n x) :
    Holds tables settings n r (scanS3Library tables p) (fun _ y => Ready settings n y) x := by
  refine Program.wp_seq h.newScan_wp (fun id z hz => ?_) fun e z hz => ?_
  · obtain ⟨k, hk, hat⟩ := hz
    cases hk
    refine Program.wp_seq (createScan_wp hat) (fun _ u hu => ?_) fun _ _ hu => hu
    refine guarded_wp hu (scanBucket_tame hdemo p) (scanBucket_noRaise p) fun counted v hv => ?_
    obtain ⟨counts, raised⟩ := counted
    cases raised with
    | none =>
      exact Program.wp_seq (hv.strands_wp (commit_strands (.inr rfl)))
        (fun _ w hw => closing_wp hw (by decide)) fun _ _ hw => hw
    | some e => exact reraise_wp (closing_wp hv (by decide))
  · obtain ⟨k, hk, -⟩ := hz
    cases hk

theorem simulateFiles_wp (hdemo : settings.demoMode = true) (files new : Nat)
    (h : At settings n k (.created .running) x) :
    Holds tables settings n r (simulateFiles files new)
      (AsFar settings n k (.created .running)) x := by
  induction files generalizing new x with
  | zero => exact h
  | succ files ih =>
    refine Program.wp_seq (R := AsFar settings n k (.created .running))
      (h.act_wp (c := .randomFile) trivial fun i y hy hnext => ?_) (fun u y hy => ?_) fun _ _ hy => hy
    · simp only [Stage.after, Stage.statusAfter, Call.opens, Call.strands, Bool.or_false] at hnext
      exact hnext
    · refine Program.wp_seq (hy.strands_wp (demo_strands hdemo (.inl ⟨u.filePath, rfl⟩)))
        (fun row z hz => ?_) fun _ _ hz => hz
      cases row with
      | some row => exact ih new hz
      | none =>
        exact Program.wp_seq (hz.strands_wp (demo_strands hdemo (.inr (.inl ⟨u, rfl⟩))))
          (fun _ v hv => ih (new + 1) hv) fun _ _ hv => hv

theorem simulateScan_wp (hdemo : settings.demoMode = true) {p : ScanParams}
    (h : Idle settings n x) :
    Holds tables settings n r (simulateScan p) (fun _ y => Ready settings n y) x := by
  refine Program.wp_seq h.newScan_wp (fun id z hz => ?_) fun e z hz => ?_
  · obtain ⟨k, hk, hat⟩ := hz
    cases hk
    refine Program.wp_seq (createScan_wp hat) (fun _ u hu => ?_) fun _ _ hu => hu
    refine Program.wp_seq (hu.strands_wp (demo_strands hdemo (.inr (.inr ⟨p.limit, rfl⟩))))
      (fun files v hv => ?_) fun _ _ hv => hv
    exact Program.wp_seq (simulateFiles_wp hdemo files 0 hv)
      (fun new w hw => closing_wp hw (by decide)) fun _ _ hw => hw
  · obtain ⟨k, hk, -⟩ := hz
    cases hk

theorem runScan_wp {p : ScanParams} (h : Idle settings n x) :
    Holds tables settings n r (runScan tables settings p) (fun _ y => Ready settings n y) x := by
  refine (Program.wp_rescue _ _ _ _).mpr (Program.wp_mono (Q := fun _ y => Ready settings n y) ?_
    fun o y hy => ?_)
  · cases hdemo : settings.demoMode with
    | true => exact simulateScan_wp hdemo h
    | false =>
      rw [if_neg Bool.false_ne_true]
      refine Program.wp_seq (h.act_wp (c := .getLibrary p.libraryId) trivial (fun _ => rfl) fun _ => rfl)
        (fun lib y hy => ?_) fun e y hy => hy.ready
      cases lib with
      | none => exact hy.ready
      | some lib =>
        dsimp only
        split
        · exact scanS3Library_wp hdemo hy
        · exact scanLibrary_wp hdemo hy
  · cases o with
    | ok _ => exact hy
    | error e =>
      dsimp only
      split <;> exact hy

theorem scan_wp {p : ScanParams} (h : Idle settings n x) :
    Holds tables settings n r (ending ((act .begin).bind fun _ => runScan tables settings p))
      (fun _ _ => True) x := by
  refine Program.wp_seq (R := fun _ y => Ready settings n y)
    ((Program.wp_attempt _ _ _).mpr ?_) (fun o y hy => ?_) fun _ _ _ => trivial
  · exact Program.wp_seq (h.act_wp (c := .begin) trivial (fun _ => rfl) fun _ => rfl)
      (fun _ y hy => runScan_wp hy) fun _ _ hy => hy.ready
  · exact Program.wp_call_of hy (fun _ _ hz hxy => hz.undisturbed hxy) fun i z hz _ _ =>
      ⟨hz.finish, trivial⟩

end Scans

end Contract

end TranscodeForge.Runner
