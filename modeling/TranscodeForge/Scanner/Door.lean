import TranscodeForge.Scanner.Runner

namespace TranscodeForge.Runner

open Interaction Relational Scheduler Scanner Text

namespace Server

-- What decides which scan may start.
def door (s : Server) : List ScanTask × Table String Slot Slot.libraryId × Phase :=
  (s.tasks, s.scans, s.scheduler)

def Live (s : Server) (n : Nat) (task : ScanTask) : Prop :=
  s.tasks[n]? = some task ∧ task.phase ≠ .done

-- An entry of `_scans` is a task of its library, and every live task has its library's entry.
structure Admitted (s : Server) : Prop where
  entry : ∀ n task, s.Live n task →
    s.scans.get? task.params.libraryId = some ⟨task.params.libraryId, n⟩
  task : ∀ l slot, s.scans.get? l = some slot →
    ∃ task, s.tasks[slot.task]? = some task ∧ task.params.libraryId = l

variable {s : Server} {n : Nat}

theorem isLive_iff : s.isLive n = true ↔ ∃ task, s.Live n task := by
  simp only [isLive, Option.any_eq_true, bne_iff_ne, Live]

end Server

section Steps

variable {t : TaskName} {s : Server} {i : Input} {c : Call} {n : Nat}

abbrev next (t : TaskName) (c : Call) (i : Input) (s : Server) : Server := (exec t c i s).1

theorem exec_door (hstart : ∀ p, c ≠ .startScan p) (hfinish : c ≠ .finish) :
    (next t c i s).door = s.door := by
  cases c with
  | startScan p => exact absurd rfl (hstart p)
  | finish => exact absurd rfl hfinish
  | insertScan row =>
    simp only [next, exec, Server.insertScan]
    split
    · rfl
    · split <;> rfl
  | updateScan id counts status =>
    simp only [next, exec, Server.updateScan]
    split <;> rfl
  | _ => rfl

theorem get?_modifyTask (t : TaskName) (f : ScanTask → ScanTask) (n : Nat) :
    (s.modifyTask t f).tasks[n]? =
      if t = .scan n then (s.tasks[n]?).map f else s.tasks[n]? := by
  cases t with
  | scan m =>
    simp only [Server.modifyTask, List.getElem?_modify, TaskName.scan.injEq]
    split <;> cases s.tasks[n]? <;> rfl
  | _ => rfl

theorem finish_tasks (n : Nat) :
    (s.finish t).tasks[n]? =
      if t = .scan n then (s.tasks[n]?).map fun task => { task with phase := .done }
      else s.tasks[n]? := by
  cases t with
  | scheduledScans => rfl
  | _ => exact get?_modifyTask _ _ n

theorem startScan_busy {p : ScanParams}
    (h : (s.scans.get? p.libraryId).any (fun slot => s.isLive slot.task) = true) :
    s.startScan p = (s, none) := by
  rw [Server.startScan, if_pos h]

theorem startScan_free {p : ScanParams}
    (h : (s.scans.get? p.libraryId).any (fun slot => s.isLive slot.task) = false) :
    (s.startScan p).2 = some s.tasks.length ∧
      (s.startScan p).1.tasks = s.tasks ++ [{ params := p }] ∧
      ∀ l, (s.startScan p).1.scans.get? l =
        if p.libraryId = l then some ⟨l, s.tasks.length⟩ else s.scans.get? l := by
  rw [Server.startScan, if_neg (by simp [h])]
  refine ⟨rfl, rfl, fun l => ?_⟩
  simp only [Table.get?_upsert]
  split
  · next hl =>
    subst hl
    cases hslot : s.scans.get? p.libraryId with
    | none => rfl
    | some slot =>
      have hkey : slot.libraryId = p.libraryId := Table.get?_key hslot
      simp [hkey]
  · rfl

theorem start_cases {r : Request} {s' : Server} (h : start t r s = some s') :
    (∃ n p, t = .scan n ∧ r = .scan p ∧ s.tasks[n]? = some { params := p } ∧
        s' = s.modifyTask (.scan n) fun task => { task with phase := .running }) ∨
      (t = .scheduledScans ∧ s.scheduler = .created ∧ s' = { s with scheduler := .running }) ∨
      (∀ n, t ≠ .scan n) ∧ t ≠ .scheduledScans ∧ s' = s := by
  unfold start at h
  split at h
  · next n p =>
    split at h
    · next hcreated =>
      cases h
      exact .inl ⟨n, p, rfl, rfl, hcreated, rfl⟩
    · cases h
  · cases h
    exact .inr (.inr ⟨fun n heq => (by cases heq), (by simp), rfl⟩)
  · cases h
    exact .inr (.inr ⟨fun n heq => (by cases heq), (by simp), rfl⟩)
  · cases h
    exact .inr (.inr ⟨fun n heq => (by cases heq), (by simp), rfl⟩)
  · split at h
    · next hcreated =>
      cases h
      exact .inr (.inl ⟨rfl, hcreated, rfl⟩)
    · cases h
  · cases h

end Steps

theorem Server.Admitted.startScan {s : Server} {p : ScanParams} (h : s.Admitted) :
    (s.startScan p).1.Admitted := by
  cases hbusy : (s.scans.get? p.libraryId).any fun slot => s.isLive slot.task with
  | true =>
    rw [startScan_busy hbusy]
    exact h
  | false =>
    obtain ⟨-, htasks, hscans⟩ := startScan_free hbusy
    constructor
    · rintro n task ⟨hget, hphase⟩
      rw [htasks, List.getElem?_append] at hget
      rw [hscans]
      split at hget
      · have hslot := h.entry n task ⟨hget, hphase⟩
        split
        · next hl =>
          have hlive : s.isLive n = true := isLive_iff.mpr ⟨task, hget, hphase⟩
          rw [hl, hslot, Option.any_some, hlive] at hbusy
          cases hbusy
        · exact hslot
      · next hn =>
        obtain ⟨hlen, heq⟩ := List.getElem?_eq_some_iff.mp hget
        have hzero : n = s.tasks.length := by
          simp only [List.length_cons, List.length_nil] at hlen
          omega
        subst hzero
        simp only [Nat.sub_self, List.getElem_cons_zero] at heq
        subst heq
        exact if_pos rfl
    · intro l slot hslot
      rw [hscans] at hslot
      rw [htasks]
      split at hslot
      · next hl =>
        cases hslot
        exact ⟨_, List.getElem?_concat_length, hl⟩
      · obtain ⟨task, hget, hlibrary⟩ := h.task l slot hslot
        have hlt := (List.getElem?_eq_some_iff.mp hget).1
        exact ⟨task, (List.getElem?_append_left hlt).trans hget, hlibrary⟩

-- The entries stay as they are where the tasks change nothing but their phases.
theorem Server.Admitted.modify {s s' : Server} {m : Nat} {f : ScanTask → ScanTask}
    (h : s.Admitted) (hscans : s'.scans = s.scans)
    (htasks : ∀ n, s'.tasks[n]? = if m = n then (s.tasks[n]?).map f else s.tasks[n]?)
    (hparams : ∀ task, (f task).params = task.params)
    (hdone : ∀ task, s.tasks[m]? = some task → (f task).phase ≠ .done → task.phase ≠ .done) :
    s'.Admitted := by
  constructor
  · rintro n task ⟨hget, hphase⟩
    rw [htasks] at hget
    rw [hscans]
    split at hget
    · next hn =>
      obtain ⟨before, hbefore, rfl⟩ := Option.map_eq_some_iff.mp hget
      rw [hparams]
      exact h.entry n before ⟨hbefore, hdone before (hn ▸ hbefore) hphase⟩
    · exact h.entry n task ⟨hget, hphase⟩
  · intro l slot hslot
    obtain ⟨task, hget, hlibrary⟩ := h.task l slot (hscans ▸ hslot)
    rw [htasks]
    split
    · exact ⟨f task, by rw [hget, Option.map_some], by rw [hparams, hlibrary]⟩
    · exact ⟨task, hget, hlibrary⟩

theorem Server.Admitted.finish {s : Server} {t : TaskName} (h : s.Admitted) :
    (s.finish t).Admitted := by
  cases t with
  | scan m =>
    refine h.modify (m := m) (f := fun task => { task with phase := .done }) rfl (fun n => ?_)
      (fun _ => rfl) fun task _ hphase => absurd rfl hphase
    rw [finish_tasks]
    simp only [TaskName.scan.injEq]
  | _ => exact ⟨h.entry, h.task⟩

theorem Server.Admitted.start {s s' : Server} {t : TaskName} {r : Request} (h : s.Admitted)
    (hs : Runner.start t r s = some s') : s'.Admitted := by
  rcases start_cases hs with ⟨m, p, rfl, rfl, hcreated, rfl⟩ | ⟨-, -, rfl⟩ | ⟨-, -, rfl⟩
  · refine h.modify (m := m) (f := fun task => { task with phase := .running }) rfl (fun n => ?_)
      (fun _ => rfl) fun task htask _ => ?_
    · rw [get?_modifyTask]
      simp only [TaskName.scan.injEq]
    · rw [hcreated] at htask
      cases htask
      exact fun hphase => by cases hphase
  · exact ⟨h.entry, h.task⟩
  · exact h

theorem Server.Admitted.next {s : Server} {t : TaskName} {c : Call} {i : Input} (h : s.Admitted) :
    (next t c i s).Admitted := by
  by_cases hstart : ∃ p, c = .startScan p
  · obtain ⟨p, rfl⟩ := hstart
    exact h.startScan
  · by_cases hfinish : c = .finish
    · subst hfinish
      exact h.finish
    · have hdoor : (Runner.next t c i s).door = s.door :=
        exec_door (fun p hp => hstart ⟨p, hp⟩) hfinish
      obtain ⟨htasks, hrest⟩ := Prod.mk.inj hdoor
      obtain ⟨hscans, -⟩ := Prod.mk.inj hrest
      constructor
      · simp only [Server.Live, htasks, hscans]
        exact h.entry
      · simp only [htasks, hscans]
        exact h.task

namespace Server.Admitted

variable {s : Server} {n n' : Nat}

theorem mem_liveScans (h : s.Admitted) : n ∈ s.liveScans ↔ ∃ task, s.Live n task := by
  rw [liveScans, List.mem_filter, List.mem_map, isLive_iff]
  constructor
  · exact fun hn => hn.2
  · rintro ⟨task, hlive⟩
    exact ⟨⟨_, Table.get?_mem (h.entry n task hlive), rfl⟩, task, hlive⟩

theorem eq_of_library (h : s.Admitted) {task task' : ScanTask} (hlive : s.Live n task)
    (hlive' : s.Live n' task') (hlibrary : task.params.libraryId = task'.params.libraryId) :
    n = n' := by
  have hslot := h.entry n task hlive
  have hslot' := h.entry n' task' hlive'
  rw [hlibrary, hslot'] at hslot
  cases hslot
  rfl

theorem startScan_none (h : s.Admitted) (p : ScanParams) :
    (s.startScan p).2 = none ↔
      ∃ n task, s.Live n task ∧ task.params.libraryId = p.libraryId := by
  constructor
  · intro hnone
    cases hbusy : (s.scans.get? p.libraryId).any fun slot => s.isLive slot.task with
    | true =>
      obtain ⟨slot, hslot, hlive⟩ := (Option.any_eq_true ..).mp hbusy
      obtain ⟨task, hget, hlibrary⟩ := h.task p.libraryId slot hslot
      obtain ⟨task', hget', hphase⟩ := isLive_iff.mp hlive
      rw [hget] at hget'
      cases hget'
      exact ⟨slot.task, task, ⟨hget, hphase⟩, hlibrary⟩
    | false =>
      rw [(startScan_free hbusy).1] at hnone
      cases hnone
  · rintro ⟨n, task, hlive, hlibrary⟩
    rw [startScan_busy]
    rw [← hlibrary, h.entry n task hlive, Option.any_some]
    exact isLive_iff.mpr ⟨task, hlive⟩

end Server.Admitted

section Runs

variable {t : CharTables} {settings : Settings} {rows : Table Nat Scan Scan.id} {now : Instant}
variable {es : List (ThreadCall TaskName Request Call Server Input)}
variable {d : Config TaskName Request Call Call.Answer Server Error Reply}

@[simp] theorem boot_tasks : (Server.boot settings rows now).tasks = [] := by
  unfold Server.boot
  split <;> rfl

@[simp] theorem boot_scans : (Server.boot settings rows now).scans = .empty := by
  unfold Server.boot
  split <;> rfl

theorem boot_admitted : (Server.boot settings rows now).Admitted where
  entry n task hlive := by simp [Server.Live] at hlive
  task l slot hslot := by simp at hslot

theorem Run.admitted
    (h : Run (server t settings) (.initial (Server.boot settings rows now)) es d) :
    (∀ e ∈ es, e.pre.Admitted) ∧ d.state.Admitted :=
  h.invariant (A := fun _ => True) (fun _ _ => trivial) boot_admitted
    (fun _ _ _ _ hs hstart => hs.start hstart) (fun k => k.elim) fun _ _ _ _ _ hs _ => hs.next

-- At most one scan of a library is live, `live_scans` is the live ones, and a start is refused
-- exactly while its library has one.
theorem one_scan_a_library
    (h : Run (server t settings) (.initial (Server.boot settings rows now)) es d) :
    (∀ n, n ∈ d.state.liveScans ↔ ∃ task, d.state.Live n task) ∧
    (∀ n n' task task', d.state.Live n task → d.state.Live n' task' →
      task.params.libraryId = task'.params.libraryId → n = n') ∧
    ∀ e ∈ es, ∀ p, e.op = .startScan p → ((e.pre.startScan p).2 = none ↔
      ∃ n task, e.pre.Live n task ∧ task.params.libraryId = p.libraryId) := by
  obtain ⟨hpre, hstate⟩ := Run.admitted h
  refine ⟨fun n => hstate.mem_liveScans, fun n n' task task' hlive hlive' hlibrary => ?_,
    fun e he p _ => (hpre e he).startScan_none p⟩
  exact hstate.eq_of_library hlive hlive' hlibrary

end Runs

section Sample

def sampleLibrary : Library where
  id := "movies"
  name := "Movies"
  mediaType := "movies"
  path := "/media".toList

abbrev ServerMove := Move TaskName Request Empty Input

abbrev ServerRun : Type :=
  List (ThreadCall TaskName Request Call Server Input) ×
    Config TaskName Request Call Call.Answer Server Error Reply

def play (settings : Settings) (moves : List ServerMove) : Option ServerRun :=
  (Config.initial (Server.boot settings .empty 0)).playAll (server asciiTables settings) moves

def calls (t : TaskName) (n : Nat) : List ServerMove := List.replicate n (.call t {})

theorem play_run {settings : Settings} {moves : List ServerMove} {p : ServerRun}
    (h : play settings moves = some p) :
    Run (server asciiTables settings) (.initial (Server.boot settings .empty 0)) p.1 p.2 :=
  Run.playAll .refl h

-- Two requests ask for one library, and its scan is at work.
def sampleTriggers : List ServerMove :=
  [.start (.request 0) (.triggerScan none 0), .start (.request 1) (.triggerLibraryScan "movies" 0),
    .call (.request 0) { libraries := [sampleLibrary] },
    .call (.request 1) { library := some sampleLibrary }] ++
  calls (.request 0) 1 ++ calls (.request 1) 1 ++
  [.start (.scan 0) (.scan (sampleLibrary.params 0)), .call (.scan 0) {},
    .call (.scan 0) { library := some sampleLibrary }]

def triggered : ServerRun := (play {} sampleTriggers).get (by decide +kernel)

def refused : ThreadCall TaskName Request Call Server Input := triggered.1[3]?.get (by decide +kernel)

theorem one_scan_a_library_triggered :
    ((∃ task, triggered.2.state.Live 0 task) ∧ ∃ n task, refused.pre.Live n task ∧
      task.params.libraryId = "movies") ∧
    triggered.2.state.liveScans = [0] := by
  have hrun := play_run (p := triggered) (Option.some_get _).symm
  have hmem : refused ∈ triggered.1 := List.mem_of_getElem? (Option.some_get _).symm
  have hop : refused.op = .startScan (sampleLibrary.params 0) := by decide +kernel
  obtain ⟨hlive, -, hstart⟩ := one_scan_a_library hrun
  refine ⟨⟨(hlive 0).mp (by decide +kernel), ?_⟩, by decide +kernel⟩
  exact (hstart refused hmem (sampleLibrary.params 0) hop).mp (by decide +kernel)

end Sample

end TranscodeForge.Runner
