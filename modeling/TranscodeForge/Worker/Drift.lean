import TranscodeForge.Interaction.Run
import TranscodeForge.Worker.Attention

namespace TranscodeForge.Drift

open Interaction SourcePath Filesystem Phases

-- Which attempts at a rename or an unlink fail; every other call succeeds.
structure FaultPlan where
  replace : Nat → Bool
  unlink : File → Nat → Bool

structure Tally where
  replaces : Nat := 0
  unlinks : File → Nat := fun _ => 0

def FaultPlan.choose (plan : FaultPlan) (n : Tally) (c : Call) : Input × Tally :=
  match c.action with
  | .replace _ _ => ({ fault := plan.replace n.replaces }, { n with replaces := n.replaces + 1 })
  | .unlink f => ({ fault := plan.unlink f (n.unlinks f) },
      { n with unlinks := Function.update n.unlinks f (n.unlinks f + 1) })
  | _ => ({ fault := false }, n)

-- The files of the path and the time the lock's age is measured at.
structure PathFiles where
  source : Option Bytes
  bak : Option Bytes
  tmp : Option Bytes
  lock : Option LockFile
  lockNew : Option LockFile
  clock : Nat
deriving DecidableEq

def files (s : PathState) : PathFiles :=
  ⟨s.source, s.bak, s.tmp, s.lock, s.lockNew, s.clock⟩

-- What a recovery by this worker makes of a lock's text; reading a value that is not an object
-- raises.
def activity (workerId : String) (staleAfter clock : Nat) : LockText → Except Failure Bool
  | .value => .error (.attribute "object has no attribute 'get'")
  | .object _ lockWorker (some ts) =>
    .ok (lockWorker != some workerId && decide (clock < ts + staleAfter))
  | _ => .ok false

def lockActivity (workerId : String) (staleAfter : Nat) (v : PathFiles) : Except Failure Bool :=
  match v.lock with
  | some l => activity workerId staleAfter v.clock l.text
  | none => .ok false

abbrev Progress := Tally × PathFiles

def PathFiles.present (v : PathFiles) : File → Bool
  | .media .source => v.source.isSome
  | .media .bak => v.bak.isSome
  | .media .tmp => v.tmp.isSome
  | .lock => v.lock.isSome
  | .lockNew => v.lockNew.isSome

def PathFiles.remove (v : PathFiles) : File → PathFiles
  | .media .source => { v with source := none }
  | .media .bak => { v with bak := none }
  | .media .tmp => { v with tmp := none }
  | .lock => { v with lock := none }
  | .lockNew => { v with lockNew := none }

section Matrix

variable (plan : FaultPlan) (workerId : String) (staleAfter : Nat)

def discard (f : File) (x : Progress) : Progress :=
  if x.2.present f then
    ((plan.choose x.1 ⟨.recoverSourcePath, .unlink f⟩).2,
      if plan.unlink f (x.1.unlinks f) then x.2 else x.2.remove f)
  else x

def restored (x : Progress) : Bool := x.2.bak.isSome && !plan.replace x.1.replaces

def restore (x : Progress) : Progress :=
  ((plan.choose x.1 ⟨.recoverSourcePath, .replace .bak .source⟩).2,
    if restored plan x then { x.2 with source := x.2.bak, bak := none } else x.2)

def finished (v : PathFiles) : Bool := v.source.isSome && !v.lock.isSome

def clear (x : Progress) : Progress := discard plan tmpFile (discard plan .lock x)

def restoreAndClear (x : Progress) : Progress :=
  if restored plan x then clear plan (restore plan x) else restore plan x

-- The crash matrix as the claim-time recovery walks it.
def afterClaim (x : Progress) : Progress :=
  match lockActivity workerId staleAfter x.2 with
  | .ok false =>
    if x.2.bak.isSome then
      if finished x.2 then x else restoreAndClear plan x
    else clear plan x
  | _ => x

-- The two passes of the startup scan.
def afterBackups (x : Progress) : Progress :=
  match lockActivity workerId staleAfter x.2 with
  | .ok false =>
    if x.2.bak.isSome then
      if finished x.2 then x else restoreAndClear plan x
    else x
  | _ => x

def afterLocks (x : Progress) : Progress :=
  match lockActivity workerId staleAfter x.2 with
  | .ok false =>
    if x.2.lock.isSome && !plan.unlink .lock (x.1.unlinks .lock) then clear plan x
    else discard plan .lock x
  | _ => x

def afterScan (x : Progress) : Progress :=
  afterLocks plan workerId staleAfter (afterBackups plan workerId staleAfter x)

end Matrix

section Refinement

variable {α : Type} {plan : FaultPlan} {w : String} {x y z : Progress}

abbrev Ends (plan : FaultPlan) (w : String) (p : Worker α) (x : Progress) (r : Except Failure α)
    (y : Progress) : Prop :=
  Turns handler ⟨w, .main⟩ plan.choose files p x.1 x.2 r y.1 y.2

theorem files_present {s : PathState} {v : PathFiles} (h : files s = v) (f : File) :
    s.present f = v.present f := by
  subst h
  rcases f with (_ | _ | _) | _ | _ <;> rfl

theorem act_ends {site : Site} {action : Action} {a : action.Answer} {v : PathFiles}
    (h : ∀ s, files s = x.2 → ∃ s', exec ⟨w, .main⟩ ⟨site, action⟩
      (plan.choose x.1 ⟨site, action⟩).1 s = (s', a) ∧ files s' = v) :
    Ends plan w (act site action) x (.ok a) ((plan.choose x.1 ⟨site, action⟩).2, v) := by
  refine Turns.call (fun s hs => ?_) (.ret a)
  obtain ⟨s', hexec, hs'⟩ := h s hs
  exact ⟨congrArg Prod.snd hexec, (congrArg (files ·.1) hexec).trans hs'⟩

theorem orRaise_ends {p : Worker (Except OSError α)} {a : α}
    (h : Ends plan w p x (.ok (.ok a)) y) : Ends plan w (orRaise p) x (.ok a) y :=
  h.bind (.ret a)

theorem files_sawAbsence (s : PathState) (a : Actor) (f : File) :
    files (s.sawAbsence a f) = files s := by
  unfold PathState.sawAbsence
  split <;> rfl

theorem exists_ends {site : Site} (f : File) :
    Ends plan w (act site (.exists f)) x (.ok (.ok (x.2.present f))) x :=
  act_ends fun s hs => ⟨s.sawAbsence ⟨w, .main⟩ f,
    by simp [exec, FaultPlan.choose, files_present hs f], (files_sawAbsence s _ f).trans hs⟩

theorem look_ends {site : Site} (f : File) :
    Ends plan w (orRaise (act site (.exists f))) x (.ok (x.2.present f)) x :=
  orRaise_ends (exists_ends f)

theorem glob_ends {site : Site} (f : File) :
    Ends plan w (orRaise (act site (.glob f))) x (.ok (x.2.present f)) x :=
  orRaise_ends (act_ends fun s hs =>
    ⟨s, by simp [exec, query, FaultPlan.choose, files_present hs f], hs⟩)

theorem isFile_ends {site : Site} (f : File) :
    Ends plan w (orRaise (act site (.isFile f))) x (.ok (x.2.present f)) x :=
  orRaise_ends (act_ends fun s hs =>
    ⟨s, by simp [exec, query, FaultPlan.choose, files_present hs f], hs⟩)

theorem isDir_ends {site : Site} : Ends plan w (orRaise (act site .isDir)) x (.ok true) x :=
  orRaise_ends (act_ends fun s hs => ⟨s, by simp [exec, query, FaultPlan.choose], hs⟩)

theorem now_ends {site : Site} : Ends plan w (act site .now) x (.ok x.2.clock) x := by
  refine act_ends fun s hs => ⟨s, ?_, hs⟩
  have hclock : s.clock = x.2.clock := congrArg PathFiles.clock hs
  simp [exec, hclock]

theorem readText_ends {site : Site} :
    Ends plan w (act site .readLock) x
      (.ok (match x.2.lock with
        | some l => .ok l.text
        | none => .error .notFound)) x := by
  refine act_ends fun s hs => ⟨s.setSaw ⟨w, .main⟩ s.lock, ?_, hs⟩
  have hlock : s.lock = x.2.lock := congrArg PathFiles.lock hs
  rw [← hlock]
  cases hl : s.lock <;> simp [exec, FaultPlan.choose, hl]

-- What `readLock` makes of the lock's text.
def parsed : LockText → Except Failure (Option (Option String × Nat))
  | .object _ lockWorker timestamp => .ok (timestamp.map fun ts => (lockWorker, ts))
  | .value => .error (.attribute "object has no attribute 'get'")
  | _ => .ok none

theorem readLock_absent (h : x.2.lock = none) : Ends plan w readLock x (.ok none) x := by
  have hread : Ends plan w (act .lockIsActive .readLock) x _ x := readText_ends
  rw [h] at hread
  exact hread.bind (.ret none)

theorem readLock_present {l : LockFile} (h : x.2.lock = some l) :
    Ends plan w readLock x (parsed l.text) x := by
  have hread : Ends plan w (act .lockIsActive .readLock) x _ x := readText_ends
  rw [h] at hread
  refine hread.bind ?_
  obtain ⟨inode, text⟩ := l
  cases text with
  | value => exact .raise _
  | _ => exact .ret _

theorem lockIsActive_unparsed (workerId : String) (staleAfter : Nat)
    (h : Ends plan w readLock x (.ok none) x) :
    Ends plan w (lockIsActive workerId staleAfter) x (.ok false) x :=
  h.bind (.ret false)

theorem lockIsActive_parsed (workerId : String) (staleAfter : Nat) {lockWorker : Option String}
    {ts : Nat} (h : Ends plan w readLock x (.ok (some (lockWorker, ts))) x) :
    Ends plan w (lockIsActive workerId staleAfter) x
      (.ok (lockWorker != some workerId && decide (x.2.clock < ts + staleAfter))) x := by
  refine h.bind ?_
  by_cases hown : lockWorker = some workerId
  · simp only [hown, bne_self_eq_false, Bool.false_and, if_true]
    exact .ret false
  · have hforeign : (lockWorker != some workerId) = true := bne_iff_ne.mpr hown
    simp only [hown, hforeign, Bool.true_and, if_false]
    exact now_ends.bind (.ret _)

theorem lockIsActive_ends (workerId : String) (staleAfter : Nat) :
    Ends plan w (lockIsActive workerId staleAfter) x (lockActivity workerId staleAfter x.2) x := by
  unfold lockActivity
  cases hl : x.2.lock with
  | none => exact lockIsActive_unparsed workerId staleAfter (readLock_absent hl)
  | some l =>
    have hread : Ends plan w readLock x (parsed l.text) x := readLock_present hl
    obtain ⟨inode, text⟩ := l
    cases text with
    | undecodable => exact lockIsActive_unparsed workerId staleAfter hread
    | invalid => exact lockIsActive_unparsed workerId staleAfter hread
    | value => exact hread.bind_error
    | object jobId lockWorker timestamp =>
      cases timestamp with
      | none => exact lockIsActive_unparsed workerId staleAfter hread
      | some ts => exact lockIsActive_parsed workerId staleAfter hread

theorem lockedElsewhere_ends {site : Site} (workerId : String) (staleAfter : Nat) :
    Ends plan w (lockedElsewhere site workerId staleAfter) x
      (lockActivity workerId staleAfter x.2) x := by
  refine (look_ends .lock).bind ?_
  cases hl : x.2.lock with
  | none =>
    simp only [PathFiles.present, lockActivity, hl]
    exact .ret false
  | some l =>
    simp only [PathFiles.present, hl, Option.isSome_some, if_true]
    exact lockIsActive_ends workerId staleAfter

theorem looksFinished_ends {site : Site} :
    Ends plan w (looksFinished site) x (.ok (finished x.2)) x := by
  refine (look_ends sourceFile).bind ?_
  cases hs : x.2.source with
  | none =>
    simp only [PathFiles.present, finished, hs]
    exact .ret false
  | some content =>
    simp only [PathFiles.present, finished, hs, Option.isSome_some, Bool.true_and, if_true]
    exact (look_ends .lock).bind (.ret _)

theorem files_remove (s : PathState) (f : File) :
    files (s.remove f) = (files s).remove f := by
  rcases f with (_ | _ | _) | _ | _ <;> rfl

-- Releasing the lock also ends whoever's hold it was, which is no file.
theorem files_unlinked (s : PathState) (a : Actor) (f : File) :
    files (if f = .lock then (s.remove f).setHold a.worker none else s.remove f) =
      (files s).remove f := by
  split <;> exact files_remove s f

theorem unlink_ends {site : Site} {f : File} (h : x.2.present f) :
    ∃ r, Ends plan w (act site (.unlink f)) x (.ok r) (discard plan f x) ∧
      (r = .ok () ↔ plan.unlink f (x.1.unlinks f) = false) := by
  cases hb : plan.unlink f (x.1.unlinks f) with
  | true =>
    refine ⟨.error .other, ?_, by simp⟩
    simp only [discard, h, hb, if_true]
    exact act_ends fun s hs => ⟨s, by simp [exec, FaultPlan.choose, hb], hs⟩
  | false =>
    refine ⟨.ok (), ?_, by simp⟩
    simp only [discard, h, hb, if_true]
    refine act_ends fun s hs => ⟨_, ?_, (files_unlinked s ⟨w, .main⟩ f).trans (by rw [hs]; rfl)⟩
    simp [exec, FaultPlan.choose, hb, files_present hs f, h]

theorem safeDelete_ends {site : Site} (f : File) :
    Ends plan w (safeDelete site f) x (.ok ()) (discard plan f x) := by
  refine (exists_ends f).bind ?_
  cases hp : x.2.present f with
  | false =>
    simp only [discard, hp]
    exact .ret ()
  | true =>
    obtain ⟨r, hunlink, -⟩ := @unlink_ends plan w x site f hp
    exact hunlink.bind (.ret ())

theorem deleteLeftover_ends {site : Site} (f : File) :
    ∃ n, Ends plan w (deleteLeftover site f) x (.ok n) (discard plan f x) := by
  cases hp : x.2.present f with
  | false =>
    refine ⟨0, (exists_ends f).bind ?_⟩
    simp only [discard, hp]
    exact .ret 0
  | true =>
    obtain ⟨r, hunlink, -⟩ := @unlink_ends plan w x site f hp
    cases r with
    | ok a =>
      refine ⟨1, (exists_ends f).bind ?_⟩
      rw [hp]
      exact hunlink.bind (.ret 1)
    | error e =>
      refine ⟨0, (exists_ends f).bind ?_⟩
      rw [hp]
      exact hunlink.bind (.ret 0)

theorem clearLeftovers_ends {site : Site} :
    Ends plan w (clearLeftovers site) x (.ok ()) (clear plan x) :=
  (safeDelete_ends .lock).bind (safeDelete_ends tmpFile)

theorem replace_ends {site : Site} (hsite : site ≠ .rollbackSwap) :
    ∃ r, Ends plan w (act site (.replace .bak .source)) x (.ok r) (restore plan x) ∧
      (r = .ok () ↔ restored plan x) := by
  have hbak : ∀ s, files s = x.2 → s.bak = x.2.bak := fun _ hs => congrArg PathFiles.bak hs
  cases hr : restored plan x with
  | true =>
    have hcan : x.2.bak.isSome ∧ plan.replace x.1.replaces = false := by simpa [restored] using hr
    refine ⟨.ok (), ?_, by simp⟩
    simp only [restore, hr, if_true]
    refine act_ends fun s hs => ⟨moveMedia s .bak .source, ?_, by rw [← hs]; rfl⟩
    simp [exec, FaultPlan.choose, hcan.2, PathState.mediaAt, hbak s hs, hcan.1]
  | false =>
    have hcannot : plan.replace x.1.replaces = true ∨ x.2.bak = none := by
      cases hp : plan.replace x.1.replaces <;> cases hb : x.2.bak <;> simp [restored, hp, hb] at hr ⊢
    refine ⟨.error (if plan.replace x.1.replaces then .other else .notFound), ?_, by simp⟩
    simp only [restore, hr]
    refine act_ends fun s hs => ⟨s, ?_, hs⟩
    rcases hcannot with hp | hb
    · simp [exec, FaultPlan.choose, hp, hsite]
    · simp [exec, FaultPlan.choose, PathState.mediaAt, hbak s hs, hb, hsite]
      rfl

-- A failed restore leaves the backup behind, or there was none.
theorem restoreSource_ends (hbak : x.2.bak.isSome) :
    ∃ a, Ends plan w restoreSource x (.ok a) (restoreAndClear plan x) := by
  obtain ⟨r, hreplace, hr⟩ := @replace_ends plan w x .recoverSourcePath (by decide)
  cases hrest : restored plan x with
  | true =>
    obtain rfl := hr.mpr hrest
    refine ⟨.restored, hreplace.bind ?_⟩
    simp only [restoreAndClear, hrest, if_true]
    exact clearLeftovers_ends.bind (.ret _)
  | false =>
    cases r with
    | ok a => exact absurd (hr.mp rfl) (by simp [hrest])
    | error e =>
      have hleft : (restore plan x).2.bak.isSome := by simpa [restore, hrest] using hbak
      refine ⟨.restoreFailed, hreplace.bind ?_⟩
      simp only [restoreAndClear, hrest]
      refine (look_ends bakFile).bind ?_
      simp only [PathFiles.present, hleft, if_true]
      exact .ret _

theorem hasLeftovers_ends :
    Ends plan w hasLeftovers x (.ok (x.2.lock.isSome || x.2.tmp.isSome)) x := by
  refine (look_ends .lock).bind ?_
  cases hl : x.2.lock with
  | some l =>
    simp only [PathFiles.present, hl, Option.isSome_some, if_true, Bool.true_or]
    exact .ret true
  | none =>
    simp only [PathFiles.present, hl, Option.isSome_none, Bool.false_or]
    exact look_ends tmpFile

theorem clear_nothing (hl : x.2.lock = none) (ht : x.2.tmp = none) : clear plan x = x := by
  simp [clear, discard, PathFiles.present, hl, ht]

theorem recoverSourcePath_ends (workerId : String) (staleAfter : Nat) :
    ∃ r, Ends plan w (recoverSourcePath workerId staleAfter) x r
      (afterClaim plan workerId staleAfter x) ∧ r.isOk = (lockActivity workerId staleAfter x.2).isOk := by
  have hlocked : Ends plan w (lockedElsewhere .recoverSourcePath workerId staleAfter) x _ x :=
    lockedElsewhere_ends workerId staleAfter
  unfold afterClaim
  cases hactive : lockActivity workerId staleAfter x.2 with
  | error e =>
    rw [hactive] at hlocked
    exact ⟨.error e, hlocked.bind_error, rfl⟩
  | ok active =>
    rw [hactive] at hlocked
    cases active with
    | true => exact ⟨_, hlocked.bind (.ret _), rfl⟩
    | false =>
      cases hb : x.2.bak.isSome with
      | true =>
        cases hf : finished x.2 with
        | true =>
          refine ⟨.ok .attention, hlocked.bind ((look_ends bakFile).bind ?_), rfl⟩
          simp only [PathFiles.present, hb, if_true]
          refine looksFinished_ends.bind ?_
          rw [hf]
          exact .ret _
        | false =>
          obtain ⟨a, hrestore⟩ := @restoreSource_ends plan w x hb
          refine ⟨.ok a, hlocked.bind ((look_ends bakFile).bind ?_), rfl⟩
          simp only [PathFiles.present, hb, if_true]
          refine looksFinished_ends.bind ?_
          rw [hf]
          exact (look_ends sourceFile).bind hrestore
      | false =>
        cases hleft : x.2.lock.isSome || x.2.tmp.isSome with
        | true =>
          refine ⟨.ok .cleaned, hlocked.bind ((look_ends bakFile).bind ?_), rfl⟩
          simp only [PathFiles.present, hb]
          refine hasLeftovers_ends.bind ?_
          rw [hleft]
          exact clearLeftovers_ends.bind (.ret _)
        | false =>
          have hnone : x.2.lock = none ∧ x.2.tmp = none := by simpa using hleft
          refine ⟨.ok .clean, hlocked.bind ((look_ends bakFile).bind ?_), rfl⟩
          simp only [PathFiles.present, hb, clear_nothing hnone.1 hnone.2]
          refine hasLeftovers_ends.bind ?_
          rw [hleft]
          exact .ret _

theorem restoreBackup_ends :
    ∃ r, Ends plan w restoreBackup x (.ok r) (restore plan x) ∧ (r = .ok () ↔ restored plan x) := by
  obtain ⟨r, hreplace, hr⟩ := @replace_ends plan w x .recoverBackups (by decide)
  exact ⟨r, (exists_ends sourceFile).bind hreplace, hr⟩

-- A scan is cut short only by a lock it cannot read.
def CutShort (workerId : String) (staleAfter : Nat) (v : PathFiles) (r : Except Failure α) : Prop :=
  ∀ e, r = .error e → lockActivity workerId staleAfter v = .error e

theorem cutShort_ok (workerId : String) (staleAfter : Nat) (v : PathFiles) (a : α) :
    CutShort workerId staleAfter v (.ok a) := by
  intro e h
  cases h

theorem recoverBackup_ends (workerId : String) (staleAfter : Nat) (stats : RecoveryStats)
    (hbak : x.2.bak.isSome) :
    ∃ r, Ends plan w (recoverBackup workerId staleAfter stats) x r
      (afterBackups plan workerId staleAfter x) ∧ CutShort workerId staleAfter x.2 r := by
  have hlocked : Ends plan w (lockedElsewhere .recoverBackups workerId staleAfter) x _ x :=
    lockedElsewhere_ends workerId staleAfter
  unfold afterBackups
  cases hactive : lockActivity workerId staleAfter x.2 with
  | error e =>
    rw [hactive] at hlocked
    exact ⟨.error e, hlocked.bind_error, fun e' he => hactive.trans (by rw [Except.error.inj he])⟩
  | ok active =>
    rw [hactive] at hlocked
    cases active with
    | true => exact ⟨_, hlocked.bind (.ret _), cutShort_ok _ _ _ _⟩
    | false =>
      simp only [hbak, if_true]
      have hfinished : Ends plan w (looksFinished .recoverBackups) x _ x := looksFinished_ends
      cases hf : finished x.2 with
      | true =>
        rw [hf] at hfinished
        exact ⟨_, hlocked.bind (hfinished.bind (.ret _)), cutShort_ok _ _ _ _⟩
      | false =>
        rw [hf] at hfinished
        obtain ⟨r, hrestore, hr⟩ := @restoreBackup_ends plan w x
        cases hrest : restored plan x with
        | true =>
          obtain rfl := hr.mpr hrest
          obtain ⟨locks, hlock⟩ := @deleteLeftover_ends plan w (restore plan x)
            .recoverBackups .lock
          obtain ⟨tmps, htmp⟩ := @deleteLeftover_ends plan w
            (discard plan .lock (restore plan x)) .recoverBackups tmpFile
          simp only [restoreAndClear, hrest, if_true]
          exact ⟨_, hlocked.bind (hfinished.bind (hrestore.bind (hlock.bind (htmp.bind (.ret _))))),
            cutShort_ok _ _ _ _⟩
        | false =>
          simp only [restoreAndClear, hrest]
          cases r with
          | ok a => exact absurd (hr.mp rfl) (by simp [hrest])
          | error e => exact ⟨_, hlocked.bind (hfinished.bind (hrestore.bind (.ret _))), cutShort_ok _ _ _ _⟩

theorem afterBackups_nothing (workerId : String) (staleAfter : Nat) (h : x.2.bak.isSome = false) :
    afterBackups plan workerId staleAfter x = x := by
  unfold afterBackups
  split
  · simp [h]
  · rfl

theorem recoverBackupsUnder_ends (workerId : String) (staleAfter : Nat) (stats : RecoveryStats) :
    ∃ r, Ends plan w (recoverBackupsUnder workerId staleAfter stats) x r
      (afterBackups plan workerId staleAfter x) ∧ CutShort workerId staleAfter x.2 r := by
  have hglob : Ends plan w (orRaise (act .recoverBackups (.glob bakFile))) x _ x := glob_ends bakFile
  have hfile : Ends plan w (orRaise (act .recoverBackups (.isFile bakFile))) x _ x :=
    isFile_ends bakFile
  cases hb : x.2.bak.isSome with
  | false =>
    rw [show x.2.present bakFile = false from hb] at hglob
    rw [afterBackups_nothing workerId staleAfter hb]
    exact ⟨_, hglob.bind (.ret _), cutShort_ok _ _ _ _⟩
  | true =>
    rw [show x.2.present bakFile = true from hb] at hglob hfile
    obtain ⟨r, hrecover, hcut⟩ := @recoverBackup_ends plan w x workerId staleAfter stats hb
    exact ⟨r, hglob.bind (hfile.bind hrecover), hcut⟩

theorem removeStaleLock_ends (workerId : String) (staleAfter : Nat) (stats : RecoveryStats)
    (hlock : x.2.lock.isSome) :
    ∃ r, Ends plan w (removeStaleLock workerId staleAfter stats) x r
      (afterLocks plan workerId staleAfter x) ∧ r.isOk = (lockActivity workerId staleAfter x.2).isOk := by
  have hactivity : Ends plan w (lockIsActive workerId staleAfter) x _ x :=
    lockIsActive_ends workerId staleAfter
  unfold afterLocks
  cases hactive : lockActivity workerId staleAfter x.2 with
  | error e =>
    rw [hactive] at hactivity
    exact ⟨.error e, hactivity.bind_error, rfl⟩
  | ok active =>
    rw [hactive] at hactivity
    cases active with
    | true => exact ⟨_, hactivity.bind (.ret _), rfl⟩
    | false =>
      obtain ⟨r, hunlink, hr⟩ := @unlink_ends plan w x .removeStaleLocks .lock hlock
      cases hb : plan.unlink .lock (x.1.unlinks .lock) with
      | true =>
        simp only [hlock]
        cases r with
        | ok a => exact absurd (hr.mp rfl) (by simp [hb])
        | error e => exact ⟨_, hactivity.bind (hunlink.bind (.ret _)), rfl⟩
      | false =>
        obtain rfl := hr.mpr hb
        obtain ⟨tmps, htmp⟩ := @deleteLeftover_ends plan w (discard plan .lock x)
          .removeStaleLocks tmpFile
        simp only [hlock]
        exact ⟨_, hactivity.bind (hunlink.bind (htmp.bind (.ret _))), rfl⟩

theorem removeStaleLocksUnder_ends (workerId : String) (staleAfter : Nat) (stats : RecoveryStats) :
    ∃ r, Ends plan w (removeStaleLocksUnder workerId staleAfter stats) x r
      (afterLocks plan workerId staleAfter x) ∧ r.isOk = (lockActivity workerId staleAfter x.2).isOk := by
  have hglob : Ends plan w (orRaise (act .removeStaleLocks (.glob .lock))) x _ x := glob_ends .lock
  have hfile : Ends plan w (orRaise (act .removeStaleLocks (.isFile .lock))) x _ x :=
    isFile_ends .lock
  cases hl : x.2.lock with
  | none =>
    have habsent : x.2.present .lock = false := by simp [PathFiles.present, hl]
    have hnothing : afterLocks plan workerId staleAfter x = x := by
      simp [afterLocks, lockActivity, discard, PathFiles.present, hl]
    rw [habsent] at hglob
    have hreads : lockActivity workerId staleAfter x.2 = .ok false := by rw [lockActivity, hl]
    rw [hnothing, hreads]
    exact ⟨_, hglob.bind (.ret _), rfl⟩
  | some l =>
    have hpresent : x.2.present .lock = true := by simp [PathFiles.present, hl]
    rw [hpresent] at hglob hfile
    obtain ⟨r, hremove, hok⟩ := @removeStaleLock_ends plan w x workerId staleAfter stats
      (by simp [hl])
    exact ⟨r, hglob.bind (hfile.bind hremove), hok⟩

theorem discard_lock (f : File) : ((discard plan f x).2.lock = x.2.lock ∨
    (discard plan f x).2.lock = none) ∧ (discard plan f x).2.clock = x.2.clock := by
  unfold discard
  split
  · dsimp only
    split
    · exact ⟨.inl rfl, rfl⟩
    · rcases f with (_ | _ | _) | _ | _
      · exact ⟨.inl rfl, rfl⟩
      · exact ⟨.inl rfl, rfl⟩
      · exact ⟨.inl rfl, rfl⟩
      · exact ⟨.inr rfl, rfl⟩
      · exact ⟨.inl rfl, rfl⟩
  · exact ⟨.inl rfl, rfl⟩

-- The first pass leaves the lock as it is or removes it.
theorem afterBackups_lock (workerId : String) (staleAfter : Nat) :
    ((afterBackups plan workerId staleAfter x).2.lock = x.2.lock ∨
      (afterBackups plan workerId staleAfter x).2.lock = none) ∧
      (afterBackups plan workerId staleAfter x).2.clock = x.2.clock := by
  have hrestore : (restore plan x).2.lock = x.2.lock ∧ (restore plan x).2.clock = x.2.clock := by
    unfold restore
    split <;> exact ⟨rfl, rfl⟩
  have hclear : ((restoreAndClear plan x).2.lock = x.2.lock ∨
      (restoreAndClear plan x).2.lock = none) ∧ (restoreAndClear plan x).2.clock = x.2.clock := by
    unfold restoreAndClear
    split
    · obtain ⟨hlock, hclock⟩ := @discard_lock plan (restore plan x) .lock
      obtain ⟨hlock', hclock'⟩ := @discard_lock plan (discard plan .lock (restore plan x)) tmpFile
      refine ⟨?_, hclock'.trans (hclock.trans hrestore.2)⟩
      rcases hlock' with h | h
      · rw [clear, h]
        exact hlock.imp_left fun h => h.trans hrestore.1
      · exact .inr h
    · exact ⟨.inl hrestore.1, hrestore.2⟩
  unfold afterBackups
  split
  · split
    · split
      · exact ⟨.inl rfl, rfl⟩
      · exact hclear
    · exact ⟨.inl rfl, rfl⟩
  · exact ⟨.inl rfl, rfl⟩

theorem afterBackups_reads (workerId : String) (staleAfter : Nat)
    (h : (lockActivity workerId staleAfter x.2).isOk = true) :
    (lockActivity workerId staleAfter (afterBackups plan workerId staleAfter x).2).isOk = true := by
  obtain ⟨hlock | hlock, hclock⟩ := @afterBackups_lock plan x workerId staleAfter
  · rw [lockActivity, hlock, hclock]
    exact h
  · rw [lockActivity, hlock]
    rfl

theorem recoverOrphanedBackups_ends (workerId : String) (staleAfter : Nat) :
    ∃ r, Ends plan w (recoverOrphanedBackups workerId staleAfter) x r
      (afterScan plan workerId staleAfter x) ∧ r.isOk = (lockActivity workerId staleAfter x.2).isOk := by
  have hroot : Ends plan w (orRaise (act .recoverOrphanedBackups .isDir)) x _ x := isDir_ends
  obtain ⟨r, hbackups, hcut⟩ := @recoverBackupsUnder_ends plan w x workerId staleAfter {}
  cases r with
  | error e =>
    have hactive := hcut e rfl
    have hskip : afterScan plan workerId staleAfter x = afterBackups plan workerId staleAfter x := by
      have hfirst : afterBackups plan workerId staleAfter x = x := by simp [afterBackups, hactive]
      simp [afterScan, hfirst, afterLocks, hactive]
    rw [hskip, hactive]
    exact ⟨.error e, hroot.bind hbackups.bind_error, rfl⟩
  | ok stats =>
    obtain ⟨r, hlocks, hok⟩ := @removeStaleLocksUnder_ends plan w
      (afterBackups plan workerId staleAfter x) workerId staleAfter stats
    refine ⟨r, hroot.bind (hbackups.bind hlocks), hok.trans ?_⟩
    cases hactive : lockActivity workerId staleAfter x.2 with
    | error e =>
      have hfirst : afterBackups plan workerId staleAfter x = x := by simp [afterBackups, hactive]
      rw [hfirst, hactive]
    | ok active => exact afterBackups_reads workerId staleAfter (by rw [hactive]; rfl)

end Refinement

section Agreement

variable {plan : FaultPlan} {workerId : String} {staleAfter : Nat} {v : PathFiles} {l : LockFile}

abbrev Agrees (plan : FaultPlan) (workerId : String) (staleAfter : Nat) (v : PathFiles) : Prop :=
  (afterScan plan workerId staleAfter ({}, v)).2 = (afterClaim plan workerId staleAfter ({}, v)).2

-- A lock that is not revoked keeps both away.
theorem agrees_respected (h : lockActivity workerId staleAfter v ≠ .ok false) :
    Agrees plan workerId staleAfter v := by
  cases hactive : lockActivity workerId staleAfter v with
  | error e => simp [Agrees, afterScan, afterBackups, afterClaim, afterLocks, hactive]
  | ok active =>
    cases active with
    | true => simp [Agrees, afterScan, afterBackups, afterClaim, afterLocks, hactive]
    | false => exact absurd hactive h

theorem agrees_unlocked_iff (hl : v.lock = none) :
    Agrees plan workerId staleAfter v ↔
      ¬(v.bak = none ∧ v.tmp.isSome ∧ plan.unlink tmpFile 0 = false) := by
  obtain ⟨source, bak, tmp, lock, lockNew, clock⟩ := v
  obtain rfl : lock = none := hl
  cases bak with
  | none =>
    cases tmp <;> cases ht : plan.unlink tmpFile 0 <;>
      simp [Agrees, afterScan, afterBackups, afterClaim, afterLocks, lockActivity, clear, discard,
        PathFiles.present, PathFiles.remove, ht]
  | some content =>
    cases source <;> cases tmp <;> cases hr : plan.replace 0 <;>
      cases ht : plan.unlink tmpFile 0 <;>
      simp [Agrees, afterScan, afterBackups, afterClaim, afterLocks, lockActivity, clear, discard,
        restoreAndClear, restore, restored, finished, PathFiles.present, PathFiles.remove,
        FaultPlan.choose, hr, ht]

-- Without a backup the scan gives up when the lock stays; the claim still clears the output.
theorem agrees_leftovers_iff (hl : v.lock = some l)
    (hactive : activity workerId staleAfter v.clock l.text = .ok false) (hb : v.bak = none) :
    Agrees plan workerId staleAfter v ↔
      ¬(plan.unlink .lock 0 ∧ v.tmp.isSome ∧ plan.unlink tmpFile 0 = false) := by
  obtain ⟨source, bak, tmp, lock, lockNew, clock⟩ := v
  obtain rfl : lock = some l := hl
  obtain rfl : bak = none := hb
  cases tmp <;> cases hu : plan.unlink .lock 0 <;> cases ht : plan.unlink tmpFile 0 <;>
    simp [Agrees, afterScan, afterBackups, afterClaim, afterLocks, lockActivity, clear, discard,
      PathFiles.present, PathFiles.remove, FaultPlan.choose, hactive, hu, ht]

-- The second pass takes the lock of a restore that failed.
theorem agrees_failed_iff (hl : v.lock = some l)
    (hactive : activity workerId staleAfter v.clock l.text = .ok false) (hb : v.bak.isSome)
    (hr : plan.replace 0) : Agrees plan workerId staleAfter v ↔ plan.unlink .lock 0 := by
  obtain ⟨source, bak, tmp, lock, lockNew, clock⟩ := v
  obtain rfl : lock = some l := hl
  obtain ⟨content, rfl⟩ := Option.isSome_iff_exists.mp hb
  cases tmp <;> cases hu : plan.unlink .lock 0 <;> cases ht : plan.unlink tmpFile 0 <;>
    simp [Agrees, afterScan, afterBackups, afterClaim, afterLocks, lockActivity, clear, discard,
      restoreAndClear, restore, restored, finished, PathFiles.present, PathFiles.remove,
      FaultPlan.choose, hactive, hr, hu, ht]

-- The second pass tries the lock of a restored path once more.
theorem agrees_restored_iff (hl : v.lock = some l)
    (hactive : activity workerId staleAfter v.clock l.text = .ok false) (hb : v.bak.isSome)
    (hr : plan.replace 0 = false) :
    Agrees plan workerId staleAfter v ↔ ¬(plan.unlink .lock 0 ∧ plan.unlink .lock 1 = false) := by
  obtain ⟨source, bak, tmp, lock, lockNew, clock⟩ := v
  obtain rfl : lock = some l := hl
  obtain ⟨content, rfl⟩ := Option.isSome_iff_exists.mp hb
  cases hu : plan.unlink .lock 0 with
  | false =>
    cases tmp <;> cases ht : plan.unlink tmpFile 0 <;>
      simp [Agrees, afterScan, afterBackups, afterClaim, afterLocks, lockActivity, clear, discard,
        restoreAndClear, restore, restored, finished, PathFiles.present, PathFiles.remove,
        FaultPlan.choose, hactive, hr, hu, ht]
  | true =>
    cases hu' : plan.unlink .lock 1 <;> cases tmp <;> cases ht : plan.unlink tmpFile 0 <;>
      cases ht' : plan.unlink tmpFile 1 <;>
      simp [Agrees, afterScan, afterBackups, afterClaim, afterLocks, lockActivity, clear, discard,
        restoreAndClear, restore, restored, finished, PathFiles.present, PathFiles.remove,
        FaultPlan.choose, hactive, hr, hu, hu', ht, ht']

-- Where the two implementations leave different files behind.
def Drifts (plan : FaultPlan) (workerId : String) (staleAfter : Nat) (v : PathFiles) : Prop :=
  -- a temp output with neither a backup nor a lock
  (v.lock = none ∧ v.bak = none ∧ v.tmp.isSome ∧ plan.unlink tmpFile 0 = false) ∨
    (v.lock.isSome ∧ lockActivity workerId staleAfter v = .ok false ∧
      -- the lock stays, so the scan leaves the temp output
      ((v.bak = none ∧ plan.unlink .lock 0 ∧ v.tmp.isSome ∧ plan.unlink tmpFile 0 = false) ∨
      -- the restore fails and the lock can be removed
        (v.bak.isSome ∧ plan.replace 0 ∧ plan.unlink .lock 0 = false) ∨
      -- the lock is removed at the second attempt only
        (v.bak.isSome ∧ plan.replace 0 = false ∧ plan.unlink .lock 0 ∧
          plan.unlink .lock 1 = false)))

theorem agrees_iff : Agrees plan workerId staleAfter v ↔ ¬Drifts plan workerId staleAfter v := by
  cases hl : v.lock with
  | none =>
    rw [agrees_unlocked_iff hl]
    simp [Drifts, hl]
  | some l =>
    by_cases hactive : lockActivity workerId staleAfter v = .ok false
    · have hl' : activity workerId staleAfter v.clock l.text = .ok false := by
        simpa [lockActivity, hl] using hactive
      cases hb : v.bak with
      | none =>
        rw [agrees_leftovers_iff hl hl' hb]
        simp [Drifts, hl, hactive, hb]
      | some content =>
        have hsome : v.bak.isSome := by simp [hb]
        cases hr : plan.replace 0 with
        | true =>
          rw [agrees_failed_iff hl hl' hsome hr]
          simp [Drifts, hl, hactive, hb, hr]
        | false =>
          rw [agrees_restored_iff hl hl' hsome hr]
          simp [Drifts, hl, hactive, hb, hr]
    · have hagrees : Agrees plan workerId staleAfter v := agrees_respected hactive
      simpa [Drifts, hl, hactive] using hagrees

end Agreement

-- What a recovery leaves behind when the attempts fail as planned.
def leaves {α : Type} (plan : FaultPlan) (workerId : String) (p : Worker α) (s : PathState) :
    PathFiles :=
  files (p.run handler ⟨workerId, .main⟩ plan.choose {} s).2.2

theorem leaves_ends {α : Type} {plan : FaultPlan} {w : String} {p : Worker α} {s : PathState}
    {r : Except Failure α} {y : Progress} (h : Ends plan w p ({}, files s) r y) :
    leaves plan w p s = y.2 := by
  obtain ⟨s', hrun, hfiles⟩ := h s rfl
  unfold leaves
  rw [hrun]
  exact hfiles

theorem recoveries_agree_iff (plan : FaultPlan) (workerId : String) (staleAfter : Nat)
    (s : PathState) :
    leaves plan workerId (recoverOrphanedBackups workerId staleAfter) s =
        leaves plan workerId (recoverSourcePath workerId staleAfter) s ↔
      ¬Drifts plan workerId staleAfter (files s) := by
  obtain ⟨_, hscan, -⟩ := @recoverOrphanedBackups_ends plan workerId ({}, files s) workerId staleAfter
  obtain ⟨_, hclaim, -⟩ := @recoverSourcePath_ends plan workerId ({}, files s) workerId staleAfter
  rw [leaves_ends hscan, leaves_ends hclaim]
  exact agrees_iff

-- A killed encode left a temp output but its lock was removed.
def loneOutput : PathState := { NeverLose.samplePath with tmp := some [9] }

theorem not_recoveries_agree :
    ¬∀ (plan : FaultPlan) (workerId : String) (staleAfter : Nat) (s : PathState),
      leaves plan workerId (recoverOrphanedBackups workerId staleAfter) s =
        leaves plan workerId (recoverSourcePath workerId staleAfter) s := by
  intro h
  have hagree := h ⟨fun _ => false, fun _ _ => false⟩ "a" recoveryStaleLock loneOutput
  exact absurd hagree (by decide +kernel)

end TranscodeForge.Drift
