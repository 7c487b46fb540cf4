import TranscodeForge.Interaction.Sequence
import TranscodeForge.Storage.FileTree
import TranscodeForge.Worker.Filesystem
import Mathlib.Data.List.Infix
import Mathlib.Data.List.Sort
import Mathlib.Data.String.Basic

namespace TranscodeForge.StartupScan

open Interaction Storage SourcePath Filesystem

def bakSuffix : List Char := ".tf_bak".toList

def lockSuffix : List Char := ".tf_lock".toList

-- `str.replace(marker, "", 1)`.
def removeFirst (marker : List Char) : List Char → List Char
  | [] => []
  | c :: cs => if marker <+: c :: cs then (c :: cs).drop marker.length else c :: removeFirst marker cs

-- `str.removesuffix`.
def removeSuffix (marker text : List Char) : List Char :=
  if marker <:+ text then text.take (text.length - marker.length) else text

inductive Pattern where
  | backups
  | locks
deriving DecidableEq, Repr

def Pattern.fits (name : String) : Pattern → Bool
  | .backups => bakSuffix <:+: name.toList
  | .locks => lockSuffix <:+ name.toList

-- `source` is the name a call acts for; the call itself does not use it.
inductive Action where
  | isDir (root : List String)
  | rglob (root : List String) (pattern : Pattern)
  | isFile (pattern : Pattern) (p : Path)
  | exists (p : Path)
  | readLock (p : Path)
  | now
  | replace (source src dst : Path)
  | unlink (source p : Path)
deriving DecidableEq, Repr

abbrev Action.Answer : Action → Type
  | .isDir _ | .isFile _ _ | .exists _ => Except OSError Bool
  | .rglob _ _ => Except OSError (List Path)
  | .readLock _ => Except OSError LockText
  | .now => Nat
  | .replace _ _ _ | .unlink _ _ => Except OSError Unit

abbrev Scan := Program Action Action.Answer Failure

structure ScanState (C : Type) where
  tree : FileTree C
  clock : Nat

section World

variable {C : Type} (lockText : C → LockText)

def isDirectory (t : FileTree C) (root : List String) : Bool :=
  root = [] || t.rows.any fun e =>
    e.path.parts = root && (match e.node with | .directory => true | .file _ => false)

-- `sorted(root.rglob(pattern))`.
def listing (t : FileTree C) (root : List String) (pattern : Pattern) : List Path :=
  ((t.rows.map Entry.path).filter fun p => root <+: p.dir && pattern.fits p.name).insertionSort
    fun p q => p.parts ≤ q.parts

-- The input says whether the call fails.
def exec : (a : Action) → Bool → ScanState C → ScanState C × a.Answer
  | .isDir root, fault, s => (s, if fault then .error .other else .ok (isDirectory s.tree root))
  | .rglob root pattern, fault, s =>
    (s, if fault then .error .other else .ok (listing s.tree root pattern))
  | .isFile _ p, fault, s => (s, if fault then .error .other else .ok (s.tree.isFile p))
  | .exists p, fault, s => (s, if fault then .error .other else .ok (s.tree.present p))
  | .readLock p, fault, s =>
    (s, if fault then .error .other else
      match s.tree.node p with
      | some (.file content) => .ok (lockText content)
      | some .directory => .error .other
      | none => .error .notFound)
  | .now, _, s => (s, s.clock)
  | .replace _ src dst, fault, s =>
    if fault then (s, .error .other) else
      match s.tree.node src, s.tree.node dst with
      | some (.file _), some .directory => (s, .error .other)
      | some (.file content), _ => ({ s with tree := s.tree.move content src dst }, .ok ())
      | some .directory, _ => (s, .error .other)
      | none, _ => (s, .error .notFound)
  | .unlink _ p, fault, s =>
    if fault then (s, .error .other) else
      match s.tree.node p with
      | some (.file _) => ({ s with tree := s.tree.remove p }, .ok ())
      | some .directory => (s, .error .other)
      | none => (s, .error .notFound)

def handler : Handler Unit Action Action.Answer (ScanState C) Bool where
  exec := fun _ => exec lockText

-- Between the calls only time passes.
def TimePasses (s s' : ScanState C) : Prop := s'.tree = s.tree ∧ s.clock ≤ s'.clock

end World

def ask {α : Type} (p : Scan (Except OSError α)) : Scan α :=
  p.bind fun r => .ofExcept (r.mapError .os)

-- `PurePath.with_name` refuses an empty name and a dot.
def withName (p : Path) (name : List Char) : Scan Path :=
  if name = [] ∨ name = ['.'] then .raise (.value "Invalid name")
  else .ret { p with name := String.ofList name }

def lockPath (p : Path) : Path := { p with name := (pipelineArtifacts p.name).lock }

def tmpPath (p : Path) : Path := { p with name := (pipelineArtifacts p.name).tmp }

def bakPath (p : Path) : Path := { p with name := (pipelineArtifacts p.name).bak }

def readLock (lock : Path) : Scan (Option (Option String × Nat)) := do
  match ← .call (.readLock lock) .ret with
  | .ok (.object _ lockWorker timestamp) => pure (timestamp.map fun ts => (lockWorker, ts))
  | .ok .value => .raise (.attribute "object has no attribute 'get'")
  | _ => pure none

def lockIsActive (lock : Path) (workerId : String) (staleAfter : Nat) : Scan Bool := do
  match ← readLock lock with
  | none => pure false
  | some (lockWorker, ts) =>
    if lockWorker = some workerId then pure false
    else do
      let now ← .call .now .ret
      pure (decide (now < ts + staleAfter))

def lockedElsewhere (lock : Path) (workerId : String) (staleAfter : Nat) : Scan Bool := do
  if ← ask (.call (.exists lock) .ret) then lockIsActive lock workerId staleAfter
  else pure false

def looksFinished (original lock : Path) : Scan Bool := do
  if ← ask (.call (.exists original) .ret) then do
    let locked ← ask (.call (.exists lock) .ret)
    pure (!locked)
  else pure false

def deleteLeftover (source p : Path) : Scan Nat :=
  .call (.exists p) fun
    | .ok true => .call (.unlink source p) fun
      | .ok () => .ret 1
      | .error _ => .ret 0
    | _ => .ret 0

def restoreBackup (original bak : Path) : Scan (Except OSError Unit) :=
  .call (.exists original) fun
    | .error e => .ret (.error e)
    | .ok _ => .call (.replace original bak original) .ret

def restored (original : Path) (stats : RecoveryStats) : Except OSError Unit → Scan RecoveryStats
  | .error _ => .ret stats
  | .ok () => do
    let locks ← deleteLeftover original (lockPath original)
    let tmps ← deleteLeftover original (tmpPath original)
    pure { stats with
      restored := stats.restored + 1
      locksRemoved := stats.locksRemoved + locks
      tmpRemoved := stats.tmpRemoved + tmps }

def recoverOriginal (workerId : String) (staleAfter : Nat) (bak original : Path)
    (stats : RecoveryStats) : Scan RecoveryStats := do
  if ← lockedElsewhere (lockPath original) workerId staleAfter then
    pure { stats with skippedActive := stats.skippedActive + 1 }
  else do
    if ← looksFinished original (lockPath original) then
      pure { stats with needsAttention := stats.needsAttention + 1 }
    else (restoreBackup original bak).bind (restored original stats)

def unmarked (bak : Path) : List Char := removeFirst bakSuffix bak.name.toList

def recoverBackup (workerId : String) (staleAfter : Nat) (bak : Path) (stats : RecoveryStats) :
    Scan RecoveryStats := do
  let present ← ask (.call (.isFile .backups bak) .ret)
  if present && Pattern.fits bak.name .backups then do
    let original ← withName bak (unmarked bak)
    recoverOriginal workerId staleAfter bak original stats
  else pure stats

def removeStaleLock (workerId : String) (staleAfter : Nat) (lock : Path) (stats : RecoveryStats) :
    Scan RecoveryStats := do
  if ← ask (.call (.isFile .locks lock) .ret) then do
    if ← lockIsActive lock workerId staleAfter then pure stats
    else do
      let original ← withName lock (removeSuffix lockSuffix lock.name.toList)
      .call (.unlink original lock) fun
        | .error _ => .ret stats
        | .ok () => do
          let tmps ← deleteLeftover original (tmpPath original)
          pure { stats with
            locksRemoved := stats.locksRemoved + 1
            tmpRemoved := stats.tmpRemoved + tmps }
  else pure stats

def through {β : Type} (body : β → RecoveryStats → Scan RecoveryStats) :
    List β → RecoveryStats → Scan RecoveryStats
  | [], stats => .ret stats
  | b :: bs, stats => (body b stats).bind (through body bs)

def recoverUnder (workerId : String) (staleAfter : Nat) (root : List String)
    (stats : RecoveryStats) : Scan RecoveryStats := do
  if ← ask (.call (.isDir root) .ret) then do
    let baks ← ask (.call (.rglob root .backups) .ret)
    let stats ← through (recoverBackup workerId staleAfter) baks stats
    let locks ← ask (.call (.rglob root .locks) .ret)
    through (removeStaleLock workerId staleAfter) locks stats
  else pure stats

def recoverOrphanedBackups (workerId : String) (staleAfter : Nat) (roots : List (List String)) :
    Scan RecoveryStats :=
  through (recoverUnder workerId staleAfter) roots {}

-- What a call of the recovery may do to a path: the source it acts for, or a sidecar of that.
section Sidecars

variable {C : Type}

def sidecars (x : Path) : List Path := [lockPath x, tmpPath x, bakPath x]

def Action.source : Action → Option Path
  | .replace source _ _ => some source
  | .unlink source _ => some source
  | _ => none

def Own (a : Action) (s s' : ScanState C) : Prop :=
  ∀ q, s'.tree.node q ≠ s.tree.node q → ∃ x, a.source = some x ∧
    (q ∈ sidecars x ∨ q = x ∧ a = .replace x (bakPath x) x)

def original (bak : Path) : Path := { bak with name := String.ofList (unmarked bak) }

def Named (bak : Path) : Prop := bakPath (original bak) = bak

instance (bak : Path) : Decidable (Named bak) := inferInstanceAs (Decidable (_ = _))

-- The restore is refused: no valid name, a directory, or a file that looks finished.
def Spared (t : FileTree C) (bak : Path) : Prop :=
  (unmarked bak = [] ∨ unmarked bak = ['.']) ∨ t.node (original bak) = some .directory ∨
    t.isFile (original bak) = true ∧ t.present (lockPath (original bak)) = false

instance [DecidableEq C] (t : FileTree C) (bak : Path) : Decidable (Spared t bak) :=
  inferInstanceAs (Decidable (_ ∨ _))

def Admitted (a : Action) (s : ScanState C) : Prop :=
  ∀ bak, a = .isFile .backups bak → s.tree.isFile bak = true →
    Pattern.fits bak.name .backups = true → Named bak ∨ Spared s.tree bak

end Sidecars

section Sound

variable {C : Type} (lockText : C → LockText)

def admitting : Contract Action (ScanState C) Bool where
  rely := TimePasses
  assume a _ s := Admitted a s
  guar a _ s s' := Own a s s'

-- The calls that change nothing, but for those that find a backup.
def Looking : Action → Prop
  | .replace _ _ _ | .unlink _ _ | .isFile .backups _ => False
  | _ => True

def Safe {α : Type} (p : Scan α) (s : ScanState C) : Prop :=
  p.wp (handler lockText) () admitting (fun _ _ => True) s

def Harmless (a : Action) : Prop := ∀ i s, Own a s (exec lockText a i s).1

variable {lockText}

theorem looking_tree {c : Action} (h : Looking c) (i : Bool) (s : ScanState C) :
    (exec lockText c i s).1 = s := by
  cases c with
  | replace source src dst => exact h.elim
  | unlink source p => exact h.elim
  | _ => rfl

theorem own_of_eq {a : Action} {s s' : ScanState C} (h : s'.tree = s.tree) : Own a s s' :=
  fun q hq => (hq (by rw [h])).elim

theorem looking_wp {α : Type} {p : Scan α} {s : ScanState C} {t : FileTree C} (hs : s.tree = t)
    (hp : p.Calls Looking) :
    p.wp (handler lockText) () admitting (fun _ s' => s'.tree = t) s := by
  refine Program.wp_of_calls hp hs (fun s₁ s₂ h₁ h₂ => h₂.1.trans h₁) fun _ i s₁ ha h₁ _ _ => ?_
  have hstill : (exec lockText _ i s₁).1 = s₁ := looking_tree ha i s₁
  refine ⟨own_of_eq (by rw [Handler.next, handler, hstill]), ?_⟩
  rw [Handler.next, handler, hstill]
  exact h₁

theorem harmless_safe {α : Type} {p : Scan α} (hp : p.Calls (Harmless lockText)) (s : ScanState C) :
    Safe lockText p s :=
  Program.wp_mono (Program.wp_of_calls (P := fun _ => True) hp trivial (fun _ _ _ _ => trivial)
    fun _ i s ha _ _ _ => ⟨ha i s, trivial⟩) fun _ _ _ => trivial

theorem looking_harmless {a : Action} (h : Looking a) : Harmless lockText a :=
  fun i s => own_of_eq (by rw [looking_tree h])

theorem unlink_harmless {source p : Path} (h : p ∈ sidecars source) :
    Harmless lockText (.unlink source p) := by
  intro i s q hq
  rw [exec] at hq
  split at hq
  · exact (hq rfl).elim
  · split at hq
    · next content hfile =>
      have hname := FileTree.isFile_name (FileTree.isFile_iff.mpr ⟨content, hfile⟩)
      rw [FileTree.node_remove q hname] at hq
      by_cases hpq : p = q
      · exact ⟨source, rfl, .inl (hpq ▸ h)⟩
      · rw [if_neg hpq] at hq
        exact (hq rfl).elim
    · exact (hq rfl).elim
    · exact (hq rfl).elim

theorem replace_harmless (x : Path) : Harmless lockText (.replace x (bakPath x) x) := by
  intro i s q hq
  rw [exec] at hq
  split at hq
  · exact (hq rfl).elim
  · split at hq
    · exact (hq rfl).elim
    · next content hfile hdst =>
      have hsrc := FileTree.isFile_name (FileTree.isFile_iff.mpr ⟨content, hfile⟩)
      have hname : x.name ≠ ".." := by
        intro hname
        exact hdst (by rw [FileTree.node, if_pos hname])
      rw [FileTree.node_move q hsrc hname] at hq
      by_cases hx : x = q
      · exact ⟨x, rfl, .inr ⟨hx.symm, rfl⟩⟩
      · by_cases hbak : bakPath x = q
        · exact ⟨x, rfl, .inl (by simp [sidecars, hbak])⟩
        · rw [if_neg hx, if_neg hbak] at hq
          exact (hq rfl).elim
    · exact (hq rfl).elim
    · exact (hq rfl).elim

section Calls

variable {A : Action → Prop}

theorem ask_calls {α : Type} {p : Scan (Except OSError α)} (h : p.Calls A) : (ask p).Calls A :=
  h.bind fun _ => .ofExcept _

theorem look_calls {p : Path} (h : A (.exists p)) : (ask (.call (.exists p) .ret)).Calls A :=
  ask_calls ⟨h, fun _ => trivial⟩

theorem isFile_calls {pattern : Pattern} {p : Path} (h : A (.isFile pattern p)) :
    (ask (.call (.isFile pattern p) .ret)).Calls A :=
  ask_calls ⟨h, fun _ => trivial⟩

theorem readLock_looking (lock : Path) : (readLock lock).Calls Looking := by
  refine ⟨trivial, fun text => ?_⟩
  rcases text with e | (_ | _ | _ | ⟨jobId, worker, ts⟩) <;> trivial

theorem lockIsActive_looking (lock : Path) (workerId : String) (staleAfter : Nat) :
    (lockIsActive lock workerId staleAfter).Calls Looking := by
  refine (readLock_looking lock).bind fun parsed => ?_
  rcases parsed with _ | ⟨lockWorker, ts⟩
  · trivial
  · dsimp only
    split
    · trivial
    · exact ⟨trivial, fun _ => trivial⟩

theorem lockedElsewhere_looking (lock : Path) (workerId : String) (staleAfter : Nat) :
    (lockedElsewhere lock workerId staleAfter).Calls Looking := by
  refine (look_calls (A := Looking) trivial).bind fun present => ?_
  split
  · exact lockIsActive_looking ..
  · trivial

theorem looksFinished_looking (x lock : Path) : (looksFinished x lock).Calls Looking := by
  refine (look_calls (A := Looking) trivial).bind fun present => ?_
  split
  · exact (look_calls (A := Looking) trivial).bind fun _ => trivial
  · trivial

variable (hlook : ∀ a, Looking a → A a)

include hlook

theorem deleteLeftover_calls {source p : Path} (h : A (.unlink source p)) :
    (deleteLeftover source p).Calls A := by
  refine ⟨hlook _ trivial, fun present => ?_⟩
  rcases present with e | _ | _
  · trivial
  · trivial
  · refine ⟨h, fun deleted => ?_⟩
    cases deleted <;> trivial

theorem restored_calls {x : Path} (hunlink : ∀ p ∈ sidecars x, A (.unlink x p))
    (stats : RecoveryStats) (replaced : Except OSError Unit) :
    (restored x stats replaced).Calls A := by
  cases replaced with
  | error e => trivial
  | ok _ =>
    exact (deleteLeftover_calls hlook (hunlink _ (by simp [sidecars]))).bind fun _ =>
      (deleteLeftover_calls hlook (hunlink _ (by simp [sidecars]))).bind fun _ => trivial

theorem restoreBackup_calls {x bak : Path} (hreplace : A (.replace x bak x)) :
    (restoreBackup x bak).Calls A := by
  refine ⟨hlook _ trivial, fun present => ?_⟩
  cases present with
  | error e => trivial
  | ok _ => exact ⟨hreplace, fun _ => trivial⟩

theorem recoverOriginal_calls (workerId : String) (staleAfter : Nat) {x bak : Path}
    (hunlink : ∀ p ∈ sidecars x, A (.unlink x p)) (hreplace : A (.replace x bak x))
    (stats : RecoveryStats) : (recoverOriginal workerId staleAfter bak x stats).Calls A := by
  refine ((lockedElsewhere_looking ..).mono hlook).bind fun active => ?_
  split
  · trivial
  · refine ((looksFinished_looking ..).mono hlook).bind fun finished => ?_
    split
    · trivial
    · exact (restoreBackup_calls hlook hreplace).bind fun _ => restored_calls hlook hunlink ..

theorem removeStaleLock_calls (workerId : String) (staleAfter : Nat) {lock : Path}
    (hlock : ∀ name, withName lock (removeSuffix lockSuffix lock.name.toList) = .ret name →
      A (.unlink name lock))
    (hunlink : ∀ x, ∀ p ∈ sidecars x, A (.unlink x p)) (stats : RecoveryStats) :
    (removeStaleLock workerId staleAfter lock stats).Calls A := by
  refine (isFile_calls (hlook (.isFile .locks lock) trivial)).bind fun present => ?_
  split
  · refine ((lockIsActive_looking ..).mono hlook).bind fun active => ?_
    split
    · trivial
    · cases hname : withName lock (removeSuffix lockSuffix lock.name.toList) with
      | raise e => trivial
      | call a k =>
        unfold withName at hname
        split at hname <;> cases hname
      | ret x =>
        refine ⟨hlock x hname, fun deleted => ?_⟩
        cases deleted with
        | error e => trivial
        | ok _ =>
          exact (deleteLeftover_calls hlook (hunlink x _ (by simp [sidecars]))).bind fun _ => trivial
  · trivial

end Calls

-- A name with the suffix of a lock is the lock of what it is without it.
theorem lockPath_removeSuffix {lock : Path} (h : Pattern.fits lock.name .locks = true) :
    lockPath { lock with name := String.ofList (removeSuffix lockSuffix lock.name.toList) } =
      lock := by
  obtain ⟨dir, name⟩ := lock
  obtain ⟨stem, hstem⟩ : lockSuffix <:+ name.toList := of_decide_eq_true h
  have hremoved : removeSuffix lockSuffix name.toList = stem := by
    rw [removeSuffix, if_pos ⟨stem, hstem⟩, ← hstem]
    simp
  have hname : String.ofList stem ++ ".tf_lock" = name := by
    apply String.toList_inj.mp
    rw [String.toList_append, String.toList_ofList]
    exact hstem
  simp only [lockPath, pipelineArtifacts, hremoved, hname]

theorem recoverOriginal_harmless (workerId : String) (staleAfter : Nat) (x : Path)
    (stats : RecoveryStats) :
    (recoverOriginal workerId staleAfter (bakPath x) x stats).Calls (Harmless lockText) :=
  recoverOriginal_calls (fun _ => looking_harmless) workerId staleAfter
    (fun _ => unlink_harmless) (replace_harmless x) stats

theorem removeStaleLock_harmless (workerId : String) (staleAfter : Nat) {lock : Path}
    (hfits : Pattern.fits lock.name .locks = true) (stats : RecoveryStats) :
    (removeStaleLock workerId staleAfter lock stats).Calls (Harmless lockText) := by
  refine removeStaleLock_calls (fun _ => looking_harmless) workerId staleAfter (fun x hx => ?_)
    (fun _ _ => unlink_harmless) stats
  unfold withName at hx
  split at hx
  · cases hx
  · cases hx
    refine unlink_harmless ?_
    rw [sidecars, lockPath_removeSuffix hfits]
    exact List.mem_cons_self

theorem safe_bind {α β : Type} {p : Scan α} {f : α → Scan β} {s : ScanState C}
    (hp : Safe lockText p s) (hf : ∀ a s, Safe lockText (f a) s) : Safe lockText (p.bind f) s :=
  Program.wp_seq hp (fun a s _ => hf a s) fun _ _ _ => trivial

theorem safe_through {β : Type} {body : β → RecoveryStats → Scan RecoveryStats} {bs : List β}
    (h : ∀ b ∈ bs, ∀ stats s, Safe lockText (body b stats) s) (stats : RecoveryStats)
    (s : ScanState C) : Safe lockText (through body bs stats) s := by
  induction bs generalizing stats s with
  | nil => trivial
  | cons b bs ih =>
    exact safe_bind (h b List.mem_cons_self stats s) fun stats s =>
      ih (fun b hb => h b (List.mem_cons_of_mem _ hb)) stats s

-- A rename onto a directory fails.
theorem restoreBackup_directory {x bak : Path} {t : FileTree C} {s : ScanState C}
    (hdir : t.node x = some .directory) (hs : s.tree = t) :
    Safe lockText (restoreBackup x bak) s := by
  intro s₁ hrely _ i _
  refine ⟨own_of_eq rfl, ?_⟩
  cases i with
  | true => trivial
  | false =>
    intro s₂ hrely₂ _ i _
    have htree : s₂.tree.node x = some .directory := by
      rw [hrely₂.1]
      exact (congrArg (fun t => FileTree.node t x) (hrely.1.trans hs)).trans hdir
    have hstill : (exec lockText (.replace x bak x) i s₂).1 = s₂ := by
      rw [exec]
      split
      · rfl
      · rw [htree]
        cases s₂.tree.node bak with
        | none => rfl
        | some node => cases node <;> rfl
    exact ⟨own_of_eq (by rw [Handler.next, handler, hstill]), trivial⟩

theorem looksFinished_finished {x lock : Path} {t : FileTree C} {s : ScanState C}
    (hfile : t.isFile x = true) (hlock : t.present lock = false) (hs : s.tree = t) :
    (looksFinished x lock).wp (handler lockText) () admitting (fun o _ => o ≠ .ok false) s := by
  have hpresent : t.present x = true := by
    obtain ⟨content, hnode⟩ := FileTree.isFile_iff.mp hfile
    rw [FileTree.present, hnode]
    rfl
  intro s₁ hrely _ i _
  refine ⟨own_of_eq rfl, ?_⟩
  have htree := hrely.1.trans hs
  cases i with
  | true => exact fun h => (by cases h)
  | false =>
    have hanswer : (handler lockText).answer () (.exists x) false s₁ = .ok true := by
      simp [Handler.answer, handler, exec, htree, hpresent]
    rw [hanswer]
    intro s₂ hrely₂ _ i _
    refine ⟨own_of_eq rfl, ?_⟩
    have htree₂ : s₂.tree = t := hrely₂.1.trans htree
    cases i with
    | true => exact fun h => (by cases h)
    | false =>
      have hlocked : (handler lockText).answer () (.exists lock) false s₂ = .ok false := by
        simp [Handler.answer, handler, exec, htree₂, hlock]
      rw [hlocked]
      exact fun h => (by cases h)

theorem recoverOriginal_spared {workerId : String} {staleAfter : Nat} {x bak : Path}
    {stats : RecoveryStats} {s : ScanState C}
    (hspared : s.tree.node x = some .directory ∨
      s.tree.isFile x = true ∧ s.tree.present (lockPath x) = false) :
    Safe lockText (recoverOriginal workerId staleAfter bak x stats) s := by
  refine Program.wp_seq (looking_wp rfl (lockedElsewhere_looking ..)) (fun active s₁ h₁ => ?_)
    fun _ _ _ => trivial
  split
  · trivial
  · rcases hspared with hdir | ⟨hfile, hlock⟩
    · refine Program.wp_seq (looking_wp h₁ (looksFinished_looking ..)) (fun finished s₂ h₂ => ?_)
        fun _ _ _ => trivial
      split
      · trivial
      · exact safe_bind (restoreBackup_directory hdir h₂) fun _ s =>
          harmless_safe (restored_calls (fun _ => looking_harmless) (fun _ => unlink_harmless) ..) s
    · refine Program.wp_seq (looksFinished_finished hfile hlock h₁) (fun finished s₂ h₂ => ?_)
        fun _ _ _ => trivial
      cases finished with
      | true => trivial
      | false => exact (h₂ rfl).elim

theorem recoverBackup_safe (workerId : String) (staleAfter : Nat) (bak : Path)
    (stats : RecoveryStats) (s : ScanState C) :
    Safe lockText (recoverBackup workerId staleAfter bak stats) s := by
  intro s₁ _ _ i hadmitted
  refine ⟨own_of_eq rfl, ?_⟩
  cases i with
  | true => trivial
  | false =>
    cases hfile : s₁.tree.isFile bak with
    | false =>
      have hanswer : (handler lockText).answer () (.isFile .backups bak) false s₁ = .ok false := by
        simp [Handler.answer, handler, exec, hfile]
      rw [hanswer]
      trivial
    | true =>
      have hanswer : (handler lockText).answer () (.isFile .backups bak) false s₁ = .ok true := by
        simp [Handler.answer, handler, exec, hfile]
      rw [hanswer]
      cases hfits : Pattern.fits bak.name .backups with
      | false =>
        simp only [Bool.and_false]
        trivial
      | true =>
        have hbody : Safe lockText ((withName bak (unmarked bak)).bind fun x =>
            recoverOriginal workerId staleAfter bak x stats) s₁ := by
          unfold withName
          split
          · trivial
          · next hvalid =>
            rcases hadmitted bak rfl hfile hfits with hnamed | hinvalid | hspared
            · have hcalls : (recoverOriginal workerId staleAfter (bakPath (original bak))
                  (original bak) stats).Calls (Harmless lockText) := recoverOriginal_harmless ..
              rw [hnamed] at hcalls
              exact harmless_safe hcalls s₁
            · exact (hvalid hinvalid).elim
            · exact recoverOriginal_spared hspared
        exact hbody

theorem mem_listing {t : FileTree C} {root : List String} {pattern : Pattern} {p : Path}
    (h : p ∈ listing t root pattern) : Pattern.fits p.name pattern = true := by
  have hfilter := List.mem_filter.mp ((List.mem_insertionSort _).mp h)
  exact (Bool.and_eq_true_iff.mp hfilter.2).2

theorem recoverUnder_safe (workerId : String) (staleAfter : Nat) (root : List String)
    (stats : RecoveryStats) (s : ScanState C) :
    Safe lockText (recoverUnder workerId staleAfter root stats) s := by
  refine safe_bind (harmless_safe ?_ s) fun present s => ?_
  · exact ask_calls ⟨looking_harmless trivial, fun _ => trivial⟩
  split
  · refine safe_bind (harmless_safe ?_ s) fun baks s => ?_
    · exact ask_calls ⟨looking_harmless trivial, fun _ => trivial⟩
    refine safe_bind (safe_through (fun bak _ => recoverBackup_safe _ _ bak) stats s)
      fun stats s => ?_
    intro s₁ _ _ i _
    refine ⟨own_of_eq rfl, ?_⟩
    cases i with
    | true => trivial
    | false =>
      exact safe_through (fun lock hlock stats s =>
        harmless_safe (removeStaleLock_harmless _ _ (mem_listing hlock) stats) s) stats s₁
  · trivial

theorem recoverOrphanedBackups_safe (workerId : String) (staleAfter : Nat)
    (roots : List (List String)) (s : ScanState C) :
    Safe lockText (recoverOrphanedBackups workerId staleAfter roots) s :=
  safe_through (fun root _ => recoverUnder_safe _ _ root) {} s

end Sound

end TranscodeForge.StartupScan
