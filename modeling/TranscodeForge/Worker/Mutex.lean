import TranscodeForge.Worker.Exclusion
import TranscodeForge.Worker.TwoOwners

namespace TranscodeForge.Mutex

open Interaction SourcePath Filesystem Ownership Pipeline Phases CallClasses Recovery Owners
  LockSteps Exclusion NeverLose TwoOwners

def Fresh (staleAfter : Nat) (s : PathState) (h : Hold) : Prop := s.clock < h.stamp + staleAfter

-- A lock is its holder's by its token, and by its inode until that is written.
def Carries (w : String) (h : Hold) (l : LockFile) : Prop :=
  if h.written then l.text.workerId = some w ∧ l.text.timestamp = some h.stamp
  else l.inode = h.inode

structure LockInvariant (staleAfter : Nat) (s : PathState) : Prop where
  carried : ∀ w h, s.hold w = some h → Fresh staleAfter s h → ∃ l, s.lock = some l ∧ Carries w h l
  handle : ∀ w h, s.hold w = some h → h.written = false → (s.own w).lockHandle = some h.inode
  empty : ∀ w h l, s.hold w = some h → h.written = false → s.lock = some l →
    l.inode = h.inode → l.text = .invalid
  distinct : ∀ w w' n, (s.own w).lockHandle = some n → (s.own w').lockHandle = some n → w = w'
  handleBound : ∀ w n, (s.own w).lockHandle = some n → n < s.nextInode
  lockBound : ∀ l, s.lock = some l → l.inode < s.nextInode
  newBound : ∀ l, s.lockNew = some l → l.inode < s.nextInode
  newApart : ∀ w n l, (s.own w).lockHandle = some n → s.lockNew = some l → l.inode ≠ n

-- At most one worker has a hold that was stamped within the stale window.
def Exclusive (staleAfter : Nat) (s : PathState) : Prop :=
  ∀ w w' h h', s.hold w = some h → s.hold w' = some h' → Fresh staleAfter s h →
    Fresh staleAfter s h' → w = w'

-- A call that takes the lock away or replaces it.
def Takes (e : OwnerCall) : Prop :=
  e.input.fault = false ∧ (e.op.action = .unlink .lock ∧ e.pre.lock.isSome ∨
    e.op.action = .replaceLock ∧ e.pre.lockNew.isSome)

-- A call that takes the lock finds the one its actor last read there, none that another worker
-- has just created and not yet written, and its own token in the `.new` file.
structure Timely (staleAfter : Nat) (e : OwnerCall) : Prop where
  stands : Takes e → e.pre.lock = e.pre.sawLock e.thread
  written : Takes e → ∀ l, e.pre.lock = some l → l.text = .invalid → ∀ w h, w ≠ e.thread.worker →
    e.pre.hold w = some h → h.written = false → Fresh staleAfter e.pre h → l.inode ≠ h.inode
  mine : Takes e → e.op.action = .replaceLock → ∀ l, e.pre.lockNew = some l →
    l.text.workerId = some e.thread.worker ∧ l.text.timestamp.isSome

section Invariant

variable {staleAfter : Nat} {a : Actor} {r : Errand} {c : Call} {s s' : PathState}

theorem LockInvariant.exclusive (h : LockInvariant staleAfter s) : Exclusive staleAfter s := by
  intro w w' k k' hk hk' hfresh hfresh'
  obtain ⟨l, hl, hcarries⟩ := h.carried w k hk hfresh
  obtain ⟨l', hl', hcarries'⟩ := h.carried w' k' hk' hfresh'
  obtain rfl : l = l' := Option.some.inj (hl.symm.trans hl')
  have hempty : ∀ v i, s.hold v = some i → i.written = false → l.inode = i.inode →
      l.text.workerId = none := by
    intro v i hi hwritten hinode
    rw [h.empty v i l hi hwritten hl hinode]
    rfl
  unfold Carries at hcarries hcarries'
  cases hw : k.written <;> cases hw' : k'.written <;> simp only [hw, hw', if_true] at hcarries hcarries'
  · have hhandle := h.handle w k hk hw
    have hhandle' := h.handle w' k' hk' hw'
    rw [← hcarries, hcarries'] at hhandle
    exact h.distinct w w' _ hhandle hhandle'
  · have hnone := hempty w k hk hw hcarries
    rw [hcarries'.1] at hnone
    cases hnone
  · have hnone := hempty w' k' hk' hw' hcarries'
    rw [hcarries.1] at hnone
    cases hnone
  · exact Option.some.inj (hcarries.1.symm.trans hcarries'.1)

-- Whoever takes the lock that it read as its own, or judged, takes it from no fresh hold.
theorem LockInvariant.others_stale (h : LockInvariant staleAfter s)
    (hstands : s.lock = s.sawLock a) (hproper : Ours a s ∨ Judged staleAfter a s)
    (hwritten : ∀ l, s.lock = some l → l.text = .invalid → ∀ w k, w ≠ a.worker →
      s.hold w = some k → k.written = false → Fresh staleAfter s k → l.inode ≠ k.inode)
    (w : String) (k : Hold) (hw : w ≠ a.worker) (hk : s.hold w = some k) :
    ¬Fresh staleAfter s k := by
  intro hfresh
  obtain ⟨l, hl, hcarries⟩ := h.carried w k hk hfresh
  cases hwr : k.written with
  | false =>
    have hinode : l.inode = k.inode := by simpa [Carries, hwr] using hcarries
    exact hwritten l hl (h.empty w k l hk hwr hl hinode) w k hw hk hwr hfresh hinode
  | true =>
    obtain ⟨hworker, hstamp⟩ : l.text.workerId = some w ∧ l.text.timestamp = some k.stamp := by
      simpa [Carries, hwr] using hcarries
    have hsaw : s.sawLock a = some l := hstands.symm.trans hl
    rcases hproper with hours | hjudged
    · have hown := hours l hsaw
      rw [hworker] at hown
      exact hw (Option.some.inj hown)
    · have hrevocable := hjudged l hsaw
      unfold Revocable at hrevocable
      rcases htext : l.text with _ | _ | _ | ⟨job, lockWorker, ts⟩ <;> rw [htext] at hworker hstamp
      · cases hworker
      · cases hworker
      · cases hworker
      · simp only [LockText.workerId, LockText.timestamp] at hworker hstamp
        subst hworker hstamp
        simp only [htext, Option.some.injEq] at hrevocable
        unfold Fresh at hfresh
        rcases hrevocable with heq | hle
        · exact hw heq
        · omega

-- A step that leaves the files of the lock alone and at most forgets holds.
theorem LockInvariant.forget (h : LockInvariant staleAfter s) (hlock : s'.lock = s.lock)
    (hnew : s'.lockNew = s.lockNew) (hinode : s'.nextInode = s.nextInode)
    (hclock : s.clock ≤ s'.clock) (hhold : ∀ w, s'.hold w = s.hold w ∨ s'.hold w = none)
    (hown : ∀ w, (s'.own w).lockHandle = (s.own w).lockHandle ∨
      (s'.own w).lockHandle = none ∧ s'.hold w = none) : LockInvariant staleAfter s' := by
  have hheld : ∀ w k, s'.hold w = some k → s.hold w = some k := by
    intro w k hk
    rcases hhold w with heq | hnone
    · rwa [heq] at hk
    · rw [hnone] at hk
      cases hk
  have hhandled : ∀ w n, (s'.own w).lockHandle = some n → (s.own w).lockHandle = some n := by
    intro w n hn
    rcases hown w with heq | ⟨hnone, -⟩
    · rwa [heq] at hn
    · rw [hnone] at hn
      cases hn
  constructor
  · intro w k hk hfresh
    rw [hlock]
    exact h.carried w k (hheld w k hk) (lt_of_le_of_lt hclock hfresh)
  · intro w k hk hwritten
    rcases hown w with heq | ⟨-, hnone⟩
    · rw [heq]
      exact h.handle w k (hheld w k hk) hwritten
    · rw [hnone] at hk
      cases hk
  · intro w k l hk hwritten hl hli
    rw [hlock] at hl
    exact h.empty w k l (hheld w k hk) hwritten hl hli
  · intro w w' n hn hn'
    exact h.distinct w w' n (hhandled w n hn) (hhandled w' n hn')
  · intro w n hn
    rw [hinode]
    exact h.handleBound w n (hhandled w n hn)
  · intro l hl
    rw [hlock] at hl
    rw [hinode]
    exact h.lockBound l hl
  · intro l hl
    rw [hnew] at hl
    rw [hinode]
    exact h.newBound l hl
  · intro w n l hn hl
    rw [hnew] at hl
    exact h.newApart w n l (hhandled w n hn) hl

theorem LockInvariant.depart (h : LockInvariant staleAfter s) (w : String) :
    LockInvariant staleAfter (depart w s) := by
  refine h.forget rfl rfl rfl le_rfl (fun v => ?_) fun v => ?_
  · by_cases hv : v = w
    · subst hv
      exact .inr (by simp [Owners.depart, PathState.setHold])
    · exact .inl (Function.update_of_ne hv _ _)
  · by_cases hv : v = w
    · subst hv
      exact .inr (by simp [Owners.depart, PathState.setHold, PathState.setOwn])
    · exact .inl (congrArg Own.lockHandle (Function.update_of_ne hv _ _))

theorem LockInvariant.created (h : LockInvariant staleAfter s) (hfree : s.lock = none) :
    LockInvariant staleAfter (s.createLock a) := by
  have hstale : ∀ w k, s.hold w = some k → ¬Fresh staleAfter s k := by
    intro w k hk hfresh
    obtain ⟨l, hl, -⟩ := h.carried w k hk hfresh
    rw [hfree] at hl
    cases hl
  have hhold : ∀ w, w ≠ a.worker → (s.createLock a).hold w = s.hold w := fun w hw =>
    Function.update_of_ne hw _ _
  have hholdSelf : (s.createLock a).hold a.worker = some ⟨s.nextInode, s.clock, false⟩ :=
    Function.update_self ..
  have hhandle : ∀ w, w ≠ a.worker →
      ((s.createLock a).own w).lockHandle = (s.own w).lockHandle := fun w hw =>
    congrArg Own.lockHandle (Function.update_of_ne hw _ _)
  have hhandleSelf : ((s.createLock a).own a.worker).lockHandle = some s.nextInode := by
    simp [PathState.createLock, PathState.setHold, PathState.setSaw, PathState.setOwn]
  have hlock : (s.createLock a).lock = some ⟨s.nextInode, .invalid⟩ := rfl
  constructor
  · intro w k hk hfresh
    by_cases hw : w = a.worker
    · subst hw
      obtain rfl := Option.some.inj (hholdSelf.symm.trans hk)
      exact ⟨_, rfl, rfl⟩
    · rw [hhold w hw] at hk
      exact absurd hfresh (hstale w k hk)
  · intro w k hk hwritten
    by_cases hw : w = a.worker
    · subst hw
      obtain rfl := Option.some.inj (hholdSelf.symm.trans hk)
      exact hhandleSelf
    · rw [hhold w hw] at hk
      rw [hhandle w hw]
      exact h.handle w k hk hwritten
  · intro w k l _ _ hl _
    obtain rfl := Option.some.inj (hlock.symm.trans hl)
    rfl
  · intro w w' n hn hn'
    have hbelow : ∀ v m, v ≠ a.worker → ((s.createLock a).own v).lockHandle = some m →
        m < s.nextInode := by
      intro v m hv hm
      rw [hhandle v hv] at hm
      exact h.handleBound v m hm
    by_cases hw : w = a.worker <;> by_cases hw' : w' = a.worker
    · rw [hw, hw']
    · have hlt := hbelow w' n hw' hn'
      rw [hw, hhandleSelf] at hn
      obtain rfl := Option.some.inj hn
      exact absurd hlt (lt_irrefl _)
    · have hlt := hbelow w n hw hn
      rw [hw', hhandleSelf] at hn'
      obtain rfl := Option.some.inj hn'
      exact absurd hlt (lt_irrefl _)
    · rw [hhandle w hw] at hn
      rw [hhandle w' hw'] at hn'
      exact h.distinct w w' n hn hn'
  · intro w n hn
    by_cases hw : w = a.worker
    · rw [hw, hhandleSelf] at hn
      obtain rfl := Option.some.inj hn
      exact Nat.lt_succ_self _
    · rw [hhandle w hw] at hn
      exact Nat.lt_succ_of_lt (h.handleBound w n hn)
  · intro l hl
    obtain rfl := Option.some.inj (hlock.symm.trans hl)
    exact Nat.lt_succ_self _
  · intro l hl
    exact Nat.lt_succ_of_lt (h.newBound l hl)
  · intro w n l hn hl
    by_cases hw : w = a.worker
    · rw [hw, hhandleSelf] at hn
      obtain rfl := Option.some.inj hn
      exact (h.newBound l hl).ne
    · rw [hhandle w hw] at hn
      exact h.newApart w n l hn hl

theorem LockInvariant.wroteNew (h : LockInvariant staleAfter s) (text : LockText) :
    LockInvariant staleAfter { s with
      lockNew := some ⟨(s.lockNew.map LockFile.inode).getD s.nextInode, text⟩
      nextInode := s.nextInode + 1 } := by
  have hinode : (s.lockNew.map LockFile.inode).getD s.nextInode ≤ s.nextInode ∧
      ∀ w n, (s.own w).lockHandle = some n →
        (s.lockNew.map LockFile.inode).getD s.nextInode ≠ n := by
    cases hnew : s.lockNew with
    | none => exact ⟨le_rfl, fun w n hn => (h.handleBound w n hn).ne'⟩
    | some l => exact ⟨(h.newBound l hnew).le, fun w n hn => h.newApart w n l hn hnew⟩
  refine ⟨h.carried, h.handle, h.empty, h.distinct, ?_, ?_, ?_, ?_⟩
  · exact fun w n hn => Nat.lt_succ_of_lt (h.handleBound w n hn)
  · exact fun l hl => Nat.lt_succ_of_lt (h.lockBound l hl)
  · intro l hl
    obtain rfl := Option.some.inj hl
    exact Nat.lt_succ_of_le hinode.1
  · intro w n l hn hl
    obtain rfl := Option.some.inj hl
    exact hinode.2 w n hn

theorem LockInvariant.droppedNew (h : LockInvariant staleAfter s) :
    LockInvariant staleAfter { s with lockNew := none } :=
  ⟨h.carried, h.handle, h.empty, h.distinct, h.handleBound, h.lockBound,
    fun _ hl => (by cases hl), fun _ _ _ _ hl => (by cases hl)⟩

theorem LockInvariant.released (h : LockInvariant staleAfter s)
    (hstale : ∀ w k, w ≠ a.worker → s.hold w = some k → ¬Fresh staleAfter s k) :
    LockInvariant staleAfter
      (({ s with lock := none } : PathState).setHold a.worker none) := by
  have hheld : ∀ w k, Function.update s.hold a.worker none w = some k →
      w ≠ a.worker ∧ s.hold w = some k := by
    intro w k hk
    by_cases hw : w = a.worker
    · subst hw
      simp at hk
    · exact ⟨hw, by rwa [Function.update_of_ne hw] at hk⟩
  refine ⟨?_, ?_, ?_, h.distinct, h.handleBound, ?_, h.newBound, h.newApart⟩
  · intro w k hk hfresh
    obtain ⟨hw, hk⟩ := hheld w k hk
    exact absurd hfresh (hstale w k hw hk)
  · intro w k hk hwritten
    exact h.handle w k (hheld w k hk).2 hwritten
  · intro w k l _ _ hl
    cases hl
  · intro l hl
    cases hl

-- What a stamp does to the holds: only the actor's own is rewritten.
theorem stampHold_cases {w : String} {ts : Nat} {v : String} {k : Hold}
    (hk : (s.stampHold w (some ts)).hold v = some k) :
    v ≠ w ∧ s.hold v = some k ∨ v = w ∧ ∃ k₀, s.hold w = some k₀ ∧ k = ⟨k₀.inode, ts, true⟩ := by
  unfold PathState.stampHold at hk
  split at hk
  · next k₀ hk₀ =>
    by_cases hv : v = w
    · subst hv
      simp only [PathState.setHold, Function.update_self, Option.some.injEq] at hk
      exact .inr ⟨rfl, k₀, hk₀, hk.symm⟩
    · simp only [PathState.setHold, Function.update_of_ne hv] at hk
      exact .inl ⟨hv, hk⟩
  · next hnone =>
    refine .inl ⟨?_, hk⟩
    rintro rfl
    rw [hnone] at hk
    cases hk

theorem LockInvariant.refreshed (h : LockInvariant staleAfter s) {l : LockFile}
    {ts : Nat} (hnew : s.lockNew = some l) (hworker : l.text.workerId = some a.worker)
    (hstamp : l.text.timestamp = some ts)
    (hstale : ∀ w k, w ≠ a.worker → s.hold w = some k → ¬Fresh staleAfter s k) :
    LockInvariant staleAfter
      (PathState.stampHold { s with lock := some l, lockNew := none } a.worker
        l.text.timestamp) := by
  rw [hstamp]
  constructor
  · intro w k hk hfresh
    simp only [PathState.stampHold_lock, Option.some.injEq, exists_eq_left']
    unfold Fresh at hfresh
    rw [PathState.stampHold_clock] at hfresh
    rcases stampHold_cases hk with ⟨hw, hk⟩ | ⟨rfl, k₀, -, rfl⟩
    · exact absurd hfresh (hstale w k hw hk)
    · simp [Carries, hworker, hstamp]
  · intro w k hk hwritten
    rw [PathState.stampHold_own]
    rcases stampHold_cases hk with ⟨-, hk⟩ | ⟨rfl, k₀, -, rfl⟩
    · exact h.handle w k hk hwritten
    · cases hwritten
  · intro w k l' hk hwritten hl' hinode
    simp only [PathState.stampHold_lock, Option.some.injEq] at hl'
    subst hl'
    rcases stampHold_cases hk with ⟨-, hk⟩ | ⟨rfl, k₀, -, rfl⟩
    · exact absurd hinode (h.newApart w k.inode l (h.handle w k hk hwritten) hnew)
    · cases hwritten
  · rw [PathState.stampHold_own]
    exact h.distinct
  · rw [PathState.stampHold_own, PathState.stampHold_nextInode]
    exact h.handleBound
  · intro l' hl'
    simp only [PathState.stampHold_lock, Option.some.injEq] at hl'
    subst hl'
    rw [PathState.stampHold_nextInode]
    exact h.newBound l hnew
  · intro l' hl'
    simp at hl'
  · intro w n l' _ hl'
    simp at hl'

theorem writeThrough_cases (s : PathState) (handle : Option Nat) (text : LockText) :
    (∃ l, s.lock = some l ∧ handle = some l.inode ∧
      s.writeThrough handle text = { s with lock := some { l with text := text } }) ∨
    (∀ l, s.lock = some l → handle ≠ some l.inode) ∧ s.writeThrough handle text = s := by
  unfold PathState.writeThrough
  split
  · next l hl =>
    split
    · next heq => exact .inl ⟨l, hl, heq, rfl⟩
    · next hne =>
      refine .inr ⟨fun l' hl' => ?_, rfl⟩
      obtain rfl := Option.some.inj (hl.symm.trans hl')
      exact hne
  · next hnone =>
    refine .inr ⟨fun l hl => ?_, rfl⟩
    rw [hnone] at hl
    cases hl

-- The write of the token reaches the lock while that is still the file the worker created.
theorem LockInvariant.wrote (h : LockInvariant staleAfter s) {jobId : String} {ts : Nat} {k₀ : Hold}
    (hk₀ : s.hold a.worker = some k₀) (hwritten₀ : k₀.written = false) (hts : ts ≤ k₀.stamp) :
    LockInvariant staleAfter
      ((s.writeThrough (s.own a.worker).lockHandle (token jobId a.worker ts)).stampHold a.worker
        (some ts)) := by
  have hhandle := h.handle a.worker k₀ hk₀ hwritten₀
  rw [hhandle]
  have hother : ∀ w k l, w ≠ a.worker → s.hold w = some k → s.lock = some l →
      l.inode = k₀.inode → ¬Carries w k l := by
    intro w k l hw hk hl hinode hcarries
    unfold Carries at hcarries
    split at hcarries
    · rw [h.empty a.worker k₀ l hk₀ hwritten₀ hl hinode] at hcarries
      cases hcarries.1
    · next hwritten =>
      have hhandle' := h.handle w k hk (by simpa using hwritten)
      rw [← hcarries, hinode] at hhandle'
      exact hw (h.distinct w a.worker _ hhandle' hhandle)
  rcases writeThrough_cases s (some k₀.inode) (token jobId a.worker ts) with
    ⟨l, hl, hinode, he⟩ | ⟨hne, he⟩ <;> rw [he]
  · rw [Option.some.injEq] at hinode
    constructor
    · intro w k hk hfresh
      simp only [PathState.stampHold_lock, Option.some.injEq, exists_eq_left']
      unfold Fresh at hfresh
      rw [PathState.stampHold_clock] at hfresh
      rcases stampHold_cases hk with ⟨hw, hk⟩ | ⟨rfl, k₁, -, rfl⟩
      · obtain ⟨l', hl', hcarries⟩ := h.carried w k hk hfresh
        obtain rfl := Option.some.inj (hl.symm.trans hl')
        exact absurd hcarries (hother w k l hw hk hl hinode.symm)
      · simp [Carries, token, LockText.workerId, LockText.timestamp]
    · intro w k hk hwritten
      rw [PathState.stampHold_own]
      rcases stampHold_cases hk with ⟨-, hk⟩ | ⟨rfl, k₁, -, rfl⟩
      · exact h.handle w k hk hwritten
      · cases hwritten
    · intro w k l' hk hwritten hl' hli
      simp only [PathState.stampHold_lock, Option.some.injEq] at hl'
      subst hl'
      rcases stampHold_cases hk with ⟨hw, hk⟩ | ⟨rfl, k₁, -, rfl⟩
      · exact absurd (by simpa [Carries, hwritten] using hli) (hother w k l hw hk hl hinode.symm)
      · cases hwritten
    · rw [PathState.stampHold_own]
      exact h.distinct
    · rw [PathState.stampHold_own, PathState.stampHold_nextInode]
      exact h.handleBound
    · intro l' hl'
      simp only [PathState.stampHold_lock, Option.some.injEq] at hl'
      subst hl'
      rw [PathState.stampHold_nextInode]
      exact h.lockBound l hl
    · rw [PathState.stampHold_lockNew, PathState.stampHold_nextInode]
      exact h.newBound
    · rw [PathState.stampHold_lockNew, PathState.stampHold_own]
      exact h.newApart
  · constructor
    · intro w k hk hfresh
      rw [PathState.stampHold_lock]
      unfold Fresh at hfresh
      rw [PathState.stampHold_clock] at hfresh
      rcases stampHold_cases hk with ⟨hw, hk⟩ | ⟨rfl, k₁, hk₁, rfl⟩
      · exact h.carried w k hk hfresh
      · have hfresh₀ : Fresh staleAfter s k₀ := by
          unfold Fresh
          exact lt_of_lt_of_le hfresh (Nat.add_le_add_right hts _)
        obtain ⟨l, hl, hcarries⟩ := h.carried a.worker k₀ hk₀ hfresh₀
        have hinode : l.inode = k₀.inode := by simpa [Carries, hwritten₀] using hcarries
        exact absurd (congrArg some hinode.symm) (hne l hl)
    · intro w k hk hwritten
      rw [PathState.stampHold_own]
      rcases stampHold_cases hk with ⟨-, hk⟩ | ⟨rfl, k₁, -, rfl⟩
      · exact h.handle w k hk hwritten
      · cases hwritten
    · intro w k l hk hwritten hl hli
      rw [PathState.stampHold_lock] at hl
      rcases stampHold_cases hk with ⟨-, hk⟩ | ⟨rfl, k₁, -, rfl⟩
      · exact h.empty w k l hk hwritten hl hli
      · cases hwritten
    · rw [PathState.stampHold_own]
      exact h.distinct
    · rw [PathState.stampHold_own, PathState.stampHold_nextInode]
      exact h.handleBound
    · rw [PathState.stampHold_lock, PathState.stampHold_nextInode]
      exact h.lockBound
    · rw [PathState.stampHold_lockNew, PathState.stampHold_nextInode]
      exact h.newBound
    · rw [PathState.stampHold_lockNew, PathState.stampHold_own]
      exact h.newApart

-- What the promise of a thread says of the calls that touch the lock.
theorem proper_takes (hc : r.Makes c) (h : Proper staleAfter a r c s)
    (ht : c.action = .unlink .lock ∨ c.action = .replaceLock) :
    Ours a s ∨ Judged staleAfter a s := by
  obtain ⟨w, role⟩ := a
  cases role <;> cases r
  · rcases ht with ht | ht
    · exact .inl (h.releases ht)
    · simp [Errand.Makes, Piped, ht] at hc
  · rcases ht with ht | ht
    · exact .inr (h ht)
    · simp [Errand.Makes, Recovering, ht] at hc
  · rcases ht with ht | ht
    · exact .inr (h ht)
    · simp [Errand.Makes, Recovering, ht] at hc
  · exact h.elim
  · exact h.elim
  · exact h.elim
  · exact h.elim
  · rcases ht with ht | ht
    · simp [Errand.Makes, Touching, ht] at hc
    · exact .inl (h.2 ht)

theorem proper_owner (hc : r.Makes c) (h : Proper staleAfter a r c s)
    (ho : (∃ text, c.action = .writeLock text) ∨ c.action = .openTransaction) :
    OwnerProper a c s := by
  obtain ⟨w, role⟩ := a
  cases role <;> cases r
  · exact h
  · rcases ho with ⟨text, ho⟩ | ho <;> simp [Errand.Makes, Recovering, ho] at hc
  · rcases ho with ⟨text, ho⟩ | ho <;> simp [Errand.Makes, Recovering, ho] at hc
  · exact h.elim
  · exact h.elim
  · exact h.elim
  · exact h.elim
  · rcases ho with ⟨text, ho⟩ | ho <;> simp [Errand.Makes, Touching, ho] at hc

theorem Timely.stale {i : Input} (h : LockInvariant staleAfter s)
    (ht : Timely staleAfter ⟨⟨c, i, s, s'⟩, a, r⟩) (hc : r.Makes c)
    (hproper : Proper staleAfter a r c s) (htakes : Takes ⟨⟨c, i, s, s'⟩, a, r⟩) :
    ∀ w k, w ≠ a.worker → s.hold w = some k → ¬Fresh staleAfter s k :=
  h.others_stale (ht.stands htakes)
    (proper_takes hc hproper (htakes.2.imp (fun h => h.1) fun h => h.1)) (ht.written htakes)

-- One step: a timely call keeps the invariant.
theorem LockInvariant.step (h : LockInvariant staleAfter s) {i : Input} (hc : r.Makes c)
    (hproper : Proper staleAfter a r c s)
    (ht : Timely staleAfter ⟨⟨c, i, s, (exec a c i s).1⟩, a, r⟩) :
    LockInvariant staleAfter (exec a c i s).1 := by
  cases exec_lockStep a c i s with
  | still same =>
    exact h.forget same.lock same.lockNew same.nextInode same.clock.ge
      (fun w => .inl (by rw [same.hold])) fun w => .inl (by rw [same.own])
  | missed call absent post =>
    rw [post]
    exact h.forget rfl rfl rfl le_rfl (fun _ => .inl rfl) fun _ => .inl rfl
  | saw seen call found post =>
    rw [post]
    exact h.forget rfl rfl rfl le_rfl (fun _ => .inl rfl) fun _ => .inl rfl
  | flagged own handle touching post =>
    rw [post]
    refine h.forget rfl rfl rfl le_rfl (fun _ => .inl rfl) fun w => .inl ?_
    by_cases hw : w = a.worker
    · subst hw
      simpa [PathState.setOwn] using handle
    · exact congrArg Own.lockHandle (Function.update_of_ne hw _ _)
  | opened call post =>
    rw [post]
    have hnone := ((proper_owner hc hproper (.inr call)).opens call).2
    refine h.forget rfl rfl rfl le_rfl (fun _ => .inl rfl) fun w => ?_
    by_cases hw : w = a.worker
    · subst hw
      exact .inr ⟨by simp [PathState.setOwn], hnone⟩
    · exact .inl (congrArg Own.lockHandle (Function.update_of_ne hw _ _))
  | created call free post =>
    rw [post]
    exact h.created free
  | tornWrite post =>
    rw [post]
    refine h.forget rfl rfl rfl le_rfl (fun w => ?_) fun _ => .inl rfl
    by_cases hw : w = a.worker
    · subst hw
      exact .inr (Function.update_self ..)
    · exact .inl (Function.update_of_ne hw _ _)
  | wrote text call post =>
    rw [post]
    obtain ⟨jobId, ts, k, rfl, hk, hwritten, hts⟩ :=
      (proper_owner hc hproper (.inl ⟨text, call⟩)).writes text call
    exact h.wrote hk hwritten hts
  | released works call present post =>
    rw [post]
    exact h.released (ht.stale h hc hproper ⟨works, .inl ⟨call, present⟩⟩)
  | wroteNew text post =>
    rw [post]
    exact h.wroteNew text
  | droppedNew post =>
    rw [post]
    exact h.droppedNew
  | refreshed l works call new post =>
    rw [post]
    have htakes : Takes ⟨⟨c, i, s, (exec a c i s).1⟩, a, r⟩ :=
      ⟨works, .inr ⟨call, by simp [new]⟩⟩
    obtain ⟨hworker, hts⟩ := ht.mine htakes call l new
    obtain ⟨ts, hstamp⟩ := Option.isSome_iff_exists.mp hts
    exact h.refreshed new hworker hstamp (ht.stale h hc hproper htakes)

theorem LockInvariant.start (h : LockInvariant staleAfter s) (hstart : start a r s = some s') :
    LockInvariant staleAfter s' := by
  cases r with
  | beat own =>
    simp only [Owners.start] at hstart
    split at hstart
    · cases hstart
      refine h.forget rfl rfl rfl le_rfl (fun _ => .inl rfl) fun w => .inl ?_
      by_cases hw : w = a.worker
      · subst hw
        simp [PathState.setOwn]
      · exact congrArg Own.lockHandle (Function.update_of_ne hw _ _)
    · cases hstart
  | _ =>
    simp only [Owners.start] at hstart
    split at hstart
    · cases hstart
      exact h.depart a.worker
    · cases hstart

end Invariant

section Runs

variable {staleAfter : Nat} {s : PathState} {es : List OwnerCall} {d : OwnerConfig}

-- No transaction is open; what lies on the disk is arbitrary.
structure Quiescent (s : PathState) : Prop where
  own : ∀ w, s.own w = {}
  hold : ∀ w, s.hold w = none
  lockBound : ∀ l, s.lock = some l → l.inode < s.nextInode
  newBound : ∀ l, s.lockNew = some l → l.inode < s.nextInode

theorem Quiescent.invariant (h : Quiescent s) : LockInvariant staleAfter s := by
  have hhandle : ∀ w, (s.own w).lockHandle = none := fun w => by rw [h.own w]
  refine ⟨?_, ?_, ?_, ?_, ?_, h.lockBound, h.newBound, ?_⟩ <;> intros <;>
    simp_all [h.hold]

theorem timely_owners_invariant (hrun : OwnerRun staleAfter s es d) (hs : Quiescent s)
    (ht : ∀ e ∈ es, Timely staleAfter e) :
    (∀ e ∈ es, LockInvariant staleAfter e.pre) ∧ LockInvariant staleAfter d.state := by
  refine hrun.invariant (A := fun e => Timely staleAfter e ∧ e.request.Makes e.op ∧
    Proper staleAfter e.thread e.request e.op e.pre)
    (fun e he => ⟨ht e he, owners_proper hrun e he⟩) hs.invariant ?_ ?_ ?_
  · exact fun a r s s' h hstart => h.start hstart
  · intro k s h
    cases k with
    | tick elapsed =>
      exact h.forget rfl rfl rfl (Nat.le_add_right _ _) (fun _ => .inl rfl) fun _ => .inl rfl
    | crash w => exact h.depart w
  · intro a r c i s h ha
    exact h.step ha.2.1 ha.2.2 ha.1

end Runs

theorem timely_owners_exclude {staleAfter : Nat} {s : PathState} {es : List OwnerCall}
    {d : OwnerConfig} (hs : Quiescent s) (hrun : OwnerRun staleAfter s es d)
    (ht : ∀ e ∈ es, Timely staleAfter e) :
    Exclusive staleAfter d.state ∧ ∀ e ∈ es, Takes e →
      ∀ w h, w ≠ e.thread.worker → e.pre.hold w = some h → ¬Fresh staleAfter e.pre h := by
  obtain ⟨hpre, hlast⟩ := timely_owners_invariant hrun hs ht
  refine ⟨hlast.exclusive, fun e he htakes => ?_⟩
  obtain ⟨hmakes, hproper⟩ := owners_proper hrun e he
  exact (ht e he).stale (hpre e he) hmakes hproper htakes

section Sample

instance (e : OwnerCall) : Decidable (Takes e) := by
  unfold Takes
  infer_instance

-- A run whose takings meet no empty lock is timely as soon as this evaluates to true.
def Checked (e : OwnerCall) : Bool :=
  decide (Takes e) == false || (e.pre.lock == e.pre.sawLock e.thread &&
    e.pre.lock.all (fun l => l.text != .invalid) &&
    e.pre.lockNew.all fun l => l.text.workerId == some e.thread.worker && l.text.timestamp.isSome)

theorem checked_timely {staleAfter : Nat} {e : OwnerCall} (h : Checked e) : Timely staleAfter e := by
  have hchecked : Takes e → e.pre.lock = e.pre.sawLock e.thread ∧
      (∀ l, e.pre.lock = some l → l.text ≠ .invalid) ∧ ∀ l, e.pre.lockNew = some l →
        l.text.workerId = some e.thread.worker ∧ l.text.timestamp.isSome := by
    intro ht
    simpa [Checked, ht, and_assoc, Option.all_eq_true] using h
  constructor
  · exact fun ht => (hchecked ht).1
  · exact fun ht l hl hempty => absurd hempty ((hchecked ht).2.1 l hl)
  · exact fun ht _ l hl => (hchecked ht).2.2 l hl

theorem samplePath_quiescent : Quiescent samplePath :=
  ⟨fun _ => rfl, fun _ => rfl, fun _ hl => (by cases hl), fun _ hl => (by cases hl)⟩

-- The dead owner's lock is revoked, and its successor's heartbeat refreshes the new one.
def beatingSuccessor : Played :=
  (play (.start ⟨"a", .main⟩ (.pipeline (sampleJob "a")) :: calls "a" 8 allPass ++
    .disturb (.crash "a") :: .disturb (.tick recoveryStaleLock) ::
    .start ⟨"b", .main⟩ .claim :: calls "b" 8 allPass ++ .retire ⟨"b", .main⟩ ::
    .start ⟨"b", .main⟩ (.pipeline (sampleJob "b")) :: calls "b" 8 allPass ++
    .disturb (.tick lockTouchInterval) ::
    .start ⟨"b", .heartbeat⟩ (.beat (sampleJob "b").ownership) ::
    List.replicate 5 (.call ⟨"b", .heartbeat⟩ allPass))).get (by decide +kernel)

theorem timely_owners_exclude_beatingSuccessor :
    Exclusive recoveryStaleLock beatingSuccessor.2.state ∧
      beatingSuccessor.2.state.lock.map LockFile.text =
        some (token "job" "b" (recoveryStaleLock + lockTouchInterval)) := by
  have hrun := play_run (p := beatingSuccessor) (Option.some_get _).symm
  have hchecked : ∀ e ∈ beatingSuccessor.1, Checked e := by decide +kernel
  exact ⟨(timely_owners_exclude samplePath_quiescent hrun fun e he => checked_timely (hchecked e he)).1,
    by decide +kernel⟩

-- Two recoveries judge one stale lock; the slower one deletes what the faster one's worker has
-- locked in the meantime.
def slowRecovery : Played :=
  (play (.start ⟨"a", .main⟩ (.pipeline (sampleJob "a")) :: calls "a" 6 allPass ++
    .disturb (.crash "a") :: .disturb (.tick recoveryStaleLock) ::
    .start ⟨"b", .main⟩ .claim :: calls "b" 6 allPass ++
    .start ⟨"c", .main⟩ .claim :: calls "c" 8 allPass ++ .retire ⟨"c", .main⟩ ::
    .start ⟨"c", .main⟩ (.pipeline (sampleJob "c")) :: calls "c" 8 allPass ++
    calls "b" 2 allPass ++ .retire ⟨"b", .main⟩ ::
    .start ⟨"b", .main⟩ (.pipeline (sampleJob "b")) :: calls "b" 8 allPass)).get
      (by decide +kernel)

theorem not_owners_exclude :
    ¬∀ (staleAfter : Nat) (s : PathState) (es : List OwnerCall) (d : OwnerConfig), Quiescent s →
      OwnerRun staleAfter s es d → Exclusive staleAfter d.state ∧ ∀ e ∈ es, Takes e →
        ∀ w h, w ≠ e.thread.worker → e.pre.hold w = some h → ¬Fresh staleAfter e.pre h := by
  intro h
  have hexclusive := (h recoveryStaleLock samplePath _ _ samplePath_quiescent
    (play_run (p := slowRecovery) (Option.some_get _).symm)).1
  have hb : slowRecovery.2.state.hold "b" = some ⟨2, recoveryStaleLock, true⟩ := by decide +kernel
  have hc : slowRecovery.2.state.hold "c" = some ⟨1, recoveryStaleLock, true⟩ := by decide +kernel
  have hclock : slowRecovery.2.state.clock = recoveryStaleLock := by decide +kernel
  have hfresh : ∀ n, Fresh recoveryStaleLock slowRecovery.2.state ⟨n, recoveryStaleLock, true⟩ := by
    intro n
    unfold Fresh
    rw [hclock]
    exact Nat.lt_add_of_pos_right (by decide)
  exact absurd (hexclusive "b" "c" _ _ hb hc (hfresh 2) (hfresh 1)) (by decide)

end Sample

end TranscodeForge.Mutex
