import TranscodeForge.Worker.Owners

namespace TranscodeForge.LockSteps

open Interaction SourcePath Filesystem Phases

-- The lock and what the workers know of it.
structure SameLock (s s' : PathState) : Prop where
  lock : s'.lock = s.lock
  lockNew : s'.lockNew = s.lockNew
  nextInode : s'.nextInode = s.nextInode
  clock : s'.clock = s.clock
  own : s'.own = s.own
  saw : s'.sawLock = s.sawLock
  hold : s'.hold = s.hold

section SameLock

variable {s s' s'' : PathState}

theorem SameLock.of_rfl (hl : s'.lock = s.lock := by rfl) (hn : s'.lockNew = s.lockNew := by rfl)
    (hi : s'.nextInode = s.nextInode := by rfl) (hc : s'.clock = s.clock := by rfl)
    (ho : s'.own = s.own := by rfl) (hs : s'.sawLock = s.sawLock := by rfl)
    (hh : s'.hold = s.hold := by rfl) : SameLock s s' :=
  ⟨hl, hn, hi, hc, ho, hs, hh⟩

theorem SameLock.refl (s : PathState) : SameLock s s := .of_rfl

theorem SameLock.trans (h : SameLock s s') (h' : SameLock s' s'') : SameLock s s'' :=
  ⟨h'.lock.trans h.lock, h'.lockNew.trans h.lockNew, h'.nextInode.trans h.nextInode,
    h'.clock.trans h.clock, h'.own.trans h.own, h'.saw.trans h.saw, h'.hold.trans h.hold⟩

theorem SameLock.setMedia (m : Media) (content : Option Bytes) :
    SameLock s (s.setMedia m content) := by
  cases m <;> exact .of_rfl

theorem SameLock.moveMedia (src dst : Media) : SameLock s (moveMedia s src dst) :=
  (SameLock.setMedia dst _).trans (.setMedia src none)

theorem SameLock.examine (w : String) (m : Media) : SameLock s (s.examine w m) := by
  unfold PathState.examine
  split <;> exact .of_rfl

end SameLock

-- What a call does to the lock, the `.new` file beside it and the transactions.
inductive LockStep (a : Actor) (c : Call) (i : Input) (s s' : PathState) : Prop where
  | still (same : SameLock s s')
  | missed (call : c.action = .exists .lock) (absent : s.lock = none)
      (post : s' = s.setSaw a none)
  | saw (seen : Option LockFile) (call : c.action = .readLock)
      (found : seen = none ∨ seen = s.lock) (post : s' = s.setSaw a seen)
  | flagged (own : Own) (handle : own.lockHandle = (s.own a.worker).lockHandle)
      (touching : c.action ≠ .endTouch → own.touching = (s.own a.worker).touching)
      (post : s' = s.setOwn a.worker own)
  | opened (call : c.action = .openTransaction) (post : s' = s.setOwn a.worker {})
  | created (call : c.action = .openExclusive) (free : s.lock = none) (post : s' = s.createLock a)
  | tornWrite (post : s' = s.setHold a.worker none)
  | wrote (text : LockText) (call : c.action = .writeLock text)
      (post : s' = (s.writeThrough (s.own a.worker).lockHandle text).stampHold a.worker
        text.timestamp)
  | released (works : i.fault = false) (call : c.action = .unlink .lock) (present : s.lock.isSome)
      (post : s' = ({ s with lock := none } : PathState).setHold a.worker none)
  | wroteNew (text : LockText)
      (post : s' = { s with
        lockNew := some ⟨(s.lockNew.map LockFile.inode).getD s.nextInode, text⟩
        nextInode := s.nextInode + 1 })
  | droppedNew (post : s' = { s with lockNew := none })
  | refreshed (l : LockFile) (works : i.fault = false) (call : c.action = .replaceLock)
      (new : s.lockNew = some l) (post : s' = PathState.stampHold { s with lock := some l, lockNew := none } a.worker
        l.text.timestamp)

theorem exec_lockStep (a : Actor) (c : Call) (i : Input) (s : PathState) :
    LockStep a c i s (exec a c i s).1 := by
  obtain ⟨site, action⟩ := c
  cases action with
  | «exists» f =>
    simp only [exec]
    split
    · split <;> exact .still .of_rfl
    · unfold PathState.sawAbsence
      split
      · next habsent =>
        obtain ⟨rfl, habsent⟩ := habsent
        exact .missed rfl habsent rfl
      · exact .still (.refl s)
  | stat m =>
    simp only [exec]
    split
    · split <;> exact .still .of_rfl
    · exact .still (.examine a.worker m)
  | unlink f =>
    cases hi : i.fault with
    | true => simpa [exec, hi] using .still (.refl s)
    | false =>
      cases hp : s.present f with
      | false => simpa [exec, hi, hp] using .still (.refl s)
      | true =>
        rcases f with m | _ | _
        · simpa [exec, hi, hp] using .still (.setMedia m none)
        · simpa [exec, hi, hp] using .released hi rfl hp rfl
        · simpa [exec, hi, hp] using .droppedNew rfl
  | rename src dst =>
    rcases rename_cases a site i s src dst with ⟨e, he⟩ | ⟨-, he⟩ <;> rw [he]
    · exact .still (.refl s)
    · exact .still (.moveMedia src dst)
  | replace src dst =>
    simp only [exec]
    split
    · exact .still (.moveMedia src dst)
    · split <;> exact .still .of_rfl
  | openExclusive =>
    rcases openExclusive_cases a site i s with he | ⟨-, he⟩ | ⟨hfree, he⟩ <;> rw [he]
    · exact .still (.refl s)
    · exact .still (.refl s)
    · exact .created rfl hfree rfl
  | writeLock text =>
    simp only [exec]
    split
    · exact .tornWrite rfl
    · exact .wrote text rfl rfl
  | writeNew text =>
    simp only [exec]
    split
    · split
      · exact .wroteNew .invalid rfl
      · exact .still (.refl s)
    · exact .wroteNew text rfl
  | replaceLock =>
    simp only [exec]
    split
    · exact .still (.refl s)
    · exact .still (.refl s)
    · next l hworks hnew => exact .refreshed l hworks rfl hnew rfl
  | readLock =>
    simp only [exec]
    split
    · exact .saw none rfl (.inl rfl) rfl
    · exact .saw none rfl (.inl rfl) rfl
    · next l _ hlock => exact .saw (some l) rfl (.inr hlock.symm) rfl
  | openTransaction => exact .opened rfl rfl
  | setMutating =>
    exact .flagged { s.own a.worker with mutating := true } rfl (fun _ => rfl) rfl
  | setConfirmed =>
    exact .flagged { s.own a.worker with confirmed := true } rfl (fun _ => rfl) rfl
  | startHeartbeat =>
    exact .flagged { s.own a.worker with beating := true } rfl (fun _ => rfl) rfl
  | stopHeartbeat =>
    exact .flagged { s.own a.worker with beating := false } rfl (fun _ => rfl) rfl
  | endTouch =>
    exact .flagged { s.own a.worker with touching := false } rfl (fun h => absurd rfl h) rfl
  | ffprobe m => exact .still (.examine a.worker m)
  | decodeSample m offset sample => exact .still (.examine a.worker m)
  | runEncode request =>
    simp only [exec]
    split <;> exact .still .of_rfl
  | _ => first
    | exact .still .of_rfl
    | (simp only [exec, query]; split <;> exact .still .of_rfl)

-- What the calls of one actor leave alone.
structure Foreign (a : Actor) (s s' : PathState) : Prop where
  own : ∀ w, w ≠ a.worker → s'.own w = s.own w
  hold : ∀ w, w ≠ a.worker → s'.hold w = s.hold w
  saw : ∀ b, b ≠ a → s'.sawLock b = s.sawLock b
  clock : s'.clock = s.clock

section Foreign

variable {a : Actor} {s s' s'' : PathState}

theorem Foreign.trans (h : Foreign a s s') (h' : Foreign a s' s'') : Foreign a s s'' :=
  ⟨fun w hw => (h'.own w hw).trans (h.own w hw), fun w hw => (h'.hold w hw).trans (h.hold w hw),
    fun b hb => (h'.saw b hb).trans (h.saw b hb), h'.clock.trans h.clock⟩

theorem Foreign.of_rfl (ho : s'.own = s.own := by rfl) (hh : s'.hold = s.hold := by rfl)
    (hs : s'.sawLock = s.sawLock := by rfl) (hc : s'.clock = s.clock := by rfl) :
    Foreign a s s' :=
  ⟨fun _ _ => by rw [ho], fun _ _ => by rw [hh], fun _ _ => by rw [hs], hc⟩

theorem Foreign.setOwn (own : Own) : Foreign a s (s.setOwn a.worker own) :=
  ⟨fun _ hw => Function.update_of_ne hw _ _, fun _ _ => rfl, fun _ _ => rfl, rfl⟩

theorem Foreign.setHold (hold : Option Hold) : Foreign a s (s.setHold a.worker hold) :=
  ⟨fun _ _ => rfl, fun _ hw => Function.update_of_ne hw _ _, fun _ _ => rfl, rfl⟩

theorem Foreign.setSaw (lock : Option LockFile) : Foreign a s (s.setSaw a lock) :=
  ⟨fun _ _ => rfl, fun _ _ => rfl, fun _ hb => Function.update_of_ne hb _ _, rfl⟩

theorem Foreign.stampHold (stamp : Option Nat) : Foreign a s (s.stampHold a.worker stamp) := by
  unfold PathState.stampHold
  split
  · exact .setHold _
  · exact .of_rfl

theorem Foreign.writeThrough (handle : Option Nat) (text : LockText) :
    Foreign a s (s.writeThrough handle text) := by
  unfold PathState.writeThrough
  split
  · split <;> exact .of_rfl
  · exact .of_rfl

theorem exec_foreign (a : Actor) (c : Call) (i : Input) (s : PathState) :
    Foreign a s (exec a c i s).1 := by
  have hlock : ∀ lock lockNew nextInode, Foreign a s
      { s with lock := lock, lockNew := lockNew, nextInode := nextInode } := fun _ _ _ => .of_rfl
  cases exec_lockStep a c i s with
  | still same => exact .of_rfl same.own same.hold same.saw same.clock
  | missed call absent post => exact post ▸ .setSaw none
  | saw seen call found post => exact post ▸ .setSaw seen
  | flagged own handle touching post => exact post ▸ .setOwn own
  | opened call post => exact post ▸ .setOwn _
  | created call free post =>
    rw [post]
    exact (((hlock _ _ _).trans (.setOwn _)).trans (.setSaw _)).trans (.setHold _)
  | tornWrite post => exact post ▸ .setHold none
  | wrote text call post => exact post ▸ (Foreign.writeThrough _ text).trans (.stampHold _)
  | released works call present post => exact post ▸ (hlock _ _ _).trans (.setHold none)
  | wroteNew text post => exact post ▸ hlock _ _ _
  | droppedNew post => exact post ▸ hlock _ _ _
  | refreshed l works call new post => exact post ▸ (hlock _ _ _).trans (.stampHold _)

end Foreign

-- Only the end of a touch and a new transaction clear the flag of a touch.
theorem exec_keeps_touching (a : Actor) (c : Call) (i : Input) (s : PathState)
    (he : c.action ≠ .endTouch) (ho : c.action ≠ .openTransaction) :
    ((exec a c i s).1.own a.worker).touching = (s.own a.worker).touching := by
  cases exec_lockStep a c i s with
  | still same => rw [same.own]
  | flagged own handle touching post =>
    rw [post]
    simpa [PathState.setOwn] using touching he
  | opened call post => exact absurd call ho
  | created call free post =>
    simp [post, PathState.createLock, PathState.setHold, PathState.setSaw, PathState.setOwn]
  | wrote text call post =>
    rw [post, PathState.stampHold_own]
    unfold PathState.writeThrough
    split <;> (try split) <;> rfl
  | refreshed l works call new post => rw [post, PathState.stampHold_own]
  | missed call absent post => rw [post]; rfl
  | saw seen call found post => rw [post]; rfl
  | tornWrite post => rw [post]; rfl
  | released works call present post => rw [post]; rfl
  | wroteNew text post => rw [post]
  | droppedNew post => rw [post]

-- Only a read of the lock and an exclusive create change what an actor saw of it, but for a
-- look that finds no lock.
theorem exec_keeps_saw (a : Actor) (c : Call) (i : Input) (s : PathState)
    (hr : c.action ≠ .readLock) (ho : c.action ≠ .openExclusive) :
    (exec a c i s).1.sawLock a = s.sawLock a ∨ (exec a c i s).1.sawLock a = none := by
  cases exec_lockStep a c i s with
  | still same => rw [same.saw]; exact .inl rfl
  | missed call absent post =>
    right
    simp [post, PathState.setSaw]
  | saw seen call found post => exact absurd call hr
  | flagged own handle touching post => rw [post]; exact .inl rfl
  | opened call post => rw [post]; exact .inl rfl
  | created call free post => exact absurd call ho
  | tornWrite post => rw [post]; exact .inl rfl
  | wrote text call post =>
    left
    rw [post, PathState.stampHold_sawLock]
    unfold PathState.writeThrough
    split <;> (try split) <;> rfl
  | released works call present post => rw [post]; exact .inl rfl
  | wroteNew text post => rw [post]; exact .inl rfl
  | droppedNew post => rw [post]; exact .inl rfl
  | refreshed l works call new post =>
    left
    rw [post, PathState.stampHold_sawLock]

end TranscodeForge.LockSteps
