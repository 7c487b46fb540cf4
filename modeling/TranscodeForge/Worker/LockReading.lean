import TranscodeForge.Text.Json
import TranscodeForge.Worker.Drift

namespace TranscodeForge.LockReading

open Text Interaction SourcePath Filesystem Drift

-- Instants are microseconds.
inductive Timestamp where
  | aware (instant : Nat)
  | naive (wall : Nat)
deriving DecidableEq, Repr

-- `ts.replace(tzinfo=UTC)` for one without a zone.
def Timestamp.utc : Timestamp → Nat
  | .aware instant => instant
  | .naive wall => wall

abbrev LockBytes := FileBytes

section Readers

variable (display : Json → String) (fromisoformat : String → Option Timestamp)

def fromIso (text : String) : Except Raised Timestamp :=
  (fromisoformat text).elim (.error .value) .ok

def lockFields (content : Json) : Except Raised (Json × Nat) :=
  match content with
  | .object fields => do
    let lockWorker := (fields.lookup "worker_id").getD .null
    let timestamp ← (fields.lookup "timestamp").elim (.error .key) .ok
    let ts ← fromIso fromisoformat (str display timestamp)
    pure (lockWorker, ts.utc)
  | _ => .error .attribute

def readLock (content : LockBytes) : Except Raised (Option (Json × Nat)) :=
  catching (fun e => e = .os || e.isValueError || e = .key) (fun _ => none)
    (((readText content).bind (lockFields display fromisoformat)).map some)

def lockIsActive (workerId : String) (staleAfter now : Nat) (content : LockBytes) :
    Except Raised Bool := do
  match ← readLock display fromisoformat content with
  | none => pure false
  | some (lockWorker, ts) =>
    if lockWorker.string? = some workerId then pure false
    else pure (decide (now < ts + staleAfter))

-- The age in whole seconds.
def lockHolder (now : Nat) (content : LockBytes) : Except Raised (Option (String × Nat)) := do
  match ← readLock display fromisoformat content with
  | none => pure none
  | some (lockWorker, ts) =>
    let owner := if lockWorker.truthy then str display lockWorker else "unknown"
    pure (some (owner, (now - ts) / 1000000))

-- `age` is what the source rounds to tenths of an hour.
inductive StaleLock where
  | aged (lockPath : String) (jobId workerId : Json) (age : Nat)
  | failed (lockPath : String) (error : Raised)

def StaleLock.lockPath : StaleLock → String
  | .aged lockPath _ _ _ => lockPath
  | .failed lockPath _ => lockPath

-- A subtraction from an aware time needs another one.
def agedLock (maxAge now : Nat) (path : String) (content : Json) : Except Raised (Option StaleLock) :=
  match content with
  | .object fields =>
    match fields.lookup "timestamp" with
    | none => .error .key
    | some (.string text) =>
      match fromisoformat text with
      | none => .error .value
      | some (.naive _) => .error .type
      | some (.aware instant) =>
        .ok (if instant + maxAge ≤ now then
          some (.aged path ((fields.lookup "job_id").getD .null)
            ((fields.lookup "worker_id").getD .null) (now - instant))
        else none)
    | some _ => .error .type
  | _ => .error .type

def staleLock (maxAge now : Nat) (path : String) (content : LockBytes) :
    Except Raised (Option StaleLock) :=
  catching (fun e => e = .jsonDecode || e = .key || e = .os) (fun e => some (.failed path e))
    ((readText content).bind (agedLock fromisoformat maxAge now path))

-- The lock files below the root, in the order in which `rglob` finds them.
def findStaleLocks (maxAge now : Nat) : List (String × LockBytes) → Except Raised (List StaleLock)
  | [] => .ok []
  | (path, content) :: rest => do
    let stale ← staleLock fromisoformat maxAge now path content
    let others ← findStaleLocks maxAge now rest
    pure (stale.toList ++ others)

-- How the pipeline's model of a source path holds the same file; nesting that is too deep passes
-- the readers' handlers, as a value that is not an object does.
def lockText : Loaded → LockText
  | .undecodable => .undecodable
  | .malformed | .outsized => .invalid
  | .tooDeep => .value
  | .value (.object fields) =>
    .object ((fields.lookup "job_id").bind Json.string?) ((fields.lookup "worker_id").bind Json.string?)
      ((fields.lookup "timestamp").bind fun v =>
        (fromisoformat (str display v)).map Timestamp.utc)
  | .value _ => .value

end Readers

section Reading

variable {display : Json → String} {fromisoformat : String → Option Timestamp}
  {workerId : String} {staleAfter now : Nat} {loaded : Loaded}

theorem readLock_object (display : Json → String) (fromisoformat : String → Option Timestamp)
    (fields : List (String × Json)) :
    readLock display fromisoformat (some (.value (.object fields))) =
      .ok ((fields.lookup "timestamp").bind fun timestamp =>
        (fromisoformat (str display timestamp)).map fun ts =>
          ((fields.lookup "worker_id").getD .null, ts.utc)) := by
  cases htimestamp : fields.lookup "timestamp" with
  | none => simp [readLock, readText, Loaded.loads, lockFields, htimestamp, bind, Except.bind,
      Except.map, catching]
  | some timestamp =>
    cases hparse : fromisoformat (str display timestamp) with
    | none => simp [readLock, readText, Loaded.loads, lockFields, htimestamp, fromIso, hparse, bind,
        Except.bind, Except.map, catching, Raised.isValueError]
    | some ts => simp [readLock, readText, Loaded.loads, lockFields, htimestamp, fromIso, hparse,
        bind, pure, Except.pure, Except.bind, Except.map, catching]

theorem lockIsActive_read {owner : Json} {ts : Nat} {content : LockBytes}
    (h : readLock display fromisoformat content = .ok (some (owner, ts))) :
    lockIsActive display fromisoformat workerId staleAfter now content =
      .ok (owner.string? != some workerId && decide (now < ts + staleAfter)) := by
  rw [lockIsActive, h]
  by_cases hown : owner.string? = some workerId
  · simp [hown, bind, pure, Except.bind, Except.pure]
  · simp [hown, bind, pure, Except.bind, Except.pure]

-- The activity that the pipeline's model gives the same file.
theorem lockIsActive_text :
    (lockIsActive display fromisoformat workerId staleAfter now (some loaded)).toOption =
      (activity workerId staleAfter now (lockText display fromisoformat loaded)).toOption := by
  cases loaded with
  | value v =>
    cases v with
    | object fields =>
      have hread := readLock_object display fromisoformat fields
      have howner : ((fields.lookup "worker_id").getD .null).string? =
          (fields.lookup "worker_id").bind Json.string? := by
        cases fields.lookup "worker_id" <;> rfl
      rw [lockText]
      cases htimestamp : fields.lookup "timestamp" with
      | none =>
        rw [htimestamp] at hread
        rw [lockIsActive, hread]
        rfl
      | some timestamp =>
        rw [htimestamp] at hread
        cases hparse : fromisoformat (str display timestamp) with
        | none =>
          rw [Option.bind_some, hparse] at hread
          rw [lockIsActive, hread, Option.bind_some, hparse]
          rfl
        | some ts =>
          rw [Option.bind_some, hparse] at hread
          rw [lockIsActive_read hread, Option.bind_some, hparse, howner]
          rfl
    | _ => rfl
  | _ => rfl

theorem lockIsActive_isOk : (lockIsActive display fromisoformat workerId staleAfter now
    (some loaded)).isOk = (readLock display fromisoformat (some loaded)).isOk := by
  unfold lockIsActive
  cases readLock display fromisoformat (some loaded) with
  | error e => rfl
  | ok r =>
    cases r with
    | none => rfl
    | some x =>
      obtain ⟨owner, ts⟩ := x
      by_cases hown : owner.string? = some workerId
      · simp [hown, bind, pure, Except.bind, Except.pure, Except.isOk, Except.toBool]
      · simp [hown, bind, pure, Except.bind, Except.pure, Except.isOk, Except.toBool]

theorem lockHolder_isOk : (lockHolder display fromisoformat now (some loaded)).isOk =
    (readLock display fromisoformat (some loaded)).isOk := by
  unfold lockHolder
  cases readLock display fromisoformat (some loaded) with
  | error e => rfl
  | ok r => cases r <;> rfl

theorem findStaleLocks_isOk {locks : List (String × LockBytes)} :
    (findStaleLocks fromisoformat staleAfter now locks).isOk = true ↔
      ∀ x ∈ locks, (staleLock fromisoformat staleAfter now x.1 x.2).isOk = true := by
  induction locks with
  | nil => exact iff_of_true rfl (by simp)
  | cons x locks ih =>
    obtain ⟨path, content⟩ := x
    rw [List.forall_mem_cons, ← ih, findStaleLocks]
    cases staleLock fromisoformat staleAfter now path content with
    | error e => simp [bind, Except.bind, Except.isOk, Except.toBool]
    | ok stale =>
      cases findStaleLocks fromisoformat staleAfter now locks with
      | error e => simp [bind, Except.bind, Except.isOk, Except.toBool]
      | ok others => simp [bind, pure, Except.bind, Except.pure, Except.isOk, Except.toBool]

theorem findStaleLocks_lists {locks : List (String × LockBytes)} {stale : List StaleLock}
    (h : findStaleLocks fromisoformat staleAfter now locks = .ok stale) {x : String × LockBytes}
    (hx : x ∈ locks) {s : StaleLock}
    (hs : staleLock fromisoformat staleAfter now x.1 x.2 = .ok (some s)) : s ∈ stale := by
  induction locks generalizing stale with
  | nil => cases hx
  | cons y locks ih =>
    obtain ⟨path, content⟩ := y
    rw [findStaleLocks] at h
    cases hfirst : staleLock fromisoformat staleAfter now path content with
    | error e => simp [hfirst, bind, Except.bind] at h
    | ok first =>
      cases hothers : findStaleLocks fromisoformat staleAfter now locks with
      | error e => simp [hfirst, hothers, bind, Except.bind] at h
      | ok others =>
        simp only [hfirst, hothers, bind, pure, Except.bind, Except.pure, Except.ok.injEq] at h
        rw [← h, List.mem_append]
        rcases List.mem_cons.mp hx with rfl | hx
        · rw [hfirst] at hs
          cases hs
          exact .inl (by simp)
        · exact .inr (ih hothers hx)

end Reading

section Totality

variable (display : Json → String) (fromisoformat : String → Option Timestamp)
  (workerId : String) (staleAfter now : Nat)

-- A run of a recovery on a path with such a lock; which of its renames and unlinks fail is open.
def RecoveryReturns {α : Type} (recovery : Worker α) (loaded : Loaded) : Prop :=
  ∀ (plan : FaultPlan) (s : PathState) (inode : Nat), s.clock = now →
    s.lock = some ⟨inode, lockText display fromisoformat loaded⟩ →
    (recovery.run handler ⟨workerId, .main⟩ plan.choose {} s).1.isOk = true

def Unread (loaded : Loaded) : Prop :=
  (lockText display fromisoformat loaded).workerId = none ∨
    (lockText display fromisoformat loaded).timestamp = none

structure Total (locks : List (String × Loaded)) : Prop where
  reads : ∀ x ∈ locks, (readLock display fromisoformat (some x.2)).isOk = true
  judges : ∀ x ∈ locks,
    (lockIsActive display fromisoformat workerId staleAfter now (some x.2)).isOk = true
  holds : ∀ x ∈ locks, (lockHolder display fromisoformat now (some x.2)).isOk = true
  recovers : ∀ x ∈ locks, RecoveryReturns display fromisoformat workerId now
    (recoverSourcePath workerId staleAfter) x.2
  scans : ∀ x ∈ locks, RecoveryReturns display fromisoformat workerId now
    (recoverOrphanedBackups workerId staleAfter) x.2
  reports : (findStaleLocks fromisoformat staleAfter now (locks.map fun x => (x.1, some x.2))).isOk = true
  stale : ∀ x ∈ locks, Unread display fromisoformat x.2 →
    lockIsActive display fromisoformat workerId staleAfter now (some x.2) = .ok false ∧
    ∀ found, findStaleLocks fromisoformat staleAfter now (locks.map fun x => (x.1, some x.2)) =
      .ok found → x.1 ∈ found.map StaleLock.lockPath

-- Not JSON, or an object without a timestamp, or with one that has a zone and an owner or is old.
def Legible (loaded : Loaded) : Prop :=
  match loaded with
  | .malformed => True
  | .value (.object fields) =>
    fields.lookup "timestamp" = none ∨ ∃ text instant,
      fields.lookup "timestamp" = some (.string text) ∧
      fromisoformat text = some (.aware instant) ∧
      (((fields.lookup "worker_id").bind Json.string?).isSome ∨ instant + staleAfter ≤ now)
  | _ => False

end Totality

section Settling

variable {display : Json → String} {fromisoformat : String → Option Timestamp}
  {workerId : String} {staleAfter now : Nat} {loaded : Loaded} {locks : List (String × Loaded)}

theorem isOk_of_toOption {ε ε' α : Type} {r : Except ε α} {r' : Except ε' α}
    (h : r.toOption = r'.toOption) : r.isOk = r'.isOk := by
  cases r <;> cases r' <;> first | rfl | cases h

theorem activity_returns {s : PathState} {inode : Nat} (hclock : s.clock = now)
    (hlock : s.lock = some ⟨inode, lockText display fromisoformat loaded⟩) :
    (lockActivity workerId staleAfter (files s)).isOk =
      (readLock display fromisoformat (some loaded)).isOk := by
  have hactivity : lockActivity workerId staleAfter (files s) =
      activity workerId staleAfter now (lockText display fromisoformat loaded) := by
    simp only [lockActivity, files, hlock, hclock]
  rw [hactivity, ← isOk_of_toOption lockIsActive_text, lockIsActive_isOk]

theorem recovery_returns {α : Type} (staleAfter : Nat) {recovery : Worker α}
    (hends : ∀ (plan : FaultPlan) (s : PathState), ∃ r y,
      Ends plan workerId recovery ({}, files s) r y ∧
        r.isOk = (lockActivity workerId staleAfter (files s)).isOk)
    (h : (readLock display fromisoformat (some loaded)).isOk = true) :
    RecoveryReturns display fromisoformat workerId now recovery loaded := by
  intro plan s inode hclock hlock
  obtain ⟨r, y, hends, hok⟩ := hends plan s
  obtain ⟨s', hrun, -⟩ := hends s rfl
  rw [hrun, hok, activity_returns hclock hlock, h]

theorem recoverSourcePath_returns
    (h : (readLock display fromisoformat (some loaded)).isOk = true) :
    RecoveryReturns display fromisoformat workerId now (recoverSourcePath workerId staleAfter)
      loaded := by
  refine recovery_returns staleAfter (fun plan s => ?_) h
  obtain ⟨r, hends, hok⟩ := @recoverSourcePath_ends plan workerId ({}, files s) workerId staleAfter
  exact ⟨r, _, hends, hok⟩

theorem recoverOrphanedBackups_returns
    (h : (readLock display fromisoformat (some loaded)).isOk = true) :
    RecoveryReturns display fromisoformat workerId now (recoverOrphanedBackups workerId staleAfter)
      loaded := by
  refine recovery_returns staleAfter (fun plan s => ?_) h
  obtain ⟨r, hends, hok⟩ :=
    @recoverOrphanedBackups_ends plan workerId ({}, files s) workerId staleAfter
  exact ⟨r, _, hends, hok⟩

theorem readLock_legible (h : Legible fromisoformat staleAfter now loaded) :
    (readLock display fromisoformat (some loaded)).isOk = true := by
  cases loaded with
  | malformed => rfl
  | value v =>
    cases v with
    | object fields =>
      rw [readLock_object]
      rfl
    | _ => exact h.elim
  | _ => exact h.elim

theorem staleLock_legible (h : Legible fromisoformat staleAfter now loaded) (path : String) :
    (staleLock fromisoformat staleAfter now path (some loaded)).isOk = true := by
  cases loaded with
  | malformed => rfl
  | value v =>
    cases v with
    | object fields =>
      rw [staleLock, catching_isOk]
      rcases h with hnone | ⟨text, instant, htext, hparse, -⟩
      · simp [readText, Loaded.loads, Except.bind, agedLock, hnone]
      · simp [readText, Loaded.loads, Except.bind, agedLock, htext, hparse]
    | _ => exact h.elim
  | _ => exact h.elim

-- What has no owner or no time is listed, and so it is not active.
theorem legible_unread (h : Legible fromisoformat staleAfter now loaded)
    (hunread : Unread display fromisoformat loaded) (path : String) :
    lockIsActive display fromisoformat workerId staleAfter now (some loaded) = .ok false ∧
      ∃ s : StaleLock, s.lockPath = path ∧
        staleLock fromisoformat staleAfter now path (some loaded) = .ok (some s) := by
  cases loaded with
  | malformed => exact ⟨rfl, _, rfl, rfl⟩
  | value v =>
    cases v with
    | object fields =>
      have hread := readLock_object display fromisoformat fields
      rcases h with hnone | ⟨text, instant, htext, hparse, howned⟩
      · rw [hnone] at hread
        refine ⟨by rw [lockIsActive, hread]; rfl, .failed path .key, rfl, ?_⟩
        simp [staleLock, readText, Loaded.loads, Except.bind, agedLock, hnone, catching]
      · have hold : instant + staleAfter ≤ now := by
          refine howned.resolve_left fun howner => ?_
          rcases hunread with hworker | htime
          · simp only [LockText.workerId, lockText] at hworker
            rw [hworker] at howner
            cases howner
          · simp [LockText.timestamp, lockText, htext, str, hparse] at htime
        rw [htext] at hread
        simp only [Option.bind_some, str, hparse, Option.map_some, Timestamp.utc] at hread
        refine ⟨?_, .aged path ((fields.lookup "job_id").getD .null)
          ((fields.lookup "worker_id").getD .null) (now - instant), rfl, ?_⟩
        · rw [lockIsActive_read hread, decide_eq_false (by omega), Bool.and_false]
        · simp only [staleLock, readText, Loaded.loads, Except.bind, agedLock, htext, hparse, if_pos hold,
            catching]
    | _ => exact h.elim
  | _ => exact h.elim

theorem reported_of_total (h : Total display fromisoformat workerId staleAfter now locks)
    {x : String × Loaded} (hx : x ∈ locks) :
    (staleLock fromisoformat staleAfter now x.1 (some x.2)).isOk = true :=
  findStaleLocks_isOk.mp h.reports (x.1, some x.2) (List.mem_map_of_mem hx)

theorem legible_of_total (h : Total display fromisoformat workerId staleAfter now locks)
    {x : String × Loaded} (hx : x ∈ locks) : Legible fromisoformat staleAfter now x.2 := by
  have hreported := reported_of_total h hx
  have hstale := h.stale x hx
  obtain ⟨path, loaded⟩ := x
  cases loaded with
  | malformed => trivial
  | value v =>
    cases v with
    | object fields =>
      cases htimestamp : fields.lookup "timestamp" with
      | none => exact .inl htimestamp
      | some timestamp =>
        have hread := readLock_object display fromisoformat fields
        simp only [staleLock, readText, Loaded.loads, Except.bind, agedLock, htimestamp] at hreported
        cases timestamp with
        | string text =>
          cases hparse : fromisoformat text with
          | none => simp [hparse, catching, Except.isOk, Except.toBool] at hreported
          | some ts =>
            cases ts with
            | naive wall => simp [hparse, catching, Except.isOk, Except.toBool] at hreported
            | aware instant =>
              refine .inr ⟨text, instant, htimestamp, hparse, ?_⟩
              cases howner : (fields.lookup "worker_id").bind Json.string? with
              | some owner => exact .inl rfl
              | none =>
                obtain ⟨hinactive, -⟩ := hstale (.inl howner)
                rw [htimestamp] at hread
                simp only [Option.bind_some, str, hparse, Option.map_some, Timestamp.utc] at hread
                rw [lockIsActive_read hread] at hinactive
                have hforeign : ((fields.lookup "worker_id").getD .null).string? ≠ some workerId := by
                  cases hfield : fields.lookup "worker_id" with
                  | none => simp [Json.string?]
                  | some owner =>
                    rw [hfield, Option.bind_some] at howner
                    simp [howner]
                simp [hforeign] at hinactive
                exact .inr hinactive
        | _ => simp [catching, Except.isOk, Except.toBool] at hreported
    | _ => exact (Bool.false_ne_true hreported).elim
  | _ => exact (Bool.false_ne_true hreported).elim

theorem locks_total_iff (display : Json → String) (fromisoformat : String → Option Timestamp)
    (workerId : String) (staleAfter now : Nat) (locks : List (String × Loaded)) :
    Total display fromisoformat workerId staleAfter now locks ↔
      ∀ x ∈ locks, Legible fromisoformat staleAfter now x.2 := by
  refine ⟨fun h x hx => legible_of_total h hx, fun h => ?_⟩
  have hread : ∀ x ∈ locks, (readLock display fromisoformat (some x.2)).isOk = true :=
    fun x hx => readLock_legible (h x hx)
  refine ⟨hread, fun x hx => ?_, fun x hx => ?_, fun x hx => recoverSourcePath_returns (hread x hx),
    fun x hx => recoverOrphanedBackups_returns (hread x hx), ?_, fun x hx hunread => ?_⟩
  · rw [lockIsActive_isOk]
    exact hread x hx
  · rw [lockHolder_isOk]
    exact hread x hx
  · refine findStaleLocks_isOk.mpr fun y hy => ?_
    obtain ⟨x, hx, rfl⟩ := List.mem_map.mp hy
    exact staleLock_legible (h x hx) x.1
  · obtain ⟨hinactive, s, hpath, hs⟩ := legible_unread (h x hx) hunread x.1
    refine ⟨hinactive, fun found hfound => ?_⟩
    have hlisted : s ∈ found := findStaleLocks_lists hfound (List.mem_map_of_mem hx) hs
    exact hpath ▸ List.mem_map_of_mem hlisted

-- A lock that holds an empty JSON array; no text is an ISO timestamp here.
theorem not_locks_total :
    ¬Total (fun _ => "") (fun _ => none) "worker" 900000000 0
        [("movie.mkv.tf_lock", .value (.array []))] ∧
      readLock (fun _ => "") (fun _ => none) (some (.value (.array []))) = .error .attribute ∧
      findStaleLocks (fun _ => none) 900000000 0
        [("movie.mkv.tf_lock", some (.value (.array [])))] = .error .type := by
  refine ⟨fun h => ?_, rfl, rfl⟩
  have hread := h.reads _ List.mem_cons_self
  exact Bool.false_ne_true hread

end Settling

end TranscodeForge.LockReading
