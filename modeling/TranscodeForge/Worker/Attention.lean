import TranscodeForge.Worker.Atomicity

namespace TranscodeForge.Attention

open Interaction SourcePath Filesystem Pipeline Phases CallClasses Recovery NeverLose Atomicity

-- The backup stands beside an encode that no CONFIRM has passed.
def Exposed (original : Option Bytes) (s : PathState) : Prop :=
  s.bak.isSome ∧ ∃ content ∈ s.source, some content ≠ original ∧ content ∉ s.confirmed

def Marked (original : Option Bytes) (s : PathState) : Prop :=
  Exposed original s → s.lock.isSome

instance (original : Option Bytes) (s : PathState) : Decidable (Exposed original s) := by
  unfold Exposed
  infer_instance

instance (original : Option Bytes) (s : PathState) : Decidable (Marked original s) := by
  unfold Marked
  infer_instance

def NeedsAttention : Option (Except Failure RecoveryAnswer) → Bool
  | some (.ok (.sourcePath recovery)) => recovery == .attention
  | some (.ok (.scan stats)) => 0 < stats.needsAttention
  | _ => false

-- The second pass of a scan removes the lock from beside an exposed encode.
def Unmarks (original : Option Bytes) (e : PathCall) : Prop :=
  e.op = ⟨.removeStaleLocks, .unlink .lock⟩ ∧ e.input.fault = false ∧ e.pre.lock.isSome ∧
    Exposed original e.pre

instance (original : Option Bytes) (e : PathCall) : Decidable (Unmarks original e) := by
  unfold Unmarks
  infer_instance

-- The calls of a recovery that leave the source, the backup and the lock as they are.
def Watching (c : Call) : Bool :=
  match c.action with
  | .exists _ => c.site != .rollbackSwap
  | .isFile _ | .glob _ | .isDir | .readLock | .now | .unlink (.media .tmp) => true
  | _ => false

structure Kept (s s' : PathState) : Prop where
  source : s'.source = s.source
  bak : s'.bak = s.bak
  lock : s'.lock = s.lock
  confirmed : s'.confirmed = s.confirmed

theorem Kept.refl (s : PathState) : Kept s s := ⟨rfl, rfl, rfl, rfl⟩

theorem exec_watching (a : Actor) (c : Call) (i : Input) (s : PathState) (hc : Watching c) :
    Kept s (exec a c i s).1 := by
  obtain ⟨site, action⟩ := c
  cases action with
  | «exists» f =>
    have hsite : site ≠ .rollbackSwap := by simpa [Watching] using hc
    rcases exists_cases a site i s f hsite with he | he <;> rw [he]
    · exact .refl s
    · exact ⟨by simp, by simp, by simp, by simp⟩
  | unlink f =>
    rcases f with (_ | _ | _) | _ | _ <;> try simp [Watching] at hc
    rcases unlink_cases a site i s tmpFile (by decide) with ⟨e, he⟩ | ⟨-, -, he⟩ <;> rw [he]
    · exact .refl s
    · exact ⟨rfl, rfl, rfl, rfl⟩
  | readLock =>
    simp only [exec]
    split <;> exact ⟨rfl, rfl, rfl, rfl⟩
  | _ => first
    | exact .refl s
    | (simp only [exec, query]; split <;> exact .refl s)
    | simp [Watching] at hc

section Exposure

variable {original : Option Bytes} {s s' : PathState}

theorem Exposed.kept (h : Exposed original s') (hk : Kept s s') : Exposed original s := by
  unfold Exposed at h ⊢
  rw [hk.source, hk.bak, hk.confirmed] at h
  exact h

theorem Marked.kept (h : Marked original s) (hk : Kept s s') : Marked original s' := by
  intro hexposed
  rw [hk.lock]
  exact h (hexposed.kept hk)

theorem marked_of_bak (h : s.bak = none) : Marked original s := by
  intro hexposed
  simp [Exposed, h] at hexposed

theorem TimePasses.kept (h : TimePasses s s') : Kept s s' := by
  obtain ⟨clock, -, rfl⟩ := h
  exact ⟨rfl, rfl, rfl, rfl⟩

theorem Undisturbed.marked {w : String} (h : Undisturbed w s s') (hm : Marked original s) :
    Marked original s' := by
  intro hexposed
  unfold Exposed at hexposed
  rw [h.source, h.bak, h.history] at hexposed
  exact h.locked (hm hexposed)

theorem swapSafe_marked {b : Option Bytes} (h : SwapSafe original b s) : Marked original s := by
  rintro ⟨hbak, content, hsource, hne, hnot⟩
  rw [Option.mem_def] at hsource
  rcases h with ⟨ho, -⟩ | ⟨-, -, hlock⟩ | ⟨-, -, c, hc, hs⟩
  · exact absurd (hsource.symm.trans ho) hne
  · exact hlock
  · rw [hsource] at hs
    rw [Option.some.inj hs] at hnot
    exact absurd hc hnot

end Exposure

def marking (original : Option Bytes) : Contract Call PathState Input where
  rely := TimePasses
  assume := fun c i s => ¬(c = ⟨.removeStaleLocks, .unlink .lock⟩ ∧ i.fault = false ∧
    s.lock.isSome ∧ Exposed original s)
  guar := fun _ _ _ s' => Marked original s'

section Recover

variable {α : Type} {w : String} {original : Option Bytes} {s : PathState}

abbrev Recovers (w : String) (original : Option Bytes) (p : Worker α)
    (Q : Except Failure α → PathState → Prop) (s : PathState) : Prop :=
  p.wp handler ⟨w, .main⟩ (marking original) Q s

-- Looking around keeps whatever the source, the backup and the lock decide.
theorem watching_wp {P : PathState → Prop} {p : Worker α} (hp : p.Calls (Watching ·)) (hs : P s)
    (hkept : ∀ s s', P s → Kept s s' → P s') (hmarked : ∀ s, P s → Marked original s) :
    Recovers w original p (fun _ s => P s) s := by
  refine Program.wp_of_calls hp hs (fun s s' h hr => hkept s s' h (TimePasses.kept hr))
    fun c i s hc h _ _ => ?_
  have h' := hkept s _ h (exec_watching ⟨w, .main⟩ c i s hc)
  exact ⟨hmarked _ h', h'⟩

-- The answer of a look at a file is about the state it leaves.
theorem look_wp {P : PathState → Prop} {site : Site} {f : File} (hsite : site ≠ .rollbackSwap)
    (hs : P s) (hkept : ∀ s s', P s → Kept s s' → P s')
    (hmarked : ∀ s, P s → Marked original s) :
    Recovers w original (orRaise (act site (.exists f)))
      (fun r s => P s ∧ ∀ found, r = .ok found → s.present f = found) s := by
  refine Program.wp_call_of hs (fun s s' h hr => hkept s s' h (TimePasses.kept hr))
    fun i s h _ _ => ?_
  have h' := hkept s _ h (exec_watching ⟨w, .main⟩ ⟨site, .exists f⟩ i s
    (by simpa [Watching] using hsite))
  refine ⟨hmarked _ h', ?_⟩
  change Recovers w original (.ofExcept ((exec ⟨w, .main⟩ ⟨site, .exists f⟩ i s).2.mapError .os)) _
    (exec ⟨w, .main⟩ ⟨site, .exists f⟩ i s).1
  refine (Program.wp_ofExcept ..).mpr ⟨h', ?_⟩
  rcases exists_cases ⟨w, .main⟩ site i s f hsite with he | he <;> rw [he]
  · exact nofun
  · intro found hfound
    rw [← Except.ok.inj hfound, PathState.sawAbsence_present]

-- A path that looks finished has no lock, so what is marked there is not exposed.
theorem looksFinished_wp {site : Site} (hsite : site ≠ .rollbackSwap) (hs : Marked original s) :
    Recovers w original (looksFinished site)
      (fun r s => Marked original s ∧ (r = .ok true → ¬Exposed original s)) s := by
  have hkept : ∀ s s', Marked original s → Kept s s' → Marked original s' :=
    fun _ _ h hk => h.kept hk
  refine Program.wp_seq (look_wp hsite hs hkept fun _ h => h) (fun present s h => ?_)
    fun _ _ h => ⟨h.1, nofun⟩
  split
  · refine Program.wp_seq (look_wp hsite h.1 hkept fun _ h => h) (fun locked s h => ?_)
      fun _ _ h => ⟨h.1, nofun⟩
    refine ⟨h.1, fun hr hexposed => ?_⟩
    have hlock : s.lock.isSome = locked := h.2 locked rfl
    rw [h.1 hexposed] at hlock
    rw [← hlock] at hr
    cases hr
  · exact ⟨h.1, nofun⟩

def Cleared (s : PathState) : Prop := s.bak = none

theorem cleared_wp {p : Worker α} (hs : Cleared s)
    (hp : p.Calls fun c => Watching c ∨ c.action = .unlink .lock) :
    Recovers w original p (fun _ s => Cleared s) s := by
  refine Program.wp_of_calls hp hs (fun _ _ h hr => (TimePasses.kept hr).bak.trans h)
    fun c i s hc h _ _ => ?_
  have h' : (exec ⟨w, .main⟩ c i s).1.bak = none := by
    rcases hc with hc | hc
    · exact (exec_watching ⟨w, .main⟩ c i s hc).bak.trans h
    · obtain ⟨site, action⟩ := c
      cases hc
      exact (exec_steady ⟨w, .main⟩ ⟨site, .unlink .lock⟩ s i rfl).bak.trans h
  exact ⟨marked_of_bak h', h'⟩

theorem clearLeftovers_wp {site : Site} (hsite : site ≠ .rollbackSwap) (hs : Cleared s) :
    Recovers w original (clearLeftovers site) (fun _ s => Cleared s) s := by
  have hlook : ∀ f, Watching ⟨site, .exists f⟩ := fun f => by simpa [Watching] using hsite
  refine cleared_wp hs ((safeDelete_calls (.inl (hlook _)) (.inr rfl)).bind fun _ => ?_)
  exact safeDelete_calls (.inl (hlook _)) (.inl rfl)

-- A restore either leaves everything where it was or consumes the backup.
theorem replaceBackup_wp {β : Type} {site : Site} {k : Except OSError Unit → Worker β}
    {Q : Except Failure β → PathState → Prop} (hsite : site ≠ .rollbackSwap)
    (hs : Marked original s)
    (herror : ∀ e s, Marked original s → Recovers w original (k (.error e)) Q s)
    (hok : ∀ s, Cleared s → Recovers w original (k (.ok ())) Q s) :
    Recovers w original (act site (.replace .bak .source) >>= k) Q s := by
  refine Program.wp_call_of hs (fun s s' h hr => h.kept (TimePasses.kept hr)) fun i s h _ _ => ?_
  change Marked original (exec ⟨w, .main⟩ ⟨site, .replace .bak .source⟩ i s).1 ∧
    Recovers w original (k (exec ⟨w, .main⟩ ⟨site, .replace .bak .source⟩ i s).2) Q
      (exec ⟨w, .main⟩ ⟨site, .replace .bak .source⟩ i s).1
  rcases replace_cases ⟨w, .main⟩ site i s .bak .source hsite with ⟨e, he⟩ | ⟨-, he⟩ <;> rw [he]
  · exact ⟨h, herror e s h⟩
  · exact ⟨marked_of_bak rfl, hok _ rfl⟩

def Answered (original : Option Bytes) (r : Except Failure SourceRecovery) (s : PathState) : Prop :=
  Marked original s ∧ (r = .ok .attention → ¬Exposed original s)

theorem marked_watching {p : Worker α} (hp : p.Calls (Watching ·)) (hs : Marked original s) :
    Recovers w original p (fun _ s => Marked original s) s :=
  watching_wp hp hs (fun _ _ h hk => h.kept hk) fun _ h => h

theorem restoreSource_wp (hs : Marked original s) :
    Recovers w original restoreSource (Answered original) s := by
  refine replaceBackup_wp (by decide) hs (fun e s h => ?_) fun s h => ?_
  · refine Program.wp_seq (marked_watching (look_calls (by rfl)) h)
      (fun left s h => ?_) fun _ _ h => ⟨h, nofun⟩
    split
    · exact ⟨h, nofun⟩
    · refine Program.wp_seq (marked_watching (look_calls (by rfl)) h)
        (fun found s h => ?_) fun _ _ h => ⟨h, nofun⟩
      split <;> exact ⟨h, nofun⟩
  · exact Program.wp_seq (clearLeftovers_wp (by decide) h) (fun _ _ h => ⟨marked_of_bak h, nofun⟩)
      fun _ _ h => ⟨marked_of_bak h, nofun⟩

theorem hasLeftovers_watching : hasLeftovers.Calls (Watching ·) := by
  refine (look_calls (by rfl)).bind fun locked => ?_
  split
  · trivial
  · exact look_calls (by rfl)

-- Without a backup nothing is exposed, whatever is cleared away.
theorem clean_wp (hs : Cleared s) :
    Recovers w original (do
      if ← hasLeftovers then do
        clearLeftovers .recoverSourcePath
        pure .cleaned
      else pure .clean) (Answered original) s := by
  have hcleared : ∀ s, Cleared s → Marked original s := fun _ h => marked_of_bak h
  refine Program.wp_seq (watching_wp hasLeftovers_watching hs (fun _ _ h hk => hk.bak.trans h) hcleared)
    (fun leftovers s h => ?_) fun _ _ h => ⟨hcleared _ h, nofun⟩
  split
  · exact Program.wp_seq (clearLeftovers_wp (by decide) h) (fun _ _ h => ⟨marked_of_bak h, nofun⟩)
      fun _ _ h => ⟨marked_of_bak h, nofun⟩
  · exact ⟨hcleared _ h, nofun⟩

theorem recoverSourcePath_wp (workerId : String) (staleAfter : Nat) (hs : Marked original s) :
    Recovers w original (recoverSourcePath workerId staleAfter) (Answered original) s := by
  refine Program.wp_seq (marked_watching (lockedElsewhere_calls _ _ (by rfl) (by rfl) (by rfl)) hs)
    (fun active s h => ?_) fun _ _ h => ⟨h, nofun⟩
  split
  · exact ⟨h, nofun⟩
  refine Program.wp_seq (look_wp (by decide) h (fun _ _ h hk => h.kept hk) fun _ h => h)
    (fun present s h => ?_) fun _ _ h => ⟨h.1, nofun⟩
  split
  · refine Program.wp_seq (looksFinished_wp (by decide) h.1) (fun finished s h => ?_)
      fun _ _ h => ⟨h.1, nofun⟩
    split
    · next hfinished => exact ⟨h.1, fun _ => h.2 (by rw [hfinished])⟩
    · exact Program.wp_seq (marked_watching (look_calls (by rfl)) h.1)
        (fun _ s h => restoreSource_wp h) fun _ _ h => ⟨h, nofun⟩
  · next habsent =>
    refine clean_wp ?_
    simpa [PathState.present, PathState.mediaAt, Cleared, habsent] using h.2 present rfl

-- What a scan knows about the paths it has counted.
def Counted (original : Option Bytes) (stats : RecoveryStats) (s : PathState) : Prop :=
  Marked original s ∧ (0 < stats.needsAttention → ¬Exposed original s)

theorem Counted.kept {stats : RecoveryStats} {s' : PathState} (h : Counted original stats s)
    (hk : Kept s s') : Counted original stats s' :=
  ⟨h.1.kept hk, fun hn hexposed => h.2 hn (hexposed.kept hk)⟩

theorem Marked.counted {stats : RecoveryStats} (h : Marked original s)
    (hn : stats.needsAttention = 0) : Counted original stats s :=
  ⟨h, fun hpos => absurd hn (Nat.pos_iff_ne_zero.mp hpos)⟩

def Scanned (original : Option Bytes) (r : Except Failure RecoveryStats) (s : PathState) : Prop :=
  Marked original s ∧ ∀ stats, r = .ok stats → Counted original stats s

theorem Scanned.ok {stats : RecoveryStats} (h : Counted original stats s) :
    Scanned original (.ok stats) s :=
  ⟨h.1, fun _ hr => Except.ok.inj hr ▸ h⟩

theorem Scanned.error {e : Failure} (h : Marked original s) : Scanned original (.error e) s :=
  ⟨h, nofun⟩

theorem restoreBackup_wp (hs : Marked original s) :
    Recovers w original restoreBackup (fun r s => match r with
      | .ok (.ok ()) => Cleared s
      | _ => Marked original s) s := by
  have hlook : Recovers w original (act .recoverBackups (.exists sourceFile))
      (fun _ s => Marked original s) s := marked_watching (act_calls (by rfl)) hs
  refine Program.wp_seq hlook (fun found s h => ?_) fun _ _ h => h
  cases found with
  | error e => exact h
  | ok _ => exact replaceBackup_wp (k := .ret) (by decide) h (fun _ _ h => h) fun _ h => h

theorem recoverBackup_wp (workerId : String) (staleAfter : Nat) {stats : RecoveryStats}
    (hn : stats.needsAttention = 0) (hs : Marked original s) :
    Recovers w original (recoverBackup workerId staleAfter stats) (Scanned original) s := by
  refine Program.wp_seq (marked_watching (lockedElsewhere_calls _ _ (by rfl) (by rfl) (by rfl)) hs)
    (fun active s h => ?_) fun _ _ h => .error h
  split
  · exact .ok (h.counted hn)
  refine Program.wp_seq (looksFinished_wp (by decide) h) (fun finished s h => ?_)
    fun _ _ h => .error h.1
  split
  · next hfinished => exact .ok ⟨h.1, fun _ => h.2 (by rw [hfinished])⟩
  refine Program.wp_seq (restoreBackup_wp h.1) (fun restored s h => ?_) fun _ _ h => .error h
  cases restored with
  | error e => exact .ok (Marked.counted h hn)
  | ok _ =>
    have hdelete : ∀ f, f = .lock ∨ f = tmpFile → ∀ s, Cleared s →
        Recovers w original (deleteLeftover .recoverBackups f) (fun _ s => Cleared s) s := by
      rintro f (rfl | rfl) s h
      · exact cleared_wp h (deleteLeftover_calls (.inl rfl) (.inr rfl))
      · exact cleared_wp h (deleteLeftover_calls (.inl rfl) (.inl rfl))
    refine Program.wp_seq (hdelete .lock (.inl rfl) s h) (fun locks s h => ?_)
      fun _ _ h => .error (marked_of_bak h)
    refine Program.wp_seq (hdelete tmpFile (.inr rfl) s h) (fun tmps s h => ?_)
      fun _ _ h => .error (marked_of_bak h)
    exact .ok (Marked.counted (marked_of_bak h) hn)

theorem scanned_watching {p : Worker α} {stats : RecoveryStats} (hp : p.Calls (Watching ·))
    (hs : Counted original stats s) :
    Recovers w original p (fun _ s => Counted original stats s) s :=
  watching_wp hp hs (fun _ _ h hk => h.kept hk) fun _ h => h.1

theorem recoverBackupsUnder_wp (workerId : String) (staleAfter : Nat) {stats : RecoveryStats}
    (hn : stats.needsAttention = 0) (hs : Marked original s) :
    Recovers w original (recoverBackupsUnder workerId staleAfter stats) (Scanned original) s := by
  refine Program.wp_seq (scanned_watching (orRaise_calls (act_calls (by rfl))) (hs.counted hn))
    (fun present s h => ?_) fun _ _ h => .error h.1
  split
  · refine Program.wp_seq (scanned_watching (orRaise_calls (act_calls (by rfl))) h)
      (fun file s h => ?_) fun _ _ h => .error h.1
    split
    · exact recoverBackup_wp workerId staleAfter hn h.1
    · exact .ok h
  · exact .ok h

-- Removing the lock leaves nothing exposed, unless it unmarks an encode.
theorem unlinkLock_wp {β : Type} {k : Except OSError Unit → Worker β} {stats : RecoveryStats}
    {Q : Except Failure β → PathState → Prop} (hs : Counted original stats s)
    (herror : ∀ e s, Counted original stats s → Recovers w original (k (.error e)) Q s)
    (hok : ∀ s, ¬Exposed original s → Recovers w original (k (.ok ())) Q s) :
    Recovers w original (act .removeStaleLocks (.unlink .lock) >>= k) Q s := by
  refine Program.wp_call_of hs (fun s s' h hr => h.kept (TimePasses.kept hr)) fun i s h _ ha => ?_
  change Marked original (exec ⟨w, .main⟩ ⟨.removeStaleLocks, .unlink .lock⟩ i s).1 ∧
    Recovers w original (k (exec ⟨w, .main⟩ ⟨.removeStaleLocks, .unlink .lock⟩ i s).2) Q
      (exec ⟨w, .main⟩ ⟨.removeStaleLocks, .unlink .lock⟩ i s).1
  rcases unlinkLock_cases ⟨w, .main⟩ .removeStaleLocks i s with
    ⟨e, he⟩ | ⟨hfault, hlock, he⟩ <;> rw [he]
  · exact ⟨h.1, herror e s h⟩
  · have hunexposed : ¬Exposed original s := fun hexposed => ha ⟨rfl, hfault, hlock, hexposed⟩
    have hunmarked : ¬Exposed original ((s.remove .lock).setHold w none) := hunexposed
    exact ⟨fun hexposed => absurd hexposed hunmarked, hok _ hunmarked⟩

theorem removeStaleLock_wp (workerId : String) (staleAfter : Nat) {stats : RecoveryStats}
    (hs : Counted original stats s) :
    Recovers w original (removeStaleLock workerId staleAfter stats) (Scanned original) s := by
  refine Program.wp_seq (scanned_watching (lockIsActive_calls _ _ (by rfl) (by rfl)) hs) (fun active s h => ?_)
    fun _ _ h => .error h.1
  split
  · exact .ok h
  refine unlinkLock_wp h (fun e s h => .ok h) fun s h => ?_
  have hmarked : ∀ s, ¬Exposed original s → Marked original s := fun s h he => absurd he h
  refine Program.wp_seq (watching_wp (deleteLeftover_calls (by rfl) (by rfl)) h
    (fun _ _ h hk he => h (he.kept hk)) hmarked) (fun tmps s h => ?_) fun _ s h => .error (hmarked s h)
  exact .ok ⟨hmarked s h, fun _ => h⟩

theorem removeStaleLocksUnder_wp (workerId : String) (staleAfter : Nat) {stats : RecoveryStats}
    (hs : Counted original stats s) :
    Recovers w original (removeStaleLocksUnder workerId staleAfter stats) (Scanned original) s := by
  refine Program.wp_seq (scanned_watching (orRaise_calls (act_calls (by rfl))) hs)
    (fun present s h => ?_) fun _ _ h => .error h.1
  split
  · refine Program.wp_seq (scanned_watching (orRaise_calls (act_calls (by rfl))) h)
      (fun file s h => ?_) fun _ _ h => .error h.1
    split
    · exact removeStaleLock_wp workerId staleAfter h
    · exact .ok h
  · exact .ok h

theorem recoverOrphanedBackups_wp (workerId : String) (staleAfter : Nat)
    (hs : Marked original s) :
    Recovers w original (recoverOrphanedBackups workerId staleAfter) (Scanned original) s := by
  refine Program.wp_seq (marked_watching (orRaise_calls (act_calls (by rfl))) hs)
    (fun root s h => ?_) fun _ _ h => .error h
  split
  · refine Program.wp_seq (recoverBackupsUnder_wp workerId staleAfter rfl h)
      (fun stats s h => ?_) fun _ _ h => .error h.1
    exact removeStaleLocksUnder_wp workerId staleAfter (h.2 stats rfl)
  · exact .ok (Marked.counted h rfl)

theorem recover_marked (r : RecoveryRequest) (hs : Marked original s) :
    Recovers w original (recover r)
      (fun answer s => Marked original s ∧
        (NeedsAttention (some answer) → ¬Exposed original s)) s := by
  cases r with
  | sourcePath workerId staleAfter =>
    refine Program.wp_seq (recoverSourcePath_wp workerId staleAfter hs) (fun recovery s h => ?_)
      fun _ _ h => ⟨h.1, nofun⟩
    refine ⟨h.1, fun hattention => h.2 ?_⟩
    have hanswer : recovery = .attention := by simpa [NeedsAttention] using hattention
    rw [hanswer]
  | scan workerId staleAfter =>
    refine Program.wp_seq (recoverOrphanedBackups_wp workerId staleAfter hs) (fun stats s h => ?_)
      fun _ _ h => ⟨h.1, nofun⟩
    refine ⟨h.1, fun hattention => (h.2 stats rfl).2 ?_⟩
    simpa [NeedsAttention] using hattention

end Recover

section Runs

variable {original : Option Bytes} {s s₁ s₂ : PathState} {es es' : List PathCall}
  {answers : List (Option (Except Failure RecoveryAnswer) × PathState)}

def MarkedAround (original : Option Bytes) (e : PathCall) : Prop :=
  Marked original e.pre ∧ Marked original e.post

def Settled (original : Option Bytes) (a : Option (Except Failure RecoveryAnswer) × PathState) :
    Prop :=
  NeedsAttention a.1 → ¬Exposed original a.2

theorem recovery_marked {r : RecoveryRequest} {rest : Worker RecoveryAnswer}
    (h : Exec handler ⟨r.worker, .main⟩ TimePasses (recover r) s es rest s₁)
    (hs : Marked original s) (hun : ∀ e ∈ es, ¬Unmarks original e) :
    (∀ e ∈ es, MarkedAround original e) ∧ Marked original s₁ ∧
      Settled original (rest.outcome, s₁) := by
  have hwp := recover_marked (w := r.worker) r hs
  have hpost := (Exec.adequate h hwp hun).1
  obtain ⟨hpre, hlast⟩ := h.around hs (fun _ _ h hr => h.kept (TimePasses.kept hr)) hpost
  refine ⟨fun e he => ⟨hpre e he, hpost e he⟩, hlast, fun hattention => ?_⟩
  cases ho : rest.outcome with
  | none =>
    rw [ho] at hattention
    cases hattention
  | some answer =>
    rw [ho] at hattention
    exact (Exec.outcome_post h hwp hun ho).2 hattention

theorem recoveries_marked (h : RecoveryRuns s es answers s₁) (hs : Marked original s)
    (hun : ∀ e ∈ es, ¬Unmarks original e) :
    (∀ e ∈ es, MarkedAround original e) ∧ Marked original s₁ ∧
      ∀ a ∈ answers, Settled original a := by
  induction h with
  | refl => exact ⟨by simp, hs, by simp⟩
  | step r _ hexec ih =>
    obtain ⟨haround, hmarked, hsettled⟩ := ih fun e he => hun e (List.mem_append_left _ he)
    obtain ⟨haround', hmarked', hsettled'⟩ := recovery_marked hexec hmarked fun e he =>
      hun e (List.mem_append_right _ he)
    refine ⟨fun e he => ?_, hmarked', fun a ha => ?_⟩
    · exact (List.mem_append.mp he).elim (haround e) (haround' e)
    · rcases List.mem_append.mp ha with ha | ha
      · exact hsettled a ha
      · rw [List.mem_singleton.mp ha]
        exact hsettled'

theorem recoveries_post (h : RecoveryRuns s es answers s₁) :
    ∀ e ∈ es, ∃ a, e.post = (exec a e.op e.input e.pre).1 := by
  induction h with
  | refl => simp
  | step r _ hexec ih =>
    intro e he
    rcases List.mem_append.mp he with he | he
    · exact ih e he
    · exact ⟨_, hexec.post_eq e he⟩

-- Once the lock is gone from beside an exposed encode, nothing marks it.
theorem unmarks_post {e : PathCall} {a : Actor} (h : Unmarks original e)
    (hpost : e.post = (exec a e.op e.input e.pre).1) : ¬Marked original e.post := by
  obtain ⟨hop, hfault, hlock, hexposed⟩ := h
  have hremoved : e.post = (e.pre.remove .lock).setHold a.worker none := by
    rw [hpost, hop]
    simp [exec, hfault, PathState.present, hlock]
  intro hmarked
  have hlocked : e.post.lock.isSome := by
    apply hmarked
    rw [hremoved]
    exact hexposed
  rw [hremoved] at hlocked
  cases hlocked

end Runs

theorem marked_iff {job : PipelineJob} {s s₁ s₂ : PathState} {es es' : List PathCall}
    {rest : Worker PipelineResult}
    {answers : List (Option (Except Failure RecoveryAnswer) × PathState)}
    (hfresh : Fresh job.workerId s) (hpipeline : PipelineRun job s es rest s₁)
    (hrecoveries : RecoveryRuns s₁ es' answers s₂) :
    ((∀ e ∈ es ++ es', MarkedAround s.source e) ∧ Marked s.source s₂ ∧
      ∀ a ∈ answers, Settled s.source a) ↔ ∀ e ∈ es', ¬Unmarks s.source e := by
  constructor
  · rintro ⟨haround, -⟩ e he hunmarks
    obtain ⟨a, hpost⟩ := recoveries_post hrecoveries e he
    exact unmarks_post hunmarks hpost (haround e (List.mem_append_right _ he)).2
  · intro hun
    obtain ⟨hpost, hpre, hlast⟩ := pipeline_swapSafe hpipeline hfresh
    obtain ⟨haround, hmarked, hsettled⟩ :=
      recoveries_marked hrecoveries (swapSafe_marked hlast) hun
    refine ⟨fun e he => ?_, hmarked, hsettled⟩
    rcases List.mem_append.mp he with he | he
    · exact ⟨swapSafe_marked (hpre e he), swapSafe_marked (hpost e he)⟩
    · exact haround e he

section Sample

-- Killed between the second rename and the confirmation.
def swappedIn : DrivenPipeline :=
  (drivePipeline (List.replicate 40 allPass)).get (by decide +kernel)

def driveRecovery (r : RecoveryRequest) (inputs : List Input) (s : PathState) :
    Option (List PathCall × Worker RecoveryAnswer × PathState) :=
  (recover r).drive handler ⟨r.worker, .main⟩ inputs s

theorem driveRecovery_run {r : RecoveryRequest} {inputs : List Input} {s : PathState}
    {d : List PathCall × Worker RecoveryAnswer × PathState}
    (h : driveRecovery r inputs s = some d) :
    RecoveryRuns s d.1 [(d.2.1.outcome, d.2.2)] d.2.2 :=
  .step r .refl (Exec.drive (fun s => ⟨s.clock, le_rfl, rfl⟩) h)

def works : Input where
  fault := false

def fails : Input where
  fault := true

abbrev DrivenRecovery := List PathCall × Worker RecoveryAnswer × PathState

-- A claim-time recovery of the same worker whose restore fails.
def failedClaim : DrivenRecovery :=
  (driveRecovery (.sourcePath "a" recoveryStaleLock)
    (List.replicate 6 works ++ [fails, works]) swappedIn.2.2).get (by decide +kernel)

theorem marked_iff_failedClaim :
    failedClaim.2.1.outcome = some (.ok (.sourcePath .restoreFailed)) ∧
      Exposed (some [7, 7]) failedClaim.2.2 ∧ Marked (some [7, 7]) failedClaim.2.2 := by
  have hpipeline : PipelineRun (sampleJob "a") samplePath swappedIn.1 swappedIn.2.1
      swappedIn.2.2 := drivePipeline_run (Option.some_get _).symm
  have hrecovery := driveRecovery_run (d := failedClaim) (Option.some_get _).symm
  have hmarked := (marked_iff ⟨rfl, rfl⟩ hpipeline hrecovery).mpr (by decide +kernel)
  exact ⟨by decide +kernel, by decide +kernel, hmarked.2.1⟩

-- A startup scan whose restore fails and whose second pass then removes the lock.
def failedScan : DrivenRecovery :=
  (driveRecovery (.scan "a" recoveryStaleLock)
    (List.replicate 8 works ++ fails :: List.replicate 5 works) swappedIn.2.2).get
    (by decide +kernel)

def nextClaim : DrivenRecovery :=
  (driveRecovery (.sourcePath "a" recoveryStaleLock) (List.replicate 4 works) failedScan.2.2).get
    (by decide +kernel)

theorem not_marked :
    ¬∀ (job : PipelineJob) (s s₁ s₂ : PathState) (es es' : List PathCall)
      (rest : Worker PipelineResult)
      (answers : List (Option (Except Failure RecoveryAnswer) × PathState)),
      Fresh job.workerId s → PipelineRun job s es rest s₁ → RecoveryRuns s₁ es' answers s₂ →
      (∀ e ∈ es ++ es', MarkedAround s.source e) ∧ Marked s.source s₂ ∧
        ∀ a ∈ answers, Settled s.source a := by
  intro h
  have hpipeline : PipelineRun (sampleJob "a") samplePath swappedIn.1 swappedIn.2.1
      swappedIn.2.2 := drivePipeline_run (Option.some_get _).symm
  have hscan := driveRecovery_run (d := failedScan) (Option.some_get _).symm
  have hclaim : Exec handler ⟨"a", .main⟩ TimePasses (recover (.sourcePath "a" recoveryStaleLock))
      failedScan.2.2 nextClaim.1 nextClaim.2.1 nextClaim.2.2 :=
    Exec.drive (fun s => ⟨s.clock, le_rfl, rfl⟩) (Option.some_get _).symm
  have hruns := RecoveryRuns.step (.sourcePath "a" recoveryStaleLock) hscan hclaim
  have hsettled := (h (sampleJob "a") samplePath _ _ _ _ _ _ ⟨rfl, rfl⟩ hpipeline hruns).2.2
    (nextClaim.2.1.outcome, nextClaim.2.2) (by simp)
  exact absurd (hsettled (by decide +kernel)) (by decide +kernel)

end Sample

end TranscodeForge.Attention
