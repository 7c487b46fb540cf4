import TranscodeForge.Worker.LockSteps

namespace TranscodeForge.Exclusion

open Interaction SourcePath Filesystem Ownership Pipeline Phases CallClasses Recovery Owners
  LockSteps

def Idle (w : String) (s : PathState) : Prop :=
  (s.own w).beating = false ∧ (s.own w).touching = false

-- What the others leave to an actor; the transaction and the hold are shared with its own
-- heartbeat once that beats.
structure Spared (a : Actor) (s s' : PathState) : Prop where
  saw : s'.sawLock a = s.sawLock a
  clock : s.clock ≤ s'.clock
  idle : a.role = .main → Idle a.worker s →
    s'.own a.worker = s.own a.worker ∧ s'.hold a.worker = s.hold a.worker
  touching : a.role = .heartbeat → (s.own a.worker).touching → (s'.own a.worker).touching

theorem Spared.refl (a : Actor) (s : PathState) : Spared a s s :=
  ⟨rfl, le_rfl, fun _ _ => ⟨rfl, rfl⟩, fun _ h => h⟩

theorem Spared.trans {a : Actor} {s s' s'' : PathState} (h : Spared a s s')
    (h' : Spared a s' s'') : Spared a s s'' := by
  refine ⟨h'.saw.trans h.saw, h.clock.trans h'.clock, fun hrole hidle => ?_,
    fun hrole ht => h'.touching hrole (h.touching hrole ht)⟩
  obtain ⟨hown, hhold⟩ := h.idle hrole hidle
  have hidle' : Idle a.worker s' := by rwa [Idle, hown]
  obtain ⟨hown', hhold'⟩ := h'.idle hrole hidle'
  exact ⟨hown'.trans hown, hhold'.trans hhold⟩

-- The lock a recovery by this worker may take away at this time.
def Revocable (staleAfter : Nat) (w : String) (clock : Nat) (l : LockFile) : Prop :=
  match l.text with
  | .object _ lockWorker (some ts) => lockWorker = some w ∨ ts + staleAfter ≤ clock
  | _ => True

def Ours (a : Actor) (s : PathState) : Prop :=
  ∀ l, s.sawLock a = some l → l.text.workerId = some a.worker

def Judged (staleAfter : Nat) (a : Actor) (s : PathState) : Prop :=
  ∀ l, s.sawLock a = some l → Revocable staleAfter a.worker s.clock l

structure OwnerProper (a : Actor) (c : Call) (s : PathState) : Prop where
  releases : c.action = .unlink .lock → Ours a s
  writes : ∀ text, c.action = .writeLock text → ∃ jobId ts h, text = token jobId a.worker ts ∧
    s.hold a.worker = some h ∧ h.written = false ∧ ts ≤ h.stamp
  opens : c.action = .openTransaction → Idle a.worker s ∧ s.hold a.worker = none

-- What each thread promises about its calls when they are made.
def Proper (staleAfter : Nat) (a : Actor) (r : Errand) (c : Call) (s : PathState) : Prop :=
  match a.role, r with
  | .main, .pipeline _ => OwnerProper a c s
  | .main, .claim | .main, .scan => c.action = .unlink .lock → Judged staleAfter a s
  | .heartbeat, .beat _ => (s.own a.worker).touching ∧ (c.action = .replaceLock → Ours a s)
  | _, _ => False

def promising (staleAfter : Nat) (a : Actor) (r : Errand) : Contract Call PathState Input where
  rely := Spared a
  assume := fun _ _ _ => True
  guar := fun c _ s _ => Proper staleAfter a r c s

def holding (staleAfter : Nat) (a : Actor) (r : Errand) : Contract Call PathState Input where
  rely := Spared a
  assume := fun _ _ _ => True
  guar := fun c _ s _ => r.Makes c ∧ Proper staleAfter a r c s

abbrev Promises {α : Type} (staleAfter : Nat) (a : Actor) (r : Errand) (p : Worker α)
    (Q : Except Failure α → PathState → Prop) (s : PathState) : Prop :=
  p.wp handler a (promising staleAfter a r) Q s

section Spared

variable {a b : Actor} {s s' : PathState}

theorem proper_spares {staleAfter : Nat} {r' : Errand} {c : Call} (i : Input) (hab : b ≠ a)
    (hc : r'.Makes c) (h : Proper staleAfter b r' c s) : Spared a s (exec b c i s).1 := by
  have hforeign := exec_foreign b c i s
  refine ⟨hforeign.saw a (Ne.symm hab), hforeign.clock.ge, fun hrole hidle => ?_,
    fun hrole ht => ?_⟩
  · by_cases hw : a.worker = b.worker
    · obtain ⟨v, role⟩ := b
      obtain rfl : v = a.worker := hw.symm
      cases role with
      | main =>
        obtain ⟨w, role⟩ := a
        exact absurd (congrArg _ hrole.symm) hab
      | heartbeat =>
        cases r' with
        | beat own =>
          have htouch : (s.own a.worker).touching = true := h.1
          rw [hidle.2] at htouch
          cases htouch
        | _ => exact h.elim
    · exact ⟨hforeign.own _ hw, hforeign.hold _ hw⟩
  · by_cases hw : a.worker = b.worker
    · have hmain : b.role = .main := by
        cases hb : b.role with
        | main => rfl
        | heartbeat =>
          refine absurd ?_ hab
          obtain ⟨w, role⟩ := a
          obtain ⟨v, role'⟩ := b
          simp_all
      rw [hw] at ht ⊢
      rw [exec_keeps_touching b c i s]
      · exact ht
      · intro he
        cases r' <;> simp [Errand.Makes, Piped, Recovering, Proper, hmain, he] at hc h
      · intro ho
        cases r' with
        | pipeline job =>
          simp only [Proper, hmain] at h
          have hidle := (h.opens ho).1
          rw [hidle.2] at ht
          cases ht
        | beat own => simp [Proper, hmain] at h
        | _ => simp [Errand.Makes, Recovering, ho] at hc
    · rwa [hforeign.own _ hw]

theorem Spared.of_other (hsaw : s'.sawLock a = s.sawLock a) (hclock : s.clock ≤ s'.clock)
    (hown : s'.own a.worker = s.own a.worker) (hhold : s'.hold a.worker = s.hold a.worker) :
    Spared a s s' :=
  ⟨hsaw, hclock, fun _ _ => ⟨hown, hhold⟩, fun _ ht => by rwa [hown]⟩

theorem other_role (hab : b ≠ a) (hw : a.worker = b.worker) : a.role ≠ b.role := by
  intro hrole
  obtain ⟨w, role⟩ := a
  obtain ⟨v, role'⟩ := b
  exact hab (by simp_all)

theorem start_spares {r : Errand} (hab : b ≠ a) (h : start b r s = some s') : Spared a s s' := by
  have hmain : b.role = .main → (s.own b.worker).touching = false → s' = depart b.worker s →
      Spared a s s' := by
    rintro hrole htouch rfl
    by_cases hw : a.worker = b.worker
    · have hbeat := other_role hab hw
      rw [hrole] at hbeat
      refine ⟨rfl, le_rfl, fun hmain => absurd hmain hbeat, fun _ ht => ?_⟩
      rw [hw, htouch] at ht
      cases ht
    · exact .of_other rfl le_rfl (Function.update_of_ne hw _ _) (Function.update_of_ne hw _ _)
  cases r with
  | beat own =>
    simp only [start] at h
    split at h
    · next hstart =>
      cases h
      by_cases hw : a.worker = b.worker
      · have hmain := other_role hab hw
        rw [hstart.1] at hmain
        refine ⟨rfl, le_rfl, fun _ hidle => ?_, fun hbeat => absurd hbeat hmain⟩
        have hbeating := hidle.1
        rw [hw, hstart.2.2] at hbeating
        cases hbeating
      · exact .of_other rfl le_rfl (Function.update_of_ne hw _ _) rfl
    · cases h
  | pipeline job =>
    simp only [start] at h
    split at h
    · next hstart =>
      cases h
      exact hmain hstart.1 hstart.2.2 rfl
    · cases h
  | _ =>
    simp only [start] at h
    split at h
    · next hstart =>
      cases h
      exact hmain hstart.1 hstart.2 rfl
    · cases h

theorem disturb_spares {staleAfter : Nat} (k : Disturbance)
    (hk : (owners staleAfter).kills k a = false) : Spared a s ((owners staleAfter).disturb k s) := by
  cases k with
  | tick elapsed => exact .of_other rfl (Nat.le_add_right _ _) rfl rfl
  | crash w =>
    have hw : a.worker ≠ w := by simpa [owners] using hk
    exact .of_other rfl le_rfl (Function.update_of_ne hw _ _) (Function.update_of_ne hw _ _)

end Spared

section Promises

variable {α : Type} {staleAfter : Nat} {a : Actor} {r : Errand} {s s' : PathState}

theorem promise_wp {c : Call} {k : c.Answer → Worker α} {Q : Except Failure α → PathState → Prop}
    (P : PathState → Prop) (hs : P s) (hrely : ∀ s s', P s → Spared a s s' → P s')
    (hcall : ∀ i s, P s → Proper staleAfter a r c s ∧
      Promises staleAfter a r (k (exec a c i s).2) Q (exec a c i s).1) :
    Promises staleAfter a r (.call c k) Q s :=
  Program.wp_call_of hs hrely fun i s h _ _ => hcall i s h

theorem promises_of_calls {A : Call → Prop} {P : PathState → Prop} {p : Worker α} (hp : p.Calls A)
    (hs : P s) (hrely : ∀ s s', P s → Spared a s s' → P s')
    (hproper : ∀ c s, A c → P s → Proper staleAfter a r c s)
    (hkeeps : ∀ c i s, A c → P s → P (exec a c i s).1) :
    Promises staleAfter a r p (fun _ s => P s) s :=
  Program.wp_of_calls hp hs hrely fun c i s hc h _ _ => ⟨hproper c s hc h, hkeeps c i s hc h⟩

theorem Ours.spared (h : Ours a s) (hr : Spared a s s') : Ours a s' := by
  intro l hl
  rw [hr.saw] at hl
  exact h l hl

theorem Ours.keeps {c : Call} (i : Input) (h : Ours a s) (hread : c.action ≠ .readLock)
    (hopen : c.action ≠ .openExclusive) : Ours a (exec a c i s).1 := by
  intro l hl
  rcases exec_keeps_saw a c i s hread hopen with hsaw | hsaw <;> rw [hsaw] at hl
  · exact h l hl
  · cases hl

theorem Revocable.later {w : String} {clock clock' : Nat} {l : LockFile}
    (h : Revocable staleAfter w clock l) (hc : clock ≤ clock') :
    Revocable staleAfter w clock' l := by
  unfold Revocable at h ⊢
  split at h
  · exact h.imp id fun hle => hle.trans hc
  · trivial

theorem Judged.spared (h : Judged staleAfter a s) (hr : Spared a s s') :
    Judged staleAfter a s' := by
  intro l hl
  rw [hr.saw] at hl
  exact (h l hl).later hr.clock

theorem Judged.keeps {c : Call} (i : Input) (h : Judged staleAfter a s)
    (hread : c.action ≠ .readLock) (hopen : c.action ≠ .openExclusive) :
    Judged staleAfter a (exec a c i s).1 := by
  intro l hl
  rw [(exec_foreign a c i s).clock]
  rcases exec_keeps_saw a c i s hread hopen with hsaw | hsaw <;> rw [hsaw] at hl
  · exact h l hl
  · cases hl

-- A match says that the lock just read carries the worker's token.
theorem lockMatches_promises {P : PathState → Prop} (jobId : String) (hs : P s)
    (hrely : ∀ s s', P s → Spared a s s' → P s')
    (hproper : ∀ s, P s → Proper staleAfter a r ⟨.lockMatches, .readLock⟩ s)
    (hsaw : ∀ s l, P s → P (s.setSaw a l)) :
    Promises staleAfter a r (lockMatches jobId a.worker)
      (fun o s => P s ∧ (o = .ok true → Ours a s)) s := by
  refine promise_wp P hs hrely fun i s h => ⟨hproper s h, ?_⟩
  simp only [exec]
  split
  · exact ⟨hsaw s none h, fun ho => by cases ho⟩
  · exact ⟨hsaw s none h, fun ho => by cases ho⟩
  · next l _ _ =>
    refine ⟨hsaw s _ h, fun ho l' hl' => ?_⟩
    obtain rfl : l = l' := by simpa [PathState.setSaw] using hl'
    have hcarries : carriesToken jobId a.worker l.text = true := Except.ok.inj ho
    unfold carriesToken at hcarries
    split at hcarries
    · simp_all [LockText.workerId]
    · cases hcarries

end Promises

section Pipeline

variable {α : Type} {staleAfter : Nat} {w : String} {job : PipelineJob} {s s' : PathState}

abbrev Pledges (staleAfter : Nat) (w : String) (job : PipelineJob) (p : Worker α)
    (Q : Except Failure α → PathState → Prop) (s : PathState) : Prop :=
  Promises staleAfter ⟨w, .main⟩ (.pipeline job) p Q s

theorem working_proper {a : Actor} {c : Call} (s : PathState) (hc : Working c) :
    OwnerProper a c s := by
  constructor
  · intro h
    simp [Working, h] at hc
  · intro text h
    simp [Working, h] at hc
  · intro h
    simp [Working, h] at hc

theorem working_pledges {p : Worker α} (hp : p.Calls (Working ·)) (s : PathState) :
    Pledges staleAfter w job p (fun _ _ => True) s :=
  promises_of_calls hp trivial (fun _ _ _ _ => trivial) (fun _ s hc _ => working_proper s hc)
    fun _ _ _ _ _ => trivial

-- Before the transaction: no lock is held and no heartbeat runs.
def Resting (w : String) (s : PathState) : Prop := Idle w s ∧ s.hold w = none

theorem Resting.spared (h : Resting w s) (hr : Spared ⟨w, .main⟩ s s') : Resting w s' := by
  obtain ⟨hown, hhold⟩ := hr.idle rfl h.1
  refine ⟨?_, hhold.trans h.2⟩
  have hidle := h.1
  unfold Idle at hidle ⊢
  rwa [hown]

def Inert (c : Call) : Bool :=
  match c.action with
  | .stat _ | .ffprobe _ | .checkCancelled => true
  | _ => false

theorem Inert.working {c : Call} (h : Inert c) : Working c := by
  unfold Inert at h
  split at h
  · next hc => simp [Working, Piped, hc]
  · next hc => simp [Working, Piped, hc]
  · next hc => simp [Working, Piped, hc]
  · cases h

theorem Resting.keeps (i : Input) {c : Call} (hc : Inert c) (h : Resting w s) :
    Resting w (exec ⟨w, .main⟩ c i s).1 := by
  obtain ⟨site, action⟩ := c
  cases action with
  | stat m =>
    simp only [exec]
    split
    · split <;> exact h
    · unfold PathState.examine
      split <;> exact h
  | ffprobe m =>
    simp only [exec]
    unfold PathState.examine
    split <;> exact h
  | checkCancelled =>
    simp only [exec]
    split <;> exact h
  | _ => cases hc

theorem inert_pledges {p : Worker α} (hp : p.Calls (Inert ·)) (hs : Resting w s) :
    Pledges staleAfter w job p (fun _ s => Resting w s) s :=
  promises_of_calls hp hs (fun _ _ h hr => h.spared hr)
    (fun _ s hc _ => working_proper s (Inert.working hc)) fun _ i _ hc h => h.keeps i hc

theorem preflight_inert (job : PipelineJob) : (preflight job).Calls (Inert ·) := by
  unfold preflight
  split
  · refine (awaiting_calls (by rfl) (act_calls (by rfl))).bind fun probe => ?_
    rcases probe with (_ | _) | _ <;> trivial
  · trivial

-- Between the exclusive create and the write of its token.
def Opened (w : String) (ts : Nat) (s : PathState) : Prop :=
  Idle w s ∧ ∃ h, s.hold w = some h ∧ h.written = false ∧ ts ≤ h.stamp

theorem Opened.spared {ts : Nat} (h : Opened w ts s) (hr : Spared ⟨w, .main⟩ s s') :
    Opened w ts s' := by
  obtain ⟨hidle, hold, hhold, hopen⟩ := h
  obtain ⟨hown', hhold'⟩ := hr.idle rfl hidle
  refine ⟨?_, hold, hhold'.trans hhold, hopen⟩
  unfold Idle at hidle ⊢
  rwa [hown']

theorem Opened.create {ts : Nat} (h : Resting w s) (hts : ts ≤ s.clock) :
    Opened w ts (s.createLock ⟨w, .main⟩) := by
  obtain ⟨⟨hbeat, htouch⟩, -⟩ := h
  refine ⟨⟨?_, ?_⟩, ⟨s.nextInode, s.clock, false⟩, ?_, rfl, hts⟩
  · simpa [PathState.createLock, PathState.setHold, PathState.setSaw, PathState.setOwn] using hbeat
  · simpa [PathState.createLock, PathState.setHold, PathState.setSaw, PathState.setOwn] using htouch
  · simp [PathState.createLock, PathState.setHold]

theorem acquireLock_pledges (jobId : String) (hs : Resting w s) :
    Pledges staleAfter w job (acquireLock jobId w) (fun _ _ => True) s := by
  refine promise_wp (Resting w) hs (fun _ _ h hr => h.spared hr) fun i s hs =>
    ⟨working_proper s rfl, ?_⟩
  refine promise_wp (fun s' => Resting w s' ∧ s.clock ≤ s'.clock) ⟨hs, le_rfl⟩
    (fun _ _ h hr => ⟨h.1.spared hr, h.2.trans hr.clock⟩) fun i s' ⟨hs', hclock⟩ => ⟨?_, ?_⟩
  · exact ⟨fun h => (by cases h), fun _ h => (by cases h), fun h => (by cases h)⟩
  · rcases openExclusive_cases ⟨w, .main⟩ .acquireLock i s' with he | ⟨-, he⟩ | ⟨-, he⟩ <;>
      rw [he]
    · trivial
    · have hcontent : lockContent.Calls (Working ·) := by
        refine ⟨rfl, fun content => ?_⟩
        rcases content with e | (_ | _ | _ | _) <;> trivial
      refine working_pledges ?_ _
      exact hcontent.bind fun _ => trivial
    · refine promise_wp (Opened w s.clock) (.create hs' hclock) (fun _ _ h hr => h.spared hr)
        fun i s'' hopen => ⟨?_, ?_⟩
      · obtain ⟨-, hold, hhold, hwritten, hstamp⟩ := hopen
        refine ⟨fun h => (by cases h), fun text h => ?_, fun h => (by cases h)⟩
        cases h
        exact ⟨jobId, s.clock, hold, rfl, hhold, hwritten, hstamp⟩
      · exact working_pledges (.ofExcept _) _

def Deleting (c : Call) : Bool :=
  match c.action with
  | .exists _ | .unlink (.media .tmp) | .unlink .lock => true
  | _ => false

theorem deleting_pledges {p : Worker α} (hp : p.Calls (Deleting ·)) (hs : Ours ⟨w, .main⟩ s) :
    Pledges staleAfter w job p (fun _ _ => True) s := by
  refine Program.wp_mono (promises_of_calls (P := Ours ⟨w, .main⟩) hp hs
    (fun _ _ h hr => h.spared hr) (fun c s hc h => ⟨fun _ => h, fun _ ha => ?_, fun ha => ?_⟩)
    fun c i s hc h => h.keeps i (fun ha => ?_) (fun ha => ?_)) fun _ _ _ => trivial
  all_goals simp [Deleting, ha] at hc

theorem releaseLock_pledges {own : SourceOwnership} (hw : own.workerId = w) (s : PathState) :
    Pledges staleAfter w job (releaseLock own) (fun _ _ => True) s := by
  subst hw
  refine Program.wp_seq (lockMatches_promises (P := fun _ => True) own.jobId trivial
    (fun _ _ _ _ => trivial) (fun s _ => working_proper s rfl) fun _ _ _ => trivial) ?_ ?_
  · rintro (_ | _) s ⟨-, hours⟩
    · trivial
    · exact deleting_pledges (safeDelete_calls (by rfl) (by rfl)) (hours rfl)
  · exact fun _ _ _ => trivial

theorem releaseArtifacts_pledges {own : SourceOwnership} (hw : own.workerId = w) (s : PathState) :
    Pledges staleAfter w job (releaseArtifacts own) (fun _ _ => True) s := by
  subst hw
  refine Program.wp_seq (lockMatches_promises (P := fun _ => True) own.jobId trivial
    (fun _ _ _ _ => trivial) (fun s _ => working_proper s rfl) fun _ _ _ => trivial) ?_ ?_
  · rintro (_ | _) s ⟨-, hours⟩
    · trivial
    · exact deleting_pledges ((safeDelete_calls (by rfl) (by rfl)).bind fun _ =>
        safeDelete_calls (by rfl) (by rfl)) (hours rfl)
  · exact fun _ _ _ => trivial

-- Where nothing more has to be known, programs are simply run one after the other.
theorem pledges_bind {β : Type} {p : Worker α} {f : α → Worker β}
    (hp : Pledges staleAfter w job p (fun _ _ => True) s)
    (hf : ∀ x s, Pledges staleAfter w job (f x) (fun _ _ => True) s) :
    Pledges staleAfter w job (p.bind f) (fun _ _ => True) s :=
  Program.wp_seq hp (fun x s _ => hf x s) fun _ _ _ => trivial

theorem settled_pledges {p : Worker α} (hp : Pledges staleAfter w job p (fun _ _ => True) s) :
    Pledges staleAfter w job (settled p) (fun _ _ => True) s := by
  refine pledges_bind hp fun _ s => working_pledges ?_ s
  exact (checkpoint_calls (by rfl)).bind fun _ => trivial

theorem enter_pledges {o : SourceOwnership} (hw : o.workerId = w) (hs : Resting w s) :
    Pledges staleAfter w job (enter o) (fun _ _ => True) s := by
  refine promise_wp (Resting w) hs (fun _ _ h hr => h.spared hr) fun i s hs => ⟨?_, ?_⟩
  · exact ⟨fun h => (by cases h), fun _ h => (by cases h), fun _ => hs⟩
  have hopened : Resting w (s.setOwn w {}) := by
    refine ⟨⟨?_, ?_⟩, hs.2⟩ <;> simp [PathState.setOwn]
  have hacquire : Pledges staleAfter w job
      ((settled (acquireLock o.jobId o.workerId)).rescue (abandonAcquire o))
      (fun _ _ => True) (s.setOwn w {}) := by
    subst hw
    refine (Program.wp_rescue ..).mpr ?_
    refine Program.wp_mono (settled_pledges (acquireLock_pledges o.jobId hopened)) fun o s _ => ?_
    rcases o with e | _
    · cases e with
      | cancelled =>
        exact pledges_bind (settled_pledges (releaseLock_pledges rfl s)) fun _ _ => trivial
      | _ => trivial
    · trivial
  exact Program.wp_seq (f := fun _ => act .transaction .startHeartbeat) hacquire
    (fun _ s _ => working_pledges (act_calls (by rfl)) s) fun _ _ _ => trivial

theorem settle_pledges {own : SourceOwnership} (hw : own.workerId = w) (s : PathState) :
    Pledges staleAfter w job (settle own) (fun _ _ => True) s := by
  refine pledges_bind (working_pledges (act_calls (by rfl)) s) fun _ s =>
    pledges_bind (working_pledges (act_calls (by rfl)) s) fun state s => ?_
  split
  · refine pledges_bind (working_pledges rollbackSwap_working s) fun restored s => ?_
    split
    · exact releaseArtifacts_pledges hw s
    · trivial
  · exact releaseArtifacts_pledges hw s

theorem runPipeline_pledges (hw : job.workerId = w) (hs : Resting w s) :
    Pledges staleAfter w job (runPipeline job) (fun _ _ => True) s := by
  refine Program.wp_seq (inert_pledges (awaiting_calls (by rfl) (orRaise_calls
    (act_calls (by rfl)))) hs) (fun srcStat s hs => ?_) fun _ _ _ => trivial
  refine Program.wp_seq (inert_pledges (preflight_inert job) hs) (fun ⟨height, backend⟩ s hs => ?_)
    fun _ _ _ => trivial
  refine Program.wp_seq (R := fun _ s => Resting w s) ((Program.wp_ofExcept ..).mpr hs)
    (fun _ s hs => ?_) fun _ _ _ => trivial
  refine pledges_bind (enter_pledges (o := job.ownership) hw hs) fun _ s => ?_
  refine Program.wp_seq (R := fun _ _ => True) ?_ (fun outcome s _ => ?_) fun _ _ _ => trivial
  · exact (Program.wp_attempt ..).mpr (working_pledges (owned_working ..) s)
  · exact pledges_bind (settled_pledges (settle_pledges hw s)) fun _ s =>
      working_pledges (.ofExcept _) s

end Pipeline

section Recoveries

variable {α : Type} {staleAfter : Nat} {w : String} {r : Errand} {s s' : PathState}

-- A recovery promises nothing but to remove the lock only once it has judged it.
def Judicious (staleAfter : Nat) (w : String) (r : Errand) : Prop :=
  ∀ c s, (c.action = .unlink .lock → Judged staleAfter ⟨w, .main⟩ s) →
    Proper staleAfter ⟨w, .main⟩ r c s

theorem clearing_promises {p : Worker α} (hr : Judicious staleAfter w r)
    (hp : p.Calls (Clearing ·)) (hs : Judged staleAfter ⟨w, .main⟩ s) :
    Promises staleAfter ⟨w, .main⟩ r p (fun _ s => Judged staleAfter ⟨w, .main⟩ s) s := by
  refine promises_of_calls hp hs (fun _ _ h hr => h.spared hr) (fun c s _ h => hr c s fun _ => h)
    fun c i s hc h => h.keeps i (fun ha => ?_) (fun ha => ?_)
  all_goals simp [Clearing, Recovering, ha] at hc

theorem asking_promises {p : Worker α} (hr : Judicious staleAfter w r)
    (hp : p.Calls fun c => c.action ≠ .unlink .lock) (s : PathState) :
    Promises staleAfter ⟨w, .main⟩ r p (fun _ _ => True) s :=
  promises_of_calls (P := fun _ => True) hp trivial (fun _ _ _ _ => trivial)
    (fun c s hc _ => hr c s fun ha => absurd ha hc) fun _ _ _ _ _ => trivial

theorem lockIsActive_promises (hr : Judicious staleAfter w r) (s : PathState) :
    Promises staleAfter ⟨w, .main⟩ r (lockIsActive w staleAfter)
      (fun o s => o = .ok false → Judged staleAfter ⟨w, .main⟩ s) s := by
  refine promise_wp (fun _ => True) trivial (fun _ _ _ _ => trivial) fun i s _ => ⟨?_, ?_⟩
  · exact hr _ _ fun h => (by cases h)
  have hnone : Judged staleAfter ⟨w, .main⟩ (s.setSaw ⟨w, .main⟩ none) := by
    intro l hl
    simp [PathState.setSaw] at hl
  simp only [exec]
  split
  · exact fun _ => hnone
  · exact fun _ => hnone
  next l _ _ =>
  have hsaw : (s.setSaw ⟨w, .main⟩ (some l)).sawLock ⟨w, .main⟩ = some l := by
    simp [PathState.setSaw]
  have hjudged : ∀ s', s'.sawLock ⟨w, .main⟩ = some l → Revocable staleAfter w s'.clock l →
      Judged staleAfter ⟨w, .main⟩ s' := by
    intro s' hs' hrevocable l' hl'
    rw [hs'] at hl'
    cases hl'
    exact hrevocable
  rcases htext : l.text with _ | _ | _ | ⟨job, lockWorker, _ | ts⟩
  · exact fun _ => hjudged _ hsaw (by simp [Revocable, htext])
  · exact fun _ => hjudged _ hsaw (by simp [Revocable, htext])
  · exact fun h => (by cases h)
  · exact fun _ => hjudged _ hsaw (by simp [Revocable, htext])
  · change Promises staleAfter ⟨w, .main⟩ r (if lockWorker = some w then _ else _) _ _
    split
    · next hown => exact fun _ => hjudged _ hsaw (by simp [Revocable, htext, hown])
    · refine promise_wp (fun s => s.sawLock ⟨w, .main⟩ = some l) hsaw
        (fun _ _ h hr => hr.saw.trans h) fun i s' hs' => ⟨?_, fun ho => ?_⟩
      · exact hr _ _ fun h => (by cases h)
      · have hstale : decide (s'.clock < ts + staleAfter) = false := Except.ok.inj ho
        refine hjudged _ hs' ?_
        simp only [Revocable, htext]
        exact .inr (Nat.not_lt.mp (of_decide_eq_false hstale))

theorem lockedElsewhere_promises {site : Site} (hr : Judicious staleAfter w r)
    (hsite : site ≠ .rollbackSwap) (s : PathState) :
    Promises staleAfter ⟨w, .main⟩ r (lockedElsewhere site w staleAfter)
      (fun o s => o = .ok false → Judged staleAfter ⟨w, .main⟩ s) s := by
  refine promise_wp (fun _ => True) trivial (fun _ _ _ _ => trivial) fun i s _ => ⟨?_, ?_⟩
  · exact hr _ _ fun h => (by cases h)
  rcases exists_cases ⟨w, .main⟩ site i s .lock hsite with he | he <;> rw [he]
  · exact fun h => (by cases h)
  · cases hlock : s.lock with
    | none =>
      have habsent : s.present .lock = false := by simp [PathState.present, hlock]
      rw [habsent]
      intro _ l hl
      simp [PathState.sawAbsence, hlock, PathState.setSaw] at hl
    | some l =>
      have hpresent : s.present .lock = true := by simp [PathState.present, hlock]
      rw [hpresent]
      exact lockIsActive_promises hr _

theorem recoverSourcePath_promises (hr : Judicious staleAfter w r) (s : PathState) :
    Promises staleAfter ⟨w, .main⟩ r (recoverSourcePath w staleAfter) (fun _ _ => True) s := by
  rw [recoverSourcePath_eq]
  refine Program.wp_seq (lockedElsewhere_promises hr (by decide) s) ?_ fun _ _ _ => trivial
  rintro (_ | _) s hjudged
  · exact Program.wp_mono (clearing_promises hr healSource_clearing (hjudged rfl))
      fun _ _ _ => trivial
  · trivial

theorem recoverBackup_promises (hr : Judicious staleAfter w r) (stats : RecoveryStats)
    (s : PathState) :
    Promises staleAfter ⟨w, .main⟩ r (recoverBackup w staleAfter stats) (fun _ _ => True) s := by
  rw [recoverBackup_eq]
  refine Program.wp_seq (lockedElsewhere_promises hr (by decide) s) ?_ fun _ _ _ => trivial
  rintro (_ | _) s hjudged
  · exact Program.wp_mono (clearing_promises hr (healBackup_clearing stats) (hjudged rfl))
      fun _ _ _ => trivial
  · trivial

theorem removeStaleLock_promises (hr : Judicious staleAfter w r) (stats : RecoveryStats)
    (s : PathState) :
    Promises staleAfter ⟨w, .main⟩ r (removeStaleLock w staleAfter stats) (fun _ _ => True) s := by
  refine Program.wp_seq (lockIsActive_promises hr s) ?_ fun _ _ _ => trivial
  rintro (_ | _) s hjudged
  · refine promise_wp (Judged staleAfter ⟨w, .main⟩) (hjudged rfl) (fun _ _ h hr => h.spared hr)
      fun i s h => ⟨hr _ _ fun _ => h, ?_⟩
    rw [Program.ret_bind]
    split
    · trivial
    · refine Program.wp_seq (asking_promises hr (deleteLeftover_calls (by simp) (by simp)) _)
        (fun _ _ _ => trivial) fun _ _ _ => trivial
  · trivial

theorem listing_promises {site : Site} {f : File} {k : Worker RecoveryStats}
    {stats : RecoveryStats} (hr : Judicious staleAfter w r)
    (hk : ∀ s, Promises staleAfter ⟨w, .main⟩ r k (fun _ _ => True) s) (s : PathState) :
    Promises staleAfter ⟨w, .main⟩ r
      ((orRaise (act site (.glob f))).bind fun found =>
        if found then (orRaise (act site (.isFile f))).bind fun file =>
          if file then k else .ret stats
        else .ret stats) (fun _ _ => True) s := by
  have hask : ∀ action, action ≠ .unlink .lock →
      (act site action).Calls fun c => c.action ≠ .unlink .lock := fun _ h => act_calls h
  refine Program.wp_seq (asking_promises hr (orRaise_calls (hask _ (by simp))) s) ?_
    fun _ _ _ => trivial
  rintro (_ | _) s -
  · trivial
  refine Program.wp_seq (asking_promises hr (orRaise_calls (hask _ (by simp))) s) ?_
    fun _ _ _ => trivial
  rintro (_ | _) s -
  · trivial
  · exact hk s

theorem recoverOrphanedBackups_promises (hr : Judicious staleAfter w r) (s : PathState) :
    Promises staleAfter ⟨w, .main⟩ r (recoverOrphanedBackups w staleAfter)
      (fun _ _ => True) s := by
  refine Program.wp_seq (asking_promises hr (orRaise_calls (act_calls (by simp))) s) ?_
    fun _ _ _ => trivial
  rintro (_ | _) s -
  · trivial
  refine Program.wp_seq (R := fun _ _ => True)
    (listing_promises hr (recoverBackup_promises hr {}) s) (fun stats s _ => ?_) fun _ _ _ => trivial
  exact listing_promises hr (removeStaleLock_promises hr stats) s

end Recoveries

section Beat

variable {staleAfter : Nat} {w : String} {own : SourceOwnership} {s s' : PathState}

def InTouch (w : String) (s : PathState) : Prop := (s.own w).touching = true

theorem InTouch.keeps {c : Call} (i : Input) (h : InTouch w s) (he : c.action ≠ .endTouch)
    (ho : c.action ≠ .openTransaction) : InTouch w (exec ⟨w, .heartbeat⟩ c i s).1 := by
  unfold InTouch
  rw [exec_keeps_touching ⟨w, .heartbeat⟩ c i s he ho]
  exact h

theorem touchLock_promises (jobId : String) (hs : InTouch w s ∧ Ours ⟨w, .heartbeat⟩ s) :
    Promises staleAfter ⟨w, .heartbeat⟩ (.beat own) (touchLock jobId w)
      (fun _ s => InTouch w s ∧ Ours ⟨w, .heartbeat⟩ s) s := by
  refine promises_of_calls (touchLock_refreshing jobId w) hs
    (fun _ _ h hr => ⟨hr.touching rfl h.1, h.2.spared hr⟩) (fun c s _ h => ⟨h.1, fun _ => h.2⟩)
    fun c i s hc h => ⟨h.1.keeps i (fun ha => ?_) (fun ha => ?_),
      h.2.keeps i (fun ha => ?_) (fun ha => ?_)⟩
  all_goals simp [Refreshing, Touching, ha] at hc

theorem beat_promises (hw : own.workerId = w) (hs : InTouch w s) :
    Promises staleAfter ⟨w, .heartbeat⟩ (.beat own) (beat own) (fun _ _ => True) s := by
  subst hw
  have hrely : ∀ s s', InTouch own.workerId s → Spared ⟨own.workerId, .heartbeat⟩ s s' →
      InTouch own.workerId s' := fun _ _ h hr => hr.touching rfl h
  have hrefresh : Promises staleAfter ⟨own.workerId, .heartbeat⟩ (.beat own) (refreshLock own)
      (fun _ s => InTouch own.workerId s) s := by
    refine Program.wp_seq (lockMatches_promises own.jobId hs hrely
      (fun s h => ⟨h, fun ha => (by cases ha)⟩) fun _ _ h => h) ?_ fun _ _ h => h.1
    rintro (_ | _) s ⟨htouch, hours⟩
    · exact htouch
    · refine (Program.wp_rescue ..).mpr (Program.wp_mono
        (touchLock_promises own.jobId ⟨htouch, hours rfl⟩) fun o s h => ?_)
      rcases o with e | _
      · cases e <;> exact h.1
      · exact h.1
  refine Program.wp_seq hrefresh (fun _ s h => ?_) fun _ _ _ => trivial
  exact promise_wp (InTouch own.workerId) h hrely fun i s h => ⟨⟨h, fun ha => (by cases ha)⟩, trivial⟩

end Beat

section Runs

variable {staleAfter : Nat}

theorem depart_resting (w : String) (s : PathState) : Resting w (depart w s) := by
  refine ⟨⟨?_, ?_⟩, ?_⟩ <;> simp [depart, PathState.setOwn, PathState.setHold]

theorem body_promises {a : Actor} {r : Errand} {s s' : PathState} (h : start a r s = some s') :
    Promises staleAfter a r (body staleAfter a r) (fun _ _ => True) s' := by
  obtain ⟨w, role⟩ := a
  cases r with
  | beat own =>
    simp only [start] at h
    split at h
    · next hstart =>
      obtain ⟨rfl, hw, -⟩ := hstart
      cases h
      exact beat_promises hw (by simp [InTouch, PathState.setOwn])
    · cases h
  | pipeline job =>
    simp only [start] at h
    split at h
    · next hstart =>
      obtain ⟨rfl, hw, -⟩ := hstart
      cases h
      exact Program.wp_seq (runPipeline_pledges hw (depart_resting w s)) (fun _ _ _ => trivial)
        fun _ _ _ => trivial
    · cases h
  | claim =>
    simp only [start] at h
    split at h
    · next hstart =>
      obtain ⟨rfl, -⟩ := hstart
      have hr : Judicious staleAfter w .claim := fun _ _ h => h
      exact Program.wp_seq (recoverSourcePath_promises hr s') (fun _ _ _ => trivial)
        fun _ _ _ => trivial
    · cases h
  | scan =>
    simp only [start] at h
    split at h
    · next hstart =>
      obtain ⟨rfl, -⟩ := hstart
      have hr : Judicious staleAfter w .scan := fun _ _ h => h
      exact Program.wp_seq (recoverOrphanedBackups_promises hr s') (fun _ _ _ => trivial) fun _ _ _ => trivial
    · cases h

theorem owners_compatible (staleAfter : Nat) :
    Compatible (owners staleAfter) (holding staleAfter) where
  refl _ _ s := .refl _ s
  trans _ _ _ _ _ h h' := h.trans h'
  body a r _ _ h := Program.wp_weaken (body_makes staleAfter a r) (body_promises h)
    (fun _ _ h => h) (fun _ _ _ h => h) fun _ _ _ _ hc h => ⟨hc, h⟩
  call _ _ _ _ _ i _ hab _ _ h := proper_spares i hab h.1 h.2
  start _ _ _ _ _ _ hab h := start_spares hab h
  disturb _ _ k _ hk := disturb_spares k hk

-- Every call of every run keeps its thread's promise.
theorem owners_proper {s : PathState} {es : List OwnerCall} {d : OwnerConfig}
    (h : OwnerRun staleAfter s es d) :
    ∀ e ∈ es, e.request.Makes e.op ∧ Proper staleAfter e.thread e.request e.op e.pre :=
  (h.guarantees (owners_compatible staleAfter) fun _ _ => trivial).1

end Runs

end TranscodeForge.Exclusion
