import TranscodeForge.Worker.CallClasses

namespace TranscodeForge.Outcome

open Interaction SourcePath Streams Filesystem Ownership Pipeline Phases CallClasses

variable {α β : Type} {w : String} {o b : Option Bytes} {s : PathState} {P : PathState → Prop}

theorem steady_wp {p : Worker α} (hp : p.Calls (Steady ·)) (hs : P s)
    (hsafe : ∀ s, P s → SwapSafe o b s) (hloose : ∀ s s', P s → Loose w s s' → P s') :
    Runs w o b p (fun _ s => P s) s := by
  refine Program.wp_of_calls hp hs (fun s s' h hr => hloose s s' h hr.toLoose)
    fun c i s hq h _ _ => ?_
  have h' : P (handler.next ⟨w, .main⟩ c i s) :=
    hloose s _ h (exec_steady ⟨w, .main⟩ c s i hq)
  exact ⟨hsafe _ h', h'⟩

-- Before the transaction is confirmed, a cancellation point only chooses how to go on.
theorem checkpoint_wp (hs : P s) (hsafe : ∀ s, P s → SwapSafe o b s)
    (hown : ∀ s, P s → (s.own w).confirmed = false)
    (hstable : ∀ s s', P s → Undisturbed w s s' → P s') :
    Runs w o b checkpoint (fun r s => P s ∧ (r = .ok () ∨ r = .error .cancelled)) s := by
  refine act_wp P hs hstable fun i s h => ?_
  have hexec : exec ⟨w, .main⟩ ⟨.transaction, .checkCancelled⟩ i s = (s, i.cancelled) := by
    simp [exec, hown s h]
  rw [hexec]
  refine ⟨hsafe s h, ?_⟩
  cases i.cancelled
  · exact ⟨h, .inl rfl⟩
  · exact ⟨h, .inr rfl⟩

theorem settled_wp {p : Worker α} {R : Except Failure α → PathState → Prop}
    (hp : Runs w o b p R s) (hsafe : ∀ a s, R (.ok a) s → SwapSafe o b s)
    (hown : ∀ a s, R (.ok a) s → (s.own w).confirmed = false)
    (hstable : ∀ a s s', R (.ok a) s → Undisturbed w s s' → R (.ok a) s') :
    Runs w o b (settled p)
      (fun r s => R r s ∨ (r = .error .cancelled ∧ ∃ a, R (.ok a) s)) s := by
  refine Program.wp_seq hp (fun a s h => ?_) fun e s h => .inl h
  refine Program.wp_seq (checkpoint_wp h (hsafe a) (hown a) (hstable a)) (fun _ s h => .inl h.1)
    fun e s h => ?_
  rcases h with ⟨h, hr | hr⟩
  · cases hr
  · exact .inr ⟨congrArg _ (Except.error.inj hr), a, h⟩

section Enter

variable (own : SourceOwnership)

theorem entering_wp {p : Worker α} (hp : p.Calls (Entering ·)) (hs : Untouched w o b s) :
    Runs w o b p (fun _ s => Untouched w o b s) s := by
  refine Program.wp_of_calls hp hs (fun s s' h hr => h.loose hr.toLoose)
    fun c i s hq h _ _ => ?_
  have h' : Untouched w o b (handler.next ⟨w, .main⟩ c i s) :=
    h.loose (exec_entering ⟨w, .main⟩ c i hq h.mutating h.confirmed)
  exact ⟨h'.safe, h'⟩

-- An acquisition that returns has left a lock behind.
theorem acquireLock_wp (jobId workerId : String) (hs : Untouched w o b s) :
    Runs w o b (acquireLock jobId workerId)
      (fun r s => Untouched w o b s ∧ (r = .ok () → s.lock.isSome)) s := by
  have hstable : ∀ s s', Untouched w o b s → Undisturbed w s s' → Untouched w o b s' :=
    fun s s' h hr => h.loose hr.toLoose
  refine act_wp (Untouched w o b) hs hstable fun i s h => ⟨h.safe, ?_⟩
  refine act_wp (Untouched w o b) h hstable fun i s h => ?_
  have hopen := h.loose
    (exec_entering ⟨w, .main⟩ ⟨.acquireLock, .openExclusive⟩ i rfl h.mutating h.confirmed)
  refine ⟨hopen.safe, ?_⟩
  rcases openExclusive_cases ⟨w, .main⟩ .acquireLock i s with he | ⟨-, he⟩ | ⟨-, he⟩ <;>
    rw [he] at hopen ⊢
  · exact ⟨hopen, nofun⟩
  · change Runs w o b (lockContent.bind fun failure => .raise failure) _ _
    exact Program.wp_seq (entering_wp lockContent_entering hopen) (fun _ _ h => ⟨h, nofun⟩)
      fun _ _ h => ⟨h, nofun⟩
  · have hlocked : Untouched w o b (s.createLock ⟨w, .main⟩) ∧
        (s.createLock ⟨w, .main⟩).lock.isSome := ⟨hopen, rfl⟩
    refine call_wp (fun s => Untouched w o b s ∧ s.lock.isSome) hlocked
      (fun s s' h hr => ⟨h.1.loose hr.toLoose, hr.locked h.2⟩) fun i s h => ?_
    obtain ⟨s', hl, ⟨e, he⟩ | ⟨hlock, he⟩⟩ := writeLock_cases ⟨w, .main⟩ .acquireLock i s _ <;>
      rw [he]
    · exact ⟨(h.1.loose hl).safe, h.1.loose hl, nofun⟩
    · exact ⟨(h.1.loose hl).safe, h.1.loose hl, fun _ => hlock h.2⟩

theorem abandonAcquire_wp (e : Failure) (hs : Untouched w o b s) :
    Runs w o b (abandonAcquire own e)
      (fun r s => Untouched w o b s ∧ ∃ e', r = .error e') s := by
  cases e with
  | cancelled =>
    have hrelease := settled_wp (entering_wp (releaseLock_entering own) hs)
      (fun _ _ h => h.safe) (fun _ _ h => h.confirmed) fun _ _ _ h hc => h.loose hc.toLoose
    refine Program.wp_seq hrelease (fun _ s h => ?_) fun e s h => ?_
    · exact ⟨h.elim id fun h => h.2.elim fun _ h => h, _, rfl⟩
    · exact ⟨h.elim id fun h => h.2.elim fun _ h => h, _, rfl⟩
  | _ => exact ⟨hs, _, rfl⟩

theorem acquire_wp (hs : Untouched w o b s) :
    Runs w o b ((settled (acquireLock own.jobId own.workerId)).rescue (abandonAcquire own))
      (fun r s => Untouched w o b s ∧ (r = .ok () → s.lock.isSome)) s := by
  have hacquire := settled_wp (acquireLock_wp own.jobId own.workerId hs)
    (fun _ _ h => h.1.safe) (fun _ _ h => h.1.confirmed)
    fun a s s' h hc => ⟨h.1.loose hc.toLoose, fun _ => hc.locked (h.2 rfl)⟩
  refine (Program.wp_rescue _ _ _ _).mpr (Program.wp_mono hacquire fun r s h => ?_)
  cases r with
  | ok a => exact h.elim (fun h => ⟨h.1, fun _ => h.2 rfl⟩) fun h => nomatch h.1
  | error e =>
    have habandon : Untouched w o b s := h.elim (fun h => h.1) fun h => h.2.elim fun _ h => h.1
    refine Program.wp_mono (abandonAcquire_wp own e habandon) fun r s h => ⟨h.1, ?_⟩
    obtain ⟨e', rfl⟩ := h.2
    exact nofun

theorem enter_wp (hs : Untouched w o b s) :
    Runs w o b (enter own) (fun r s => Untouched w o b s ∧ (r = .ok () → s.lock.isSome)) s := by
  refine act_wp (Untouched w o b) hs (fun s s' h hr => h.loose hr.toLoose) fun i s h => ?_
  have hopen := h.loose
    (exec_entering ⟨w, .main⟩ ⟨.transaction, .openTransaction⟩ i rfl h.mutating h.confirmed)
  refine ⟨hopen.safe, ?_⟩
  refine Program.wp_seq (acquire_wp own hopen) (fun _ s h => ?_) fun e s h => ⟨h.1, nofun⟩
  refine call_wp (fun s => Untouched w o b s ∧ s.lock.isSome) ⟨h.1, h.2 rfl⟩
    (fun s s' h hr => ⟨h.1.loose hr.toLoose, hr.locked h.2⟩) fun i s h => ?_
  have hstart := exec_calm ⟨w, .main⟩ ⟨.transaction, .startHeartbeat⟩ i rfl h.1.confirmed
  exact ⟨(h.1.loose hstart.toLoose).safe, h.1.loose hstart.toLoose, fun _ => hstart.locked h.2⟩

end Enter

section Swap

def Aborted (w : String) (o b : Option Bytes) (s : PathState) : Prop :=
  Untouched w o b s ∨ Attempted w o b s ∨ ∃ source, Displaced w o b source s

def Staged (w : String) (o b : Option Bytes) (content : Bytes) (s : PathState) : Prop :=
  Untouched w o b s ∧ s.lock.isSome ∧ s.tmp = some content

def Armed (w : String) (o b : Option Bytes) (content : Bytes) (s : PathState) : Prop :=
  Attempted w o b s ∧ s.lock.isSome ∧ s.tmp = some content

variable {content : Bytes}

theorem Aborted.safe (h : Aborted w o b s) : SwapSafe o b s := by
  rcases h with h | h | ⟨source, h⟩
  · exact h.safe
  · exact h.safe
  · exact h.safe

theorem Aborted.calm {s' : PathState} (h : Aborted w o b s) (hc : Calm w s s') :
    Aborted w o b s' := by
  rcases h with h | h | ⟨source, h⟩
  · exact .inl (h.loose hc.toLoose)
  · exact .inr (.inl (h.loose hc.toLoose))
  · exact .inr (.inr ⟨source, h.calm hc⟩)

theorem Aborted.unconfirmed (h : Aborted w o b s) : (s.own w).confirmed = false := by
  rcases h with h | h | ⟨source, h⟩
  · exact h.confirmed
  · exact h.2.confirmed
  · exact h.2.2.2.2.confirmed

theorem Staged.undisturbed {s' : PathState} (h : Staged w o b content s)
    (hr : Undisturbed w s s') : Staged w o b content s' :=
  ⟨h.1.loose hr.toLoose, hr.locked h.2.1, hr.tmp.trans h.2.2⟩

theorem Armed.undisturbed {s' : PathState} (h : Armed w o b content s)
    (hr : Undisturbed w s s') : Armed w o b content s' :=
  ⟨h.1.loose hr.toLoose, hr.locked h.2.1, hr.tmp.trans h.2.2⟩

theorem Staged.mutating (h : Staged w o b content s) (hb : s.bak = none) :
    Armed w o b content (s.setOwn w { s.own w with mutating := true }) := by
  refine ⟨⟨h.1.bak.symm.trans hb, h.1.source, hb, ?_, ?_, h.1.notes⟩, h.2.1, h.2.2⟩
  · simp [PathState.setOwn]
  · simpa [PathState.setOwn] using h.1.confirmed

theorem Armed.displaced (h : Armed w o b content s) (hs : (s.mediaAt .source).isSome) :
    Displaced w o b none (moveMedia s .source .bak) ∧
      (moveMedia s .source .bak).tmp = some content := by
  have hsource : s.source = o := h.1.2.source
  have ho : o.isSome := hsource ▸ hs
  refine ⟨⟨h.1.1, ho, fun hn => by simp [← hn] at ho, h.2.1, ?_⟩, h.2.2⟩
  exact ⟨rfl, hsource, h.1.2.mutating, h.1.2.confirmed, h.1.2.notes⟩

theorem displaced_swapped (h : Displaced w o b none s) (hne : some content ≠ o)
    (ht : s.tmp = some content) : Displaced w o b (some content) (moveMedia s .tmp .source) :=
  ⟨h.1, h.2.1, hne, h.2.2.2.1, ht, h.2.2.2.2.bak, h.2.2.2.2.mutating, h.2.2.2.2.confirmed,
    h.2.2.2.2.notes⟩

theorem displaced_restored {source : Option Bytes} (h : Displaced w o b source s) :
    Attempted w o b (moveMedia s .bak .source) :=
  ⟨h.1, h.2.2.2.2.bak, rfl, h.2.2.2.2.mutating, h.2.2.2.2.confirmed, h.2.2.2.2.notes⟩

theorem undoSwap_wp {e : Failure} (hs : Displaced w o b none s) :
    Runs w o b (do
        let _ ← act .atomicSwap (.rename .bak .source)
        Program.raise e : Worker Unit)
      (fun r s => Aborted w o b s ∧ (r = .ok () → Displaced w o b (some content) s)) s := by
  refine act_wp (Displaced w o b none) hs (fun _ _ h hr => h.calm hr.toCalm) fun i s h => ?_
  rcases rename_cases ⟨w, .main⟩ .atomicSwap i s .bak .source with ⟨e, he⟩ | ⟨-, he⟩ <;> rw [he]
  · exact ⟨h.safe, .inr (.inr ⟨none, h⟩), nofun⟩
  · exact ⟨(displaced_restored h).safe, .inr (.inl (displaced_restored h)), nofun⟩

theorem Staged.sawAbsence (a : Actor) (f : File) (h : Staged w o b content s) :
    Staged w o b content (s.sawAbsence a f) :=
  ⟨h.1.loose (Calm.sawAbsence ..).toLoose, by simpa using h.2.1, by simpa using h.2.2⟩

theorem renameAside_wp (hne : some content ≠ o) (hs : Armed w o b content s) :
    Runs w o b renameAside
      (fun r s => Aborted w o b s ∧ (r = .ok () → Displaced w o b (some content) s)) s := by
  refine act_wp (Armed w o b content) hs (fun _ _ h hr => h.undisturbed hr) fun i s h => ?_
  rcases rename_cases ⟨w, .main⟩ .atomicSwap i s .source .bak with ⟨e, he⟩ | ⟨hsome, he⟩ <;>
    rw [he]
  · exact ⟨h.1.safe, .inr (.inl h.1), nofun⟩
  · obtain ⟨hd, ht⟩ := h.displaced hsome
    refine ⟨hd.safe, ?_⟩
    refine act_wp (fun s => Displaced w o b none s ∧ s.tmp = some content) ⟨hd, ht⟩
      (fun _ _ h hr => ⟨h.1.calm hr.toCalm, hr.tmp.trans h.2⟩) fun i s h => ?_
    rcases rename_cases ⟨w, .main⟩ .atomicSwap i s .tmp .source with ⟨e, he⟩ | ⟨-, he⟩ <;> rw [he]
    · exact ⟨h.1.safe, undoSwap_wp h.1⟩
    · have hswapped := displaced_swapped h.1 hne h.2
      exact ⟨hswapped.safe, .inr (.inr ⟨_, hswapped⟩), fun _ => hswapped⟩

theorem atomicSwap_wp (bak : String) (hne : some content ≠ o) (hs : Staged w o b content s) :
    Runs w o b (atomicSwap bak)
      (fun r s => Aborted w o b s ∧ (r = .ok () → Displaced w o b (some content) s)) s := by
  refine exists_wp (Staged w o b content) hs (by decide) (fun _ h => h.1.safe)
    (fun _ _ h hr => h.undisturbed hr) (fun _ h => h.sawAbsence ..)
    (fun _ h => ⟨.inl h.1, nofun⟩) fun s h => ?_
  have hsaw := h.sawAbsence ⟨w, .main⟩ bakFile
  cases hp : s.present bakFile with
  | true => exact ⟨.inl hsaw.1, nofun⟩
  | false =>
    have hbak : s.bak = none := by simpa [PathState.present, PathState.mediaAt] using hp
    have hb : b = none := h.1.bak.symm.trans hbak
    refine act_wp (Staged w o b content) hsaw (fun _ _ h hr => h.undisturbed hr) fun i s h => ?_
    have harmed := h.mutating (h.1.bak.trans hb)
    exact ⟨harmed.1.safe, renameAside_wp hne harmed⟩

theorem swap_wp (own : SourceOwnership) (hne : some content ≠ o) (hs : Staged w o b content s) :
    Runs w o b (swap own)
      (fun r s => Aborted w o b s ∧ (r = .ok () → Displaced w o b (some content) s)) s := by
  refine Program.wp_mono (settled_wp (atomicSwap_wp own.bakPath hne hs) (fun _ _ h => h.1.safe)
    (fun _ _ h => h.1.unconfirmed)
    fun _ _ _ h hr => ⟨h.1.calm hr.toCalm, fun _ => (h.2 rfl).calm hr.toCalm⟩) fun r s h => ?_
  rcases h with h | ⟨rfl, a, h⟩
  · exact h
  · exact ⟨h.1, nofun⟩

end Swap

section Confirm

variable {content : Bytes}

theorem agreed_of_all {l : List (Option Bytes)} (hne : l ≠ []) (h : ∀ x ∈ l, x = some content) :
    agreed l = some content := by
  cases l with
  | nil => exact absurd rfl hne
  | cons x rest =>
    obtain rfl := h x (by simp)
    have hrest : rest.all (· == some content) = true := by
      simpa using fun x hx => h x (List.mem_cons_of_mem _ hx)
    simp [agreed, hrest]

-- A check reads what is at the source path and nothing else.
theorem exec_examined (a : Actor) (c : Call) (s : PathState) (i : Input) (hq : Quiet c) :
    (exec a c i s).1.examined a.worker = s.examined a.worker ∨
      (exec a c i s).1.examined a.worker = s.source :: s.examined a.worker := by
  have hexamine : ∀ m, (s.examine a.worker m).examined a.worker = s.examined a.worker ∨
      (s.examine a.worker m).examined a.worker = s.source :: s.examined a.worker := by
    intro m
    cases m <;> simp [PathState.examine, PathState.setExamined]
  obtain ⟨site, action⟩ := c
  cases action with
  | «exists» f =>
    left
    simp only [exec]
    split
    · split <;> rfl
    · simp
  | stat m =>
    simp only [exec]
    split
    · left
      split <;> rfl
    · exact hexamine m
  | ffprobe m => exact hexamine m
  | decodeSample m offset sample => exact hexamine m
  | unlink f =>
    left
    simp only [exec]
    split
    · rfl
    · split
      · split <;> rcases f with (_ | _ | _) | _ | _ <;> rfl
      · rfl
  | writeNew text =>
    left
    simp only [exec]
    split
    · split <;> rfl
    · rfl
  | replaceLock =>
    left
    simp only [exec]
    split
    · rfl
    · rfl
    · simp
  | readLock =>
    left
    simp only [exec]
    split <;> rfl
  | checkCancelled =>
    left
    simp only [exec]
    split <;> rfl
  | runEncode request =>
    left
    simp only [exec]
    split <;> rfl
  | _ => first
    | exact .inl rfl
    | (left; simp only [exec, query]; split <;> rfl)
    | simp [Quiet, Still] at hq

def Reading (w : String) (o b : Option Bytes) (content : Bytes) (s : PathState) : Prop :=
  Displaced w o b (some content) s ∧ ∀ x ∈ s.examined w, x = some content

theorem Reading.undisturbed {s' : PathState} (h : Reading w o b content s)
    (hr : Undisturbed w s s') : Reading w o b content s' :=
  ⟨h.1.calm hr.toCalm, hr.examined ▸ h.2⟩

theorem Reading.check (h : Reading w o b content s) (c : Call) (i : Input) (hq : Quiet c) :
    Reading w o b content (exec ⟨w, .main⟩ c i s).1 := by
  have hcalm := exec_calm ⟨w, .main⟩ c i hq h.1.2.2.2.2.confirmed
  refine ⟨h.1.calm hcalm, ?_⟩
  rcases exec_examined ⟨w, .main⟩ c s i hq with he | he
  · rw [he]
    exact h.2
  · rw [he, h.1.2.2.2.2.source]
    simpa using h.2

theorem reading_wp {p : Worker α} (hp : p.Calls (Quiet ·)) (hs : Reading w o b content s) :
    Runs w o b p (fun _ s => Reading w o b content s) s := by
  refine Program.wp_of_calls hp hs (fun _ _ h hr => h.undisturbed hr) fun c i s hq h _ _ => ?_
  exact ⟨(h.check c i hq).1.safe, h.check c i hq⟩

def HasRead (w : String) (o b : Option Bytes) (content : Bytes) (s : PathState) : Prop :=
  Reading w o b content s ∧ s.examined w ≠ []

theorem HasRead.undisturbed {s' : PathState} (h : HasRead w o b content s)
    (hr : Undisturbed w s s') : HasRead w o b content s' :=
  ⟨h.1.undisturbed hr, hr.examined ▸ h.2⟩

theorem hasRead_wp {p : Worker α} (hp : p.Calls (Quiet ·)) (hs : HasRead w o b content s) :
    Runs w o b p (fun _ s => HasRead w o b content s) s := by
  refine Program.wp_of_calls hp hs (fun _ _ h hr => h.undisturbed hr) fun c i s hq h _ _ => ?_
  refine ⟨(h.1.check c i hq).1.safe, h.1.check c i hq, ?_⟩
  rcases exec_examined ⟨w, .main⟩ c s i hq with he | he
  · exact he ▸ h.2
  · exact he ▸ List.cons_ne_nil _ _

theorem readSize_wp (hs : Reading w o b content s) :
    Runs w o b (awaiting (orRaise (act .verifyOutput (.stat .source))))
      (fun r s => Reading w o b content s ∧ ∀ stat, r = .ok stat → HasRead w o b content s) s := by
  refine call_wp (Reading w o b content) hs (fun _ _ h hr => h.undisturbed hr) fun i s h => ?_
  have hstat := h.check ⟨.verifyOutput, .stat .source⟩ i rfl
  rcases stat_cases ⟨w, .main⟩ .verifyOutput i s .source (by decide) with ⟨e, he⟩ | ⟨_, _, he⟩ <;>
    rw [he] at hstat ⊢
  · exact ⟨hstat.1.safe, hstat, fun _ h => (by cases h)⟩
  · have hread : HasRead w o b content (s.examine w .source) :=
      ⟨hstat, by simp [PathState.examine, PathState.setExamined]⟩
    refine ⟨hstat.1.safe, ?_⟩
    change Runs w o b (checkpoint.bind fun _ => .ret _) _ _
    refine Program.wp_seq (hasRead_wp checkpoint_quiet hread) (fun _ s h => ?_) fun _ s h => ?_
    · exact ⟨h.1, fun _ _ => h⟩
    · exact ⟨h.1, fun _ heq => (by cases heq)⟩

theorem verifySource_wp (job : PipelineJob) (hs : Reading w o b content s) :
    Runs w o b (verifyOutput job .source)
      (fun r s => Reading w o b content s ∧ (r = .ok () → HasRead w o b content s)) s := by
  refine Program.wp_seq (reading_wp (awaiting_quiet (orRaise_quiet (act_quiet rfl))) hs)
    (fun present s h => ?_) fun e s h => ⟨h, nofun⟩
  split
  · refine Program.wp_seq (readSize_wp h) (fun stat s h => ?_) fun e s h => ⟨h.1, nofun⟩
    split
    · exact ⟨h.1, nofun⟩
    · refine Program.wp_mono (hasRead_wp ?_ (h.2 stat rfl)) fun r s h => ⟨h.1, fun _ => h⟩
      exact (awaiting_quiet (act_quiet rfl)).bind fun probed => verifyProbed_quiet ..
  · exact ⟨h, nofun⟩

theorem failConfirm_wp {e : Failure} (hs : P s) :
    Runs w o b (failConfirm e) (fun r s => P s ∧ ∃ e', r = .error e') s := by
  cases e <;> exact ⟨hs, _, rfl⟩

theorem confirmOutput_wp (job : PipelineJob) (hs : Displaced w o b (some content) s) :
    Runs w o b (confirmOutput job)
      (fun r s => Displaced w o b (some content) s ∧ (r = .ok () → content ∈ s.confirmed)) s := by
  refine act_wp (Displaced w o b (some content)) hs (fun _ _ h hr => h.calm hr.toCalm)
    fun i s h => ?_
  have hreset : Reading w o b content (s.setExamined w []) :=
    ⟨h.calm .of_rfl, by simp [PathState.setExamined]⟩
  refine ⟨hreset.1.safe, ?_⟩
  have hverify : Runs w o b ((verifyOutput job .source).rescue failConfirm)
      (fun r s => Displaced w o b (some content) s ∧ (r = .ok () → HasRead w o b content s))
      (s.setExamined w []) := by
    refine (Program.wp_rescue _ _ _ _).mpr (Program.wp_mono (verifySource_wp job hreset) ?_)
    intro r s h
    cases r with
    | ok a => exact ⟨h.1.1, fun _ => h.2 rfl⟩
    | error e =>
      refine Program.wp_mono (failConfirm_wp h.1.1) fun r s h => ⟨h.1, ?_⟩
      obtain ⟨e', rfl⟩ := h.2
      exact nofun
  refine Program.wp_seq hverify (fun _ s h => ?_) fun e s h => ⟨h.1, nofun⟩
  refine call_wp (HasRead w o b content) (h.2 rfl) (fun _ _ h hr => h.undisturbed hr)
    fun i s h => ?_
  have hpass := h.1.1.calm (exec_still ⟨w, .main⟩ ⟨.runPipeline, .passConfirm⟩ s i rfl)
  refine ⟨hpass.safe, hpass, fun _ => ?_⟩
  simp [exec, agreed_of_all h.2 h.1.2]

end Confirm

section Finish

variable {content : Bytes}

-- The swap is confirmed but the transaction does not know it yet; the backup may be gone.
def Confirming (w : String) (o b : Option Bytes) (content : Bytes) (s : PathState) : Prop :=
  b = none ∧ some content ≠ o ∧ content ∈ s.confirmed ∧ (s.bak = none ∨ s.bak = o) ∧
    Phase w (some content) s.bak true false {} s

theorem Confirming.safe (h : Confirming w o b content s) : SwapSafe o b s :=
  .inr (.inr ⟨h.1, h.2.2.2.1, content, h.2.2.1, h.2.2.2.2.source⟩)

theorem Confirming.loose {s' : PathState} (h : Confirming w o b content s) (hl : Loose w s s') :
    Confirming w o b content s' := by
  refine ⟨h.1, h.2.1, hl.confirmed h.2.2.1, ?_, ?_⟩
  · rw [hl.bak]
    exact h.2.2.2.1
  · rw [hl.bak]
    exact h.2.2.2.2.loose hl

theorem Confirming.vacate (h : Confirming w o b content s) :
    Confirming w o b content (s.remove bakFile) :=
  ⟨h.1, h.2.1, h.2.2.1, .inl rfl, h.2.2.2.2.source, rfl, h.2.2.2.2.mutating, h.2.2.2.2.confirmed,
    h.2.2.2.2.notes⟩

theorem Confirming.committed (h : Confirming w o b content s) :
    Committed w o b {} (s.setOwn w { s.own w with confirmed := true }) := by
  refine ⟨h.1, content, h.2.2.1, h.2.1, h.2.2.2.1, h.2.2.2.2.source, rfl, ?_, ?_, h.2.2.2.2.notes⟩
  · simpa [PathState.setOwn] using h.2.2.2.2.mutating
  · simp [PathState.setOwn]

theorem displaced_confirming (h : Displaced w o b (some content) s)
    (hc : content ∈ s.confirmed) : Confirming w o b content s := by
  refine ⟨h.1, h.2.2.1, hc, .inr h.2.2.2.2.bak, ?_⟩
  rw [h.2.2.2.2.bak]
  exact h.2.2.2.2

theorem dropBackup_wp (hs : Confirming w o b content s) :
    Runs w o b (safeDelete .finish bakFile)
      (fun r s => Confirming w o b content s ∧ r = .ok ()) s := by
  have hstable : ∀ s s', Confirming w o b content s → Undisturbed w s s' →
      Confirming w o b content s' := fun _ _ h hr => h.loose hr.toLoose
  refine act_wp (Confirming w o b content) hs hstable fun i s h => ?_
  rcases exists_cases ⟨w, .main⟩ .finish i s bakFile (by decide) with he | he <;> rw [he]
  · exact ⟨h.safe, h, rfl⟩
  · have hsaw : Confirming w o b content (s.sawAbsence ⟨w, .main⟩ bakFile) :=
      h.loose (Calm.sawAbsence ..).toLoose
    refine ⟨hsaw.safe, ?_⟩
    cases s.present bakFile with
    | false => exact ⟨hsaw, rfl⟩
    | true =>
      refine act_wp (Confirming w o b content) hsaw hstable fun i s h => ?_
      rcases unlink_cases ⟨w, .main⟩ .finish i s bakFile (by decide) with ⟨e, he⟩ | ⟨-, -, he⟩ <;>
        rw [he]
      · exact ⟨h.safe, h, rfl⟩
      · exact ⟨h.vacate.safe, h.vacate, rfl⟩

theorem finish_wp (srcStat : Stat) (hs : Displaced w o b (some content) s)
    (hc : content ∈ s.confirmed) :
    Runs w o b (finish srcStat) (fun r s => match r with
      | .ok _ => Committed w o b {} s
      | .error _ => Displaced w o b (some content) s) s := by
  have hmetadata : Runs w o b (preserveMetadata srcStat)
      (fun _ s => Displaced w o b (some content) s ∧ content ∈ s.confirmed) s :=
    quiet_wp (preserveMetadata_quiet srcStat) ⟨hs, hc⟩ (fun _ h => h.1.safe)
      (fun _ h => h.1.2.2.2.2.confirmed) fun _ _ h hc => ⟨h.1.calm hc, hc.confirmed h.2⟩
  refine Program.wp_seq hmetadata (fun _ s h => ?_) fun _ _ h => h.1
  refine Program.wp_seq (dropBackup_wp (displaced_confirming h.1 h.2)) (fun _ s h => ?_)
    fun _ _ h => nomatch h.2
  exact call_wp (Confirming w o b content) h.1 (fun _ _ h hr => h.loose hr.toLoose)
    fun i s h => ⟨h.committed.safe, h.committed⟩

theorem committed_late {notes : Notes} (h : Committed w o b notes s) :
    Committed w o b { notes with lateCancel := true }
      (s.setNotes w { s.notes w with lateCancel := true }) := by
  obtain ⟨hb, c, hc, hne, hbak, hphase⟩ := h
  refine ⟨hb, c, hc, hne, hbak, hphase.source, rfl, hphase.mutating, hphase.confirmed, ?_⟩
  simp [PathState.setNotes, hphase.notes]

-- Past the confirmation a delivered cancellation is a late one.
theorem checkpoint_committed_wp {notes : Notes} (hs : Committed w o b notes s) :
    Runs w o b checkpoint (fun r s => match r with
      | .ok _ => Committed w o b notes s
      | .error e => e = .cancelled ∧ Committed w o b { notes with lateCancel := true } s) s := by
  refine act_wp (Committed w o b notes) hs (fun _ _ h hr => h.loose hr.toLoose) fun i s h => ?_
  obtain ⟨_, _, _, _, _, hphase⟩ := id h
  cases hi : i.cancelled with
  | false =>
    have he : exec ⟨w, .main⟩ ⟨.transaction, .checkCancelled⟩ i s = (s, false) := by
      simp [exec, hi]
    rw [he]
    exact ⟨h.safe, h⟩
  | true =>
    have he : exec ⟨w, .main⟩ ⟨.transaction, .checkCancelled⟩ i s =
        (s.setNotes w { s.notes w with lateCancel := true }, true) := by
      simp [exec, hi, hphase.confirmed]
    rw [he]
    exact ⟨(committed_late h).safe, rfl, committed_late h⟩

theorem confirm_wp (srcStat : Stat) (hs : Displaced w o b (some content) s)
    (hc : content ∈ s.confirmed) :
    Runs w o b (confirm srcStat) (fun r s => match r with
      | .ok _ => Committed w o b {} s
      | .error e => Displaced w o b (some content) s ∨
          (e = .cancelled ∧ Committed w o b { lateCancel := true } s)) s := by
  refine Program.wp_seq (finish_wp srcStat hs hc) (fun _ s h => ?_) fun _ _ h => .inl h
  exact Program.wp_seq (checkpoint_committed_wp h) (fun _ _ h => h) fun _ _ h => .inr h

end Finish

section Settle

-- The restore failed, or the rollback could not even look for the backup.
def Stranded (w : String) (o b : Option Bytes) (notes : Notes) (s : PathState) : Prop :=
  b = none ∧ s.lock.isSome ∧ ∃ source, source ≠ o ∧ Phase w source o true false notes s

def Reverted (w : String) (o b : Option Bytes) (s : PathState) : Prop :=
  Untouched w o b s ∨ Attempted w o b s ∨ Stranded w o b { restoreFailed := true } s

theorem Stranded.safe {notes : Notes} (h : Stranded w o b notes s) : SwapSafe o b s := by
  obtain ⟨hb, hlock, _, _, hphase⟩ := h
  exact .inr (.inl ⟨hb, hphase.bak, hlock⟩)

theorem Stranded.calm {notes : Notes} {s' : PathState} (h : Stranded w o b notes s)
    (hc : Calm w s s') : Stranded w o b notes s' := by
  obtain ⟨hb, hlock, source, hne, hphase⟩ := h
  exact ⟨hb, hc.locked hlock, source, hne, hphase.loose hc.toLoose⟩

theorem Reverted.safe (h : Reverted w o b s) : SwapSafe o b s := by
  rcases h with h | h | h <;> exact h.safe

theorem Reverted.calm {s' : PathState} (h : Reverted w o b s) (hc : Calm w s s') :
    Reverted w o b s' := by
  rcases h with h | h | h
  · exact .inl (h.loose hc.toLoose)
  · exact .inr (.inl (h.loose hc.toLoose))
  · exact .inr (.inr (h.calm hc))

theorem Reverted.unconfirmed (h : Reverted w o b s) : (s.own w).confirmed = false := by
  rcases h with h | h | ⟨_, _, _, _, h⟩
  · exact h.confirmed
  · exact h.2.confirmed
  · exact h.confirmed

variable (own : SourceOwnership)

theorem attempted_displaced {source : Option Bytes} {notes : Notes}
    (h : Displaced w o b source s) :
    Stranded w o b notes (s.setNotes w notes) :=
  ⟨h.1, h.2.2.2.1, source, h.2.2.1, h.2.2.2.2.source, h.2.2.2.2.bak, h.2.2.2.2.mutating,
    h.2.2.2.2.confirmed, by simp [PathState.setNotes]⟩

theorem rollback_attempted_wp (hs : Attempted w o b s) :
    Runs w o b rollbackSwap (fun _ s => Attempted w o b s) s := by
  refine call_wp (Attempted w o b) hs (fun _ _ h hr => h.loose hr.toLoose) fun i s h => ?_
  have habsent : s.present bakFile = false := by
    simp [PathState.present, PathState.mediaAt, h.2.bak]
  rcases rollbackExists_cases ⟨w, .main⟩ i s bakFile with ⟨hp, -⟩ | ⟨-, he⟩ | he
  · exact absurd (habsent.symm.trans hp) (by decide)
  · rw [he]
    exact ⟨h.safe, h⟩
  · rw [he, habsent]
    have hsaw : Attempted w o b (s.sawAbsence ⟨w, .main⟩ bakFile) :=
      h.loose (Calm.sawAbsence ..).toLoose
    exact ⟨hsaw.safe, hsaw⟩

theorem rollback_displaced_wp {source : Option Bytes} (hs : Displaced w o b source s) :
    Runs w o b rollbackSwap (fun r s => match r with
      | .ok true => Attempted w o b s
      | .ok false => Stranded w o b { restoreFailed := true } s
      | .error e => e = .os .other ∧ Stranded w o b { blindRollback := true } s) s := by
  have hstable : ∀ s s', Displaced w o b source s → Undisturbed w s s' →
      Displaced w o b source s' := fun _ _ h hr => h.calm hr.toCalm
  refine call_wp (Displaced w o b source) hs hstable fun i s h => ?_
  have hpresent : s.present bakFile = true := by
    simpa [PathState.present, PathState.mediaAt, h.2.2.2.2.bak] using h.2.1
  rcases rollbackExists_cases ⟨w, .main⟩ i s bakFile with ⟨-, he⟩ | ⟨hp, -⟩ | he
  · rw [he, h.2.2.2.2.notes]
    have hblind : Stranded w o b { blindRollback := true } _ := attempted_displaced h
    exact ⟨hblind.safe, rfl, hblind⟩
  · exact absurd (hp.symm.trans hpresent) (by decide)
  · rw [he, hpresent]
    have hsaw : Displaced w o b source (s.sawAbsence ⟨w, .main⟩ bakFile) :=
      h.calm (Calm.sawAbsence ..)
    refine ⟨hsaw.safe, ?_⟩
    refine act_wp (Displaced w o b source) hsaw hstable fun i s h => ?_
    rcases rollbackReplace_cases ⟨w, .main⟩ i s .bak .source with ⟨e, he⟩ | ⟨-, he⟩ <;> rw [he]
    · rw [h.2.2.2.2.notes]
      have hfailed : Stranded w o b { restoreFailed := true } _ := attempted_displaced h
      exact ⟨hfailed.safe, hfailed⟩
    · exact ⟨(displaced_restored h).safe, displaced_restored h⟩

theorem release_attempted_wp (hs : Attempted w o b s) :
    Runs w o b (releaseArtifacts own) (fun r s => Reverted w o b s ∨
      (r = .error (.os .other) ∧ Stranded w o b { blindRollback := true } s)) s :=
  Program.wp_mono (steady_wp (releaseArtifacts_steady own) hs (fun _ h => h.safe)
    fun _ _ h hl => h.loose hl) fun _ _ h => .inl (.inr (.inl h))

theorem settle_aborted_wp (hs : Aborted w o b s) :
    Runs w o b (settle own) (fun r s => Reverted w o b s ∨
      (r = .error (.os .other) ∧ Stranded w o b { blindRollback := true } s)) s := by
  refine act_wp (Aborted w o b) hs (fun _ _ h hr => h.calm hr.toCalm) fun i s h => ?_
  have hstop := h.calm (exec_still ⟨w, .main⟩ ⟨.settle, .stopHeartbeat⟩ s i rfl)
  refine ⟨hstop.safe, ?_⟩
  refine act_wp (Aborted w o b) hstop (fun _ _ h hr => h.calm hr.toCalm) fun i s h => ⟨h.safe, ?_⟩
  change Runs w o b (if (s.own w).mutating && !(s.own w).confirmed then _ else _) _ s
  rcases h with h | h | ⟨source, h⟩
  · rw [h.mutating]
    exact Program.wp_mono (steady_wp (releaseArtifacts_steady own) h (fun _ h => h.safe)
      fun _ _ h hl => h.loose hl) fun _ _ h => .inl (.inl h)
  · rw [h.2.mutating, h.2.confirmed]
    refine Program.wp_seq (rollback_attempted_wp h) (fun restored s h => ?_) fun _ _ h =>
      .inl (.inr (.inl h))
    cases restored with
    | true => exact release_attempted_wp own h
    | false => exact .inl (.inr (.inl h))
  · rw [h.2.2.2.2.mutating, h.2.2.2.2.confirmed]
    refine Program.wp_seq (rollback_displaced_wp h) (fun restored s h => ?_) fun e _ h =>
      .inr ⟨congrArg _ h.1, h.2⟩
    cases restored with
    | true => exact release_attempted_wp own h
    | false => exact .inl (.inr (.inr h))

theorem settle_committed_wp {notes : Notes} (hs : Committed w o b notes s) :
    Runs w o b (settle own) (fun r s => Committed w o b notes s ∧ ∃ a, r = .ok a) s := by
  refine act_wp (Committed w o b notes) hs (fun _ _ h hr => h.loose hr.toLoose) fun i s h => ?_
  have hstop := h.loose (exec_still ⟨w, .main⟩ ⟨.settle, .stopHeartbeat⟩ s i rfl).toLoose
  refine ⟨hstop.safe, ?_⟩
  refine act_wp (Committed w o b notes) hstop (fun _ _ h hr => h.loose hr.toLoose)
    fun i s h => ⟨h.safe, ?_⟩
  change Runs w o b (if (s.own w).mutating && !(s.own w).confirmed then _ else _) _ s
  obtain ⟨_, _, _, _, _, hphase⟩ := id h
  rw [hphase.mutating, hphase.confirmed]
  exact Program.wp_noRaise (releaseArtifacts_noRaise own)
    (steady_wp (releaseArtifacts_steady own) h (fun _ h => h.safe) fun _ _ h hl => h.loose hl)

end Settle

section Transaction

variable {content : Bytes}

theorem exec_viewing (a : Actor) (c : Call) (s : PathState) (i : Input) (hq : Viewing c) :
    (exec a c i s).1.tmp = s.tmp := by
  obtain ⟨site, action⟩ := c
  cases action with
  | «exists» f =>
    simp only [exec]
    split
    · split <;> rfl
    · simp
  | stat m =>
    simp only [exec]
    split
    · split <;> rfl
    · cases m <;> rfl
  | writeNew text =>
    simp only [exec]
    split
    · split <;> rfl
    · rfl
  | replaceLock =>
    simp only [exec]
    split
    · rfl
    · rfl
    · simp
  | readLock =>
    simp only [exec]
    split <;> rfl
  | checkCancelled =>
    simp only [exec]
    split <;> rfl
  | ffprobe m => cases m <;> rfl
  | decodeSample m offset sample => cases m <;> rfl
  | _ => first
    | rfl
    | (simp only [exec, query]; split <;> rfl)
    | simp [Viewing, Quiet, Still] at hq

def Idle (w : String) (o b : Option Bytes) (s : PathState) : Prop :=
  Untouched w o b s ∧ s.lock.isSome

theorem idle_wp {p : Worker α} (hp : p.Calls (Quiet ·)) (hs : Idle w o b s) :
    Runs w o b p (fun _ s => Idle w o b s) s :=
  quiet_wp hp hs (fun _ h => h.1.safe) (fun _ h => h.1.confirmed)
    fun _ _ h hc => ⟨h.1.loose hc.toLoose, hc.locked h.2⟩

theorem staged_wp {p : Worker α} (hp : p.Calls (Viewing ·)) (hs : Staged w o b content s) :
    Runs w o b p (fun _ s => Staged w o b content s) s := by
  refine Program.wp_of_calls hp hs (fun _ _ h hr => h.undisturbed hr) fun c i s hq h _ _ => ?_
  have hcalm := exec_calm ⟨w, .main⟩ c i (Viewing.quiet hq) h.1.confirmed
  have h' : Staged w o b content (exec ⟨w, .main⟩ c i s).1 :=
    ⟨h.1.loose hcalm.toLoose, hcalm.locked h.2.1, (exec_viewing _ c s i hq).trans h.2.2⟩
  exact ⟨h'.1.safe, h'⟩

-- COMPARE admits only an encode that is strictly smaller than the source.
theorem compareSize_wp (sourceSize : Nat) (resolvedCrf : Int) (backend : String)
    (predicted : Option QualitySearchResult) (hs : Idle w o b s) :
    Runs w o b (compareSize sourceSize resolvedCrf backend predicted)
      (fun r s => Idle w o b s ∧ ∀ n, r = .ok n →
        ∃ content, content.length < sourceSize ∧ Staged w o b content s) s := by
  have hstable : ∀ s s', Idle w o b s → Undisturbed w s s' → Idle w o b s' :=
    fun _ _ h hr => ⟨h.1.loose hr.toLoose, hr.locked h.2⟩
  have hmeasure : Runs w o b (orRaise (act .runPipeline (.stat .tmp)))
      (fun r s => Idle w o b s ∧ ∀ stat, r = .ok stat →
        ∃ content, content.length = stat.size ∧ Staged w o b content s) s := by
    refine call_wp (Idle w o b) hs hstable fun i s h => ?_
    rcases stat_cases ⟨w, .main⟩ .runPipeline i s .tmp (by decide) with ⟨e, he⟩ | ⟨c, hc, he⟩ <;>
      rw [he]
    · exact ⟨h.1.safe, h, nofun⟩
    · refine ⟨h.1.safe, h, fun stat hstat => ⟨c, ?_, h.1, h.2, hc⟩⟩
      rw [← Except.ok.inj hstat]
  have hawaited := settled_wp hmeasure (fun _ _ h => h.1.1.safe) (fun _ _ h => h.1.1.confirmed)
    fun _ s s' h hr => ⟨hstable s s' h.1 hr, fun stat hstat => by
      obtain ⟨c, hc, hstaged⟩ := h.2 stat hstat
      exact ⟨c, hc, hstaged.undisturbed hr⟩⟩
  refine Program.wp_seq hawaited (fun stat s h => ?_) fun e s h => ?_
  · rcases h with ⟨h, hsize⟩ | ⟨hr, -⟩
    · obtain ⟨c, hc, hstaged⟩ := hsize stat rfl
      split
      · exact ⟨h, nofun⟩
      · exact ⟨h, fun n _ => ⟨c, by omega, hstaged⟩⟩
    · cases hr
  · rcases h with h | ⟨-, stat, h⟩
    · exact ⟨h.1, nofun⟩
    · exact ⟨h.1, nofun⟩

theorem verifyAndCompare_wp (job : PipelineJob) (backend : String) (height : Option Nat)
    (sourceSize : Nat) (produced : Produced) (hs : Idle w o b s) :
    Runs w o b (verifyAndCompare job backend height sourceSize produced)
      (fun r s => Idle w o b s ∧ ∀ encoded, r = .ok encoded →
        ∃ content, content.length < sourceSize ∧ Staged w o b content s) s := by
  refine Program.wp_seq (idle_wp (phase_quiet _) hs) (fun _ s h => ?_) fun _ _ h => ⟨h, nofun⟩
  refine Program.wp_seq (idle_wp (verifyOutput_quiet job .tmp) h) (fun _ s h => ?_) fun _ _ h =>
    ⟨h, nofun⟩
  refine Program.wp_seq (idle_wp (inventory_quiet ..) h) (fun actual s h => ?_) fun _ _ h =>
    ⟨h, nofun⟩
  refine Program.wp_seq (idle_wp (.ofExcept _) h) (fun _ s h => ?_) fun _ _ h => ⟨h, nofun⟩
  refine Program.wp_seq (compareSize_wp _ _ _ _ h) (fun outputSize s h => ?_) fun _ _ h =>
    ⟨h.1, nofun⟩
  obtain ⟨content, hlt, hstaged⟩ := h.2 outputSize rfl
  refine Program.wp_seq (staged_wp (gate_viewing ..) hstaged) (fun vmaf s h => ?_) fun _ _ h =>
    ⟨⟨h.1, h.2.1⟩, nofun⟩
  exact ⟨⟨h.1, h.2.1⟩, fun _ _ => ⟨content, hlt, h⟩⟩

theorem transcode_wp (job : PipelineJob) (backend : String) (height : Option Nat)
    (sourceSize : Nat) (hs : Idle w o b s) :
    Runs w o b (transcode job backend height sourceSize)
      (fun r s => Idle w o b s ∧ ∀ encoded, r = .ok encoded →
        ∃ content, content.length < sourceSize ∧ Staged w o b content s) s :=
  Program.wp_seq (idle_wp (produce_quiet job backend height) hs)
    (fun produced _ h => verifyAndCompare_wp job backend height sourceSize produced h)
    fun _ _ h => ⟨h, nofun⟩

-- How the body of the transaction can end.
def BodyEnd {α : Type} (w : String) (o b : Option Bytes) : Except Failure α → PathState → Prop
  | .ok _, s => Committed w o b {} s
  | .error e, s => Aborted w o b s ∨ (e = .cancelled ∧ Committed w o b { lateCancel := true } s)

theorem owned_wp (job : PipelineJob) (srcStat : Stat) (backend : String) (height : Option Nat)
    (ho : ∀ content, o = some content → srcStat.size = content.length) (hs : Idle w o b s) :
    Runs w o b (owned job srcStat backend height) (BodyEnd w o b) s := by
  refine Program.wp_seq (transcode_wp job backend height srcStat.size hs)
    (fun encoded s h => ?_) fun _ _ h => .inl (.inl h.1.1)
  obtain ⟨content, hlt, hstaged⟩ := h.2 encoded rfl
  have hne : some content ≠ o := fun heq => by
    have := ho content heq.symm
    omega
  refine Program.wp_seq (staged_wp (phase_viewing _) hstaged) (fun _ s h => ?_) fun _ _ h =>
    .inl (.inl h.1)
  refine Program.wp_seq (swap_wp job.ownership hne h) (fun _ s h => ?_) fun _ _ h => .inl h.1
  refine Program.wp_seq (confirmOutput_wp job (h.2 rfl)) (fun _ s h => ?_) fun _ _ h =>
    .inl (.inr (.inr ⟨_, h.1⟩))
  exact Program.wp_seq (confirm_wp srcStat h.1 (h.2 rfl)) (fun _ _ h => h) fun _ _ h =>
    h.imp_left fun h => .inr (.inr ⟨_, h⟩)

-- How a run of the pipeline can end.
def RunEnd {α : Type} (w : String) (o b : Option Bytes) : Except Failure α → PathState → Prop
  | .ok _, s => Committed w o b {} s
  | .error e, s => Reverted w o b s ∨
      (e = .os .other ∧ Stranded w o b { blindRollback := true } s) ∨
      (e = .cancelled ∧ Committed w o b { lateCancel := true } s)

theorem settled_committed_wp (own : SourceOwnership) {notes : Notes}
    (hs : Committed w o b notes s) :
    Runs w o b (settled (settle own)) (fun r s => match r with
      | .ok _ => Committed w o b notes s
      | .error e => e = .cancelled ∧ Committed w o b { notes with lateCancel := true } s) s := by
  refine Program.wp_seq (settle_committed_wp own hs) (fun _ s h => ?_) fun _ _ h => nomatch h.2
  exact Program.wp_seq (checkpoint_committed_wp h.1) (fun _ _ h => h) fun _ _ h => h

theorem exit_wp (own : SourceOwnership) (outcome : Except Failure α)
    (hs : BodyEnd w o b outcome s) :
    Runs w o b ((settled (settle own)).bind fun _ => .ofExcept outcome) (RunEnd w o b) s := by
  cases outcome with
  | ok a =>
    exact Program.wp_seq (settled_committed_wp own hs) (fun _ _ h => h) fun _ _ h =>
      .inr (.inr h)
  | error e =>
    rcases hs with hs | ⟨rfl, hs⟩
    · refine Program.wp_seq (settled_wp (settle_aborted_wp own hs) ?_ ?_ ?_) ?_ ?_
      · exact fun _ s h => h.elim (fun h => h.safe) fun h => nomatch h.1
      · exact fun _ s h => h.elim (fun h => h.unconfirmed) fun h => nomatch h.1
      · exact fun _ s s' h hr => h.imp (fun h => h.calm hr.toCalm) fun h => nomatch h.1
      · rintro _ s ((h | ⟨hr, -⟩) | ⟨hr, -⟩)
        · exact .inl h
        · cases hr
        · cases hr
      · rintro e s ((h | ⟨hr, h⟩) | ⟨-, _, h | ⟨hr, -⟩⟩)
        · exact .inl h
        · exact .inr (.inl ⟨Except.error.inj hr, h⟩)
        · exact .inl h
        · cases hr
    · exact Program.wp_seq (settled_committed_wp own hs) (fun _ _ h => .inr (.inr ⟨rfl, h⟩))
        fun _ _ h => .inr (.inr h)

theorem transaction_wp (own : SourceOwnership) {body : Worker α} (hs : Untouched w o b s)
    (hbody : ∀ s, Idle w o b s → Runs w o b body (BodyEnd w o b) s) :
    Runs w o b (transaction own body) (RunEnd w o b) s := by
  refine Program.wp_seq (enter_wp own hs) (fun _ s h => ?_) fun _ _ h => .inl (.inl h.1)
  have hattempt : Runs w o b body.attempt (fun r s => match r with
      | .ok outcome => BodyEnd w o b outcome s
      | .error _ => False) s :=
    (Program.wp_attempt _ _ _).mpr (hbody s ⟨h.1, h.2 rfl⟩)
  exact Program.wp_seq hattempt (fun outcome s h => exit_wp own outcome h) fun _ _ h => h.elim

theorem readSource_wp (hs : Untouched w o b s) :
    Runs w o b (awaiting (orRaise (act .runPipeline (.stat .source))))
      (fun r s => Untouched w o b s ∧ ∀ stat, r = .ok stat →
        ∀ content, o = some content → stat.size = content.length) s := by
  have hstat : Runs w o b (orRaise (act .runPipeline (.stat .source)))
      (fun r s => Untouched w o b s ∧ ∀ stat, r = .ok stat →
        ∀ content, o = some content → stat.size = content.length) s := by
    refine call_wp (Untouched w o b) hs (fun _ _ h hr => h.loose hr.toLoose) fun i s h => ?_
    rcases stat_cases ⟨w, .main⟩ .runPipeline i s .source (by decide) with
      ⟨e, he⟩ | ⟨c, hc, he⟩ <;> rw [he]
    · exact ⟨h.safe, h, nofun⟩
    · have hsaw := h.loose (Calm.examine w w s .source).toLoose
      refine ⟨hsaw.safe, hsaw, fun stat hstat content ho => ?_⟩
      rw [← Except.ok.inj hstat, Option.some.inj (hc.symm.trans (h.source.trans ho))]
  refine Program.wp_mono (settled_wp hstat (fun _ _ h => h.1.safe) (fun _ _ h => h.1.confirmed)
    fun _ _ _ h hr => ⟨h.1.loose hr.toLoose, h.2⟩) fun r s h => ?_
  rcases h with h | ⟨rfl, _, h⟩
  · exact h
  · exact ⟨h.1, nofun⟩

theorem untouched_wp {p : Worker α} (hp : p.Calls (Quiet ·)) (hs : Untouched w o b s) :
    Runs w o b p (fun _ s => Untouched w o b s) s :=
  quiet_wp hp hs (fun _ h => h.safe) (fun _ h => h.confirmed) fun _ _ h hc => h.loose hc.toLoose

theorem runPipeline_wp (job : PipelineJob) (hs : Untouched w o b s) :
    Runs w o b (runPipeline job) (RunEnd w o b) s := by
  refine Program.wp_seq (readSource_wp hs) (fun srcStat s h => ?_) fun _ _ h => .inl (.inl h.1)
  have ho := h.2 srcStat rfl
  refine Program.wp_seq (untouched_wp (preflight_quiet job) h.1) (fun ⟨height, backend⟩ s h => ?_)
    fun _ _ h => .inl (.inl h)
  refine Program.wp_seq (untouched_wp (.ofExcept _) h) (fun _ s h => ?_) fun _ _ h =>
    .inl (.inl h)
  exact transaction_wp job.ownership h fun s h => owned_wp job srcStat backend height ho h

end Transaction

end TranscodeForge.Outcome
