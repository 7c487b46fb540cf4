import TranscodeForge.Worker.Agent

namespace TranscodeForge.Phases

open Interaction SourcePath Filesystem Ownership Pipeline

-- What a step that moves no original keeps.
structure Loose (w : String) (s s' : PathState) : Prop where
  source : s'.source = s.source
  bak : s'.bak = s.bak
  mutating : (s'.own w).mutating = (s.own w).mutating
  ownConfirmed : (s'.own w).confirmed = (s.own w).confirmed
  notes : s'.notes w = s.notes w
  confirmed : s.confirmed ⊆ s'.confirmed

structure Calm (w : String) (s s' : PathState) : Prop extends Loose w s s' where
  locked : s.lock.isSome → s'.lock.isSome

-- What one pipeline sees of the rest of the world: its own heartbeat and the clock.
structure Undisturbed (w : String) (s s' : PathState) : Prop extends Calm w s s' where
  tmp : s'.tmp = s.tmp
  examined : s'.examined w = s.examined w
  history : s'.confirmed = s.confirmed

def Still (c : Call) : Bool :=
  match c.action with
  | .exists _ => c.site != .rollbackSwap
  | .stat _ => c.site != .commit
  | .unlink f => f == .media .tmp
  | .rename _ _ | .replace _ _ | .openExclusive | .writeLock _ | .openTransaction => false
  | .setMutating | .setConfirmed | .beginConfirm => false
  | .checkCancelled | .abortRequested | .report _ => false
  | .writeNew _ | .replaceLock | .endTouch => false
  | _ => true

-- Before the transaction is confirmed, cancellation points are quiet too.
def Quiet (c : Call) : Bool :=
  match c.action with
  | .checkCancelled => true
  | _ => Still c

-- The release also drops the lock.
def Steady (c : Call) : Bool :=
  match c.action with
  | .unlink .lock => true
  | _ => Still c

theorem Loose.trans {w : String} {s₁ s₂ s₃ : PathState} (h : Loose w s₁ s₂)
    (h' : Loose w s₂ s₃) : Loose w s₁ s₃ :=
  ⟨h'.source.trans h.source, h'.bak.trans h.bak, h'.mutating.trans h.mutating,
    h'.ownConfirmed.trans h.ownConfirmed, h'.notes.trans h.notes, fun _ hx => h'.confirmed (h.confirmed hx)⟩

theorem Calm.of_rfl {w : String} {s s' : PathState} (hs : s'.source = s.source := by rfl)
    (hb : s'.bak = s.bak := by rfl) (ho : s'.own = s.own := by rfl)
    (hn : s'.notes = s.notes := by rfl)
    (hc : s'.confirmed = s.confirmed := by rfl)
    (hl : s.lock.isSome → s'.lock.isSome := by exact fun h => h) : Calm w s s' :=
  ⟨⟨hs, hb, by rw [ho], by rw [ho], by rw [hn], by rw [hc]; exact fun _ h => h⟩, hl⟩

theorem Calm.refl (w : String) (s : PathState) : Calm w s s := .of_rfl

theorem Calm.trans {w : String} {s₁ s₂ s₃ : PathState} (h : Calm w s₁ s₂) (h' : Calm w s₂ s₃) :
    Calm w s₁ s₃ :=
  ⟨h.toLoose.trans h'.toLoose, fun hl => h'.locked (h.locked hl)⟩

theorem Calm.examine (w w' : String) (s : PathState) (m : Media) :
    Calm w s (s.examine w' m) := by
  simp only [PathState.examine]
  split <;> exact .of_rfl

theorem Calm.sawAbsence (w : String) (s : PathState) (a : Actor) (f : File) :
    Calm w s (s.sawAbsence a f) := by
  simp only [PathState.sawAbsence]
  split <;> exact .of_rfl

theorem Calm.setOwn {w : String} {s : PathState} {own : Own}
    (hm : own.mutating = (s.own w).mutating) (hc : own.confirmed = (s.own w).confirmed) :
    Calm w s (s.setOwn w own) :=
  ⟨⟨rfl, rfl, by simpa [PathState.setOwn] using hm, by simpa [PathState.setOwn] using hc, rfl,
    fun _ h => h⟩, fun h => h⟩

theorem Calm.stampHold (w w' : String) (s : PathState) (stamp : Option Nat) :
    Calm w s (s.stampHold w' stamp) := by
  simp only [PathState.stampHold]
  split <;> exact .of_rfl

theorem Undisturbed.refl (w : String) (s : PathState) : Undisturbed w s s :=
  ⟨.refl w s, rfl, rfl, rfl⟩

theorem Undisturbed.trans {w : String} {s₁ s₂ s₃ : PathState} (h : Undisturbed w s₁ s₂)
    (h' : Undisturbed w s₂ s₃) : Undisturbed w s₁ s₃ :=
  ⟨h.toCalm.trans h'.toCalm, h'.tmp.trans h.tmp, h'.examined.trans h.examined,
    h'.history.trans h.history⟩

theorem exec_still (a : Actor) (c : Call) (s : PathState) (i : Input) (hq : Still c) :
    Calm a.worker s (exec a c i s).1 := by
  obtain ⟨site, action⟩ := c
  cases action with
  | «exists» f =>
    have hsite : site ≠ .rollbackSwap := by simpa [Still] using hq
    simp only [exec, hsite, false_and, if_false]
    split
    · exact .refl ..
    · exact .sawAbsence ..
  | stat m =>
    have hsite : site ≠ .commit := by simpa [Still] using hq
    simp only [exec, hsite, false_and, if_false]
    split
    · exact .refl ..
    · exact .examine ..
  | unlink f =>
    obtain rfl : f = .media .tmp := by simpa [Still] using hq
    simp only [exec, reduceCtorEq, if_false]
    split
    · exact .refl ..
    · split
      · exact .of_rfl
      · exact .refl ..
  | readLock =>
    simp only [exec]
    split <;> exact .of_rfl
  | startHeartbeat => exact .setOwn rfl rfl
  | stopHeartbeat => exact .setOwn rfl rfl
  | passConfirm =>
    exact ⟨⟨rfl, rfl, rfl, rfl, rfl, List.subset_append_right _ _⟩, fun h => h⟩
  | ffprobe m => exact .examine ..
  | decodeSample m offset sample => exact .examine ..
  | runEncode request =>
    simp only [exec]
    split <;> exact .of_rfl
  | _ => first
    | exact .of_rfl
    | (simp only [exec, query]; split <;> exact .of_rfl)
    | simp [Still] at hq

theorem exec_calm (a : Actor) (c : Call) {s : PathState} (i : Input) (hq : Quiet c)
    (hc : (s.own a.worker).confirmed = false) : Calm a.worker s (exec a c i s).1 := by
  obtain ⟨site, action⟩ := c
  cases action with
  | checkCancelled => simpa [exec, hc] using Calm.refl a.worker s
  | _ => exact exec_still a _ s i hq

theorem exec_steady (a : Actor) (c : Call) (s : PathState) (i : Input) (hq : Steady c) :
    Loose a.worker s (exec a c i s).1 := by
  obtain ⟨site, action⟩ := c
  cases action with
  | unlink f =>
    cases f with
    | lock =>
      simp only [exec]
      split
      · exact (Calm.refl ..).toLoose
      · split
        · exact ⟨rfl, rfl, rfl, rfl, rfl, fun _ h => h⟩
        · exact (Calm.refl ..).toLoose
    | _ => exact Calm.toLoose (exec_still a _ s i hq)
  | _ => exact Calm.toLoose (exec_still a _ s i hq)

-- The calls of an acquisition: before the swap they keep the whole stage.
def Entering (c : Call) : Bool :=
  match c.action with
  | .openExclusive | .writeLock _ | .openTransaction | .checkCancelled => true
  | _ => Steady c

theorem Steady.entering {c : Call} (h : Steady c) : Entering c := by
  obtain ⟨site, action⟩ := c
  cases action with
  | _ => first | exact h | rfl

theorem Loose.setHold (w w' : String) (s : PathState) (h : Option Hold) :
    Loose w s (s.setHold w' h) := ⟨rfl, rfl, rfl, rfl, rfl, fun _ h => h⟩

theorem Calm.writeThrough (w : String) (s : PathState) (handle : Option Nat) (text : LockText) :
    Calm w s (s.writeThrough handle text) := by
  simp only [PathState.writeThrough]
  split
  · split
    · exact .of_rfl rfl rfl rfl rfl rfl fun _ => rfl
    · exact .refl ..
  · exact .refl ..

theorem exec_entering (a : Actor) (c : Call) {s : PathState} (i : Input) (hq : Entering c)
    (hm : (s.own a.worker).mutating = false) (hc : (s.own a.worker).confirmed = false) :
    Loose a.worker s (exec a c i s).1 := by
  obtain ⟨site, action⟩ := c
  cases action with
  | openExclusive =>
    simp only [exec]
    split
    · exact (Calm.refl ..).toLoose
    · split
      · exact (Calm.refl ..).toLoose
      · refine ⟨rfl, rfl, ?_, ?_, rfl, fun _ h => h⟩ <;>
          simp [PathState.createLock, PathState.setHold, PathState.setSaw, PathState.setOwn]
  | writeLock text =>
    simp only [exec]
    split
    · exact .setHold ..
    · exact ((Calm.writeThrough ..).trans (.stampHold ..)).toLoose
  | openTransaction =>
    refine ⟨rfl, rfl, ?_, ?_, rfl, fun _ h => h⟩ <;>
      simp [exec, PathState.setOwn, hm, hc]
  | checkCancelled => exact (exec_calm a _ i rfl hc).toLoose
  | _ => exact exec_steady a _ s i hq

structure Phase (w : String) (source bak : Option Bytes) (mutating confirmed : Bool)
    (notes : Notes) (s : PathState) : Prop where
  source : s.source = source
  bak : s.bak = bak
  mutating : (s.own w).mutating = mutating
  confirmed : (s.own w).confirmed = confirmed
  notes : s.notes w = notes

theorem Phase.loose {w : String} {source bak : Option Bytes} {mutating confirmed : Bool}
    {notes : Notes} {s s' : PathState} (h : Phase w source bak mutating confirmed notes s)
    (hc : Loose w s s') : Phase w source bak mutating confirmed notes s' :=
  ⟨hc.source.trans h.source, hc.bak.trans h.bak, hc.mutating.trans h.mutating,
    hc.ownConfirmed.trans h.confirmed, hc.notes.trans h.notes⟩

-- Where the bytes of one run can be, for a source that held `o` and a backup that held `b`.
def SwapSafe (o b : Option Bytes) (s : PathState) : Prop :=
  (s.source = o ∧ s.bak = b) ∨ (b = none ∧ s.bak = o ∧ s.lock.isSome) ∨
    (b = none ∧ (s.bak = none ∨ s.bak = o) ∧ ∃ c ∈ s.confirmed, s.source = some c)

section Stages

variable (w : String) (o b : Option Bytes)

def Untouched (s : PathState) : Prop := Phase w o b false false {} s

def Attempted (s : PathState) : Prop := b = none ∧ Phase w o none true false {} s

def Displaced (source : Option Bytes) (s : PathState) : Prop :=
  b = none ∧ o.isSome ∧ source ≠ o ∧ s.lock.isSome ∧ Phase w source o true false {} s

def Committed (notes : Notes) (s : PathState) : Prop :=
  b = none ∧ ∃ c ∈ s.confirmed, some c ≠ o ∧ (s.bak = none ∨ s.bak = o) ∧
    Phase w (some c) s.bak true true notes s

variable {w o b} {s s' : PathState}

theorem Untouched.safe (h : Untouched w o b s) : SwapSafe o b s := .inl ⟨h.source, h.bak⟩

theorem Attempted.safe (h : Attempted w o b s) : SwapSafe o b s :=
  .inl ⟨h.2.source, h.2.bak.trans h.1.symm⟩

theorem Displaced.safe {source : Option Bytes} (h : Displaced w o b source s) : SwapSafe o b s :=
  .inr (.inl ⟨h.1, h.2.2.2.2.bak, h.2.2.2.1⟩)

theorem Committed.safe {notes : Notes} (h : Committed w o b notes s) : SwapSafe o b s := by
  obtain ⟨hb, c, hc, _, hbak, hphase⟩ := h
  exact .inr (.inr ⟨hb, hbak, c, hc, hphase.source⟩)

theorem Untouched.loose (h : Untouched w o b s) (hc : Loose w s s') : Untouched w o b s' :=
  Phase.loose h hc

theorem Attempted.loose (h : Attempted w o b s) (hc : Loose w s s') : Attempted w o b s' :=
  ⟨h.1, h.2.loose hc⟩

theorem Displaced.calm {source : Option Bytes} (h : Displaced w o b source s)
    (hc : Calm w s s') : Displaced w o b source s' :=
  ⟨h.1, h.2.1, h.2.2.1, hc.locked h.2.2.2.1, h.2.2.2.2.loose hc.toLoose⟩

theorem Committed.loose {notes : Notes} (h : Committed w o b notes s) (hc : Loose w s s') :
    Committed w o b notes s' := by
  obtain ⟨hb, c, hmem, hne, hbak, hphase⟩ := h
  have hphase' := hphase.loose hc
  rw [← hc.bak] at hbak hphase'
  exact ⟨hb, c, hc.confirmed hmem, hne, hbak, hphase'⟩

end Stages

def solo (w : String) (o b : Option Bytes) : Contract Call PathState Input where
  rely := Undisturbed w
  assume := fun _ _ _ => True
  guar := fun _ _ _ s' => SwapSafe o b s'

abbrev Runs {α : Type} (w : String) (o b : Option Bytes) (p : Worker α)
    (Q : Except Failure α → PathState → Prop) (s : PathState) : Prop :=
  p.wp handler ⟨w, .main⟩ (solo w o b) Q s

section Cases

variable (a : Actor) (site : Site) (i : Input) (s : PathState)

theorem openExclusive_cases :
    exec a ⟨site, .openExclusive⟩ i s = (s, .error .other) ∨
    s.lock.isSome ∧ exec a ⟨site, .openExclusive⟩ i s = (s, .error .fileExists) ∨
    s.lock = none ∧ exec a ⟨site, .openExclusive⟩ i s = (s.createLock a, .ok ()) := by
  cases hf : i.fault <;> cases hl : s.lock <;> simp [exec, hf, hl]

theorem rename_cases (src dst : Media) :
    (∃ e, exec a ⟨site, .rename src dst⟩ i s = (s, .error e)) ∨
    (s.mediaAt src).isSome ∧
      exec a ⟨site, .rename src dst⟩ i s = (moveMedia s src dst, .ok ()) := by
  cases hf : i.fault <;> cases hl : s.mediaAt src <;> simp [exec, hf, hl]

theorem replace_cases (src dst : Media) (hsite : site ≠ .rollbackSwap) :
    (∃ e, exec a ⟨site, .replace src dst⟩ i s = (s, .error e)) ∨
    (s.mediaAt src).isSome ∧
      exec a ⟨site, .replace src dst⟩ i s = (moveMedia s src dst, .ok ()) := by
  cases hf : i.fault <;> cases hl : s.mediaAt src <;> simp [exec, hf, hl, hsite]

theorem rollbackReplace_cases (src dst : Media) :
    (∃ e, exec a ⟨.rollbackSwap, .replace src dst⟩ i s =
      (s.setNotes a.worker { s.notes a.worker with restoreFailed := true }, .error e)) ∨
    (s.mediaAt src).isSome ∧
      exec a ⟨.rollbackSwap, .replace src dst⟩ i s = (moveMedia s src dst, .ok ()) := by
  cases hf : i.fault <;> cases hl : s.mediaAt src <;> simp [exec, hf, hl]

theorem exists_cases (f : File) (hsite : site ≠ .rollbackSwap) :
    exec a ⟨site, .exists f⟩ i s = (s, .error .other) ∨
    exec a ⟨site, .exists f⟩ i s = (s.sawAbsence a f, .ok (s.present f)) := by
  cases hf : i.fault <;> simp [exec, hf, hsite]

theorem rollbackExists_cases (f : File) :
    s.present f ∧ exec a ⟨.rollbackSwap, .exists f⟩ i s =
      (s.setNotes a.worker { s.notes a.worker with blindRollback := true }, .error .other) ∨
    s.present f = false ∧ exec a ⟨.rollbackSwap, .exists f⟩ i s = (s, .error .other) ∨
    exec a ⟨.rollbackSwap, .exists f⟩ i s = (s.sawAbsence a f, .ok (s.present f)) := by
  cases hf : i.fault <;> cases hp : s.present f <;> simp [exec, hf, hp]

theorem stat_cases (m : Media) (hsite : site ≠ .commit) :
    (∃ e, exec a ⟨site, .stat m⟩ i s = (s, .error e)) ∨
    ∃ content, s.mediaAt m = some content ∧ exec a ⟨site, .stat m⟩ i s =
      (s.examine a.worker m, .ok { i.stat with size := content.length }) := by
  cases hf : i.fault <;> cases hm : s.mediaAt m <;> simp [exec, hf, hm, hsite]

theorem unlink_cases (f : File) (hf : f ≠ .lock) :
    (∃ e, exec a ⟨site, .unlink f⟩ i s = (s, .error e)) ∨
    i.fault = false ∧ s.present f ∧ exec a ⟨site, .unlink f⟩ i s = (s.remove f, .ok ()) := by
  cases hi : i.fault <;> cases hp : s.present f <;> simp [exec, hi, hp, hf]

theorem unlinkLock_cases :
    (∃ e, exec a ⟨site, .unlink .lock⟩ i s = (s, .error e)) ∨
    i.fault = false ∧ s.lock.isSome ∧
      exec a ⟨site, .unlink .lock⟩ i s = ((s.remove .lock).setHold a.worker none, .ok ()) := by
  cases hi : i.fault <;> cases hl : s.lock <;> simp [exec, PathState.present, hi, hl]

theorem writeLock_cases (text : LockText) :
    ∃ s', Loose a.worker s s' ∧
      ((∃ e, exec a ⟨site, .writeLock text⟩ i s = (s', .error e)) ∨
        (s.lock.isSome → s'.lock.isSome) ∧ exec a ⟨site, .writeLock text⟩ i s = (s', .ok ())) := by
  cases hf : i.fault with
  | true => exact ⟨_, .setHold a.worker a.worker s none, .inl ⟨.other, by simp [exec, hf]⟩⟩
  | false =>
    have hw := (Calm.writeThrough a.worker s (s.own a.worker).lockHandle text).trans
      (.stampHold a.worker a.worker _ text.timestamp)
    exact ⟨_, hw.toLoose, .inr ⟨hw.locked, by simp [exec, hf]⟩⟩

end Cases

section Calls

variable {α : Type} {A : Call → Prop}

theorem act_calls {site : Site} {a : Action} (h : A ⟨site, a⟩) :
    (act site a).Calls A := ⟨h, fun _ => trivial⟩

theorem orRaise_calls {p : Worker (Except OSError α)} (h : p.Calls A) : (orRaise p).Calls A :=
  h.bind fun _ => .ofExcept _

theorem checkpoint_calls (h : A ⟨.transaction, .checkCancelled⟩) :
    checkpoint.Calls A := by
  refine ⟨h, fun cancelled => ?_⟩
  cases cancelled <;> trivial

theorem awaiting_calls {p : Worker α} (hc : A ⟨.transaction, .checkCancelled⟩)
    (h : p.Calls A) : (awaiting p).Calls A :=
  h.bind fun _ => (checkpoint_calls hc).bind fun _ => trivial

theorem lockMatches_calls (jobId workerId : String)
    (h : A ⟨.lockMatches, .readLock⟩) : (lockMatches jobId workerId).Calls A := by
  refine ⟨h, fun text => ?_⟩
  cases text <;> trivial

theorem safeDelete_calls {site : Site} {f : File}
    (he : A ⟨site, .exists f⟩) (hu : A ⟨site, .unlink f⟩) : (safeDelete site f).Calls A := by
  refine ⟨he, fun present => ?_⟩
  rcases present with e | (_ | _)
  · trivial
  · trivial
  · exact ⟨hu, fun _ => trivial⟩

end Calls

section Quiet

variable {α : Type} {w : String} {o b : Option Bytes} {s : PathState}

-- A program of quiet calls keeps every assertion that calm steps keep.
theorem quiet_wp {P : PathState → Prop} {p : Worker α} (hp : p.Calls (Quiet ·)) (hs : P s)
    (hsafe : ∀ s, P s → SwapSafe o b s) (hown : ∀ s, P s → (s.own w).confirmed = false)
    (hcalm : ∀ s s', P s → Calm w s s' → P s') : Runs w o b p (fun _ s => P s) s := by
  refine Program.wp_of_calls hp hs (fun s s' h hr => hcalm s s' h hr.toCalm)
    fun c i s hq h _ _ => ?_
  have h' : P (handler.next ⟨w, .main⟩ c i s) := hcalm s _ h (exec_calm ⟨w, .main⟩ c i hq (hown s h))
  exact ⟨hsafe _ h', h'⟩

theorem call_wp {c : Call} {k : c.Answer → Worker α} {Q : Except Failure α → PathState → Prop}
    (P : PathState → Prop) (hs : P s) (hrely : ∀ s s', P s → Undisturbed w s s' → P s')
    (hcall : ∀ i s, P s → SwapSafe o b (exec ⟨w, .main⟩ c i s).1 ∧
      Runs w o b (k (exec ⟨w, .main⟩ c i s).2) Q (exec ⟨w, .main⟩ c i s).1) :
    Runs w o b (.call c k) Q s :=
  Program.wp_call_of hs hrely fun i s h _ _ => hcall i s h

theorem act_wp {site : Site} {action : Action} {k : action.Answer → Worker α}
    {Q : Except Failure α → PathState → Prop} (P : PathState → Prop) (hs : P s)
    (hrely : ∀ s s', P s → Undisturbed w s s' → P s')
    (hcall : ∀ i s, P s → SwapSafe o b (exec ⟨w, .main⟩ ⟨site, action⟩ i s).1 ∧
      Runs w o b (k (exec ⟨w, .main⟩ ⟨site, action⟩ i s).2) Q
        (exec ⟨w, .main⟩ ⟨site, action⟩ i s).1) :
    Runs w o b (act site action >>= k) Q s :=
  call_wp P hs hrely hcall

theorem exists_wp {site : Site} {f : File} {k : Bool → Worker α}
    {Q : Except Failure α → PathState → Prop} (P : PathState → Prop) (hs : P s)
    (hsite : site ≠ .rollbackSwap) (hsafe : ∀ s, P s → SwapSafe o b s)
    (hrely : ∀ s s', P s → Undisturbed w s s' → P s')
    (hsaw : ∀ s, P s → P (s.sawAbsence ⟨w, .main⟩ f))
    (hraise : ∀ s, P s → Q (.error (.os .other)) s)
    (hcall : ∀ s, P s → Runs w o b (k (s.present f)) Q (s.sawAbsence ⟨w, .main⟩ f)) :
    Runs w o b (orRaise (act site (.exists f)) >>= k) Q s := by
  refine call_wp P hs hrely fun i s h => ?_
  rcases exists_cases ⟨w, .main⟩ site i s f hsite with he | he <;> rw [he]
  · exact ⟨hsafe s h, hraise s h⟩
  · exact ⟨hsafe _ (hsaw s h), hcall s h⟩

end Quiet

end TranscodeForge.Phases
