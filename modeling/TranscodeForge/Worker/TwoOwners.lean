import TranscodeForge.Worker.NeverLose
import TranscodeForge.Worker.Owners

namespace TranscodeForge.TwoOwners

open Interaction SourcePath Filesystem Pipeline Phases CallClasses Recovery NeverLose Owners

-- What a call of an owner or of a recovery can do to the source and its backup.
inductive MediaStep (c : Call) (i : Input) (s s' : PathState) : Prop where
  | still (source : s'.source = s.source) (bak : s'.bak = s.bak)
      (confirmed : s.confirmed ⊆ s'.confirmed)
  | displaced (call : c = ⟨.atomicSwap, .rename .source .bak⟩) (works : i.fault = false)
      (present : s.source.isSome) (source : s'.source = none) (bak : s'.bak = s.source)
      (confirmed : s'.confirmed = s.confirmed)
  | installed (call : c = ⟨.atomicSwap, .rename .tmp .source⟩) (works : i.fault = false)
      (present : s.tmp.isSome) (source : s'.source = s.tmp) (bak : s'.bak = s.bak)
      (confirmed : s'.confirmed = s.confirmed)
  | restored (present : s.bak.isSome) (source : s'.source = s.bak) (bak : s'.bak = none)
      (confirmed : s'.confirmed = s.confirmed)
  | dropped (call : c = ⟨.finish, .unlink bakFile⟩) (works : i.fault = false)
      (present : s.bak.isSome) (source : s'.source = s.source) (bak : s'.bak = none)
      (confirmed : s'.confirmed = s.confirmed)

theorem MediaStep.loose {c : Call} {i : Input} {w : String} {s s' : PathState}
    (h : Loose w s s') : MediaStep c i s s' :=
  .still h.source h.bak h.confirmed

theorem MediaStep.refl (c : Call) (i : Input) (s : PathState) : MediaStep c i s s :=
  .still rfl rfl fun _ h => h

theorem piped_media (a : Actor) (c : Call) (i : Input) (s : PathState) (hc : Piped c) :
    MediaStep c i s (exec a c i s).1 := by
  obtain ⟨site, action⟩ := c
  cases action with
  | rename src dst =>
    rcases rename_cases a site i s src dst with ⟨e, he⟩ | ⟨hsrc, he⟩ <;> rw [he]
    · exact .refl ..
    have hworks : i.fault = false := by
      cases hi : i.fault
      · rfl
      · simp [exec, hi] at he
    rcases src with _ | _ | _ <;> rcases dst with _ | _ | _ <;> try cases hc
    · obtain rfl : site = .atomicSwap := by simpa [Piped] using hc
      exact .displaced rfl hworks hsrc rfl rfl rfl
    · exact .restored hsrc rfl rfl rfl
    · obtain rfl : site = .atomicSwap := by simpa [Piped] using hc
      exact .installed rfl hworks hsrc rfl rfl rfl
  | replace src dst =>
    rcases src with _ | _ | _ <;> rcases dst with _ | _ | _ <;> try cases hc
    obtain rfl : site = .rollbackSwap := by simpa [Piped] using hc
    rcases rollbackReplace_cases a i s .bak .source with ⟨e, he⟩ | ⟨hsrc, he⟩ <;> rw [he]
    · exact .still rfl rfl fun _ h => h
    · exact .restored hsrc rfl rfl rfl
  | unlink f =>
    rcases f with (_ | _ | _) | _ | _
    · cases hc
    · rcases unlink_cases a site i s bakFile (by decide) with
        ⟨e, he⟩ | ⟨hworks, hbak, he⟩ <;> rw [he]
      · exact .refl ..
      · obtain rfl : site = .finish := by simpa [Piped] using hc
        exact .dropped rfl hworks hbak rfl rfl rfl
    · exact .loose (exec_steady a _ s i rfl)
    · exact .loose (exec_steady a _ s i rfl)
    · cases hc
  | openExclusive =>
    rcases openExclusive_cases a site i s with he | ⟨-, he⟩ | ⟨-, he⟩ <;> rw [he]
    · exact .refl ..
    · exact .refl ..
    · exact .still rfl rfl fun _ h => h
  | writeLock text =>
    obtain ⟨s', hloose, ⟨e, he⟩ | ⟨-, he⟩⟩ := writeLock_cases a site i s text <;> rw [he]
    · exact .loose hloose
    · exact .loose hloose
  | «exists» f =>
    simp only [exec]
    split
    · split <;> exact .still rfl rfl fun _ h => h
    · exact .loose (Calm.sawAbsence a.worker s a f).toLoose
  | stat m =>
    simp only [exec]
    split
    · split <;> exact .still rfl rfl fun _ h => h
    · exact .loose (Calm.examine a.worker a.worker s m).toLoose
  | checkCancelled =>
    simp only [exec]
    split <;> exact .still rfl rfl fun _ h => h
  | abortRequested =>
    simp only [exec]
    split <;> exact .still rfl rfl fun _ h => h
  | openTransaction => exact .still rfl rfl fun _ h => h
  | setMutating => exact .still rfl rfl fun _ h => h
  | setConfirmed => exact .still rfl rfl fun _ h => h
  | beginConfirm => exact .still rfl rfl fun _ h => h
  | writeNew _ | replaceLock | endTouch | report _ => cases hc
  | _ => exact .loose (exec_steady a _ s i rfl)

theorem recovering_media (a : Actor) (c : Call) (i : Input) (s : PathState) (hc : Recovering c) :
    MediaStep c i s (exec a c i s).1 := by
  obtain ⟨hconfirmed, ⟨hsource, hbak⟩ | ⟨hpresent, hsource, hbak⟩⟩ :=
    exec_recovering a c s i hc
  · exact .still hsource hbak (by rw [hconfirmed]; exact fun _ h => h)
  · exact .restored hpresent hsource hbak hconfirmed

theorem makes_media {e : Errand} {c : Call} (a : Actor) (i : Input) (s : PathState)
    (hc : e.Makes c) : MediaStep c i s (exec a c i s).1 := by
  cases e with
  | pipeline job => exact piped_media a c i s hc
  | claim => exact recovering_media a c i s hc
  | scan => exact recovering_media a c i s hc
  | beat own => exact .loose (exec_touching a c i s hc).toLoose

section Held

variable {original : Bytes} {s s' : PathState}

-- The original, or an encode that passed its CONFIRM.
def Held (original : Bytes) (s : PathState) (content : Option Bytes) : Prop :=
  ∃ c ∈ original :: s.confirmed, content = some c

theorem Held.mono {content : Option Bytes} (h : Held original s content)
    (hc : s.confirmed ⊆ s'.confirmed) : Held original s' content := by
  obtain ⟨c, hmem, hcontent⟩ := h
  refine ⟨c, ?_, hcontent⟩
  rcases List.mem_cons.mp hmem with rfl | hmem
  · exact List.mem_cons_self
  · exact List.mem_cons_of_mem _ (hc hmem)

-- Whatever is set aside is worth keeping, and without a backup so is the source.
structure Kept (original : Bytes) (s : PathState) : Prop where
  aside : s.bak.isSome → Held original s s.bak
  inPlace : s.bak = none → Held original s s.source

-- A call that takes effect finds what its owner left: the source still held when it is set
-- aside, a backup when the encode is moved in, a held source when the backup is dropped.
structure Orderly (original : Bytes) (e : OwnerCall) : Prop where
  displaces : e.op = ⟨.atomicSwap, .rename .source .bak⟩ → e.input.fault = false →
    e.pre.source.isSome → Held original e.pre e.pre.source
  installs : e.op = ⟨.atomicSwap, .rename .tmp .source⟩ → e.input.fault = false →
    e.pre.tmp.isSome → e.pre.bak.isSome
  drops : e.op = ⟨.finish, .unlink bakFile⟩ → e.input.fault = false →
    e.pre.bak.isSome → Held original e.pre e.pre.source

theorem Kept.still (h : Kept original s) (hsource : s'.source = s.source) (hbak : s'.bak = s.bak)
    (hc : s.confirmed ⊆ s'.confirmed) : Kept original s' := by
  constructor
  · intro hpresent
    rw [hbak] at hpresent ⊢
    exact (h.aside hpresent).mono hc
  · intro hnone
    rw [hbak] at hnone
    rw [hsource]
    exact (h.inPlace hnone).mono hc

-- One step: an orderly call keeps what is to be kept.
theorem Kept.step {a : Actor} {r : Errand} {c : Call} {i : Input} (h : Kept original s)
    (hc : r.Makes c) (ho : Orderly original ⟨⟨c, i, s, (exec a c i s).1⟩, a, r⟩) :
    Kept original (exec a c i s).1 := by
  cases makes_media a i s hc with
  | still source bak confirmed => exact h.still source bak confirmed
  | displaced call works present source bak confirmed =>
    have hheld := ho.displaces call works present
    constructor
    · intro _
      rw [bak]
      exact hheld.mono (by rw [confirmed]; exact fun _ h => h)
    · intro hnone
      rw [bak] at hnone
      have hsome : s.source.isSome := present
      rw [hnone] at hsome
      cases hsome
  | installed call works present source bak confirmed =>
    have hbak := ho.installs call works present
    constructor
    · intro hpresent
      rw [bak]
      exact (h.aside hbak).mono (by rw [confirmed]; exact fun _ h => h)
    · intro hnone
      rw [bak] at hnone
      have hsome : s.bak.isSome := hbak
      rw [hnone] at hsome
      cases hsome
  | restored present source bak confirmed =>
    constructor
    · intro hpresent
      rw [bak] at hpresent
      cases hpresent
    · intro _
      rw [source]
      exact (h.aside present).mono (by rw [confirmed]; exact fun _ h => h)
  | dropped call works present source bak confirmed =>
    constructor
    · intro hpresent
      rw [bak] at hpresent
      cases hpresent
    · intro _
      rw [source]
      exact (ho.drops call works present).mono (by rw [confirmed]; exact fun _ h => h)

instance (content : Option Bytes) : Decidable (Held original s content) := by
  unfold Held
  infer_instance

instance (e : OwnerCall) : Decidable (Orderly original e) :=
  decidable_of_iff (_ ∧ _ ∧ _) ⟨fun h => ⟨h.1, h.2.1, h.2.2⟩, fun h => ⟨h.1, h.2, h.3⟩⟩

end Held

section Runs

variable {staleAfter : Nat} {original : Bytes} {s : PathState} {es : List OwnerCall}
  {d : OwnerConfig}

theorem owners_make (h : OwnerRun staleAfter s es d) : ∀ e ∈ es, e.request.Makes e.op :=
  (h.calls (A := fun _ r c => r.Makes c) fun a r _ _ _ => body_makes staleAfter a r).1

theorem start_media {a : Actor} {r : Errand} {s s' : PathState} (h : start a r s = some s') :
    s'.source = s.source ∧ s'.bak = s.bak ∧ s'.confirmed = s.confirmed := by
  cases r <;> simp only [start] at h <;> split at h <;> cases h <;> exact ⟨rfl, rfl, rfl⟩

-- The invariant of every orderly run, whoever interleaves with whom.
theorem owners_kept (h : OwnerRun staleAfter s es d) (hs : Kept original s)
    (ho : ∀ e ∈ es, Orderly original e) : Kept original d.state := by
  refine (h.invariant (A := fun e => Orderly original e ∧ e.request.Makes e.op)
    (fun e he => ⟨ho e he, owners_make h e he⟩) hs ?_ ?_ ?_).2
  · intro a r s s' hk hstart
    obtain ⟨hsource, hbak, hconfirmed⟩ := start_media hstart
    exact hk.still hsource hbak (by rw [hconfirmed]; exact fun _ h => h)
  · intro k s hk
    cases k <;> exact hk.still rfl rfl fun _ h => h
  · intro a r c i s hk ha
    exact hk.step ha.2 ha.1

-- Every swap sets the original itself aside, not an encode an earlier job has confirmed.
def Displaces (original : Bytes) (e : OwnerCall) : Prop :=
  e.op = ⟨.atomicSwap, .rename .source .bak⟩ → e.input.fault = false →
    e.pre.source.isSome → e.pre.source = some original

instance (e : OwnerCall) : Decidable (Displaces original e) := by
  unfold Displaces
  infer_instance

def Aside (original : Bytes) (s : PathState) : Prop := s.bak = none ∨ s.bak = some original

theorem Aside.step {a : Actor} {r : Errand} {c : Call} {i : Input} (h : Aside original s)
    (hc : r.Makes c) (hd : Displaces original ⟨⟨c, i, s, (exec a c i s).1⟩, a, r⟩) :
    Aside original (exec a c i s).1 := by
  unfold Aside at h ⊢
  cases makes_media a i s hc with
  | still source bak confirmed => rwa [bak]
  | displaced call works present source bak confirmed =>
    rw [bak]
    exact .inr (hd call works present)
  | installed call works present source bak confirmed => rwa [bak]
  | restored present source bak confirmed => exact .inl bak
  | dropped call works present source bak confirmed => exact .inl bak

theorem owners_aside (h : OwnerRun staleAfter s es d) (hs : Aside original s)
    (hd : ∀ e ∈ es, Displaces original e) : Aside original d.state := by
  refine (h.invariant (A := fun e => Displaces original e ∧ e.request.Makes e.op)
    (fun e he => ⟨hd e he, owners_make h e he⟩) hs ?_ ?_ ?_).2
  · intro a r s s' hk hstart
    unfold Aside
    rw [(start_media hstart).2.1]
    exact hk
  · intro k s hk
    cases k <;> exact hk
  · intro a r c i s hk ha
    exact hk.step ha.2 ha.1

theorem Kept.originalKept (h : Kept original s) (ha : Aside original s) : OriginalKept original s := by
  rcases ha with hnone | horiginal
  · obtain ⟨c, hmem, hsource⟩ := h.inPlace hnone
    rcases List.mem_cons.mp hmem with rfl | hmem
    · exact .inl hsource
    · exact .inr (.inr ⟨c, hmem, hsource⟩)
  · exact .inr (.inl horiginal)

end Runs

section Sample

def calls (w : String) (n : Nat) (i : Input) : List (Move Actor Errand Disturbance Input) :=
  List.replicate n (.call ⟨w, .main⟩ i)

abbrev Played := List OwnerCall × OwnerConfig

def play (moves : List (Move Actor Errand Disturbance Input)) : Option Played :=
  (Config.initial samplePath : OwnerConfig).playAll (owners recoveryStaleLock) moves

theorem play_run {moves : List (Move Actor Errand Disturbance Input)} {p : Played}
    (h : play moves = some p) : OwnerRun recoveryStaleLock samplePath p.1 p.2 :=
  Run.playAll .refl h

-- The first owner dies between its renames; the second restores the original and swaps.
def deadOwner : Played :=
  (play (.start ⟨"a", .main⟩ (.pipeline (sampleJob "a")) :: calls "a" 39 allPass ++
    .disturb (.crash "a") :: .disturb (.tick recoveryStaleLock) ::
    .start ⟨"b", .main⟩ .claim :: calls "b" 11 allPass ++ .retire ⟨"b", .main⟩ ::
    .start ⟨"b", .main⟩ (.pipeline (sampleJob "b")) :: calls "b" 40 allPass)).get
      (by decide +kernel)

-- The first owner is paused past its CONFIRM; its lock goes stale, a second worker restores the
-- original and swaps its own encode in; the first owner resumes and drops the backup.
def pausedOwner : Played :=
  (play (.start ⟨"a", .main⟩ (.pipeline (sampleJob "a")) :: calls "a" 55 allPass ++
    .disturb (.tick recoveryStaleLock) ::
    .start ⟨"b", .main⟩ .claim :: calls "b" 11 allPass ++ .retire ⟨"b", .main⟩ ::
    .start ⟨"b", .main⟩ (.pipeline (sampleJob "b")) ::
    calls "b" 40 { allPass with output := some [8] } ++ calls "a" 7 allPass)).get
      (by decide +kernel)

end Sample

end TranscodeForge.TwoOwners
