import TranscodeForge.Worker.Recovery

namespace TranscodeForge.NeverLose

open Interaction SourcePath Filesystem Pipeline Phases Outcome Recovery

-- A worker about to run a pipeline: no transaction of its own, nothing noted about it.
structure Fresh (w : String) (s : PathState) : Prop where
  own : s.own w = {}
  notes : s.notes w = {}

def OriginalKept (original : Bytes) (s : PathState) : Prop :=
  s.source = some original ∨ s.bak = some original ∨
    ∃ content ∈ s.confirmed, s.source = some content

theorem Fresh.untouched {w : String} {s : PathState} (h : Fresh w s) :
    Untouched w s.source s.bak s :=
  ⟨rfl, rfl, by rw [h.own], by rw [h.own], h.notes⟩

theorem swapSafe_undisturbed {w : String} {o b : Option Bytes} {s s' : PathState}
    (h : SwapSafe o b s) (hr : Undisturbed w s s') : SwapSafe o b s' := by
  unfold SwapSafe at h ⊢
  rw [hr.source, hr.bak]
  rcases h with h | ⟨hb, hbak, hlock⟩ | ⟨hb, hbak, c, hc, hs⟩
  · exact .inl h
  · exact .inr (.inl ⟨hb, hbak, hr.locked hlock⟩)
  · exact .inr (.inr ⟨hb, hbak, c, hr.confirmed hc, hs⟩)

abbrev PipelineRun (job : PipelineJob) (s : PathState) (es : List PathCall)
    (rest : Worker PipelineResult) (s' : PathState) : Prop :=
  Exec handler ⟨job.workerId, .main⟩ (Undisturbed job.workerId) (runPipeline job) s es rest s'

theorem pipeline_swapSafe {job : PipelineJob} {s s' : PathState} {es : List PathCall}
    {rest : Worker PipelineResult} (h : PipelineRun job s es rest s')
    (hfresh : Fresh job.workerId s) :
    (∀ e ∈ es, SwapSafe s.source s.bak e.post) ∧
      (∀ e ∈ es, SwapSafe s.source s.bak e.pre) ∧ SwapSafe s.source s.bak s' := by
  have hpost := (Exec.adequate h (runPipeline_wp job hfresh.untouched) fun _ _ => trivial).1
  exact ⟨hpost, h.around hfresh.untouched.safe (fun _ _ h hr => swapSafe_undisturbed h hr) hpost⟩

-- What a recovery can do to the media files: nothing, or move the backup over the source.
def Restores (s s' : PathState) : Prop :=
  s'.confirmed = s.confirmed ∧
    ((s'.source = s.source ∧ s'.bak = s.bak) ∨
      (s.bak.isSome ∧ s'.source = s.bak ∧ s'.bak = none))

theorem exec_recovering (a : Actor) (c : Call) (s : PathState) (i : Input)
    (hq : Recovering c) : Restores s (exec a c i s).1 := by
  have hrefl : Restores s s := ⟨rfl, .inl ⟨rfl, rfl⟩⟩
  obtain ⟨site, action⟩ := c
  cases action with
  | «exists» f =>
    have hsite : site ≠ .rollbackSwap := by simpa [Recovering] using hq
    rcases exists_cases a site i s f hsite with he | he <;> rw [he]
    · exact hrefl
    · exact ⟨by simp, .inl ⟨by simp, by simp⟩⟩
  | unlink f =>
    simp only [exec]
    split
    · exact hrefl
    · split
      · rcases f with (_ | _ | _) | _ | _
        · simp [Recovering] at hq
        · simp [Recovering] at hq
        · exact ⟨rfl, .inl ⟨rfl, rfl⟩⟩
        · exact ⟨rfl, .inl ⟨rfl, rfl⟩⟩
        · simp [Recovering] at hq
      · exact hrefl
  | replace src dst =>
    rcases src with _ | _ | _ <;> rcases dst with _ | _ | _ <;> try simp [Recovering] at hq
    rcases replace_cases a site i s .bak .source (by simpa [Recovering] using hq) with
      ⟨e, he⟩ | ⟨hbak, he⟩ <;> rw [he]
    · exact hrefl
    · exact ⟨rfl, .inr ⟨hbak, rfl, rfl⟩⟩
  | readLock =>
    simp only [exec]
    split <;> exact ⟨rfl, .inl ⟨rfl, rfl⟩⟩
  | _ => first
    | exact hrefl
    | (simp only [exec, query]; split <;> exact hrefl)
    | simp [Recovering] at hq

def Recoverable (original : Bytes) (s : PathState) : Prop :=
  (s.bak = none ∨ s.bak = some original) ∧
    (s.bak = none → s.source = some original ∨ ∃ content ∈ s.confirmed, s.source = some content)

theorem SwapSafe.recoverable {original : Bytes} {s : PathState}
    (h : SwapSafe (some original) none s) : Recoverable original s := by
  rcases h with ⟨hs, hb⟩ | ⟨-, hb, -⟩ | ⟨-, hb, hc⟩
  · exact ⟨.inl hb, fun _ => .inl hs⟩
  · exact ⟨.inr hb, fun hn => by simp [hb] at hn⟩
  · exact ⟨hb, fun _ => .inr hc⟩

theorem Recoverable.kept {original : Bytes} {s : PathState} (h : Recoverable original s) :
    OriginalKept original s := by
  rcases h.1 with hb | hb
  · exact (h.2 hb).elim .inl fun hc => .inr (.inr hc)
  · exact .inr (.inl hb)

theorem Recoverable.restores {original : Bytes} {s s' : PathState} (h : Recoverable original s)
    (hr : Restores s s') : Recoverable original s' := by
  obtain ⟨hc, ⟨hs, hb⟩ | ⟨hsome, hs, hb⟩⟩ := hr
  · unfold Recoverable
    rw [hs, hb, hc]
    exact h
  · refine ⟨.inl hb, fun _ => .inl ?_⟩
    rcases h.1 with hn | ho
    · simp [hn] at hsome
    · rw [hs, ho]

theorem Recoverable.timePasses {original : Bytes} {s s' : PathState}
    (h : Recoverable original s) (hr : TimePasses s s') : Recoverable original s' := by
  obtain ⟨clock, -, rfl⟩ := hr
  exact h

def recovering (original : Bytes) : Contract Call PathState Input where
  rely := TimePasses
  assume := fun _ _ _ => True
  guar := fun _ _ _ s' => Recoverable original s'

theorem recover_recoverable {original : Bytes} (r : RecoveryRequest) {s : PathState}
    (hs : Recoverable original s) :
    (recover r).wp handler ⟨r.worker, .main⟩ (recovering original)
      (fun _ s => Recoverable original s) s := by
  refine Program.wp_of_calls (recover_recovering r) hs (fun _ _ h hr => h.timePasses hr)
    fun c i s hq h _ _ => ?_
  have h' := h.restores (exec_recovering ⟨r.worker, .main⟩ c s i hq)
  exact ⟨h', h'⟩

theorem recoveries_recoverable {original : Bytes} {s s' : PathState} {es : List PathCall}
    {answers : List (Option (Except Failure RecoveryAnswer) × PathState)}
    (h : RecoveryRuns s es answers s') (hs : Recoverable original s) :
    Recoverable original s' := by
  induction h with
  | refl => exact hs
  | step r _ hexec ih =>
    have hpost := (Exec.adequate hexec (recover_recoverable r ih) fun _ _ => trivial).1
    exact (hexec.around ih (fun _ _ h hr => h.timePasses hr) hpost).2

theorem original_never_lost {job : PipelineJob} {original : Bytes} {s s₁ s₂ : PathState}
    {es es' : List PathCall} {rest : Worker PipelineResult}
    {answers : List (Option (Except Failure RecoveryAnswer) × PathState)}
    (hfresh : Fresh job.workerId s) (hsource : s.source = some original) (hbak : s.bak = none)
    (hpipeline : PipelineRun job s es rest s₁) (hrecoveries : RecoveryRuns s₁ es' answers s₂) :
    OriginalKept original s₂ := by
  have hsafe := (pipeline_swapSafe hpipeline hfresh).2.2
  rw [hsource, hbak] at hsafe
  exact (recoveries_recoverable hrecoveries (SwapSafe.recoverable hsafe)).kept

section Sample

def samplePath : PathState where
  source := some [7, 7]
  bak := none
  tmp := none
  lock := none
  lockNew := none
  clock := 0
  nextInode := 0
  own := fun _ => {}
  confirmed := []
  examined := fun _ => []
  notes := fun _ => {}
  sawLock := fun _ => none
  hold := fun _ => none

def sampleJob (workerId : String) : PipelineJob where
  sourceName := "movie.mkv"
  codec := "hevc"
  backend := "cpu"
  quality := 20
  sourceDuration := 20
  jobId := "job"
  workerId := workerId
  targetVmaf := none
  vmafSafetyMean := 90
  vmafSafetyPerc5 := 80
  crfSearch := false
  content := none
  targetHeight := none

-- Every call succeeds, the encode is one byte and every check passes.
def allPass : Input where
  output := some [9]
  probe := .ok ⟨"hevc", 1080, 20, "yuv420p"⟩
  streams := .ok [⟨0, "video", "hevc", "", false, false⟩]

abbrev DrivenPipeline := List PathCall × Worker PipelineResult × PathState

def drivePipeline (inputs : List Input) : Option DrivenPipeline :=
  (runPipeline (sampleJob "a")).drive handler ⟨"a", .main⟩ inputs samplePath

theorem drivePipeline_run {inputs : List Input} {r : DrivenPipeline}
    (h : drivePipeline inputs = some r) :
    PipelineRun (sampleJob "a") samplePath r.1 r.2.1 r.2.2 :=
  Exec.drive (Undisturbed.refl "a") h

def midSwap : DrivenPipeline :=
  (drivePipeline (List.replicate 39 allPass)).get (by decide +kernel)

theorem original_never_lost_midSwap :
    midSwap.2.2.source = none ∧ OriginalKept [7, 7] midSwap.2.2 :=
  ⟨by decide +kernel, original_never_lost ⟨rfl, rfl⟩ rfl rfl
    (drivePipeline_run (Option.some_get _).symm) .refl⟩

end Sample

end TranscodeForge.NeverLose
