import TranscodeForge.Worker.Phases

namespace TranscodeForge.CallClasses

open Interaction SourcePath Streams Filesystem Ownership Pipeline Phases

section QuietCalls

variable {α : Type}

-- The calls that leave the encode alone as well.
def Viewing (c : Call) : Bool :=
  match c.action with
  | .runEncode _ | .unlink _ => false
  | _ => Quiet c

theorem Viewing.quiet {c : Call} (h : Viewing c) : Quiet c := by
  unfold Viewing at h
  split at h
  · cases h
  · cases h
  · exact h

theorem act_quiet {site : Site} {a : Action} (h : Quiet ⟨site, a⟩) :
    (act site a).Calls (Quiet ·) := act_calls h

theorem checkpoint_quiet : checkpoint.Calls (Quiet ·) := checkpoint_calls (by rfl)

theorem awaiting_quiet {p : Worker α} (h : p.Calls (Quiet ·)) :
    (awaiting p).Calls (Quiet ·) := awaiting_calls (by rfl) h

theorem orRaise_quiet {p : Worker (Except OSError α)} (h : p.Calls (Quiet ·)) :
    (orRaise p).Calls (Quiet ·) := orRaise_calls h

theorem phase_viewing (name : String) : (phase name).Calls (Viewing ·) := by
  refine (awaiting_calls (by rfl) (act_calls (by rfl))).bind fun raised => ?_
  cases raised <;> trivial

theorem phase_quiet (name : String) : (phase name).Calls (Quiet ·) :=
  (phase_viewing name).mono fun _ => Viewing.quiet

theorem inventory_quiet (m : Media) (step complaint : String) :
    (inventory m step complaint).Calls (Quiet ·) := by
  refine (awaiting_quiet (act_quiet rfl)).bind fun streams => ?_
  rcases streams with (message | message) | streams <;> trivial

theorem vmafAvailable_quiet (job : PipelineJob) : (vmafAvailable job).Calls (Quiet ·) := by
  unfold vmafAvailable
  split
  · exact awaiting_quiet (act_quiet rfl)
  · trivial

theorem search_quiet (job : PipelineJob) (backend : String) (height primaryIndex : Option Nat)
    (available : Bool) : (search job backend height primaryIndex available).Calls (Quiet ·) := by
  unfold search
  split
  · refine (phase_quiet _).bind fun _ => (awaiting_quiet (act_quiet rfl)).bind fun found => ?_
    rcases found with (_ | _ | _) | (_ | _) <;> trivial
  · trivial

theorem encode_quiet (request : EncodeRequest) : (encode request).Calls (Quiet ·) := by
  refine (awaiting_quiet (act_quiet rfl)).bind fun result => ?_
  cases result with
  | error message => trivial
  | ok result =>
    dsimp only
    split <;> trivial

theorem decodeSample_quiet (m : Media) (sample offset : Rat) :
    (decodeSample m sample offset).Calls (Quiet ·) := by
  refine (awaiting_quiet (act_quiet rfl)).bind fun result => ?_
  cases result with
  | timedOut => trivial
  | exited returncode stderr =>
    dsimp only
    split <;> trivial

theorem decodeCheck_quiet (m : Media) (duration : Rat) :
    (decodeCheck m duration).Calls (Quiet ·) := by
  unfold decodeCheck
  split
  · exact decodeSample_quiet ..
  · exact .each fun _ _ => decodeSample_quiet ..

theorem verifyProbed_quiet (job : PipelineJob) (m : Media)
    (probed : Except ProbeFailure ProbeResult) :
    (verifyProbed job m probed).Calls (Quiet ·) := by
  rcases probed with (message | message) | probe
  · trivial
  · trivial
  · exact (Program.Calls.ofExcept _).bind fun _ => (Program.Calls.ofExcept _).bind fun _ =>
      decodeCheck_quiet ..

theorem verifyOutput_quiet (job : PipelineJob) (m : Media) :
    (verifyOutput job m).Calls (Quiet ·) := by
  refine (awaiting_quiet (orRaise_quiet (act_quiet rfl))).bind fun present => ?_
  split
  · refine (awaiting_quiet (orRaise_quiet (act_quiet rfl))).bind fun stat => ?_
    split
    · trivial
    · exact (awaiting_quiet (act_quiet rfl)).bind fun probed => verifyProbed_quiet ..
  · trivial

theorem produce_quiet (job : PipelineJob) (backend : String) (height : Option Nat) :
    (produce job backend height).Calls (Quiet ·) :=
  (inventory_quiet ..).bind fun _ => (vmafAvailable_quiet job).bind fun _ =>
    (search_quiet ..).bind fun _ => (Program.Calls.ofExcept _).bind fun _ =>
      (phase_quiet _).bind fun _ => (awaiting_quiet (act_quiet rfl)).bind fun _ =>
        (Program.Calls.ofExcept _).bind fun _ => (encode_quiet _).bind fun _ => trivial

theorem gate_viewing (job : PipelineJob) (backend : String) (height : Option Nat)
    (resolvedCrf : Int) (found : Search) :
    (gate job backend height resolvedCrf found).Calls (Viewing ·) := by
  unfold gate
  split
  · refine (phase_viewing _).bind fun _ =>
      (awaiting_calls (by rfl) (act_calls (by rfl))).bind fun score => ?_
    rcases score with (_ | _ | _) | score
    · trivial
    · trivial
    · trivial
    · dsimp only
      split <;> trivial
  · trivial

theorem preserveMetadata_quiet (srcStat : Stat) :
    (preserveMetadata srcStat).Calls (Quiet ·) := by
  refine (orRaise_quiet (act_quiet rfl)).bind fun symlink => ?_
  split
  · trivial
  · refine (act_quiet rfl).bind fun resolved => ?_
    cases resolved with
    | error e => trivial
    | ok _ =>
      exact (act_quiet rfl).bind fun _ => (act_quiet rfl).bind fun _ =>
        (act_quiet rfl).bind fun _ => trivial

theorem preflight_quiet (job : PipelineJob) : (preflight job).Calls (Quiet ·) := by
  unfold preflight
  split
  · refine (awaiting_quiet (act_quiet rfl)).bind fun probe => ?_
    rcases probe with (_ | _) | _ <;> trivial
  · trivial

end QuietCalls

section Release

variable (own : SourceOwnership)

theorem releaseLock_entering : (releaseLock own).Calls (Entering ·) := by
  refine (lockMatches_calls _ _ (by rfl)).bind fun held => ?_
  cases held
  · trivial
  · exact safeDelete_calls (by rfl) (by rfl)

theorem lockContent_entering :
    lockContent.Calls (Entering ·) := by
  refine ⟨rfl, fun content => ?_⟩
  rcases content with e | (_ | _ | _ | _) <;> trivial

theorem releaseArtifacts_steady : (releaseArtifacts own).Calls (Steady ·) := by
  refine (lockMatches_calls _ _ (by rfl)).bind fun held => ?_
  cases held
  · trivial
  · exact (safeDelete_calls (by rfl) (by rfl)).bind fun _ => safeDelete_calls (by rfl) (by rfl)

theorem safeDelete_noRaise (site : Site) (f : File) : (safeDelete site f).NoRaise := by
  intro present
  rcases present with e | (_ | _)
  · trivial
  · trivial
  · exact fun _ => trivial

theorem releaseArtifacts_noRaise : (releaseArtifacts own).NoRaise := by
  refine Program.NoRaise.bind (fun text => ?_) fun held => ?_
  · cases text <;> trivial
  · cases held
    · trivial
    · exact Program.NoRaise.bind (safeDelete_noRaise _ _) fun _ => safeDelete_noRaise _ _

end Release

section Look

variable {A : Call → Prop} {site : Site}

theorem look_calls {f : File} (h : A ⟨site, .exists f⟩) : (orRaise (act site (.exists f))).Calls A :=
  orRaise_calls (act_calls h)

theorem lockIsActive_calls (workerId : String) (staleAfter : Nat)
    (hread : A ⟨.lockIsActive, .readLock⟩) (hnow : A ⟨.lockIsActive, .now⟩) :
    (lockIsActive workerId staleAfter).Calls A := by
  have hreadLock : readLock.Calls A := by
    refine ⟨hread, fun text => ?_⟩
    rcases text with e | (_ | _ | _ | _) <;> trivial
  refine hreadLock.bind fun parsed => ?_
  rcases parsed with _ | ⟨lockWorker, ts⟩
  · trivial
  · dsimp only
    split
    · trivial
    · exact ⟨hnow, fun _ => trivial⟩

theorem lockedElsewhere_calls (workerId : String) (staleAfter : Nat)
    (hlook : A ⟨site, .exists .lock⟩) (hread : A ⟨.lockIsActive, .readLock⟩)
    (hnow : A ⟨.lockIsActive, .now⟩) : (lockedElsewhere site workerId staleAfter).Calls A := by
  refine (look_calls hlook).bind fun present => ?_
  split
  · exact lockIsActive_calls workerId staleAfter hread hnow
  · trivial

theorem deleteLeftover_calls {f : File} (hlook : A ⟨site, .exists f⟩)
    (hunlink : A ⟨site, .unlink f⟩) : (deleteLeftover site f).Calls A := by
  refine ⟨hlook, fun present => ?_⟩
  rcases present with e | (_ | _)
  · trivial
  · trivial
  · refine ⟨hunlink, fun removed => ?_⟩
    cases removed <;> trivial

end Look

-- Every call of a pipeline.
def Piped (c : Call) : Bool :=
  match c.action with
  | .rename .source .bak | .rename .tmp .source | .rename .bak .source => c.site == .atomicSwap
  | .rename _ _ => false
  | .replace .bak .source => c.site == .rollbackSwap
  | .replace _ _ => false
  | .unlink (.media .bak) => c.site == .finish
  | .unlink (.media .source) | .unlink .lockNew => false
  | .writeNew _ | .replaceLock | .endTouch | .report _ => false
  | _ => true

-- The calls a pipeline makes while it holds the lock leave the lock alone.
def Working (c : Call) : Bool :=
  match c.action with
  | .unlink .lock | .openExclusive | .writeLock _ | .openTransaction => false
  | _ => Piped c

section Owning

variable {α : Type} {A : Call → Prop}

theorem settled_calls {p : Worker α} (hc : A ⟨.transaction, .checkCancelled⟩) (h : p.Calls A) :
    (settled p).Calls A :=
  h.bind fun _ => (checkpoint_calls hc).bind fun _ => trivial

-- The calls of a transaction's body: the quiet ones, and those that move the file.
structure Owning (A : Call → Prop) : Prop where
  quiet : ∀ c, Quiet c → A c
  setMutating : A ⟨.atomicSwap, .setMutating⟩
  aside : A ⟨.atomicSwap, .rename .source .bak⟩
  place : A ⟨.atomicSwap, .rename .tmp .source⟩
  back : A ⟨.atomicSwap, .rename .bak .source⟩
  beginConfirm : A ⟨.runPipeline, .beginConfirm⟩
  dropBackup : A ⟨.finish, .unlink (.media .bak)⟩
  setConfirmed : A ⟨.finish, .setConfirmed⟩

namespace Owning

variable (hA : Owning A)

include hA

theorem calls {p : Worker α} (hp : p.Calls (Quiet ·)) : p.Calls A := hp.mono hA.quiet

theorem renameAside : renameAside.Calls A := by
  refine ⟨hA.aside, fun renamed => ?_⟩
  cases renamed with
  | error e => trivial
  | ok _ =>
    refine ⟨hA.place, fun renamed => ?_⟩
    cases renamed with
    | error e => exact ⟨hA.back, fun _ => trivial⟩
    | ok _ => trivial

theorem atomicSwap (bak : String) : (atomicSwap bak).Calls A := by
  refine (orRaise_calls (act_calls (hA.quiet _ rfl))).bind fun present => ?_
  split
  · trivial
  · exact ⟨hA.setMutating, fun _ => hA.renameAside⟩

theorem confirmOutput (job : PipelineJob) : (confirmOutput job).Calls A := by
  refine (act_calls hA.beginConfirm).bind fun _ => Program.Calls.bind (Program.Calls.rescue
    (hA.calls (verifyOutput_quiet job .source)) fun e => ?_) fun _ => act_calls (hA.quiet _ rfl)
  cases e <;> trivial

theorem finish (srcStat : Stat) : (finish srcStat).Calls A :=
  (hA.calls (preserveMetadata_quiet srcStat)).bind fun _ =>
    (safeDelete_calls (hA.quiet _ rfl) hA.dropBackup).bind fun _ => act_calls hA.setConfirmed

theorem verifyAndCompare (job : PipelineJob) (backend : String) (height : Option Nat)
    (sourceSize : Nat) (produced : Produced) :
    (verifyAndCompare job backend height sourceSize produced).Calls A := by
  refine (hA.calls (phase_quiet _)).bind fun _ =>
    (hA.calls (verifyOutput_quiet job .tmp)).bind fun _ =>
      (hA.calls (inventory_quiet ..)).bind fun _ => (Program.Calls.ofExcept _).bind fun _ => ?_
  refine Program.Calls.bind ?_ fun _ =>
    ((gate_viewing ..).mono fun c hc => hA.quiet c (Viewing.quiet hc)).bind fun _ => trivial
  refine (awaiting_calls (hA.quiet _ rfl)
    (orRaise_calls (act_calls (hA.quiet _ rfl)))).bind fun stat => ?_
  split <;> trivial

theorem owned (job : PipelineJob) (srcStat : Stat) (backend : String) (height : Option Nat) :
    (owned job srcStat backend height).Calls A := by
  refine Program.Calls.bind ?_ fun _ => (hA.calls (phase_quiet _)).bind fun _ =>
    (settled_calls (hA.quiet _ rfl) (hA.atomicSwap _)).bind fun _ =>
      (hA.confirmOutput job).bind fun _ =>
        (settled_calls (hA.quiet _ rfl) (hA.finish srcStat)).bind fun _ => trivial
  exact (hA.calls (produce_quiet ..)).bind fun _ => hA.verifyAndCompare ..

end Owning

end Owning

section Working

variable {α : Type}

theorem Quiet.working {c : Call} (h : Quiet c) : Working c := by
  obtain ⟨site, action⟩ := c
  cases action with
  | unlink f => rcases f with (_ | _ | _) | _ | _ <;> first | rfl | exact nomatch h
  | _ => first | rfl | exact nomatch h

theorem working_owning : Owning (Working ·) := by
  refine ⟨fun _ => Quiet.working, ?_, ?_, ?_, ?_, ?_, ?_, ?_⟩ <;> rfl

theorem rollbackSwap_working : rollbackSwap.Calls (Working ·) := by
  refine (orRaise_calls (act_calls (by rfl))).bind fun present => ?_
  split
  · refine ⟨rfl, fun replaced => ?_⟩
    cases replaced <;> trivial
  · trivial

theorem owned_working (job : PipelineJob) (srcStat : Stat) (backend : String)
    (height : Option Nat) : (owned job srcStat backend height).Calls (Working ·) :=
  working_owning.owned ..

end Working

section Piped

variable {α : Type}

theorem Working.piped {c : Call} (h : Working c) : Piped c := by
  unfold Working at h
  split at h <;> first | exact h | cases h

theorem Entering.piped {c : Call} (h : Entering c) : Piped c := by
  obtain ⟨site, action⟩ := c
  cases action with
  | unlink f => rcases f with (_ | _ | _) | _ | _ <;> first | rfl | exact nomatch h
  | _ => first | rfl | exact nomatch h

theorem working_piped {p : Worker α} (h : p.Calls (Working ·)) : p.Calls (Piped ·) :=
  h.mono fun _ => Working.piped

theorem entering_piped {p : Worker α} (h : p.Calls (Entering ·)) : p.Calls (Piped ·) :=
  h.mono fun _ => Entering.piped

theorem acquireLock_entering (jobId workerId : String) :
    (acquireLock jobId workerId).Calls (Entering ·) := by
  refine ⟨rfl, fun timestamp => ⟨rfl, fun opened => ?_⟩⟩
  rcases opened with (_ | _ | _) | _
  · trivial
  · exact lockContent_entering.bind fun _ => trivial
  · trivial
  · exact orRaise_calls (act_calls (by rfl))

theorem enter_entering (own : SourceOwnership) : (enter own).Calls (Entering ·) := by
  refine (act_calls (by rfl)).bind fun _ => Program.Calls.bind (Program.Calls.rescue
    (settled_calls (by rfl) (acquireLock_entering ..)) fun e => ?_) fun _ => act_calls (by rfl)
  cases e with
  | cancelled => exact (settled_calls (by rfl) (releaseLock_entering own)).bind fun _ => trivial
  | _ => trivial

theorem settle_piped (own : SourceOwnership) : (settle own).Calls (Piped ·) := by
  have hrelease : (releaseArtifacts own).Calls (Piped ·) :=
    (releaseArtifacts_steady own).mono fun c hc => Entering.piped (Steady.entering hc)
  refine (act_calls (by rfl)).bind fun _ => (act_calls (by rfl)).bind fun state => ?_
  split
  · refine (working_piped rollbackSwap_working).bind fun restored => ?_
    split
    · exact hrelease
    · trivial
  · exact hrelease

theorem runPipeline_piped (job : PipelineJob) : (runPipeline job).Calls (Piped ·) := by
  refine (awaiting_calls (by rfl) (orRaise_calls (act_calls (by rfl)))).bind fun srcStat =>
    (working_piped (working_owning.calls (preflight_quiet job))).bind fun ⟨height, backend⟩ =>
      (Program.Calls.ofExcept _).bind fun _ => (entering_piped (enter_entering _)).bind fun _ => ?_
  exact (working_piped (owned_working ..)).attempt.bind fun outcome =>
    (settled_calls (by rfl) (settle_piped _)).bind fun _ => .ofExcept _

end Piped

end TranscodeForge.CallClasses
