import TranscodeForge.Worker.Ownership
import Mathlib.Algebra.Order.Ring.Rat
import Mathlib.Algebra.Order.Group.Abs
import Mathlib.Data.List.Infix

namespace TranscodeForge.Pipeline

open Interaction SourcePath Streams Filesystem Ownership

structure PipelineJob where
  sourceName : String
  codec : String
  backend : String
  quality : Int
  sourceDuration : Rat
  jobId : String
  workerId : String
  targetVmaf : Option Rat
  vmafSafetyMean : Rat
  vmafSafetyPerc5 : Rat
  crfSearch : Bool
  content : Option String
  targetHeight : Option Nat
deriving DecidableEq

def PipelineJob.ownership (job : PipelineJob) : SourceOwnership :=
  ⟨job.jobId, job.workerId, (pipelineArtifacts job.sourceName).bak⟩

-- An awaited call: a cancellation may be delivered while it runs.
def awaiting {α : Type} (p : Worker α) : Worker α := do
  let result ← p
  checkpoint
  pure result

def durationTolerance : Rat := 2

def decodeSampleSeconds : Rat := 10

def decodeSampleOffsets : List Rat := [5 / 100, 50 / 100, 95 / 100]

def is10bit (probe : ProbeResult) : Bool :=
  decide ("10".toList <:+: probe.pixFmt.toList)

def decodeSample (m : Media) (sample offset : Rat) : Worker Unit := do
  match ← awaiting (act .verifyOutput (.decodeSample m offset sample)) with
  | .timedOut => .raise (.pipeline "VERIFY" (.decodeTimeout offset))
  | .exited returncode stderr =>
    if returncode ≠ 0 ∨ stderr ≠ "" then
      .raise (.pipeline "VERIFY" (.decodeFailed offset returncode stderr))
    else pure ()

def decodeCheck (m : Media) (duration : Rat) : Worker Unit :=
  if duration < decodeSampleSeconds * (3 / 2) then decodeSample m duration 0
  else Program.each (decodeSampleOffsets.map (duration * ·)) (decodeSample m decodeSampleSeconds)

def checkProbe (job : PipelineJob) (probe : ProbeResult) : Except Failure Unit :=
  if probe.videoCodec ≠ job.codec then
    .error (.pipeline "VERIFY" (.text ("Output codec is '" ++ probe.videoCodec ++
      "', expected '" ++ job.codec ++ "'")))
  else
    match job.targetHeight with
    | some expected =>
      if probe.height ≠ expected then
        .error (.pipeline "VERIFY" (.text ("Output height is " ++ toString probe.height ++
          ", expected the downscale target " ++ toString expected)))
      else .ok ()
    | none => .ok ()

def checkDuration (job : PipelineJob) (probe : ProbeResult) : Except Failure Unit :=
  if |probe.duration - job.sourceDuration| > durationTolerance then
    .error (.pipeline "VERIFY" (.durationMismatch job.sourceDuration probe.duration))
  else .ok ()

def verifyProbed (job : PipelineJob) (m : Media) :
    Except ProbeFailure ProbeResult → Worker Unit
  | .error (.probeError message) =>
    .raise (.pipeline "VERIFY" (.text ("ffprobe failed on output: " ++ message)))
  | .error (.other message) => .raise (.other message)
  | .ok probe => do
    .ofExcept (checkProbe job probe)
    .ofExcept (checkDuration job probe)
    decodeCheck m probe.duration

def verifyOutput (job : PipelineJob) (m : Media) : Worker Unit := do
  if ← awaiting (orRaise (act .verifyOutput (.exists (.media m)))) then do
    let stat ← awaiting (orRaise (act .verifyOutput (.stat m)))
    if stat.size = 0 then .raise (.pipeline "VERIFY" (.text "Output file is empty"))
    else do
      let probed ← awaiting (act .verifyOutput (.ffprobe m))
      verifyProbed job m probed
  else .raise (.pipeline "VERIFY" (.text "Output file does not exist"))

def preflight (job : PipelineJob) : Worker (Option Nat × String) := do
  if job.backend = "qsv" ∨ job.targetVmaf.isSome ∨ job.targetHeight.isSome then do
    match ← awaiting (act .runPipeline (.ffprobe .source)) with
    | .ok probe =>
      pure (if probe.height = 0 then none else some probe.height,
        if job.backend = "qsv" ∧ is10bit probe then "cpu" else job.backend)
    | .error (.probeError _) => pure (none, job.backend)
    | .error (.other message) => .raise (.other message)
  else pure (none, job.backend)

def guardDownscale (job : PipelineJob) (sourceHeight : Option Nat) : Except Failure Unit :=
  match job.targetHeight, sourceHeight with
  | none, _ => .ok ()
  | some _, none =>
    .error (.pipeline "TRANSCODE" (.text ("Downscale requested but the source height could not be " ++
      "probed — refusing to encode blind (the upscale guard cannot run)")))
  | some target, some height =>
    if height ≤ target then
      .error (.pipeline "TRANSCODE" (.text ("Refusing non-downward scale: source is " ++
        toString height ++ "p, requested target is " ++ toString target ++ "p")))
    else .ok ()

def phase (name : String) : Worker Unit := do
  match ← awaiting (act .runPipeline (.callback name)) with
  | none => pure ()
  | some message => .raise (.other message)

def inventory (m : Media) (step complaint : String) : Worker (List StreamInfo) := do
  match ← awaiting (act .runPipeline (.streamInventory m)) with
  | .ok streams => pure streams
  | .error (.probeError message) => .raise (.pipeline step (.text (complaint ++ message)))
  | .error (.other message) => .raise (.other message)

structure Search where
  quality : Int
  predicted : Option QualitySearchResult
  vmafAvailable : Bool
deriving DecidableEq

def vmafAvailable (job : PipelineJob) : Worker Bool :=
  if job.targetVmaf.isSome then awaiting (act .runPipeline .hasLibvmaf) else pure true

def search (job : PipelineJob) (backend : String) (height primaryIndex : Option Nat)
    (available : Bool) : Worker Search := do
  match job.crfSearch && available, job.targetVmaf with
  | true, some target => do
    phase "search"
    match ← awaiting (act .runPipeline (.findQuality
      ⟨job.codec, backend, target, target - 2, height, job.targetHeight, primaryIndex⟩)) with
    | .ok (some found) => pure ⟨found.quality, some found, true⟩
    | .ok none => pure ⟨job.quality, none, true⟩
    | .error .unavailable => pure ⟨job.quality, none, false⟩
    | .error (.vmafError _) => pure ⟨job.quality, none, true⟩
    | .error (.other message) => .raise (.other message)
  | _, _ => pure ⟨job.quality, none, available⟩

def qualityMap : List ((String × String) × (Int × Int × Int)) :=
  [(("hevc", "cpu"), (0, 0, 51)), (("hevc", "qsv"), (0, 1, 51)), (("hevc", "nvenc"), (11, 0, 51)),
    (("av1", "cpu"), (7, 0, 63)), (("av1", "nvenc"), (6, 0, 51)), (("av1", "qsv"), (4, 1, 51)),
    (("hevc", "quadra"), (0, 0, 51)), (("av1", "quadra"), (0, 0, 51))]

def mapQuality (codec backend : String) (quality : Int) : Except Failure Int :=
  match qualityMap.lookup (codec, backend) with
  | some (offset, lo, hi) => .ok (max lo (min hi (quality + offset)))
  | none =>
    .error (.value ("Unknown (codec, backend) pair: (" ++ codec ++ ", " ++ backend ++ ")."))

def orStreamFailure (resolvedCrf : Int) (backend : String) : StreamVerdict → Except Failure Unit
  | .covered => .ok ()
  | .streamLoss step detail missing => .error (.streamLoss step detail missing resolvedCrf backend)
  | .malformed confused =>
    .error (.pipeline "TRANSCODE" (.text ("Stream plan is malformed: source indexes " ++
      toString confused ++ " are counted twice or do not exist. Refusing to encode against it.")))

def encode (request : EncodeRequest) : Worker Unit := do
  match ← awaiting (act .runPipeline (.runEncode request)) with
  | .error message => .raise (.other message)
  | .ok result =>
    if result.success then pure ()
    else .raise (.pipeline "TRANSCODE" (.text
      (match result.errorMessage with
        | some message => if message = "" then "ffmpeg failed" else message
        | none => "ffmpeg failed")))

def gate (job : PipelineJob) (backend : String) (height : Option Nat) (resolvedCrf : Int)
    (found : Search) : Worker (Option VmafScore) := do
  if job.targetVmaf.isSome && found.vmafAvailable then do
    phase "gauge"
    match ← awaiting (act .runPipeline (.measureVmaf height job.targetHeight)) with
    | .error .unavailable => pure none
    | .error (.vmafError message) =>
      .raise (.pipeline "COMPARE" (.text ("VMAF measurement failed: " ++ message)))
    | .error (.other message) => .raise (.other message)
    | .ok score =>
      if score.mean < job.vmafSafetyMean ∨ score.perc5 < job.vmafSafetyPerc5 then
        .raise (.vmafGate score job.vmafSafetyMean job.vmafSafetyPerc5 resolvedCrf backend
          found.predicted)
      else pure (some score)
  else pure none

structure Encoded where
  resolvedCrf : Int
  predicted : Option QualitySearchResult
  outputSize : Nat
  vmaf : Option VmafScore
deriving DecidableEq

structure Produced where
  found : Search
  resolvedCrf : Int
  plan : StreamPlan
deriving DecidableEq

def produce (job : PipelineJob) (backend : String) (height : Option Nat) :
    Worker Produced := do
  let streams ← inventory .source "TRANSCODE"
    "Could not list the source's streams, so nothing can promise to keep them: "
  let available ← vmafAvailable job
  let found ← search job backend height (primaryVideoIndex streams) available
  let resolvedCrf ← .ofExcept (mapQuality job.codec backend found.quality)
  phase "encode"
  let dropSubs ← awaiting (act .runPipeline .unmuxableSubtitles)
  let plan := planStreams streams job.codec dropSubs
  .ofExcept (orStreamFailure resolvedCrf backend (checkPlanCoversSource streams plan))
  encode ⟨job.codec, backend, found.quality, job.content, job.targetHeight, plan⟩
  pure ⟨found, resolvedCrf, plan⟩

def compareSize (sourceSize : Nat) (resolvedCrf : Int) (backend : String)
    (predicted : Option QualitySearchResult) : Worker Nat := do
  let stat ← awaiting (orRaise (act .runPipeline (.stat .tmp)))
  if sourceSize ≤ stat.size then
    .raise (.sizeRegression sourceSize stat.size resolvedCrf backend predicted)
  else pure stat.size

def verifyAndCompare (job : PipelineJob) (backend : String) (height : Option Nat)
    (sourceSize : Nat) (produced : Produced) : Worker Encoded := do
  phase "verify"
  verifyOutput job .tmp
  let actual ← inventory .tmp "COMPARE"
    "Could not list the output's streams, so it cannot be trusted: "
  .ofExcept (orStreamFailure produced.resolvedCrf backend
    (checkStreamInventory produced.plan actual))
  let outputSize ← compareSize sourceSize produced.resolvedCrf backend produced.found.predicted
  let vmaf ← gate job backend height produced.resolvedCrf produced.found
  pure ⟨produced.resolvedCrf, produced.found.predicted, outputSize, vmaf⟩

-- Everything between LOCK and SWAP.
def transcode (job : PipelineJob) (backend : String) (height : Option Nat) (sourceSize : Nat) :
    Worker Encoded := do
  let produced ← produce job backend height
  verifyAndCompare job backend height sourceSize produced

def failConfirm : Failure → Worker Unit
  | .pipeline step message => .raise (.pipeline "CONFIRM" (.postSwap step message))
  | e => .raise e

def confirmOutput (job : PipelineJob) : Worker Unit := do
  act .runPipeline .beginConfirm
  (verifyOutput job .source).rescue failConfirm
  act .runPipeline .passConfirm

def owned (job : PipelineJob) (srcStat : Stat) (backend : String) (height : Option Nat) :
    Worker PipelineResult := do
  let encoded ← transcode job backend height srcStat.size
  phase "swap"
  swap job.ownership
  confirmOutput job
  confirm srcStat
  pure { sourceSize := srcStat.size
         outputSize := encoded.outputSize
         spaceSaved := srcStat.size - encoded.outputSize
         backend := backend
         resolvedCrf := encoded.resolvedCrf
         vmaf := encoded.vmaf
         predicted := encoded.predicted }

def runPipeline (job : PipelineJob) : Worker PipelineResult := do
  let srcStat ← awaiting (orRaise (act .runPipeline (.stat .source)))
  let (height, backend) ← preflight job
  .ofExcept (guardDownscale job height)
  transaction job.ownership (owned job srcStat backend height)

end TranscodeForge.Pipeline
