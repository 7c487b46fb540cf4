import TranscodeForge.Text.General
import TranscodeForge.Text.Separated
import TranscodeForge.Worker.Filesystem

namespace TranscodeForge.Derivative

open Text Filesystem

-- The job a worker claimed, with the extras of the claim response.
structure ClaimedJob where
  id : String
  sourcePath : String
  library : String := ""
  libraryId : Option String := none
  sourceResolution : Option String := none
  sourceDuration : Option Rat := none
  sourceSize : Option Int := none
  targetCodec : String := "hevc"
  targetHeight : Option Int := none
  qualityValue : Int := 21
  targetVmaf : Option Rat := none
  retryCount : Int := 0
  backendType : String := "filesystem"
  s3Bucket : String := ""
  s3Prefix : String := ""
  mediaType : String := ""
deriving DecidableEq, Repr

-- Python's `or` on texts.
def orText (text default : String) : String := if text = "" then default else text

def components (path : String) : List String :=
  ((path.toList.splitOn '/').map String.ofList).filter fun part => part != "" && part != "."

def pathName (path : String) : String := (components path).getLast?.getD ""

def joinPath (directory name : String) : String :=
  if name = "" then directory else directory ++ "/" ++ name

def extension (path : String) : List Char :=
  ((stemSuffix (pathName path)).2.toList).dropWhile (· == '.')

def targetResolutionFor (targetHeight : Option Int) (sourceResolution : Option String) : String :=
  match targetHeight with
  | none => sourceResolution.getD ""
  | some height => if height = 0 then sourceResolution.getD "" else toString height ++ "p"

structure Goal where
  sourcePath : String
  sourceResolution : String
  sourceAudioCodec : String
  targetResolution : String
  targetAudioCodec : String
  targetCodec : String
  targetVmaf : Option Rat
deriving DecidableEq, Repr

def vmafPart : Option Rat → List Char
  | none => []
  | some vmaf => general vmaf

def Goal.hashInput (goal : Goal) : List Char :=
  goal.sourcePath.toList ++ '|' :: (goal.sourceResolution.toList ++ '|' ::
    (goal.sourceAudioCodec.toList ++ '|' :: (goal.targetResolution.toList ++ '|' ::
      (goal.targetAudioCodec.toList ++ '|' :: (goal.targetCodec.toList ++ '|' ::
        vmafPart goal.targetVmaf)))))

section Keys

-- The hex digest of a text.
variable (blake2b : List Char → List Char)

def computeDerivativeKey (goal : Goal) (localOutput : String) : List Char :=
  let ext := if extension localOutput = [] then "mkv".toList else extension localOutput
  blake2b goal.hashInput ++ '_' :: (goal.targetCodec.toList ++ '.' :: ext)

variable (job : ClaimedJob)

-- The goal under which a job is registered and looked up. A job has no audio codec fields.
def goalFor : Goal where
  sourcePath := job.sourcePath
  sourceResolution := job.sourceResolution.getD ""
  sourceAudioCodec := ""
  targetResolution := targetResolutionFor job.targetHeight job.sourceResolution
  targetAudioCodec := "copy"
  targetCodec := orText job.targetCodec "hevc"
  targetVmaf := job.targetVmaf

def derivativeKeyFor (localOutput : String) : List Char :=
  computeDerivativeKey blake2b (goalFor job) localOutput

-- `_get_field` answers a field that the job does not have, or whose value is falsy, with its
-- default; a job has no `target_resolution`.
def uploadGoal : Goal where
  sourcePath := job.sourcePath
  sourceResolution := job.sourceResolution.getD ""
  sourceAudioCodec := ""
  targetResolution := orText "" (job.sourceResolution.getD "")
  targetAudioCodec := orText "" "copy"
  targetCodec := orText job.targetCodec "hevc"
  targetVmaf := if job.targetVmaf = some 0 then none else job.targetVmaf

def uploadKey (localOutput : String) : List Char :=
  computeDerivativeKey blake2b (uploadGoal job) localOutput

end Keys

-- Where `fetch` puts an object; one whose key has no name cannot be downloaded into a file.
def fetch (scratchDir source : String) : Option String :=
  if pathName source = "" then none else some (joinPath scratchDir (pathName source))

end TranscodeForge.Derivative
