import TranscodeForge.Agent.ProcessJob
import TranscodeForge.Scratch.Release

namespace TranscodeForge.S3Backend

open Interaction Storage TranscodeForge.Derivative ProcessJob Scratch

-- Whether it is one of the client's own errors, a `ClientError` or a `BotoCoreError`.
structure S3Failure where
  isClient : Bool
  raised : Raised
deriving DecidableEq

inductive Call where
  | agent (c : ProcessJob.Call)
  | headObject (key : String)
  | downloadFile (key : String) (filename : Path)
  | stat (localOutput : String)
  | uploadFile (localOutput : String) (derivativeKey : List Char)
  | scratch (c : Scratch.Call)

-- `headObject` answers with the `ContentLength`, where there is one.
abbrev Call.Answer : Call → Type
  | .agent c => c.Answer
  | .headObject _ => Except S3Failure (Option Nat)
  | .downloadFile _ _ | .uploadFile _ _ => Except S3Failure Unit
  | .stat _ => Except Raised Int
  | .scratch c => c.Answer

structure Input where
  agent : ProcessJob.Input := {}
  failure : Option S3Failure := none
  contentLength : Option Nat := none
  size : Int := 0
  content : String := ""
  scratch : Scratch.Input := {}

inductive Ending where
  | downloaded
  | clientError
  | otherError
deriving DecidableEq

-- Two history variables: the directory that `fetch` reserved, and how the download into it ended.
structure Station where
  agent : AgentState := {}
  tree : Tree
  reserved : Option Path := none
  ending : Option Ending := none

def Input.responds {α : Type} (i : Input) (a : α) : Except S3Failure α :=
  match i.failure with
  | some e => .error e
  | none => .ok a

def store (t : Tree) (path : Path) (content : String) : Tree :=
  t.upsert ⟨path, .file content⟩ (fun e => { e with node := .file content })
    (Entry.path_written content)

-- A path without a name, or one that ends in `..`, is a directory.
def downloadFile (filename : Path) (i : Input) (s : Station) : Station × Except S3Failure Unit :=
  match i.failure with
  | some e => ({ s with ending := some (if e.isClient then .clientError else .otherError) }, .error e)
  | none =>
    if filename.name = "" || filename.name = ".." then
      ({ s with ending := some .otherError }, .error ⟨false, { kind := .os }⟩)
    else
      ({ s with tree := store s.tree filename i.content, ending := some .downloaded }, .ok ())

def Station.remember (s : Station) : (c : Scratch.Call) → c.Answer → Station
  | .mkdir path, .ok _ => { s with reserved := some path }
  | _, _ => s

def exec (scratchRoot : List String) (_ : Unit) : (c : Call) → Input → Station → Station × c.Answer
  | .agent c, i, s =>
    let (agent, answer) := ProcessJob.exec () c i.agent s.agent
    ({ s with agent := agent }, answer)
  | .headObject _, i, s => (s, i.responds i.contentLength)
  | .downloadFile _ filename, i, s => downloadFile filename i s
  | .stat _, i, s => (s, i.agent.answers i.size)
  | .uploadFile _ _, i, s => (s, i.responds ())
  | .scratch c, i, s =>
    let (tree, answer) := Scratch.exec scratchRoot 0 c i.scratch s.tree
    ({ s.remember c answer with tree := tree }, answer)

def handler (scratchRoot : List String) : Handler Unit Call Call.Answer Station Input where
  exec := exec scratchRoot
  ready _ c s := match c with
    | .agent c => ProcessJob.handler.ready () c s.agent
    | _ => true

abbrev Backend := Program Call Call.Answer Raised

def act (c : Call) : Backend c.Answer := .call c .ret

def raisedOf : SourcePath.Failure → Raised
  | .os _ => { kind := .os }
  | .value message => { kind := .other, str := message }
  | _ => { kind := .other }

def onScratch {α : Type} (p : Manager α) : Backend α :=
  ((p.attempt : Program Scratch.Call Scratch.Call.Answer Raised _).expand fun c =>
    act (.scratch c)).bind fun
      | .ok a => .ret a
      | .error e => .raise (raisedOf e)

def fetchId (source : String) : JobId where
  text := String.ofList ("s3-fetch-".toList ++ source.toList.map fun c => if c = '/' then '-' else c)
  noSlash := by
    rw [String.toList_ofList, List.mem_append, List.mem_map]
    rintro (hfront | ⟨c, -, hc⟩)
    · exact absurd hfront (by decide)
    · split at hc
      · exact absurd hc (by decide)
      · next hslash => exact hslash hc

def pathText (path : Path) : String := path.parts.foldl (fun text part => text ++ "/" ++ part) ""

section Backend

variable (scratchRoot : List String)

def fetch (source : String) : Backend String := do
  match ← act (.headObject source) with
  | .error e => .raise e.raised
  | .ok contentLength => do
    let scratchDir ← onScratch
      (reserve scratchRoot (fetchId source) (contentLength.getD (100 * 1024 ^ 3)))
    match ← act (.downloadFile source ⟨scratchDir.parts, pathName source⟩) with
    | .error e =>
      if e.isClient then do
        onScratch (release scratchRoot (fetchId source))
        .raise e.raised
      else .raise e.raised
    | .ok _ => pure (joinPath (pathText scratchDir) (pathName source))

variable (blake2b : List Char → List Char) (job : ClaimedJob) (jobId : JobId)

-- The text is quoted as `repr` quotes one that has no quote in it.
def uploadFailed (e : Raised) : Raised where
  kind := .os
  str := "S3 upload failed: " ++ e.str
  repr := "OSError('S3 upload failed: " ++ e.str ++ "')"

def commit (localOutput : String) : Backend CommitResult := do
  match ← act (.stat localOutput) with
  | .error e => .raise e
  | .ok outputSize => do
    match ← act (.uploadFile localOutput (uploadKey blake2b job localOutput)) with
    | .error e => .raise (if e.isClient then uploadFailed e.raised else e.raised)
    | .ok _ => do
      onScratch (release scratchRoot jobId)
      pure ⟨outputSize, 0⟩

def cleanup : Backend Unit := onScratch (release scratchRoot jobId)

-- What the agent asks of its storage, this backend carries out.
def carryOut : (c : ProcessJob.Call) → Backend c.Answer
  | .fetch source => (fetch scratchRoot source).attempt
  | .commit localOutput _ _ => (commit scratchRoot blake2b job jobId localOutput).attempt
  | .cleanup _ => (cleanup scratchRoot jobId).attempt
  | c => act (.agent c)

def s3Job (config : AgentConfig) (safetyMean safetyPerc5 : Option Rat) (polls : Nat) : Backend Unit :=
  (processJob config job safetyMean safetyPerc5 blake2b polls).expand
    (carryOut scratchRoot blake2b job jobId)

end Backend

end TranscodeForge.S3Backend
