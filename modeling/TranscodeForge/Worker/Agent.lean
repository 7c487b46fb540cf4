import TranscodeForge.Worker.Pipeline

namespace TranscodeForge.Agent

open Interaction SourcePath Ownership Pipeline

structure AgentJob where
  pipeline : PipelineJob
  retryCount : Nat
  abortMessage : String
deriving DecidableEq

variable (job : AgentJob)

-- The report is journaled before its first delivery attempt is awaited.
def deliver (report : Report) : Worker Unit := do
  act .processJob (.report report)
  checkpoint

-- For the filesystem backend `commit` only measures the file the swap put in place.
def commit : Worker Nat := do
  let stat ← awaiting (orRaise (act .commit (.stat .source)))
  pure stat.size

def encodeJob : Worker Unit := do
  if ← act .processJob .abortRequested then .raise .cancelled
  else do
    let result ← runPipeline job.pipeline
    let outputSize ← commit
    deliver (.complete job.pipeline.jobId outputSize result.spaceSaved result.sourceSize result)

def reportFailure : Failure → Worker Unit
  | .cancelled => do
    if ← act .processJob .abortRequested then
      deliver (.failed job.pipeline.jobId (.abort job.abortMessage) job.retryCount)
    else .raise .cancelled
  | e@(.vmafGate ..) => deliver (.skipped job.pipeline.jobId "below_vmaf_floor" e)
  | e@(.sizeRegression ..) => deliver (.skipped job.pipeline.jobId "size_regression" e)
  | e@(.streamLoss ..) => deliver (.skipped job.pipeline.jobId "stream_loss" e)
  | e@(.pipeline ..) => deliver (.failed job.pipeline.jobId (.failure e) (job.retryCount + 1))
  | e@(.lockHeld _) => deliver (.failed job.pipeline.jobId (.failure e) (job.retryCount + 1))
  | e => deliver (.failed job.pipeline.jobId (.unexpected e) (job.retryCount + 1))

-- `_process_job` from the pipeline on.
def processJob : Worker Unit := (encodeJob job).rescue (reportFailure job)

end TranscodeForge.Agent
