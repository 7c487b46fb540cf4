import TranscodeForge.Agent.ProcessJob

namespace TranscodeForge.ProcessJob

open Interaction Derivative

variable {config : AgentConfig} {job : ClaimedJob} {safetyMean safetyPerc5 : Option Rat}
variable {blake2b : List Char → List Char} {workerId codec backend source path : String}
variable {site : Site} {kind : Milestone} {payload : Payload} {c : ProcessJob.Call}

-- The calls of `_process_job` once the job is current.
def Inner : ProcessJob.Call → Prop
  | .begin _ => False
  | _ => True

theorem inner_act (hc : Inner c) : (ProcessJob.act c).Calls Inner := ⟨hc, fun _ => trivial⟩

theorem inner_orRaise {α : Type} {p : ProcessJob.Agent (Except Raised α)} (hp : p.Calls Inner) :
    (ProcessJob.orRaise p).Calls Inner :=
  hp.bind fun answer => .ofExcept answer

theorem inner_deliver : (deliver config job site kind payload).Calls Inner := by
  refine ⟨trivial, fun appended => ?_⟩
  cases appended with
  | error e =>
    dsimp only [Program.ret_bind]
    split
    · refine ⟨trivial, fun sent => ?_⟩
      cases sent with
      | ok _ => trivial
      | error e =>
        dsimp only [Program.ret_bind]
        split <;> trivial
    · trivial
  | ok _ =>
    refine ⟨trivial, fun drained => ?_⟩
    cases drained with
    | ok _ => trivial
    | error e =>
      dsimp only [Program.ret_bind]
      split <;> trivial

theorem inner_getBackend : (getBackendForJob job).Calls Inner := by
  unfold getBackendForJob
  split
  · split
    · trivial
    · exact inner_orRaise (inner_act (by trivial))
  · exact inner_orRaise (inner_act (by trivial))

theorem inner_recover {started : Rat} {polls : Nat} :
    (recoverSourcePathWaiting job source workerId started polls).Calls Inner := by
  induction polls with
  | zero => exact ⟨trivial, fun _ => trivial⟩
  | succ polls ih =>
    refine (inner_orRaise (inner_act (by trivial))).bind fun recovery => ?_
    split
    · trivial
    · refine ⟨trivial, fun stopping => ?_⟩
      dsimp only [Program.ret_bind]
      split
      · exact ⟨trivial, fun _ => trivial⟩
      · refine (inner_orRaise (inner_act (by trivial))).bind fun holder => ?_
        refine ⟨trivial, fun now => ?_⟩
        dsimp only [Program.ret_bind]
        split
        · trivial
        · refine ⟨trivial, fun progressed => ?_⟩
          cases progressed with
          | error e =>
            dsimp only [Program.ret_bind]
            split
            · exact ⟨trivial, fun _ => ih⟩
            · trivial
          | ok _ => exact ⟨trivial, fun _ => ih⟩

theorem inner_decline {polls : Nat} :
    (declineUnrecovered config job source workerId polls).Calls Inner := by
  refine ⟨trivial, fun started => ?_⟩
  refine inner_recover.bind fun found => ?_
  dsimp only
  split
  · split
    · trivial
    · exact inner_deliver.bind fun _ =>
        ⟨trivial, fun _ => (inner_orRaise (inner_act (by trivial))).bind fun _ => trivial⟩
  · trivial

theorem inner_dedup : (completeByDedup config job blake2b).Calls Inner := by
  have htry : (tryDedup job blake2b).Calls Inner := by
    refine ⟨trivial, fun found => ?_⟩
    cases found with
    | ok answer => trivial
    | error e =>
      dsimp only [Program.ret_bind]
      split <;> trivial
  refine htry.bind fun found => ?_
  cases found with
  | none => trivial
  | some answer =>
    dsimp only
    split
    · trivial
    · exact inner_deliver.bind fun _ =>
        (inner_orRaise (inner_act (by trivial))).bind fun _ => ⟨trivial, fun _ => trivial⟩

theorem inner_encode :
    (encodeAndReport config job safetyMean safetyPerc5 blake2b workerId codec backend path).Calls
      Inner := by
  refine ⟨trivial, fun aborted => ?_⟩
  dsimp only [Program.ret_bind]
  split
  · trivial
  · refine (inner_orRaise (inner_act (by trivial))).bind fun result => ?_
    refine (inner_orRaise (inner_act (by trivial))).bind fun committed => ?_
    split
    · exact inner_deliver.bind fun _ => inner_deliver
    · exact inner_deliver

theorem inner_failure (e : Raised) : (reportFailure config job e).Calls Inner := by
  unfold reportFailure
  split
  · refine ⟨trivial, fun requested => ?_⟩
    dsimp only [Program.ret_bind]
    split
    · refine ⟨trivial, fun message => inner_deliver.rescue fun e => ?_⟩
      split <;> trivial
    · trivial
  · exact inner_deliver
  · exact inner_deliver
  · exact inner_deliver
  · exact inner_deliver
  · exact inner_deliver
  · exact inner_deliver
  · exact inner_deliver
  · trivial

theorem inner_fetch :
    (fetchAndEncode config job safetyMean safetyPerc5 blake2b workerId codec backend source).Calls
      Inner := by
  refine ⟨trivial, fun fetched => ?_⟩
  cases fetched with
  | error e =>
    dsimp only [Program.ret_bind]
    split
    · exact inner_deliver.bind fun _ => ⟨trivial, fun _ => trivial⟩
    · trivial
  | ok path =>
    refine (inner_encode.rescue inner_failure).attempt.bind fun outcome => ?_
    refine Program.Calls.bind ⟨trivial, fun _ => ?_⟩ fun _ => .ofExcept outcome
    exact inner_orRaise (inner_act (by trivial))

theorem inner_process {polls : Nat} :
    (processWith config job safetyMean safetyPerc5 blake2b polls workerId codec backend).Calls
      Inner := by
  refine inner_getBackend.bind fun _ => ?_
  split
  · refine inner_dedup.bind fun ended => ?_
    split
    · trivial
    · exact inner_fetch
  · refine inner_decline.bind fun ended => ?_
    split
    · trivial
    · exact inner_fetch

theorem processJob_begins {polls : Nat} (hworker : config.workerId = some workerId) :
    ∃ k, processJob config job safetyMean safetyPerc5 blake2b polls = .call (.begin job.id) k ∧
      ∀ a, (k a).Calls Inner := by
  unfold processJob
  rw [hworker]
  refine ⟨_, rfl, fun _ => ?_⟩
  dsimp only [Program.ret_bind]
  split
  · exact inner_deliver.bind fun _ => ⟨trivial, fun _ => trivial⟩
  · exact inner_process

end TranscodeForge.ProcessJob
