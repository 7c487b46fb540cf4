import TranscodeForge.Agent.Reported

namespace TranscodeForge.ProcessJob

open Interaction Derivative Filesystem

variable {config : AgentConfig} {job : ClaimedJob} {safetyMean safetyPerc5 : Option Rat}
variable {blake2b : List Char → List Char} {workerId codec backend source path : String}
variable {n : Nat} {m : AgentState × Bool}

abbrev Open (job : ClaimedJob) (n : Nat) (m : AgentState × Bool) : Prop :=
  Stands job.id (some job.id) n false m

section Encode

-- What the body of the `try` leaves to its handlers.
def Undecided (job : ClaimedJob) (n : Nat) (e : Raised) (m : AgentState × Bool) : Prop :=
  e.isException = true ∧ Open job n m ∨ e.kind = .exit ∧ Settled job.id n m ∨
    e.kind = .cancelled ∧ m.1.abortRequested = true ∧ Open job n m

theorem undecided_of_fault {e : Raised} {marks : Bool} (hs : Stands job.id (some job.id) n marks m)
    (hmarks : marks = (e.kind == .exit))
    (hcancel : e.kind = .cancelled → m.1.abortRequested = true) : Undecided job n e m := by
  subst hmarks
  by_cases hexit : e.kind = .exit
  · rw [hexit] at hs
    exact .inr (.inl ⟨hexit, Stands.settled (.inr hs)⟩)
  · have hunbroken : (e.kind == .exit) = false := by simp [hexit]
    rw [hunbroken] at hs
    by_cases hkind : e.kind = .cancelled
    · exact .inr (.inr ⟨hkind, hcancel hkind, hs⟩)
    · exact .inl ⟨by simp [Raised.isException, hkind, hexit], hs⟩

theorem undecided_of_delivery {e : Raised}
    (h : e.isException = true ∧ Stands job.id (some job.id) n false m ∨
      e.kind = .exit ∧ Settled job.id n m) : Undecided job n e m := by
  rcases h with h | h
  · exact .inl h
  · exact .inr (.inl h)

theorem encodeAndReport_wp (hm : Open job n m) :
    (encodeAndReport config job safetyMean safetyPerc5 blake2b workerId codec backend path).wp
      marked () reporting.marking
      (fun o m => match o with
        | .ok () => Settled job.id n m
        | .error e => Undecided job n e m) m := by
  refine keeps_wp hm (fun _ _ => ⟨rfl, rfl⟩) fun _ s m hrequested habort hm => ?_
  dsimp only [Program.ret_bind]
  split
  · next hasked =>
    have hasked : s.abortRequested = true := hasked
    exact .inr (.inr ⟨rfl, habort ▸ hasked, hm⟩)
  · refine keeps_wp hm (fun _ _ => ⟨rfl, rfl⟩) fun i s m hrequested habort hm => ?_
    refine raises_wp (fun e hfault => ?_) fun hfault => ?_
    · refine undecided_of_fault hm (by simp [Breaks, hfault]) fun hkind => ?_
      rw [← habort]
      exact hrequested (by simp [hfault, hkind])
    · have hm : Open job n m := by simpa [Breaks, hfault] using hm
      refine keeps_wp hm (fun _ _ => ⟨rfl, rfl⟩) fun i s m hrequested _ hm => ?_
      refine raises_wp (fun e hfault => ?_) fun hfault => ?_
      · refine undecided_of_fault hm (by simp [Breaks, hfault]) fun hkind => ?_
        exact (hrequested (by simp [hfault, hkind])).elim
      · have hm : Open job n m := by simpa [Breaks, hfault] using hm
        have hcomplete : ∀ payload m, Open job n m →
            (deliver config job .outcome .complete payload).wp marked () reporting.marking
              (fun o m => match o with
                | .ok () => Settled job.id n m
                | .error e => Undecided job n e m) m := by
          intro payload m hm
          refine Program.wp_mono (deliver_outcome_wp hm) fun o s hs => ?_
          cases o with
          | ok _ => exact hs
          | error e => exact undecided_of_delivery hs
        split
        · refine Program.wp_seq (deliver_outcome_wp hm) (fun _ m hm => ?_) fun e m hm => ?_
          · exact hcomplete _ m hm
          · exact undecided_of_delivery hm
        · exact hcomplete _ m hm

theorem reportAbort_wp (hm : Open job n m) :
    (reportAbort config job).wp marked () reporting.marking (fun _ m => Settled job.id n m) m := by
  refine keeps_wp hm (fun _ _ => ⟨rfl, rfl⟩) fun _ s m _ _ hm => ?_
  dsimp only [Program.ret_bind]
  rw [Program.wp_rescue]
  refine Program.wp_mono (deliver_handler_wp (.inr rfl) rfl hm) fun o s hs => ?_
  cases o with
  | ok _ => exact hs
  | error e =>
    dsimp only
    split <;> exact hs

theorem reportFailure_wp {e : Raised} (hm : Undecided job n e m) :
    (reportFailure config job e).wp marked () reporting.marking (fun _ m => Settled job.id n m)
      m := by
  unfold reportFailure
  rcases hm with ⟨hexception, hm⟩ | ⟨hexit, hm⟩ | ⟨hcancelled, hasked, hm⟩
  · obtain ⟨hcancelled, hexit⟩ := of_isException hexception
    split
    · next hkind => exact absurd hkind hcancelled
    · exact deliver_handler_wp (.inl rfl) rfl hm
    · exact deliver_handler_wp (.inl rfl) rfl hm
    · exact deliver_handler_wp (.inl rfl) rfl hm
    · exact deliver_handler_wp (.inl rfl) rfl hm
    · exact deliver_handler_wp (.inl rfl) rfl hm
    · exact deliver_handler_wp (.inl rfl) rfl hm
    · exact deliver_handler_wp (.inl rfl) rfl hm
    · next hkind => exact absurd hkind hexit
  · rw [hexit]
    exact hm
  · rw [hcancelled]
    intro s hr _ i _
    have hasked : s.1.abortRequested = true := hr.1.2.2 hasked
    have hs : Open job n s := hm.rely hr
    have hnext : Open job n (s.1, s.2 || false) := ⟨hs.current, hs.reports, by simp [hs.broken]⟩
    refine ⟨trivial, ?_⟩
    change (if s.1.abortRequested = true then reportAbort config job else .raise e).wp marked ()
      reporting.marking _ _
    rw [if_pos hasked]
    exact reportAbort_wp hnext

theorem finishJob_wp (hm : Settled job.id n m) :
    finishJob.wp marked () reporting.marking (fun _ m => Concluded job.id n m) m := by
  intro s hr _ i _
  refine ⟨trivial, ?_⟩
  have hs : Settled job.id n s := hm.rely hr
  have hflag : (marked.next () .finish i s).2 = s.2 := Bool.or_false s.2
  have hfinished : Settled job.id n (marked.next () .finish i s) := by
    rw [Settled, hflag]
    exact hs
  intro s' hr' _ i' _
  refine ⟨trivial, ?_⟩
  have hs' : Concluded job.id n s' := (hfinished.concluded rfl).rely hr'
  have hnext : Concluded job.id n (s'.1, s'.2 || false) := by simpa [Concluded] using hs'
  exact answers_wp (fun _ _ => hnext) fun _ => hnext

theorem clear_wp (hm : Settled job.id n m) :
    (act .clear).wp marked () reporting.marking (fun _ m => Concluded job.id n m) m := by
  intro s hr _ i _
  have hs : Settled job.id n s := hm.rely hr
  have hflag : (marked.next () .clear i s).2 = s.2 := Bool.or_false s.2
  have hcleared : Settled job.id n (marked.next () .clear i s) := by
    rw [Settled, hflag]
    exact hs
  exact ⟨trivial, hcleared.concluded rfl⟩

theorem fetchAndEncode_wp (hm : Open job n m) :
    (fetchAndEncode config job safetyMean safetyPerc5 blake2b workerId codec backend source).wp
      marked () reporting.marking (fun _ m => Concluded job.id n m) m := by
  refine keeps_wp hm (fun _ _ => ⟨rfl, rfl⟩) fun i s m hrequested _ hm => ?_
  refine answers_wp (fun e hfault => ?_) fun hfault => ?_
  · dsimp only
    split
    · next hexception =>
      have hunbroken : (e.kind == .exit) = false := by
        simpa using (of_isException hexception).2
      have hm : Open job n m := by simpa [Breaks, hfault, hunbroken] using hm
      refine Program.wp_seq (deliver_early_wp (by simp) rfl hm) (fun _ m hm => clear_wp hm.2)
        fun e m hm => ?_
      exact Concluded.of_broken hm.1 hm.2
    · next hexception =>
      have hexit : e.kind = .exit := by
        rcases not_isException hexception with h | h
        · exact h
        · exact (hrequested (by simp [hfault, h])).elim
      exact Concluded.of_broken hm.current (hm.broken.trans (by simp [Breaks, hfault, hexit]))
  · have hm : Open job n m := by simpa [Breaks, hfault] using hm
    unfold ensuring
    rw [Program.wp_bind, Program.wp_attempt, Program.wp_rescue]
    have hfinish : ∀ (o : Except Raised Unit) m, Settled job.id n m →
        (finishJob.bind fun _ => .ofExcept o).wp marked () reporting.marking
          (fun _ m => Concluded job.id n m) m := by
      intro o m hm
      refine Program.wp_seq (finishJob_wp hm) (fun _ m hm => ?_) fun _ _ hm => hm
      rw [Program.wp_ofExcept]
      exact hm
    refine Program.wp_mono (encodeAndReport_wp hm) fun o m hm => ?_
    cases o with
    | ok a => exact hfinish (.ok a) m hm
    | error e =>
      refine Program.wp_mono (reportFailure_wp hm) fun o m hm => ?_
      exact hfinish o m hm

end Encode

section Early

theorem getBackendForJob_wp (hbucket : job.backendType = "s3" → job.s3Bucket ≠ "")
    (hm : Open job n m) :
    (getBackendForJob job).wp marked () reporting.marking
      (fun o m => match o with
        | .ok () => Open job n m
        | .error _ => Concluded job.id n m) m := by
  have hconstruct : ∀ isS3 bucket keyPrefix m, Open job n m →
      (orRaise (act (.getBackend isS3 bucket keyPrefix))).wp marked () reporting.marking
        (fun o m => match o with
          | .ok () => Open job n m
          | .error _ => Concluded job.id n m) m := by
    intro isS3 bucket keyPrefix m hm
    refine keeps_wp hm (fun _ _ => ⟨rfl, rfl⟩) fun i _ m _ _ hm => ?_
    refine answers_wp (fun e hfault => ?_) fun hfault => ?_
    · exact Concluded.of_broken hm.current (hm.broken.trans (by simp [Breaks, hfault]))
    · have hm : Open job n m := by simpa [Breaks, hfault] using hm
      exact hm
  unfold getBackendForJob
  split
  · next hs3 =>
    rw [if_neg (hbucket hs3)]
    exact hconstruct _ _ _ _ hm
  · exact hconstruct _ _ _ _ hm

def Recovered (job : ClaimedJob) (n : Nat) (o : Except Raised (Waited × Option String))
    (m : AgentState × Bool) : Prop :=
  match o with
  | .ok (waited, decline) =>
    Open job n m ∧ (waited.declines = true → (decline <|> declineMessages waited).isSome = true)
  | .error _ => Concluded job.id n m

theorem recoverSourcePathWaiting_wp {started : Rat} {polls : Nat} (hm : Open job n m) :
    (recoverSourcePathWaiting job source workerId started polls).wp marked () reporting.marking
      (Recovered job n) m := by
  induction polls generalizing m with
  | zero =>
    intro s _ hready
    cases hready
  | succ polls ih =>
    refine keeps_wp hm (fun _ _ => ⟨rfl, rfl⟩) fun i _ m _ _ hm => ?_
    refine raises_wp (fun e hfault => ?_) fun hfault => ?_
    · exact Concluded.of_broken hm.current (hm.broken.trans (by simp [Breaks, hfault]))
    · have hm : Open job n m := by simpa [Breaks, hfault] using hm
      split
      · next hrecovery =>
        refine ⟨hm, fun hdeclines => ?_⟩
        cases hkind : i.recovery <;> simp_all [Waited.declines, declineMessages]
      · refine keeps_wp hm (fun _ _ => ⟨rfl, rfl⟩) fun i s m _ _ hm => ?_
        dsimp only [Program.ret_bind]
        split
        · refine keeps_wp hm (fun _ _ => ⟨rfl, rfl⟩) fun i s m _ _ hm => ?_
          exact ⟨hm, fun _ => rfl⟩
        · refine keeps_wp hm (fun _ _ => ⟨rfl, rfl⟩) fun i s m _ _ hm => ?_
          refine raises_wp (fun e hfault => ?_) fun hfault => ?_
          · exact Concluded.of_broken hm.current (hm.broken.trans (by simp [Breaks, hfault]))
          · have hm : Open job n m := by simpa [Breaks, hfault] using hm
            refine keeps_wp hm (fun _ _ => ⟨rfl, rfl⟩) fun i s m _ _ hm => ?_
            dsimp only [Program.ret_bind]
            split
            · exact ⟨hm, fun _ => rfl⟩
            · refine keeps_wp hm (fun _ _ => ⟨rfl, rfl⟩) fun i s m _ _ hm => ?_
              refine answers_wp (fun e hfault => ?_) fun hfault => ?_
              · dsimp only
                split
                · next htransport =>
                  have hm : Open job n m := by simpa [Breaks, hfault, htransport] using hm
                  exact keeps_wp hm (fun _ _ => ⟨rfl, rfl⟩) fun _ _ m _ _ hm => ih hm
                · next htransport =>
                  have hbroken : m.2 = true :=
                    hm.broken.trans (by simp [Breaks, hfault, htransport])
                  exact Concluded.of_broken hm.current hbroken
              · have hm : Open job n m := by simpa [Breaks, hfault] using hm
                exact keeps_wp hm (fun _ _ => ⟨rfl, rfl⟩) fun _ _ m _ _ hm => ih hm

-- Whether the job has ended, and if so how.
def Ends (job : ClaimedJob) (n : Nat) (o : Except Raised Bool) (m : AgentState × Bool) : Prop :=
  match o with
  | .ok false => Open job n m
  | .ok true | .error _ => Concluded job.id n m

theorem declineUnrecovered_wp {polls : Nat} (hm : Open job n m) :
    (declineUnrecovered config job source workerId polls).wp marked () reporting.marking
      (Ends job n) m := by
  refine keeps_wp hm (fun _ _ => ⟨rfl, rfl⟩) fun _ _ m _ _ hm => ?_
  dsimp only [Program.ret_bind]
  refine Program.wp_seq (recoverSourcePathWaiting_wp hm) (fun found m hm => ?_) fun _ _ hm => hm
  obtain ⟨waited, decline⟩ := found
  obtain ⟨hm, hmessage⟩ := hm
  dsimp only
  split
  · next hdeclines =>
    obtain ⟨message, hmessage⟩ := Option.isSome_iff_exists.mp (hmessage hdeclines)
    rw [hmessage]
    refine Program.wp_seq (deliver_early_wp (by simp) rfl hm) (fun _ m hm => ?_) fun _ m hm => ?_
    · refine Program.wp_seq (clear_wp hm.2) (fun _ m hm => ?_) fun _ _ hm => hm
      intro s hr _ i _
      refine ⟨trivial, ?_⟩
      have hs : Concluded job.id n s := hm.rely hr
      have hnext : Concluded job.id n (s.1, s.2 || false) := by simpa [Concluded] using hs
      exact raises_wp (fun _ _ => hnext) fun _ => hnext
    · exact Concluded.of_broken hm.1 hm.2
  · exact hm

theorem tryDedup_wp (hm : Open job n m) :
    (tryDedup job blake2b).wp marked () reporting.marking
      (fun o m => match o with
        | .ok none => Open job n m
        | .ok (some answer) =>
          if answer.outputSize = none then Concluded job.id n m else Open job n m
        | .error _ => Concluded job.id n m) m := by
  refine keeps_wp hm (fun _ _ => ⟨rfl, rfl⟩) fun i _ m _ _ hm => ?_
  refine answers_wp (fun e hfault => ?_) fun hfault => ?_
  · dsimp only
    split
    · next htransport =>
      have hm : Open job n m := by simpa [Breaks, hfault, htransport] using hm
      exact hm
    · next htransport =>
      have hbroken : m.2 = true := hm.broken.trans (by simp [Breaks, hfault, htransport])
      exact Concluded.of_broken hm.current hbroken
  · have hm : Stands job.id (some job.id) n
        (i.derivative.found && i.derivative.outputSize.isNone) m := by
      simpa [Breaks, hfault] using hm
    cases hfound : i.derivative.found with
    | false =>
      rw [hfound] at hm
      simp only [hfound, Bool.false_eq_true, if_false]
      exact hm
    | true =>
      rw [hfound, Bool.true_and] at hm
      simp only [hfound, if_true]
      cases hsize : i.derivative.outputSize with
      | none =>
        rw [hsize] at hm
        have hconcluded : Concluded job.id n m := Concluded.of_broken hm.current hm.broken
        simpa [hsize] using hconcluded
      | some size =>
        rw [hsize] at hm
        have hopen : Open job n m := hm
        simpa [hsize] using hopen

theorem completeByDedup_wp (hm : Open job n m) :
    (completeByDedup config job blake2b).wp marked () reporting.marking (Ends job n) m := by
  refine Program.wp_seq (tryDedup_wp hm) (fun answer m hm => ?_) fun _ _ hm => hm
  cases answer with
  | none => exact hm
  | some answer =>
    dsimp only at hm ⊢
    cases hsize : answer.outputSize with
    | none =>
      rw [if_pos hsize] at hm
      exact hm
    | some size =>
      rw [if_neg (by simp [hsize])] at hm
      refine Program.wp_seq (deliver_early_wp (by simp) rfl hm) (fun _ m hm => ?_) fun _ m hm => ?_
      · obtain ⟨hcurrent, hm⟩ := hm
        intro s hr _ i _
        refine ⟨trivial, ?_⟩
        have hs : Settled job.id n s := hm.rely hr
        refine raises_wp (fun e hfault => ?_) fun hfault => ?_
        · have hbroken : (s.2 || Breaks (.cleanup .dedup) i) = true := by simp [Breaks, hfault]
          exact Concluded.of_broken (hr.1.1.trans hcurrent) hbroken
        · have hnext : Settled job.id n (s.1, s.2 || Breaks (.cleanup .dedup) i) := by
            simpa [Settled, Breaks, hfault] using hs
          exact Program.wp_seq (clear_wp hnext) (fun _ _ hm => hm) fun _ _ hm => hm
      · exact Concluded.of_broken hm.1 hm.2

end Early

theorem processWith_wp {polls : Nat} (hbucket : job.backendType = "s3" → job.s3Bucket ≠ "")
    (hm : Open job n m) :
    (processWith config job safetyMean safetyPerc5 blake2b polls workerId codec backend).wp marked ()
      reporting.marking (fun _ m => Concluded job.id n m) m := by
  refine Program.wp_seq (getBackendForJob_wp hbucket hm) (fun _ m hm => ?_) fun _ _ hm => hm
  split
  · refine Program.wp_seq (completeByDedup_wp hm) (fun ended m hm => ?_) fun _ _ hm => hm
    cases ended with
    | true => exact hm
    | false => exact fetchAndEncode_wp hm
  · refine Program.wp_seq (declineUnrecovered_wp hm) (fun ended m hm => ?_) fun _ _ hm => hm
    cases ended with
    | true => exact hm
    | false => exact fetchAndEncode_wp hm

-- The worker is registered, and the library of an S3 job has a bucket.
def Equipped (config : AgentConfig) (job : ClaimedJob) : Prop :=
  config.workerId ≠ none ∧
    (resolveBackend config (codecOf job) ≠ none → job.backendType = "s3" → job.s3Bucket ≠ "")

theorem processJob_wp {polls : Nat} {s : AgentState} (hequipped : Equipped config job) :
    (processJob config job safetyMean safetyPerc5 blake2b polls).wp marked () reporting.marking
      (fun _ m => Concluded job.id (terminalReports job.id s.delivered) m) (s, false) := by
  obtain ⟨hworker, hbucket⟩ := hequipped
  unfold processJob
  split
  · next hnone => exact absurd hnone hworker
  · intro m hr _ i _
    have hreports : terminalReports job.id m.1.delivered = terminalReports job.id s.delivered :=
      congrArg _ hr.1.2.1
    have hbroken : (m.2 || false) = false := by rw [hr.2, Bool.or_false]
    have hbegun : Open job (terminalReports job.id s.delivered)
        (marked.next () (.begin job.id) i m) := ⟨rfl, hreports, hbroken⟩
    refine ⟨trivial, ?_⟩
    beta_reduce
    rw [Program.ret_bind]
    split
    · refine Program.wp_seq (deliver_early_wp (by simp) rfl hbegun) (fun _ m hm => clear_wp hm.2)
        fun _ m hm => ?_
      exact Concluded.of_broken hm.1 hm.2
    · next hbackend =>
      exact processWith_wp (fun hs3 => hbucket (by simp [hbackend]) hs3) hbegun

theorem processJob_unequipped_wp {polls : Nat} {s : AgentState} (h : ¬ Equipped config job) :
    (processJob config job safetyMean safetyPerc5 blake2b polls).wp handler () reporting
      (fun _ s' => terminalReports job.id s'.delivered = terminalReports job.id s.delivered) s := by
  unfold processJob
  split
  · rfl
  · next workerId hworker =>
    intro s₁ hr _ i _
    refine ⟨trivial, ?_⟩
    have hbucket : resolveBackend config (codecOf job) ≠ none ∧ job.backendType = "s3" ∧
        job.s3Bucket = "" := by
      simpa [Equipped, hworker] using h
    obtain ⟨backend, hbackend⟩ := Option.ne_none_iff_exists'.mp hbucket.1
    beta_reduce
    rw [Program.ret_bind, hbackend]
    simp only [processWith, getBackendForJob, hbucket.2.1, hbucket.2.2, if_true]
    exact congrArg _ hr.2.1

def ReportedOnce (job : ClaimedJob) (s s' : AgentState) : Prop :=
  s'.currentJobId = none ∧
    terminalReports job.id s'.delivered = terminalReports job.id s.delivered + 1

abbrev AgentCall := CallRecord Call AgentState Input

theorem job_reported_once {polls : Nat} {s s' : AgentState} {es : List AgentCall}
    {left : Agent Unit} {o : Except Raised Unit}
    (hexec : Exec handler () Meanwhile
      (processJob config job safetyMean safetyPerc5 blake2b polls) s es left s')
    (hleft : left.outcome = some o) (hrequested : ∀ e ∈ es, Requested e.op e.input e.pre) :
    ReportedOnce job s s' ↔
      Equipped config job ∧ ∀ e ∈ es, Breaks e.op e.input = false := by
  by_cases hequipped : Equipped config job
  · have hconcluded := Exec.marked_post (C := reporting) hexec (processJob_wp hequipped) hrequested
      hleft
    simpa [Concluded, hequipped, ReportedOnce] using hconcluded
  · have hsame := Exec.outcome_post (C := reporting) hexec (processJob_unequipped_wp hequipped)
      hrequested hleft
    simp [hequipped, ReportedOnce, hsame]

section Sample

def sampleConfig : AgentConfig where
  workerId := some "worker"
  capabilities := some [("hevc", "cpu")]

def sampleClaim : ClaimedJob where
  id := "job"
  sourcePath := "/media/film.mkv"

abbrev SampleRun := List AgentCall × Agent Unit × AgentState

def sampleRun (inputs : List Input) : Option SampleRun :=
  (processJob sampleConfig sampleClaim none none id 1).drive handler () inputs {}

theorem sampleRun_exec {inputs : List Input} {r : SampleRun} (h : sampleRun inputs = some r) :
    Exec handler () Meanwhile (processJob sampleConfig sampleClaim none none id 1) {} r.1 r.2.1
      r.2.2 :=
  Exec.drive (fun _ => ⟨rfl, rfl, id⟩) h

theorem requested_of_uncancelled {es : List AgentCall}
    (h : es.all (fun e => !e.input.fault.any (·.kind = .cancelled)) = true) :
    ∀ e ∈ es, Requested e.op e.input e.pre := by
  intro e he hcancelled
  have hno := List.all_eq_true.mp h e he
  rw [hcancelled] at hno
  cases hno

def encoded : SampleRun := (sampleRun (List.replicate 12 {})).get (by decide +kernel)

theorem job_reported_once_encoded : ReportedOnce sampleClaim {} encoded.2.2 ↔
    Equipped sampleConfig sampleClaim ∧ ∀ e ∈ encoded.1, Breaks e.op e.input = false := by
  have hleft : encoded.2.1.outcome = some (.ok ()) := by decide +kernel
  exact job_reported_once (sampleRun_exec (Option.some_get _).symm) hleft
    (requested_of_uncancelled (by decide +kernel))

def unrecovered : SampleRun :=
  (sampleRun [{}, {}, {}, { fault := some { kind := .os } }]).get (by decide +kernel)

-- The share of the source answers with an error before the `try` is entered.
theorem not_job_reported_once :
    ¬ ∀ (config : AgentConfig) (job : ClaimedJob) (safetyMean safetyPerc5 : Option Rat)
      (blake2b : List Char → List Char) (polls : Nat) (s s' : AgentState) (es : List AgentCall)
      (left : Agent Unit) (o : Except Raised Unit), config.workerId ≠ none →
      Exec handler () Meanwhile (processJob config job safetyMean safetyPerc5 blake2b polls) s es
        left s' → left.outcome = some o → (∀ e ∈ es, Requested e.op e.input e.pre) →
      ReportedOnce job s s' := by
  intro h
  have hleft : unrecovered.2.1.outcome = some (.error { kind := .os }) := by decide +kernel
  have hreported : ReportedOnce sampleClaim {} unrecovered.2.2 :=
    h sampleConfig sampleClaim none none id 1 {} _ _ _ _ (by decide)
      (sampleRun_exec (Option.some_get _).symm) hleft
      (requested_of_uncancelled (by decide +kernel))
  have hcurrent : unrecovered.2.2.currentJobId = some "job" := by decide +kernel
  exact absurd (hcurrent.symm.trans hreported.1) (by decide)

end Sample

end TranscodeForge.ProcessJob
