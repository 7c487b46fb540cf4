import TranscodeForge.Agent.ProcessJob

namespace TranscodeForge.ProcessJob

open Interaction Derivative Filesystem

def terminalReports (jobId : String) (reports : List Report) : Nat :=
  reports.countP fun r => r.jobId = jobId && r.kind.isTerminal

-- While a call is awaited, the heartbeat and the signal handler may ask for an abort.
def Meanwhile (s s' : AgentState) : Prop :=
  s'.currentJobId = s.currentJobId ∧ s'.delivered = s.delivered ∧
    (s.abortRequested = true → s'.abortRequested = true)

-- The worker cancels its pipeline when it was asked to abort, and cuts short the delivery of
-- the abort report; nothing else is cancelled.
def Requested (c : Call) (i : Input) (s : AgentState) : Prop :=
  i.fault.any (·.kind = .cancelled) = true →
    match c with
    | .runPipeline _ => s.abortRequested = true
    | .sendReport site _ | .drain site _ => site = .aborted
    | _ => False

def breaksAppend (site : Site) (e : Raised) : Bool :=
  match site with
  | .outcome => e.kind == .exit
  | _ => e.kind != .os

def breaksSend (kind : Milestone) (e : Raised) : Bool := kind.isTerminal || e.kind == .exit

def breaksDrain (site : Site) (kind : Milestone) (e : Raised) : Bool :=
  match site with
  | .noBackend | .declined | .dedup | .fetchFailed => e.kind == .exit
  | .outcome => !kind.isTerminal && e.kind == .exit
  | .handler | .aborted | .finished => false

-- The answers of the collaborators that `_process_job` does not survive with the job reported.
def Breaks (c : Call) (i : Input) : Bool :=
  match c with
  | .getBackend _ _ _ | .recoverSourcePath _ _ | .lockHolder _ => i.fault.isSome
  | .progress _ _ _ => i.fault.any fun e => !e.isTransport
  | .checkDerivative _ _ =>
    i.fault.any (fun e => !e.isTransport) ||
      i.fault.isNone && i.derivative.found && i.derivative.outputSize.isNone
  | .fetch _ | .runPipeline _ | .commit _ _ _ => i.fault.any fun e => e.kind == .exit
  | .append site _ => i.fault.any (breaksAppend site)
  | .sendReport _ report => i.fault.any (breaksSend report.kind)
  | .drain site report => i.fault.any (breaksDrain site report.kind)
  | .cleanup site => site == .dedup && i.fault.isSome
  | _ => false

abbrev reporting : Contract Call AgentState Input where
  rely := Meanwhile
  assume := Requested
  guar _ _ _ _ := True

abbrev marked : Handler Unit Call Call.Answer (AgentState × Bool) Input := handler.marking Breaks

section Assertions

variable (jobId : String)

structure Stands (current : Option String) (n : Nat) (broken : Bool) (m : AgentState × Bool) :
    Prop where
  current : m.1.currentJobId = current
  reports : terminalReports jobId m.1.delivered = n
  broken : m.2 = broken

def Settled (n : Nat) (m : AgentState × Bool) : Prop :=
  terminalReports jobId m.1.delivered = n + 1 ↔ m.2 = false

def Concluded (n : Nat) (m : AgentState × Bool) : Prop :=
  m.1.currentJobId = none ∧ terminalReports jobId m.1.delivered = n + 1 ↔ m.2 = false

variable {jobId} {current : Option String} {n : Nat} {broken : Bool} {m m' : AgentState × Bool}

theorem Stands.rely (h : Stands jobId current n broken m) (hr : reporting.marking.rely m m') :
    Stands jobId current n broken m' :=
  ⟨hr.1.1.trans h.current, by rw [hr.1.2.1, h.reports], hr.2.trans h.broken⟩

theorem Settled.rely (h : Settled jobId n m) (hr : reporting.marking.rely m m') :
    Settled jobId n m' := by
  rw [Settled, hr.1.2.1, hr.2]
  exact h

theorem Concluded.rely (h : Concluded jobId n m) (hr : reporting.marking.rely m m') :
    Concluded jobId n m' := by
  rw [Concluded, hr.1.1, hr.1.2.1, hr.2]
  exact h

theorem Stands.settled (h : Stands jobId current (n + 1) false m ∨ Stands jobId current n true m) :
    Settled jobId n m := by
  rcases h with h | h
  · simp [Settled, h.reports, h.broken]
  · simp [Settled, h.reports, h.broken]

theorem Settled.concluded (h : Settled jobId n m) (hcurrent : m.1.currentJobId = none) :
    Concluded jobId n m := by
  simpa [Concluded, hcurrent, Settled] using h

theorem Concluded.of_broken {id : String} (hcurrent : m.1.currentJobId = some id)
    (hbroken : m.2 = true) : Concluded jobId n m := by
  simp [Concluded, hcurrent, hbroken]

end Assertions

section Calls

variable {jobId : String} {current : Option String} {n : Nat} {broken : Bool}
variable {m : AgentState × Bool} {α : Type} {c : Call} {k : c.Answer → Agent α}
variable {Q : Except Raised α → AgentState × Bool → Prop}

def Keeps (c : Call) : Prop :=
  ∀ i s, (exec () c i s).1.currentJobId = s.currentJobId ∧ (exec () c i s).1.delivered = s.delivered

theorem exec_abortRequested (c : Call) (i : Input) (s : AgentState) :
    (exec () c i s).1.abortRequested = s.abortRequested := by
  cases c
  case append site report =>
    simp only [exec, AgentState.deliver]
    split <;> rfl
  case sendReport site report =>
    simp only [exec, AgentState.deliver]
    split <;> rfl
  all_goals rfl

-- A call that leaves the job and its reports alone.
theorem keeps_wp (hm : Stands jobId current n broken m) (hkeeps : Keeps c)
    (hk : ∀ i s m', Requested c i s → s.abortRequested = m'.1.abortRequested →
      Stands jobId current n (broken || Breaks c i) m' →
      (k (handler.answer () c i s)).wp marked () reporting.marking Q m') :
    (Program.call c k).wp marked () reporting.marking Q m := by
  intro s hr _ i hassume
  refine ⟨trivial, hk i s.1 _ hassume (exec_abortRequested c i s.1).symm ?_⟩
  have hs := hm.rely hr
  have hkept := hkeeps i s.1
  exact ⟨hkept.1.trans hs.current, (congrArg _ hkept.2).trans hs.reports,
    congrArg (· || Breaks c i) hs.broken⟩

theorem terminalReports_append (reports : List Report) (report : Report) :
    terminalReports report.jobId (reports ++ [report]) =
      terminalReports report.jobId reports + if report.kind.isTerminal then 1 else 0 := by
  simp [terminalReports, List.countP_append, List.countP_cons]

-- `append` and `sendReport`: the call raises, or the report is in.
theorem reports_wp {report : Report} {breaks : Raised → Bool} {k : Except Raised Unit → Agent α}
    (hm : Stands report.jobId current n false m) (i : Input)
    (herror : ∀ e m', i.fault = some e → Stands report.jobId current n (breaks e) m' →
      (k (.error e)).wp marked () reporting.marking Q m')
    (hok : ∀ m', Stands report.jobId current (n + if report.kind.isTerminal then 1 else 0) false m' →
      (k (.ok ())).wp marked () reporting.marking Q m') :
    (k (i.answers ())).wp marked () reporting.marking Q
      (m.1.deliver i report, m.2 || i.fault.any breaks) := by
  cases hfault : i.fault with
  | some e =>
    have hdeliver : m.1.deliver i report = m.1 := by simp [AgentState.deliver, hfault]
    have hanswer : i.answers () = (.error e : Except Raised Unit) := by simp [Input.answers, hfault]
    rw [hanswer, hdeliver]
    refine herror e _ hfault ⟨hm.current, hm.reports, ?_⟩
    simp [hm.broken]
  | none =>
    have hdeliver : m.1.deliver i report =
        { m.1 with delivered := m.1.delivered ++ [report] } := by
      simp [AgentState.deliver, hfault]
    have hanswer : i.answers () = (.ok () : Except Raised Unit) := by simp [Input.answers, hfault]
    rw [hanswer, hdeliver]
    refine hok _ ⟨hm.current, ?_, ?_⟩
    · rw [terminalReports_append, hm.reports]
    · simp [hm.broken]

theorem append_wp {site : Site} {report : Report} {k : Except Raised Unit → Agent α}
    (hm : Stands report.jobId current n false m)
    (herror : ∀ e m', e.kind ≠ .cancelled →
      Stands report.jobId current n (breaksAppend site e) m' →
      (k (.error e)).wp marked () reporting.marking Q m')
    (hok : ∀ m', Stands report.jobId current (n + if report.kind.isTerminal then 1 else 0) false m' →
      (k (.ok ())).wp marked () reporting.marking Q m') :
    (Program.call (.append site report) k).wp marked () reporting.marking Q m := by
  intro s hr _ i hassume
  refine ⟨trivial, reports_wp (hm.rely hr) i (fun e s hfault hs => herror e s ?_ hs) hok⟩
  intro hkind
  exact hassume (by simp [hfault, hkind])

theorem sendReport_wp {site : Site} {report : Report} {k : Except Raised Unit → Agent α}
    (hm : Stands report.jobId current n false m)
    (herror : ∀ e m', (e.kind = .cancelled → site = .aborted) →
      Stands report.jobId current n (breaksSend report.kind e) m' →
      (k (.error e)).wp marked () reporting.marking Q m')
    (hok : ∀ m', Stands report.jobId current (n + if report.kind.isTerminal then 1 else 0) false m' →
      (k (.ok ())).wp marked () reporting.marking Q m') :
    (Program.call (.sendReport site report) k).wp marked () reporting.marking Q m := by
  intro s hr _ i hassume
  refine ⟨trivial, reports_wp (hm.rely hr) i (fun e s hfault hs => herror e s ?_ hs) hok⟩
  intro hkind
  exact hassume (by simp [hfault, hkind])

-- A call that either raises or answers, leaving the job and its reports alone.
theorem answers_wp {β : Type} {k : Except Raised β → Agent α} {i : Input} {b : β}
    (herror : ∀ e, i.fault = some e → (k (.error e)).wp marked () reporting.marking Q m)
    (hok : i.fault = none → (k (.ok b)).wp marked () reporting.marking Q m) :
    ((Program.ret (i.answers b)).bind k).wp marked () reporting.marking Q m := by
  unfold Input.answers
  cases hfault : i.fault with
  | some e => exact herror e hfault
  | none => exact hok hfault

theorem raises_wp {β : Type} {k : β → Agent α} {i : Input} {b : β}
    (herror : ∀ e, i.fault = some e → Q (.error e) m)
    (hok : i.fault = none → (k b).wp marked () reporting.marking Q m) :
    (((Program.ret (i.answers b)).bind Program.ofExcept).bind k).wp marked () reporting.marking
      Q m := by
  unfold Input.answers
  cases hfault : i.fault with
  | some e => exact herror e hfault
  | none => exact hok hfault

end Calls

section Deliveries

variable {config : AgentConfig} {job : ClaimedJob} {site : Site} {kind : Milestone}
variable {payload : Payload} {current : Option String} {n : Nat} {m : AgentState × Bool}

-- How a delivery ends: the report is in, it is lost, or the delivery raises.
def Delivery (jobId : String) (site : Site) (kind : Milestone) (current : Option String) (n : Nat)
    (o : Except Raised Unit) (m : AgentState × Bool) : Prop :=
  match o with
  | .ok () =>
    Stands jobId current (n + if kind.isTerminal then 1 else 0) false m ∨
      Stands jobId current n kind.isTerminal m
  | .error e =>
    e.kind ≠ .os ∧ e.kind ≠ .cancelled ∧ Stands jobId current n (breaksAppend site e) m ∨
      (e.kind = .exit ∨ e.kind = .cancelled ∧ site = .aborted) ∧
        (Stands jobId current n (breaksSend kind e) m ∨
          Stands jobId current (n + if kind.isTerminal then 1 else 0) (breaksDrain site kind e) m)

theorem of_isException {e : Raised} (h : e.isException = true) :
    e.kind ≠ .cancelled ∧ e.kind ≠ .exit := by
  simpa [Raised.isException] using h

theorem ends {e : Raised} {site : Site} (hcancel : e.kind = .cancelled → site = .aborted)
    (h : e.kind = .exit ∨ e.kind = .cancelled) :
    e.kind = .exit ∨ e.kind = .cancelled ∧ site = .aborted := by
  rcases h with h | h
  · exact .inl h
  · exact .inr ⟨h, hcancel h⟩

theorem not_isException {e : Raised} (h : e.isException ≠ true) :
    e.kind = .exit ∨ e.kind = .cancelled := by
  cases hkind : e.kind <;> simp_all [Raised.isException]

theorem deliver_wp (hm : Stands job.id current n false m) :
    (deliver config job site kind payload).wp marked () reporting.marking
      (Delivery job.id site kind current n) m := by
  refine append_wp hm (fun e s hcancel hs => ?_) fun s hs => ?_
  · dsimp only [Program.ret_bind]
    split
    · next hos =>
      have hunbroken : breaksAppend site e = false := by
        cases site <;> simp [breaksAppend, hos]
      rw [hunbroken] at hs
      refine sendReport_wp hs (fun e s hcancel hs => ?_) fun s hs => .inl hs
      dsimp only [Program.ret_bind]
      split
      · next hexception =>
        have hlost : breaksSend kind e = kind.isTerminal := by
          simp [breaksSend, (of_isException hexception).2]
        exact .inr (hlost ▸ hs)
      · next hexception => exact .inr ⟨ends hcancel (not_isException hexception), .inl hs⟩
    · next hos => exact .inl ⟨hos, hcancel, hs⟩
  · refine keeps_wp hs (fun _ _ => ⟨rfl, rfl⟩) fun i _ s hassume _ hs => ?_
    have hs : Stands job.id current (n + if kind.isTerminal then 1 else 0)
        (i.fault.any (breaksDrain site kind)) s := hs
    refine answers_wp (fun e hfault => ?_) fun hfault => ?_
    · have hcancel : e.kind = .cancelled → site = .aborted := fun hkind =>
        hassume (by simp [hfault, hkind])
      rw [hfault, Option.any_some] at hs
      dsimp only [Program.ret_bind]
      split
      · next hexception =>
        have hunbroken : breaksDrain site kind e = false := by
          cases site <;> simp [breaksDrain, (of_isException hexception).2]
        exact .inl (hunbroken ▸ hs)
      · next hexception => exact .inr ⟨ends hcancel (not_isException hexception), .inr hs⟩
    · rw [hfault, Option.any_none] at hs
      exact .inl hs

-- A delivery outside the `try` either returns or breaks.
theorem deliver_early_wp (hsite : site = .noBackend ∨ site = .declined ∨ site = .dedup ∨
      site = .fetchFailed) (hkind : kind.isTerminal = true)
    (hm : Stands job.id current n false m) :
    (deliver config job site kind payload).wp marked () reporting.marking
      (fun o m => m.1.currentJobId = current ∧ match o with
        | .ok () => Settled job.id n m
        | .error _ => m.2 = true) m := by
  refine Program.wp_mono (deliver_wp hm) fun o s hs => ?_
  unfold Delivery at hs
  simp only [hkind, if_true] at hs
  cases o with
  | ok _ =>
    refine ⟨?_, Stands.settled hs⟩
    rcases hs with hs | hs
    · exact hs.current
    · exact hs.current
  | error e =>
    rcases hs with ⟨hos, _, hs⟩ | ⟨hends, hs | hs⟩
    · have hbroken : breaksAppend site e = true := by
        rcases hsite with rfl | rfl | rfl | rfl <;> simp [breaksAppend, hos]
      exact ⟨hs.current, hs.broken.trans hbroken⟩
    · exact ⟨hs.current, hs.broken.trans (by simp [breaksSend, hkind])⟩
    · have hbroken : breaksDrain site kind e = true := by
        rcases hends with hexit | ⟨_, habort⟩
        · rcases hsite with rfl | rfl | rfl | rfl <;> simp [breaksDrain, hexit]
        · rw [habort] at hsite
          simp at hsite
      exact ⟨hs.current, hs.broken.trans hbroken⟩

-- A delivery in a handler of the `try` counts even if it raises.
theorem deliver_handler_wp (hsite : site = .handler ∨ site = .aborted)
    (hkind : kind.isTerminal = true) (hm : Stands job.id current n false m) :
    (deliver config job site kind payload).wp marked () reporting.marking
      (fun _ m => Settled job.id n m) m := by
  refine Program.wp_mono (deliver_wp hm) fun o s hs => ?_
  unfold Delivery at hs
  simp only [hkind, if_true] at hs
  cases o with
  | ok _ => exact Stands.settled hs
  | error e =>
    rcases hs with ⟨hos, _, hs⟩ | ⟨_, hs | hs⟩
    · have hbroken : breaksAppend site e = true := by
        rcases hsite with rfl | rfl <;> simp [breaksAppend, hos]
      exact Stands.settled (.inr (hbroken ▸ hs))
    · have hbroken : breaksSend kind e = true := by simp [breaksSend, hkind]
      exact Stands.settled (.inr (hbroken ▸ hs))
    · have hunbroken : breaksDrain site kind e = false := by
        rcases hsite with rfl | rfl <;> rfl
      exact Stands.settled (.inl (hunbroken ▸ hs))

-- A delivery in the `try` that raises an Exception leaves the report to a handler.
theorem deliver_outcome_wp (hm : Stands job.id current n false m) :
    (deliver config job .outcome kind payload).wp marked () reporting.marking
      (fun o m => match o with
        | .ok () => if kind.isTerminal then Settled job.id n m else Stands job.id current n false m
        | .error e => e.isException = true ∧ Stands job.id current n false m ∨
            e.kind = .exit ∧ Settled job.id n m) m := by
  refine Program.wp_mono (deliver_wp hm) fun o s hs => ?_
  unfold Delivery at hs
  cases o with
  | ok _ =>
    cases hkind : kind.isTerminal with
    | true =>
      simp only [hkind, if_true] at hs
      exact Stands.settled hs
    | false => simpa [hkind] using hs
  | error e =>
    rcases hs with ⟨hos, hcancel, hs⟩ | ⟨hends, hs⟩
    · by_cases hexit : e.kind = .exit
      · have hbroken : breaksAppend .outcome e = true := by simp [breaksAppend, hexit]
        exact .inr ⟨hexit, Stands.settled (.inr (hbroken ▸ hs))⟩
      · have hunbroken : breaksAppend .outcome e = false := by simp [breaksAppend, hexit]
        exact .inl ⟨by simp [Raised.isException, hcancel, hexit], hunbroken ▸ hs⟩
    · have hexit : e.kind = .exit := by simpa using hends
      refine .inr ⟨hexit, ?_⟩
      rcases hs with hs | hs
      · have hbroken : breaksSend kind e = true := by simp [breaksSend, hexit]
        exact Stands.settled (.inr (hbroken ▸ hs))
      · cases hkind : kind.isTerminal with
        | true =>
          have hunbroken : breaksDrain .outcome kind e = false := by simp [breaksDrain, hkind]
          simp only [hkind, if_true] at hs
          exact Stands.settled (.inl (hunbroken ▸ hs))
        | false =>
          have hbroken : breaksDrain .outcome kind e = true := by simp [breaksDrain, hkind, hexit]
          simp only [hkind, Bool.false_eq_true, if_false, Nat.add_zero] at hs
          exact Stands.settled (.inr (hbroken ▸ hs))

end Deliveries

end TranscodeForge.ProcessJob
