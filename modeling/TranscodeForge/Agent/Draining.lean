import TranscodeForge.Agent.Aborts

namespace TranscodeForge.AgentLoops

open Interaction Derivative Outbox
open ProcessJob (AgentState AgentConfig Raised)

section Steps

variable {t : Loop} {c : Call} {i : Input} {w : Worker}

theorem next_shuttingDown (h : w.agent.shuttingDown = true) :
    (handler.next t c i w).agent.shuttingDown = true := by
  cases c with
  | clearConsumedAbort =>
    change w.clearConsumedAbort.agent.shuttingDown = true
    simp [Worker.clearConsumedAbort, h]
  | fence fenceAfter lastContact fenced =>
    change (w.fence fenceAfter lastContact fenced).1.agent.shuttingDown = true
    unfold Worker.fence
    split <;> exact h
  | handleShutdown =>
    change w.handleShutdown.agent.shuttingDown = true
    unfold Worker.handleShutdown
    rw [h, Bool.true_and]
    split
    · exact h
    · rw [if_pos rfl]
      exact h
  | _ => exact (next_plain (by trivial)).shuttingDown.trans h

-- The one call that makes a job current, and those that make none current.
theorem exec_current (c : ProcessJob.Call) (i : ProcessJob.Input) (s : AgentState)
    (hc : ProcessJob.Inner c) :
    (ProcessJob.exec () c i s).1.currentJobId = s.currentJobId ∨
      (ProcessJob.exec () c i s).1.currentJobId = none := by
  cases c
  case begin => exact hc.elim
  case clear => exact .inr rfl
  case finish => exact .inr rfl
  case append site report =>
    left
    simp only [ProcessJob.exec, AgentState.deliver]
    split <;> rfl
  case sendReport site report =>
    left
    simp only [ProcessJob.exec, AgentState.deliver]
    split <;> rfl
  all_goals exact .inl rfl

theorem next_current (hc : c.begins = false) :
    (handler.next t c i w).agent.currentJobId = w.agent.currentJobId ∨
      (handler.next t c i w).agent.currentJobId = none := by
  cases c with
  | job c =>
    refine exec_current c i.toInput w.agent ?_
    cases c <;> trivial
  | claimJob workerId =>
    left
    simp only [Handler.next, handler, exec]
    split <;> rfl
  | clearConsumedAbort =>
    left
    simp only [Handler.next, handler, exec, Worker.clearConsumedAbort]
    split <;> rfl
  | fence fenceAfter lastContact fenced =>
    left
    simp only [Handler.next, handler, exec, Worker.fence]
    split <;> rfl
  | handleShutdown =>
    left
    simp only [Handler.next, handler, exec, Worker.handleShutdown]
    split
    · rfl
    · split <;> rfl
  | _ => exact .inl rfl

theorem begins_current (hc : c.begins = true) :
    ∃ id, c = .job (.begin id) ∧ (handler.next t c i w).agent.currentJobId = some id := by
  cases c with
  | job c =>
    cases c with
    | begin id => exact ⟨id, rfl, rfl⟩
    | _ => cases hc
  | _ => cases hc

theorem leaves_next {t : Loop} {e : Event} (h : Leaves e) :
    handler.next t e.op e.input e.pre = e.pre := by
  rcases (leaves_cases h).2 with hop | ⟨hop, -⟩
  · rw [hop]
    rfl
  · rw [hop]
    rfl

end Steps

section Runs

variable {config : LoopConfig} {w : Worker} {es xs ys : List WorkerCall} {e f : WorkerCall}
variable {d : Config Loop Nat Call Call.Answer Worker Raised Unit}

-- Once a signal has come the worker stays shutting down.
theorem run_shutting (h : WorkerRun config w es d) :
    (∀ xs e ys, es = xs ++ e :: ys → ∀ f ∈ xs, f.pre.agent.shuttingDown = true →
      e.pre.agent.shuttingDown = true) ∧
    ∀ f ∈ es, f.pre.agent.shuttingDown = true → d.state.agent.shuttingDown = true := by
  refine h.history_invariant
    (P := fun (w : Worker) (es : List WorkerCall) =>
      ∀ f ∈ es, f.pre.agent.shuttingDown = true → w.agent.shuttingDown = true)
    (A := fun _ _ => True) (fun _ _ _ _ => trivial) (fun f hf => by cases hf)
    (fun t r w w' es hw hs f hf hshutting => ?_) (fun _ _ _ hw => hw)
    fun e es hpost _ hw f hf hshutting => ?_
  · rw [(start_agent (r := r) hs).1]
    exact hw f hf hshutting
  · rw [hpost]
    refine next_shuttingDown ?_
    rcases List.mem_append.mp hf with hf | hf
    · exact hw f hf hshutting
    · rwa [List.mem_singleton.mp hf] at hshutting

theorem late_calls (h : WorkerRun config w es d) (heq : es = xs ++ e :: ys)
    (hshutting : e.pre.agent.shuttingDown = true) :
    ∀ g ∈ e :: ys, g.pre.agent.shuttingDown = true := by
  intro g hg
  rcases List.mem_cons.mp hg with rfl | hg
  · exact hshutting
  · obtain ⟨us, vs, rfl⟩ := List.append_of_mem hg
    exact (run_shutting h).1 (xs ++ e :: us) g vs (by simp [heq]) e (by simp) hshutting

-- The round in flight when a signal came is the last one to begin a job, and begins at most one.
theorem entered_before (h : WorkerRun config w es d) {us : List WorkerCall} (heq : es = xs ++ e :: ys)
    (hus : us <+: e :: ys) (hshutting : e.pre.agent.shuttingDown = true)
    (hentered : Entered ((xs ++ us).map ThreadCall.entry)) :
    Entered (xs.map ThreadCall.entry) ∧ ∀ g ∈ us, g.thread = .jobs → g.op.begins = false := by
  rw [List.map_append] at hentered
  obtain ⟨hbefore, hquiet⟩ := Since.before hentered fun _ g hg hrunning => by
    obtain ⟨f, hf, rfl⟩ := List.mem_map.mp hg
    have hgoes : f.pre.agent.shuttingDown = false := hrunning.2.2
    rw [late_calls h heq hshutting f (hus.subset hf)] at hgoes
    cases hgoes
  exact ⟨hbefore, fun g hg => hquiet _ (List.mem_map_of_mem hg)⟩

theorem run_by (h : WorkerRun config w es d) : ∀ e ∈ es, e.op.By e.thread :=
  (h.calls (A := fun t _ => Call.By t) fun t r _ _ _ => body_by t r).1

-- However many signals come, at most one job begins after the first.
theorem one_late_job (h : WorkerRun config w es d) (hw : w.Fresh)
    (hcancels : ∀ e ∈ es, OnlyRequested e.toCallRecord) :
    Once (fun e => e.op.begins = true ∧ e.pre.agent.shuttingDown = true) es := by
  intro xs e ys e' zs heq hlate hlate'
  have hsplit : es = xs ++ e :: (ys ++ e' :: zs) := by simp [heq]
  have hentered := (run_checked h hw hcancels (xs ++ e :: ys) e' zs heq).entered hlate'.1
  have hquiet := (entered_before h hsplit (List.prefix_append (e :: ys) _) hlate.2 hentered).2 e
    List.mem_cons_self (by_jobs (run_by h e (by simp [heq])) (.inl hlate.1))
  rw [hlate.1] at hquiet
  cases hquiet

theorem leaves_idle (hby : e.op.By e.thread) (hthread : e.thread = .heartbeats)
    (hleaves : Leaves e.toCallRecord) : e.pre.agent.currentJobId = none := by
  rcases (leaves_cases hleaves).2 with hrunning | ⟨-, hnone⟩
  · have hjobs := by_jobs hby (.inr (.inr hrunning))
    rw [hthread] at hjobs
    cases hjobs
  · exact hnone

theorem over_of_mem (he : e ∈ xs) (hleaves : Leaves e.toCallRecord) :
    Over e.thread (xs.map ThreadCall.entry) :=
  ⟨ThreadCall.entry e, List.mem_map_of_mem he, rfl, hleaves⟩

-- A job that is current with the heartbeat loop over began after that, and is the last one.
def BegunSince (w : Worker) (es : List WorkerCall) : Prop :=
  ∀ xs e ys, es = xs ++ e :: ys → e.thread = .heartbeats → Leaves e.toCallRecord →
    ∀ id, w.agent.currentJobId = some id →
      ∃ us b vs, ys = us ++ b :: vs ∧ b.op = .job (.begin id) ∧ ∀ g ∈ vs, g.op.begins = false

theorem begun_since (h : WorkerRun config w es d) : BegunSince d.state es := by
  refine (h.history_invariant (P := BegunSince) (A := fun _ e => e.op.By e.thread)
    (fun xs e ys heq => run_by h e (by simp [heq])) ?_ ?_ (fun _ _ _ hw => hw) ?_).2
  · intro xs e ys heq
    cases xs <;> cases heq
  · intro t r w w' es hw hs
    unfold BegunSince
    rw [(start_agent (r := r) hs).1]
    exact hw
  · intro e' es hpost hby hw xs e ys heq hthread hleaves id hcurrent
    rw [hpost] at hcurrent
    rcases eq_append_singleton_cases heq with ⟨-, -, rfl⟩ | ⟨zs, rfl, hes⟩
    · have hsame : (handler.next e'.thread e'.op e'.input e'.pre).agent.currentJobId = none := by
        rw [leaves_next hleaves]
        exact leaves_idle hby hthread hleaves
      exact absurd (hsame.symm.trans hcurrent) (by simp)
    · cases hbegins : e'.op.begins with
      | true =>
        obtain ⟨id', hbegin, hnow⟩ := begins_current (t := e'.thread) (i := e'.input) (w := e'.pre)
          hbegins
        obtain rfl : id' = id := Option.some.inj (hnow.symm.trans hcurrent)
        exact ⟨zs, e', [], rfl, hbegin, fun g hg => by cases hg⟩
      | false =>
        rcases next_current (t := e'.thread) (i := e'.input) (w := e'.pre) hbegins with hsame | hnone
        · obtain ⟨us, b, vs, rfl, hbegin, hquiet⟩ :=
            hw xs e zs hes hthread hleaves id (hsame.symm.trans hcurrent)
          refine ⟨us, b, vs ++ [e'], by simp, hbegin, fun g hg => ?_⟩
          rcases List.mem_append.mp hg with hg | hg
          · exact hquiet g hg
          · rwa [List.mem_singleton.mp hg]
        · exact absurd (hnone.symm.trans hcurrent) (by simp)

theorem unwatched_job (h : WorkerRun config w es d) (hw : w.Fresh)
    (hcancels : ∀ e ∈ es, OnlyRequested e.toCallRecord) :
    ∀ xs e ys, es = xs ++ e :: ys → e.thread = .heartbeats → Leaves e.toCallRecord →
      (∀ g ∈ ys, g.thread ≠ .heartbeats) ∧
      ∀ id, d.state.agent.currentJobId = some id → Entered (xs.map ThreadCall.entry) ∧
        ∃ us b vs, ys = us ++ b :: vs ∧ b.op = .job (.begin id) ∧
          ∀ g ∈ us ++ vs, g.op.begins = false := by
  intro xs e ys heq hthread hleaves
  have hshutting := (leaves_cases hleaves).1
  refine ⟨fun g hg hbeats => ?_, fun id hcurrent => ?_⟩
  · obtain ⟨us, vs, rfl⟩ := List.append_of_mem hg
    have hchecked := run_checked h hw hcancels (xs ++ e :: us) g vs (by simp [heq])
    refine hchecked.going (by simp [hbeats]) ?_
    rw [hbeats, ← hthread]
    exact over_of_mem (by simp) hleaves
  · obtain ⟨us, b, vs, rfl, hbegin, hquiet⟩ := begun_since h xs e ys heq hthread hleaves id hcurrent
    have hb : b.op.begins = true := by rw [hbegin]; rfl
    have hsplit : es = (xs ++ e :: us) ++ b :: vs := by simp [heq]
    have hlate := late_calls h heq hshutting
    have hentered := (run_checked h hw hcancels _ b vs hsplit).entered hb
    have hround := entered_before h heq (List.prefix_append (e :: us) _) hshutting hentered
    refine ⟨hround.1, us, b, vs, rfl, hbegin, fun g hg => ?_⟩
    rcases List.mem_append.mp hg with hg | hg
    · by_contra hbegins
      have hg' : g.op.begins = true := by simpa using hbegins
      have hjobs := by_jobs (run_by h g (by simp [heq, hg])) (.inl hg')
      have hnot := hround.2 g (List.mem_cons_of_mem _ hg) hjobs
      rw [hg'] at hnot
      cases hnot
    · exact hquiet g hg

-- What is current when the job loop ends stays current.
def Stuck (w : Worker) (es : List WorkerCall) : Prop :=
  ∀ xs e ys, es = xs ++ e :: ys → e.thread = .jobs → Leaves e.toCallRecord →
    w.agent.currentJobId = e.pre.agent.currentJobId

theorem run_stuck (h : WorkerRun config w es d) (hw : w.Fresh)
    (hcancels : ∀ e ∈ es, OnlyRequested e.toCallRecord) :
    (∀ xs e ys, es = xs ++ e :: ys → Stuck e.pre xs) ∧ Stuck d.state es := by
  have hchecked := run_checked h hw hcancels
  refine h.history_invariant (P := Stuck)
    (A := fun xs e => e.op.By e.thread ∧ Checked config e.thread e.op (e.pre, xs.map ThreadCall.entry))
    (fun xs e ys heq => ⟨run_by h e (by simp [heq]), hchecked xs e ys heq⟩) ?_ ?_
    (fun _ _ _ hw => hw) ?_
  · intro xs e ys heq
    cases xs <;> cases heq
  · intro t r w w' es hw hs
    unfold Stuck
    rw [(start_agent (r := r) hs).1]
    exact hw
  · intro e' es hpost ha hw xs e ys heq hjobs hleaves
    rw [hpost]
    rcases eq_append_singleton_cases heq with ⟨-, -, rfl⟩ | ⟨zs, rfl, hes⟩
    · exact congrArg (·.agent.currentJobId) (leaves_next hleaves)
    · have hne : e'.thread ≠ .jobs := fun hsame => by
        refine ha.2.going (by simp [hsame]) ?_
        rw [hsame, ← hjobs]
        exact over_of_mem (by simp [hes]) hleaves
      exact (next_outside (i := e'.input) (w := e'.pre) ha.1 hne).current.trans
        (hw xs e zs hes hjobs hleaves)

-- A worker whose job loop ends on a job that died never stops of its own accord.
theorem dead_job_never_stops (h : WorkerRun config w es d) (hw : w.Fresh)
    (hcancels : ∀ e ∈ es, OnlyRequested e.toCallRecord) :
    ∀ xs e ys, es = xs ++ e :: ys → e.thread = .jobs → Leaves e.toCallRecord →
      e.pre.agent.currentJobId ≠ none →
        Dead config (xs.map ThreadCall.entry) ∧
          d.state.agent.currentJobId = e.pre.agent.currentJobId ∧
          ∀ g ∈ ys, g.thread ≠ .jobs ∧ ¬Leaves g.toCallRecord := by
  intro xs e ys heq hjobs hleaves hcurrent
  obtain ⟨hstuck, hlast⟩ := run_stuck h hw hcancels
  have hop : e.op = .running := by
    have hby := run_by h e (by simp [heq])
    rcases (leaves_cases hleaves).2 with hrunning | ⟨hbeating, -⟩
    · exact hrunning
    · rw [hjobs, hbeating] at hby
      exact hby.elim
  refine ⟨(run_checked h hw hcancels xs e ys heq).cleared hop hcurrent,
    hlast xs e ys heq hjobs hleaves, fun g hg => ?_⟩
  obtain ⟨us, vs, rfl⟩ := List.append_of_mem hg
  have hsplit : es = (xs ++ e :: us) ++ g :: vs := by simp [heq]
  have hne : g.thread ≠ .jobs := fun hsame => by
    refine (run_checked h hw hcancels _ g vs hsplit).going (by simp [hsame]) ?_
    rw [hsame, ← hjobs]
    exact over_of_mem (by simp) hleaves
  refine ⟨hne, fun hends => ?_⟩
  rcases (leaves_cases hends).2 with hrunning | ⟨-, hnone⟩
  · exact hne (by_jobs (run_by h g (by simp [heq])) (.inr (.inr hrunning)))
  · have hsame := hstuck _ g vs hsplit xs e us rfl hjobs hleaves
    exact hcurrent (hsame.symm.trans hnone)

end Runs

section Sample

-- The signal and the heartbeat loop's check both fall between a round's check and its claim.
def sampleUnwatched : List WorkerMove :=
  [.start .heartbeats 1, .call .heartbeats {}, .start .jobs 1] ++ jobCalls 2 ++ signal ++
    [.call .heartbeats {}, claimsJob] ++ jobCalls 1

def unwatched : Played := (play sampleUnwatched).get (by decide +kernel)

def lastBeat : WorkerCall := unwatched.1[4]?.get (by decide +kernel)

theorem one_late_job_unwatched :
    Once (fun e => e.op.begins = true ∧ e.pre.agent.shuttingDown = true) unwatched.1 :=
  one_late_job (play_run (Option.some_get _).symm) fresh_initial
    (onlyRequested_of_uncancelled (by decide +kernel))

theorem unwatched_job_claimed : Entered ((unwatched.1.take 4).map ThreadCall.entry) := by
  have hrun := play_run (p := unwatched) (Option.some_get _).symm
  have hsplit : unwatched.1 = _ := split_at (e := lastBeat) (Option.some_get _).symm
  have hjob := (unwatched_job hrun fresh_initial (onlyRequested_of_uncancelled (by decide +kernel))
    _ _ _ hsplit (by decide +kernel) (by decide +kernel)).2 "job" (by decide +kernel)
  exact hjob.1

-- The share of the job's source fails, and then the signal comes.
def sampleStuck : List WorkerMove :=
  [.start .heartbeats 1, .call .heartbeats {}, .start .jobs 2] ++ jobCalls 2 ++ [claimsJob] ++
    jobCalls 3 ++ [.call .jobs { fault := some { kind := .os } }] ++ jobCalls 3 ++ signal ++
    jobCalls 1 ++ [.call .heartbeats {}]

def stuck : Played := (play sampleStuck).get (by decide +kernel)

def lastRound : WorkerCall := stuck.1[12]?.get (by decide +kernel)

theorem dead_job_never_stops_stuck :
    Dead sampleLoops ((stuck.1.take 12).map ThreadCall.entry) ∧
      ∀ g ∈ stuck.1.drop 13, ¬Leaves g.toCallRecord := by
  have hrun := play_run (p := stuck) (Option.some_get _).symm
  have hsplit : stuck.1 = _ := split_at (e := lastRound) (Option.some_get _).symm
  obtain ⟨hdead, -, hlater⟩ := dead_job_never_stops hrun fresh_initial
    (onlyRequested_of_uncancelled (by decide +kernel)) _ _ _ hsplit (by decide +kernel)
    (by decide +kernel) (by decide +kernel)
  exact ⟨hdead, fun g hg => (hlater g hg).2⟩

end Sample

end TranscodeForge.AgentLoops
