import TranscodeForge.Agent.Begun
import TranscodeForge.Agent.Loops

namespace TranscodeForge.AgentLoops

open Interaction Derivative Outbox
open ProcessJob (AgentState AgentConfig Raised processJob Equipped Requested Breaks Concluded)

section Events

-- The calls each loop makes.
def Call.By : Loop → Call → Prop
  | .jobs, c =>
    match c with
    | .running | .drainOutbox | .nextDelay | .sleep _ | .claimJob _ | .job _ | .clearConsumedAbort
    | .wait => True
    | _ => False
  | .heartbeats, c =>
    match c with
    | .beating | .monotonic | .readState | .heartbeat _ _ _ | .fence _ _ _ | .sleep _ | .wait => True
    | _ => False
  | .signals, c =>
    match c with
    | .handleShutdown => True
    | _ => False

def Call.begins : Call → Bool
  | .job (.begin _) => true
  | _ => false

-- The calls that have something to check.
def Call.guarded : Call → Bool
  | .job (.begin _) | .fence _ _ _ | .running => true
  | _ => false

def Call.beats : Call → Bool
  | .heartbeat _ _ _ => true
  | _ => false

def Call.claims : Call → Bool
  | .claimJob _ => true
  | _ => false

abbrev Event := CallRecord Call Worker Input

abbrev Log := List (Entry Loop Call Worker Input)

abbrev Seen := Traced Loop Call Worker Input

def Broke (e : Event) : Prop :=
  match e.op with
  | .job c => Breaks c e.input.toInput = true
  | _ => False

-- Whether a loop's condition has it end.
def Call.leaves (w : Worker) : Call → Bool
  | .running => w.agent.shuttingDown
  | .beating => w.agent.shuttingDown && w.agent.currentJobId.isNone
  | _ => false

def Leaves (e : Event) : Prop := e.op.leaves e.pre = true

instance (e : Event) : Decidable (Leaves e) := inferInstanceAs (Decidable (_ = true))

theorem leaves_cases {e : Event} (h : Leaves e) :
    e.pre.agent.shuttingDown = true ∧
      (e.op = .running ∨ e.op = .beating ∧ e.pre.agent.currentJobId = none) := by
  unfold Leaves at h
  cases hop : e.op with
  | running =>
    rw [hop] at h
    exact ⟨h, .inl rfl⟩
  | beating =>
    rw [hop] at h
    obtain ⟨hshutting, hnone⟩ := Bool.and_eq_true_iff.mp h
    exact ⟨hshutting, .inr ⟨rfl, Option.isNone_iff_eq_none.mp hnone⟩⟩
  | _ =>
    rw [hop] at h
    cases h

def Over (t : Loop) (log : Log) : Prop := ∃ e ∈ log, e.thread = t ∧ Leaves e.toCallRecord

variable (config : LoopConfig)

def Claims (P : Claim → Prop) (e : Event) : Prop :=
  e.op.claims = true ∧ ∃ claim, e.input.claimed = some (.ok claim) ∧ P claim

-- The last job claimed is one of these.
def Claimed (P : Claim → Prop) (log : Log) : Prop :=
  Own .jobs (fun _ e => Claims P e.toCallRecord) (fun c => c.claims = false) log

-- The job last begun is lost to its handler: it is an S3 job without a bucket, or one of its
-- calls raised what `_process_job` does not survive.
def Dead (log : Log) : Prop :=
  Own .jobs
    (fun us e => Broke e.toCallRecord ∨ e.op.begins = true ∧
      Claimed (fun claim => ¬Equipped (config.forClaim claim) claim.job) us)
    (fun c => c.begins = false) log

-- The fence has fired since the last job ended, naming that job.
def Leaked (log : Log) : Prop :=
  Since (fun us e => Fired e.toCallRecord ∧ Dead config us)
    (fun e => e.op ≠ .clearConsumedAbort ∧ e.op.begins = false) log

-- The round was entered before any signal.
def Entered (log : Log) : Prop :=
  Own .jobs (fun _ e => e.op = .running ∧ e.pre.agent.shuttingDown = false)
    (fun c => c.begins = false) log

-- The last call of the heartbeat loop is a heartbeat, answered or not.
def Beat (answered : Bool) (log : Log) : Prop :=
  Own .heartbeats
    (fun _ e => e.op.beats = true ∧ e.input.fault.isNone = answered) (fun _ => False) log

def Unheard (log : Log) : Prop := ∀ e ∈ log, e.thread ≠ .heartbeats

-- The last contact with the scheduler: the loop has just begun, or a heartbeat was answered.
def Contact (P : Worker → Prop) (log : Log) : Prop :=
  Since (fun us e => e.op = .monotonic ∧ P e.pre ∧ (Unheard us ∨ Beat true us))
    (fun e => e.op ≠ .monotonic) log

def Fenced (log : Log) : Prop :=
  Since (fun _ e => Fired e.toCallRecord) (fun e => e.op ≠ .monotonic) log

def Admits (t : Loop) (_ : Nat) (c : Call) (i : Input) (x : Seen) : Prop :=
  c.By t ∧ match c with
    | .job c => Requested c i.toInput x.1.agent
    | _ => True

structure Checked (t : Loop) (c : Call) (x : Seen) : Prop where
  started : t ≠ .signals → t ∈ x.1.started
  going : t ≠ .signals → ¬Over t x.2
  entered : c.begins = true → Entered x.2
  unasked : c.begins = true → x.1.agent.abortRequested = true →
    x.1.agent.shuttingDown = true ∨ Leaked config x.2
  fence : ∀ fenceAfter lastContact fenced, c = .fence fenceAfter lastContact fenced →
    fenceAfter = fenceAfterSeconds config.orphanGraceSeconds ∧ Beat false x.2 ∧
      Contact (fun w => w.now = lastContact) x.2 ∧ (fenced = true ↔ Fenced x.2)
  cleared : c = .running → x.1.agent.currentJobId ≠ none → Dead config x.2

abbrev Audits (t : Loop) (r : Nat) : Contract Call Seen Input :=
  (worker config).audit Admits (fun t _ c _ x => Checked config t c x) t r

abbrev Meets (t : Loop) (r : Nat) {β : Type} (p : Agent β) (Q : Except Raised β → Seen → Prop)
    (x : Seen) : Prop :=
  p.wp (worker config).traced t (Audits config t r) Q x

end Events

section Steps

variable {config : LoopConfig} {t t' : Loop} {c : Call} {i : Input} {w : Worker} {x : Seen}
variable {log : Log}

theorem next_started : (handler.next t c i w).started = w.started := by
  cases c with
  | claimJob workerId =>
    simp only [Handler.next, handler, exec]
    split <;> rfl
  | clearConsumedAbort =>
    simp only [Handler.next, handler, exec, Worker.clearConsumedAbort]
    split <;> rfl
  | fence fenceAfter lastContact fenced =>
    simp only [Handler.next, handler, exec, Worker.fence]
    split <;> rfl
  | handleShutdown =>
    simp only [Handler.next, handler, exec, Worker.handleShutdown]
    split
    · rfl
    · split <;> rfl
  | _ => rfl

-- What a call of another loop does to the agent as the job loop sees it.
structure Outside (w w' : Worker) (fired : Prop) : Prop where
  current : w'.agent.currentJobId = w.agent.currentJobId
  delivered : w'.agent.delivered = w.agent.delivered
  shuttingDown : w.agent.shuttingDown = true → w'.agent.shuttingDown = true
  asked : w.agent.abortRequested = true → w'.agent.abortRequested = true
  unasked : w'.agent.abortRequested = true →
    w.agent.abortRequested = true ∨ w'.agent.shuttingDown = true ∨ fired

theorem Outside.same {fired : Prop} : Outside w w fired :=
  ⟨rfl, rfl, id, id, .inl⟩

theorem next_outside (hc : c.By t) (ht : t ≠ .jobs) :
    Outside w (handler.next t c i w)
      (Fired (⟨c, i, w, handler.next t c i w⟩ : Event)) := by
  cases t with
  | jobs => exact absurd rfl ht
  | heartbeats =>
    cases c with
    | fence fenceAfter lastContact fenced =>
      simp only [Handler.next, handler, exec, Worker.fence]
      split
      · next hfires => exact ⟨rfl, rfl, id, fun _ => rfl, fun _ => .inr (.inr hfires)⟩
      · exact .same
    | beating | monotonic | readState | heartbeat _ _ _ | sleep _ | wait => exact .same
    | _ => exact hc.elim
  | signals =>
    cases c with
    | handleShutdown =>
      simp only [Handler.next, handler, exec, Worker.handleShutdown]
      split
      · exact ⟨rfl, rfl, id, id, .inl⟩
      · split
        · next hshutting => exact ⟨rfl, rfl, id, fun _ => rfl, fun _ => .inr (.inl hshutting)⟩
        · exact ⟨rfl, rfl, fun _ => rfl, id, .inl⟩
    | _ => exact hc.elim

theorem by_jobs (hc : c.By t) (h : c.begins = true ∨ c = .clearConsumedAbort ∨ c = .running) :
    t = .jobs := by
  cases t with
  | jobs => rfl
  | heartbeats =>
    cases c <;> simp_all [Call.By, Call.begins]
  | signals =>
    cases c <;> simp_all [Call.By, Call.begins]

theorem start_agent {r : Nat} {w' : Worker} (hs : start t r w = some w') :
    w'.agent = w.agent ∧ w.started ⊆ w'.started ∧ (t ≠ .signals → t ∈ w'.started ∧ t ∉ w.started) := by
  simp only [start] at hs
  split at hs
  · next hsignals =>
    cases hs
    exact ⟨rfl, fun _ h => h, fun hne => absurd hsignals hne⟩
  · split at hs
    · cases hs
    · next hnew =>
      cases hs
      exact ⟨rfl, fun _ h => List.mem_cons_of_mem _ h, fun _ => ⟨List.mem_cons_self, hnew⟩⟩

theorem over_append {e : Entry Loop Call Worker Input} :
    Over t (log ++ [e]) ↔ Over t log ∨ e.thread = t ∧ Leaves e.toCallRecord := by
  simp only [Over, List.mem_append, List.mem_singleton, or_and_right, exists_or, exists_eq_left]

theorem not_over (h : ∀ e ∈ log, e.thread ≠ t) : ¬Over t log := by
  rintro ⟨e, he, hthread, -⟩
  exact h e he hthread

structure Going (t : Loop) (x : Seen) : Prop where
  started : t ∈ x.1.started
  going : ¬Over t x.2

theorem Going.stable : (worker config).Stable Admits t (Going t) where
  call t' r' c i y hne _ hy := by
    refine ⟨?_, fun hover => ?_⟩
    · change t ∈ (handler.next t' c i y.1).started
      rw [next_started]
      exact hy.started
    · rcases over_append.mp hover with hover | ⟨hthread, -⟩
      · exact hy.going hover
      · exact hne hthread
  start t' r' w' y hs hy := ⟨(start_agent (r := r') hs).2.1 hy.started, hy.going⟩
  disturb k y hy := ⟨hy.started, hy.going⟩

theorem Going.next (h : Going t x)
    (hc : ¬Leaves (⟨c, i, x.1, handler.next t c i x.1⟩ : Event)) :
    Going t ((worker config).traced.next t c i x) := by
  refine ⟨?_, fun hover => ?_⟩
  · change t ∈ (handler.next t c i x.1).started
    rw [next_started]
    exact h.started
  · rcases over_append.mp hover with hover | ⟨-, hleaves⟩
    · exact h.going hover
    · exact hc hleaves

theorem Dead.stable : (worker config).Stable Admits .jobs fun x => Dead config x.2 :=
  System.own_stable

-- Between two jobs an abort stands only for a shutdown, or for a job that died.
structure Idle (config : LoopConfig) (x : Seen) : Prop where
  unasked : x.1.agent.abortRequested = true → x.1.agent.shuttingDown = true ∨ Leaked config x.2
  cleared : x.1.agent.currentJobId ≠ none → Dead config x.2

theorem Leaked.next (h : Leaked config x.2) (hc : c ≠ .clearConsumedAbort)
    (hbegins : c.begins = false) :
    Leaked config ((worker config).traced.next t c i x).2 :=
  Since.append h ⟨hc, hbegins⟩

theorem Idle.stable : (worker config).Stable Admits .jobs (Idle config) where
  call t' r' c i y hne ha hy := by
    have hout := next_outside (i := i) (w := y.1) ha.1 hne
    have hquiet : c ≠ .clearConsumedAbort ∧ c.begins = false := by
      constructor
      · exact fun hclear => hne (by_jobs ha.1 (.inr (.inl hclear)))
      · exact Bool.eq_false_iff.mpr fun hbegins => hne (by_jobs ha.1 (.inl hbegins))
    refine ⟨fun hasked => ?_, fun hcurrent => ?_⟩
    · rcases hout.unasked hasked with hbefore | hshutting | hfired
      · rcases hy.unasked hbefore with hshutting | hleaked
        · exact .inl (hout.shuttingDown hshutting)
        · exact .inr (hleaked.next hquiet.1 hquiet.2)
      · exact .inl hshutting
      · have hcurrent : y.1.agent.currentJobId ≠ none := by
          cases c with
          | fence fenceAfter lastContact fenced =>
            have hfires : y.1.fences fenceAfter lastContact fenced = true := hfired
            intro hnone
            simp [Worker.fences, hnone] at hfires
          | _ => cases hfired
        exact .inr (.here ⟨hfired, hy.cleared hcurrent⟩)
    · exact (hy.cleared (hout.current ▸ hcurrent)).other hne
  start t' r' w' y hs hy := by
    obtain ⟨hagent, -⟩ := start_agent (r := r') hs
    exact ⟨by rw [hagent]; exact hy.unasked, by rw [hagent]; exact hy.cleared⟩
  disturb k y hy := ⟨hy.unasked, hy.cleared⟩

end Steps

section Rounds

variable {config : LoopConfig} {c : Call} {i : Input} {x y : Seen} {r : Nat} {β : Type}

-- The calls of a round around its job.
def Call.Idles : Call → Prop
  | .drainOutbox | .nextDelay | .sleep _ | .claimJob _ | .wait => True
  | _ => False

structure AtRest (config : LoopConfig) (x : Seen) : Prop where
  going : Going .jobs x
  idle : Idle config x

structure InRound (config : LoopConfig) (x : Seen) : Prop extends AtRest config x where
  entered : Entered x.2

theorem AtRest.stable : (worker config).Stable Admits .jobs (AtRest config) where
  call t' r' c i y hne ha hy :=
    ⟨Going.stable.call t' r' c i y hne ha hy.going, Idle.stable.call t' r' c i y hne ha hy.idle⟩
  start t' r' w' y hs hy :=
    ⟨Going.stable.start t' r' w' y hs hy.going, Idle.stable.start t' r' w' y hs hy.idle⟩
  disturb k y hy := ⟨Going.stable.disturb k y hy.going, Idle.stable.disturb k y hy.idle⟩

theorem InRound.stable : (worker config).Stable Admits .jobs (InRound config) where
  call t' r' c i y hne ha hy :=
    ⟨AtRest.stable.call t' r' c i y hne ha hy.toAtRest, hy.entered.other hne⟩
  start t' r' w' y hs hy := ⟨AtRest.stable.start t' r' w' y hs hy.toAtRest, hy.entered⟩
  disturb k y hy := ⟨AtRest.stable.disturb k y hy.toAtRest, hy.entered⟩

theorem next_agent (hc : c.Idles ∨ c = .running) {t : Loop} {w : Worker} :
    (handler.next t c i w).agent = w.agent := by
  rcases hc with hc | rfl
  · cases c with
    | claimJob workerId =>
      simp only [Handler.next, handler, exec]
      split <;> rfl
    | drainOutbox | nextDelay | sleep _ | wait => rfl
    | _ => exact hc.elim
  · rfl

theorem idles_begins (hc : c.Idles ∨ c = .running) :
    c.begins = false ∧ c ≠ .clearConsumedAbort := by
  rcases hc with hc | rfl
  · cases c <;> simp_all [Call.Idles, Call.begins]
  · simp [Call.begins]

theorem Idle.next (h : Idle config x) (hc : c.Idles ∨ c = .running) :
    Idle config ((worker config).traced.next .jobs c i x) := by
  have hagent : ((worker config).traced.next .jobs c i x).1.agent = x.1.agent := next_agent hc
  obtain ⟨hbegins, hclear⟩ := idles_begins hc
  refine ⟨fun hasked => ?_, fun hcurrent => ?_⟩
  · rw [hagent] at hasked ⊢
    exact (h.unasked hasked).imp_right fun hleaked => hleaked.next hclear hbegins
  · rw [hagent] at hcurrent
    exact (h.cleared hcurrent).next hbegins

theorem not_leaves (hc : c.Idles) {e : Event} (he : e.op = c) : ¬Leaves e := by
  subst he
  unfold Leaves
  cases h : e.op <;> simp_all [Call.Idles, Call.leaves]

theorem AtRest.next (h : AtRest config x) (hc : c.Idles) :
    AtRest config ((worker config).traced.next .jobs c i x) :=
  ⟨h.going.next (not_leaves hc rfl), h.idle.next (.inl hc)⟩

theorem InRound.next (h : InRound config x) (hc : c.Idles) :
    InRound config ((worker config).traced.next .jobs c i x) :=
  ⟨h.toAtRest.next hc, h.entered.next (idles_begins (.inl hc)).1⟩

theorem begins_guarded (h : c.begins = true) : c.guarded = true := by
  cases c with
  | job c => cases c <;> first | rfl | cases h
  | _ => cases h

theorem idles_guarded (hc : c.Idles) : c.guarded = false := by
  cases c <;> first | rfl | exact hc.elim

theorem checked_of_unguarded {t : Loop} (hstarted : t ≠ .signals → t ∈ x.1.started)
    (hgoing : t ≠ .signals → ¬Over t x.2) (hc : c.guarded = false) : Checked config t c x where
  started := hstarted
  going := hgoing
  entered hbegins := by
    rw [begins_guarded hbegins] at hc
    cases hc
  unasked hbegins := by
    rw [begins_guarded hbegins] at hc
    cases hc
  fence fenceAfter lastContact fenced hop := by
    subst hop
    cases hc
  cleared hop := by
    subst hop
    cases hc

theorem Going.checked {t : Loop} (h : Going t x) (hc : c.guarded = false) :
    Checked config t c x :=
  checked_of_unguarded (fun _ => h.started) (fun _ => h.going) hc

theorem idles_wp {p : Agent β} (hp : p.Calls Call.Idles) (hx : AtRest config x) :
    Meets config .jobs r p (fun _ y => AtRest config y) x :=
  Program.wp_of_calls hp hx (fun _ _ hy hxy => AtRest.stable.keeps hy hxy) fun _ _ _ hc hy _ _ =>
    ⟨hy.going.checked (idles_guarded hc), hy.next hc⟩

theorem backOff_idles : backOff.Calls Call.Idles := ⟨trivial, fun _ => ⟨trivial, fun _ => trivial⟩⟩

end Rounds

section Job

variable {config : LoopConfig} {c : ProcessJob.Call} {i : Input} {x y : Seen} {r : Nat}
variable {claim : Claim} {log : Log} {e : Entry Loop Call Worker Input}

-- Whether a call has raised what the job begun last does not survive.
def marks (broken : Bool) (e : Entry Loop Call Worker Input) : Bool :=
  if e.thread = .jobs then
    match e.op with
    | .job (.begin _) => false
    | .job c => broken || Breaks c e.input.toInput
    | _ => broken
  else broken

def mark (log : Log) : Bool := log.foldl marks false

theorem mark_append : mark (log ++ [e]) = marks (mark log) e := by
  simp [mark]

theorem mark_other (hne : e.thread ≠ .jobs) : mark (log ++ [e]) = mark log := by
  rw [mark_append, marks, if_neg hne]

theorem marks_cases (h : marks (mark log) e = true) :
    (e.thread = .jobs → e.op.begins = false) ∧ mark log = true ∨
      e.thread = .jobs ∧ Broke e.toCallRecord := by
  unfold marks at h
  split at h
  · next hjobs =>
    split at h
    · cases h
    · next c hnot hop =>
      rcases Bool.or_eq_true_iff.mp h with hmark | hbreaks
      · refine .inl ⟨fun _ => ?_, hmark⟩
        rw [hop]
        cases c with
        | begin id => exact absurd rfl (hnot id)
        | _ => rfl
      · exact .inr ⟨hjobs, by rw [Broke, hop]; exact hbreaks⟩
    · next hnone hnot =>
      refine .inl ⟨fun _ => ?_, h⟩
      cases hop : e.op with
      | job c => exact absurd hop (hnot c)
      | _ => rfl
  · next hother => exact .inl ⟨fun hjobs => absurd hjobs hother, h⟩

theorem mark_dead (h : mark log = true) : Dead config log := by
  induction log using List.reverseRecOn with
  | nil => cases h
  | append_singleton log e ih =>
    rw [mark_append] at h
    rcases marks_cases h with ⟨hbegins, hmark⟩ | ⟨hjobs, hbroke⟩
    · exact (ih hmark).append hbegins
    · exact Since.here ⟨hjobs, .inl hbroke⟩

-- The job as `_process_job` sees it.
def view (x : Seen) : AgentState × Bool := (x.1.agent, mark x.2)

structure Watched (x y : Seen) : Prop where
  going : Going .jobs y
  meanwhile : ProcessJob.reporting.marking.rely (view x) (view y)

theorem Watched.stable : (worker config).Stable Admits .jobs (Watched x) where
  call t' r' c i y hne ha hy := by
    refine ⟨Going.stable.call t' r' c i y hne ha hy.going, ?_⟩
    have hout := next_outside (i := i) (w := y.1) ha.1 hne
    obtain ⟨⟨hcurrent, hdelivered, hasked⟩, hmark⟩ := hy.meanwhile
    refine ⟨⟨hout.current.trans hcurrent, hout.delivered.trans hdelivered,
      fun h => hout.asked (hasked h)⟩, (mark_other hne).trans hmark⟩
  start t' r' w' y hs hy := by
    refine ⟨Going.stable.start t' r' w' y hs hy.going, ?_⟩
    have hview : view (w', y.2) = view y :=
      Prod.ext (start_agent (r := r') hs).1 rfl
    rw [hview]
    exact hy.meanwhile
  disturb k y hy := ⟨Going.stable.disturb k y hy.going, hy.meanwhile⟩

theorem inner_op (hc : ProcessJob.Inner c) :
    (Call.job c).begins = false ∧ (Call.job c).guarded = false := by
  cases c <;> first | exact ⟨rfl, rfl⟩ | exact hc.elim

theorem job_wp (hc : ProcessJob.Inner c) (hx : Going .jobs x) {R : c.Answer → AgentState × Bool → Prop}
    (hR : ∀ m, ProcessJob.reporting.marking.rely (view x) m → ProcessJob.marked.ready () c m →
      ∀ i, ProcessJob.reporting.marking.assume c i m →
        R (ProcessJob.marked.answer () c i m) (ProcessJob.marked.next () c i m)) :
    Meets config .jobs r (act (.job c))
      (fun o y => Going .jobs y ∧ match o with
        | .ok a => R a (view y)
        | .error _ => False) x := by
  refine Program.wp_call_of (P := Watched x) ⟨hx, ⟨⟨rfl, rfl, id⟩, rfl⟩⟩
    (fun _ _ hy hxy => Watched.stable.keeps hy hxy) fun i y hy hready ha =>
      ⟨hy.going.checked (inner_op hc).2, hy.going.next Bool.false_ne_true, ?_⟩
  have hready : ProcessJob.marked.ready () c (view y) = true := by
    cases c with
    | wait => exact (Bool.and_eq_true_iff.mp hready).2
    | _ => rfl
  have hmark : mark (y.2 ++ [⟨⟨.job c, i, y.1, handler.next .jobs (.job c) i y.1⟩, .jobs⟩]) =
      (mark y.2 || Breaks c i.toInput) := by
    rw [mark_append]
    cases c <;> first | rfl | exact hc.elim
  have hnext : view ((worker config).traced.next .jobs (.job c) i y) =
      ProcessJob.marked.next () c i.toInput (view y) := Prod.ext rfl hmark
  rw [hnext]
  exact hR (view y) hy.meanwhile hready i.toInput ha.2

structure Ended (config : LoopConfig) (x : Seen) : Prop where
  going : Going .jobs x
  cleared : x.1.agent.currentJobId ≠ none → Dead config x.2

theorem Ended.stable : (worker config).Stable Admits .jobs (Ended config) where
  call t' r' c i y hne ha hy := by
    refine ⟨Going.stable.call t' r' c i y hne ha hy.going, fun hcurrent => ?_⟩
    have hout := next_outside (i := i) (w := y.1) ha.1 hne
    exact (hy.cleared (hout.current ▸ hcurrent)).other hne
  start t' r' w' y hs hy := by
    refine ⟨Going.stable.start t' r' w' y hs hy.going, ?_⟩
    rw [(start_agent (r := r') hs).1]
    exact hy.cleared
  disturb k y hy := ⟨Going.stable.disturb k y hy.going, hy.cleared⟩

theorem equipped_wp {k : Unit → ProcessJob.Agent Unit} {n : Nat} (hk : ∀ a, (k a).Calls ProcessJob.Inner)
    (hwp : (k ()).wp ProcessJob.marked () ProcessJob.reporting.marking
      (fun _ m => Concluded claim.job.id n m) (view x)) (hx : Going .jobs x) :
    Meets config .jobs r ((k ()).expand fun c => act (.job c)) (fun _ y => Ended config y) x := by
  refine Program.wp_mono (Program.wp_expand_view (P := Going .jobs) (hk ()) hwp hx
    fun c y R hc hy hR => job_wp hc hy hR) fun _ y hy => ⟨hy.1, fun hcurrent => ?_⟩
  have hmark : mark y.2 ≠ false := fun hfalse => hcurrent (hy.2.mpr hfalse).1
  exact mark_dead (Bool.eq_true_of_not_eq_false hmark)

theorem unequipped_wp {p : ProcessJob.Agent Unit} (hp : p.Calls ProcessJob.Inner)
    (hx : Going .jobs x) (hdead : Dead config x.2) :
    Meets config .jobs r (p.expand fun c => act (.job c)) (fun _ y => Ended config y) x := by
  have hcalls : (p.expand fun c => act (.job c)).Calls fun c =>
      (c.begins = false ∧ c.guarded = false) ∧ ∀ e : Event, e.op = c → ¬Leaves e :=
    hp.expand fun c hc => ⟨⟨inner_op hc, fun e he => by simp [Leaves, Call.leaves, he]⟩, fun _ => trivial⟩
  refine Program.wp_mono (Program.wp_of_calls (P := fun y => Going .jobs y ∧ Dead config y.2) hcalls
    ⟨hx, hdead⟩ (fun _ _ hy hxy => (Going.stable.and Dead.stable).keeps hy hxy)
    fun c i y hc hy _ _ => ?_) fun _ y hy => ⟨hy.1, fun _ => hy.2⟩
  exact ⟨hy.1.checked hc.1.2, hy.1.next (hc.2 _ rfl), hy.2.next hc.1.1⟩

theorem claimed_begins (config : LoopConfig) (claim : Claim) :
    ∃ k, ProcessJob.processJob (config.forClaim claim) claim.job claim.safetyMean
        claim.safetyPerc5 config.blake2b config.polls = .call (.begin claim.job.id) k ∧
      ∀ a, (k a).Calls ProcessJob.Inner :=
  ProcessJob.processJob_begins rfl

theorem claimed_concludes (s : ProcessJob.AgentState)
    (hequipped : Equipped (config.forClaim claim) claim.job) :
    (ProcessJob.processJob (config.forClaim claim) claim.job claim.safetyMean claim.safetyPerc5
      config.blake2b config.polls).wp ProcessJob.marked () ProcessJob.reporting.marking
      (fun _ m => Concluded claim.job.id
        (ProcessJob.terminalReports claim.job.id s.delivered) m) (s, false) :=
  ProcessJob.processJob_wp hequipped

theorem InRound.checked_begin {id : String} (h : InRound config x) :
    Checked config .jobs (.job (.begin id)) x where
  started _ := h.going.started
  going _ := h.going.going
  entered _ := h.entered
  unasked _ := h.idle.unasked
  fence _ _ _ hop := by cases hop
  cleared hop := by cases hop

theorem runJob_wp (hx : InRound config x) (hclaimed : Claimed (· = claim) x.2) :
    Meets config .jobs r (runJob config claim) (fun _ y => Ended config y) x := by
  obtain ⟨k, hjob, hk⟩ := claimed_begins config claim
  rw [runJob, hjob]
  refine Program.wp_call_of (P := fun y => InRound config y ∧ Claimed (· = claim) y.2)
    ⟨hx, hclaimed⟩ (fun _ _ hy hxy => (InRound.stable.and System.own_stable).keeps hy hxy)
    fun i y hround _ ha => ?_
  obtain ⟨hy, hclaimed⟩ := hround
  have hgoing : Going .jobs ((worker config).traced.next .jobs (.job (.begin claim.job.id)) i y) :=
    hy.going.next Bool.false_ne_true
  refine ⟨hy.checked_begin, ?_⟩
  by_cases hequipped : Equipped (config.forClaim claim) claim.job
  · have hwp := claimed_concludes y.1.agent hequipped
    rw [hjob] at hwp
    have hview : view ((worker config).traced.next .jobs (.job (.begin claim.job.id)) i y) =
        ProcessJob.marked.next () (.begin claim.job.id) i.toInput (y.1.agent, false) :=
      Prod.ext rfl mark_append
    have hrest := (hwp (y.1.agent, false) ⟨⟨rfl, rfl, id⟩, rfl⟩ rfl i.toInput ha.2).2
    rw [← hview] at hrest
    exact equipped_wp hk hrest hgoing
  · refine unequipped_wp (hk ()) hgoing (Own.here (.inr ⟨rfl, hclaimed.mono ?_ fun _ h => h⟩))
    rintro _ e ⟨hop, claim', hinput, rfl⟩
    exact ⟨hop, claim', hinput, hequipped⟩

end Job

section Bodies

variable {config : LoopConfig} {c : Call} {i : Input} {x y : Seen} {r : Nat} {claim : Claim}
variable {β : Type}

theorem Ended.consumed (h : Ended config x) :
    AtRest config ((worker config).traced.next .jobs .clearConsumedAbort i x) := by
  refine ⟨h.going.next Bool.false_ne_true, ?_, ?_⟩
  · change (x.1.clearConsumedAbort).agent.abortRequested = true →
      (x.1.clearConsumedAbort).agent.shuttingDown = true ∨ _
    unfold Worker.clearConsumedAbort
    split
    · next hshutting => exact fun _ => .inl hshutting
    · exact fun hasked => by cases hasked
  · change (x.1.clearConsumedAbort).agent.currentJobId ≠ none → _
    have hcurrent : (x.1.clearConsumedAbort).agent.currentJobId = x.1.agent.currentJobId := by
      unfold Worker.clearConsumedAbort
      split <;> rfl
    rw [hcurrent]
    exact fun h' => (h.cleared h').next rfl

theorem processClaim_wp (hx : InRound config x) (hclaimed : Claimed (· = claim) x.2) :
    Meets config .jobs r (processClaim config claim) (fun _ y => AtRest config y) x := by
  rw [processClaim, Program.bind_eq]
  unfold Meets
  rw [Program.wp_bind, Program.wp_attempt]
  refine Program.wp_mono (runJob_wp hx hclaimed) fun outcome y hy => ?_
  refine System.wp_audit Ended.stable hy fun i z hz _ => ⟨hz.going.checked rfl, ?_⟩
  exact (Program.wp_ofExcept _ _ _).mpr hz.consumed

theorem claimed_answer {i : ProcessJob.Input} {answer : Option (Except Raised Claim)}
    (h : i.answers answer = .ok (some (.ok claim))) : answer = some (.ok claim) := by
  unfold ProcessJob.Input.answers at h
  split at h
  · cases h
  · exact Except.ok.inj h

theorem claimAndProcess_wp (hx : InRound config x) :
    Meets config .jobs r (claimAndProcess config) (fun _ y => AtRest config y) x := by
  refine Program.wp_seq (R := fun o y => InRound config y ∧
      ∀ claim, o = .ok (some (.ok claim)) → Claimed (· = claim) y.2)
    (System.wp_audit InRound.stable hx fun i y hy _ => ⟨hy.going.checked rfl, ?_⟩)
    (fun answer y hy => ?_) fun _ _ hy => hy.1.toAtRest
  · refine (Program.wp_ofExcept _ _ _).mpr ⟨hy.next trivial, fun claim hanswer => ?_⟩
    exact Own.here ⟨rfl, claim, claimed_answer hanswer, rfl⟩
  · obtain ⟨hround, hclaimed⟩ := hy
    cases answer with
    | none => exact idles_wp ⟨trivial, fun _ => trivial⟩ hround.toAtRest
    | some dict =>
      cases dict with
      | error e => exact hround.toAtRest
      | ok claim => exact processClaim_wp hround (hclaimed claim rfl)

theorem jobRound_wp (hx : InRound config x) :
    Meets config .jobs r (jobRound config) (fun _ y => AtRest config y) x := by
  refine Program.wp_seq (R := fun _ y => InRound config y)
    (System.wp_audit InRound.stable hx fun i y hy _ => ⟨hy.going.checked rfl, ?_⟩)
    (fun drained y hy => ?_) fun _ _ hy => hy.toAtRest
  · exact (Program.wp_ofExcept _ _ _).mpr (hy.next trivial)
  · split
    · exact idles_wp backOff_idles hy.toAtRest
    · exact claimAndProcess_wp hy

theorem AtRest.checked (h : AtRest config x) : Checked config .jobs .running x where
  started _ := h.going.started
  going _ := h.going.going
  entered hbegins := by cases hbegins
  unasked hbegins := by cases hbegins
  fence _ _ _ hop := by cases hop
  cleared _ := h.idle.cleared

theorem AtRest.running (h : AtRest config x) (hgoes : x.1.agent.shuttingDown = false) :
    InRound config ((worker config).traced.next .jobs .running i x) := by
  refine ⟨⟨h.going.next ?_, h.idle.next (.inr rfl)⟩, Own.here ⟨rfl, hgoes⟩⟩
  simp [Leaves, Call.leaves, hgoes]

theorem jobLoop_wp {rounds : Nat} (hx : AtRest config x) :
    Meets config .jobs r (jobLoop config rounds) (fun _ _ => True) x := by
  induction rounds generalizing x with
  | zero =>
    exact System.wp_audit AtRest.stable hx fun _ _ hy _ => ⟨hy.going.checked rfl, trivial⟩
  | succ rounds ih =>
    refine System.wp_audit AtRest.stable hx fun i y hy _ => ⟨hy.checked, ?_⟩
    change Meets config .jobs r (if (!y.1.agent.shuttingDown) = true then
      ((jobRound config).rescue fun e => if e.isException then backOff else .raise e).bind
        fun _ => jobLoop config rounds else .ret ()) _ _
    split
    · next hgoes =>
      have hround : InRound config ((worker config).traced.next .jobs .running i y) :=
        hy.running (by simpa using hgoes)
      have hrescued : Meets config .jobs r
          ((jobRound config).rescue fun e => if e.isException then backOff else .raise e)
          (fun _ z => AtRest config z) ((worker config).traced.next .jobs .running i y) := by
        unfold Meets
        rw [Program.wp_rescue]
        refine Program.wp_mono (jobRound_wp hround) fun o z hz => ?_
        cases o with
        | ok _ => exact hz
        | error e =>
          dsimp only
          split
          · exact idles_wp backOff_idles hz
          · exact hz
      exact Program.wp_seq hrescued (fun _ z hz => ih hz) fun _ _ _ => trivial
    · trivial

end Bodies

section Heartbeats

variable {config : LoopConfig} {c : Call} {i : Input} {x y : Seen} {r : Nat} {t : Loop}
variable {lastContact : Rat} {fenced : Bool}

-- What the variables of the heartbeat loop say of the calls so far.
structure Beating (lastContact : Rat) (fenced : Bool) (x : Seen) : Prop where
  going : Going .heartbeats x
  contact : Contact (fun w => w.now = lastContact) x.2
  fenced : fenced = true ↔ Fenced x.2

theorem by_heartbeats (hc : c.By t) (ht : t ≠ .heartbeats) {e : Event} (he : e.op = c) :
    c ≠ .monotonic ∧ ¬Fired e := by
  subst he
  cases t with
  | heartbeats => exact absurd rfl ht
  | jobs => cases hop : e.op <;> simp_all [Call.By, Fired, Call.fires]
  | signals => cases hop : e.op <;> simp_all [Call.By, Fired, Call.fires]

theorem fenced_append {log : Log} {e : Entry Loop Call Worker Input} :
    Fenced (log ++ [e]) ↔ Fired e.toCallRecord ∨ e.op ≠ .monotonic ∧ Fenced log :=
  since_append

theorem fenced_same {log : Log} {e : Entry Loop Call Worker Input} (hop : e.op ≠ .monotonic)
    (hfired : ¬Fired e.toCallRecord) : Fenced (log ++ [e]) ↔ Fenced log := by
  simp [fenced_append, hop, hfired]

theorem Beating.stable : (worker config).Stable Admits .heartbeats (Beating lastContact fenced) where
  call t' r' c i y hne ha hy := by
    obtain ⟨hop, hfired⟩ :=
      by_heartbeats (e := ⟨c, i, y.1, handler.next t' c i y.1⟩) ha.1 hne rfl
    exact ⟨Going.stable.call t' r' c i y hne ha hy.going, hy.contact.append hop,
      hy.fenced.trans (fenced_same hop hfired).symm⟩
  start t' r' w' y hs hy := ⟨Going.stable.start t' r' w' y hs hy.going, hy.contact, hy.fenced⟩
  disturb k y hy := ⟨Going.stable.disturb k y hy.going, hy.contact, hy.fenced⟩

theorem Beating.next (h : Beating lastContact fenced x) (hc : c ≠ .monotonic)
    (hguarded : c.guarded = false)
    (hleaves : ¬Leaves (⟨c, i, x.1, handler.next .heartbeats c i x.1⟩ : Event)) :
    Beating lastContact fenced ((worker config).traced.next .heartbeats c i x) := by
  have hfired : ¬Fired (⟨c, i, x.1, handler.next .heartbeats c i x.1⟩ : Event) := by
    cases c with
    | fence _ _ _ => cases hguarded
    | _ => exact Bool.false_ne_true
  exact ⟨h.going.next hleaves, h.contact.append hc,
    h.fenced.trans (fenced_same hc hfired).symm⟩

theorem Going.heard (h : Going .heartbeats x) (hheard : Unheard x.2 ∨ Beat true x.2) :
    Beating x.1.now false ((worker config).traced.next .heartbeats .monotonic i x) := by
  refine ⟨h.next Bool.false_ne_true, Since.here ⟨rfl, rfl, hheard⟩, ?_⟩
  refine Iff.trans ?_ fenced_append.symm
  simp [Fired, Call.fires]

theorem Beating.fence (h : Beating lastContact fenced x) {fenceAfter : Rat} :
    Beating lastContact (fenced || (x.1.fence fenceAfter lastContact fenced).2)
      ((worker config).traced.next .heartbeats (.fence fenceAfter lastContact fenced) i x) := by
  refine ⟨h.going.next Bool.false_ne_true, h.contact.append fun hop => (by cases hop), ?_⟩
  refine Iff.trans ?_ fenced_append.symm
  rw [← h.fenced]
  cases hfires : x.1.fences fenceAfter lastContact fenced with
  | true => simp [Fired, Call.fires, Worker.fence, hfires]
  | false => simp [Fired, Call.fires, Worker.fence, hfires]

theorem sleep_wp {seconds : Rat} {k : Unit → Agent Unit} (hx : Beating lastContact fenced x)
    (hk : ∀ y, Beating lastContact fenced y →
      Meets config .heartbeats r (k ()) (fun _ _ => True) y) :
    Meets config .heartbeats r ((act (.sleep seconds)).bind k) (fun _ _ => True) x :=
  System.wp_audit Beating.stable hx fun i y hy _ => ⟨hy.going.checked rfl,
    hk _ (hy.next (by simp) rfl Bool.false_ne_true)⟩

theorem answers_cases {β : Type} (i : ProcessJob.Input) (b : β) :
    (∃ e, i.fault = some e ∧ i.answers b = .error e) ∨ i.fault = none ∧ i.answers b = .ok b := by
  cases hfault : i.fault with
  | none => exact .inr ⟨rfl, by simp [ProcessJob.Input.answers, hfault]⟩
  | some e => exact .inl ⟨e, rfl, by simp [ProcessJob.Input.answers, hfault]⟩

theorem heartbeat_wp {workerId status : String} {namedJob : Option String}
    {k : Except Raised Unit → Agent Unit} (hx : Beating lastContact fenced x)
    (hok : ∀ y, Beating lastContact fenced y → Beat true y.2 →
      Meets config .heartbeats r (k (.ok ())) (fun _ _ => True) y)
    (herror : ∀ e y, Beating lastContact fenced y → Beat false y.2 →
      Meets config .heartbeats r (k (.error e)) (fun _ _ => True) y) :
    Meets config .heartbeats r ((act (.heartbeat workerId status namedJob)).bind k)
      (fun _ _ => True) x := by
  refine System.wp_audit Beating.stable hx fun i y hy _ => ⟨hy.going.checked rfl, ?_⟩
  have hnext : Beating lastContact fenced
      ((worker config).traced.next .heartbeats (.heartbeat workerId status namedJob) i y) :=
    hy.next (by simp) rfl Bool.false_ne_true
  change Meets config .heartbeats r (k (i.toInput.answers ())) (fun _ _ => True) _
  rcases answers_cases i.toInput () with ⟨e, hfault, hanswer⟩ | ⟨hfault, hanswer⟩
  · rw [hanswer]
    exact herror e _ hnext (Own.here ⟨rfl, by simp [hfault]⟩)
  · rw [hanswer]
    exact hok _ hnext (Own.here ⟨rfl, by simp [hfault]⟩)

theorem contact_wp {k : Rat → Agent Unit} (hx : Going .heartbeats x)
    {P : Seen → Prop} (hP : (worker config).Stable Admits .heartbeats P) (hheard : P x)
    (hhears : ∀ y, P y → Unheard y.2 ∨ Beat true y.2)
    (hk : ∀ now y, Beating now false y →
      Meets config .heartbeats r (k now) (fun _ _ => True) y) :
    Meets config .heartbeats r ((act .monotonic).bind k) (fun _ _ => True) x :=
  System.wp_audit (Going.stable.and hP) ⟨hx, hheard⟩ fun _ y hy _ =>
    ⟨hy.1.checked rfl, hk y.1.now _ (hy.1.heard (hhears y hy.2))⟩

theorem Beating.checked_fence (h : Beating lastContact fenced x) (hfailed : Beat false x.2) :
    Checked config .heartbeats
      (.fence (fenceAfterSeconds config.orphanGraceSeconds) lastContact fenced) x where
  started _ := h.going.started
  going _ := h.going.going
  entered hbegins := by cases hbegins
  unasked hbegins := by cases hbegins
  fence fenceAfter lastContact fenced hop := by
    cases hop
    exact ⟨rfl, hfailed, h.contact, h.fenced⟩
  cleared hop := by cases hop

theorem fence_wp {k : Bool → Agent Unit} (hx : Beating lastContact fenced x)
    (hfailed : Beat false x.2)
    (hk : ∀ fired y, Beating lastContact (fenced || fired) y →
      Meets config .heartbeats r (k fired) (fun _ _ => True) y) :
    Meets config .heartbeats r
      ((act (.fence (fenceAfterSeconds config.orphanGraceSeconds) lastContact fenced)).bind k)
      (fun _ _ => True) x := by
  exact System.wp_audit (Beating.stable.and System.own_stable) ⟨hx, hfailed⟩ fun i y hy _ =>
    ⟨hy.1.checked_fence hy.2, hk _ _ hy.1.fence⟩

theorem beat_wp {beats : Nat} (hx : Beating lastContact fenced x) :
    Meets config .heartbeats r
      (beat config (fenceAfterSeconds config.orphanGraceSeconds) beats lastContact fenced)
      (fun _ _ => True) x := by
  induction beats generalizing x lastContact fenced with
  | zero =>
    exact System.wp_audit Beating.stable hx fun _ _ hy _ => ⟨hy.going.checked rfl, trivial⟩
  | succ beats ih =>
    refine System.wp_audit Beating.stable hx fun i y hy _ => ⟨hy.going.checked rfl, ?_⟩
    dsimp only [Program.ret_bind]
    split
    · next hbeating =>
      have hbeats : (!y.1.agent.shuttingDown || y.1.agent.currentJobId.isSome) = true := hbeating
      have hstays : (y.1.agent.shuttingDown && y.1.agent.currentJobId.isNone) ≠ true := by
        cases hcurrent : y.1.agent.currentJobId <;> simp_all
      have hy : Beating lastContact fenced
          ((worker config).traced.next .heartbeats .beating i y) :=
        hy.next (by simp) rfl hstays
      refine System.wp_audit Beating.stable hy fun i z hz _ => ⟨hz.going.checked rfl, ?_⟩
      have hz : Beating lastContact fenced
          ((worker config).traced.next .heartbeats .readState i z) :=
        hz.next (by simp) rfl Bool.false_ne_true
      dsimp only [Program.ret_bind]
      split
      · split
        · exact sleep_wp hz fun _ hu => ih hu
        · trivial
      · refine heartbeat_wp hz (fun u hu hbeat => ?_) fun e u hu hbeat => ?_
        · refine contact_wp hu.going System.own_stable hbeat (fun _ h => .inr h) fun now v hv => ?_
          exact sleep_wp hv fun _ hu => ih hu
        · dsimp only
          split
          · exact fence_wp hu hbeat fun fired v hv => sleep_wp hv fun _ hu => ih hu
          · trivial
    · trivial

theorem Unheard.stable : (worker config).Stable Admits .heartbeats fun x => Unheard x.2 where
  call t' r' c i y hne _ hy e he := by
    rcases List.mem_append.mp he with he | he
    · exact hy e he
    · rw [List.mem_singleton.mp he]
      exact hne
  start _ _ _ _ _ hy := hy
  disturb _ _ hy := hy

theorem heartbeatLoop_wp {beats : Nat} (hx : Going .heartbeats x) (hunheard : Unheard x.2) :
    Meets config .heartbeats r (heartbeatLoop config beats) (fun _ _ => True) x :=
  contact_wp hx Unheard.stable hunheard (fun _ h => .inl h) fun _ _ hy => beat_wp hy

end Heartbeats

section Runs

variable {config : LoopConfig} {w : Worker} {c : Call} {i : Input} {x y : Seen} {r : Nat} {t : Loop}
variable {es : List WorkerCall} {d : Config Loop Nat Call Call.Answer Worker Raised Unit}

theorem idles_by (hc : c.Idles) : c.By .jobs := by
  cases c <;> trivial

theorem act_by (hc : c.By t) : (act c).Calls (Call.By t) := ⟨hc, fun _ => trivial⟩

theorem orRaise_by {β : Type} {p : Agent (Except Raised β)} (hp : p.Calls (Call.By t)) :
    (orRaise p).Calls (Call.By t) :=
  hp.bind fun answer => .ofExcept answer

theorem backOff_by : backOff.Calls (Call.By .jobs) := backOff_idles.mono fun _ => idles_by

theorem processClaim_by (claim : Claim) : (processClaim config claim).Calls (Call.By .jobs) := by
  have hjob : (runJob config claim).Calls (Call.By .jobs) :=
    (Program.calls_true _).expand fun c _ => ⟨trivial, fun _ => trivial⟩
  exact hjob.attempt.bind fun outcome => ⟨trivial, fun _ => .ofExcept outcome⟩

theorem claimAndProcess_by : (claimAndProcess config).Calls (Call.By .jobs) := by
  refine (orRaise_by (act_by (by trivial))).bind fun claimed => ?_
  cases claimed with
  | none => exact ⟨trivial, fun _ => trivial⟩
  | some dict => exact (Program.Calls.ofExcept dict).bind processClaim_by

theorem jobLoop_by (rounds : Nat) : (jobLoop config rounds).Calls (Call.By .jobs) := by
  induction rounds with
  | zero => exact ⟨trivial, fun _ => trivial⟩
  | succ rounds ih =>
    refine ⟨trivial, fun goes => ?_⟩
    dsimp only [Program.ret_bind]
    split
    · refine Program.Calls.bind (Program.Calls.rescue ?_ fun e => ?_) fun _ => ih
      · refine (orRaise_by (act_by (by trivial))).bind fun drained => ?_
        split
        · exact backOff_by
        · exact claimAndProcess_by
      · split
        · exact backOff_by
        · trivial
    · trivial

theorem beat_by {fenceAfter lastContact : Rat} {fenced : Bool} (beats : Nat) :
    (beat config fenceAfter beats lastContact fenced).Calls (Call.By .heartbeats) := by
  induction beats generalizing lastContact fenced with
  | zero => exact ⟨trivial, fun _ => trivial⟩
  | succ beats ih =>
    refine ⟨trivial, fun goes => ?_⟩
    dsimp only [Program.ret_bind]
    split
    · refine ⟨trivial, fun state => ?_⟩
      dsimp only [Program.ret_bind]
      split
      · split
        · exact ⟨trivial, fun _ => ih⟩
        · trivial
      · refine ⟨trivial, fun answered => ?_⟩
        dsimp only [Program.ret_bind]
        split
        · exact ⟨trivial, fun _ => ⟨trivial, fun _ => ih⟩⟩
        · split
          · exact ⟨trivial, fun _ => ⟨trivial, fun _ => ih⟩⟩
          · trivial
    · trivial

theorem body_by (t : Loop) (r : Nat) : (body config t r).Calls (Call.By t) := by
  cases t with
  | jobs => exact jobLoop_by r
  | heartbeats => exact ⟨trivial, fun _ => beat_by r⟩
  | signals => exact ⟨trivial, fun _ => trivial⟩

-- Nothing but an abort that was asked for cancels a job.
def OnlyRequested (e : Event) : Prop :=
  match e.op with
  | .job c => Requested c e.input.toInput e.pre.agent
  | _ => True

-- What holds of a loop that has not started.
structure Unstarted (x : Seen) : Prop where
  jobs : .jobs ∉ x.1.started → (∀ e ∈ x.2, e.thread ≠ .jobs) ∧ x.1.agent.currentJobId = none ∧
    (x.1.agent.abortRequested = true → x.1.agent.shuttingDown = true)
  heartbeats : .heartbeats ∉ x.1.started → Unheard x.2

theorem Unstarted.initial (hw : w.Fresh) : Unstarted (w, []) := by
  obtain ⟨hcurrent, -, hasked, -, -⟩ := hw
  refine ⟨fun _ => ⟨fun e he => (by cases he), hcurrent, fun h => ?_⟩, fun _ e he => (by cases he)⟩
  rw [hasked] at h
  cases h

theorem Unstarted.start {w' : Worker} (h : Unstarted x) (hs : start t r x.1 = some w') :
    Unstarted (w', x.2) := by
  obtain ⟨hagent, hstarted, -⟩ := start_agent hs
  refine ⟨fun hjobs => ?_, fun hheartbeats => h.heartbeats fun h => hheartbeats (hstarted h)⟩
  rw [hagent]
  exact h.jobs fun h => hjobs (hstarted h)

theorem Unstarted.call (h : Unstarted x) (ha : Admits t r c i x) (hc : Checked config t c x) :
    Unstarted ((worker config).traced.next t c i x) := by
  have hstarted : ((worker config).traced.next t c i x).1.started = x.1.started := next_started
  constructor
  · intro hjobs
    rw [hstarted] at hjobs
    obtain ⟨hlog, hcurrent, hasked⟩ := h.jobs hjobs
    have hne : t ≠ .jobs := fun heq => hjobs (heq ▸ hc.started (by simp [heq]))
    have hout := next_outside (i := i) (w := x.1) ha.1 hne
    refine ⟨fun e he => ?_, hout.current.trans hcurrent, fun hnow => ?_⟩
    · rcases List.mem_append.mp he with he | he
      · exact hlog e he
      · rw [List.mem_singleton.mp he]
        exact hne
    · rcases hout.unasked hnow with hbefore | hshutting | hfired
      · exact hout.shuttingDown (hasked hbefore)
      · exact hshutting
      · cases c with
        | fence fenceAfter lastContact fenced =>
          have hfires : x.1.fences fenceAfter lastContact fenced = true := hfired
          simp [Worker.fences, hcurrent] at hfires
        | _ => cases hfired
  · intro hheartbeats
    rw [hstarted] at hheartbeats
    intro e he
    rcases List.mem_append.mp he with he | he
    · exact h.heartbeats hheartbeats e he
    · rw [List.mem_singleton.mp he]
      exact fun heq => hheartbeats (heq ▸ hc.started (by
        have ht : t = .heartbeats := heq
        simp [ht]))

theorem body_wp {w' : Worker} (h : Unstarted x) (hs : start t r x.1 = some w') :
    Meets config t r (body config t r) (fun _ _ => True) (w', x.2) := by
  obtain ⟨hagent, -, hnew⟩ := start_agent hs
  cases t with
  | jobs =>
    obtain ⟨hstarted, hbefore⟩ := hnew (by simp)
    obtain ⟨hlog, hcurrent, hasked⟩ := h.jobs hbefore
    rw [← hagent] at hcurrent hasked
    exact jobLoop_wp ⟨⟨hstarted, not_over hlog⟩, ⟨fun hnow => .inl (hasked hnow),
      fun hne => absurd hcurrent hne⟩⟩
  | heartbeats =>
    obtain ⟨hstarted, hbefore⟩ := hnew (by simp)
    have hunheard : Unheard x.2 := h.heartbeats hbefore
    exact heartbeatLoop_wp ⟨hstarted, not_over hunheard⟩ hunheard
  | signals =>
    refine System.wp_audit (System.Stable.true _) trivial fun _ _ _ _ => ⟨?_, trivial⟩
    exact checked_of_unguarded (fun hne => absurd rfl hne) (fun hne => absurd rfl hne) rfl

theorem run_checked (h : WorkerRun config w es d) (hw : w.Fresh)
    (hcancels : ∀ e ∈ es, OnlyRequested e.toCallRecord) :
    ∀ xs e ys, es = xs ++ e :: ys →
      Checked config e.thread e.op (e.pre, xs.map ThreadCall.entry) := by
  have hby := (h.calls (A := fun t _ => Call.By t) fun t r _ _ _ => body_by t r).1
  have hadmits : ∀ xs e ys, es = xs ++ e :: ys →
      Admits e.thread e.request e.op e.input (e.pre, xs.map ThreadCall.entry) := by
    rintro xs e ys rfl
    have hmem : e ∈ xs ++ e :: ys := by simp
    exact ⟨hby e hmem, hcancels e hmem⟩
  have hbody : ∀ t r x w', Unstarted x → start t r x.1 = some w' →
      Meets config t r (body config t r) (fun _ _ => True) (w', x.2) :=
    fun t r x w' hx hs => body_wp hx hs
  obtain ⟨hchecked, -⟩ := h.audited_from (Unstarted.initial hw) hadmits hbody
    (fun t r x w' hx hs => hx.start (r := r) hs) (fun t r c i x hx ha hc => hx.call ha hc)
    fun _ _ hx => ⟨hx.jobs, hx.heartbeats⟩
  exact fun xs e ys heq => (hchecked xs e ys heq).2

-- At its start a job finds an abort standing only for a shutdown, or for a job before it that
-- died with its id current.
theorem aborts_confined (h : WorkerRun config w es d) (hw : w.Fresh)
    (hcancels : ∀ e ∈ es, OnlyRequested e.toCallRecord) :
    ∀ xs e ys, es = xs ++ e :: ys → e.op.begins = true → e.pre.agent.abortRequested = true →
      e.pre.agent.shuttingDown = true ∨ Leaked config (xs.map ThreadCall.entry) :=
  fun xs e ys heq hbegins => (run_checked h hw hcancels xs e ys heq).unasked hbegins

theorem not_fenced {P : Log → Entry Loop Call Worker Input → Prop} {log : Log}
    (hP : ∀ us m, P us m → m.op = .monotonic)
    (hsince : Since P (fun e => e.op ≠ .monotonic ∧ ¬Fired e.toCallRecord) log) : ¬Fenced log := by
  obtain ⟨us, m, vs, heq, hm, hquiet⟩ := hsince
  rintro ⟨us', f, vs', heq', hfired, hquiet'⟩
  have hop := hP us m hm
  rcases append_cons_cases (heq.symm.trans heq') with ⟨-, rfl, -⟩ | ⟨zs, -, rfl⟩ | ⟨zs, -, rfl⟩
  · simp [Fired, Call.fires, hop] at hfired
  · exact (hquiet f (by simp)).2 hfired
  · exact hquiet' m (by simp) hop

theorem Contact.unfenced {P : Worker → Prop} {log : Log} (hcontact : Contact P log)
    (hnot : ¬Fenced log) :
    Since (fun us e => e.op = .monotonic ∧ P e.pre ∧ (Unheard us ∨ Beat true us))
      (fun e => e.op ≠ .monotonic ∧ ¬Fired e.toCallRecord) log := by
  obtain ⟨us, m, vs, rfl, hm, hquiet⟩ := hcontact
  refine ⟨us, m, vs, rfl, hm, fun g hg => ⟨hquiet g hg, fun hfired => hnot ?_⟩⟩
  obtain ⟨as, bs, rfl⟩ := List.append_of_mem hg
  exact ⟨us ++ m :: as, g, bs, by simp, hfired, fun e he => hquiet e (by simp [he])⟩

-- A failed heartbeat fences exactly the first time in an outage that there is a job to fence and
-- the scheduler has not answered for long enough.
theorem fence_fires_iff (h : WorkerRun config w es d) (hw : w.Fresh)
    (hcancels : ∀ e ∈ es, OnlyRequested e.toCallRecord) :
    ∀ xs e ys, es = xs ++ e :: ys →
      ∀ fenceAfter lastContact fenced, e.op = .fence fenceAfter lastContact fenced →
        Beat false (xs.map ThreadCall.entry) ∧
        (Fired e.toCallRecord ↔ e.pre.agent.currentJobId ≠ none ∧
          Since (fun us m => m.op = .monotonic ∧
              fenceAfterSeconds config.orphanGraceSeconds ≤ e.pre.now - m.pre.now ∧
              (Unheard us ∨ Beat true us))
            (fun g => g.op ≠ .monotonic ∧ ¬Fired g.toCallRecord) (xs.map ThreadCall.entry)) := by
  intro xs e ys heq fenceAfter lastContact fenced hop
  obtain ⟨hafter, hfailed, hcontact, hfenced⟩ :=
    (run_checked h hw hcancels xs e ys heq).fence _ _ _ hop
  refine ⟨hfailed, ?_⟩
  have hfires : Fired e.toCallRecord ↔
      ¬Fenced (xs.map ThreadCall.entry) ∧ fenceAfter ≤ e.pre.now - lastContact ∧
        e.pre.agent.currentJobId ≠ none := by
    rw [← hfenced]
    simp only [Fired, Call.fires, hop, Worker.fences, Worker.lostFor, Bool.and_eq_true, Bool.not_eq_true',
      Option.isSome_iff_ne_none, and_assoc, Bool.not_eq_true]
    exact and_congr_right fun _ => and_congr_left fun _ => decide_eq_true_iff
  rw [hfires, hafter]
  constructor
  · rintro ⟨hnot, hlong, hcurrent⟩
    refine ⟨hcurrent, (hcontact.unfenced hnot).mono (fun us m hm => ?_) fun _ hg => hg⟩
    obtain ⟨hop, hnow, hheard⟩ := hm
    rw [hnow]
    exact ⟨hop, hlong, hheard⟩
  · rintro ⟨hcurrent, hsince⟩
    have hboth := Since.both hcontact (hsince.mono (fun _ _ hm => hm) fun _ hg => hg.1)
      (fun _ _ hm hne => hne hm.1) fun _ _ hm hne => hne hm.1
    obtain ⟨us, m, vs, -, ⟨⟨-, hnow, -⟩, -, hlong, -⟩, -⟩ := hboth
    exact ⟨not_fenced (fun _ _ hm => hm.1) hsince, hnow ▸ hlong, hcurrent⟩

end Runs

section Sample

theorem onlyRequested_of_uncancelled {es : List WorkerCall}
    (h : es.all (fun e => !e.input.fault.any (·.kind = .cancelled)) = true) :
    ∀ e ∈ es, OnlyRequested e.toCallRecord := by
  intro e he
  have hno := List.all_eq_true.mp h e he
  unfold OnlyRequested
  split
  · intro hcancelled
    rw [hcancelled] at hno
    cases hno
  · trivial

def jobCalls (n : Nat) : List WorkerMove := List.replicate n (.call .jobs {})

-- The share of the first job's source fails, and the scheduler is lost before the second job.
def sampleLeak : List WorkerMove :=
  [.start .heartbeats 1, .call .heartbeats {}, .start .jobs 2] ++ jobCalls 2 ++ [claimsJob] ++
    jobCalls 3 ++ [.call .jobs { fault := some { kind := .os } }] ++ jobCalls 3 ++ partition ++
    jobCalls 2 ++ [claimsJob] ++ jobCalls 1

def leaked : Played := (play sampleLeak).get (by decide +kernel)

def secondJob : WorkerCall := leaked.1[18]?.get (by decide +kernel)

theorem aborts_confined_leaked : Leaked sampleLoops ((leaked.1.take 18).map ThreadCall.entry) := by
  have hrun := play_run (p := leaked) (Option.some_get _).symm
  have hsplit : leaked.1 = _ := split_at (e := secondJob) (Option.some_get _).symm
  have hcause := aborts_confined hrun fresh_initial (onlyRequested_of_uncancelled (by decide +kernel))
    _ _ _ hsplit (by decide +kernel) (by decide +kernel)
  exact hcause.resolve_left (by decide +kernel)

def fenceCall : WorkerCall := leaked.1[14]?.get (by decide +kernel)

theorem fence_of_fired {e : Event} (h : Fired e) :
    ∃ fenceAfter lastContact fenced, e.op = .fence fenceAfter lastContact fenced := by
  unfold Fired at h
  cases hop : e.op with
  | fence fenceAfter lastContact fenced => exact ⟨_, _, _, rfl⟩
  | _ =>
    rw [hop] at h
    cases h

theorem fence_fires_iff_leaked :
    Beat false ((leaked.1.take 14).map ThreadCall.entry) ∧ fenceCall.pre.agent.currentJobId ≠ none := by
  have hrun := play_run (p := leaked) (Option.some_get _).symm
  have hsplit : leaked.1 = _ := split_at (e := fenceCall) (Option.some_get _).symm
  have hfired : Fired fenceCall.toCallRecord := by decide +kernel
  obtain ⟨_, _, _, hop⟩ := fence_of_fired hfired
  obtain ⟨hfailed, hfires⟩ := fence_fires_iff hrun fresh_initial
    (onlyRequested_of_uncancelled (by decide +kernel)) _ _ _ hsplit _ _ _ hop
  exact ⟨hfailed, (hfires.mp hfired).1⟩

end Sample

end TranscodeForge.AgentLoops
