import TranscodeForge.Vmaf.Score
import TranscodeForge.Worker.SwapCarries

namespace TranscodeForge.Vmaf

open Interaction SourcePath Streams Filesystem Ownership Pipeline Phases CallClasses SwapCarries

-- The calls that move the source, if at all, in SWAP.
def Sparing (c : Call) : Bool :=
  match c.action with
  | .replace _ _ | .unlink (.media .source) => false
  | .setMutating | .rename _ _ => c.site == .atomicSwap
  | _ => true

def Available (e : CallRecord Call PathState Input) : Bool :=
  match e.op.action with
  | .hasLibvmaf => e.input.libvmaf
  | .findQuality _ => decide (e.input.search ≠ .error .unavailable)
  | _ => true

def Reads (score : Except VmafFailure VmafScore) (e : CallRecord Call PathState Input) : Bool :=
  match e.op.action with
  | .measureVmaf _ _ => decide (e.input.score = score)
  | _ => true

theorem Entering.sparing {c : Call} (h : Entering c) : Sparing c := by
  obtain ⟨site, action⟩ := c
  cases action with
  | unlink f => rcases f with (_ | _ | _) | _ | _ <;> first | rfl | exact nomatch h
  | _ => first | rfl | exact nomatch h

theorem Quiet.sparing {c : Call} (h : Quiet c) : Sparing c := by
  obtain ⟨site, action⟩ := c
  cases action with
  | unlink f => rcases f with (_ | _ | _) | _ | _ <;> first | rfl | exact nomatch h
  | _ => first | rfl | exact nomatch h

theorem sparing_owning : Owning (Sparing ·) := by
  refine ⟨fun _ => Quiet.sparing, ?_, ?_, ?_, ?_, ?_, ?_, ?_⟩ <;> rfl

structure Spared (w : String) (s s' : PathState) : Prop where
  source : s'.source = s.source
  mutating : (s.own w).mutating = false → (s'.own w).mutating = false

theorem Spared.refl (w : String) (s : PathState) : Spared w s s := ⟨rfl, id⟩

theorem Spared.of_loose {w : String} {s s' : PathState} (h : Loose w s s') : Spared w s s' :=
  ⟨h.source, fun hm => h.mutating.trans hm⟩

theorem exec_sparing (a : Actor) {c : Call} (i : Input) (s : PathState) (h : Sparing c)
    (hswap : ¬ Swaps c) : Spared a.worker s (exec a c i s).1 := by
  obtain ⟨site, action⟩ := c
  cases action with
  | replace src dst => cases h
  | rename src dst => simp_all [Sparing, Swaps]
  | setMutating => simp_all [Sparing, Swaps]
  | unlink f =>
    simp only [exec]
    split
    · exact .refl ..
    · split
      · rcases f with (_ | _ | _) | _ | _ <;> first | exact ⟨rfl, id⟩ | cases h
      · exact .refl ..
  | openExclusive =>
    simp only [exec]
    split
    · exact .refl ..
    · split
      · exact .refl ..
      · refine ⟨rfl, fun hm => ?_⟩
        simpa [PathState.createLock, PathState.setHold, PathState.setSaw, PathState.setOwn] using hm
  | writeLock text =>
    simp only [exec]
    split
    · exact ⟨rfl, id⟩
    · exact .of_loose ((Calm.writeThrough ..).trans (.stampHold ..)).toLoose
  | openTransaction => exact ⟨rfl, fun _ => by simp [exec, PathState.setOwn]⟩
  | setConfirmed => exact ⟨rfl, fun hm => by simpa [exec, PathState.setOwn] using hm⟩
  | endTouch => exact ⟨rfl, fun hm => by simpa [exec, PathState.setOwn] using hm⟩
  | «exists» f =>
    simp only [exec]
    split
    · split <;> exact ⟨rfl, id⟩
    · exact .of_loose (Calm.sawAbsence ..).toLoose
  | stat m =>
    simp only [exec]
    split
    · split <;> exact ⟨rfl, id⟩
    · exact .of_loose (Calm.examine ..).toLoose
  | writeNew text =>
    simp only [exec]
    split
    · split <;> exact ⟨rfl, id⟩
    · exact ⟨rfl, id⟩
  | replaceLock =>
    simp only [exec]
    split
    · exact .refl ..
    · exact .refl ..
    · exact ⟨by simp, by simp⟩
  | checkCancelled =>
    simp only [exec]
    split <;> exact ⟨rfl, id⟩
  | abortRequested =>
    simp only [exec]
    split <;> exact ⟨rfl, id⟩
  | beginConfirm => exact ⟨rfl, id⟩
  | report r => exact ⟨rfl, id⟩
  | _ => exact .of_loose (exec_still a ⟨site, _⟩ s i rfl).toLoose

section Keeps

variable {a : Actor} {rely : PathState → PathState → Prop} {α : Type} {s : PathState}

def spared (rely : PathState → PathState → Prop) : Contract Call PathState Input where
  rely := rely
  assume := fun op _ _ => ¬ Swaps op
  guar := fun _ _ s s' => s'.source = s.source

theorem sparing_wp {p : Worker α} (hp : p.Calls (Sparing ·)) :
    p.wp handler a (spared rely) (fun _ _ => True) s :=
  Program.wp_of_calls hp trivial (fun _ _ _ _ => trivial)
    fun _ i s hc _ _ hswap => ⟨(exec_sparing a i s hc hswap).source, trivial⟩

variable (hmemory : ∀ s s', rely s s' → (s'.own a.worker).mutating = (s.own a.worker).mutating)

include hmemory

theorem unmutated_wp {p : Worker α} (hp : p.Calls (Sparing ·))
    (hs : (s.own a.worker).mutating = false) :
    p.wp handler a (spared rely) (fun _ s => (s.own a.worker).mutating = false) s :=
  Program.wp_of_calls hp hs (fun s s' h hr => (hmemory s s' hr).trans h)
    fun _ i s hc hs _ hswap =>
      ⟨(exec_sparing a i s hc hswap).source, (exec_sparing a i s hc hswap).mutating hs⟩

theorem enter_spares (own : SourceOwnership) :
    (enter own).wp handler a (spared rely) (fun _ s => (s.own a.worker).mutating = false) s := by
  have hcalls := (enter_entering own).mono fun _ => Entering.sparing
  intro s' _ _ i _
  refine ⟨rfl, unmutated_wp hmemory (hcalls.2 ()) ?_⟩
  simp [Handler.next, handler, exec, PathState.setOwn]

-- No rollback without a swap.
theorem settle_spares (own : SourceOwnership) (hs : (s.own a.worker).mutating = false) :
    (settle own).wp handler a (spared rely) (fun _ _ => True) s := by
  have hrelease : (releaseArtifacts own).Calls (Sparing ·) :=
    (releaseArtifacts_steady own).mono fun _ hc => Entering.sparing (Steady.entering hc)
  refine Program.wp_seq (unmutated_wp hmemory (act_calls (by rfl)) hs) (fun _ s hs => ?_)
    fun _ _ _ => trivial
  intro s' hr _ i _
  have hown : (s'.own a.worker).mutating = false := (hmemory s s' hr).trans hs
  refine ⟨rfl, ?_⟩
  change Program.wp handler a (spared rely) (if ((s'.own a.worker).mutating &&
    !(s'.own a.worker).confirmed) = true then _ else releaseArtifacts own) _ s'
  rw [hown]
  exact sparing_wp hrelease

theorem runPipeline_spares (job : PipelineJob) :
    (runPipeline job).wp handler a (spared rely) (fun _ _ => True) s := by
  have hstat : (awaiting (orRaise (act .runPipeline (.stat .source)))).Calls (Sparing ·) :=
    awaiting_calls (by rfl) (orRaise_calls (act_calls (by rfl)))
  refine Program.wp_seq (sparing_wp hstat) (fun srcStat s _ => ?_) fun _ _ _ => trivial
  refine Program.wp_seq (sparing_wp (sparing_owning.calls (preflight_quiet job)))
    (fun found s _ => ?_) fun _ _ _ => trivial
  refine Program.wp_seq (sparing_wp (Program.Calls.ofExcept _)) (fun _ s _ => ?_)
    fun _ _ _ => trivial
  refine Program.wp_seq (enter_spares hmemory _) (fun _ s hs => ?_) fun _ _ _ => trivial
  refine Program.wp_seq (R := fun _ s => (s.own a.worker).mutating = false)
    (unmutated_wp hmemory (sparing_owning.owned job srcStat found.2 found.1).attempt hs)
    (fun outcome s hs => ?_) fun _ _ _ => trivial
  refine Program.wp_seq (R := fun _ _ => True) ?_ (fun _ s _ => sparing_wp (.ofExcept _))
    fun _ _ _ => trivial
  refine Program.wp_seq (settle_spares hmemory _ hs) (fun _ s _ => ?_) fun _ _ _ => trivial
  exact sparing_wp ((checkpoint_calls (by rfl)).bind fun _ => trivial)

end Keeps

section Passes

variable {a : Actor} {rely : PathState → PathState → Prop} {s s' : PathState}
  {es : List (CallRecord Call PathState Input)} {job : PipelineJob} {backend : String}
  {height : Option Nat} {scores : List Score} {S : Sorting}

theorem awaited {site : Site} {action : Action} {r : action.Answer}
    (h : Exec handler a rely (awaiting (act site action)) s es (.ret r) s') :
    ∃ i s₁ s₂, ⟨⟨site, action⟩, i, s₁, s₂⟩ ∈ es ∧ r = (exec a ⟨site, action⟩ i s₁).2 := by
  obtain ⟨x, s₁, es₁, es₂, hact, hrest, rfl⟩ := h.bind_ret
  obtain ⟨_, s₂, es₃, es₄, _, hret, rfl⟩ := hrest.bind_ret
  obtain ⟨hx, -⟩ := hret.of_ret
  cases hx
  obtain ⟨i, s₃, rfl, rfl⟩ := Exec.perform_ret hact
  exact ⟨i, s₃, handler.next a ⟨site, action⟩ i s₃, by simp, rfl⟩

theorem vmafAvailable_answers {available : Bool}
    (h : Exec handler a rely (vmafAvailable job) s es (.ret available) s')
    (hes : ∀ e ∈ es, Available e) : available = true := by
  unfold vmafAvailable at h
  split at h
  · obtain ⟨i, s₁, s₂, hmem, rfl⟩ := awaited h
    exact hes _ hmem
  · obtain ⟨hret, -⟩ := h.of_ret
    cases hret
    rfl

theorem search_answers {primaryIndex : Option Nat} {found : Search}
    (h : Exec handler a rely (search job backend height primaryIndex true) s es (.ret found) s')
    (hes : ∀ e ∈ es, Available e) : found.vmafAvailable = true := by
  unfold search at h
  split at h
  · obtain ⟨_, s₁, es₁, es₂, _, h₁, rfl⟩ := h.bind_ret
    obtain ⟨answer, s₂, es₃, es₄, hfind, h₂, rfl⟩ := h₁.bind_ret
    obtain ⟨i, s₃, s₄, hmem, rfl⟩ := awaited hfind
    have havailable := hes _ (List.mem_append_right _ (List.mem_append_left _ hmem))
    rcases hsearch : i.search with (_ | message | message) | (_ | result)
    all_goals simp only [exec, hsearch] at h₂
    · simp [Available, hsearch] at havailable
    · cases h₂.of_ret.1
      rfl
    · cases h₂.of_raise.1
    · cases h₂.of_ret.1
      rfl
    · cases h₂.of_ret.1
      rfl
  · cases h.of_ret.1
    rfl

theorem produce_answers {produced : Produced}
    (h : Exec handler a rely (produce job backend height) s es (.ret produced) s')
    (hes : ∀ e ∈ es, Available e) : produced.found.vmafAvailable = true := by
  obtain ⟨source, s₁, es₁, _, _, h₁, rfl⟩ := h.bind_ret
  obtain ⟨available, s₂, es₂, _, havailable, h₂, rfl⟩ := h₁.bind_ret
  obtain ⟨found, s₃, es₃, _, hsearch, h₃, rfl⟩ := h₂.bind_ret
  obtain ⟨_, s₄, es₄, _, _, h₄, rfl⟩ := h₃.bind_ret
  obtain ⟨_, s₅, es₅, _, _, h₅, rfl⟩ := h₄.bind_ret
  obtain ⟨_, s₆, es₆, _, _, h₆, rfl⟩ := h₅.bind_ret
  obtain ⟨_, s₇, es₇, _, _, h₇, rfl⟩ := h₆.bind_ret
  obtain ⟨_, s₈, es₈, _, _, h₈, rfl⟩ := h₇.bind_ret
  cases h₈.of_ret.1
  obtain rfl := vmafAvailable_answers havailable fun e he => hes e (by simp [he])
  exact search_answers hsearch fun e he => hes e (by simp [he])

theorem gate_passes {resolvedCrf : Int} {found : Search} {vmaf : Option VmafScore}
    (h : Exec handler a rely (gate job backend height resolvedCrf found) s es (.ret vmaf) s')
    (htarget : job.targetVmaf.isSome) (hfound : found.vmafAvailable = true)
    (hes : ∀ e ∈ es, Reads ((pool S scores).map PooledScore.toVmafScore) e) :
    Passing job.vmafSafetyMean job.vmafSafetyPerc5 scores := by
  rw [gate, htarget, hfound] at h
  obtain ⟨_, s₁, es₁, es₂, _, h₁, rfl⟩ := h.bind_ret
  obtain ⟨answer, s₂, es₃, es₄, hmeasure, h₂, rfl⟩ := h₁.bind_ret
  obtain ⟨i, s₃, s₄, hmem, rfl⟩ := awaited hmeasure
  have hread := hes _ (List.mem_append_right _ (List.mem_append_left _ hmem))
  have hscore : i.score = (pool S scores).map PooledScore.toVmafScore := by
    simpa [Reads] using hread
  simp only [exec, hscore] at h₂
  cases hpool : pool S scores with
  | error e =>
    obtain ⟨message, rfl⟩ := pool_error hpool
    rw [hpool] at h₂
    cases h₂.of_raise.1
  | ok score =>
    rw [hpool] at h₂
    by_cases hbelow : score.mean < job.vmafSafetyMean ∨ score.perc5 < job.vmafSafetyPerc5
    · simp only [Except.map, if_pos hbelow] at h₂
      cases h₂.of_raise.1
    · exact passing_of_pool hpool hbelow

theorem transcode_passes {sourceSize : Nat} {encoded : Encoded}
    (h : Exec handler a rely (transcode job backend height sourceSize) s es (.ret encoded) s')
    (htarget : job.targetVmaf.isSome) (havailable : ∀ e ∈ es, Available e)
    (hes : ∀ e ∈ es, Reads ((pool S scores).map PooledScore.toVmafScore) e) :
    Passing job.vmafSafetyMean job.vmafSafetyPerc5 scores := by
  obtain ⟨produced, s₁, es₁, _, hproduce, h₁, rfl⟩ := h.bind_ret
  obtain ⟨_, s₂, es₂, _, _, h₂, rfl⟩ := h₁.bind_ret
  obtain ⟨_, s₃, es₃, _, _, h₃, rfl⟩ := h₂.bind_ret
  obtain ⟨_, s₄, es₄, _, _, h₄, rfl⟩ := h₃.bind_ret
  obtain ⟨_, s₅, es₅, _, _, h₅, rfl⟩ := h₄.bind_ret
  obtain ⟨_, s₆, es₆, _, _, h₆, rfl⟩ := h₅.bind_ret
  obtain ⟨vmaf, s₇, es₇, _, hgate, h₇, rfl⟩ := h₆.bind_ret
  have hfound := produce_answers hproduce fun e he => havailable e (by simp [he])
  exact gate_passes hgate htarget hfound fun e he => hes e (by simp [he])

theorem owned_passes {srcStat : Stat} {p : Worker PipelineResult}
    (h : Exec handler a rely (owned job srcStat backend height) s es p s')
    (hswaps : ∃ e ∈ es, Swaps e.op) (htarget : job.targetVmaf.isSome)
    (havailable : ∀ e ∈ es, Available e)
    (hes : ∀ e ∈ es, Reads ((pool S scores).map PooledScore.toVmafScore) e) :
    Passing job.vmafSafetyMean job.vmafSafetyPerc5 scores := by
  obtain ⟨encoded, s₁, es₁, es₂, htranscode, _, rfl, _⟩ := h.past (A := (Swaps ·))
    ((produce_notSwaps ..).bind fun _ => verifyAndCompare_notSwaps ..) hswaps
  exact transcode_passes htranscode htarget (fun e he => havailable e (by simp [he]))
    fun e he => hes e (by simp [he])

theorem owned_swaps {srcStat : Stat} {r : PipelineResult}
    (h : Exec handler a rely (owned job srcStat backend height) s es (.ret r) s') :
    ∃ e ∈ es, Swaps e.op := by
  obtain ⟨encoded, s₁, es₁, _, _, h₁, rfl⟩ := h.bind_ret
  obtain ⟨_, s₂, es₂, _, hphase, _, rfl⟩ := h₁.bind_ret
  obtain ⟨raised, s₃, es₃, _, hcall, _, rfl⟩ := hphase.bind_ret
  obtain ⟨i, s₄, s₅, hmem, _⟩ := awaited hcall
  exact ⟨_, List.mem_append_right _ (List.mem_append_left _ (List.mem_append_left _ hmem)), rfl⟩

theorem transaction_passes {srcStat : Stat} {p : Worker PipelineResult}
    (h : Exec handler a rely (transaction job.ownership (owned job srcStat backend height))
      s es p s') (hswaps : ∃ e ∈ es, Swaps e.op) (htarget : job.targetVmaf.isSome)
    (havailable : ∀ e ∈ es, Available e)
    (hes : ∀ e ∈ es, Reads ((pool S scores).map PooledScore.toVmafScore) e) :
    Passing job.vmafSafetyMean job.vmafSafetyPerc5 scores := by
  obtain ⟨_, s₁, es₁, es₂, _, hbody, rfl, hswaps₁⟩ := h.past (A := (Swaps ·))
    (early_notSwaps (enter_early _)) hswaps
  rcases hbody.bind_cases with ⟨p', hattempt, _⟩ | ⟨outcome, s₂, es₃, es₄, hattempt, hsettle, rfl⟩
  · obtain ⟨q, howned, _⟩ := hattempt.attempt_cases
    exact owned_passes howned hswaps₁ htarget (fun e he => havailable e (by simp [he]))
      fun e he => hes e (by simp [he])
  · obtain ⟨q, howned, _⟩ := hattempt.attempt_cases
    have hafter : (Program.bind (settled (settle job.ownership)) fun _ =>
        Program.ofExcept outcome : Worker PipelineResult).Calls (Early ·) :=
      (settled_early (settle_early _)).bind fun _ => Program.Calls.ofExcept _
    have hreached : ∃ e ∈ es₃, Swaps e.op := by
      obtain ⟨e, he, hswap⟩ := hswaps₁
      rcases List.mem_append.mp he with he | he
      · exact ⟨e, he, hswap⟩
      · exact absurd hswap (Early.notSwaps ((hsettle.calls hafter).1 e he))
    exact owned_passes howned hreached htarget (fun e he => havailable e (by simp [he]))
      fun e he => hes e (by simp [he])

theorem runPipeline_passes {p : Worker PipelineResult}
    (h : Exec handler a rely (runPipeline job) s es p s') (hswaps : ∃ e ∈ es, Swaps e.op)
    (htarget : job.targetVmaf.isSome) (havailable : ∀ e ∈ es, Available e)
    (hes : ∀ e ∈ es, Reads ((pool S scores).map PooledScore.toVmafScore) e) :
    Passing job.vmafSafetyMean job.vmafSafetyPerc5 scores := by
  have hstatEarly : (awaiting (orRaise (act .runPipeline (.stat .source)))).Calls (Early ·) :=
    awaiting_early (orRaise_calls (act_calls (by rfl)))
  obtain ⟨srcStat, s₁, es₁, rest₁, _, h₁, rfl, hswaps₁⟩ := h.past (A := (Swaps ·))
    (early_notSwaps hstatEarly) hswaps
  obtain ⟨⟨height, backend⟩, s₂, es₂, rest₂, _, h₂, rfl, hswaps₂⟩ :=
    h₁.past (A := (Swaps ·)) (early_notSwaps (preflight_early job)) hswaps₁
  obtain ⟨_, s₃, es₃, rest₃, _, h₃, rfl, hswaps₃⟩ := h₂.past (A := (Swaps ·))
    (Program.Calls.ofExcept _) hswaps₂
  exact transaction_passes h₃ hswaps₃ htarget (fun e he => havailable e (by simp [he]))
    fun e he => hes e (by simp [he])

theorem runPipeline_swaps {r : PipelineResult}
    (h : Exec handler a rely (runPipeline job) s es (.ret r) s') : ∃ e ∈ es, Swaps e.op := by
  obtain ⟨srcStat, s₁, es₁, _, _, h₁, rfl⟩ := h.bind_ret
  obtain ⟨⟨height, backend⟩, s₂, es₂, _, _, h₂, rfl⟩ := h₁.bind_ret
  obtain ⟨_, s₃, es₃, _, _, h₃, rfl⟩ := h₂.bind_ret
  obtain ⟨_, s₄, es₄, _, _, h₄, rfl⟩ := h₃.bind_ret
  obtain ⟨outcome, s₅, es₅, _, hattempt, h₅, rfl⟩ := h₄.bind_ret
  obtain ⟨_, s₆, es₆, _, _, h₆, rfl⟩ := h₅.bind_ret
  obtain ⟨rfl, rfl⟩ := h₆.ofExcept_ret
  obtain ⟨q, howned, hq⟩ := hattempt.attempt_cases
  cases q with
  | ret r =>
    obtain ⟨e, he, hswap⟩ := owned_swaps howned
    exact ⟨e, by simp [he], hswap⟩
  | raise e => cases hq
  | call op k => cases hq

theorem vmaf_gate_sound {p : Worker PipelineResult} (S : Sorting) (scores : List Score)
    (stderr : String) (htarget : job.targetVmaf.isSome)
    (hmemory : ∀ s s', rely s s' → (s'.own a.worker).mutating = (s.own a.worker).mutating)
    (h : Exec handler a rely (runPipeline job) s es p s')
    (havailable : ∀ e ∈ es, Available e)
    (hlog : ∀ e ∈ es,
      Reads ((measureVmaf S (.exited 0 stderr (.ok scores))).map PooledScore.toVmafScore) e) :
    ((∃ e ∈ es, Swaps e.op) → ∃ qs : List Rat, scores = qs.map .finite ∧ qs ≠ [] ∧
      job.vmafSafetyMean ≤ mean qs ∧ job.vmafSafetyPerc5 ≤ percentile5 qs ∧
      20 * qs.countP (· < job.vmafSafetyPerc5) ≤ qs.length) ∧
    (¬ Passing job.vmafSafetyMean job.vmafSafetyPerc5 scores →
      (∀ e ∈ es, ¬ Swaps e.op) ∧ (∀ e ∈ es, e.post.source = e.pre.source) ∧
        ∀ r, p ≠ .ret r) := by
  have hes : ∀ e ∈ es, Reads ((pool S scores).map PooledScore.toVmafScore) e := hlog
  refine ⟨fun hswaps => ?_, fun hfails => ?_⟩
  · obtain ⟨qs, rfl, hqs, hmean, hperc5⟩ := runPipeline_passes h hswaps htarget havailable hes
    exact ⟨qs, rfl, hqs, hmean, hperc5, countP_below hqs hperc5⟩
  · have hnone : ∀ e ∈ es, ¬ Swaps e.op := fun e he hswap =>
      hfails (runPipeline_passes h ⟨e, he, hswap⟩ htarget havailable hes)
    refine ⟨hnone, (Exec.adequate (C := spared rely) h (runPipeline_spares hmemory job) hnone).1,
      fun r hr => ?_⟩
    subst hr
    obtain ⟨e, he, hswap⟩ := runPipeline_swaps h
    exact hnone e he hswap

end Passes

section Sample

open NeverLose

instance : DecidableRel Score.le
  | .finite a, .finite b => inferInstanceAs (Decidable (a ≤ b))
  | .nan, x => isFalse (by cases x <;> exact id)
  | .finite _, .nan | .posInf, .nan | .negInf, .nan => isFalse id
  | .finite _, .posInf | .posInf, .posInf => isTrue trivial
  | .negInf, .finite _ | .negInf, .posInf | .negInf, .negInf => isTrue trivial
  | .finite _, .negInf | .posInf, .finite _ | .posInf, .negInf => isFalse id

-- An order that places a NaN as well, after everything else.
def Before (x y : Score) : Prop := y = .nan ∨ x.le y

instance : DecidableRel Before := fun _ _ => inferInstanceAs (Decidable (_ ∨ _))

instance : Std.Total Before where
  total x y := by
    cases x <;> cases y <;> simp [Before, Score.le, le_total]

instance : IsTrans Score Before where
  trans x y z := by
    cases x <;> cases y <;> cases z <;> simp [Before, Score.le]
    exact le_trans

def insertionSorting : Sorting where
  sorted scores := scores.insertionSort Before
  perm scores := List.perm_insertionSort Before scores
  ordered scores hnan := by
    have hmem : ∀ x ∈ scores.insertionSort Before, x ≠ .nan := fun x hx =>
      hnan x ((List.mem_insertionSort Before).mp hx)
    refine (List.pairwise_insertionSort Before scores).imp_of_mem fun _ hy h => ?_
    exact h.resolve_left (hmem _ hy)

def gatedJob : PipelineJob := { sampleJob "a" with targetVmaf := some 95 }

def measured (scores : List Score) : Input :=
  { allPass with
    libvmaf := true
    score := (pool insertionSorting scores).map PooledScore.toVmafScore }

def gatedSwap : DrivenPipeline :=
  ((runPipeline gatedJob).drive handler ⟨"a", .main⟩
    (List.replicate 55 (measured [.finite 97, .finite 96])) samplePath).get (by decide +kernel)

theorem vmaf_gate_sound_swap : ∃ qs : List Rat,
    [.finite 97, .finite 96] = qs.map Score.finite ∧ qs ≠ [] ∧ 90 ≤ mean qs ∧
      80 ≤ percentile5 qs ∧ 20 * qs.countP (· < 80) ≤ qs.length :=
  (vmaf_gate_sound insertionSorting [.finite 97, .finite 96] "" rfl
    (fun s s' (h : Undisturbed "a" s s') => h.mutating)
    (Exec.drive (Undisturbed.refl "a") (Option.some_get _).symm)
    (by decide +kernel) (by decide +kernel)).1
    (by decide +kernel : ∃ e ∈ gatedSwap.1, Swaps e.op)

end Sample

end TranscodeForge.Vmaf
