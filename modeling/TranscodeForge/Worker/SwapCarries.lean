import TranscodeForge.Interaction.Sequence
import TranscodeForge.Worker.NeverLose
import TranscodeForge.Worker.StreamMap

namespace TranscodeForge.SwapCarries

open Interaction SourcePath Streams Filesystem Ownership Pipeline Phases CallClasses StreamMap

inductive Hearing where
  | inventory (m : Media) (answer : Except ProbeFailure (List StreamInfo))
  | unmuxable (dropSubStreams : List Int)

def hearing (e : CallRecord Call PathState Input) : Option Hearing :=
  match e.op.action with
  | .streamInventory m => some (.inventory m e.input.streams)
  | .unmuxableSubtitles => some (.unmuxable e.input.subtitles)
  | _ => none

def hearings (es : List (CallRecord Call PathState Input)) : List Hearing :=
  es.filterMap hearing

-- SWAP begins with the phase callback and goes on in `atomic_swap`.
def Swaps (c : Call) : Bool :=
  c.site == .atomicSwap || c.action == .callback "swap"

def Deaf (c : Call) : Bool :=
  match c.action with
  | .streamInventory _ | .unmuxableSubtitles => false
  | _ => true

def Early (c : Call) : Bool := Deaf c && !Swaps c

theorem Early.deaf {c : Call} (h : Early c) : Deaf c := (Bool.and_eq_true_iff.mp h).1

theorem Early.notSwaps {c : Call} (h : Early c) : ¬ Swaps c := by
  have := (Bool.and_eq_true_iff.mp h).2
  simpa using this

section Classes

variable {α : Type}

theorem early_deaf {p : Worker α} (h : p.Calls (Early ·)) : p.Calls (Deaf ·) :=
  h.mono fun _ => Early.deaf

theorem early_notSwaps {p : Worker α} (h : p.Calls (Early ·)) : p.Calls (¬ Swaps ·) :=
  h.mono fun _ => Early.notSwaps

theorem checkpoint_early : checkpoint.Calls (Early ·) := checkpoint_calls (by rfl)

theorem awaiting_early {p : Worker α} (h : p.Calls (Early ·)) :
    (awaiting p).Calls (Early ·) := awaiting_calls (by rfl) h

theorem phase_early {name : String} (h : name ≠ "swap") : (phase name).Calls (Early ·) := by
  refine (awaiting_early (act_calls ?_)).bind fun raised => ?_
  · simpa [Early, Deaf, Swaps] using h
  · cases raised <;> trivial

theorem preflight_early (job : PipelineJob) : (preflight job).Calls (Early ·) := by
  unfold preflight
  split
  · refine (awaiting_early (act_calls (by rfl))).bind fun probe => ?_
    rcases probe with (_ | _) | _ <;> trivial
  · trivial

theorem vmafAvailable_early (job : PipelineJob) : (vmafAvailable job).Calls (Early ·) := by
  unfold vmafAvailable
  split
  · exact awaiting_early (act_calls (by rfl))
  · trivial

theorem search_early (job : PipelineJob) (backend : String) (height primaryIndex : Option Nat)
    (available : Bool) : (search job backend height primaryIndex available).Calls (Early ·) := by
  unfold search
  split
  · refine (phase_early (by decide)).bind fun _ =>
      (awaiting_early (act_calls (by rfl))).bind fun found => ?_
    rcases found with (_ | _ | _) | (_ | _) <;> trivial
  · trivial

theorem encode_early (request : EncodeRequest) : (encode request).Calls (Early ·) := by
  refine (awaiting_early (act_calls (by rfl))).bind fun result => ?_
  cases result with
  | error message => trivial
  | ok result =>
    dsimp only
    split <;> trivial

theorem decodeSample_early (m : Media) (sample offset : Rat) :
    (decodeSample m sample offset).Calls (Early ·) := by
  refine (awaiting_early (act_calls (by rfl))).bind fun result => ?_
  cases result with
  | timedOut => trivial
  | exited returncode stderr =>
    dsimp only
    split <;> trivial

theorem decodeCheck_early (m : Media) (duration : Rat) :
    (decodeCheck m duration).Calls (Early ·) := by
  unfold decodeCheck
  split
  · exact decodeSample_early ..
  · exact .each fun _ _ => decodeSample_early ..

theorem verifyOutput_early (job : PipelineJob) (m : Media) :
    (verifyOutput job m).Calls (Early ·) := by
  refine (awaiting_early (orRaise_calls (act_calls (by rfl)))).bind fun present => ?_
  split
  · refine (awaiting_early (orRaise_calls (act_calls (by rfl)))).bind fun stat => ?_
    split
    · trivial
    · refine (awaiting_early (act_calls (by rfl))).bind fun probed => ?_
      rcases probed with (message | message) | probe
      · trivial
      · trivial
      · exact (Program.Calls.ofExcept _).bind fun _ => (Program.Calls.ofExcept _).bind fun _ =>
          decodeCheck_early ..
  · trivial

theorem compareSize_early (sourceSize : Nat) (resolvedCrf : Int) (backend : String)
    (predicted : Option QualitySearchResult) :
    (compareSize sourceSize resolvedCrf backend predicted).Calls (Early ·) := by
  refine (awaiting_early (orRaise_calls (act_calls (by rfl)))).bind fun stat => ?_
  split <;> trivial

theorem gate_early (job : PipelineJob) (backend : String) (height : Option Nat)
    (resolvedCrf : Int) (found : Search) :
    (gate job backend height resolvedCrf found).Calls (Early ·) := by
  unfold gate
  split
  · refine (phase_early (by decide)).bind fun _ =>
      (awaiting_early (act_calls (by rfl))).bind fun score => ?_
    rcases score with (_ | _ | _) | score
    · trivial
    · trivial
    · trivial
    · dsimp only
      split <;> trivial
  · trivial

theorem settled_early {p : Worker α} (h : p.Calls (Early ·)) : (settled p).Calls (Early ·) :=
  h.bind fun _ => checkpoint_early.bind fun _ => trivial

theorem settled_deaf {p : Worker α} (h : p.Calls (Deaf ·)) : (settled p).Calls (Deaf ·) :=
  h.bind fun _ => (early_deaf checkpoint_early).bind fun _ => trivial

theorem enter_early (own : SourceOwnership) : (enter own).Calls (Early ·) := by
  have hrelease : (releaseLock own).Calls (Early ·) := by
    refine (lockMatches_calls _ _ (by rfl)).bind fun held => ?_
    cases held
    · trivial
    · exact safeDelete_calls (by rfl) (by rfl)
  have hacquire : (acquireLock own.jobId own.workerId).Calls (Early ·) := by
    have hcontent : lockContent.Calls (Early ·) := by
      refine ⟨rfl, fun content => ?_⟩
      rcases content with e | (_ | _ | _ | _) <;> trivial
    refine ⟨rfl, fun timestamp => ⟨rfl, fun opened => ?_⟩⟩
    rcases opened with (_ | _ | _) | _
    · trivial
    · exact hcontent.bind fun _ => trivial
    · trivial
    · exact orRaise_calls (act_calls (by rfl))
  refine (act_calls (by rfl)).bind fun _ => Program.Calls.bind (Program.Calls.rescue
    (settled_early hacquire) fun e => ?_) fun _ => act_calls (by rfl)
  cases e with
  | cancelled => exact (settled_early hrelease).bind fun _ => trivial
  | _ => trivial

theorem inventory_notSwaps (m : Media) (step complaint : String) :
    (inventory m step complaint).Calls (¬ Swaps ·) := by
  have hcall : ¬ Swaps ⟨.runPipeline, .streamInventory m⟩ := by simp [Swaps]
  refine (awaiting_calls (by simp [Swaps]) (act_calls hcall)).bind fun streams => ?_
  rcases streams with (message | message) | streams <;> trivial

theorem produce_notSwaps (job : PipelineJob) (backend : String) (height : Option Nat) :
    (produce job backend height).Calls (¬ Swaps ·) := by
  have hsubtitles : (awaiting (act .runPipeline .unmuxableSubtitles)).Calls (¬ Swaps ·) :=
    awaiting_calls (by simp [Swaps]) (act_calls (by simp [Swaps]))
  exact (inventory_notSwaps ..).bind fun _ => (early_notSwaps (vmafAvailable_early job)).bind
    fun _ => (early_notSwaps (search_early ..)).bind fun _ => (Program.Calls.ofExcept _).bind
    fun _ => (early_notSwaps (phase_early (by decide))).bind fun _ => hsubtitles.bind
    fun _ => (Program.Calls.ofExcept _).bind fun _ => (early_notSwaps (encode_early _)).bind
    fun _ => trivial

theorem verifyAndCompare_notSwaps (job : PipelineJob) (backend : String) (height : Option Nat)
    (sourceSize : Nat) (produced : Produced) :
    (verifyAndCompare job backend height sourceSize produced).Calls (¬ Swaps ·) :=
  (early_notSwaps (phase_early (by decide))).bind fun _ =>
    (early_notSwaps (verifyOutput_early ..)).bind fun _ => (inventory_notSwaps ..).bind fun _ =>
    (Program.Calls.ofExcept _).bind fun _ => (early_notSwaps (compareSize_early ..)).bind fun _ =>
    (early_notSwaps (gate_early ..)).bind fun _ => trivial

theorem atomicSwap_deaf (bak : String) : (atomicSwap bak).Calls (Deaf ·) := by
  refine (orRaise_calls (act_calls (by rfl))).bind fun present => ?_
  split
  · trivial
  · refine ⟨rfl, fun _ => ⟨rfl, fun renamed => ?_⟩⟩
    cases renamed with
    | error e => trivial
    | ok _ =>
      refine ⟨rfl, fun renamed => ?_⟩
      cases renamed with
      | error e => exact ⟨rfl, fun _ => trivial⟩
      | ok _ => trivial

theorem finish_deaf (srcStat : Stat) : (finish srcStat).Calls (Deaf ·) := by
  have hmetadata : (preserveMetadata srcStat).Calls (Deaf ·) := by
    refine (orRaise_calls (act_calls (by rfl))).bind fun symlink => ?_
    split
    · trivial
    · refine ⟨rfl, fun resolved => ?_⟩
      cases resolved with
      | error e => trivial
      | ok _ => exact ⟨rfl, fun _ => ⟨rfl, fun _ => ⟨rfl, fun _ => trivial⟩⟩⟩
  exact hmetadata.bind fun _ => (safeDelete_calls (by rfl) (by rfl)).bind fun _ =>
    act_calls (by rfl)

theorem confirmOutput_deaf (job : PipelineJob) : (confirmOutput job).Calls (Deaf ·) := by
  refine (act_calls (by rfl)).bind fun _ => Program.Calls.bind (Program.Calls.rescue
    (early_deaf (verifyOutput_early job .source)) fun e => ?_) fun _ => act_calls (by rfl)
  cases e <;> trivial

theorem settle_early (own : SourceOwnership) : (settle own).Calls (Early ·) := by
  have hrelease : (releaseArtifacts own).Calls (Early ·) := by
    refine (lockMatches_calls _ _ (by rfl)).bind fun held => ?_
    cases held
    · trivial
    · exact (safeDelete_calls (by rfl) (by rfl)).bind fun _ => safeDelete_calls (by rfl) (by rfl)
  have hrollback : rollbackSwap.Calls (Early ·) := by
    refine (orRaise_calls (act_calls (by rfl))).bind fun present => ?_
    split
    · refine ⟨rfl, fun replaced => ?_⟩
      cases replaced <;> trivial
    · trivial
  refine (act_calls (by rfl)).bind fun _ => (act_calls (by rfl)).bind fun state => ?_
  split
  · refine hrollback.bind fun restored => ?_
    split
    · exact hrelease
    · trivial
  · exact hrelease

end Classes

section Heard

variable {a : Actor} {rely : PathState → PathState → Prop} {α : Type} {s s' : PathState}
  {es : List (CallRecord Call PathState Input)}

@[simp] theorem hearings_nil : hearings [] = [] := rfl

@[simp] theorem hearings_append (es es' : List (CallRecord Call PathState Input)) :
    hearings (es ++ es') = hearings es ++ hearings es' := List.filterMap_append

theorem hearings_deaf (h : ∀ e ∈ es, Deaf e.op) : hearings es = [] := by
  refine List.filterMap_eq_nil_iff.mpr fun e he => ?_
  have hdeaf := h e he
  unfold hearing
  unfold Deaf at hdeaf
  split <;> simp_all

theorem deaf_hears_nothing {p p' : Worker α} (h : Exec handler a rely p s es p' s')
    (hp : p.Calls (Deaf ·)) : hearings es = [] := hearings_deaf (h.calls hp).1

theorem act_ret {site : Site} {action : Action} {r : action.Answer}
    (h : Exec handler a rely (act site action) s es (.ret r) s') :
    ∃ i s₁, r = (exec a ⟨site, action⟩ i s₁).2 ∧
      hearings es = (hearing ⟨⟨site, action⟩, i, s₁, (exec a ⟨site, action⟩ i s₁).1⟩).toList := by
  obtain ⟨i, s₁, rfl, rfl⟩ := Exec.perform_ret h
  refine ⟨i, s₁, rfl, ?_⟩
  simp only [hearings, List.filterMap_cons, List.filterMap_nil]
  split <;> simp_all [Handler.next, handler]

theorem awaiting_ret {p : Worker α} {r : α}
    (h : Exec handler a rely (awaiting p) s es (.ret r) s') :
    ∃ s₁ es₁, Exec handler a rely p s es₁ (.ret r) s₁ ∧ hearings es = hearings es₁ := by
  obtain ⟨x, s₁, es₁, es₂, hp, hrest, rfl⟩ := h.bind_ret
  obtain ⟨_, s₂, es₃, es₄, hcheck, hret, rfl⟩ := hrest.bind_ret
  obtain ⟨hx, rfl⟩ := hret.of_ret
  cases hx
  refine ⟨s₁, es₁, hp, ?_⟩
  simp [deaf_hears_nothing hcheck (early_deaf checkpoint_early)]

theorem inventory_hears {m : Media} {step complaint : String} {streams : List StreamInfo}
    (h : Exec handler a rely (inventory m step complaint) s es (.ret streams) s') :
    hearings es = [.inventory m (.ok streams)] := by
  obtain ⟨answer, s₁, es₁, es₂, hask, hrest, rfl⟩ := h.bind_ret
  obtain ⟨s₂, es₃, hact, hsame⟩ := awaiting_ret hask
  obtain ⟨i, s₃, hanswer, hheard⟩ := act_ret hact
  rcases answer with (message | message) | found
  · cases hrest.of_raise.1
  · cases hrest.of_raise.1
  · obtain ⟨hret, rfl⟩ := hrest.of_ret
    cases hret
    have hinput : i.streams = .ok streams := hanswer.symm
    simp [hsame, hheard, hearing, hinput]

theorem produce_hears {job : PipelineJob} {backend : String} {height : Option Nat}
    {made : Produced} (h : Exec handler a rely (produce job backend height) s es (.ret made) s') :
    ∃ source dropSubStreams,
      hearings es = [.inventory .source (.ok source), .unmuxable dropSubStreams] ∧
        made.plan = planStreams source job.codec dropSubStreams := by
  obtain ⟨source, s₁, es₁, _, hsource, h₁, rfl⟩ := h.bind_ret
  obtain ⟨available, s₂, es₂, _, havailable, h₂, rfl⟩ := h₁.bind_ret
  obtain ⟨found, s₃, es₃, _, hsearch, h₃, rfl⟩ := h₂.bind_ret
  obtain ⟨resolvedCrf, s₄, es₄, _, hquality, h₄, rfl⟩ := h₃.bind_ret
  obtain ⟨_, s₅, es₅, _, hphase, h₅, rfl⟩ := h₄.bind_ret
  obtain ⟨dropSubs, s₆, es₆, _, hsubtitles, h₆, rfl⟩ := h₅.bind_ret
  obtain ⟨_, s₇, es₇, _, hcovers, h₇, rfl⟩ := h₆.bind_ret
  obtain ⟨_, s₈, es₈, _, hencode, h₈, rfl⟩ := h₇.bind_ret
  obtain ⟨hret, rfl⟩ := h₈.of_ret
  cases hret
  obtain ⟨s₉, es₉, hact, hsame⟩ := awaiting_ret hsubtitles
  obtain ⟨i, s₁₀, hanswer, hheard⟩ := act_ret hact
  have hinput : i.subtitles = dropSubs := hanswer.symm
  refine ⟨source, dropSubs, ?_, rfl⟩
  simp [inventory_hears hsource,
    deaf_hears_nothing havailable (early_deaf (vmafAvailable_early job)),
    deaf_hears_nothing hsearch (early_deaf (search_early ..)), hquality.ofExcept_ret.2,
    deaf_hears_nothing hphase (early_deaf (phase_early (by decide))), hsame, hheard,
    hcovers.ofExcept_ret.2, deaf_hears_nothing hencode (early_deaf (encode_early _)), hearing,
    hinput]

theorem verifyAndCompare_hears {job : PipelineJob} {backend : String} {height : Option Nat}
    {sourceSize : Nat} {made : Produced} {encoded : Encoded}
    (h : Exec handler a rely (verifyAndCompare job backend height sourceSize made) s es
      (.ret encoded) s') :
    ∃ produced, hearings es = [.inventory .tmp (.ok produced)] ∧
      checkStreamInventory made.plan produced = .covered := by
  obtain ⟨_, s₁, es₁, _, hphase, h₁, rfl⟩ := h.bind_ret
  obtain ⟨_, s₂, es₂, _, hverify, h₂, rfl⟩ := h₁.bind_ret
  obtain ⟨produced, s₃, es₃, _, hproduced, h₃, rfl⟩ := h₂.bind_ret
  obtain ⟨_, s₄, es₄, _, hcovers, h₄, rfl⟩ := h₃.bind_ret
  obtain ⟨outputSize, s₅, es₅, _, hsize, h₅, rfl⟩ := h₄.bind_ret
  obtain ⟨vmaf, s₆, es₆, _, hgate, h₆, rfl⟩ := h₅.bind_ret
  obtain ⟨_, rfl⟩ := h₆.of_ret
  have hcovered : checkStreamInventory made.plan produced = .covered := by
    have hchecked := hcovers.ofExcept_ret.1
    revert hchecked
    cases checkStreamInventory made.plan produced <;> simp [orStreamFailure]
  refine ⟨produced, ?_, hcovered⟩
  simp [deaf_hears_nothing hphase (early_deaf (phase_early (by decide))),
    deaf_hears_nothing hverify (early_deaf (verifyOutput_early ..)), inventory_hears hproduced,
    hcovers.ofExcept_ret.2, deaf_hears_nothing hsize (early_deaf (compareSize_early ..)),
    deaf_hears_nothing hgate (early_deaf (gate_early ..))]

theorem owned_hears {job : PipelineJob} {srcStat : Stat} {backend : String} {height : Option Nat}
    {p : Worker PipelineResult}
    (h : Exec handler a rely (owned job srcStat backend height) s es p s')
    (hswaps : ∃ e ∈ es, Swaps e.op) :
    ∃ source dropSubStreams produced,
      hearings es = [.inventory .source (.ok source), .unmuxable dropSubStreams,
        .inventory .tmp (.ok produced)] ∧
      checkStreamInventory (planStreams source job.codec dropSubStreams) produced = .covered := by
  obtain ⟨encoded, s₁, es₁, es₂, htranscode, h₁, rfl, _⟩ := h.past (A := (Swaps ·))
    ((produce_notSwaps ..).bind fun _ => verifyAndCompare_notSwaps ..) hswaps
  obtain ⟨made, s₂, es₃, es₄, hproduce, hverify, rfl⟩ := htranscode.bind_ret
  obtain ⟨source, dropSubStreams, hheard, hplan⟩ := produce_hears hproduce
  obtain ⟨produced, hoffered, hcovered⟩ := verifyAndCompare_hears hverify
  have hswap : (phase "swap").Calls (Deaf ·) := by
    refine (awaiting_calls (by rfl) (act_calls (by rfl))).bind fun raised => ?_
    cases raised <;> trivial
  have hrest : hearings es₂ = [] := by
    refine deaf_hears_nothing h₁ (hswap.bind fun _ => (settled_deaf (atomicSwap_deaf _)).bind fun _ =>
      (confirmOutput_deaf job).bind fun _ => (settled_deaf (finish_deaf srcStat)).bind fun _ => ?_)
    trivial
  refine ⟨source, dropSubStreams, produced, ?_, hplan ▸ hcovered⟩
  simp [hheard, hoffered, hrest]

theorem transaction_hears {job : PipelineJob} {srcStat : Stat} {backend : String}
    {height : Option Nat} {p : Worker PipelineResult}
    (h : Exec handler a rely (transaction job.ownership (owned job srcStat backend height))
      s es p s') (hswaps : ∃ e ∈ es, Swaps e.op) :
    ∃ source dropSubStreams produced,
      hearings es = [.inventory .source (.ok source), .unmuxable dropSubStreams,
        .inventory .tmp (.ok produced)] ∧
      checkStreamInventory (planStreams source job.codec dropSubStreams) produced = .covered := by
  obtain ⟨_, s₁, es₁, es₂, henter, hbody, rfl, hswaps₁⟩ := h.past (A := (Swaps ·))
    (early_notSwaps (enter_early _)) hswaps
  have hbefore : hearings es₁ = [] := deaf_hears_nothing henter (early_deaf (enter_early _))
  rcases hbody.bind_cases with ⟨p', hattempt, _⟩ | ⟨outcome, s₂, es₃, es₄, hattempt, hsettle, rfl⟩
  · obtain ⟨q, howned, _⟩ := hattempt.attempt_cases
    simpa [hbefore] using owned_hears howned hswaps₁
  · obtain ⟨q, howned, _⟩ := hattempt.attempt_cases
    have hafter : (Program.bind (settled (settle job.ownership)) fun _ =>
        Program.ofExcept outcome : Worker PipelineResult).Calls (Early ·) :=
      (settled_early (settle_early _)).bind fun _ => Program.Calls.ofExcept _
    have hquiet : hearings es₄ = [] := deaf_hears_nothing hsettle (early_deaf hafter)
    have hreached : ∃ e ∈ es₃, Swaps e.op := by
      obtain ⟨e, he, hswap⟩ := hswaps₁
      rcases List.mem_append.mp he with he | he
      · exact ⟨e, he, hswap⟩
      · exact absurd hswap (Early.notSwaps ((hsettle.calls hafter).1 e he))
    simpa [hbefore, hquiet] using owned_hears howned hreached

theorem runPipeline_hears {job : PipelineJob} {p : Worker PipelineResult}
    (h : Exec handler a rely (runPipeline job) s es p s') (hswaps : ∃ e ∈ es, Swaps e.op) :
    ∃ source dropSubStreams produced,
      hearings es = [.inventory .source (.ok source), .unmuxable dropSubStreams,
        .inventory .tmp (.ok produced)] ∧
      checkStreamInventory (planStreams source job.codec dropSubStreams) produced = .covered := by
  have hstatEarly : (awaiting (orRaise (act .runPipeline (.stat .source)))).Calls (Early ·) :=
    awaiting_early (orRaise_calls (act_calls (by rfl)))
  obtain ⟨srcStat, s₁, es₁, rest₁, hstat, h₁, rfl, hswaps₁⟩ := h.past (A := (Swaps ·))
    (early_notSwaps hstatEarly) hswaps
  obtain ⟨⟨height, backend⟩, s₂, es₂, rest₂, hpreflight, h₂, rfl, hswaps₂⟩ :=
    h₁.past (A := (Swaps ·)) (early_notSwaps (preflight_early job)) hswaps₁
  obtain ⟨_, s₃, es₃, rest₃, hguard, h₃, rfl, hswaps₃⟩ := h₂.past (A := (Swaps ·))
    (Program.Calls.ofExcept _) hswaps₂
  simpa [deaf_hears_nothing hstat (early_deaf hstatEarly),
    deaf_hears_nothing hpreflight (early_deaf (preflight_early job)), hguard.ofExcept_ret.2]
    using transaction_hears h₃ hswaps₃

theorem swap_carries_streams {job : PipelineJob} {p : Worker PipelineResult}
    (h : Exec handler a rely (runPipeline job) s es p s') (hswaps : ∃ e ∈ es, Swaps e.op) :
    ∃ source dropSubStreams produced,
      hearings es = [.inventory .source (.ok source), .unmuxable dropSubStreams,
        .inventory .tmp (.ok produced)] ∧
      ((source.map StreamInfo.index).Nodup →
        Nonempty (Placement source (planStreams source job.codec dropSubStreams) job.codec
          produced) ∧
        ∀ d ∈ (planStreams source job.codec dropSubStreams).dropped,
          ∃ s ∈ source, s.index = d.sourceIndex ∧ Excused source dropSubStreams s d.reason) := by
  obtain ⟨source, dropSubStreams, produced, hheard, hcovered⟩ := runPipeline_hears h hswaps
  refine ⟨source, dropSubStreams, produced, hheard, fun hnodup => ⟨?_, ?_⟩⟩
  · exact placement_of_covered hnodup hcovered
  · exact fun d hd => dropped_excused hnodup hd

end Heard

section Sample

open NeverLose

def coverArt : StreamInfo := ⟨0, "video", "mjpeg", "", true, false⟩

def english : StreamInfo := ⟨4, "audio", "aac", "eng", false, false⟩

def sourceInventory : List StreamInfo :=
  [coverArt, ⟨1, "video", "h264", "", false, false⟩, ⟨2, "data", "", "", false, false⟩,
    ⟨3, "subtitle", "none", "eng", false, true⟩, english]

def outputInventory : List StreamInfo :=
  [⟨0, "video", "hevc", "", false, false⟩, { coverArt with index := 1 },
    { english with index := 2 }]

def hearSource : Input :=
  { allPass with streams := .ok sourceInventory, subtitles := [0] }

def hearOutput : Input := { allPass with streams := .ok outputInventory }

def coverArtSwap : DrivenPipeline :=
  (drivePipeline (List.replicate 20 hearSource ++ List.replicate 19 hearOutput)).get
    (by decide +kernel)

theorem swap_carries_streams_coverArt : ∃ source dropSubStreams produced,
    hearings coverArtSwap.1 = [.inventory .source (.ok source), .unmuxable dropSubStreams,
      .inventory .tmp (.ok produced)] ∧
    ((source.map StreamInfo.index).Nodup →
      Nonempty (Placement source (planStreams source "hevc" dropSubStreams) "hevc" produced) ∧
      ∀ d ∈ (planStreams source "hevc" dropSubStreams).dropped,
        ∃ s ∈ source, s.index = d.sourceIndex ∧ Excused source dropSubStreams s d.reason) :=
  swap_carries_streams
    (drivePipeline_run (Option.some_get _).symm) (by decide +kernel)

end Sample

end TranscodeForge.SwapCarries
