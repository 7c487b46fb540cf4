import TranscodeForge.Outbox.Kept

namespace TranscodeForge.Outbox

open Interaction Storage SourcePath

-- No report is sent ahead of one that the same job appended earlier and that is still open.
def SendsInOrder (op : Call) (d : Disk) : Prop :=
  match op with
  | ⟨.drain, .send (some report) jobId _ _⟩ =>
    ∀ m ∈ d.journaled, m.jobId = jobId → m.report < report → m.report ∈ d.settled
  | _ => True

-- A new report's file name sorts after those of the job's undelivered reports.
def Follows (op : Call) (i : Input) (d : Disk) : Prop :=
  match op with
  | ⟨.append, .replace src path⟩ =>
    i.fault = true ∨ ∀ b, d.files.lookup src = some (.body b) →
      ∀ name b', Live d name b' → b'.jobId = b.jobId → name < path
  | _ => True

def Orderly (op : Call) (i : Input) (d : Disk) : Prop := Readable op i ∧ Follows op i d

theorem orderly_spares : Spares Orderly := by
  intro path i i' d hread hfault _
  have hsound : i.fault = false := hread.1
  rw [hsound] at hfault
  cases hfault

structure Ordered (d : Disk) : Prop extends Kept d where
  fresh : ∀ path b, Live d path b → b.report < d.nextReport
  order : ∀ path path' b b', Live d path b → Live d path' b' → b.jobId = b'.jobId →
    b.report < b'.report → path < path'

abbrev ordering : Contract Call Disk Input :=
  contract Orderly fun op _ d d' => SendsInOrder op d ∧ (Ordered d → Ordered d')

section Preserved

variable {d d' : Disk}

theorem Ordered.sameLive (h : Ordered d) (hsame : SameLive d d') : Ordered d' := by
  refine ⟨h.toKept.sameLive hsame, ?_, ?_⟩
  · intro path b hb
    rw [hsame.nextReport]
    exact h.fresh path b ((hsame.live _ _).mp hb)
  · intro path path' b b' hb hb'
    exact h.order path path' b b' ((hsame.live _ _).mp hb) ((hsame.live _ _).mp hb')

theorem Ordered.answered {report : Option Nat} {reply : Reply} (h : Ordered d)
    (hanswered : Answered report reply d d') : Ordered d' := by
  refine ⟨h.toKept.answered hanswered, ?_, ?_⟩
  · intro path b hb
    rw [hanswered.nextReport]
    exact h.fresh path b ((hanswered.live _ _).mp hb)
  · intro path path' b b' hb hb'
    exact h.order path path' b b' ((hanswered.live _ _).mp hb) ((hanswered.live _ _).mp hb')

theorem Ordered.cleared {path : String} (h : Ordered d)
    (hsettled : ∀ b, Live d path b → b.report ∈ d.settled) (hclear : Cleared path d d') :
    Ordered d' := by
  refine ⟨h.toKept.cleared hsettled hclear, ?_, ?_⟩
  · intro name b hb
    rw [hclear.nextReport]
    exact h.fresh name b (hclear.kept _ _ hb)
  · intro name name' b b' hb hb'
    exact h.order name name' b b' (hclear.kept _ _ hb) (hclear.kept _ _ hb')

theorem Ordered.placed {path : String} {b₀ : Body} (h : Ordered d) (hlive : Live d path b₀)
    (hplaced : Placed path b₀.mark d d') : Ordered d' := by
  -- Every file of the new directory was there before, under the same mark.
  have hbefore : ∀ name b, Live d' name b → ∃ b', Live d name b' ∧ b'.mark = b.mark := by
    intro name b hb
    by_cases hname : name = path
    · subst hname
      exact ⟨b₀, hlive, (hplaced.mark_eq b hb).symm⟩
    · exact ⟨b, (hplaced.others name b hname).mp hb, rfl⟩
  have hown : ∀ b, Live d path b → b.mark = b₀.mark := by
    intro b hb
    rw [hb.body_eq hlive]
  refine ⟨h.toKept.placed hown hplaced, ?_, ?_⟩
  · intro name b hb
    obtain ⟨b', hb', hmark⟩ := hbefore name b hb
    have hreport : b'.report = b.report := congrArg Mark.report hmark
    rw [hplaced.nextReport, ← hreport]
    exact h.fresh name b' hb'
  · intro name name' b b' hb hb' hjob hreport
    obtain ⟨c, hc, hmark⟩ := hbefore name b hb
    obtain ⟨c', hc', hmark'⟩ := hbefore name' b' hb'
    simp only [Body.mark, Mark.mk.injEq] at hmark hmark'
    rw [← hmark.1, ← hmark'.1] at hreport
    rw [← hmark.2, ← hmark'.2] at hjob
    exact h.order name name' c c' hc hc' hjob hreport

theorem Ordered.bumped {e : OutboxEntry} (h : Ordered d) (hlive : Live d e.path e.body)
    (hbumped : Bumped e d d') : Ordered d' := by
  rcases hbumped with hsame | hplaced
  · exact h.sameLive hsame
  · exact h.placed hlive hplaced

end Preserved

-- Every open report waits in the rest of the pass, or its job is blocked.
structure Passing (d : Disk) (rest : List OutboxEntry) (blocked : List String) : Prop where
  listing : Listing d rest
  pending : ∀ m ∈ d.journaled, m.report ∈ d.settled ∨ m.jobId ∈ blocked ∨
    ∃ e ∈ rest, e.body.mark = m

section Passing

variable {d d' : Disk} {e : OutboxEntry} {rest : List OutboxEntry} {blocked : List String}

theorem Passing.skip (h : Passing d (e :: rest) blocked) (hblocked : e.body.jobId ∈ blocked) :
    Passing d rest blocked := by
  refine ⟨⟨(List.pairwise_cons.mp h.listing.sorted).2, fun e' he' => h.listing.live e' (by simp [he'])⟩,
    fun m hm => ?_⟩
  rcases h.pending m hm with hsettled | hjob | ⟨e', he', rfl⟩
  · exact .inl hsettled
  · exact .inr (.inl hjob)
  · rcases List.mem_cons.mp he' with rfl | he'
    · exact .inr (.inl hblocked)
    · exact .inr (.inr ⟨e', he', rfl⟩)

theorem Passing.block (h : Passing d rest blocked) (jobId : String) :
    Passing d rest (jobId :: blocked) := by
  refine ⟨h.listing, fun m hm => ?_⟩
  rcases h.pending m hm with hsettled | hjob | hrest
  · exact .inl hsettled
  · exact .inr (.inl (List.mem_cons_of_mem _ hjob))
  · exact .inr (.inr hrest)

-- The head of the pass is the earliest open report of its job.
theorem Passing.in_order (h : Passing d (e :: rest) blocked) (hordered : Ordered d)
    (hfree : e.body.jobId ∉ blocked) {m : Mark} (hm : m ∈ d.journaled)
    (hjob : m.jobId = e.body.jobId) (hreport : m.report < e.body.report) :
    m.report ∈ d.settled := by
  rcases h.pending m hm with hsettled | hblocked | ⟨e', he', rfl⟩
  · exact hsettled
  · rw [hjob] at hblocked
    exact absurd hblocked hfree
  · exfalso
    rcases List.mem_cons.mp he' with rfl | he'
    · exact lt_irrefl _ hreport
    · have hlater := (List.pairwise_cons.mp h.listing.sorted).1 e' he'
      have hearlier := hordered.order _ _ _ _ (h.listing.live e' (by simp [he']))
        (h.listing.live e (by simp)) hjob hreport
      exact lt_asymm hlater hearlier

theorem Passing.answered {report : Option Nat} {reply : Reply} (h : Passing d rest blocked)
    (hanswered : Answered report reply d d') : Passing d' rest blocked := by
  refine ⟨⟨h.listing.sorted, fun e' he' => (hanswered.live _ _).mpr (h.listing.live e' he')⟩, ?_⟩
  intro m hm
  rw [hanswered.journaled] at hm
  rcases h.pending m hm with hsettled | hrest
  · refine .inl ?_
    rw [hanswered.settled]
    split
    · exact List.mem_append_left _ hsettled
    · exact hsettled
  · exact .inr hrest

theorem Passing.tail_live (h : Passing d (e :: rest) blocked)
    (hothers : ∀ name b, name ≠ e.path → Live d name b → Live d' name b) :
    Listing d' rest := by
  refine ⟨(List.pairwise_cons.mp h.listing.sorted).2, fun e' he' => ?_⟩
  have hne : e'.path ≠ e.path := ne_of_gt ((List.pairwise_cons.mp h.listing.sorted).1 e' he')
  exact hothers _ _ hne (h.listing.live e' (by simp [he']))

theorem Passing.cleared (h : Passing d (e :: rest) blocked) (hsettled : e.body.report ∈ d.settled)
    (hclear : Cleared e.path d d') : Passing d' rest blocked := by
  refine ⟨h.tail_live hclear.others, fun m hm => ?_⟩
  rw [hclear.journaled] at hm
  rw [hclear.settled]
  rcases h.pending m hm with hdone | hjob | ⟨e', he', rfl⟩
  · exact .inl hdone
  · exact .inr (.inl hjob)
  · rcases List.mem_cons.mp he' with rfl | he'
    · exact .inl hsettled
    · exact .inr (.inr ⟨e', he', rfl⟩)

theorem Passing.bumped (h : Passing d (e :: rest) blocked) (hbumped : Bumped e d d') :
    Passing d' rest (e.body.jobId :: blocked) := by
  have hhistory : SameHistory d d' := by
    rcases hbumped with hsame | hplaced
    · exact hsame.toSameHistory
    · exact hplaced.toSameHistory
  refine ⟨h.tail_live fun name b hne hb => ?_, fun m hm => ?_⟩
  · rcases hbumped with hsame | hplaced
    · exact (hsame.live _ _).mpr hb
    · exact (hplaced.others name b hne).mpr hb
  · rw [hhistory.journaled] at hm
    rw [hhistory.settled]
    exact ((h.block e.body.jobId).skip (by simp)).pending m hm

end Passing

section Programs

variable {d : Disk}

theorem silent {op : Call} (h : op.site ≠ .drain) (d : Disk) : SendsInOrder op d := by
  unfold SendsInOrder
  split
  · exact absurd rfl h
  · trivial

theorem silent_now {op : Call} (h : op.action = .now) (d : Disk) : SendsInOrder op d := by
  unfold SendsInOrder
  split
  · cases h
  · trivial

theorem ordered_entries_wp (hordered : Ordered d) : entries.wp handler () ordering
    (fun o d' => Ordered d' ∧ ∃ listed, o = .ok listed ∧ Passing d' listed []) d := by
  refine Program.wp_mono (entries_wp orderly_spares
    (fun _ _ d hsite hsame => ⟨silent (by simp [hsite]) d, fun h => h.sameLive hsame⟩) d) ?_
  rintro o d' ⟨hsame, listed, rfl, hlisting, hall⟩
  refine ⟨hordered.sameLive hsame, listed, rfl, hlisting.sameLive hsame, fun m hm => ?_⟩
  rw [hsame.journaled] at hm
  rw [hsame.settled]
  rcases hordered.journaled m hm with hsettled | ⟨path, b, hlive, rfl⟩
  · exact .inl hsettled
  · obtain ⟨e, he, _, rfl⟩ := hall (fun _ _ _ h => h.1) path b hlive
    exact .inr (.inr ⟨e, he, rfl⟩)

theorem ordered_send_wp {report : Option Nat} {jobId kind : String} {payload : Payload}
    (hordered : Ordered d)
    (hsend : SendsInOrder ⟨.drain, .send report jobId kind payload⟩ d) :
    (sendReport report jobId kind payload).wp handler () ordering
      (fun o d' => Ordered d' ∧ ∃ reply, o = .ok reply ∧ Answered report reply d d') d := by
  refine Program.wp_mono (sendReport_wp orderly_spares
    (fun _ _ d hsite hsame => ⟨silent (by simp [hsite]) d, fun h => h.sameLive hsame⟩)
    (fun _ _ => ⟨trivial, fun h => h⟩) fun _ hanswered => ⟨hsend, fun h => h.answered hanswered⟩) ?_
  rintro o d' ⟨reply, rfl, hanswered⟩
  exact ⟨hordered.answered hanswered, reply, rfl, hanswered⟩

theorem ordered_drainEach_wp (rest : List OutboxEntry) (blocked : List String)
    (authBlocked : Bool) (d : Disk) (hordered : Ordered d) (hpassing : Passing d rest blocked) :
    (drainEach rest blocked authBlocked).wp handler () ordering (fun _ d' => Ordered d') d := by
  induction rest generalizing d blocked authBlocked with
  | nil => exact hordered
  | cons e rest ih =>
    unfold drainEach
    split
    · next hblocked => exact ih _ _ d hordered (hpassing.skip hblocked)
    · next hfree =>
      refine Program.wp_seq (readParked_wp fun _ _ d hnow => ⟨silent_now hnow d, fun h => h⟩) ?_ ?_
      · rintro parked _ ⟨rfl, _⟩
        split
        · exact ih _ _ _ hordered ((hpassing.block e.body.jobId).skip (by simp))
        · refine Program.wp_seq (ordered_send_wp hordered
            fun m hm hjob hreport => hpassing.in_order hordered hfree hm hjob hreport) ?_
            fun _ _ h => h.1
          rintro reply d₁ ⟨hordered₁, reply', heq, hanswered⟩
          cases heq
          have hpassing₁ := hpassing.answered hanswered
          have hlive₁ := hpassing₁.listing.live e (by simp)
          have hdelete : settles reply = true → ((delete e).bind fun _ =>
              drainEach rest blocked authBlocked).wp handler () ordering
                (fun _ d' => Ordered d') d₁ := by
            intro hsettles
            have hsettled : e.body.report ∈ d₁.settled := by
              rw [hanswered.settled, if_pos hsettles]
              simp
            have howned : ∀ b, Live d₁ e.path b → b.report ∈ d₁.settled := by
              intro b hb
              rw [hb.body_eq hlive₁]
              exact hsettled
            have hcleared : (delete e).wp handler () ordering
                (fun _ d' => Cleared e.path d₁ d') d₁ :=
              delete_wp fun _ hclear => ⟨silent (by simp) d₁, fun h => h.cleared howned hclear⟩
            refine Program.wp_seq hcleared ?_ fun _ d₂ hclear => hordered₁.cleared howned hclear
            intro _ d₂ hclear
            exact ih _ _ d₂ (hordered₁.cleared howned hclear) (hpassing₁.cleared hsettled hclear)
          have hbump : ∀ auth, ((bumpAttempts e).bind fun _ =>
              drainEach rest (e.body.jobId :: blocked) auth).wp handler () ordering
                (fun _ d' => Ordered d') d₁ := by
            intro auth
            refine Program.wp_seq (bumpAttempts_wp (I := fun d => Live d e.path e.body) hlive₁.1
              hlive₁.2.1 hlive₁ (fun _ _ hsame hlive => (hsame.live _ _).mpr hlive)
              fun op _ d _ hsite hlive hbumped =>
                ⟨silent (by simp [hsite]) d, fun h => h.bumped hlive hbumped⟩) ?_
              fun _ d₂ h => hordered₁.bumped hlive₁ h.1
            rintro _ d₂ ⟨hbumped, _⟩
            exact ih _ _ d₂ (hordered₁.bumped hlive₁ hbumped) (hpassing₁.bumped hbumped)
          split
          · next hclass => exact hdelete (by simp [settles, hclass])
          · exact hbump true
          · next hclass => exact hdelete (by simp [settles, hclass])
          · exact hbump authBlocked
      · rintro _ _ ⟨_, _, heq⟩
        cases heq

theorem ordered_drainOutbox_wp (hordered : Ordered d) :
    drainOutbox.wp handler () ordering (fun _ d' => Ordered d') d := by
  refine Program.wp_seq (ordered_entries_wp hordered) ?_ fun _ _ h => h.1
  rintro listed d₁ ⟨hordered₁, listed', heq, hpassing⟩
  cases heq
  refine Program.wp_seq (ordered_drainEach_wp listed [] false d₁ hordered₁ hpassing) ?_
    fun _ _ h => h
  intro auth d₂ hordered₂
  refine Program.wp_seq (ordered_entries_wp hordered₂) ?_ fun _ _ h => h.1
  rintro remaining d₃ ⟨hordered₃, _⟩
  have hverdict : (verdict remaining auth).wp handler () ordering (fun _ d' => d' = d₃) d₃ :=
    verdict_wp (fun _ _ d hnow => ⟨silent_now hnow d, fun h => h⟩) remaining auth d₃
  refine Program.wp_mono hverdict ?_
  rintro _ _ rfl
  exact hordered₃

theorem ordered_append_wp {jobId kind : String} {payload : Payload} (hordered : Ordered d) :
    (append jobId kind payload).wp handler () ordering (fun _ d' => Ordered d') d := by
  have henrolled : Ordered { d with nextReport := d.nextReport + 1 } := by
    refine ⟨⟨hordered.journaled, hordered.returned⟩, fun path b hb => ?_, hordered.order⟩
    have := hordered.fresh path b hb
    simp only
    omega
  refine append_wp hordered (fun _ _ h hsame => h.sameLive hsame) henrolled ?_ ?_
    fun op _ d _ hsite hP => ⟨silent (by rcases hsite with h | h <;> simp [h]) d, hP⟩
  · intro i₀ i d₁ d₂ path b hi₀ hfree hsame hi hfault hlook hmark hjournals
    have hordered₁ : Ordered d₁ := henrolled.sameLive hsame
    have hdead : ∀ b', ¬ Live d₁ path b' :=
      fun b' hb' => hfree hi₀.1 b' ((hsame.live path b').mp hb')
    have hreport : b.report = d.nextReport := congrArg Mark.report hmark
    have hnext : d₁.nextReport = d.nextReport + 1 := hsame.nextReport
    have hfollows : ∀ name b', Live d₁ name b' → b'.jobId = b.jobId → name < path := by
      rcases hi.2 with h | h
      · rw [hfault] at h
        cases h
      · exact h b hlook
    have hold : ∀ name b', Live d₁ name b' → b'.report < b.report := by
      intro name b' hb'
      rw [hreport]
      exact hordered.fresh name b' ((hsame.live name b').mp hb')
    refine ⟨hordered₁.toKept.journal hdead hjournals.live hjournals.journaled hjournals.settled
      hjournals.returned, ?_, ?_⟩
    · intro name b' hb'
      have hb' := (hjournals.live name b').mp hb'
      rw [hjournals.nextReport, hnext]
      split at hb'
      · rw [hb', hreport]
        omega
      · have := hold name b' hb'
        omega
    · intro name name' c c' hc hc' hjob hless
      have hc := (hjournals.live name c).mp hc
      have hc' := (hjournals.live name' c').mp hc'
      split at hc
      · next hpath =>
        split at hc'
        · rw [hc, hc'] at hless
          omega
        · have := hold name' c' hc'
          rw [hc] at hless
          omega
      · split at hc'
        · next hpath =>
          rw [hc'] at hjob
          rw [← hpath]
          exact hfollows name c hc hjob
        · exact hordered₁.order name name' c c' hc hc' hjob hless
  · intro d' report hordered' hmark
    refine ⟨⟨hordered'.journaled, fun r hr => ?_⟩, hordered'.fresh, hordered'.order⟩
    rcases List.mem_append.mp hr with hr | hr
    · exact hordered'.returned r hr
    · rw [List.mem_singleton.mp hr]
      exact hmark

theorem ordered_deliver_wp {claimToken : Option String} {jobId kind : String} {payload : Payload}
    (hordered : Ordered d) : (deliver claimToken jobId kind payload).wp handler () ordering
      (fun _ d' => Ordered d') d := by
  unfold deliver
  refine Program.wp_seq (R := fun _ d' => Ordered d') ?_ ?_ fun _ _ h => h
  · rw [Program.wp_attempt]
    exact ordered_append_wp hordered
  · intro appended d₁ hordered₁
    split
    · refine Program.wp_seq (ordered_send_wp hordered₁ trivial) ?_ fun _ _ h => h.1
      exact fun _ _ h => h.1
    · exact hordered₁
    · refine Program.wp_seq (R := fun _ d' => Ordered d') ?_ ?_ fun _ _ h => h
      · rw [Program.wp_attempt]
        exact ordered_drainOutbox_wp hordered₁
      · exact fun _ _ h => h

theorem ordered_operation_wp (op : Operation) (hordered : Ordered d) :
    op.program.wp handler () ordering (fun _ d' => Ordered d') d := by
  cases op with
  | append jobId kind payload =>
    refine Program.wp_seq (ordered_append_wp hordered) ?_ fun _ _ h => h
    exact fun _ _ h => h
  | deliver claimToken jobId kind payload => exact ordered_deliver_wp hordered
  | drain =>
    refine Program.wp_seq (ordered_drainOutbox_wp hordered) ?_ fun _ _ h => h
    exact fun _ _ h => h
  | entries =>
    refine Program.wp_seq (ordered_entries_wp hordered) ?_ fun _ _ h => h.1
    exact fun _ _ h => h.1

end Programs

-- Any files, the reports in them numbered in the order of their file names.
structure Opens (d : Disk) : Prop where
  journaled : ∀ m ∈ d.journaled, ∃ path b, Live d path b ∧ b.mark = m
  returned : d.returned = []
  fresh : ∀ path b, Live d path b → b.report < d.nextReport
  order : ∀ path path' b b', Live d path b → Live d path' b' → b.jobId = b'.jobId →
    b.report < b'.report → path < path'

theorem Opens.ordered {d : Disk} (h : Opens d) : Ordered d :=
  ⟨⟨fun m hm => .inr (h.journaled m hm), by simp [h.returned]⟩, h.fresh, h.order⟩

theorem run_ordered {opening d : Disk} {es : List DiskCall} (hopening : Ordered opening)
    (hrun : OutboxRun opening es d) (horderly : ∀ e ∈ es, Orderly e.op e.input e.pre) :
    Ordered d ∧ ∀ e ∈ es, SendsInOrder e.op e.pre := by
  induction hrun with
  | start => exact ⟨hopening, by simp⟩
  | step op _ hexec ih =>
    obtain ⟨hordered, hbefore⟩ := ih fun e he => horderly e (List.mem_append_left _ he)
    have hsteps := (hexec.adequate (ordered_operation_wp op hordered) fun e he =>
      horderly e (List.mem_append_right _ he)).1
    refine ⟨(hexec.invariant hordered fun e he => (hsteps e he).2).2, fun e he => ?_⟩
    rcases List.mem_append.mp he with he | he
    · exact hbefore e he
    · exact (hsteps e he).1

-- A new report follows the others as long as the numbers have ten digits.
theorem follows_of_numbered {d : Disk} {src jobId kind : String} {seq : Nat} {i : Input}
    (hseq : seq < 10 ^ 10)
    (hnames : ∀ name b, Live d name b → ∃ n < seq, ∃ jobId kind, name = entryName n jobId kind) :
    Follows ⟨.append, .replace src (entryName seq jobId kind)⟩ i d := by
  refine .inr fun b _ name b' hlive _ => ?_
  obtain ⟨n, hn, jobId', kind', rfl⟩ := hnames name b' hlive
  exact entryName_lt hn hseq ..

section Sample

def checkReadable (e : DiskCall) : Bool :=
  match e.op.action with
  | .glob | .readText _ => !e.input.fault
  | _ => true

def checkFollows (e : DiskCall) : Bool :=
  match e.op with
  | ⟨.append, .replace src path⟩ =>
    match e.pre.files.lookup src with
    | some (.body b) => e.pre.files.rows.all fun f =>
      match f.content with
      | .body b' => !isJson f.name || b'.jobId != b.jobId || f.name < path
      | .unreadable => true
    | _ => true
  | _ => true

def checkInOrder (e : DiskCall) : Bool :=
  match e.op with
  | ⟨.drain, .send (some report) jobId _ _⟩ => e.pre.journaled.all fun m =>
    m.jobId != jobId || report ≤ m.report || e.pre.settled.contains m.report
  | _ => true

theorem checkReadable_sound {es : List DiskCall} (h : es.all checkReadable = true) :
    ∀ e ∈ es, Readable e.op e.input := by
  intro e he
  have hcheck := List.all_eq_true.mp h e he
  unfold checkReadable at hcheck
  unfold Readable
  split <;> simp_all

theorem checkFollows_sound {es : List DiskCall} (h : es.all checkFollows = true) :
    ∀ e ∈ es, Follows e.op e.input e.pre := by
  intro e he
  have hcheck := List.all_eq_true.mp h e he
  unfold checkFollows at hcheck
  unfold Follows
  split
  · next src path hop =>
    refine .inr fun b hb name b' hlive hjob => ?_
    simp only [hop, hb, List.all_eq_true] at hcheck
    obtain ⟨f, hf, hcontent⟩ := Option.map_eq_some_iff.mp hlive.2.2
    have hrow := hcheck f (Relational.Table.get?_mem hf)
    have hname : f.name = name := Relational.Table.get?_key hf
    simp only [hcontent, hname, hlive.1, hjob] at hrow
    simpa using hrow
  · trivial

theorem checkInOrder_of {e : DiskCall} (h : SendsInOrder e.op e.pre) : checkInOrder e = true := by
  unfold SendsInOrder at h
  unfold checkInOrder
  split
  · next report jobId _ _ hop =>
    simp only [hop] at h
    refine List.all_eq_true.mpr fun m hm => ?_
    by_cases hjob : m.jobId = jobId
    · by_cases hreport : m.report < report
      · simp [h m hm hjob hreport]
      · simp [not_lt.mp hreport]
    · simp [hjob]
  · rfl

theorem emptyDisk_opens : Opens emptyDisk := by
  have hdead : ∀ path b, ¬ Live emptyDisk path b := by
    rintro path b ⟨_, _, hfile⟩
    cases hfile
  exact ⟨by simp [emptyDisk], rfl, fun path b h => absurd h (hdead path b),
    fun path _ b _ h => absurd h (hdead path b)⟩

def registered : Driven Unit :=
  (drive (Operation.append "job" "register_derivative" []).program (List.replicate 5 {})
    emptyDisk).get (by decide +kernel)

def completed : Driven Unit :=
  (drive (Operation.append "job" "complete" []).program (List.replicate 5 {}) registered.2.2).get
    (by decide +kernel)

def delivered : Driven Unit :=
  (drive Operation.drain.program (List.replicate 10 {}) completed.2.2).get (by decide +kernel)

def lastNumber : String := "9999999999-job-register_derivative.json"

def lastBody : Body := ⟨"job", "register_derivative", [], 0, 0, 0⟩

def fullDisk : Disk where
  files := Directory.put Relational.Table.empty lastNumber (.body lastBody)
  nextReport := 1
  journaled := [⟨0, "job"⟩]
  returned := []
  settled := []

theorem fullDisk_opens : Opens fullDisk := by
  have honly : ∀ path b, Live fullDisk path b → path = lastNumber ∧ b = lastBody := by
    rintro path b ⟨_, _, hfile⟩
    simp only [fullDisk, Directory.lookup_put] at hfile
    split at hfile
    · next hname => exact ⟨hname.symm, (Content.body.inj (Option.some.inj hfile)).symm⟩
    · cases hfile
  refine ⟨?_, rfl, ?_, ?_⟩
  · intro m hm
    rw [fullDisk, List.mem_singleton] at hm
    refine ⟨lastNumber, lastBody, ⟨by decide +kernel, by decide +kernel, ?_⟩, hm.symm⟩
    simp [fullDisk, Directory.lookup_put]
  · intro path b hb
    obtain ⟨_, rfl⟩ := honly path b hb
    decide
  · intro path path' b b' hb hb' _ hless
    obtain ⟨_, rfl⟩ := honly path b hb
    obtain ⟨_, rfl⟩ := honly path' b' hb'
    exact absurd hless (lt_irrefl _)

def overflowed : Driven Unit :=
  (drive (Operation.append "job" "complete" []).program (List.replicate 5 {}) fullDisk).get
    (by decide +kernel)

def overtaken : Driven Unit :=
  (drive Operation.drain.program (List.replicate 4 {}) overflowed.2.2).get (by decide +kernel)

end Sample

end TranscodeForge.Outbox
