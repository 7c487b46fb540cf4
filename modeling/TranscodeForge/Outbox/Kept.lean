import TranscodeForge.Outbox.Steps
import TranscodeForge.Interaction.Sequence

namespace TranscodeForge.Outbox

open Interaction Storage SourcePath

structure Kept (d : Disk) : Prop where
  journaled : ∀ m ∈ d.journaled, m.report ∈ d.settled ∨ ∃ path b, Live d path b ∧ b.mark = m
  returned : ∀ r ∈ d.returned, ∃ m ∈ d.journaled, m.report = r

-- Neither the quarantine nor a new report renames over an entry that can be read.
def Careful (op : Call) (i : Input) (d : Disk) : Prop :=
  match op with
  | ⟨.entries, .replace path _⟩ | ⟨.append, .replace _ path⟩ =>
    i.fault = true ∨ isLive d path = false
  | _ => True

abbrev keeping : Contract Call Disk Input := contract Careful fun _ _ d d' => Kept d → Kept d'

theorem careful_spares : Spares Careful :=
  fun _ _ _ _ _ _ hcareful => hcareful.imp_right not_live_of

section Preserved

variable {d d' : Disk}

theorem Kept.sameLive (h : Kept d) (hsame : SameLive d d') : Kept d' := by
  constructor
  · intro m hm
    rw [hsame.journaled] at hm
    rw [hsame.settled]
    rcases h.journaled m hm with hsettled | ⟨path, b, hlive, hmark⟩
    · exact .inl hsettled
    · exact .inr ⟨path, b, (hsame.live path b).mpr hlive, hmark⟩
  · rw [hsame.returned, hsame.journaled]
    exact h.returned

theorem Kept.answered {report : Option Nat} {reply : Reply} (h : Kept d)
    (hanswered : Answered report reply d d') : Kept d' := by
  constructor
  · intro m hm
    rw [hanswered.journaled] at hm
    rcases h.journaled m hm with hsettled | ⟨path, b, hlive, hmark⟩
    · refine .inl ?_
      rw [hanswered.settled]
      split
      · exact List.mem_append_left _ hsettled
      · exact hsettled
    · exact .inr ⟨path, b, (hanswered.live path b).mpr hlive, hmark⟩
  · rw [hanswered.returned, hanswered.journaled]
    exact h.returned

-- Only a settled report may lose its file.
theorem Kept.cleared {path : String} (h : Kept d)
    (hsettled : ∀ b, Live d path b → b.report ∈ d.settled) (hclear : Cleared path d d') :
    Kept d' := by
  constructor
  · intro m hm
    rw [hclear.journaled] at hm
    rw [hclear.settled]
    rcases h.journaled m hm with hdone | ⟨name, b, hlive, rfl⟩
    · exact .inl hdone
    · by_cases hname : name = path
      · subst hname
        exact .inl (hsettled b hlive)
      · exact .inr ⟨name, b, hclear.others name b hname hlive, rfl⟩
  · rw [hclear.returned, hclear.journaled]
    exact h.returned

theorem Kept.placed {path : String} {mark : Mark} (h : Kept d)
    (hmark : ∀ b, Live d path b → b.mark = mark) (hplaced : Placed path mark d d') : Kept d' := by
  constructor
  · intro m hm
    rw [hplaced.journaled] at hm
    rw [hplaced.settled]
    rcases h.journaled m hm with hdone | ⟨name, b, hlive, rfl⟩
    · exact .inl hdone
    · by_cases hname : name = path
      · subst hname
        obtain ⟨b', hb'⟩ := hplaced.here
        refine .inr ⟨name, b', hb', ?_⟩
        rw [hplaced.mark_eq b' hb', hmark b hlive]
      · exact .inr ⟨name, b, (hplaced.others name b hname).mpr hlive, rfl⟩
  · rw [hplaced.returned, hplaced.journaled]
    exact h.returned

theorem Kept.journal {path : String} {b : Body} (h : Kept d) (hfree : ∀ b, ¬ Live d path b)
    (hlive : ∀ name b', Live d' name b' ↔ if path = name then b' = b else Live d name b')
    (hjournaled : d'.journaled = d.journaled ++ [b.mark]) (hsettled : d'.settled = d.settled)
    (hreturned : d'.returned = d.returned) : Kept d' := by
  constructor
  · intro m hm
    rw [hjournaled] at hm
    rw [hsettled]
    rcases List.mem_append.mp hm with hm | hm
    · rcases h.journaled m hm with hdone | ⟨name, b', hb', rfl⟩
      · exact .inl hdone
      · have hname : path ≠ name := by
          rintro rfl
          exact hfree b' hb'
        refine .inr ⟨name, b', (hlive name b').mpr ?_, rfl⟩
        rw [if_neg hname]
        exact hb'
    · refine .inr ⟨path, b, (hlive path b).mpr ?_, (List.mem_singleton.mp hm).symm⟩
      rw [if_pos rfl]
  · rw [hreturned, hjournaled]
    intro r hr
    obtain ⟨m, hm, hreport⟩ := h.returned r hr
    exact ⟨m, List.mem_append_left _ hm, hreport⟩

end Preserved

-- The entries a drain still holds in hand stand for the files under their names.
structure Tracks (d : Disk) (rest : List OutboxEntry) : Prop where
  named : ∀ e ∈ rest, isJson e.path = true ∧ (numberOf e.path).isSome = true
  distinct : rest.Pairwise fun e e' => e.path ≠ e'.path
  mark_eq : ∀ e ∈ rest, ∀ b, Live d e.path b → b.mark = e.body.mark

section Tracking

variable {d d' : Disk} {e : OutboxEntry} {rest : List OutboxEntry}

theorem Listing.tracks (h : Listing d rest) : Tracks d rest := by
  refine ⟨fun e he => ⟨(h.live e he).1, (h.live e he).2.1⟩, h.sorted.imp fun hlt => ne_of_lt hlt,
    fun e he b hb => ?_⟩
  rw [hb.body_eq (h.live e he)]

theorem Tracks.tail (h : Tracks d (e :: rest)) : Tracks d rest :=
  ⟨fun e' he' => h.named e' (by simp [he']), (List.pairwise_cons.mp h.distinct).2,
    fun e' he' => h.mark_eq e' (by simp [he'])⟩

theorem Tracks.mono (h : Tracks d rest)
    (hlive : ∀ e ∈ rest, ∀ b, Live d' e.path b → Live d e.path b) : Tracks d' rest :=
  ⟨h.named, h.distinct, fun e he b hb => h.mark_eq e he b (hlive e he b hb)⟩

theorem Tracks.tail_ne (h : Tracks d (e :: rest)) {e' : OutboxEntry} (he' : e' ∈ rest) :
    e'.path ≠ e.path := Ne.symm ((List.pairwise_cons.mp h.distinct).1 e' he')

theorem Tracks.bumped (h : Tracks d (e :: rest)) (hbumped : Bumped e d d') : Tracks d' rest := by
  refine h.tail.mono fun e' he' b hb => ?_
  rcases hbumped with hsame | hplaced
  · exact (hsame.live _ _).mp hb
  · exact (hplaced.others _ _ (h.tail_ne he')).mp hb

end Tracking

section Programs

variable {d : Disk}

theorem kept_entries_wp (hkept : Kept d) : entries.wp handler () keeping
    (fun o d' => Kept d' ∧ ∃ listed, o = .ok listed ∧ Listing d' listed) d := by
  refine Program.wp_mono (entries_wp careful_spares (fun _ _ _ _ hsame h => h.sameLive hsame) d) ?_
  rintro o d' ⟨hsame, listed, rfl, hlisting, _⟩
  exact ⟨hkept.sameLive hsame, listed, rfl, hlisting.sameLive hsame⟩

theorem kept_delete_wp {e : OutboxEntry} (hkept : Kept d)
    (hsettled : ∀ b, Live d e.path b → b.report ∈ d.settled) :
    (delete e).wp handler () keeping (fun _ d' => Kept d' ∧ Cleared e.path d d') d := by
  refine Program.wp_mono (delete_wp fun i hclear h => h.cleared hsettled hclear) ?_
  exact fun _ d' hclear => ⟨hkept.cleared hsettled hclear, hclear⟩

theorem Kept.bumped {e : OutboxEntry} {d' : Disk} (hkept : Kept d)
    (hown : ∀ b, Live d e.path b → b.mark = e.body.mark) (hbumped : Bumped e d d') : Kept d' := by
  rcases hbumped with hsame | hplaced
  · exact hkept.sameLive hsame
  · exact hkept.placed hown hplaced

theorem kept_bump_wp {e : OutboxEntry} {rest : List OutboxEntry} (hkept : Kept d)
    (htracks : Tracks d (e :: rest)) :
    (bumpAttempts e).wp handler () keeping
      (fun o d' => Kept d' ∧ Tracks d' rest ∧ o = .ok ()) d := by
  obtain ⟨hjson, hnumber⟩ := htracks.named e (by simp)
  have hown := htracks.mark_eq e (by simp)
  refine Program.wp_mono (bumpAttempts_wp (I := fun d => ∀ b, Live d e.path b →
    b.mark = e.body.mark) hjson hnumber hown
    (fun _ _ hsame hown b hb => hown b ((hsame.live _ _).mp hb))
    fun _ _ _ _ _ hown hbumped h => h.bumped hown hbumped) ?_
  rintro o d' ⟨hbumped, rfl⟩
  exact ⟨hkept.bumped hown hbumped, htracks.bumped hbumped, rfl⟩

theorem kept_send_wp {report : Option Nat} {jobId kind : String} {payload : Payload}
    (hkept : Kept d) : (sendReport report jobId kind payload).wp handler () keeping
      (fun o d' => Kept d' ∧ ∃ reply, o = .ok reply ∧ Answered report reply d d') d := by
  refine Program.wp_mono (sendReport_wp careful_spares (fun _ _ _ _ hsame h => h.sameLive hsame)
    (fun _ _ h => h) fun _ hanswered h => h.answered hanswered) ?_
  rintro o d' ⟨reply, rfl, hanswered⟩
  exact ⟨hkept.answered hanswered, reply, rfl, hanswered⟩

theorem kept_drainEach_wp (rest : List OutboxEntry) (blocked : List String) (authBlocked : Bool)
    (d : Disk) (hkept : Kept d) (htracks : Tracks d rest) :
    (drainEach rest blocked authBlocked).wp handler () keeping (fun _ d' => Kept d') d := by
  induction rest generalizing d blocked authBlocked with
  | nil => exact hkept
  | cons e rest ih =>
    unfold drainEach
    split
    · exact ih blocked authBlocked d hkept htracks.tail
    · refine Program.wp_seq (readParked_wp fun _ _ _ _ h => h) ?_ ?_
      · rintro parked _ ⟨rfl, _⟩
        split
        · exact ih _ authBlocked _ hkept htracks.tail
        · refine Program.wp_seq (kept_send_wp hkept) ?_ fun _ _ h => h.1
          rintro reply d₁ ⟨hkept₁, reply', heq, hanswered⟩
          cases heq
          have htracks₁ : Tracks d₁ (e :: rest) :=
            htracks.mono fun e' _ b hb => (hanswered.live _ _).mp hb
          -- An entry is deleted only after an answer that settles its report.
          have hdelete : settles reply = true → ((delete e).bind fun _ =>
              drainEach rest blocked authBlocked).wp handler () keeping (fun _ d' => Kept d') d₁ := by
            intro hsettles
            have hsettled : ∀ b, Live d₁ e.path b → b.report ∈ d₁.settled := by
              intro b hb
              have hmark := congrArg Mark.report (htracks₁.mark_eq e (by simp) b hb)
              rw [hanswered.settled, if_pos hsettles]
              exact List.mem_append_right _ (by simpa [Body.mark] using hmark)
            refine Program.wp_seq (kept_delete_wp hkept₁ hsettled) ?_ fun _ _ h => h.1
            rintro _ d₂ ⟨hkept₂, hclear⟩
            exact ih _ _ d₂ hkept₂ (htracks₁.tail.mono fun e' _ b hb => hclear.kept _ b hb)
          have hbump : ∀ auth, ((bumpAttempts e).bind fun _ =>
              drainEach rest (e.body.jobId :: blocked) auth).wp handler () keeping
                (fun _ d' => Kept d') d₁ := by
            intro auth
            refine Program.wp_seq (kept_bump_wp hkept₁ htracks₁) ?_ fun _ _ h => h.1
            rintro _ d₂ ⟨hkept₂, htracks₂, _⟩
            exact ih _ _ d₂ hkept₂ htracks₂
          split
          · next hclass => exact hdelete (by simp [settles, hclass])
          · exact hbump true
          · next hclass => exact hdelete (by simp [settles, hclass])
          · exact hbump authBlocked
      · rintro _ _ ⟨_, _, heq⟩
        cases heq

theorem liveEntries_wp {A : Call → Input → Disk → Prop} {G : Call → Input → Disk → Disk → Prop}
    (hguar : ∀ op i d, op.action = .now → G op i d d) (remaining : List OutboxEntry) (d : Disk) :
    (liveEntries remaining).wp handler () (contract A G) (fun _ d' => d' = d) d := by
  induction remaining with
  | nil => rfl
  | cons e rest ih =>
    refine Program.wp_seq (readParked_wp hguar) ?_ fun _ _ h => h.1
    rintro parked _ ⟨rfl, _⟩
    refine Program.wp_seq ih ?_ fun _ _ h => h
    rintro live _ rfl
    rfl

theorem verdict_wp {A : Call → Input → Disk → Prop} {G : Call → Input → Disk → Disk → Prop}
    (hguar : ∀ op i d, op.action = .now → G op i d d) (remaining : List OutboxEntry)
    (authBlocked : Bool) (d : Disk) :
    (verdict remaining authBlocked).wp handler () (contract A G) (fun _ d' => d' = d) d := by
  unfold verdict
  split
  · rfl
  · split
    · rfl
    · refine Program.wp_seq (liveEntries_wp hguar remaining d) ?_ fun _ _ h => h
      rintro live _ rfl
      rfl

theorem kept_drainOutbox_wp (hkept : Kept d) :
    drainOutbox.wp handler () keeping (fun _ d' => Kept d') d := by
  refine Program.wp_seq (kept_entries_wp hkept) ?_ fun _ _ h => h.1
  rintro listed d₁ ⟨hkept₁, listed', heq, hlisting⟩
  cases heq
  refine Program.wp_seq (kept_drainEach_wp listed [] false d₁ hkept₁ hlisting.tracks) ?_
    fun _ _ h => h
  intro auth d₂ hkept₂
  refine Program.wp_seq (kept_entries_wp hkept₂) ?_ fun _ _ h => h.1
  rintro remaining d₃ ⟨hkept₃, _⟩
  refine Program.wp_mono (verdict_wp (fun _ _ _ _ h => h) remaining auth d₃) ?_
  rintro _ _ rfl
  exact hkept₃

theorem kept_append_wp {jobId kind : String} {payload : Payload} (hkept : Kept d) :
    (append jobId kind payload).wp handler () keeping (fun _ d' => Kept d') d := by
  refine append_wp hkept (fun _ _ h hsame => h.sameLive hsame) ⟨hkept.journaled, hkept.returned⟩
    ?_ ?_ fun _ _ _ _ _ h => h
  · intro i₀ i d₁ d₂ path b _ _ hsame hcareful hfault _ _ hjournals
    have hkept₁ : Kept d₁ :=
      Kept.sameLive (d := { d with nextReport := d.nextReport + 1 })
        ⟨hkept.journaled, hkept.returned⟩ hsame
    have hfree : ∀ b, ¬ Live d₁ path b := by
      rcases hcareful with h | h
      · rw [hfault] at h
        cases h
      · exact not_live_of h
    exact hkept₁.journal hfree hjournals.live hjournals.journaled hjournals.settled
      hjournals.returned
  · intro d' report hkept' hmark
    refine ⟨hkept'.journaled, fun r hr => ?_⟩
    rcases List.mem_append.mp hr with hr | hr
    · exact hkept'.returned r hr
    · rw [List.mem_singleton.mp hr]
      exact hmark

theorem kept_deliver_wp {claimToken : Option String} {jobId kind : String} {payload : Payload}
    (hkept : Kept d) : (deliver claimToken jobId kind payload).wp handler () keeping
      (fun _ d' => Kept d') d := by
  unfold deliver
  refine Program.wp_seq (R := fun _ d' => Kept d') ?_ ?_ fun _ _ h => h
  · rw [Program.wp_attempt]
    exact kept_append_wp hkept
  · intro appended d₁ hkept₁
    split
    · refine Program.wp_seq (kept_send_wp hkept₁) ?_ fun _ _ h => h.1
      exact fun _ _ h => h.1
    · exact hkept₁
    · refine Program.wp_seq (R := fun _ d' => Kept d') ?_ ?_ fun _ _ h => h
      · rw [Program.wp_attempt]
        exact kept_drainOutbox_wp hkept₁
      · exact fun _ _ h => h

theorem kept_operation_wp (op : Operation) (hkept : Kept d) :
    op.program.wp handler () keeping (fun _ d' => Kept d') d := by
  cases op with
  | append jobId kind payload =>
    refine Program.wp_seq (kept_append_wp hkept) ?_ fun _ _ h => h
    exact fun _ _ h => h
  | deliver claimToken jobId kind payload => exact kept_deliver_wp hkept
  | drain =>
    refine Program.wp_seq (kept_drainOutbox_wp hkept) ?_ fun _ _ h => h
    exact fun _ _ h => h
  | entries =>
    refine Program.wp_seq (kept_entries_wp hkept) ?_ fun _ _ h => h.1
    exact fun _ _ h => h.1

end Programs

theorem run_kept {opening d : Disk} {es : List DiskCall} (hopening : Kept opening)
    (hrun : OutboxRun opening es d) (hcareful : ∀ e ∈ es, Careful e.op e.input e.pre) : Kept d := by
  induction hrun with
  | start => exact hopening
  | step op _ hexec ih =>
    have hkept := ih fun e he => hcareful e (List.mem_append_left _ he)
    have hsteps := (hexec.adequate (kept_operation_wp op hkept) fun e he =>
      hcareful e (List.mem_append_right _ he)).1
    exact (hexec.invariant hkept hsteps).2

-- An undisturbed listing without errors names every file that can be read.
theorem entries_lists {d d' : Disk} {es : List DiskCall} {listed : List OutboxEntry}
    (h : Execution entries d es (.ret listed) d') (hsound : ∀ e ∈ es, e.input.fault = false)
    {path : String} {b : Body} (hlive : Live d path b) : ∃ e ∈ listed, e.body = b := by
  have hspares : Spares fun _ i _ => i.fault = false := by
    intro _ i _ _ hi hfault
    rw [hi] at hfault
    cases hfault
  have hwp := entries_wp (A := fun _ i _ => i.fault = false) (G := fun _ _ _ _ => True) hspares
    (fun _ _ _ _ _ => trivial) d
  obtain ⟨_, listed', heq, _, hall⟩ := h.outcome_post hwp hsound rfl
  cases heq
  have hreadable : ∀ (op : Call) (i : Input) (d : Disk), i.fault = false → Readable op i := by
    intro op i _ hi
    unfold Readable
    split
    · exact hi
    · exact hi
    · trivial
  obtain ⟨e, he, _, hbody⟩ := hall hreadable path b hlive
  exact ⟨e, he, hbody⟩

theorem outbox_keeps_reports {opening d d' : Disk} {es es' : List DiskCall}
    {listed : List OutboxEntry} (hjournaled : opening.journaled = [])
    (hreturned : opening.returned = []) (hrun : OutboxRun opening es d)
    (hcareful : ∀ e ∈ es, Careful e.op e.input e.pre)
    (hentries : Execution entries d es' (.ret listed) d')
    (hsound : ∀ e ∈ es', e.input.fault = false) {report : Nat} (hreport : report ∈ d.returned)
    (hopen : report ∉ d.settled) : ∃ e ∈ listed, e.body.report = report := by
  have hopening : Kept opening := ⟨by simp [hjournaled], by simp [hreturned]⟩
  have hkept := run_kept hopening hrun hcareful
  obtain ⟨m, hm, rfl⟩ := hkept.returned report hreport
  rcases hkept.journaled m hm with hsettled | ⟨path, b, hlive, rfl⟩
  · exact absurd hsettled hopen
  · obtain ⟨e, he, rfl⟩ := entries_lists hentries hsound hlive
    exact ⟨e, he, rfl⟩

section Sample

def checkCareful (e : DiskCall) : Bool :=
  match e.op with
  | ⟨.entries, .replace path _⟩ | ⟨.append, .replace _ path⟩ =>
    e.input.fault || !isLive e.pre path
  | _ => true

theorem checkCareful_sound {es : List DiskCall} (h : es.all checkCareful = true) :
    ∀ e ∈ es, Careful e.op e.input e.pre := by
  intro e he
  have hcheck := List.all_eq_true.mp h e he
  unfold checkCareful at hcheck
  unfold Careful
  split <;> simp_all

def emptyDisk : Disk where
  files := Relational.Table.empty
  nextReport := 0
  journaled := []
  returned := []
  settled := []

abbrev Driven (α : Type) := List DiskCall × Courier α × Disk

def drive {α : Type} (p : Courier α) (inputs : List Input) (d : Disk) : Option (Driven α) :=
  p.drive handler () inputs d

theorem drive_execution {α : Type} {p : Courier α} {inputs : List Input} {d : Disk} {r : Driven α}
    (h : drive p inputs d = some r) : Execution p d r.1 r.2.1 r.2.2 :=
  Exec.drive (fun _ => rfl) h

theorem drive_returns {α : Type} {p : Courier α} {inputs : List Input} {d : Disk} {r : Driven α}
    {a : α} (h : drive p inputs d = some r) (ha : r.2.1.outcome = some (.ok a)) :
    Execution p d r.1 (.ret a) r.2.2 := by
  have hexec := drive_execution h
  generalize r.2.1 = p' at ha hexec
  cases p' with
  | ret b =>
    cases ha
    exact hexec
  | raise e => cases ha
  | call op k => cases ha

def appended : Driven Unit :=
  (drive (Operation.append "job" "complete" []).program (List.replicate 5 {}) emptyDisk).get
    (by decide +kernel)

-- The scheduler answers 500, so that the entry is bumped.
def drained : Driven Unit :=
  (drive Operation.drain.program (List.replicate 9 { reply := .status 500 }) appended.2.2).get
    (by decide +kernel)

def listedAfterDrain : Driven (List OutboxEntry) :=
  (drive entries (List.replicate 2 {}) drained.2.2).get (by decide +kernel)

theorem outbox_keeps_reports_refused :
    ∃ e ∈ (listedAfterDrain.2.1.outcome.bind Except.toOption).getD [], e.body.report = 0 := by
  have hrun : OutboxRun emptyDisk ([] ++ appended.1 ++ drained.1) drained.2.2 :=
    (OutboxRun.start.step (.append "job" "complete" []) (drive_execution (Option.some_get _).symm)).step
      .drain (drive_execution (Option.some_get _).symm)
  have hentries : Execution entries drained.2.2 listedAfterDrain.1
      (.ret ((listedAfterDrain.2.1.outcome.bind Except.toOption).getD [])) listedAfterDrain.2.2 :=
    drive_returns (Option.some_get _).symm (by decide +kernel)
  exact outbox_keeps_reports rfl rfl hrun (checkCareful_sound (by decide +kernel)) hentries
    (by decide +kernel) (by decide +kernel) (by decide +kernel)

def misread : Driven Unit :=
  (drive Operation.entries.program [{}, { fault := true }, {}] appended.2.2).get (by decide +kernel)

def listedAfterMisread : Driven (List OutboxEntry) :=
  (drive entries [{}] misread.2.2).get (by decide +kernel)

-- One read of the outbox fails once, and its entry is renamed aside for good.
theorem not_outbox_keeps_reports :
    ¬ ∀ (opening d d' : Disk) (es es' : List DiskCall) (listed : List OutboxEntry) (report : Nat),
      opening.journaled = [] → opening.returned = [] → OutboxRun opening es d →
      es.countP (fun e => e.input.fault) ≤ 1 → Execution entries d es' (.ret listed) d' →
      (∀ e ∈ es', e.input.fault = false) → report ∈ d.returned → report ∉ d.settled →
      ∃ e ∈ listed, e.body.report = report := by
  intro h
  have hrun : OutboxRun emptyDisk ([] ++ appended.1 ++ misread.1) misread.2.2 :=
    (OutboxRun.start.step (.append "job" "complete" []) (drive_execution (Option.some_get _).symm)).step
      .entries (drive_execution (Option.some_get _).symm)
  have hentries : Execution entries misread.2.2 listedAfterMisread.1 (.ret [])
      listedAfterMisread.2.2 := drive_returns (Option.some_get _).symm (by decide +kernel)
  obtain ⟨e, he, _⟩ := h _ _ _ _ _ _ 0 rfl rfl hrun (by decide +kernel) hentries
    (by decide +kernel) (by decide +kernel) (by decide +kernel)
  cases he

end Sample

end TranscodeForge.Outbox
