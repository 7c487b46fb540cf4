import TranscodeForge.Outbox.Kept

namespace TranscodeForge.Outbox

open Interaction Storage SourcePath

-- One pass of a drain, part by part.
structure DrainPass (d : Disk) where
  listed : List OutboxEntry
  refused : Bool
  remaining : List OutboxEntry
  result : DrainResult
  afterListing : Disk
  afterSending : Disk
  afterRelisting : Disk
  final : Disk
  listing : List DiskCall
  sending : List DiskCall
  relisting : List DiskCall
  checking : List DiskCall
  lists : Execution entries d listing (.ret listed) afterListing
  sends : Execution (drainEach listed [] false) afterListing sending (.ret refused) afterSending
  relists : Execution entries afterSending relisting (.ret remaining) afterRelisting
  concludes : Execution (verdict remaining refused) afterRelisting checking (.ret result) final

def DrainPass.calls {d : Disk} (p : DrainPass d) : List DiskCall :=
  p.listing ++ (p.sending ++ (p.relisting ++ p.checking))

theorem DrainPass.execution {d : Disk} (p : DrainPass d) :
    Execution drainOutbox d p.calls (.ret p.result) p.final :=
  p.lists.bind (p.sends.bind (p.relists.bind p.concludes))

theorem DrainPass.of_execution {d d' : Disk} {es : List DiskCall} {result : DrainResult}
    (h : Execution drainOutbox d es (.ret result) d') :
    ∃ p : DrainPass d, p.calls = es ∧ p.result = result ∧ p.final = d' := by
  obtain ⟨listed, d₁, listing, rest₁, hlists, h₁, rfl⟩ := h.bind_ret
  obtain ⟨refused, d₂, sending, rest₂, hsends, h₂, rfl⟩ := h₁.bind_ret
  obtain ⟨remaining, d₃, relisting, checking, hrelists, hconcludes, rfl⟩ := h₂.bind_ret
  exact ⟨⟨listed, refused, remaining, result, d₁, d₂, d₃, d', listing, sending, relisting, checking,
    hlists, hsends, hrelists, hconcludes⟩, rfl, rfl, rfl⟩

def IsSend (op : Call) : Bool :=
  match op.action with
  | .send _ _ _ _ => true
  | _ => false

-- The scheduler answers 401.
def Refuses (e : DiskCall) : Prop :=
  IsSend e.op = true ∧ classifyError e.input.reply = some .auth

def IsHead (remaining : List OutboxEntry) (e : OutboxEntry) : Prop :=
  ∀ e' ∈ remaining, e'.body.jobId = e.body.jobId → e.path ≤ e'.path

instance (remaining : List OutboxEntry) (e : OutboxEntry) : Decidable (IsHead remaining e) :=
  inferInstanceAs (Decidable (∀ e' ∈ remaining, e'.body.jobId = e.body.jobId → e.path ≤ e'.path))

-- `clock e` is the instant at which `e` is looked at.
def HeadsParked (clock : OutboxEntry → Rat) (remaining : List OutboxEntry) : Prop :=
  ∀ e ∈ remaining, IsHead remaining e → isParked (clock e) e = true

instance (clock : OutboxEntry → Rat) (remaining : List OutboxEntry) :
    Decidable (HeadsParked clock remaining) :=
  inferInstanceAs (Decidable (∀ e ∈ remaining, IsHead remaining e → isParked (clock e) e = true))

def instants (clock : OutboxEntry → Rat) (remaining : List OutboxEntry) : List Rat :=
  (remaining.filter fun e => poisonAttempts ≤ e.body.attempts).map clock

section Silent

variable {α : Type}

abbrev Silent (p : Courier α) : Prop := p.Calls fun op => IsSend op = false

theorem silent_quarantine (path : String) : Silent (quarantine path) := ⟨rfl, fun _ => trivial⟩

theorem silent_readEntry (path : String) : Silent (readEntry path) := by
  unfold readEntry
  split
  · exact silent_quarantine path
  · refine ⟨rfl, fun content => ?_⟩
    rcases content with e | (b | _)
    · exact silent_quarantine path
    · trivial
    · exact silent_quarantine path

theorem silent_readEach (names : List String) : Silent (readEach names) := by
  induction names with
  | nil => trivial
  | cons name names ih =>
    exact (silent_readEntry name).bind fun _ => ih.bind fun _ => trivial

theorem silent_entries : Silent entries := ⟨rfl, fun _ => silent_readEach _⟩

theorem silent_heartbeats : Silent heartbeats :=
  ⟨rfl, fun _ => .each fun _ _ => silent_entries.bind fun _ => trivial⟩

theorem silent_delete (e : OutboxEntry) : Silent (delete e) := by
  refine ⟨rfl, fun answer => ?_⟩
  rcases answer with (_ | _ | _) | _ <;> trivial

theorem silent_bumpAttempts (e : OutboxEntry) : Silent (bumpAttempts e) := by
  refine ⟨rfl, fun now => ⟨rfl, fun answer => ?_⟩⟩
  cases answer with
  | error err => trivial
  | ok _ => exact ⟨rfl, fun _ => trivial⟩

theorem silent_readParked (e : OutboxEntry) : Silent (readParked e) := by
  unfold readParked
  split
  · exact ⟨rfl, fun _ => trivial⟩
  · trivial

theorem not_refuses {p p' : Courier α} {d d' : Disk} {es : List DiskCall}
    (h : Execution p d es p' d') (hp : Silent p) : ∀ e ∈ es, ¬ Refuses e := by
  intro e he hrefuses
  have hsilent := (h.calls hp).1 e he
  rw [hrefuses.1] at hsilent
  cases hsilent

end Silent

section Passes

variable {d d' : Disk} {es : List DiskCall}

theorem sendReport_refuses {report : Option Nat} {jobId kind : String} {payload : Payload}
    {reply : Reply} (h : Execution (sendReport report jobId kind payload) d es (.ret reply) d') :
    (∃ e ∈ es, Refuses e) ↔ classifyError reply = some .auth := by
  unfold sendReport at h
  split at h
  · obtain ⟨answer, d₁, es₁, rest₁, hsend, h₁, rfl⟩ := h.bind_ret
    obtain ⟨_, d₂, es₂, rest₂, hbeats, h₂, rfl⟩ := h₁.bind_ret
    obtain ⟨hret, rfl⟩ := h₂.of_ret
    cases hret
    obtain ⟨i, d₀, rfl, rfl⟩ := Exec.perform_ret hsend
    have hquiet := not_refuses hbeats silent_heartbeats
    constructor
    · rintro ⟨e, he, hrefuses⟩
      simp only [List.append_nil, List.mem_append, List.mem_singleton] at he
      rcases he with rfl | he
      · exact hrefuses.2
      · exact absurd hrefuses (hquiet e he)
    · intro hauth
      exact ⟨_, List.mem_append_left _ (List.mem_singleton_self _), rfl, hauth⟩
  · obtain ⟨hret, rfl⟩ := h.of_ret
    cases hret
    simp [classifyError]

theorem quiet_left {es : List DiskCall} (h : ∀ e ∈ es, ¬ Refuses e) (es' : List DiskCall) :
    (∃ e ∈ es ++ es', Refuses e) ↔ ∃ e ∈ es', Refuses e := by
  constructor
  · rintro ⟨e, he, hrefuses⟩
    rcases List.mem_append.mp he with he | he
    · exact absurd hrefuses (h e he)
    · exact ⟨e, he, hrefuses⟩
  · rintro ⟨e, he, hrefuses⟩
    exact ⟨e, List.mem_append_right _ he, hrefuses⟩

-- A pass has been refused once one of its answers was a 401.
theorem drainEach_refused {rest : List OutboxEntry} {blocked : List String}
    {authBlocked refused : Bool}
    (h : Execution (drainEach rest blocked authBlocked) d es (.ret refused) d') :
    refused = true ↔ authBlocked = true ∨ ∃ e ∈ es, Refuses e := by
  induction rest generalizing d es blocked authBlocked with
  | nil =>
    obtain ⟨hret, rfl⟩ := Exec.of_ret h
    cases hret
    simp
  | cons entry rest ih =>
    unfold drainEach at h
    split at h
    · exact ih h
    · obtain ⟨parked, d₁, es₁, rest₁, hparked, h₁, rfl⟩ := h.bind_ret
      rw [quiet_left (not_refuses hparked (silent_readParked entry))]
      split at h₁
      · exact ih h₁
      · obtain ⟨reply, d₂, es₂, rest₂, hsend, h₂, rfl⟩ := h₁.bind_ret
        have hanswer := sendReport_refuses hsend
        simp only [List.mem_append, or_and_right, exists_or, hanswer]
        cases hclass : classifyError reply with
        | none =>
          rw [hclass] at h₂
          obtain ⟨_, d₃, es₃, rest₃, hdelete, h₃, rfl⟩ := h₂.bind_ret
          rw [ih h₃]
          have hquiet := quiet_left (not_refuses hdelete (silent_delete entry)) rest₃
          simp only [List.mem_append] at hquiet
          simp [hquiet]
        | some cls =>
          rw [hclass] at h₂
          cases cls with
          | auth =>
            obtain ⟨_, d₃, es₃, rest₃, hbump, h₃, rfl⟩ := h₂.bind_ret
            rw [ih h₃]
            simp
          | terminal =>
            obtain ⟨_, d₃, es₃, rest₃, hdelete, h₃, rfl⟩ := h₂.bind_ret
            rw [ih h₃]
            have hquiet := quiet_left (not_refuses hdelete (silent_delete entry)) rest₃
            simp only [List.mem_append] at hquiet
            simp [hquiet]
          | retryable =>
            obtain ⟨_, d₃, es₃, rest₃, hbump, h₃, rfl⟩ := h₂.bind_ret
            rw [ih h₃]
            have hquiet := quiet_left (not_refuses hbump (silent_bumpAttempts entry)) rest₃
            simp only [List.mem_append] at hquiet
            simp [hquiet]

theorem readParked_answers {now : Rat} {entry : OutboxEntry} {parked : Bool}
    (h : Execution (readParked entry) d es (.ret parked) d')
    (hread : es.map (·.input.now) = if poisonAttempts ≤ entry.body.attempts then [now] else []) :
    parked = isParked now entry := by
  unfold readParked at h
  split at h
  case isTrue hattempts =>
    obtain ⟨answer, d₁, es₁, rest₁, hnow, h₁, rfl⟩ := h.bind_ret
    obtain ⟨hret, rfl⟩ := Exec.of_ret h₁
    cases hret
    obtain ⟨i, d₀, rfl, rfl⟩ := Exec.perform_ret hnow
    rw [if_pos hattempts] at hread
    simp only [List.append_nil, List.map_cons, List.map_nil, List.cons.injEq, and_true] at hread
    rw [← hread]
    rfl
  case isFalse hattempts =>
    obtain ⟨hret, rfl⟩ := Exec.of_ret h
    cases hret
    simp [isParked, hattempts]

theorem readParked_reads {entry : OutboxEntry} {parked : Bool}
    (h : Execution (readParked entry) d es (.ret parked) d') :
    es.length = if poisonAttempts ≤ entry.body.attempts then 1 else 0 := by
  unfold readParked at h
  split at h
  case isTrue hattempts =>
    obtain ⟨answer, d₁, es₁, rest₁, hnow, h₁, rfl⟩ := h.bind_ret
    obtain ⟨hret, rfl⟩ := Exec.of_ret h₁
    obtain ⟨i, d₀, rfl, rfl⟩ := Exec.perform_ret hnow
    simp [hattempts]
  case isFalse hattempts =>
    obtain ⟨hret, rfl⟩ := Exec.of_ret h
    simp [hattempts]

-- The instants read, one by one, are those of the clock at the entries that have the attempts.
theorem liveEntries_nil {remaining live : List OutboxEntry} {clock : OutboxEntry → Rat}
    (h : Execution (liveEntries remaining) d es (.ret live) d')
    (hread : es.map (·.input.now) <+: instants clock remaining) :
    live = [] ↔ ∀ e ∈ remaining, isParked (clock e) e = true := by
  induction remaining generalizing d d' es live with
  | nil =>
    obtain ⟨hret, rfl⟩ := Exec.of_ret h
    cases hret
    simp
  | cons entry remaining ih =>
    obtain ⟨parked, d₁, es₁, rest₁, hparked, h₁, rfl⟩ := h.bind_ret
    obtain ⟨live', d₂, es₂, rest₂, hlive, h₂, rfl⟩ := h₁.bind_ret
    obtain ⟨hret, rfl⟩ := Exec.of_ret h₂
    cases hret
    have hlength := readParked_reads hparked
    have hparts : es₁.map (·.input.now) =
          (if poisonAttempts ≤ entry.body.attempts then [clock entry] else []) ∧
        es₂.map (·.input.now) <+: instants clock remaining := by
      unfold instants at hread
      by_cases hattempts : poisonAttempts ≤ entry.body.attempts
      · rw [if_pos hattempts] at hlength
        obtain ⟨e, rfl⟩ := List.length_eq_one_iff.mp hlength
        simpa [hattempts, instants] using hread
      · rw [if_neg hattempts] at hlength
        rw [List.length_eq_zero_iff] at hlength
        subst hlength
        simpa [hattempts, instants] using hread
    have hanswer := readParked_answers hparked hparts.1
    rw [List.forall_mem_cons, ← ih hlive hparts.2, ← hanswer]
    cases parked <;> simp

theorem verdict_empty {remaining : List OutboxEntry} {refused : Bool} {result : DrainResult}
    {clock : OutboxEntry → Rat} (h : Execution (verdict remaining refused) d es (.ret result) d')
    (hread : es.map (·.input.now) <+: instants clock remaining) :
    result = .empty ↔ remaining = [] ∨
      refused = false ∧ ∀ e ∈ remaining, isParked (clock e) e = true := by
  unfold verdict at h
  split at h
  case isTrue hnil =>
    obtain ⟨hret, rfl⟩ := Exec.of_ret h
    cases hret
    simp [hnil]
  case isFalse hnil =>
    split at h
    case isTrue hrefused =>
      obtain ⟨hret, rfl⟩ := Exec.of_ret h
      cases hret
      simp [hnil, hrefused]
    case isFalse hrefused =>
      obtain ⟨live, d₁, es₁, rest₁, hlive, h₁, rfl⟩ := h.bind_ret
      obtain ⟨hret, rfl⟩ := Exec.of_ret h₁
      cases hret
      rw [List.append_nil] at hread
      rw [← liveEntries_nil hlive hread]
      by_cases hempty : live = [] <;> simp [hempty, hnil, hrefused]

end Passes

theorem drain_empty_of_parked_heads {d : Disk} (p : DrainPass d) {clock : OutboxEntry → Rat}
    (hread : p.checking.map (·.input.now) <+: instants clock p.remaining)
    (hheads : HeadsParked clock p.remaining) :
    p.result = .empty ↔ p.remaining = [] ∨ (∀ e ∈ p.sending, ¬ Refuses e) ∧
      ∀ e ∈ p.remaining, ¬ IsHead p.remaining e → isParked (clock e) e = true := by
  have hrefused := drainEach_refused p.sends
  have hquiet : p.refused = false ↔ ∀ e ∈ p.sending, ¬ Refuses e := by
    rw [← Bool.not_eq_true, hrefused]
    simp
  rw [verdict_empty p.concludes hread, hquiet]
  have htail : (∀ e ∈ p.remaining, isParked (clock e) e = true) ↔
      ∀ e ∈ p.remaining, ¬ IsHead p.remaining e → isParked (clock e) e = true := by
    constructor
    · exact fun h e he _ => h e he
    · intro h e he
      by_cases hhead : IsHead p.remaining e
      · exact hheads e he hhead
      · exact h e he hhead
  rw [htail]

section Sample

def parkedHead : Body := ⟨"job", "register_derivative", [], 25, 1000, 0⟩

def queuedTail : Body := ⟨"job", "complete", [], 0, 0, 1⟩

def stocked (bodies : List Body) : Disk where
  files := (bodies.zipIdx 1).foldl
    (fun files (b, seq) => Directory.put files (entryName seq b.jobId b.kind) (.body b))
    Relational.Table.empty
  nextReport := bodies.length
  journaled := bodies.map Body.mark
  returned := bodies.map Body.report
  settled := []

def sampleClock (_ : OutboxEntry) : Rat := 1100

def clocked (n : Nat) : List Input := List.replicate n { now := 1100 }

def finish {α : Type} (p : Courier α) (inputs : List Input) (d : Disk) :
    Option (List DiskCall × α × Disk) :=
  match drive p inputs d with
  | some (es, .ret a, d') => some (es, a, d')
  | _ => none

theorem finish_execution {α : Type} {p : Courier α} {inputs : List Input} {d d' : Disk} {a : α}
    {es : List DiskCall} (h : finish p inputs d = some (es, a, d')) :
    Execution p d es (.ret a) d' := by
  unfold finish at h
  split at h
  case h_1 heq =>
    cases h
    exact drive_execution heq
  case h_2 => cases h

def finishPass (d : Disk) (n₁ n₂ n₃ n₄ : Nat) : Option (DrainPass d) :=
  match h₁ : finish entries (clocked n₁) d with
  | none => none
  | some (listing, listed, d₁) =>
    match h₂ : finish (drainEach listed [] false) (clocked n₂) d₁ with
    | none => none
    | some (sending, refused, d₂) =>
      match h₃ : finish entries (clocked n₃) d₂ with
      | none => none
      | some (relisting, remaining, d₃) =>
        match h₄ : finish (verdict remaining refused) (clocked n₄) d₃ with
        | none => none
        | some (checking, result, d₄) =>
          some ⟨listed, refused, remaining, result, d₁, d₂, d₃, d₄, listing, sending, relisting,
            checking, finish_execution h₁, finish_execution h₂, finish_execution h₃,
            finish_execution h₄⟩

def parkedPass : DrainPass (stocked [parkedHead]) :=
  (finishPass _ 2 1 2 1).get (by decide +kernel)

theorem drain_empty_of_parked_heads_single :
    parkedPass.result = .empty ↔ parkedPass.remaining = [] ∨
      (∀ e ∈ parkedPass.sending, ¬ Refuses e) ∧ ∀ e ∈ parkedPass.remaining,
        ¬ IsHead parkedPass.remaining e → isParked (sampleClock e) e = true :=
  drain_empty_of_parked_heads parkedPass (by decide +kernel) (by decide +kernel)

def queuedPass : DrainPass (stocked [parkedHead, queuedTail]) :=
  (finishPass _ 3 1 3 1).get (by decide +kernel)

-- The report queued behind the parked one has never been sent.
theorem not_drain_empty_of_parked_heads :
    ¬ ∀ (d : Disk) (p : DrainPass d) (clock : OutboxEntry → Rat),
      p.checking.map (·.input.now) <+: instants clock p.remaining →
      HeadsParked clock p.remaining → p.result = .empty := by
  intro h
  have hempty := h _ queuedPass sampleClock (by decide +kernel) (by decide +kernel)
  have hblocked : queuedPass.result = .blocked := by decide +kernel
  rw [hblocked] at hempty
  cases hempty

end Sample

end TranscodeForge.Outbox
