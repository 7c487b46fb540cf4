import TranscodeForge.Interaction.History
import TranscodeForge.Scheduler.WellFormed

namespace TranscodeForge.Claims

open Relational Interaction Scheduler Store

-- What FOR UPDATE SKIP LOCKED holds of a waiting job while the UPDATE around it has not run yet;
-- the statement's parameters were drawn before.
structure RowLock where
  holder : Nat
  job : Uuid
  token : Uuid
  takenAt : Instant
deriving DecidableEq

structure ClaimStore where
  store : Store
  locked : List RowLock := []

namespace ClaimStore

variable (s : ClaimStore)

def isLocked (id : Uuid) : Bool := s.locked.any fun l => l.job == id

def lockOf (holder : Nat) : Option RowLock := s.locked.find? fun l => l.holder == holder

def release (holder : Nat) : ClaimStore :=
  { s with locked := s.locked.filter fun l => l.holder != holder }

def nextUnlocked (codecs : List String) (supportsDownscale : Bool) : Option Job :=
  oldest (s.store.jobs.select fun j => j.claimable codecs supportsDownscale && !s.isLocked j.id)

def lockNext (holder : Nat) (codecs : List String) (supportsDownscale : Bool) :
    ClaimStore × Bool :=
  match s.nextUnlocked (claimCodecs codecs) supportsDownscale with
  | none => ({ s with store := s.store.drawUuid }, false)
  | some next =>
    ({ store := s.store.drawUuid
       locked := ⟨holder, next.id, s.store.nextUuid, s.store.now⟩ :: s.locked }, true)

def updateLocked (holder : Nat) (workerId : Uuid) : ClaimStore × Option Job :=
  match s.lockOf holder with
  | none => (s, none)
  | some l =>
    ({ s.release holder with
        store := s.store.updateJobs (fun j => j.id == l.job)
          fun j => j.claimed workerId l.token l.takenAt },
      (s.store.jobs.get? l.job).map fun j => j.claimed workerId l.token l.takenAt)

end ClaimStore

inductive ClaimOp where
  | plain (op : Op)
  | lockNext (codecs : List String) (supportsDownscale : Bool)
  | updateLocked (workerId : Uuid)

abbrev ClaimOp.Answer : ClaimOp → Type
  | .plain op => op.Answer
  | .lockNext _ _ => Bool
  | .updateLocked _ => Option Job

abbrev ClaimRoute (α : Type) := Program ClaimOp ClaimOp.Answer HttpError α

-- On Postgres a claim's SELECT skips the rows that other claims have locked and locks the one it
-- finds, for its own UPDATE; on SQLite the statement runs alone.
def split (mode : Isolation) : (op : Op) → ClaimRoute op.Answer
  | .statement (.claimNextJob workerId codecs supportsDownscale) =>
    match mode with
    | .isolated =>
      .call (.lockNext codecs supportsDownscale) fun found =>
        if found then .call (.updateLocked workerId) .ret else .ret none
    | .shared =>
      .call (.plain (.statement (.claimNextJob workerId codecs supportsDownscale))) .ret
  | op => .call (.plain op) .ret

namespace ClaimOp

def exec (holder : Nat) (s : ClaimStore) : (op : ClaimOp) → ClaimStore × op.Answer
  | .plain op => ({ s with store := (op.exec s.store).1 }, (op.exec s.store).2)
  | .lockNext codecs supportsDownscale => s.lockNext holder codecs supportsDownscale
  | .updateLocked workerId => s.updateLocked holder workerId

-- A statement that would change a locked row waits for the lock, and a connection whose claim
-- statement is under way runs no other.
def ready (holder : Nat) (s : ClaimStore) : ClaimOp → Bool
  | .plain op =>
    (s.lockOf holder).isNone &&
      s.locked.all fun l =>
        decide ((op.exec s.store).1.jobs.get? l.job = s.store.jobs.get? l.job)
  | .lockNext _ _ => (s.lockOf holder).isNone
  | .updateLocked _ => true

end ClaimOp

-- Besides time passing, a request can be cut off in the middle of its claim.
inductive ClaimEvent where
  | elapse (n : Nat)
  | abort (t : Nat)

def claimHandler : Handler Nat ClaimOp ClaimOp.Answer ClaimStore Unit where
  exec t op _ s := op.exec t s
  ready t op s := op.ready t s

def claims (mode : Isolation) :
    System Nat Request ClaimEvent ClaimOp ClaimOp.Answer ClaimStore Unit HttpError Response where
  handler := claimHandler
  body _ r := (r.body mode).expand (split mode)
  start _ r s :=
    if r.token?.all fun token => s.store.findActive token.tokenHash = some token then some s
    else none
  disturb
    | .elapse n, s => { s with store := { s.store with now := s.store.now + n } }
    | .abort t, s => s.release t
  kills
    | .elapse _, _ => false
    | .abort t, t' => t == t'

abbrev ClaimCall := ThreadCall Nat Request ClaimOp ClaimStore Unit

abbrev ClaimConfig := Config Nat Request ClaimOp ClaimOp.Answer ClaimStore HttpError Response

abbrev ClaimRun (mode : Isolation) (s : ClaimStore) (es : List ClaimCall) (d : ClaimConfig) :
    Prop :=
  Run (claims mode) (.initial s) es d

-- The job a call answers with, if it is a claim's.
def answered (e : ClaimCall) : Option Job :=
  match e.op with
  | .plain (.statement (.claimNextJob w codecs downscale)) =>
    (e.pre.store.claimNextJob w codecs downscale).2
  | .updateLocked w => (e.pre.updateLocked e.thread w).2
  | _ => none

-- What the SELECT of a claim looks for, if the call is one.
def selects : ClaimOp → Option (List String × Bool)
  | .plain (.statement (.claimNextJob _ codecs downscale)) => some (codecs, downscale)
  | .lockNext codecs downscale => some (codecs, downscale)
  | _ => none

section Oldest

theorem oldest_none {l : List Job} (h : oldest l = none) : l = [] := by
  cases l with
  | nil => rfl
  | cons x xs =>
    rw [oldest] at h
    cases hxs : oldest xs with
    | none =>
      rw [hxs] at h
      cases h
    | some y =>
      rw [hxs] at h
      dsimp only at h
      split at h <;> cases h

theorem oldest_le {l : List Job} {j : Job} (h : oldest l = some j) :
    ∀ j' ∈ l, j.createdAt ≤ j'.createdAt := by
  induction l generalizing j with
  | nil => cases h
  | cons x xs ih =>
    rw [oldest] at h
    cases hxs : oldest xs with
    | none =>
      rw [hxs] at h
      cases h
      have hnil := oldest_none hxs
      simp [hnil]
    | some y =>
      rw [hxs] at h
      have hy := ih hxs
      dsimp only at h
      intro j' hj'
      split at h
      · next hlt =>
        cases h
        rcases List.mem_cons.mp hj' with rfl | hj'
        · exact Nat.le_of_lt hlt
        · exact hy j' hj'
      · next hle =>
        cases h
        rcases List.mem_cons.mp hj' with rfl | hj'
        · exact Nat.le_refl _
        · exact Nat.le_trans (Nat.not_lt.mp hle) (hy j' hj')

-- A job that a claim with these needs may take, and none it may take instead is older.
structure Oldest (s : ClaimStore) (codecs : List String) (downscale : Bool) (free : Job) :
    Prop where
  row : s.store.jobs.get? free.id = some free
  claimable : free.claimable codecs downscale = true
  unlocked : s.isLocked free.id = false
  least : ∀ j ∈ s.store.jobs, j.claimable codecs downscale = true → s.isLocked j.id = false →
    free.createdAt ≤ j.createdAt

theorem Oldest.waiting {s : ClaimStore} {codecs : List String} {downscale : Bool} {free : Job}
    (h : Oldest s codecs downscale free) : free.status.isWaiting = true := by
  have hclaimable := h.claimable
  rw [Job.claimable, Bool.and_eq_true, Bool.and_eq_true] at hclaimable
  exact hclaimable.1.1

variable {s : ClaimStore} {codecs : List String} {downscale : Bool} {free : Job}

theorem nextUnlocked_oldest (h : s.nextUnlocked codecs downscale = some free) :
    Oldest s codecs downscale free := by
  obtain ⟨hmem, hp⟩ := Table.mem_select.mp (oldest_mem h)
  rw [Bool.and_eq_true, Bool.not_eq_true'] at hp
  refine ⟨Table.get?_of_mem hmem, hp.1, hp.2, fun j hj hclaimable hunlocked => ?_⟩
  exact oldest_le h j (Table.mem_select.mpr ⟨hj, by simp [hclaimable, hunlocked]⟩)

theorem nextClaimable_oldest (h : s.store.nextClaimable codecs downscale = some free)
    (hunlocked : s.isLocked free.id = false) : Oldest s codecs downscale free := by
  obtain ⟨hmem, hp⟩ := Table.mem_select.mp (oldest_mem h)
  refine ⟨Table.get?_of_mem hmem, hp, hunlocked, fun j hj hclaimable _ => ?_⟩
  exact oldest_le h j (Table.mem_select.mpr ⟨hj, hclaimable⟩)

end Oldest

section Calls

-- What a request can do, claims taken apart.
def Performs (r : Request) : ClaimOp → Prop
  | .plain op => r.Performs op
  | .lockNext _ _ => ∃ token w, r = .claim token w
  | .updateLocked w => ∃ token, r = .claim token w

theorem sends_claimNextJob {r : Request} {w : Uuid} {codecs : List String} {downscale : Bool}
    (h : r.Sends (.claimNextJob w codecs downscale)) : ∃ token, r = .claim token w := by
  cases r with
  | claim token workerId =>
    obtain ⟨-, rfl⟩ := h
    exact ⟨token, rfl⟩
  | heartbeat => cases h.2
  | checkDerivative => exact h.1.elim
  | _ => exact h.elim

theorem split_calls {mode : Isolation} {r : Request} {op : Op} (h : r.Performs op) :
    (split mode op).Calls (Performs r) := by
  cases op with
  | statement q =>
    cases q with
    | claimNextJob w codecs downscale =>
      obtain ⟨token, rfl⟩ := sends_claimNextJob h
      cases mode with
      | shared => exact ⟨h, fun _ => trivial⟩
      | isolated =>
        refine ⟨⟨token, w, rfl⟩, fun found => ?_⟩
        cases found with
        | true => exact ⟨⟨token, rfl⟩, fun _ => trivial⟩
        | false => trivial
    | _ => exact ⟨h, fun _ => trivial⟩
  | reportBlock p => exact ⟨h, fun _ => trivial⟩
  | batchBlock p => exact ⟨h, fun _ => trivial⟩

theorem ClaimRun.performs {mode : Isolation} {s : ClaimStore} {es : List ClaimCall}
    {d : ClaimConfig} (h : ClaimRun mode s es d) : ∀ e ∈ es, Performs e.request e.op :=
  (Run.calls h fun _ r _ _ _ => (r.body_calls mode).expand fun _ => split_calls).1

-- Every statement of an operation that is no claim.
def Unclaiming (q : Statement) : Prop :=
  q.Proper ∧ ∀ w codecs downscale, q ≠ .claimNextJob w codecs downscale

theorem performs_unclaiming {r : Request} {op : Op} (h : r.Performs op)
    (hop : ∀ w codecs downscale, op ≠ .statement (.claimNextJob w codecs downscale)) :
    op.Does Unclaiming := by
  have hsends : ∀ q, r.Sends q → (∀ token w, r ≠ .claim token w) → Unclaiming q := by
    intro q hq hr
    refine ⟨Request.Sends.proper hq, ?_⟩
    rintro w codecs downscale rfl
    obtain ⟨token, heq⟩ := sends_claimNextJob hq
    exact hr token w heq
  cases op with
  | statement q =>
    refine ⟨Request.Sends.proper h, fun w codecs downscale heq => hop w codecs downscale ?_⟩
    rw [heq]
  | reportBlock p =>
    obtain ⟨block, job, hblock, -⟩ := id h
    refine h.does.mono fun q hq => hsends q hq ?_
    rintro token w rfl
    cases hblock
  | batchBlock p =>
    refine h.2.mono fun q hq => hsends q hq ?_
    rintro token w rfl
    cases h.1

end Calls

section Owned

-- A waiting job has neither owner nor token, a running one has both.
structure Owned (s : Store) : Prop extends s.WellFormed where
  active : ∀ id j, s.jobs.get? id = some j → j.status.isActive = true →
    j.workerId ≠ none ∧ j.claimToken ≠ none

variable {s : Store}

theorem active_of_step {q : Statement} {j j' : Job} (h : JobStep s q j j') (hq : q.Proper)
    (hj : j.status.isActive = true → j.workerId ≠ none ∧ j.claimToken ≠ none)
    (hactive : j'.status.isActive = true) : j'.workerId ≠ none ∧ j'.claimToken ≠ none := by
  cases h with
  | claimed => exact ⟨nofun, nofun⟩
  | progressed => exact hj hactive
  | @finalized _ _ _ status =>
    change status.isTerminal = true at hq
    change status.isActive = true at hactive
    have hcases := status.waiting_active_terminal
    simp [hq, hactive] at hcases
  | released => cases hactive
  | orphaned => cases hactive
  | abandoned => cases hactive
  | cancelled => cases hactive
  | cancelledAll => cases hactive
  | updated =>
    obtain ⟨job, rfl⟩ := hq
    cases hactive

theorem Owned.next {q : Statement} (hs : Owned s) (hq : q.Proper) : Owned (q.next s) where
  toWellFormed := hs.toWellFormed.next hq
  active id j' hj' hactive := by
    have hrow := q.next_row s id
    rw [hj'] at hrow
    generalize hbefore : s.jobs.get? id = before at hrow
    cases hrow with
    | kept => exact hs.active id j' hbefore hactive
    | inserted heq =>
      subst heq
      have hstatus := (show _ = JobStatus.queued from hq)
      change JobStatus.isActive _ = true at hactive
      rw [show (Job.inserted _ s.nextUuid s.now).status = _ from hstatus] at hactive
      cases hactive
    | changed hstep => exact active_of_step hstep hq (hs.active id _ hbefore) hactive

-- The tokens on the rows after a step are ones that were there before.
def TokensKept (s s' : Store) : Prop :=
  s.nextUuid ≤ s'.nextUuid ∧ ∀ id j' k, s'.jobs.get? id = some j' → j'.claimToken = some k →
    ∃ j, s.jobs.get? id = some j ∧ j.claimToken = some k

theorem TokensKept.refl (s : Store) : TokensKept s s :=
  ⟨Nat.le_refl _, fun _ j _ hj hk => ⟨j, hj, hk⟩⟩

theorem TokensKept.trans {s₁ s₂ s₃ : Store} (h : TokensKept s₁ s₂) (h' : TokensKept s₂ s₃) :
    TokensKept s₁ s₃ := by
  refine ⟨Nat.le_trans h.1 h'.1, fun id j₃ k hj₃ hk₃ => ?_⟩
  obtain ⟨j₂, hj₂, hk₂⟩ := h'.2 id j₃ k hj₃ hk₃
  exact h.2 id j₂ k hj₂ hk₂

theorem Unclaiming.tokensKept {q : Statement} (h : Unclaiming q) : TokensKept s (q.next s) := by
  refine ⟨q.nextUuid_le s, fun id j' k hj' hk => ?_⟩
  have hrow := q.next_row s id
  rw [hj'] at hrow
  generalize s.jobs.get? id = before at hrow
  cases hrow with
  | kept => exact ⟨j', rfl, hk⟩
  | inserted => cases hk
  | @changed j _ hstep =>
    rcases hstep.claimToken_cases h.1 with heq | heq | ⟨w, codecs, downscale, rfl, -⟩
    · exact ⟨j, rfl, heq ▸ hk⟩
    · rw [heq] at hk
      cases hk
    · exact absurd rfl (h.2 w codecs downscale)

theorem op_kept {op : Op} (hs : Owned s) (h : op.Does Unclaiming) :
    Owned (op.exec s).1 ∧ TokensKept s (op.exec s).1 :=
  ⟨Op.exec_keeps h hs fun _ _ hq hs => hs.next hq.1,
    Op.exec_rel TokensKept.refl (fun _ _ _ => TokensKept.trans) h
      (fun _ _ hq => hq.tokensKept) s⟩

end Owned

end TranscodeForge.Claims
