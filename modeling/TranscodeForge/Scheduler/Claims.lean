import TranscodeForge.Scheduler.Attempts
import TranscodeForge.Scheduler.RowLocks

namespace TranscodeForge.Claims

open Relational Interaction Scheduler Store Attempts

section Issuing

variable {es : List ClaimCall} {e : ClaimCall} {k : Uuid} {id : Uuid}

def Issues (k : Uuid) (e : ClaimCall) : Prop := ∃ j, answered e = some j ∧ j.claimToken = some k

-- Exactly one call has answered with this token, and it answered with this job.
def IssuedOnce (es : List ClaimCall) (k id : Uuid) : Prop :=
  ∃ xs e ys, es = xs ++ e :: ys ∧
    (∃ j, answered e = some j ∧ j.id = id ∧ j.claimToken = some k) ∧
    ∀ f ∈ xs ++ ys, ¬Issues k f

theorem IssuedOnce.append (h : IssuedOnce es k id) (he : ¬Issues k e) :
    IssuedOnce (es ++ [e]) k id := by
  obtain ⟨xs, f, ys, rfl, hf, hothers⟩ := h
  refine ⟨xs, f, ys ++ [e], by simp, hf, fun g hg => ?_⟩
  rw [← List.append_assoc, List.mem_append, List.mem_singleton] at hg
  rcases hg with hg | rfl
  · exact hothers g hg
  · exact he

theorem IssuedOnce.here {j : Job} (hfresh : ∀ f ∈ es, ¬Issues k f) (he : answered e = some j)
    (hk : j.claimToken = some k) : IssuedOnce (es ++ [e]) k j.id :=
  ⟨es, e, [], rfl, ⟨j, he, rfl, hk⟩, by simpa using hfresh⟩

theorem not_issues (h : answered e = none) : ¬Issues k e := by
  rintro ⟨j, hj, -⟩
  rw [h] at hj
  cases hj

end Issuing

section Invariant

-- The call is a claim's SELECT, and this is the row it finds.
def Picks (f : ClaimCall) (free : Job) : Prop :=
  ∃ codecs downscale, selects f.op = some (codecs, downscale) ∧
    Oldest f.pre (claimCodecs codecs) downscale free

theorem Picks.waiting {f : ClaimCall} {free : Job} (h : Picks f free) :
    free.status.isWaiting = true := by
  obtain ⟨codecs, downscale, -, holdest⟩ := h
  exact holdest.waiting

-- A lock is on the row that its holder's SELECT found, which has not changed since, and the
-- token drawn for the claim is on no row and in no answer.
structure Locked (s₀ s : Store) (es : List ClaimCall) (l : RowLock) : Prop where
  row : ∃ free, s.jobs.get? l.job = some free ∧
    Since (fun _ f => f.thread = l.holder ∧ Picks f free) (fun g => g.thread ≠ l.holder) es
  drawn : s₀.nextUuid ≤ l.token ∧ l.token < s.nextUuid
  unheld : ∀ id j, s.jobs.get? id = some j → j.claimToken ≠ some l.token
  unissued : ∀ e ∈ es, ¬Issues l.token e

structure Sound (s₀ : Store) (s : ClaimStore) (es : List ClaimCall) : Prop where
  owned : Owned s.store
  grown : s₀.nextUuid ≤ s.store.nextUuid
  drawn : ∀ e ∈ es, ∀ k, Issues k e → s₀.nextUuid ≤ k ∧ k < s.store.nextUuid
  issued : ∀ id j k, s.store.jobs.get? id = some j → j.claimToken = some k →
    (∃ j₀, s₀.jobs.get? id = some j₀ ∧ j₀.claimToken = some k) ∨ IssuedOnce es k id
  locks : ∀ l ∈ s.locked, Locked s₀ s.store es l
  alone : ∀ l ∈ s.locked, ∀ l' ∈ s.locked,
    l.job = l'.job ∨ l.token = l'.token ∨ l.holder = l'.holder → l = l'

variable {s₀ : Store} {s s' : ClaimStore} {es : List ClaimCall} {e : ClaimCall}

theorem Sound.initial (hs : Owned s.store) (hfree : s.locked = []) : Sound s.store s [] where
  owned := hs
  grown := Nat.le_refl _
  drawn e he := by cases he
  issued _ j _ hj hk := .inl ⟨j, hj, hk⟩
  locks := by simp [hfree]
  alone := by simp [hfree]

theorem Sound.elapsed (h : Sound s₀ s es) (n : Nat) :
    Sound s₀ { s with store := { s.store with now := s.store.now + n } } es where
  owned := ⟨h.owned.toWellFormed.later n, h.owned.active⟩
  grown := h.grown
  drawn := h.drawn
  issued := h.issued
  locks l hl := ⟨(h.locks l hl).row, (h.locks l hl).drawn, (h.locks l hl).unheld,
    (h.locks l hl).unissued⟩
  alone := h.alone

theorem mem_release {l : RowLock} {t : Nat} (h : l ∈ (s.release t).locked) :
    l ∈ s.locked ∧ l.holder ≠ t := by
  simpa [ClaimStore.release] using h

theorem Sound.released (h : Sound s₀ s es) (t : Nat) : Sound s₀ (s.release t) es where
  owned := h.owned
  grown := h.grown
  drawn := h.drawn
  issued := h.issued
  locks l hl := h.locks l (mem_release hl).1
  alone l hl l' hl' := h.alone l (mem_release hl).1 l' (mem_release hl').1

theorem lockOf_none {t : Nat} (h : s.lockOf t = none) : ∀ l ∈ s.locked, l.holder ≠ t := by
  simpa [ClaimStore.lockOf] using h

theorem lockOf_some {t : Nat} {l : RowLock} (h : s.lockOf t = some l) :
    l ∈ s.locked ∧ l.holder = t :=
  ⟨List.mem_of_find?_eq_some h, by simpa using List.find?_some h⟩

-- A call of another connection leaves a lock as it is.
theorem Locked.kept {store store' : Store} {l : RowLock} (h : Locked s₀ store es l)
    (hthread : e.thread ≠ l.holder) (hrow : store'.jobs.get? l.job = store.jobs.get? l.job)
    (hdrawn : store.nextUuid ≤ store'.nextUuid)
    (hunheld : ∀ id j, store'.jobs.get? id = some j → j.claimToken ≠ some l.token)
    (hissued : ¬Issues l.token e) : Locked s₀ store' (es ++ [e]) l where
  row := by
    obtain ⟨free, hfree, hsince⟩ := h.row
    exact ⟨free, hrow.trans hfree, hsince.append hthread⟩
  drawn := ⟨h.drawn.1, Nat.lt_of_lt_of_le h.drawn.2 hdrawn⟩
  unheld := hunheld
  unissued f hf := by
    rcases List.mem_append.mp hf with hf | hf
    · exact h.unissued f hf
    · rwa [List.mem_singleton.mp hf]

-- A call that issues no token and changes no locked row.
theorem Sound.unclaiming (h : Sound s₀ s es) (hanswered : answered e = none)
    (hthread : ∀ l ∈ s'.locked, e.thread ≠ l.holder)
    (hlocked : ∀ l ∈ s'.locked, l ∈ s.locked) (howned : Owned s'.store)
    (hkept : TokensKept s.store s'.store)
    (hrows : ∀ l ∈ s'.locked, s'.store.jobs.get? l.job = s.store.jobs.get? l.job) :
    Sound s₀ s' (es ++ [e]) where
  owned := howned
  grown := Nat.le_trans h.grown hkept.1
  drawn f hf k hk := by
    rcases List.mem_append.mp hf with hf | hf
    · exact ⟨(h.drawn f hf k hk).1, Nat.lt_of_lt_of_le (h.drawn f hf k hk).2 hkept.1⟩
    · rw [List.mem_singleton.mp hf] at hk
      exact absurd hk (not_issues hanswered)
  issued id j' k hj' hk := by
    obtain ⟨j, hj, hjk⟩ := hkept.2 id j' k hj' hk
    exact (h.issued id j k hj hjk).imp_right fun honce => honce.append (not_issues hanswered)
  locks l hl := by
    have hold := h.locks l (hlocked l hl)
    refine hold.kept (hthread l hl) (hrows l hl) hkept.1 ?_ (not_issues hanswered)
    intro id j' hj' hk
    obtain ⟨j, hj, hjk⟩ := hkept.2 id j' l.token hj' hk
    exact hold.unheld id j hj hjk
  alone l hl l' hl' := h.alone l (hlocked l hl) l' (hlocked l' hl')

-- The store after a claim has taken the row, whichever statement it was taken by.
def claimRow (store : Store) (free : Job) (w k : Uuid) (now : Instant) : Store :=
  store.updateJobs (fun j => j.id == free.id) fun j => j.claimed w k now

variable {store : Store} {free : Job} {w k : Uuid} {now : Instant}

theorem get?_claimRow (hfree : store.jobs.get? free.id = some free) (id : Uuid) :
    (claimRow store free w k now).jobs.get? id =
      if id = free.id then some (free.claimed w k now) else store.jobs.get? id := by
  have hlook : (claimRow store free w k now).jobs.get? id =
      (store.jobs.get? id).map fun j => if j.id == free.id then j.claimed w k now else j :=
    get?_updateJobs ..
  rw [hlook]
  split
  · next hid => rw [hid, hfree, Option.map_some, if_pos (beq_self_eq_true _)]
  · next hid =>
    cases hrow : store.jobs.get? id with
    | none => rfl
    | some j =>
      have hne : ¬(j.id == free.id) = true := by
        rw [beq_iff_eq, Table.get?_key hrow]
        exact hid
      rw [Option.map_some, if_neg hne]

theorem owned_claimRow (hs : Owned store) (hfree : store.jobs.get? free.id = some free)
    (hk : k < store.nextUuid) : Owned (claimRow store free w k now) where
  unowned id j hj hwaiting := by
    rw [get?_claimRow hfree] at hj
    split at hj
    · cases hj
      cases hwaiting
    · exact hs.unowned id j hj hwaiting
  drawnToken id j k' hj hk' := by
    rw [get?_claimRow hfree] at hj
    split at hj
    · cases hj
      cases hk'
      exact hk
    · exact hs.drawnToken id j k' hj hk'
  drawnId id j hj := by
    rw [get?_claimRow hfree] at hj
    split at hj
    · next hid =>
      subst hid
      exact hs.drawnId free.id free hfree
    · exact hs.drawnId id j hj
  active id j hj hactive := by
    rw [get?_claimRow hfree] at hj
    split at hj
    · cases hj
      exact ⟨nofun, nofun⟩
    · exact hs.active id j hj hactive

-- A call that takes a row under a token that was drawn for it alone.
theorem Sound.claimed (h : Sound s₀ s es) (hlocked : ∀ l ∈ s'.locked, l ∈ s.locked)
    (hanswered : answered e = some (free.claimed w k now))
    (hfree : s.store.jobs.get? free.id = some free)
    (hstore : s'.store = claimRow store free w k now) (howned : Owned store)
    (hjobs : store.jobs = s.store.jobs) (hle : s.store.nextUuid ≤ store.nextUuid)
    (hk : s₀.nextUuid ≤ k ∧ k < store.nextUuid) (hunissued : ∀ f ∈ es, ¬Issues k f)
    (hunheld : ∀ id j, s.store.jobs.get? id = some j → j.claimToken ≠ some k)
    (hothers : ∀ l ∈ s'.locked, e.thread ≠ l.holder ∧ l.job ≠ free.id ∧ l.token ≠ k) :
    Sound s₀ s' (es ++ [e]) := by
  have hrow : store.jobs.get? free.id = some free := by rw [hjobs, hfree]
  have hdrawn : s'.store.nextUuid = store.nextUuid := by rw [hstore]; rfl
  have hlook : ∀ id, s'.store.jobs.get? id =
      if id = free.id then some (free.claimed w k now) else s.store.jobs.get? id := by
    intro id
    rw [hstore, get?_claimRow hrow, hjobs]
  have hissues : ∀ k', Issues k' e → k' = k := by
    rintro k' ⟨j, hj, hk'⟩
    rw [hanswered] at hj
    cases hj
    exact (Option.some.inj hk').symm
  constructor
  · rw [hstore]
    exact owned_claimRow howned hrow hk.2
  · rw [hdrawn]
    exact Nat.le_trans h.grown hle
  · intro f hf k' hk'
    rw [hdrawn]
    rcases List.mem_append.mp hf with hf | hf
    · exact ⟨(h.drawn f hf k' hk').1, Nat.lt_of_lt_of_le (h.drawn f hf k' hk').2 hle⟩
    · rw [List.mem_singleton.mp hf] at hk'
      rw [hissues k' hk']
      exact hk
  · intro id j k' hj hk'
    rw [hlook] at hj
    split at hj
    · next hid =>
      cases hj
      cases hk'
      rw [hid]
      exact .inr (IssuedOnce.here (j := free.claimed w k now) hunissued hanswered rfl)
    · refine (h.issued id j k' hj hk').imp_right fun honce => honce.append fun hissued => ?_
      rw [hissues k' hissued] at hk'
      exact hunheld id j hj hk'
  · intro l hl
    obtain ⟨hthread, hjob, htoken⟩ := hothers l hl
    have hold := h.locks l (hlocked l hl)
    refine hold.kept hthread ?_ (hdrawn ▸ hle) ?_ fun hissued => htoken (hissues _ hissued)
    · rw [hlook, if_neg hjob]
    · intro id j hj
      rw [hlook] at hj
      split at hj
      · cases hj
        exact fun heq => htoken (Option.some.inj heq).symm
      · exact hold.unheld id j hj
  · exact fun l hl l' hl' => h.alone l (hlocked l hl) l' (hlocked l' hl')

end Invariant

section Steps

variable {s₀ : Store} {s : ClaimStore} {es : List ClaimCall} {e : ClaimCall}

theorem claimNextJob_cases (store : Store) (w : Uuid) (codecs : List String) (downscale : Bool) :
    store.claimNextJob w codecs downscale = (store.drawUuid, none) ∨
      ∃ next, store.nextClaimable (claimCodecs codecs) downscale = some next ∧
        store.claimNextJob w codecs downscale =
          (claimRow store.drawUuid next w store.nextUuid store.now,
            some (next.claimed w store.nextUuid store.now)) := by
  rw [Store.claimNextJob]
  cases hnext : store.nextClaimable (claimCodecs codecs) downscale with
  | none => exact .inl rfl
  | some next => exact .inr ⟨next, rfl, rfl⟩

theorem owned_drawUuid {store : Store} (hs : Owned store) : Owned store.drawUuid :=
  hs.next (q := .uuid4) trivial

theorem tokensKept_drawUuid (store : Store) : TokensKept store store.drawUuid :=
  Unclaiming.tokensKept (q := .uuid4) ⟨trivial, nofun⟩

theorem ready_plain {t : Nat} {op : Op} (h : (ClaimOp.plain op).ready t s = true) :
    (∀ l ∈ s.locked, t ≠ l.holder) ∧
      ∀ l ∈ s.locked, (op.exec s.store).1.jobs.get? l.job = s.store.jobs.get? l.job := by
  rw [ClaimOp.ready, Bool.and_eq_true, Option.isNone_iff_eq_none, List.all_eq_true] at h
  exact ⟨fun l hl => (lockOf_none h.1 l hl).symm, fun l hl => of_decide_eq_true (h.2 l hl)⟩

theorem isLocked_false {id : Uuid} (h : ∀ l ∈ s.locked, l.job ≠ id) : s.isLocked id = false := by
  simpa [ClaimStore.isLocked] using h

theorem not_isLocked {id : Uuid} (h : s.isLocked id = false) : ∀ l ∈ s.locked, l.job ≠ id := by
  simpa [ClaimStore.isLocked] using h

theorem claimed_ne {free : Job} {w k : Uuid} {now : Instant}
    (h : free.status.isWaiting = true) : free.claimed w k now ≠ free := by
  intro heq
  rw [← heq] at h
  cases h

-- The row that a claim of one statement takes is no locked one, or the claim would wait.
theorem claimNextJob_oldest {t : Nat} {w : Uuid} {codecs : List String} {downscale : Bool}
    {next : Job}
    (hready : (ClaimOp.plain (.statement (.claimNextJob w codecs downscale))).ready t s = true)
    (hnext : s.store.nextClaimable (claimCodecs codecs) downscale = some next)
    (hclaim : s.store.claimNextJob w codecs downscale =
      (claimRow s.store.drawUuid next w s.store.nextUuid s.store.now,
        some (next.claimed w s.store.nextUuid s.store.now))) :
    Oldest s (claimCodecs codecs) downscale next := by
  obtain ⟨hmem, hwaiting⟩ := nextClaimable_waiting hnext
  have hrow : s.store.drawUuid.jobs.get? next.id = some next := Table.get?_of_mem hmem
  refine nextClaimable_oldest hnext (isLocked_false fun l hl hjob => ?_)
  have hsame := (ready_plain hready).2 l hl
  change (s.store.claimNextJob w codecs downscale).1.jobs.get? l.job = _ at hsame
  rw [hclaim, hjob, get?_claimRow hrow, if_pos rfl] at hsame
  exact claimed_ne hwaiting (Option.some.inj (hsame.trans hrow))

theorem answered_plain {op : Op}
    (h : ∀ w codecs downscale, op ≠ .statement (.claimNextJob w codecs downscale)) {i : Unit}
    {pre post : ClaimStore} {t : Nat} {r : Request} :
    answered ⟨⟨.plain op, i, pre, post⟩, t, r⟩ = none := by
  cases op with
  | reportBlock => rfl
  | batchBlock => rfl
  | statement q =>
    cases q with
    | claimNextJob w codecs downscale => exact absurd rfl (h w codecs downscale)
    | _ => rfl

theorem Sound.plain {op : Op} {i : Unit} {t : Nat} {r : Request} (h : Sound s₀ s es)
    (hperforms : r.Performs op) (hready : (ClaimOp.plain op).ready t s = true)
    (hop : ∀ w codecs downscale, op ≠ .statement (.claimNextJob w codecs downscale)) :
    Sound s₀ { s with store := (op.exec s.store).1 }
      (es ++ [⟨⟨.plain op, i, s, { s with store := (op.exec s.store).1 }⟩, t, r⟩]) := by
  obtain ⟨hthread, hrows⟩ := ready_plain hready
  obtain ⟨howned, hkept⟩ := op_kept h.owned (performs_unclaiming hperforms hop)
  exact h.unclaiming (answered_plain hop) hthread (fun _ hl => hl) howned hkept hrows

theorem Sound.claimNextJob {w : Uuid} {codecs : List String} {downscale : Bool} {i : Unit}
    {t : Nat} {r : Request} {post : ClaimStore} (h : Sound s₀ s es)
    (hready : (ClaimOp.plain (.statement (.claimNextJob w codecs downscale))).ready t s = true)
    (hpost : post = { s with store := (s.store.claimNextJob w codecs downscale).1 }) :
    Sound s₀ post
      (es ++ [⟨⟨.plain (.statement (.claimNextJob w codecs downscale)), i, s, post⟩, t, r⟩]) := by
  subst hpost
  obtain ⟨hthread, hrows⟩ := ready_plain hready
  have hdrawn := owned_drawUuid h.owned
  rcases claimNextJob_cases s.store w codecs downscale with hnone | ⟨next, hnext, hclaim⟩
  · have hanswered : answered ⟨⟨.plain (.statement (.claimNextJob w codecs downscale)), i, s,
        { s with store := (s.store.claimNextJob w codecs downscale).1 }⟩, t, r⟩ = none :=
      congrArg Prod.snd hnone
    refine h.unclaiming hanswered hthread (fun _ hl => hl) ?_ ?_ hrows
    · rw [hnone]
      exact hdrawn
    · rw [hnone]
      exact tokensKept_drawUuid s.store
  · have holdest := claimNextJob_oldest hready hnext hclaim
    refine h.claimed (fun _ hl => hl) (congrArg Prod.snd hclaim) holdest.row
      (congrArg Prod.fst hclaim) hdrawn rfl (Nat.le_succ _) ⟨h.grown, Nat.lt_succ_self _⟩ ?_ ?_ ?_
    · exact fun f hf hissued => Nat.lt_irrefl _ (h.drawn f hf _ hissued).2
    · exact fun id j hj hk => Nat.lt_irrefl _ (h.owned.drawnToken id j _ hj hk)
    · exact fun l hl => ⟨hthread l hl, not_isLocked holdest.unlocked l hl,
        Nat.ne_of_lt (h.locks l hl).drawn.2⟩

theorem Sound.lockNext {codecs : List String} {downscale : Bool} {i : Unit} {t : Nat}
    {r : Request} {post : ClaimStore} (h : Sound s₀ s es)
    (hready : (ClaimOp.lockNext codecs downscale).ready t s = true)
    (hpost : post = (s.lockNext t codecs downscale).1) :
    Sound s₀ post (es ++ [⟨⟨.lockNext codecs downscale, i, s, post⟩, t, r⟩]) := by
  have hnone := lockOf_none (Option.isNone_iff_eq_none.mp hready)
  have hdrawn : Sound s₀ { s with store := s.store.drawUuid }
      (es ++ [⟨⟨.lockNext codecs downscale, i, s, post⟩, t, r⟩]) :=
    h.unclaiming rfl (fun l hl => (hnone l hl).symm) (fun _ hl => hl) (owned_drawUuid h.owned)
      (tokensKept_drawUuid s.store) fun _ _ => rfl
  rw [ClaimStore.lockNext] at hpost
  cases hnext : s.nextUnlocked (claimCodecs codecs) downscale with
  | none =>
    rw [hnext] at hpost
    subst hpost
    exact hdrawn
  | some next =>
    rw [hnext] at hpost
    have holdest := nextUnlocked_oldest hnext
    have hfresh : ∀ l ∈ s.locked, l.job ≠ next.id ∧ l.token ≠ s.store.nextUuid ∧ l.holder ≠ t :=
      fun l hl => ⟨not_isLocked holdest.unlocked l hl, Nat.ne_of_lt (h.locks l hl).drawn.2,
        hnone l hl⟩
    subst hpost
    refine ⟨hdrawn.owned, hdrawn.grown, hdrawn.drawn, hdrawn.issued, fun l hl => ?_,
      fun l hl l' hl' hsame => ?_⟩
    · rcases List.mem_cons.mp hl with rfl | hl
      · refine ⟨⟨next, holdest.row, Since.here ⟨rfl, codecs, downscale, rfl, holdest⟩⟩,
          ⟨h.grown, Nat.lt_succ_self _⟩, fun id j hj hk => ?_, fun f hf hissued => ?_⟩
        · exact Nat.lt_irrefl _ (h.owned.drawnToken id j _ hj hk)
        · rcases List.mem_append.mp hf with hf | hf
          · exact Nat.lt_irrefl _ (h.drawn f hf _ hissued).2
          · rw [List.mem_singleton.mp hf] at hissued
            exact not_issues rfl hissued
      · exact hdrawn.locks l hl
    · rcases List.mem_cons.mp hl with rfl | hl <;> rcases List.mem_cons.mp hl' with rfl | hl'
      · rfl
      · obtain ⟨hjob, htoken, hholder⟩ := hfresh l' hl'
        rcases hsame with hsame | hsame | hsame
        · exact absurd hsame.symm hjob
        · exact absurd hsame.symm htoken
        · exact absurd hsame.symm hholder
      · obtain ⟨hjob, htoken, hholder⟩ := hfresh l hl
        rcases hsame with hsame | hsame | hsame
        · exact absurd hsame hjob
        · exact absurd hsame htoken
        · exact absurd hsame hholder
      · exact h.alone l hl l' hl' hsame

theorem updateLocked_some {t : Nat} {w : Uuid} {l : RowLock} {free : Job}
    (hlock : s.lockOf t = some l) (hfree : s.store.jobs.get? l.job = some free) :
    s.updateLocked t w =
      ({ s.release t with store := claimRow s.store free w l.token l.takenAt },
        some (free.claimed w l.token l.takenAt)) := by
  have hid : free.id = l.job := Table.get?_key hfree
  simp only [ClaimStore.updateLocked, hlock, hfree, Option.map_some, claimRow, hid]

theorem Sound.updateLocked {w : Uuid} {i : Unit} {t : Nat} {r : Request} {post : ClaimStore}
    (h : Sound s₀ s es) (hpost : post = (s.updateLocked t w).1) :
    Sound s₀ post (es ++ [⟨⟨.updateLocked w, i, s, post⟩, t, r⟩]) := by
  cases hlock : s.lockOf t with
  | none =>
    have hsame : s.updateLocked t w = (s, none) := by simp only [ClaimStore.updateLocked, hlock]
    rw [hsame] at hpost
    subst hpost
    refine h.unclaiming (congrArg Prod.snd hsame) (fun l hl => ?_) (fun _ hl => hl) h.owned
      (.refl _) fun _ _ => rfl
    exact (lockOf_none hlock l hl).symm
  | some l =>
    obtain ⟨hl, hholder⟩ := lockOf_some hlock
    have hold := h.locks l hl
    obtain ⟨free, hfree, -⟩ := hold.row
    have hid : l.job = free.id := (Table.get?_key hfree).symm
    have hclaim := updateLocked_some (w := w) hlock hfree
    rw [hclaim] at hpost
    subst hpost
    refine h.claimed (fun l' hl' => (mem_release hl').1) (congrArg Prod.snd hclaim)
      (hid ▸ hfree) rfl h.owned rfl (Nat.le_refl _) hold.drawn hold.unissued hold.unheld ?_
    intro l' hl'
    obtain ⟨hmem, hne⟩ := mem_release hl'
    have hother : l' ≠ l := fun heq => hne (heq ▸ hholder)
    exact ⟨hne.symm, fun hjob => hother (h.alone l' hmem l hl (.inl (hjob.trans hid.symm))),
      fun htoken => hother (h.alone l' hmem l hl (.inr (.inl htoken)))⟩

theorem Sound.call (h : Sound s₀ e.pre es) (hperforms : Performs e.request e.op)
    (hready : e.op.ready e.thread e.pre = true) (hpost : e.post = (e.op.exec e.thread e.pre).1) :
    Sound s₀ e.post (es ++ [e]) := by
  obtain ⟨⟨op, i, pre, post⟩, t, r⟩ := e
  cases op with
  | lockNext codecs downscale => exact h.lockNext hready hpost
  | updateLocked w => exact h.updateLocked hpost
  | plain op =>
    by_cases hop : ∀ w codecs downscale, op ≠ .statement (.claimNextJob w codecs downscale)
    · have hstep : post = { pre with store := (op.exec pre.store).1 } := hpost
      subst hstep
      exact h.plain hperforms hready hop
    · push Not at hop
      obtain ⟨w, codecs, downscale, rfl⟩ := hop
      exact h.claimNextJob hready hpost

variable {mode : Isolation} {d : ClaimConfig}

theorem start_claims {t : Nat} {r : Request} {s' : ClaimStore}
    (h : (claims mode).start t r s = some s') : s' = s := by
  simp only [claims] at h
  split at h
  · exact (Option.some.inj h).symm
  · cases h

theorem sound_run (hs : Owned s.store) (hfree : s.locked = []) (h : ClaimRun mode s es d) :
    (∀ xs e ys, es = xs ++ e :: ys → Sound s.store e.pre xs) ∧ Sound s.store d.state es := by
  refine Run.history_invariant (P := Sound s.store)
    (A := fun _ e => Performs e.request e.op ∧ e.op.ready e.thread e.pre = true) h ?_
    (Sound.initial hs hfree) ?_ ?_ ?_
  · intro xs e ys heq
    have he : e ∈ es := by simp [heq]
    exact ⟨ClaimRun.performs h e he, Run.ready h e he⟩
  · intro t r s₁ s₂ xs hsound hstart
    rw [start_claims hstart]
    exact hsound
  · intro k s₁ xs hsound
    cases k with
    | elapse n => exact hsound.elapsed n
    | abort t => exact hsound.released t
  · intro e xs hpost hallowed hsound
    exact hsound.call hallowed.1 hallowed.2 hpost

end Steps

section Advertised

variable {mode : Isolation} {t : Nat} {r : Request} {w : Uuid} {codecs : List String}
  {downscale : Bool}

def Reads (w : Uuid) (codecs : List String) (downscale : Bool)
    (c : CallRecord ClaimOp ClaimStore Unit) : Prop :=
  c.op = .plain (.statement (.getWorker w)) ∧
    codecs = ((c.pre.store.getWorker w).map Worker.supportedCodecs).getD ["hevc"] ∧
    downscale = ((c.pre.store.getWorker w).map Worker.supportsDownscale).getD false

def FollowsRead (t : Nat) (w : Uuid) (codecs : List String) (downscale : Bool)
    (h : List (Entry Nat ClaimOp ClaimStore Unit)) : Prop :=
  Since (fun _ g => g.thread = t ∧ Reads w codecs downscale g.toCallRecord)
    (fun g => g.thread ≠ t) h

def FollowsSelect (t : Nat) (w : Uuid) (codecs : List String) (downscale : Bool)
    (h : List (Entry Nat ClaimOp ClaimStore Unit)) : Prop :=
  Since (fun ws f => f.thread = t ∧ selects f.op = some (codecs, downscale) ∧
    FollowsRead t w codecs downscale ws) (fun g => g.thread ≠ t) h

-- A claim looks for what the worker's row, which its connection has just read, advertises, and
-- takes what it has just found.
def Advertised (t : Nat) (r : Request) (op : ClaimOp) (_ : Unit)
    (x : Traced Nat ClaimOp ClaimStore Unit) : Prop :=
  (∀ codecs downscale, selects op = some (codecs, downscale) → ∃ token w, r = .claim token w ∧
    FollowsRead t w codecs downscale x.2) ∧
  ∀ w, op = .updateLocked w → ∃ codecs downscale, FollowsSelect t w codecs downscale x.2

abbrev claimAudit (mode : Isolation) (t : Nat) (r : Request) :
    Contract ClaimOp (Traced Nat ClaimOp ClaimStore Unit) Unit :=
  (claims mode).audit (fun _ _ _ _ _ => True) Advertised t r

theorem read_stable (t : Nat) : (claims mode).Stable (fun _ _ _ _ _ => True) t
    fun x => FollowsRead t w codecs downscale x.2 where
  call _ _ _ _ _ hne _ hy := Since.append hy hne
  start _ _ _ _ _ hy := hy
  disturb _ _ hy := hy

theorem select_stable (t : Nat) : (claims mode).Stable (fun _ _ _ _ _ => True) t
    fun x => FollowsSelect t w codecs downscale x.2 where
  call _ _ _ _ _ hne _ hy := Since.append hy hne
  start _ _ _ _ _ hy := hy
  disturb _ _ hy := hy

theorem advertised_of_other {op : ClaimOp} {i : Unit} {x : Traced Nat ClaimOp ClaimStore Unit}
    (hselects : selects op = none) (hupdate : ∀ w, op ≠ .updateLocked w) :
    Advertised t r op i x :=
  ⟨fun _ _ h => absurd (hselects.symm.trans h) nofun, fun w h => absurd h (hupdate w)⟩

theorem selects_claim {op : ClaimOp} (h : Performs r op)
    (hselects : selects op = some (codecs, downscale)) : ∃ token w, r = .claim token w := by
  cases op with
  | lockNext => exact h
  | updateLocked => cases hselects
  | plain op =>
    cases op with
    | reportBlock => cases hselects
    | batchBlock => cases hselects
    | statement q =>
      cases q with
      | claimNextJob w' codecs' downscale' =>
        obtain ⟨token, hr⟩ := sends_claimNextJob h
        exact ⟨token, w', hr⟩
      | _ => cases hselects

theorem split_claim_wp {token : WorkerToken} {x : Traced Nat ClaimOp ClaimStore Unit}
    (hx : FollowsRead t w codecs downscale x.2) :
    ((split mode (.statement (.claimNextJob w codecs downscale))).bind fun job =>
        (.ret (.claimed job) : ClaimRoute Response)).wp (claims mode).traced t
      (claimAudit mode t (.claim token w)) (fun _ _ => True) x := by
  have hselect : ∀ op i y, selects op = some (codecs, downscale) →
      (∀ w, op ≠ .updateLocked w) → FollowsRead t w codecs downscale y.2 →
      Advertised t (.claim token w) op i y := by
    intro op i y hop hupdate hy
    refine ⟨fun codecs' downscale' h => ?_, fun w h => absurd h (hupdate w)⟩
    cases hop.symm.trans h
    exact ⟨token, w, rfl, hy⟩
  cases mode with
  | shared =>
    exact System.wp_audit (read_stable t) hx fun i y hy _ => ⟨hselect _ i y rfl nofun hy, trivial⟩
  | isolated =>
    refine System.wp_audit (read_stable t) hx fun i y hy _ => ⟨hselect _ i y rfl nofun hy, ?_⟩
    have hfound : FollowsSelect t w codecs downscale
        ((claims .isolated).traced.next t (.lockNext codecs downscale) i y).2 :=
      Since.here ⟨rfl, rfl, hy⟩
    cases (claims .isolated).handler.answer t (.lockNext codecs downscale) i y.1 with
    | false => trivial
    | true =>
      refine System.wp_audit (select_stable t) hfound fun _ z hz _ => ⟨⟨nofun, ?_⟩, trivial⟩
      intro w' h
      cases h
      exact ⟨codecs, downscale, hz⟩

theorem claimJob_wp {token : WorkerToken} {x : Traced Nat ClaimOp ClaimStore Unit} :
    ((claimJob token w).expand (split mode)).wp (claims mode).traced t
      (claimAudit mode t (.claim token w)) (fun _ _ => True) x := by
  unfold claimJob requireWorkerIdentity
  split
  · trivial
  · refine System.wp_audit (System.Stable.true t) trivial fun i y _ _ =>
      ⟨advertised_of_other rfl nofun, ?_⟩
    cases (claims mode).handler.answer t (.plain (.statement .isQueuePaused)) i y.1 with
    | true => trivial
    | false =>
      refine System.wp_audit (System.Stable.true t) trivial fun i y _ _ =>
        ⟨advertised_of_other rfl nofun, ?_⟩
      exact split_claim_wp (Since.here ⟨rfl, rfl, rfl, rfl⟩)

theorem request_wp (mode : Isolation) (t : Nat) (r : Request)
    (x : Traced Nat ClaimOp ClaimStore Unit) :
    ((claims mode).body t r).wp (claims mode).traced t (claimAudit mode t r)
      (fun _ _ => True) x := by
  by_cases hr : ∃ token w, r = .claim token w
  · obtain ⟨token, w, rfl⟩ := hr
    exact claimJob_wp
  · refine System.wp_audit_of_calls ((r.body_calls mode).expand fun _ => split_calls) ?_
    intro op i y hop _
    refine ⟨fun _ _ hselects => absurd (selects_claim hop hselects) hr, ?_⟩
    rintro w rfl
    obtain ⟨token, rfl⟩ := hop
    exact absurd ⟨token, w, rfl⟩ hr

theorem ClaimRun.advertised {s : ClaimStore} {es : List ClaimCall} {d : ClaimConfig}
    (h : ClaimRun mode s es d) : ∀ xs e ys, es = xs ++ e :: ys →
      (∀ codecs downscale, selects e.op = some (codecs, downscale) →
        ∃ token w, e.request = .claim token w ∧
          Since (fun _ g => g.thread = e.thread ∧ Reads w codecs downscale g.toCallRecord)
            (fun g => g.thread ≠ e.thread) xs) ∧
      ∀ w, e.op = .updateLocked w → ∃ codecs downscale,
        Since (fun ws f => f.thread = e.thread ∧ selects f.op = some (codecs, downscale) ∧
          Since (fun _ g => g.thread = e.thread ∧ Reads w codecs downscale g.toCallRecord)
            (fun g => g.thread ≠ e.thread) ws) (fun g => g.thread ≠ e.thread) xs := by
  intro xs e ys heq
  obtain ⟨hselects, hupdates⟩ :=
    Run.audited h (request_wp mode) (fun _ _ _ _ => trivial) xs e ys heq
  constructor
  · intro codecs downscale hop
    obtain ⟨token, w, hr, hread⟩ := hselects codecs downscale hop
    exact ⟨token, w, hr, hread.of_map⟩
  · intro w hop
    obtain ⟨codecs, downscale, hselect⟩ := hupdates w hop
    refine ⟨codecs, downscale, hselect.of_map.mono ?_ fun _ hg => hg⟩
    exact fun ws f hf => ⟨hf.1, hf.2.1, hf.2.2.of_map⟩

end Advertised

section Claiming

-- The SELECT that found the row looked for what the worker's row, read just before, advertises,
-- and took the oldest that no other claim had locked.
def Found (w : Uuid) (ws : List ClaimCall) (f : ClaimCall) (free : Job) : Prop :=
  ∃ codecs downscale, selects f.op = some (codecs, downscale) ∧
    Oldest f.pre (claimCodecs codecs) downscale free ∧
    Since (fun _ g => g.thread = f.thread ∧ Reads w codecs downscale g.toCallRecord)
      (fun g => g.thread ≠ f.thread) ws

structure Claimed (xs : List ClaimCall) (e : ClaimCall) (w : Uuid) (free j : Job) : Prop where
  request : ∃ token, e.request = .claim token w
  answer : ∃ k now, j = free.claimed w k now
  row : e.pre.store.jobs.get? j.id = some free
  waiting : free.status.isWaiting = true
  unowned : free.workerId = none ∧ free.claimToken = none
  idle : ∀ k, ¬RunsAttempt e.pre.store j.id k
  alone : ∀ l ∈ e.pre.locked, l.job = j.id → l.holder = e.thread
  stored : e.post.store.jobs.get? j.id = some j
  found : Found w xs e free ∨
    Since (fun ws f => f.thread = e.thread ∧ Found w ws f free) (fun g => g.thread ≠ e.thread) xs

structure OwnedSince (s₀ : Store) (es : List ClaimCall) (s : Store) : Prop where
  waiting : ∀ j ∈ s.jobs, j.status.isWaiting = true → j.workerId = none ∧ j.claimToken = none
  active : ∀ j ∈ s.jobs, j.status.isActive = true → ∃ w k,
    j.workerId = some w ∧ j.claimToken = some k ∧
      ((∃ j₀, s₀.jobs.get? j.id = some j₀ ∧ j₀.claimToken = some k) ∧ (∀ e ∈ es, ¬Issues k e) ∨
        IssuedOnce es k j.id)

variable {mode : Isolation} {s : ClaimStore} {es xs ys : List ClaimCall} {d : ClaimConfig}
  {e : ClaimCall}

theorem Sound.ownedSince {s₀ : Store} (hs₀ : Owned s₀) (h : Sound s₀ s es) :
    OwnedSince s₀ es s.store where
  waiting j hj hwaiting := h.owned.unowned j.id j (Table.get?_of_mem hj) hwaiting
  active j hj hactive := by
    have hrow := Table.get?_of_mem hj
    obtain ⟨hworker, htoken⟩ := h.owned.active j.id j hrow hactive
    obtain ⟨w, hw⟩ := Option.ne_none_iff_exists'.mp hworker
    obtain ⟨k, hk⟩ := Option.ne_none_iff_exists'.mp htoken
    refine ⟨w, k, hw, hk, (h.issued j.id j k hrow hk).imp_left fun hold => ⟨hold, ?_⟩⟩
    obtain ⟨j₀, hj₀, hk₀⟩ := hold
    have hdrawn := hs₀.drawnToken j.id j₀ k hj₀ hk₀
    exact fun f hf hissued => Nat.not_lt.mpr (h.drawn f hf k hissued).1 hdrawn

-- The row of a waiting job that a claim turns into its answer.
theorem claimed_of {w k : Uuid} {now : Instant} {free : Job} (howned : Owned e.pre.store)
    (hrequest : ∃ token, e.request = .claim token w)
    (hrow : e.pre.store.jobs.get? free.id = some free) (hwaiting : free.status.isWaiting = true)
    (halone : ∀ l ∈ e.pre.locked, l.job = free.id → l.holder = e.thread)
    (hstored : e.post.store.jobs.get? free.id = some (free.claimed w k now))
    (hfound : Found w xs e free ∨ Since (fun ws f => f.thread = e.thread ∧ Found w ws f free)
      (fun g => g.thread ≠ e.thread) xs) : Claimed xs e w free (free.claimed w k now) where
  request := hrequest
  answer := ⟨k, now, rfl⟩
  row := hrow
  waiting := hwaiting
  unowned := howned.unowned free.id free hrow hwaiting
  idle k' := by
    rintro ⟨j, hj, hactive, -⟩
    cases hrow.symm.trans hj
    have hcases := free.status.waiting_active_terminal
    simp [hwaiting, hactive] at hcases
  alone := halone
  stored := hstored
  found := hfound

theorem claimNextJob_claimed {w : Uuid} {codecs : List String} {downscale : Bool} {j : Job}
    (hop : e.op = .plain (.statement (.claimNextJob w codecs downscale)))
    (howned : Owned e.pre.store) (hready : e.op.ready e.thread e.pre = true)
    (hpost : e.post = (e.op.exec e.thread e.pre).1) (hrequest : ∃ token, e.request = .claim token w)
    (hread : Since (fun _ g => g.thread = e.thread ∧ Reads w codecs downscale g.toCallRecord)
      (fun g => g.thread ≠ e.thread) xs) (hj : answered e = some j) :
    ∃ w free, Claimed xs e w free j := by
  obtain ⟨⟨op, i, pre, post⟩, t, r⟩ := e
  cases hop
  rcases claimNextJob_cases pre.store w codecs downscale with hnone | ⟨next, hnext, hclaim⟩
  · cases (congrArg Prod.snd hnone).symm.trans hj
  · cases (congrArg Prod.snd hclaim).symm.trans hj
    have holdest := claimNextJob_oldest hready hnext hclaim
    have hrow : pre.store.drawUuid.jobs.get? next.id = some next := holdest.row
    refine ⟨w, next, claimed_of howned hrequest hrow holdest.waiting ?_ ?_
      (.inl ⟨codecs, downscale, rfl, holdest, hread⟩)⟩
    · exact fun l hl hjob => absurd hjob (not_isLocked holdest.unlocked l hl)
    · have hstore : post.store = claimRow pre.store.drawUuid next w pre.store.nextUuid pre.store.now :=
        (congrArg ClaimStore.store hpost).trans (congrArg Prod.fst hclaim)
      rw [hstore, get?_claimRow hrow, if_pos rfl]

theorem updateLocked_claimed {s₀ : Store} {w : Uuid} {j : Job} (hop : e.op = .updateLocked w)
    (hsound : Sound s₀ e.pre xs) (hpost : e.post = (e.op.exec e.thread e.pre).1)
    (hrequest : ∃ token, e.request = .claim token w)
    (hselected : ∃ codecs downscale, Since (fun ws f => f.thread = e.thread ∧
      selects f.op = some (codecs, downscale) ∧
      Since (fun _ g => g.thread = e.thread ∧ Reads w codecs downscale g.toCallRecord)
        (fun g => g.thread ≠ e.thread) ws) (fun g => g.thread ≠ e.thread) xs)
    (hj : answered e = some j) : ∃ w free, Claimed xs e w free j := by
  obtain ⟨⟨op, i, pre, post⟩, t, r⟩ := e
  cases hop
  dsimp only at hsound hpost hselected hrequest
  have hj' : (pre.updateLocked t w).2 = some j := hj
  cases hlock : pre.lockOf t with
  | none =>
    rw [ClaimStore.updateLocked, hlock] at hj'
    cases hj'
  | some l =>
    obtain ⟨hl, rfl⟩ := lockOf_some hlock
    obtain ⟨free, hfree, hpicked⟩ := (hsound.locks l hl).row
    have hid : l.job = free.id := (Table.get?_key hfree).symm
    have hclaim := updateLocked_some (w := w) hlock hfree
    rw [hclaim] at hj'
    cases hj'
    rw [hid] at hfree
    obtain ⟨codecs, downscale, hselect⟩ := hselected
    have hboth := hpicked.both hselect (fun _ f hf => not_not.mpr hf.1) fun _ f hf =>
      not_not.mpr hf.1
    obtain ⟨ws, f, vs, -, ⟨⟨-, hpicks⟩, -⟩, -⟩ := id hboth
    refine ⟨w, free, claimed_of hsound.owned hrequest hfree hpicks.waiting ?_ ?_
      (.inr (hboth.mono ?_ fun _ hg => hg))⟩
    · exact fun l' hl' hjob => congrArg RowLock.holder
        (hsound.alone l' hl' l hl (.inl (hjob.trans hid.symm)))
    · have hstore : post.store = claimRow pre.store free w l.token l.takenAt :=
        (congrArg ClaimStore.store hpost).trans (congrArg (fun x => x.1.store) hclaim)
      rw [hstore, get?_claimRow hfree, if_pos rfl]
    · rintro ws f ⟨⟨hthread, codecs', downscale', hop, holdest⟩, -, hop', hread⟩
      cases hop.symm.trans hop'
      exact ⟨hthread, codecs, downscale, hop, holdest, hthread ▸ hread⟩

theorem ClaimRun.claimed (hs : Owned s.store) (hfree : s.locked = []) (h : ClaimRun mode s es d)
    (heq : es = xs ++ e :: ys) {j : Job} (hj : answered e = some j) :
    ∃ w free, Claimed xs e w free j := by
  have he : e ∈ es := by simp [heq]
  have hsound := (sound_run hs hfree h).1 xs e ys heq
  have hready := Run.ready h e he
  have hpost := Run.post_eq h e he
  have hperforms := ClaimRun.performs h e he
  obtain ⟨hselects, hupdates⟩ := ClaimRun.advertised h xs e ys heq
  cases hop : e.op with
  | lockNext => simp [answered, hop] at hj
  | updateLocked w =>
    rw [hop] at hperforms
    exact updateLocked_claimed hop hsound hpost hperforms (hupdates w hop) hj
  | plain op =>
    by_cases hclaim : ∀ w codecs downscale, op ≠ .statement (.claimNextJob w codecs downscale)
    · obtain ⟨⟨op', i, pre, post⟩, t, r⟩ := e
      cases hop
      rw [answered_plain hclaim] at hj
      cases hj
    · push Not at hclaim
      obtain ⟨w, codecs, downscale, rfl⟩ := hclaim
      obtain ⟨token, w', hr, hread⟩ := hselects codecs downscale (by rw [hop]; rfl)
      rw [hop] at hperforms
      obtain ⟨token', hr'⟩ := sends_claimNextJob hperforms
      cases hr.symm.trans hr'
      exact claimNextJob_claimed hop hsound.owned hready hpost ⟨token, hr⟩ hread hj

end Claiming

theorem claims_exclusive {mode : Isolation} {s : ClaimStore} {es : List ClaimCall}
    {d : ClaimConfig} (hs : Owned s.store) (hfree : s.locked = []) (h : ClaimRun mode s es d) :
    OwnedSince s.store es d.state.store ∧
      ∀ xs e ys j, es = xs ++ e :: ys → answered e = some j →
        ∃ w free, Claimed xs e w free j := by
  refine ⟨(sound_run hs hfree h).2.ownedSince hs, ?_⟩
  intro xs e ys j heq hj
  exact ClaimRun.claimed hs hfree h heq hj

section Sample

def sampleJob (id : Uuid) (targetCodec : String) (createdAt : Instant) : Job where
  id := id
  sourcePath := "/media/a.mkv"
  library := "movies"
  sourceCodec := "h264"
  targetCodec := targetCodec
  qualityValue := 21
  createdAt := createdAt

def sampleTokens : List WorkerToken :=
  [{ tokenHash := "a", workerId := some 10 }, { tokenHash := "b", workerId := some 11 }]

-- Two workers that encode to HEVC; the oldest job is one neither can take.
def sampleQueue : Store where
  jobs := ((Table.empty.insert (sampleJob 0 "hevc" 5)).insert (sampleJob 1 "hevc" 3)).insert
    (sampleJob 2 "av1" 1)
  workers := (Table.empty.insert { id := 10, name := "a", host := "a" }).insert
    { id := 11, name := "b", host := "b" }
  tokens := sampleTokens.foldl Table.insert .empty
  nextUuid := 12

theorem sampleQueue_owned : Owned sampleQueue where
  toWellFormed := .of_rows (by decide +kernel)
  active id j hj hactive := by
    have hnone : ∀ j ∈ sampleQueue.jobs.rows, j.status.isActive = false := by decide +kernel
    rw [hnone j (Table.get?_mem hj)] at hactive
    cases hactive

abbrev ClaimMove := Move Nat Request ClaimEvent Unit

def claimCalls (t n : Nat) : List ClaimMove := List.replicate n (.call t ())

def playClaims (mode : Isolation) (s : ClaimStore) (moves : List ClaimMove) :
    Option (List ClaimCall × ClaimConfig) :=
  (Config.initial s : ClaimConfig).playAll (claims mode) moves

theorem playClaims_run {mode : Isolation} {s : ClaimStore} {moves : List ClaimMove}
    {p : List ClaimCall × ClaimConfig} (h : playClaims mode s moves = some p) :
    ClaimRun mode s p.1 p.2 :=
  Run.playAll .refl h

-- The second claim runs between the first one's SELECT and its UPDATE.
def overlapping : List ClaimCall × ClaimConfig :=
  (playClaims .isolated ⟨sampleQueue, []⟩
    (.start 0 (.claim { tokenHash := "a", workerId := some 10 } 10) ::
      .start 1 (.claim { tokenHash := "b", workerId := some 11 } 11) ::
      claimCalls 0 3 ++ claimCalls 1 4 ++ claimCalls 0 1)).get (by decide +kernel)

theorem claims_exclusive_overlapping :
    (OwnedSince sampleQueue overlapping.1 overlapping.2.state.store ∧
      ∀ xs e ys j, overlapping.1 = xs ++ e :: ys → answered e = some j →
        ∃ w free, Claimed xs e w free j) ∧
    (overlapping.1.filterMap answered).map (fun j => (j.id, j.workerId)) =
      [(0, some 11), (1, some 10)] := by
  have hrun : ClaimRun .isolated ⟨sampleQueue, []⟩ overlapping.1 overlapping.2 :=
    playClaims_run (p := overlapping) (Option.some_get _).symm
  exact ⟨claims_exclusive sampleQueue_owned rfl hrun, by decide +kernel⟩

end Sample

end TranscodeForge.Claims
