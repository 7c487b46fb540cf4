import TranscodeForge.Interaction.Supply
import TranscodeForge.Scheduler.Attempts

namespace TranscodeForge.Scheduler

open Relational Interaction Store

namespace Op

-- The worker row an operation reads or writes, and the id it binds a token to.
def readsWorker : Op → Option Uuid
  | .statement (.getWorker w) => some w
  | _ => none

def writesWorker : Op → Option Worker
  | .statement (.upsertWorker v) => some v
  | _ => none

def linksWorker : Op → Option Uuid
  | .statement (.linkWorker _ w _) => some w
  | _ => none

def draws : (op : Op) → op.Answer → Option Uuid
  | .statement .uuid4, n => some n
  | _, _ => none

end Op

section Uuids

def uuids (mode : Isolation) : Supply (scheduler mode) Uuid where
  draws := Op.draws
  spends := Op.linksWorker
  drawn s n := n < s.nextUuid
  fresh t op i s n hdraws := by
    cases op with
    | statement q =>
      cases q with
      | uuid4 =>
        cases hdraws
        exact ⟨Nat.lt_irrefl _, Nat.lt_succ_self _⟩
      | _ => cases hdraws
    | _ => cases hdraws
  call t op i s n hn :=
    Op.exec_keeps (P := fun s => n < s.nextUuid) op.does_any hn
      fun q s _ hn => Nat.lt_of_lt_of_le hn (q.nextUuid_le s)
  start t r s s' n hs hn := by
    rw [start_state hs]
    exact hn
  disturb k s n hn := hn

theorem uuids_disjoint (mode : Isolation) {t : Nat} {op : Op} {i : Unit} {s : Store} {n : Uuid}
    (hdraws : (uuids mode).draws op ((scheduler mode).handler.answer t op i s) = some n) :
    (uuids mode).spends op ≠ some n := by
  cases op with
  | statement q =>
    cases q with
    | uuid4 => exact fun hspends => by cases hspends
    | _ => cases hdraws
  | _ => cases hdraws

abbrev Frugal {α : Type} (held : List Uuid) (p : Route α) : Prop :=
  p.Frugal Op.draws Op.linksWorker held

-- Of all requests only a registration binds a token.
theorem performs_links {r : Request} {op : Op} (h : r.Performs op)
    (hr : ∀ token body, r ≠ .register token body) : op.linksWorker = none := by
  cases op with
  | statement q =>
    cases q with
    | linkWorker tokenHash w expected =>
      cases r with
      | register token body => exact absurd rfl (hr token body)
      | heartbeat => cases h.2
      | claim => exact h.2.elim
      | checkDerivative => exact h.1.elim
      | _ => exact h.elim
    | _ => rfl
  | _ => rfl

theorem frugal_of_unlinked {α : Type} {held : List Uuid} {p : Route α}
    (hp : p.Calls fun op => op.linksWorker = none) : Frugal held p :=
  (Program.Calls.frugal hp).mono (List.nil_subset _)

theorem frugal_registrationTarget (token : WorkerToken) (body : RegisterRequest) :
    Frugal [] (registrationTarget token body) := by
  refine frugal_of_unlinked ?_
  rw [registrationTarget]
  split
  · trivial
  · refine ⟨rfl, fun row => ?_⟩
    cases row with
    | none => trivial
    | some existing =>
      simp only [Program.ret_bind]
      split
      · trivial
      · refine ⟨rfl, fun now => ?_⟩
        simp only [Program.ret_bind]
        split <;> trivial

theorem frugal_bindWorker (token : WorkerToken) (bound : Option Uuid) :
    Frugal [] (bindWorker token bound) := by
  cases bound with
  | some bound => trivial
  | none =>
    refine ⟨fun n hn => (by cases hn), fun workerId _ => ⟨fun n hn => ?_, fun claimed _ => ?_⟩⟩
    · cases hn
      simp [Op.draws]
    · cases claimed <;> trivial

theorem frugal_register (token : WorkerToken) (body : RegisterRequest) :
    Frugal [] (register token body) := by
  refine (frugal_registrationTarget token body).bind fun bound =>
    (frugal_bindWorker token bound).bind fun workerId => frugal_of_unlinked ?_
  exact ⟨rfl, fun _ => ⟨rfl, fun _ => trivial⟩⟩

theorem frugal_body (mode : Isolation) (r : Request) : Frugal [] (r.body mode) := by
  have hother (hr : ∀ token body, r ≠ .register token body) : Frugal [] (r.body mode) :=
    frugal_of_unlinked ((r.body_calls mode).mono fun _ hop => performs_links hop hr)
  cases r with
  | register token body => exact frugal_register token body
  | _ => exact hother fun _ _ heq => by cases heq

-- The id a token is bound to is new: to the run's start, and to the bindings before.
theorem SchedulerRun.linked_once {mode : Isolation} {s₀ : Store} {es : List SchedulerCall}
    {d : SchedulerConfig} (h : SchedulerRun mode s₀ es d) :
    ∀ xs e ys, es = xs ++ e :: ys → ∀ w, e.op.linksWorker = some w →
      ¬w < s₀.nextUuid ∧ ∀ f ∈ xs, f.op.linksWorker ≠ some w := by
  intro xs e ys heq w hw
  obtain ⟨⟨g, hg, hdraws⟩, hunspent⟩ := Run.spent_once (N := uuids mode) h
    (fun _ r => frugal_body mode r) (fun _ _ _ _ _ => uuids_disjoint mode) xs e ys heq w hw
  exact ⟨Run.drew_new (N := uuids mode) h ⟨g, heq ▸ List.mem_append_left _ hg, hdraws⟩, hunspent⟩

end Uuids

section Audit

abbrev Machine := String × String

def Worker.machine (v : Worker) : Machine := (v.name, v.host)

abbrev RegistrationPast := Traced Nat Op Store Unit

-- A row that lets a registration go on: its own machine's, or one that was not live.
def LetsIn (m : Machine) (now : Instant) (r : Worker) : Prop :=
  r.machine = m ∨ ∃ n, n ≤ now ∧ workerIsLive n r = false

-- The thread has read the row, and has neither read nor written one since.
def Read (t : Nat) (w : Uuid) (P : Worker → Prop) (x : RegistrationPast) : Prop :=
  Own t (fun _ f => f.op.readsWorker = some w ∧ ∃ r, f.pre.workers.get? w = some r ∧ P r)
    (fun op => op.readsWorker = none ∧ op.writesWorker = none) x.2

-- The thread has bound its token to the id, and has neither bound one nor written a row since.
def Bound (t : Nat) (w : Uuid) (x : RegistrationPast) : Prop :=
  Own t (fun _ f => f.op.linksWorker = some w)
    (fun op => op.linksWorker = none ∧ op.writesWorker = none) x.2

def Registers (t : Nat) (r : Request) (op : Op) (_ : Unit) (x : RegistrationPast) : Prop :=
  ∀ token body, r = .register token body →
    ∀ v, op.writesWorker = some v → Read t v.id (LetsIn v.machine x.1.now) x ∨ Bound t v.id x

abbrev registering (mode : Isolation) (t : Nat) (r : Request) :
    Contract Op RegistrationPast Unit :=
  (scheduler mode).audit (fun _ _ _ _ _ => True) Registers t r

variable {mode : Isolation} {t : Nat} {r : Request} {x : RegistrationPast}
variable {token : WorkerToken} {body : RegisterRequest}

theorem registers_of {op : Op} {i : Unit} (hwrites : op.writesWorker = none) :
    Registers t r op i x := by
  intro token body _ v hv
  rw [hwrites] at hv
  cases hv

theorem LetsIn.mono {m : Machine} {now now' : Instant} {v : Worker} (h : LetsIn m now v)
    (hle : now ≤ now') : LetsIn m now' v :=
  h.imp_right fun ⟨n, hn, hlive⟩ => ⟨n, Nat.le_trans hn hle, hlive⟩

-- Time only passes.
theorem letsIn_stable {w : Uuid} {m : Machine} :
    (scheduler mode).Stable (fun _ _ _ _ _ => True) t fun x => Read t w (LetsIn m x.1.now) x where
  call t' r' op i y hne _ hy := by
    have hnow : ((scheduler mode).traced.next t' op i y).1.now = y.1.now := op.now_eq y.1
    rw [hnow]
    exact Own.other hy hne
  start t' r' s' y hs hy := by
    rw [start_state hs]
    exact hy
  disturb k y hy := by
    refine Own.mono hy (fun xs f ⟨hread, v, hrow, hlets⟩ => ?_) fun _ hop => hop
    exact ⟨hread, v, hrow, hlets.mono (Nat.le_add_right _ _)⟩

theorem registrationTarget_wp :
    (registrationTarget token body).wp (scheduler mode).traced t (registering mode t r)
      (fun o y => ∀ w, o = .ok (some w) → Read t w (LetsIn (body.name, body.host) y.1.now) y) x := by
  rw [registrationTarget]
  split
  · exact fun w heq => by cases heq
  · next bound hbound =>
    refine System.wp_audit (System.Stable.true t) trivial fun i y _ _ => ⟨registers_of rfl, ?_⟩
    generalize hrow : (scheduler mode).handler.answer t _ i y.1 = row
    cases row with
    | none => exact fun w heq => by cases heq
    | some existing =>
      have hread (P : Worker → Prop) (hP : P existing) : Read t bound P
          ((scheduler mode).traced.next t (.statement (.getWorker bound)) i y) :=
        Own.here ⟨rfl, existing, hrow, hP⟩
      simp only [Program.ret_bind]
      split
      · next hsame =>
        intro w heq
        cases heq
        exact hread _ (.inl (Prod.ext hsame.1 hsame.2))
      · refine System.wp_audit System.own_stable (hread (· = existing) rfl) fun i z hz _ =>
          ⟨registers_of rfl, ?_⟩
        simp only [Program.ret_bind]
        split
        · exact fun w heq => by cases heq
        · next hlive =>
          intro w heq
          cases heq
          have hdead : workerIsLive z.1.now existing = false := Bool.eq_false_iff.mpr hlive
          refine Own.mono (Own.next hz ⟨rfl, rfl⟩) (fun xs f ⟨hf, v, hv, heq⟩ => ?_) fun _ hop => hop
          exact ⟨hf, v, hv, .inr ⟨z.1.now, Nat.le_refl _, heq ▸ hdead⟩⟩

theorem bindWorker_wp {bound : Option Uuid} {m : Machine}
    (hbound : ∀ w, bound = some w → Read t w (LetsIn m x.1.now) x) :
    (bindWorker token bound).wp (scheduler mode).traced t (registering mode t r)
      (fun o y => ∀ w, o = .ok w → Read t w (LetsIn m y.1.now) y ∨ Bound t w y) x := by
  cases bound with
  | some bound =>
    intro w heq
    cases heq
    exact .inl (hbound bound rfl)
  | none =>
    refine System.wp_audit (System.Stable.true t) trivial fun i y _ _ => ⟨registers_of rfl, ?_⟩
    refine System.wp_audit (System.Stable.true t) trivial fun i z _ _ => ⟨registers_of rfl, ?_⟩
    generalize (scheduler mode).handler.answer t _ i z.1 = claimed
    cases claimed with
    | false => exact fun w heq => by cases heq
    | true =>
      intro w heq
      cases heq
      exact .inr (Own.here rfl)

theorem register_wp :
    (register token body).wp (scheduler mode).traced t
      (registering mode t (.register token body)) (fun _ _ => True) x := by
  refine Program.wp_seq registrationTarget_wp (fun bound y hy => ?_) fun _ _ _ => trivial
  refine Program.wp_seq (bindWorker_wp fun w hw => hy w (congrArg _ hw)) (fun w z hz => ?_)
    fun _ _ _ => trivial
  have hstable : (scheduler mode).Stable (fun _ _ _ _ _ => True) t fun x =>
      Read t w (LetsIn (body.name, body.host) x.1.now) x ∨ Bound t w x :=
    { call := fun t' r' op i y hne ha hy => hy.imp
        (fun h => letsIn_stable.call t' r' op i y hne ha h) fun h => Own.other h hne
      start := fun t' r' s' y hs hy => hy.imp_left fun h => letsIn_stable.start t' r' s' y hs h
      disturb := fun k y hy => hy.imp_left fun h => letsIn_stable.disturb k y h }
  refine System.wp_audit hstable (hz w rfl) fun i u hu _ => ⟨?_, ?_⟩
  · rintro token' body' heq v hv
    cases heq
    cases hv
    exact hu
  · exact System.wp_audit (System.Stable.true t) trivial fun i v _ _ => ⟨registers_of rfl, trivial⟩

theorem registers_body (r : Request) :
    (r.body mode).wp (scheduler mode).traced t (registering mode t r) (fun _ _ => True) x := by
  cases r with
  | register token body => exact register_wp
  | _ =>
    refine System.wp_audit_of_calls (A := fun _ => True) ?_ fun op i y _ _ token body heq => ?_
    · exact (Request.body_calls mode _).mono fun _ _ => trivial
    · cases heq

end Audit

section Rows

variable {w : Uuid} {m : Machine} {r : Request} {op : Op} {s : Store}

def Writes (w : Uuid) (m : Machine) (op : Op) : Prop :=
  ∃ v, op.writesWorker = some v ∧ v.id = w ∧ v.machine = m

-- Of all requests only a registration writes a whole row.
theorem Writes.registers (h : Writes w m op) (hop : r.Performs op) :
    ∃ token body, r = .register token body := by
  obtain ⟨v, hv, -⟩ := h
  cases op with
  | statement q =>
    cases q with
    | upsertWorker v =>
      cases r with
      | register token body => exact ⟨token, body, rfl⟩
      | heartbeat => cases hop.2
      | claim => exact hop.2.elim
      | checkDerivative => exact hop.1.elim
      | _ => exact hop.elim
    | _ => cases hv
  | _ => cases hv

theorem Statement.absent_next {q : Statement} (hnone : s.workers.get? w = none)
    (hq : ∀ m, ¬Writes w m (.statement q)) : (q.next s).workers.get? w = none := by
  have hupdate {p : Worker → Bool} {set : Worker → Worker} {hset : ∀ v, (set v).id = v.id} :
      (s.updateWorkers p set hset).workers.get? w = none := by
    change (s.workers.update p set hset).get? w = none
    rw [Table.get?_update, hnone, Option.map_none]
  cases hwrites : q.writesWorkers with
  | false => rw [Statement.workers_eq hwrites, hnone]
  | true =>
    cases q with
    | upsertWorker v =>
      have hlook : (s.upsertWorker v).workers.get? w = _ := Table.get?_upsert ..
      have hid : v.id ≠ w := fun hid => hq v.machine ⟨v, rfl, hid, rfl⟩
      exact hlook.trans ((if_neg hid).trans hnone)
    | updateWorkerHeartbeat => exact hupdate
    | cleanupStaleWorkers => exact hupdate
    | _ => cases hwrites

-- A row comes from a registration.
theorem Op.absent_exec (hnone : s.workers.get? w = none) (hop : r.Performs op)
    (hwrites : ∀ m, ¬Writes w m op) : (op.exec s).1.workers.get? w = none := by
  have hblock (hne : ∀ q, op ≠ .statement q) : (op.exec s).1.workers.get? w = none :=
    Op.exec_keeps (P := fun s => s.workers.get? w = none) (Attempts.block_workers hop hne) hnone
      fun q s hq hs => by rw [Statement.workers_eq hq, hs]
  cases op with
  | statement q => exact Statement.absent_next hnone hwrites
  | reportBlock p => exact hblock fun q h => by cases h
  | batchBlock p => exact hblock fun q h => by cases h

end Rows

section Runs

variable {mode : Isolation} {s₀ : Store} {es xs ys : List SchedulerCall} {d : SchedulerConfig}
variable {e : SchedulerCall} {w : Uuid} {m : Machine}

theorem run_absent (h : SchedulerRun mode s₀ es d) (hnone : s₀.workers.get? w = none) :
    ∀ xs e ys, es = xs ++ e :: ys → (∀ g ∈ xs, ∀ m, ¬Writes w m g.op) →
      e.pre.workers.get? w = none := by
  refine (Run.history_invariant
    (P := fun s h => (∀ g ∈ h, ∀ m, ¬Writes w m g.op) → s.workers.get? w = none)
    (A := fun _ e => e.request.Performs e.op) h ?_ (fun _ => hnone) ?_ ?_ ?_).1
  · rintro xs e ys rfl
    exact h.performs e (by simp)
  · intro t r s s' es hs hstart
    rw [start_state hstart]
    exact hs
  · exact fun k s es hs => hs
  · intro e es hpost hop hs hfree
    rw [hpost]
    exact Op.absent_exec (hs fun g hg => hfree g (List.mem_append_left _ hg)) hop
      (hfree e (by simp))

-- A row that no call has changed since a call is the row which that call saw.
theorem run_unchanged (h : SchedulerRun mode s₀ es d) :
    ∀ xs e ys, es = xs ++ e :: ys → ∀ us f vs, xs = us ++ f :: vs →
      (∀ g ∈ f :: vs, g.post.workers.get? w = g.pre.workers.get? w) →
      e.pre.workers.get? w = f.pre.workers.get? w := by
  refine (Run.history_invariant
    (P := fun s h => ∀ us f vs, h = us ++ f :: vs →
      (∀ g ∈ f :: vs, g.post.workers.get? w = g.pre.workers.get? w) →
      s.workers.get? w = f.pre.workers.get? w)
    (A := fun _ _ => True) h (fun _ _ _ _ => trivial) ?_ ?_ ?_ ?_).1
  · intro us f vs heq
    cases us <;> cases heq
  · intro t r s s' es hs hstart
    rw [start_state hstart]
    exact hs
  · exact fun k s es hs => hs
  · intro e es _ _ hs us f vs heq hquiet
    rcases eq_append_singleton_cases heq with ⟨rfl, rfl, rfl⟩ | ⟨zs, rfl, rfl⟩
    · exact hquiet e (by simp)
    · rw [hquiet e (by simp)]
      refine hs us f zs rfl fun g hg => hquiet g ?_
      rcases List.mem_cons.mp hg with rfl | hg
      · exact List.mem_cons_self
      · exact List.mem_cons_of_mem _ (List.mem_append_left _ hg)

def ReadBefore (w : Uuid) (m : Machine) (xs : List SchedulerCall) (e : SchedulerCall) : Prop :=
  Since (fun _ f => f.thread = e.thread ∧ f.op.readsWorker = some w ∧
      ∃ r, f.pre.workers.get? w = some r ∧ LetsIn m e.pre.now r)
    (fun g => g.thread = e.thread → g.op.readsWorker = none ∧ g.op.writesWorker = none) xs

def BoundBefore (w : Uuid) (xs : List SchedulerCall) (e : SchedulerCall) : Prop :=
  Since (fun _ f => f.thread = e.thread ∧ f.op.linksWorker = some w)
    (fun g => g.thread = e.thread → g.op.linksWorker = none ∧ g.op.writesWorker = none) xs

theorem run_registers (h : SchedulerRun mode s₀ es d) (heq : es = xs ++ e :: ys)
    (hwrites : Writes w m e.op) : ReadBefore w m xs e ∨ BoundBefore w xs e := by
  have hchecked := Run.audited h (fun _ r _ => registers_body r) (fun _ _ _ _ => trivial) xs e ys heq
  obtain ⟨token, body, hrequest⟩ := hwrites.registers (h.performs e (by simp [heq]))
  obtain ⟨v, hv, rfl, rfl⟩ := hwrites
  exact (hchecked token body hrequest v hv).imp Since.of_map Since.of_map

-- The ids of the worker rows are not drawn again.
def Opening (s₀ : Store) : Prop := ∀ w r, s₀.workers.get? w = some r → w < s₀.nextUuid

-- The registration that binds its token to a new id is the first to write its row.
theorem bound_first (h : SchedulerRun mode s₀ es d) (hopen : Opening s₀)
    (heq : es = xs ++ e :: ys) (hbound : BoundBefore w xs e) : e.pre.workers.get? w = none := by
  obtain ⟨as, l, bs, hlinks, ⟨hthread, hlink⟩, hquiet⟩ := hbound
  have hnew := h.linked_once as l (bs ++ e :: ys) (by simp [heq, hlinks]) w hlink
  have habsent : s₀.workers.get? w = none := by
    cases hrow : s₀.workers.get? w with
    | none => rfl
    | some r => exact absurd (hopen w r hrow) hnew.1
  refine run_absent h habsent xs e ys heq fun g hg m hwrites => ?_
  obtain ⟨us, g, vs, hxs, ⟨m, hwrites⟩, hfirst⟩ :=
    exists_first (P := fun g => ∃ m, Writes w m g.op) ⟨g, hg, m, hwrites⟩
  rcases run_registers h (show es = us ++ g :: (vs ++ e :: ys) by simp [heq, hxs]) hwrites with
    ⟨cs, f, ds, rfl, ⟨-, -, r, hrow, -⟩, -⟩ | ⟨cs, l', ds, rfl, ⟨hthread', hlink'⟩, -⟩
  · have hnone := run_absent h habsent cs f (ds ++ g :: (vs ++ e :: ys)) (by simp [heq, hxs])
      fun f' hf' m' hwrites' => hfirst f' (by simp [hf']) ⟨m', hwrites'⟩
    rw [hnone] at hrow
    cases hrow
  · have honce : Once (fun e : SchedulerCall => e.op.linksWorker = some w) es := by
      intro xs e ys e' zs heq hlink hlink'
      exact (h.linked_once (xs ++ e :: ys) e' zs heq w hlink').2 e (by simp) hlink
    have hlast : es = as ++ l :: (bs ++ e :: ys) := by simp [heq, hlinks]
    have hearlier : es = cs ++ l' :: (ds ++ g :: (vs ++ e :: ys)) := by simp [heq, hxs]
    obtain ⟨rfl, rfl, -⟩ := honce.same hlast hearlier hlink hlink'
    obtain rfl : bs = ds ++ g :: vs := by simpa [hxs] using hlinks.symm
    obtain ⟨v, hv, -⟩ := hwrites
    have hnone := (hquiet g (by simp) (hthread'.symm.trans hthread)).2
    rw [hv] at hnone
    cases hnone

-- No other request's call changes the row between the registration's read of it and its write.
def Unraced (w : Uuid) (xs : List SchedulerCall) (e : SchedulerCall) : Prop :=
  ∀ us f vs, xs = us ++ f :: vs → f.thread = e.thread → f.op.readsWorker = some w →
    (∀ g ∈ vs, g.thread = e.thread → g.op.readsWorker = none) →
    ∀ g ∈ vs, g.post.workers.get? w = g.pre.workers.get? w

theorem not_live_later {now now' : Instant} {r : Worker} (h : workerIsLive now r = false)
    (hle : now ≤ now') : workerIsLive now' r = false := by
  rw [workerIsLive, Bool.and_eq_false_iff] at h ⊢
  refine h.imp_right fun hbeat => ?_
  cases hlast : r.lastHeartbeat with
  | none => rfl
  | some t =>
    rw [hlast, Option.any_some, decide_eq_false_iff_not, Nat.not_lt] at hbeat
    rw [Option.any_some, decide_eq_false_iff_not, Nat.not_lt]
    exact Nat.le_trans hbeat hle

theorem read_unchanged (h : SchedulerRun mode s₀ es d) {f : SchedulerCall} (hf : f ∈ es)
    (hreads : f.op.readsWorker = some w) : f.post = f.pre := by
  rw [h.post f hf]
  cases hop : f.op with
  | statement q =>
    rw [hop] at hreads
    cases q with
    | getWorker => rfl
    | _ => cases hreads
  | _ =>
    rw [hop] at hreads
    cases hreads

theorem Unraced.of_unchanged (h : ∀ g ∈ xs, g.post.workers.get? w = g.pre.workers.get? w) :
    Unraced w xs e := by
  rintro us f vs rfl - - - g hg
  exact h g (by simp [hg])

end Runs

section Sample

-- Another machine takes the row over once its worker has been silent for a hundred seconds.
def takeover : Played :=
  (play .isolated sampleRunning
    (.disturb (seconds 100) :: .start 0 (.register sampleToken ⟨"worker", "other", [], false, false⟩) ::
      .start 1 (.retry 0) :: calls 0 1 ++ calls 1 1 ++ calls 0 2)).get (by decide +kernel)

def takeoverWrite : SchedulerCall := takeover.1[3]?.get (by decide +kernel)

end Sample

end TranscodeForge.Scheduler
