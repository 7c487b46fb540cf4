import TranscodeForge.Database.Connection
import TranscodeForge.Interaction.History
import TranscodeForge.Scheduler.WellFormed

namespace TranscodeForge.Sqlite

open Interaction Database

variable {σ Q : Type} {Res : Q → Type} {ε V α : Type}

section Blocks

-- What the object handed to a block can be asked.
inductive TxCall (Q : Type) where
  | execute (q : Q)
  | commit

abbrev TxCall.Answer (Res : Q → Type) : TxCall Q → Type
  | .execute q => Except Fault (Res q)
  | .commit => Unit

inductive Raised (ε : Type) where
  | error (e : ε)
  | fault (f : Fault)

abbrev Body (Res : Q → Type) (ε V : Type) : Type :=
  Program (TxCall Q) (TxCall.Answer Res) (Raised ε) V

abbrev Raw (Res : Q → Type) (ε V : Type) : Type :=
  Program (Call Q) (Call.Answer Res) (Raised ε) V

def exited : Except Fault Unit → Raw Res ε V → Raw Res ε V
  | .ok _, p => p
  | .error f, _ => .raise (.fault f)

-- Intermediate commits are deferred; the exit commits, or rolls back when the block raises.
def inBlock (b : Nat) : Body Res ε V → Raw Res ε V
  | .ret v => .call (.commit (some b)) fun r => exited r (.ret v)
  | .raise e => .call (.rollback b) fun r => exited r (.raise e)
  | .call (.execute q) k => .call (.execute (some b) q) fun r => inBlock b (k r)
  | .call .commit k => inBlock b (k ())

def transaction (body : Body Res ε V) : Raw Res ε V := .call .enter fun b => inBlock b body

-- A task: statements and commits of its own, and transaction blocks.
inductive Coroutine (Res : Q → Type) (ε V : Type) where
  | done
  | execute (q : Q) (k : Except Fault (Res q) → Coroutine Res ε V)
  | commit (k : Except Fault Unit → Coroutine Res ε V)
  | transaction (body : Body Res ε V) (k : Except (Raised ε) V → Coroutine Res ε V)

def Coroutine.code : Coroutine Res ε V → Program (Call Q) (Call.Answer Res) Empty Unit
  | .done => .ret ()
  | .execute q k => .call (.execute none q) fun r => (k r).code
  | .commit k => .call (.commit none) fun r => (k r).code
  | .transaction body k => (Sqlite.transaction body).attempt.bind fun r => (k r).code

def tasks (L : Dialect σ Q Res) (ε V : Type) :
    System Nat (Coroutine Res ε V) Empty (Call Q) (Call.Answer Res) (Connection σ Q) Delivery
      Empty Unit where
  handler := connection L
  body _ r := r.code
  start _ _ c := some c
  disturb k _ := k.elim
  kills k _ := k.elim

end Blocks

abbrev Event (Res : Q → Type) (σ ε V : Type) : Type :=
  ThreadCall Nat (Coroutine Res ε V) (Call Q) (Connection σ Q) Delivery

abbrev Past (Q σ : Type) : Type := Entry Nat (Call Q) (Connection σ Q) Delivery

section Effects

def Takes (op : Call Q) (d : Delivery) (op' : Call Q) : Prop := op = op' ∧ d ≠ .failed

variable (L : Dialect σ Q Res)

def Issues (e : Past Q σ) (w : Write Q) : Prop :=
  L.writes w.statement = true ∧ Takes e.op e.input (.execute w.block w.statement) ∧
    w.serial = e.pre.issued ∧ w.thread = e.thread

def Saves (e : Past Q σ) (w : Write Q) : Prop :=
  (∃ b, Takes e.op e.input (.commit b)) ∧ w ∈ e.pre.pending

def Discards (e : Past Q σ) (w : Write Q) : Prop :=
  (∃ b, Takes e.op e.input (.rollback b)) ∧ w ∈ e.pre.pending

-- A block's writes become durable together, at its own exit; a rollback drops no other task's.
structure Atomic (es : List (Event Res σ ε V)) : Prop where
  together : ∀ e ∈ es, ∀ w b, Saves e.entry w → w.block = some b → e.op = .commit (some b) ∧
    ∀ e' ∈ es, ∀ w', Issues L e'.entry w' → w'.block = some b → Saves e.entry w'
  own : ∀ e ∈ es, ∀ w, Discards e.entry w → w.thread = e.thread

def LeavesBlocks (op : Call Q) (d : Delivery) (c : Connection σ Q) : Prop :=
  ∀ b, Takes op d (.commit b) → ∀ w ∈ c.pending, ∀ b', w.block = some b' → b = some b'

def LeavesOthers (t : Nat) (op : Call Q) (d : Delivery) (c : Connection σ Q) : Prop :=
  ∀ b, Takes op d (.rollback b) → ∀ w ∈ c.pending, w.thread = t

-- No commit but a block's own comes while it has writes pending, and no rollback while another
-- task has.
structure Undisturbed (es : List (Event Res σ ε V)) : Prop where
  commits : ∀ e ∈ es, LeavesBlocks e.op e.input e.pre
  rollbacks : ∀ e ∈ es, LeavesOthers e.thread e.op e.input e.pre

end Effects

section Ownership

variable {L : Dialect σ Q Res} {t : Nat} {b : Nat} {x : Traced Nat (Call Q) (Connection σ Q) Delivery}

def Begun (t b : Nat) (h : List (Past Q σ)) : Prop :=
  ∃ f ∈ h, f.thread = t ∧ f.op = .enter ∧ f.pre.blocks = b

theorem Begun.append {h : List (Past Q σ)} {e : Past Q σ} (hb : Begun t b h) : Begun t b (h ++ [e]) := by
  obtain ⟨f, hf, hrest⟩ := hb
  exact ⟨f, List.mem_append_left _ hf, hrest⟩

def Scoped (t : Nat) (op : Call Q) (h : List (Past Q σ)) : Prop :=
  ∀ b, op.block? = some b → Begun t b h

theorem inBlock_calls (b : Nat) (body : Body Res ε V) :
    (inBlock b body).Calls fun op => op.block? = some b := by
  induction body with
  | ret v =>
    refine ⟨rfl, fun r => ?_⟩
    cases r <;> trivial
  | raise e =>
    refine ⟨rfl, fun r => ?_⟩
    cases r <;> trivial
  | call op k ih =>
    cases op with
    | execute q => exact ⟨rfl, fun r => ih r⟩
    | commit => exact ih ()

abbrev scoping (L : Dialect σ Q Res) (ε V : Type) (t : Nat) (r : Coroutine Res ε V) :
    Contract (Call Q) (Traced Nat (Call Q) (Connection σ Q) Delivery) Delivery :=
  (tasks L ε V).audit (fun _ _ _ _ _ => True) (fun t _ op _ x => Scoped t op x.2) t r

theorem begun_stable (t b : Nat) {admits} :
    (tasks L ε V).Stable admits t fun x => Begun t b x.2 where
  call _ _ _ _ _ _ _ hy := hy.append
  start _ _ _ _ _ hy := hy
  disturb k := k.elim

theorem transaction_scoped {r : Coroutine Res ε V} (body : Body Res ε V) :
    (transaction body).wp (tasks L ε V).traced t (scoping L ε V t r) (fun _ _ => True) x := by
  refine System.wp_audit (System.Stable.true t) trivial fun i y _ _ => ⟨nofun, ?_⟩
  have hbegun : Begun t y.1.blocks ((tasks L ε V).traced.next t .enter i y).2 :=
    ⟨_, List.mem_append_right _ (List.mem_singleton_self _), rfl, rfl, rfl⟩
  refine Program.wp_mono (Program.wp_of_calls (P := fun x => Begun t y.1.blocks x.2)
    (inBlock_calls _ body) hbegun (fun _ _ hy hr => (begun_stable t _).keeps hy hr) ?_)
    fun _ _ _ => trivial
  intro op i z hop hz _ _
  refine ⟨fun b hb => ?_, hz.append⟩
  cases hop.symm.trans hb
  exact hz

theorem code_scoped {r : Coroutine Res ε V} (c : Coroutine Res ε V) :
    c.code.wp (tasks L ε V).traced t (scoping L ε V t r) (fun _ _ => True) x := by
  induction c generalizing x with
  | done => trivial
  | execute q k ih =>
    exact System.wp_audit (System.Stable.true t) trivial fun i y _ _ => ⟨nofun, ih _⟩
  | commit k ih =>
    exact System.wp_audit (System.Stable.true t) trivial fun i y _ _ => ⟨nofun, ih _⟩
  | transaction body k ih =>
    refine Program.wp_seq (R := fun _ _ => True) ?_ (fun a y _ => ih a) fun e => e.elim
    rw [Program.wp_attempt]
    exact transaction_scoped body

-- Block numbers are drawn once.
structure Numbered (c : Connection σ Q) (h : List (Past Q σ)) : Prop where
  drawn : ∀ t b, Begun t b h → b < c.blocks
  once : ∀ t t' b, Begun t b h → Begun t' b h → t = t'

theorem begun_cases {h : List (Past Q σ)} {e : Past Q σ} (hb : Begun t b (h ++ [e])) :
    Begun t b h ∨ e.thread = t ∧ e.op = .enter ∧ e.pre.blocks = b := by
  obtain ⟨f, hf, hrest⟩ := hb
  rcases List.mem_append.mp hf with hf | hf
  · exact .inl ⟨f, hf, hrest⟩
  · rw [List.mem_singleton.mp hf] at hrest
    exact .inr hrest

theorem blocks_le (c : Connection σ Q) (t : Nat) (d : Delivery) (op : Call Q) :
    c.blocks ≤ (c.exec L t d op).1.blocks := by
  cases op with
  | enter => exact Nat.le_succ _
  | execute block q =>
    simp only [Connection.exec, Connection.executed]
    split
    · exact Nat.le_refl _
    · split <;> exact Nat.le_refl _
  | commit block =>
    simp only [Connection.exec]
    split <;> exact Nat.le_refl _
  | rollback block =>
    simp only [Connection.exec]
    split <;> exact Nat.le_refl _

theorem Numbered.call {c : Connection σ Q} {h : List (Past Q σ)} (hn : Numbered c h) (t : Nat)
    (d : Delivery) (op : Call Q) :
    Numbered (c.exec L t d op).1 (h ++ [⟨⟨op, d, c, (c.exec L t d op).1⟩, t⟩]) where
  drawn t' b hb := by
    rcases begun_cases hb with hold | ⟨-, rfl, rfl⟩
    · exact Nat.lt_of_lt_of_le (hn.drawn t' b hold) (blocks_le c t d op)
    · exact Nat.lt_succ_self _
  once t₁ t₂ b hb₁ hb₂ := by
    rcases begun_cases hb₁ with hold₁ | ⟨rfl, -, hblocks₁⟩ <;>
      rcases begun_cases hb₂ with hold₂ | ⟨rfl, -, hblocks₂⟩
    · exact hn.once t₁ t₂ b hold₁ hold₂
    · exact absurd (hn.drawn t₁ b hold₁) (hblocks₂ ▸ Nat.lt_irrefl _)
    · exact absurd (hn.drawn t₂ b hold₂) (hblocks₁ ▸ Nat.lt_irrefl _)
    · rfl

end Ownership

section Blocks

variable {L : Dialect σ Q Res} {t b : Nat} {x : Traced Nat (Call Q) (Connection σ Q) Delivery}

-- Every block a call of the past was made in has been begun.
def AllBegun (h : List (Past Q σ)) : Prop :=
  ∀ f ∈ h, ∀ b, f.op.block? = some b → ∃ t, Begun t b h

def Admitted (t : Nat) (_ : Coroutine Res ε V) (op : Call Q) (d : Delivery)
    (x : Traced Nat (Call Q) (Connection σ Q) Delivery) : Prop :=
  LeavesBlocks op d x.1 ∧ LeavesOthers t op d x.1 ∧ Scoped t op x.2 ∧ Numbered x.1 x.2 ∧
    AllBegun x.2

-- At its commit a block still has everything it has issued pending, and after it issues nothing.
def Checked (L : Dialect σ Q Res) (_ : Nat) (_ : Coroutine Res ε V) (op : Call Q) (d : Delivery)
    (x : Traced Nat (Call Q) (Connection σ Q) Delivery) : Prop :=
  ∀ b, (Takes op d (.commit (some b)) →
      ∀ f ∈ x.2, ∀ w, Issues L f w → w.block = some b → w ∈ x.1.pending) ∧
    ∀ q, op = .execute (some b) q → ∀ f ∈ x.2, f.op ≠ .commit (some b)

abbrev auditing (L : Dialect σ Q Res) (ε V : Type) (t : Nat) (r : Coroutine Res ε V) :
    Contract (Call Q) (Traced Nat (Call Q) (Connection σ Q) Delivery) Delivery :=
  (tasks L ε V).audit Admitted (Checked L) t r

structure InProgress (L : Dialect σ Q Res) (t b : Nat)
    (x : Traced Nat (Call Q) (Connection σ Q) Delivery) : Prop where
  begun : Begun t b x.2
  running : ∀ f ∈ x.2, f.op ≠ .commit (some b)
  kept : ∀ f ∈ x.2, ∀ w, Issues L f w → w.block = some b → w ∈ x.1.pending ∧ w.thread = t

theorem mem_executed {c : Connection σ Q} {block : Option Nat} {q : Q} {d : Delivery} {w : Write Q}
    (hw : Issues L ⟨⟨.execute block q, d, c, (c.exec L t d (.execute block q)).1⟩, t⟩ w) :
    w ∈ (c.exec L t d (.execute block q)).1.pending := by
  obtain ⟨hwrites, ⟨hop, hd⟩, hserial, hthread⟩ := hw
  obtain ⟨serial, block', thread, q'⟩ := w
  cases hop
  dsimp only at hserial hthread hwrites hd
  subst hserial hthread
  simp only [Connection.exec, if_neg hd, Connection.executed, if_pos hwrites]
  exact List.mem_append_right _ (List.mem_singleton_self _)

theorem pending_execute {c : Connection σ Q} {block : Option Nat} {q : Q} {d : Delivery}
    {w : Write Q} (hw : w ∈ c.pending) : w ∈ (c.exec L t d (.execute block q)).1.pending := by
  simp only [Connection.exec]
  split
  · exact hw
  · exact c.pending_executed L t block q hw

-- What an admitted call of another task leaves of a block in progress.
theorem InProgress.other {t' : Nat} {op : Call Q} {d : Delivery} {r : Coroutine Res ε V}
    (h : InProgress L t b x) (hne : t' ≠ t) (ha : Admitted t' r op d x) :
    InProgress L t b ((tasks L ε V).traced.next t' op d x) := by
  obtain ⟨hblocks, hothers, hscoped, hnumbered, -⟩ := ha
  have hforeign : op.block? ≠ some b := fun hb =>
    hne (hnumbered.once t' t b (hscoped b hb) h.begun)
  have hissued {w : Write Q} (hw : Issues L ⟨⟨op, d, x.1, (x.1.exec L t' d op).1⟩, t'⟩ w) :
      w.block ≠ some b := by
    obtain ⟨-, ⟨hop, -⟩, -⟩ := hw
    intro hb
    dsimp only at hop
    rw [hop] at hforeign
    exact hforeign hb
  have hkeeps {w : Write Q} (hw : w ∈ x.1.pending) (hb : w.block = some b) (ht : w.thread = t) :
      w ∈ (x.1.exec L t' d op).1.pending := by
    cases op with
    | enter => exact hw
    | execute block q => exact pending_execute hw
    | commit block =>
      simp only [Connection.exec]
      split
      · exact hw
      · next hd => exact absurd (hblocks block ⟨rfl, hd⟩ w hw b hb) hforeign
    | rollback block =>
      simp only [Connection.exec]
      split
      · exact hw
      · next hd => exact absurd ((hothers block ⟨rfl, hd⟩ w hw).symm.trans ht) hne
  refine ⟨h.begun.append, fun f hf => ?_, fun f hf w hw hb => ?_⟩
  · rcases List.mem_append.mp hf with hf | hf
    · exact h.running f hf
    · rw [List.mem_singleton.mp hf]
      intro hop
      dsimp only at hop
      exact hforeign (hop ▸ rfl)
  · rcases List.mem_append.mp hf with hf | hf
    · obtain ⟨hpending, hthread⟩ := h.kept f hf w hw hb
      exact ⟨hkeeps hpending hb hthread, hthread⟩
    · rw [List.mem_singleton.mp hf] at hw
      exact absurd hb (hissued hw)

theorem InProgress.execute {q : Q} {d : Delivery} (h : InProgress L t b x) :
    InProgress L t b ((tasks L ε V).traced.next t (.execute (some b) q) d x) := by
  refine ⟨h.begun.append, fun f hf => ?_, fun f hf w hw hb => ?_⟩
  · rcases List.mem_append.mp hf with hf | hf
    · exact h.running f hf
    · rw [List.mem_singleton.mp hf]
      exact fun hop => by cases hop
  · rcases List.mem_append.mp hf with hf | hf
    · obtain ⟨hpending, hthread⟩ := h.kept f hf w hw hb
      exact ⟨pending_execute hpending, hthread⟩
    · rw [List.mem_singleton.mp hf] at hw
      exact ⟨mem_executed hw, hw.2.2.2⟩

theorem inProgress_stable (t b : Nat) :
    (tasks L ε V).Stable Admitted t (InProgress L t b) where
  call _ _ _ _ _ hne ha hy := hy.other hne ha
  start t' r s' y hs hy := by
    cases hs
    exact hy
  disturb k := k.elim

theorem inBlock_wp {r : Coroutine Res ε V} (body : Body Res ε V) (hx : InProgress L t b x) :
    (inBlock b body).wp (tasks L ε V).traced t (auditing L ε V t r) (fun _ _ => True) x := by
  induction body generalizing x with
  | ret v =>
    refine System.wp_audit (inProgress_stable t b) hx fun i y hy _ => ⟨fun b' => ⟨?_, nofun⟩, ?_⟩
    · rintro ⟨heq, -⟩ f hf w hw hb
      cases heq
      exact (hy.kept f hf w hw hb).1
    · generalize (tasks L ε V).handler.answer t (.commit (some b)) i y.1 = answer
      cases answer <;> trivial
  | raise e =>
    refine System.wp_audit (inProgress_stable t b) hx fun i y _ _ =>
      ⟨fun b' => ⟨fun ⟨heq, _⟩ => (by cases heq), nofun⟩, ?_⟩
    generalize (tasks L ε V).handler.answer t (.rollback b) i y.1 = answer
    cases answer <;> trivial
  | call op k ih =>
    cases op with
    | commit => exact ih () hx
    | execute q =>
      refine System.wp_audit (inProgress_stable t b) hx fun i y hy _ =>
        ⟨fun b' => ⟨fun ⟨heq, _⟩ => (by cases heq), fun q' heq => ?_⟩, ih _ hy.execute⟩
      cases heq
      exact hy.running

theorem transaction_wp {r : Coroutine Res ε V} (body : Body Res ε V) :
    (transaction body).wp (tasks L ε V).traced t (auditing L ε V t r) (fun _ _ => True) x := by
  refine System.wp_audit (System.Stable.true t) trivial fun i y _ ha =>
    ⟨fun b => ⟨fun ⟨heq, _⟩ => (by cases heq), nofun⟩, ?_⟩
  obtain ⟨-, -, -, hnumbered, hall⟩ := ha
  have hnone : ∀ f ∈ y.2, f.op.block? ≠ some y.1.blocks := by
    intro f hf hb
    obtain ⟨t', hbegun⟩ := hall f hf _ hb
    exact Nat.lt_irrefl _ (hnumbered.drawn t' _ hbegun)
  refine inBlock_wp body ⟨⟨_, List.mem_append_right _ (List.mem_singleton_self _), rfl, rfl, rfl⟩,
    fun f hf => ?_, fun f hf w hw hb => ?_⟩
  · rcases List.mem_append.mp hf with hf | hf
    · intro hop
      exact hnone f hf (hop ▸ rfl)
    · rw [List.mem_singleton.mp hf]
      exact fun hop => by cases hop
  · rcases List.mem_append.mp hf with hf | hf
    · obtain ⟨-, ⟨hop, -⟩, -⟩ := hw
      have hother := hnone f hf
      rw [hop] at hother
      exact absurd hb hother
    · rw [List.mem_singleton.mp hf] at hw
      obtain ⟨-, ⟨hop, -⟩, -⟩ := hw
      cases hop

theorem code_wp {r : Coroutine Res ε V} (c : Coroutine Res ε V) :
    c.code.wp (tasks L ε V).traced t (auditing L ε V t r) (fun _ _ => True) x := by
  induction c generalizing x with
  | done => trivial
  | execute q k ih =>
    exact System.wp_audit (System.Stable.true t) trivial fun i y _ _ =>
      ⟨fun b => ⟨fun ⟨heq, _⟩ => (by cases heq), fun q heq => (by cases heq)⟩, ih _⟩
  | commit k ih =>
    exact System.wp_audit (System.Stable.true t) trivial fun i y _ _ =>
      ⟨fun b => ⟨fun ⟨heq, _⟩ => (by cases heq), fun q heq => (by cases heq)⟩, ih _⟩
  | transaction body k ih =>
    refine Program.wp_seq (R := fun _ _ => True) ?_ (fun a y _ => ih a) fun e => e.elim
    rw [Program.wp_attempt]
    exact transaction_wp body

end Blocks

section Runs

variable {L : Dialect σ Q Res} {c : Connection σ Q} {es : List (Event Res σ ε V)}
  {d : Config Nat (Coroutine Res ε V) (Call Q) (Call.Answer Res) (Connection σ Q) Empty Unit}

theorem run_numbered (h : Run (tasks L ε V) (.initial c) es d) :
    ∀ xs e ys, es = xs ++ e :: ys → Numbered e.pre (xs.map ThreadCall.entry) := by
  refine (Run.history_invariant (P := fun c es => Numbered c (es.map ThreadCall.entry))
    (A := fun _ _ => True) h (fun _ _ _ _ => trivial) ⟨?_, ?_⟩ ?_ (fun k => k.elim) ?_).1
  · rintro t b ⟨f, hf, -⟩
    cases hf
  · rintro t t' b ⟨f, hf, -⟩
    cases hf
  · intro t r s s' es hP hs
    cases hs
    exact hP
  · intro e es hpost _ hP
    obtain ⟨⟨op, i, pre, post⟩, t, r⟩ := e
    dsimp only at hpost hP ⊢
    subst hpost
    rw [List.map_append]
    exact hP.call t i op

theorem run_scoped (h : Run (tasks L ε V) (.initial c) es d) :
    ∀ xs e ys, es = xs ++ e :: ys → Scoped e.thread e.op (xs.map ThreadCall.entry) :=
  Run.audited h (fun _ r _ => code_scoped r) fun _ _ _ _ => trivial

theorem run_allBegun (h : Run (tasks L ε V) (.initial c) es d) :
    ∀ xs e ys, es = xs ++ e :: ys → AllBegun (xs.map ThreadCall.entry) := by
  intro xs e ys heq f hf b hb
  obtain ⟨f', hf', rfl⟩ := List.mem_map.mp hf
  obtain ⟨xs', ys', rfl⟩ := List.append_of_mem hf'
  have hbegun := run_scoped h xs' f' (ys' ++ e :: ys) (by simp [heq]) b hb
  obtain ⟨g, hg, hrest⟩ := hbegun
  refine ⟨_, g, ?_, hrest⟩
  rw [List.map_append]
  exact List.mem_append_left _ hg

theorem atomic_of_undisturbed (h : Run (tasks L ε V) (.initial c) es d)
    (hu : Undisturbed es) : Atomic L es := by
  have hchecked : ∀ xs e ys, es = xs ++ e :: ys →
      Checked L e.thread e.request e.op e.input (e.pre, xs.map ThreadCall.entry) :=
    Run.audited h (fun _ r _ => code_wp r) fun xs e ys heq => by
      have hmem : e ∈ es := by simp [heq]
      exact ⟨hu.commits e hmem, hu.rollbacks e hmem, run_scoped h xs e ys heq,
        run_numbered h xs e ys heq, run_allBegun h xs e ys heq⟩
  constructor
  · rintro e he w b ⟨⟨b', hop, hd⟩, hw⟩ hb
    obtain rfl : b' = some b := hu.commits e he b' ⟨hop, hd⟩ w hw b hb
    refine ⟨hop, fun e' he' w' hw' hb' => ⟨⟨some b, hop, hd⟩, ?_⟩⟩
    obtain ⟨xs, ys, rfl⟩ := List.append_of_mem he
    rcases List.mem_append.mp he' with hbefore | hafter
    · exact ((hchecked xs e ys rfl) b).1 ⟨hop, hd⟩ _ (List.mem_map_of_mem hbefore) w' hw' hb'
    · have hissue : e'.op = .execute (some b) w'.statement := hb' ▸ hw'.2.1.1
      rcases List.mem_cons.mp hafter with rfl | hafter
      · exact absurd (hop.symm.trans hissue) nofun
      · obtain ⟨zs, us, rfl⟩ := List.append_of_mem hafter
        have hrunning := ((hchecked (xs ++ e :: zs) e' us (by simp)) b).2 _ hissue e.entry
          (List.mem_map_of_mem (by simp))
        exact absurd hop hrunning
  · rintro e he w ⟨⟨b, hop⟩, hw⟩
    exact hu.rollbacks e he b hop w hw

end Runs

section Sample

open Scheduler

def selects : Statement → Bool
  | .getWorker _ | .getJob _ | .activePaths _ | .selectJobIds _ | .getByIds _ | .selectSwapped _
  | .isExcluded _ | .filterExcluded _ | .lookupByKey _ | .listLibraries | .isQueuePaused
  | .defaultCodec | .targetVmaf | .utcNow => true
  | _ => false

def database : Dialect Store Statement Statement.Answer where
  exec s q := q.exec s
  writes q := !selects q
  reads s q h := by cases q <;> first | rfl | cases h

-- The statements of a failed report's block, each followed by its own deferred commit.
def failedBody (id : Uuid) (owner claimToken : Option Uuid) : Body Statement.Answer HttpError Bool :=
  .call (.execute (.finalizeJob id owner .failed claimToken {})) fun
    | .error f => .raise (.fault f)
    | .ok false => .call .commit fun _ => .ret false
    | .ok true => .call .commit fun _ =>
      .call (.execute (.updateStatusByJob id .needsTranscode none)) fun
        | .error f => .raise (.fault f)
        | .ok _ => .call .commit fun _ => .ret true

abbrev Task := Coroutine Statement.Answer HttpError Bool

def failTask : Task := .transaction (failedBody 0 (some 1) (some 2)) fun _ => .done

def heartbeatTask : Task :=
  .execute (.updateWorkerHeartbeat 1 .busy (some 0)) fun _ => .commit fun _ => .done

abbrev TaskMove := Move Nat Task Empty Delivery

abbrev TaskRun :=
  List (Event Statement.Answer Store HttpError Bool) ×
    Config Nat Task (Call Statement) (Call.Answer Statement.Answer) (Connection Store Statement)
      Empty Unit

def ran (moves : List TaskMove) : Option TaskRun :=
  (Config.initial ⟨sampleRunning, [], 0, 0⟩ : Config Nat Task (Call Statement)
    (Call.Answer Statement.Answer) (Connection Store Statement) Empty Unit).playAll
    (tasks database HttpError Bool) moves

theorem ran_run {moves : List TaskMove} {p : TaskRun} (h : ran moves = some p) :
    Run (tasks database HttpError Bool) (.initial ⟨sampleRunning, [], 0, 0⟩) p.1 p.2 :=
  Run.playAll .refl h

def awaits (t n : Nat) : List TaskMove := List.replicate n (.call t .done)

-- The heartbeat's commit comes between the two writes of the report's block.
def tornApart : TaskRun :=
  (ran (.start 0 failTask :: awaits 0 2 ++ .start 1 heartbeatTask :: awaits 1 2)).get
    (by decide +kernel)

def commitsOutside (e : Event Statement.Answer Store HttpError Bool) : Bool :=
  match e.op with
  | .commit none => e.input = .done
  | _ => false

-- The heartbeat waits until the block is over.
def oneAfterAnother : TaskRun :=
  (ran (.start 0 failTask :: awaits 0 4 ++ .start 1 heartbeatTask :: awaits 1 2)).get
    (by decide +kernel)

def checkUndisturbed (e : Event Statement.Answer Store HttpError Bool) : Bool :=
  match e.op with
  | .commit block => e.pre.pending.all fun w => w.block.all fun b => block == some b
  | .rollback _ => e.pre.pending.all fun w => w.thread == e.thread
  | _ => true

theorem undisturbed_of {es : List (Event Statement.Answer Store HttpError Bool)}
    (h : ∀ e ∈ es, checkUndisturbed e = true) : Undisturbed es := by
  constructor
  · rintro e he b ⟨hop, -⟩ w hw b' hb'
    have hcheck := h e he
    simp only [checkUndisturbed, hop, List.all_eq_true] at hcheck
    have hrow := hcheck w hw
    rw [hb', Option.all_some] at hrow
    exact beq_iff_eq.mp hrow
  · rintro e he b ⟨hop, -⟩ w hw
    have hcheck := h e he
    simp only [checkUndisturbed, hop, List.all_eq_true] at hcheck
    exact beq_iff_eq.mp (hcheck w hw)

end Sample

end TranscodeForge.Sqlite
