import TranscodeForge.OAuth.Statements

namespace TranscodeForge.OAuth

open Relational

namespace Statement

-- The transaction a statement decides, and the nonce the decision carries.
def decision : Statement → Option (Uuid × Digest)
  | approveTransaction id nonceHash _ | denyTransaction id nonceHash _ => some (id, nonceHash)
  | _ => none

-- A decision whose row count is not zero.
def accepted (s : Store) : Statement → Bool
  | approveTransaction id nonceHash now => (s.approveTransaction id nonceHash now).2
  | denyTransaction id nonceHash now => (s.denyTransaction id nonceHash now).2
  | _ => false

-- The condition under which a statement of the consent page changes a row.
def consents (r : Transaction) : Statement → Bool
  | armConsent id _ => r.id == id && r.undecided
  | approveTransaction id nonceHash _ | denyTransaction id nonceHash _ =>
    Store.openWith id nonceHash r
  | _ => false

end Statement

-- What a statement can do to the row of one transaction.
inductive RowStep (q : Statement) (id : Uuid) : Option Transaction → Option Transaction → Prop
  | kept {x : Option Transaction} (hidle : ∀ r, x = some r → q.consents r = false) :
      RowStep q id x x
  | created {r : Transaction} (hq : q = .insertTransaction r) (hid : r.id = id) :
      RowStep q id none (some r.fresh)
  | armed {r : Transaction} {nonceHash : Digest} (hq : q = .armConsent id nonceHash)
      (hopen : r.undecided = true) : RowStep q id (some r) (some (r.armed nonceHash))
  | approved {r : Transaction} {nonceHash : Digest} {now : Time}
      (hq : q = .approveTransaction id nonceHash now)
      (hopen : Store.openWith id nonceHash r = true) :
      RowStep q id (some r) (some (r.approved now))
  | denied {r : Transaction} {nonceHash : Digest} {now : Time}
      (hq : q = .denyTransaction id nonceHash now)
      (hopen : Store.openWith id nonceHash r = true) :
      RowStep q id (some r) (some (r.denied now))
  | coded {r : Transaction} {grantId : Uuid} {codeHash : Digest} {expiresAt : Time}
      (hq : q = .recordCode id grantId codeHash expiresAt) :
      RowStep q id (some r) (some (r.coded grantId codeHash expiresAt))
  | spent {r : Transaction} {codeHash : Digest} {now : Time} {marker : Secret}
      (hq : q = .consume (.code codeHash) now marker) (hcode : r.codeHash = some codeHash)
      (hnull : r.consumedAt = none) : RowStep q id (some r) (some (r.consumed now marker))
  | purged {r : Transaction} {now : Time} (hq : q = .purgeExpiredTransactions now)
      (hexpired : r.expiresAt < now) : RowStep q id (some r) none

namespace Store

variable {s : Store} {id : Uuid}

theorem openWith_iff {nonceHash : Digest} {r : Transaction} :
    openWith id nonceHash r = true ↔
      r.id = id ∧ r.nonceHash = some nonceHash ∧ r.undecided = true := by
  simp only [openWith, Bool.and_eq_true, beq_iff_eq, and_assoc]

theorem getTransaction_id {r : Transaction} (h : s.getTransaction id = some r) : r.id = id :=
  Table.get?_key h

theorem getTransaction_update {p : Transaction → Bool} {f : Transaction → Transaction}
    (hset : ∀ r, (f r).id = r.id) (hcode : ∀ r, (f r).codeHash = r.codeHash) :
    (s.updateTransactions p f hset hcode).getTransaction id =
      (s.getTransaction id).map fun r => if p r then f r else r :=
  Table.get?_update s.transactions p f hset id

theorem rowCount_openWith {nonceHash : Digest} :
    (s.transactions.rowCount (openWith id nonceHash) != 0) = true ↔
      ∃ r, s.getTransaction id = some r ∧ openWith id nonceHash r = true := by
  rw [bne_iff_ne, ne_eq, Table.rowCount_eq_zero]
  constructor
  · intro hsome
    push Not at hsome
    obtain ⟨r, hr, hopen⟩ := hsome
    have hopen : openWith id nonceHash r = true := by simpa using hopen
    exact ⟨r, Table.get?_eq_some.mpr ⟨hr, (openWith_iff.mp hopen).1⟩, hopen⟩
  · rintro ⟨r, hrow, hopen⟩ hnone
    rw [hnone r (Table.get?_mem hrow)] at hopen
    cases hopen

end Store

namespace RowStep

variable {s : Store} {id : Uuid} {q : Statement}

-- An UPDATE of the transactions, by its condition on the row.
theorem of_update {p : Transaction → Bool} {f : Transaction → Transaction}
    (hset : ∀ r, (f r).id = r.id) (hcode : ∀ r, (f r).codeHash = r.codeHash)
    (hidle : ∀ r, r.id = id → p r = false → q.consents r = false)
    (hstep : ∀ r, r.id = id → p r = true → RowStep q id (some r) (some (f r))) :
    RowStep q id (s.getTransaction id) ((s.updateTransactions p f hset hcode).getTransaction id) := by
  rw [Store.getTransaction_update]
  cases hrow : s.getTransaction id with
  | none => exact .kept nofun
  | some r =>
    have hid := Store.getTransaction_id hrow
    rw [Option.map_some]
    cases hp : p r with
    | true => exact hstep r hid hp
    | false =>
      refine .kept fun r' heq => ?_
      cases heq
      exact hidle r hid hp

theorem insertTransaction (r : Transaction) :
    RowStep (.insertTransaction r) id (s.getTransaction id)
      ((s.insertTransaction r).1.getTransaction id) := by
  rw [Store.insertTransaction]
  split
  · next h =>
    have hfree : s.transactions.get? r.fresh.id = none := h.2
    have hlook := Table.get?_insert_of_free hfree id
    change RowStep _ _ _ ((s.transactions.insert r.fresh).get? id)
    rw [hlook]
    split
    · next hid =>
      subst hid
      rw [Store.getTransaction, hfree]
      exact .created rfl rfl
    · exact .kept fun _ _ => rfl
  · exact .kept fun _ _ => rfl

theorem recordCode {grantId : Uuid} {codeHash : Digest} {expiresAt : Time} (id' : Uuid) :
    RowStep (.recordCode id' grantId codeHash expiresAt) id (s.getTransaction id)
      ((s.recordCode id' grantId codeHash expiresAt).1.getTransaction id) := by
  rw [Store.recordCode]
  split
  · have hlook := Table.get?_update s.transactions (fun r => r.id == id')
      (fun r => r.coded grantId codeHash expiresAt) (fun _ => rfl) id
    change RowStep _ _ _ ((s.transactions.update (fun r => r.id == id')
      (fun r => r.coded grantId codeHash expiresAt) fun _ => rfl).get? id)
    rw [hlook, Store.getTransaction]
    cases hrow : s.transactions.get? id with
    | none => exact .kept fun _ hnone => by cases hnone
    | some r =>
      rw [Option.map_some]
      split
      · next hid =>
        obtain rfl : id = id' := (Table.get?_key hrow).symm.trans (beq_iff_eq.mp hid)
        exact .coded rfl
      · exact .kept fun _ _ => rfl
  · exact .kept fun _ _ => rfl

theorem purgeExpiredTransactions (now : Time) :
    RowStep (.purgeExpiredTransactions now) id (s.getTransaction id)
      ((s.purgeExpiredTransactions now).1.getTransaction id) := by
  have hlook := Table.get?_delete s.transactions (fun r => r.expiresAt < now) id
  change RowStep _ _ _ ((s.transactions.delete _).get? id)
  rw [hlook, Store.getTransaction]
  cases hrow : s.transactions.get? id with
  | none => exact .kept nofun
  | some r =>
    by_cases hexpired : r.expiresAt < now
    · simp only [Option.filter, hexpired, decide_true, Bool.not_true, Bool.false_eq_true, if_false]
      exact .purged rfl hexpired
    · simp only [Option.filter, hexpired, decide_false, Bool.not_false, if_true]
      exact .kept fun _ _ => rfl

end RowStep

theorem row_next (q : Statement) (s : Store) (id : Uuid) :
    RowStep q id (s.getTransaction id) ((q.next s).getTransaction id) := by
  cases q with
  | insertTransaction r => exact .insertTransaction r
  | armConsent id' nonceHash =>
    refine .of_update (f := fun r => r.armed nonceHash) (fun _ => rfl) (fun _ => rfl)
      (fun r _ hp => hp) fun r hid hp => ?_
    rw [Bool.and_eq_true, beq_iff_eq] at hp
    obtain ⟨rfl, hopen⟩ := hp
    subst hid
    exact .armed rfl hopen
  | approveTransaction id' nonceHash now =>
    refine .of_update (f := fun r => r.approved now) (fun _ => rfl) (fun _ => rfl)
      (fun r _ hp => hp) fun r hid hp => ?_
    obtain rfl : id = id' := hid.symm.trans (Store.openWith_iff.mp hp).1
    exact .approved rfl hp
  | denyTransaction id' nonceHash now =>
    refine .of_update (f := fun r => r.denied now) (fun _ => rfl) (fun _ => rfl)
      (fun r _ hp => hp) fun r hid hp => ?_
    obtain rfl : id = id' := hid.symm.trans (Store.openWith_iff.mp hp).1
    exact .denied rfl hp
  | recordCode id' grantId codeHash expiresAt => exact .recordCode id'
  | consume c now marker =>
    cases c with
    | code codeHash =>
      refine .of_update (f := fun r => r.consumed now marker) (fun _ => rfl) (fun _ => rfl)
        (fun r _ _ => rfl) fun r _ hp => ?_
      rw [Bool.and_eq_true, beq_iff_eq, Option.isNone_iff_eq_none] at hp
      exact .spent rfl hp.1 hp.2
    | refresh tokenHash => exact .kept fun _ _ => rfl
  | purgeExpiredTransactions now => exact .purgeExpiredTransactions now
  | insertGrant g =>
    change RowStep _ _ _ ((s.insertGrant g).1.getTransaction id)
    rw [Store.insertGrant]
    split <;> exact .kept fun _ _ => rfl
  | insertToken r =>
    change RowStep _ _ _ ((s.insertToken r).1.getTransaction id)
    rw [Store.insertToken]
    split <;> exact .kept fun _ _ => rfl
  | _ => exact .kept fun _ _ => rfl

theorem accepted_iff {q : Statement} {s : Store} {id : Uuid} {nonceHash : Digest}
    (hq : q.decision = some (id, nonceHash)) :
    q.accepted s = true ↔
      ∃ r, s.getTransaction id = some r ∧ Store.openWith id nonceHash r = true := by
  cases q with
  | approveTransaction id' nonceHash' now =>
    cases hq
    exact Store.rowCount_openWith
  | denyTransaction id' nonceHash' now =>
    cases hq
    exact Store.rowCount_openWith
  | _ => cases hq

end TranscodeForge.OAuth
