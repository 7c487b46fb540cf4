import TranscodeForge.OAuth.Fresh

namespace TranscodeForge.OAuth

open Relational

def Credential.secret : Credential → Secret
  | .code codeHash => codeHash.secret
  | .refresh tokenHash => tokenHash.secret

-- A code is lost with its row, or when its row is given another.
def Statement.removes : Credential → Statement → Bool
  | .code _, .purgeExpiredTransactions _ | .code _, .recordCode _ _ _ _ => true
  | _, _ => false

-- What a statement can do to a credential's row.
inductive SpendingStep (q : Statement) (c : Credential) :
    Option (Option Time × Option Secret) → Option (Option Time × Option Secret) → Prop
  | kept {x : Option (Option Time × Option Secret)} : SpendingStep q c x x
  | spent {now : Time} {marker : Secret} {x : Option Secret} (hq : q = .consume c now marker) :
      SpendingStep q c (some (none, x)) (some (some now, some marker))
  | denied {id : Uuid} {nonceHash : Digest} {now : Time} {x : Option Secret}
      (hq : q = .denyTransaction id nonceHash now) :
      SpendingStep q c (some (none, x)) (some (some now, x))
  | created {x : Option (Option Time × Option Secret)} (hq : q.spends = some c.secret) :
      SpendingStep q c none x
  | removed {x : Option (Option Time × Option Secret)} (hq : q.removes c = true) :
      SpendingStep q c x none

namespace Store

variable {s : Store} {codeHash : Digest} {c : Credential}

theorem transactionByCode_eq_some {r : Transaction} :
    s.transactionByCode codeHash = some r ↔ r ∈ s.transactions ∧ r.codeHash = some codeHash := by
  constructor
  · intro h
    exact ⟨List.mem_of_find?_eq_some h, by simpa using List.find?_some h⟩
  · rintro ⟨hr, hcode⟩
    obtain ⟨r', hr'⟩ : ∃ r', s.transactionByCode codeHash = some r' :=
      Option.isSome_iff_exists.mp (List.find?_isSome.mpr ⟨r, hr, by simpa using hcode⟩)
    have hcode' : r'.codeHash = some codeHash := by simpa using List.find?_some hr'
    have hmem : r' ∈ s.transactions := List.mem_of_find?_eq_some hr'
    rw [hr', Table.eq_of_key hmem hr (s.codes r' hmem r hr codeHash hcode' hcode)]

theorem transactionByCode_update {p : Transaction → Bool} {f : Transaction → Transaction}
    (hset : ∀ r, (f r).id = r.id) (hcode : ∀ r, (f r).codeHash = r.codeHash) :
    (s.updateTransactions p f hset hcode).transactionByCode codeHash =
      (s.transactionByCode codeHash).map fun r => if p r then f r else r := by
  change (s.transactions.rows.map _).find? _ = _
  rw [List.find?_map]
  congr 2
  funext r
  by_cases hp : p r <;> simp [hp, hcode]

theorem spending_update {p : Transaction → Bool} {f : Transaction → Transaction}
    (hset : ∀ r, (f r).id = r.id) (hcode : ∀ r, (f r).codeHash = r.codeHash)
    (hkept : ∀ r, p r = true → (f r).consumedAt = r.consumedAt ∧ (f r).consumedBy = r.consumedBy) :
    (s.updateTransactions p f hset hcode).spending c = s.spending c := by
  cases c with
  | refresh tokenHash => rfl
  | code codeHash =>
    change Option.map _ (Store.transactionByCode _ _) = Option.map _ (Store.transactionByCode _ _)
    rw [transactionByCode_update, Option.map_map]
    congr 1
    funext r
    by_cases hp : p r
    · simp [hp, hkept r hp]
    · simp [hp]

theorem transactionByCode_insert {r : Transaction} :
    (s.insertTransaction r).1.transactionByCode codeHash = s.transactionByCode codeHash := by
  rw [insertTransaction]
  split
  · next h =>
    refine Option.ext fun r' => ?_
    rw [transactionByCode_eq_some, transactionByCode_eq_some]
    have hfree : s.transactions.get? r.fresh.id = none := h.2
    change r' ∈ s.transactions.insert r.fresh ∧ _ ↔ _
    rw [Table.mem_insert_of_free hfree]
    constructor
    · rintro ⟨hr' | rfl, hcode⟩
      · exact ⟨hr', hcode⟩
      · cases hcode
    · rintro ⟨hr', hcode⟩
      exact ⟨.inl hr', hcode⟩
  · rfl

end Store

section Steps

variable {s : Store}

theorem purge_step {now : Time} (codeHash : Digest) :
    SpendingStep (.purgeExpiredTransactions now) (.code codeHash) (s.spending (.code codeHash))
      ((s.purgeExpiredTransactions now).1.spending (.code codeHash)) := by
  simp only [Store.spending]
  cases hafter : (s.purgeExpiredTransactions now).1.transactionByCode codeHash with
  | none => exact .removed rfl
  | some r =>
    obtain ⟨hmem, hcode⟩ := Store.transactionByCode_eq_some.mp hafter
    rw [Store.transactionByCode_eq_some.mpr ⟨(Table.mem_delete.mp hmem).1, hcode⟩]
    exact .kept

theorem recordCode_step {id grantId : Uuid} {codeHash : Digest} {expiresAt : Time}
    (codeHash' : Digest) :
    SpendingStep (.recordCode id grantId codeHash expiresAt) (.code codeHash')
      (s.spending (.code codeHash'))
      ((s.recordCode id grantId codeHash expiresAt).1.spending (.code codeHash')) := by
  rw [Store.recordCode]
  split
  · next h =>
    simp only [Store.spending]
    generalize hs : Store.mk s.clients s.grants s.tokens _ (s.codes_recordCode h.2) = s'
    have hrows : s'.transactions = s.transactions.update (fun r => r.id == id)
        (fun r => r.coded grantId codeHash expiresAt) fun _ => rfl := by rw [← hs]
    cases hafter : s'.transactionByCode codeHash' with
    | none => exact .removed rfl
    | some r' =>
      obtain ⟨hmem, hcode⟩ := Store.transactionByCode_eq_some.mp hafter
      rw [hrows] at hmem
      obtain ⟨r, hr, rfl⟩ := Table.mem_update.mp hmem
      by_cases hid : (r.id == id) = true
      · rw [if_pos hid] at hcode
        rw [if_pos hid]
        obtain rfl : codeHash = codeHash' := Option.some.inj hcode
        cases hbefore : s.transactionByCode codeHash with
        | none => exact .created rfl
        | some r₀ =>
          obtain ⟨hmem₀, hcode₀⟩ := Store.transactionByCode_eq_some.mp hbefore
          have hid₀ : r₀.id = id := by
            have hnone := Table.rowCount_eq_zero.mp (by simpa [Store.codeTaken] using h.2) r₀ hmem₀
            simpa [hcode₀] using hnone
          have hsame : r₀ = r := Table.eq_of_key hmem₀ hr (hid₀.trans (beq_iff_eq.mp hid).symm)
          subst hsame
          exact .kept
      · rw [if_neg hid] at hcode ⊢
        rw [Store.transactionByCode_eq_some.mpr ⟨hr, hcode⟩]
        exact .kept
  · exact .kept

theorem consumeCode_step {codeHash codeHash' : Digest} {now : Time} {marker : Secret} :
    SpendingStep (.consume (.code codeHash) now marker) (.code codeHash')
      (s.spending (.code codeHash'))
      ((s.consume now marker (.code codeHash)).1.spending (.code codeHash')) := by
  have hlook : (s.consume now marker (.code codeHash)).1.transactionByCode codeHash' =
      (s.transactionByCode codeHash').map fun r =>
        if r.codeHash == some codeHash && r.consumedAt.isNone then r.consumed now marker else r :=
    Store.transactionByCode_update (f := fun r => r.consumed now marker) (fun _ => rfl) fun _ => rfl
  simp only [Store.spending, hlook]
  cases hrow : s.transactionByCode codeHash' with
  | none => exact .kept
  | some r =>
    have hcode := (Store.transactionByCode_eq_some.mp hrow).2
    simp only [Option.map_some, hcode]
    split
    · next hp =>
      simp only [Bool.and_eq_true, beq_iff_eq, Option.some.injEq, Option.isNone_iff_eq_none] at hp
      obtain ⟨rfl, hnull⟩ := hp
      rw [hnull]
      exact .spent rfl
    · exact .kept

theorem denyTransaction_step {id : Uuid} {nonceHash : Digest} {now : Time} (codeHash : Digest) :
    SpendingStep (.denyTransaction id nonceHash now) (.code codeHash)
      (s.spending (.code codeHash))
      ((s.denyTransaction id nonceHash now).1.spending (.code codeHash)) := by
  have hlook : (s.denyTransaction id nonceHash now).1.transactionByCode codeHash =
      (s.transactionByCode codeHash).map fun r =>
        if Store.openWith id nonceHash r then r.denied now else r :=
    Store.transactionByCode_update (f := fun r => r.denied now) (fun _ => rfl) fun _ => rfl
  simp only [Store.spending, hlook]
  cases hrow : s.transactionByCode codeHash with
  | none => exact .kept
  | some r =>
    simp only [Option.map_some]
    split
    · next hp =>
      simp only [Store.openWith, Transaction.undecided, Bool.and_eq_true,
        Option.isNone_iff_eq_none] at hp
      rw [hp.2.2]
      exact .denied rfl
    · exact .kept

theorem consumeToken_step {tokenHash tokenHash' : Digest} {now : Time} {marker : Secret} :
    SpendingStep (.consume (.refresh tokenHash) now marker) (.refresh tokenHash')
      (s.spending (.refresh tokenHash'))
      ((s.consume now marker (.refresh tokenHash)).1.spending (.refresh tokenHash')) := by
  have hlook : (s.consume now marker (.refresh tokenHash)).1.tokens.get? tokenHash' =
      (s.tokens.get? tokenHash').map fun r =>
        if r.tokenHash == tokenHash && r.consumedAt.isNone && r.kind == .refresh then
          r.consumed now marker else r :=
    Table.get?_update s.tokens _ (fun r => r.consumed now marker) (fun _ => rfl) _
  simp only [Store.spending, hlook]
  cases hrow : s.tokens.get? tokenHash' with
  | none => exact .kept
  | some r =>
    have hkey := Table.get?_key hrow
    simp only [Option.map_some, hkey]
    split
    · next hp =>
      simp only [Bool.and_eq_true, beq_iff_eq, Option.isNone_iff_eq_none] at hp
      obtain ⟨⟨rfl, hnull⟩, -⟩ := hp
      rw [hnull]
      exact .spent rfl
    · exact .kept

theorem insertToken_step {r : Token} (tokenHash : Digest) :
    SpendingStep (.insertToken r) (.refresh tokenHash) (s.spending (.refresh tokenHash))
      ((s.insertToken r).1.spending (.refresh tokenHash)) := by
  rw [Store.insertToken]
  split
  · next h =>
    have hfree : s.tokens.get? r.fresh.tokenHash = none := by
      simpa using (Bool.and_eq_true_iff.mp h).2
    simp only [Store.spending, Table.get?_insert_of_free hfree]
    split
    · next hkey =>
      subst hkey
      rw [hfree]
      exact .created rfl
    · exact .kept
  · exact .kept

end Steps

-- A row that says who spent it says when.
structure Store.Dated (s : Store) : Prop where
  transactions : ∀ r ∈ s.transactions, r.consumedBy.isSome → r.consumedAt.isSome
  tokens : ∀ r ∈ s.tokens, r.consumedBy.isSome → r.consumedAt.isSome

namespace Store

variable {s : Store}

theorem Dated.spending {c : Credential} {x : Option Time} {marker : Secret} (h : s.Dated)
    (hc : s.spending c = some (x, some marker)) : x.isSome := by
  cases c with
  | code codeHash =>
    obtain ⟨r, hrow, heq⟩ := Option.map_eq_some_iff.mp hc
    obtain ⟨rfl, hby⟩ := Prod.mk.injEq .. ▸ heq
    exact h.transactions r (transactionByCode_eq_some.mp hrow).1 (by simp [hby])
  | refresh tokenHash =>
    obtain ⟨r, hrow, heq⟩ := Option.map_eq_some_iff.mp hc
    obtain ⟨rfl, hby⟩ := Prod.mk.injEq .. ▸ heq
    exact h.tokens r (Table.get?_mem hrow) (by simp [hby])

theorem Dated.updateTransactions {p : Transaction → Bool} {f : Transaction → Transaction}
    (h : s.Dated) (hset : ∀ r, (f r).id = r.id) (hcode : ∀ r, (f r).codeHash = r.codeHash)
    (hf : ∀ r, (r.consumedBy.isSome → r.consumedAt.isSome) →
      (f r).consumedBy.isSome → (f r).consumedAt.isSome) :
    (s.updateTransactions p f hset hcode).Dated where
  transactions r' hr' := by
    have hmem : r' ∈ s.transactions.update p f hset := hr'
    obtain ⟨r, hr, rfl⟩ := Table.mem_update.mp hmem
    split
    · exact hf r (h.transactions r hr)
    · exact h.transactions r hr
  tokens := h.tokens

end Store

theorem dated_next (q : Statement) {s : Store} (h : s.Dated) : (q.next s).Dated := by
  cases q with
  | insertToken r =>
    change (s.insertToken r).1.Dated
    rw [Store.insertToken]
    split
    · next hfree =>
      have hfree : s.tokens.get? r.fresh.tokenHash = none := by
        simpa using (Bool.and_eq_true_iff.mp hfree).2
      refine ⟨h.transactions, fun r' hr' => ?_⟩
      rcases (Table.mem_insert_of_free hfree).mp hr' with hr' | rfl
      · exact h.tokens r' hr'
      · exact fun hby => by cases hby
    · exact h
  | insertGrant g =>
    change (s.insertGrant g).1.Dated
    rw [Store.insertGrant]
    split
    · exact ⟨h.transactions, h.tokens⟩
    · exact h
  | insertTransaction r =>
    change (s.insertTransaction r).1.Dated
    rw [Store.insertTransaction]
    split
    · next hfree =>
      have hfree : s.transactions.get? r.fresh.id = none := hfree.2
      refine ⟨fun r' hr' => ?_, h.tokens⟩
      rcases (Table.mem_insert_of_free hfree).mp hr' with hr' | rfl
      · exact h.transactions r' hr'
      · exact fun hby => by cases hby
    · exact h
  | armConsent id nonceHash =>
    exact h.updateTransactions (f := fun r => r.armed nonceHash) (fun _ => rfl) (fun _ => rfl)
      fun _ hr => hr
  | approveTransaction id nonceHash now =>
    exact h.updateTransactions (f := fun r => r.approved now) (fun _ => rfl) (fun _ => rfl)
      fun _ hr => hr
  | denyTransaction id nonceHash now =>
    exact h.updateTransactions (f := fun r => r.denied now) (fun _ => rfl) (fun _ => rfl)
      fun _ _ _ => rfl
  | recordCode id grantId codeHash expiresAt =>
    change (s.recordCode id grantId codeHash expiresAt).1.Dated
    rw [Store.recordCode]
    split
    · refine ⟨fun r' hr' => ?_, h.tokens⟩
      obtain ⟨r, hr, rfl⟩ : ∃ r ∈ s.transactions, _ = r' := List.mem_map.mp hr'
      split
      · exact h.transactions r hr
      · exact h.transactions r hr
    · exact h
  | consume c now marker =>
    cases c with
    | code codeHash =>
      exact h.updateTransactions (f := fun r => r.consumed now marker) (fun _ => rfl)
        (fun _ => rfl) fun _ _ _ => rfl
    | refresh tokenHash =>
      refine ⟨h.transactions, fun r' hr' => ?_⟩
      obtain ⟨r, hr, rfl⟩ : ∃ r ∈ s.tokens, _ = r' := List.mem_map.mp hr'
      split
      · exact fun _ => rfl
      · exact h.tokens r hr
  | purgeExpiredTransactions now =>
    exact ⟨fun r hr => h.transactions r (Table.mem_delete.mp hr).1, h.tokens⟩
  | _ => exact ⟨h.transactions, h.tokens⟩

theorem spending_next (q : Statement) (s : Store) (c : Credential) :
    SpendingStep q c (s.spending c) ((q.next s).spending c) := by
  cases c with
  | code codeHash =>
    cases q with
    | insertTransaction r =>
      have hsame : (s.insertTransaction r).1.spending (.code codeHash) =
          s.spending (.code codeHash) := by
        simp only [Store.spending, Store.transactionByCode_insert]
      change SpendingStep _ _ _ ((s.insertTransaction r).1.spending _)
      rw [hsame]
      exact .kept
    | armConsent id nonceHash =>
      have hsame : (s.armConsent id nonceHash).1.spending (.code codeHash) =
          s.spending (.code codeHash) :=
        Store.spending_update (f := fun r => r.armed nonceHash) (fun _ => rfl) (fun _ => rfl)
          fun _ _ => ⟨rfl, rfl⟩
      change SpendingStep _ _ _ ((s.armConsent id nonceHash).1.spending _)
      rw [hsame]
      exact .kept
    | approveTransaction id nonceHash now =>
      have hsame : (s.approveTransaction id nonceHash now).1.spending (.code codeHash) =
          s.spending (.code codeHash) :=
        Store.spending_update (f := fun r => r.approved now) (fun _ => rfl) (fun _ => rfl)
          fun _ _ => ⟨rfl, rfl⟩
      change SpendingStep _ _ _ ((s.approveTransaction id nonceHash now).1.spending _)
      rw [hsame]
      exact .kept
    | denyTransaction id nonceHash now => exact denyTransaction_step codeHash
    | recordCode id grantId codeHash' expiresAt => exact recordCode_step codeHash
    | consume c now marker =>
      cases c with
      | code codeHash' => exact consumeCode_step
      | refresh tokenHash => exact .kept
    | purgeExpiredTransactions now => exact purge_step codeHash
    | insertGrant g =>
      change SpendingStep _ _ _ ((s.insertGrant g).1.spending _)
      rw [Store.insertGrant]
      split <;> exact .kept
    | insertToken r =>
      change SpendingStep _ _ _ ((s.insertToken r).1.spending _)
      rw [Store.insertToken]
      split <;> exact .kept
    | _ => exact .kept
  | refresh tokenHash =>
    cases q with
    | insertToken r => exact insertToken_step tokenHash
    | consume c now marker =>
      cases c with
      | code codeHash => exact .kept
      | refresh tokenHash' => exact consumeToken_step
    | insertGrant g =>
      change SpendingStep _ _ _ ((s.insertGrant g).1.spending _)
      rw [Store.insertGrant]
      split <;> exact .kept
    | insertTransaction r =>
      change SpendingStep _ _ _ ((s.insertTransaction r).1.spending _)
      rw [Store.insertTransaction]
      split <;> exact .kept
    | recordCode id grantId codeHash expiresAt =>
      change SpendingStep _ _ _ ((s.recordCode id grantId codeHash expiresAt).1.spending _)
      rw [Store.recordCode]
      split <;> exact .kept
    | _ => exact .kept

end TranscodeForge.OAuth
