import TranscodeForge.OAuth.Transactions

namespace TranscodeForge.OAuth

open Relational

-- What a grant's row says of its holder and of what it may do.
def Grant.terms (g : Grant) : String × String × Scopes × String × Time :=
  (g.clientId, g.userId, g.scopes, g.resource, g.expiresAt)

def Transaction.terms (r : Transaction) : String × Scopes × String :=
  (r.clientId, r.scopes, r.resource)

-- What a statement can do to the row of one grant.
inductive GrantStep (q : Statement) (id : Uuid) : Option Grant → Option Grant → Prop
  | kept (x : Option Grant) : GrantStep q id x x
  | created {g : Grant} (hq : q = .insertGrant g) (hid : g.id = id) :
      GrantStep q id none (some g.fresh)
  | revoked {g : Grant} {now : Time} (hq : q = .revokeGrant id now) :
      GrantStep q id (some g) (some (g.revoked now))
  | used {g : Grant} {now : Time} (hq : q = .touchGrant id now) :
      GrantStep q id (some g) (some (g.used now))

namespace GrantStep

variable {s : Store} {id : Uuid} {q : Statement}

theorem of_update {p : Grant → Bool} {f : Grant → Grant} (hset : ∀ g, (f g).id = g.id)
    (hstep : ∀ g, g.id = id → p g = true → GrantStep q id (some g) (some (f g))) :
    GrantStep q id (s.getGrant id) ((s.updateGrants p f hset).getGrant id) := by
  have hlook : (s.updateGrants p f hset).getGrant id = _ := Table.get?_update s.grants p f hset id
  rw [hlook, Store.getGrant]
  cases hrow : s.grants.get? id with
  | none => exact .kept none
  | some g =>
    rw [Option.map_some]
    cases hp : p g with
    | true => exact hstep g (Table.get?_key hrow) hp
    | false => exact .kept (some g)

theorem insertGrant (g : Grant) :
    GrantStep (.insertGrant g) id (s.getGrant id) ((s.insertGrant g).1.getGrant id) := by
  rw [Store.insertGrant]
  split
  · next h =>
    rw [Bool.and_eq_true, Option.isNone_iff_eq_none] at h
    have hfree : s.grants.get? g.fresh.id = none := h.2
    have hlook := Table.get?_insert_of_free hfree id
    change GrantStep _ _ _ ((s.grants.insert g.fresh).get? id)
    rw [hlook]
    split
    · next hid =>
      subst hid
      rw [Store.getGrant, hfree]
      exact .created rfl rfl
    · exact .kept _
  · exact .kept _

theorem terms {g g' : Grant} (h : GrantStep q id (some g) (some g')) : g'.terms = g.terms := by
  cases h <;> rfl

theorem revokedAt {g g' : Grant} (h : GrantStep q id (some g) (some g'))
    (hg : g.revokedAt ≠ none) : g'.revokedAt ≠ none := by
  cases h with
  | kept => exact hg
  | revoked => exact fun hnone => by cases hnone
  | used => exact hg

end GrantStep

theorem grant_next (q : Statement) (s : Store) (id : Uuid) :
    GrantStep q id (s.getGrant id) ((q.next s).getGrant id) := by
  cases q with
  | insertGrant g => exact .insertGrant g
  | revokeGrant id' now =>
    refine .of_update (f := fun g => g.revoked now) (fun _ => rfl) fun g hid hp => ?_
    rw [Bool.and_eq_true, beq_iff_eq] at hp
    obtain rfl : id = id' := hid.symm.trans hp.1
    exact .revoked rfl
  | touchGrant id' now =>
    refine .of_update (f := fun g => g.used now) (fun _ => rfl) fun g hid hp => ?_
    obtain rfl : id = id' := hid.symm.trans (beq_iff_eq.mp hp)
    exact .used rfl
  | insertToken r =>
    change GrantStep _ _ _ ((s.insertToken r).1.getGrant id)
    rw [Store.insertToken]
    split <;> exact .kept _
  | insertTransaction r =>
    change GrantStep _ _ _ ((s.insertTransaction r).1.getGrant id)
    rw [Store.insertTransaction]
    split <;> exact .kept _
  | recordCode id' grantId codeHash expiresAt =>
    change GrantStep _ _ _ ((s.recordCode id' grantId codeHash expiresAt).1.getGrant id)
    rw [Store.recordCode]
    split <;> exact .kept _
  | consume c now marker => cases c <;> exact .kept _
  | _ => exact .kept _

-- A grant is never deleted.
theorem grant_stays {s : Store} {id : Uuid} (q : Statement) (h : s.getGrant id ≠ none) :
    (q.next s).getGrant id ≠ none := by
  have hstep := grant_next q s id
  generalize s.getGrant id = x at hstep h
  generalize (q.next s).getGrant id = x' at hstep
  cases hstep with
  | kept => exact h
  | _ => exact Option.some_ne_none _

theorem revokeGrant_revokes {s : Store} {id : Uuid} {g : Grant} (now : Time)
    (hrow : s.getGrant id = some g) :
    ∃ g', (s.revokeGrant id now).1.getGrant id = some g' ∧ g'.revokedAt ≠ none := by
  have hlook : (s.revokeGrant id now).1.getGrant id = _ :=
    Table.get?_update s.grants _ (fun g => g.revoked now) (fun _ => rfl) id
  have hid : g.id = id := Table.get?_key hrow
  rw [show s.grants.get? id = some g from hrow, Option.map_some] at hlook
  refine ⟨_, hlook, ?_⟩
  split
  · exact fun hnone => by cases hnone
  · next hp =>
    intro hnone
    simp [hid, hnone] at hp

theorem transaction_terms {q : Statement} {id : Uuid} {r r' : Transaction}
    (h : RowStep q id (some r) (some r')) : r'.terms = r.terms := by
  cases h <;> rfl

namespace Store

-- A transaction's grant exists.
def Linked (s : Store) : Prop :=
  ∀ id r g, s.getTransaction id = some r → r.grantId = some g → s.getGrant g ≠ none

theorem Linked.next {s : Store} (h : s.Linked) (q : Statement) : (q.next s).Linked := by
  intro id r g hrow hgrant
  have hstep := row_next q s id
  rw [hrow] at hstep
  generalize hbefore : s.getTransaction id = before at hstep
  cases hstep with
  | kept => exact grant_stays q (h id r g hbefore hgrant)
  | created => cases hgrant
  | armed => exact grant_stays q (h id _ g hbefore hgrant)
  | approved => exact grant_stays q (h id _ g hbefore hgrant)
  | denied => exact grant_stays q (h id _ g hbefore hgrant)
  | spent => exact grant_stays q (h id _ g hbefore hgrant)
  | @coded r₀ grantId codeHash expiresAt hq =>
    obtain rfl : grantId = g := Option.some.inj hgrant
    subst hq
    refine grant_stays _ fun hnone => ?_
    -- Without its grant the statement changes nothing.
    have hsame : (Statement.recordCode id grantId codeHash expiresAt).next s = s := by
      change (s.recordCode id grantId codeHash expiresAt).1 = s
      rw [Store.recordCode, dif_neg]
      rintro ⟨hsome, -⟩
      rw [show s.grants.get? grantId = none from hnone] at hsome
      cases hsome
    rw [hsame] at hrow
    exact h id _ grantId hrow hgrant hnone

end Store

end TranscodeForge.OAuth
