import TranscodeForge.OAuth.Models

namespace TranscodeForge.OAuth

open Relational

namespace Store

variable (s : Store)

def updateGrants (p : Grant → Bool) (set : Grant → Grant)
    (hset : ∀ g, (set g).id = g.id := by exact fun _ => rfl) : Store :=
  { s with grants := s.grants.update p set hset }

def updateTokens (p : Token → Bool) (set : Token → Token)
    (hset : ∀ r, (set r).tokenHash = r.tokenHash := by exact fun _ => rfl) : Store :=
  { s with tokens := s.tokens.update p set hset }

theorem codes_update {p : Transaction → Bool} {set : Transaction → Transaction}
    {hset : ∀ r, (set r).id = r.id} (hcode : ∀ r, (set r).codeHash = r.codeHash) :
    UniqueCodes (s.transactions.update p set hset) := by
  intro r hr r' hr' h hcode₁ hcode₂
  obtain ⟨r₀, hr₀, rfl⟩ := Table.mem_update.mp hr
  obtain ⟨r₀', hr₀', rfl⟩ := Table.mem_update.mp hr'
  have hid (r : Transaction) : (if p r then set r else r).id = r.id := by
    split
    · exact hset r
    · rfl
  have hsame (r : Transaction) : (if p r then set r else r).codeHash = r.codeHash := by
    split
    · exact hcode r
    · rfl
  rw [hsame] at hcode₁ hcode₂
  rw [hid, hid]
  exact s.codes r₀ hr₀ r₀' hr₀' h hcode₁ hcode₂

def updateTransactions (p : Transaction → Bool) (set : Transaction → Transaction)
    (hset : ∀ r, (set r).id = r.id := by exact fun _ => rfl)
    (hcode : ∀ r, (set r).codeHash = r.codeHash := by exact fun _ => rfl) : Store :=
  { s with
    transactions := s.transactions.update p set hset
    codes := s.codes_update hcode }

def ensureClient (c : Client) : Store := { s with clients := s.clients.insert c }

def disableClient (id : String) (now : Time) : Store × Bool :=
  let p (c : Client) : Bool := c.id == id && c.disabledAt.isNone
  ({ s with clients := s.clients.update p (fun c => { c with disabledAt := some now }) fun _ => rfl },
    s.clients.rowCount p != 0)

def allowCimdClient (url name : String) (now : Time) : Store :=
  { s with
    clients := s.clients.upsert
      { id := url, kind := .cimd, name := name, metadataUrl := some url, createdAt := now }
      (fun c => { c with disabledAt := none, metadataFetchedAt := none }) fun _ => rfl }

def cacheClientDocument (id name : String) (redirectUris : List String) (now : Time) : Store :=
  { s with
    clients := s.clients.update (fun c => c.id == id)
      (fun c => { c with name := name, redirectUris := redirectUris, metadataFetchedAt := some now })
      fun _ => rfl }

def getClient (id : String) : Option Client := s.clients.get? id

-- An INSERT that breaks a key or a reference is refused.
def insertGrant (g : Grant) : Store × Bool :=
  if (s.clients.get? g.clientId).isSome && (s.grants.get? g.id).isNone then
    ({ s with grants := s.grants.insert g.fresh }, true)
  else (s, false)

def revokeGrant (id : Uuid) (now : Time) : Store × Bool :=
  let p (g : Grant) : Bool := g.id == id && g.revokedAt.isNone
  (s.updateGrants p fun g => g.revoked now, s.grants.rowCount p != 0)

def getGrant (id : Uuid) : Option Grant := s.grants.get? id

def touchGrant (id : Uuid) (now : Time) : Store :=
  s.updateGrants (fun g => g.id == id) fun g => g.used now

def insertToken (r : Token) : Store × Bool :=
  if (s.grants.get? r.grantId).isSome && (s.tokens.get? r.tokenHash).isNone then
    ({ s with tokens := s.tokens.insert r.fresh }, true)
  else (s, false)

-- A token, joined with its grant and the grant's client.
def joined (r : Token) : Option (Token × Grant × Client) :=
  (s.grants.get? r.grantId).bind fun g => (s.clients.get? g.clientId).map fun c => (r, g, c)

def accessToken (tokenHash : Digest) : Option (Token × Grant × Client) :=
  ((s.tokens.get? tokenHash).filter fun r => r.kind == .access && r.consumedAt.isNone).bind s.joined

def refreshToken (tokenHash : Digest) : Option (Token × Grant × Client) :=
  ((s.tokens.get? tokenHash).filter fun r => r.kind == .refresh).bind s.joined

def grantByToken (access refresh : Digest) : Option Grant :=
  ((s.tokens.select fun r => r.tokenHash == access || r.tokenHash == refresh).filterMap
    fun r => s.grants.get? r.grantId).head?

def insertTransaction (r : Transaction) : Store × Bool :=
  if h : (s.clients.get? r.clientId).isSome ∧ s.transactions.get? r.id = none then
    ({ s with
        transactions := s.transactions.insert r.fresh
        codes := by
          intro r₁ hr₁ r₂ hr₂ c hcode₁ hcode₂
          have hfree : s.transactions.get? r.fresh.id = none := h.2
          rw [Table.mem_insert_of_free hfree] at hr₁ hr₂
          rcases hr₁ with hr₁ | rfl
          · rcases hr₂ with hr₂ | rfl
            · exact s.codes r₁ hr₁ r₂ hr₂ c hcode₁ hcode₂
            · cases hcode₂
          · cases hcode₁ }, true)
  else (s, false)

def getTransaction (id : Uuid) : Option Transaction := s.transactions.get? id

def openWith (id : Uuid) (nonceHash : Digest) (r : Transaction) : Bool :=
  r.id == id && r.nonceHash == some nonceHash && r.undecided

def armConsent (id : Uuid) (nonceHash : Digest) : Store × Bool :=
  let p (r : Transaction) : Bool := r.id == id && r.undecided
  (s.updateTransactions p fun r => r.armed nonceHash, s.transactions.rowCount p != 0)

def approveTransaction (id : Uuid) (nonceHash : Digest) (now : Time) : Store × Bool :=
  (s.updateTransactions (openWith id nonceHash) fun r => r.approved now,
    s.transactions.rowCount (openWith id nonceHash) != 0)

def denyTransaction (id : Uuid) (nonceHash : Digest) (now : Time) : Store × Bool :=
  (s.updateTransactions (openWith id nonceHash) fun r => r.denied now,
    s.transactions.rowCount (openWith id nonceHash) != 0)

def codeTaken (id : Uuid) (codeHash : Digest) : Bool :=
  s.transactions.rowCount (fun r => r.codeHash == some codeHash && r.id != id) != 0

theorem codes_recordCode {id grantId : Uuid} {codeHash : Digest} {expiresAt : Time}
    (h : s.codeTaken id codeHash = false) :
    UniqueCodes (s.transactions.update (fun r => r.id == id)
      (fun r => r.coded grantId codeHash expiresAt) fun _ => rfl) := by
  have hfree : ∀ r ∈ s.transactions, r.codeHash = some codeHash → r.id = id := by
    intro r hr hcode
    have hnone := Table.rowCount_eq_zero.mp (by simpa [codeTaken] using h) r hr
    simpa [hcode] using hnone
  intro r₁ hr₁ r₂ hr₂ c hcode₁ hcode₂
  obtain ⟨r₁', hr₁', rfl⟩ := Table.mem_update.mp hr₁
  obtain ⟨r₂', hr₂', rfl⟩ := Table.mem_update.mp hr₂
  by_cases h₁ : r₁'.id = id <;> by_cases h₂ : r₂'.id = id <;>
    simp only [h₁, h₂, beq_self_eq_true, beq_iff_eq, if_true, if_false, Transaction.coded]
      at hcode₁ hcode₂ ⊢
  · exact absurd (hfree r₂' hr₂' (hcode₂.trans hcode₁.symm)) h₂
  · exact absurd (hfree r₁' hr₁' (hcode₁.trans hcode₂.symm)) h₁
  · exact s.codes r₁' hr₁' r₂' hr₂' c hcode₁ hcode₂

def recordCode (id grantId : Uuid) (codeHash : Digest) (expiresAt : Time) : Store × Bool :=
  if h : (s.grants.get? grantId).isSome ∧ s.codeTaken id codeHash = false then
    ({ s with
        transactions := s.transactions.update (fun r => r.id == id)
          (fun r => r.coded grantId codeHash expiresAt) fun _ => rfl
        codes := s.codes_recordCode h.2 }, true)
  else (s, false)

def transactionByCode (codeHash : Digest) : Option Transaction :=
  s.transactions.rows.find? fun r => r.codeHash == some codeHash

-- The UPDATE of `_consume`.
def consume (now : Time) (marker : Secret) : Credential → Store × Bool
  | .code codeHash =>
    let p (r : Transaction) : Bool := r.codeHash == some codeHash && r.consumedAt.isNone
    (s.updateTransactions p fun r => r.consumed now marker, s.transactions.rowCount p != 0)
  | .refresh tokenHash =>
    let p (r : Token) : Bool :=
      r.tokenHash == tokenHash && r.consumedAt.isNone && r.kind == .refresh
    (s.updateTokens p fun r => r.consumed now marker, s.tokens.rowCount p != 0)

-- The row a credential names: when it was spent, and by whom.
def spending : Credential → Option (Option Time × Option Secret)
  | .code codeHash => (s.transactionByCode codeHash).map fun r => (r.consumedAt, r.consumedBy)
  | .refresh tokenHash => (s.tokens.get? tokenHash).map fun r => (r.consumedAt, r.consumedBy)

def purgeExpiredTransactions (now : Time) : Store × Nat :=
  ({ s with
      transactions := s.transactions.delete fun r => r.expiresAt < now
      codes := fun r hr r' hr' =>
        s.codes r (Table.mem_delete.mp hr).1 r' (Table.mem_delete.mp hr').1 },
    s.transactions.rowCount fun r => r.expiresAt < now)

end Store

inductive Statement where
  | ensureClient (c : Client)
  | disableClient (id : String) (now : Time)
  | allowCimdClient (url name : String) (now : Time)
  | cacheClientDocument (id name : String) (redirectUris : List String) (now : Time)
  | getClient (id : String)
  | insertGrant (g : Grant)
  | revokeGrant (id : Uuid) (now : Time)
  | getGrant (id : Uuid)
  | touchGrant (id : Uuid) (now : Time)
  | insertToken (r : Token)
  | accessToken (tokenHash : Digest)
  | refreshToken (tokenHash : Digest)
  | grantByToken (access refresh : Digest)
  | insertTransaction (r : Transaction)
  | getTransaction (id : Uuid)
  | armConsent (id : Uuid) (nonceHash : Digest)
  | approveTransaction (id : Uuid) (nonceHash : Digest) (now : Time)
  | denyTransaction (id : Uuid) (nonceHash : Digest) (now : Time)
  | recordCode (id grantId : Uuid) (codeHash : Digest) (expiresAt : Time)
  | transactionByCode (codeHash : Digest)
  | consume (c : Credential) (now : Time) (marker : Secret)
  | consumedBy (c : Credential)
  | consumedAt (c : Credential)
  | purgeExpiredTransactions (now : Time)

namespace Statement

abbrev Answer : Statement → Type
  | disableClient _ _ | insertGrant _ | revokeGrant _ _ | insertToken _ | insertTransaction _
  | armConsent _ _ | approveTransaction _ _ _ | denyTransaction _ _ _ | recordCode _ _ _ _
  | consume _ _ _ => Bool
  | getClient _ => Option Client
  | getGrant _ | grantByToken _ _ => Option Grant
  | accessToken _ | refreshToken _ => Option (Token × Grant × Client)
  | getTransaction _ | transactionByCode _ => Option Transaction
  | consumedBy _ => Option (Option Secret)
  | consumedAt _ => Option (Option Time)
  | purgeExpiredTransactions _ => Nat
  | ensureClient _ | allowCimdClient _ _ _ | cacheClientDocument _ _ _ _ | touchGrant _ _ => Unit

def exec (s : Store) : (q : Statement) → Store × q.Answer
  | ensureClient c => (s.ensureClient c, ())
  | disableClient id now => s.disableClient id now
  | allowCimdClient url name now => (s.allowCimdClient url name now, ())
  | cacheClientDocument id name redirectUris now =>
    (s.cacheClientDocument id name redirectUris now, ())
  | getClient id => (s, s.getClient id)
  | insertGrant g => s.insertGrant g
  | revokeGrant id now => s.revokeGrant id now
  | getGrant id => (s, s.getGrant id)
  | touchGrant id now => (s.touchGrant id now, ())
  | insertToken r => s.insertToken r
  | accessToken tokenHash => (s, s.accessToken tokenHash)
  | refreshToken tokenHash => (s, s.refreshToken tokenHash)
  | grantByToken access refresh => (s, s.grantByToken access refresh)
  | insertTransaction r => s.insertTransaction r
  | getTransaction id => (s, s.getTransaction id)
  | armConsent id nonceHash => s.armConsent id nonceHash
  | approveTransaction id nonceHash now => s.approveTransaction id nonceHash now
  | denyTransaction id nonceHash now => s.denyTransaction id nonceHash now
  | recordCode id grantId codeHash expiresAt => s.recordCode id grantId codeHash expiresAt
  | transactionByCode codeHash => (s, s.transactionByCode codeHash)
  | consume c now marker => s.consume now marker c
  | consumedBy c => (s, (s.spending c).map Prod.snd)
  | consumedAt c => (s, (s.spending c).map Prod.fst)
  | purgeExpiredTransactions now => s.purgeExpiredTransactions now

def next (q : Statement) (s : Store) : Store := (q.exec s).1

def answer (q : Statement) (s : Store) : q.Answer := (q.exec s).2

def selects : Statement → Bool
  | getClient _ | getGrant _ | accessToken _ | refreshToken _ | grantByToken _ _
  | getTransaction _ | transactionByCode _ | consumedBy _ | consumedAt _ => true
  | _ => false

theorem next_of_selects {q : Statement} (h : q.selects = true) (s : Store) : q.next s = s := by
  cases q <;> first | rfl | cases h

end Statement

end TranscodeForge.OAuth
