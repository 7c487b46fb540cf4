import TranscodeForge.Interaction.Program
import TranscodeForge.OAuth.Statements

namespace TranscodeForge.OAuth

open Interaction

inductive Failure where
  | unknownScopes (unknown : Scopes)
  | noScopes
  | replay
  | scopeTooWide
  | unknownGrant
  | integrity
deriving DecidableEq

structure IssuedTokens where
  accessToken : Secret
  refreshToken : Secret
  expiresIn : Nat
  scope : Scopes
deriving DecidableEq

-- A call of one of the store's functions.
inductive Call where
  | disableClient (id : String)
  | allowCimdClient (url name : String)
  | createAdminClient (name : String) (redirectUris : List String)
  | cacheClientDocument (id name : String) (redirectUris : List String)
  | createTransaction (clientId redirectUri codeChallenge : String) (scopes : Scopes)
      (resource : String) (state : Option String)
  | armConsent (id : Uuid)
  | approveTransaction (id : Uuid) (nonce : Option Secret) (userId : String)
  | denyTransaction (id : Uuid) (nonce : Option Secret)
  | redeemCode (code : Secret)
  | purgeExpiredTransactions
  | issueTokens (grantId : Uuid)
  | redeemRefreshToken (token : Secret) (requestedScopes : Option Scopes)
  | revokeGrant (id : Uuid)
  | revokeByToken (token : Secret) (clientId : String)
  | createManualGrant (label : String) (scopes : Scopes) (resource userId : String)
      (expiresAt : Option Time)
  | verifyAccessToken (token : Option Secret) (resource : String)

abbrev Call.Result : Call → Type
  | .disableClient _ | .denyTransaction _ _ | .revokeGrant _ | .revokeByToken _ _ => Bool
  | .allowCimdClient _ _ | .cacheClientDocument _ _ _ => Unit
  | .createAdminClient _ _ => String
  | .createTransaction _ _ _ _ _ _ => Uuid
  | .armConsent _ | .approveTransaction _ _ _ => Option Secret
  | .redeemCode _ => Option Transaction
  | .purgeExpiredTransactions => Nat
  | .issueTokens _ => IssuedTokens
  | .redeemRefreshToken _ _ => Option Grant
  | .createManualGrant _ _ _ _ _ => Uuid × Secret
  | .verifyAccessToken _ _ => Option Principal

-- What a function asks of the connection, the clock and the random source; the return of a
-- call is recorded.
inductive Op where
  | execute (q : Statement)
  | commit
  | now
  | generate
  | returned (f : Call) (r : Except Failure f.Result)

abbrev Op.Answer : Op → Type
  | .execute q => q.Answer
  | .commit | .returned _ _ => Unit
  | .now => Time
  | .generate => Secret

abbrev Repo (α : Type) : Type := Program Op Op.Answer Failure α

def execute (q : Statement) : Repo q.Answer := .call (.execute q) .ret

def commit : Repo Unit := .call .commit .ret

def utcNow : Repo Time := .call .now .ret

def generate : Repo Secret := .call .generate .ret

def orIntegrity (inserted : Bool) : Repo Unit := if inserted then .ret () else .raise .integrity

def canonical (resource : String) : String :=
  String.ofList (resource.toList.reverse.dropWhile (· == '/')).reverse

def validateScopes (scopes : Scopes) : Except Failure Scopes :=
  if scopes \ knownScopes ≠ ∅ then .error (.unknownScopes (scopes \ knownScopes))
  else if scopes = ∅ then .error .noScopes
  else .ok scopes

section Clients

def ensureClient (id : String) (kind : ClientKind) (name : String) (redirectUris : List String) :
    Repo Unit := do
  let now ← utcNow
  execute (.ensureClient
    { id := id, kind := kind, name := name, redirectUris := redirectUris, createdAt := now })
  commit

def disableClient (id : String) : Repo Bool := do
  let now ← utcNow
  let changed ← execute (.disableClient id now)
  commit
  pure changed

def allowCimdClient (url name : String) : Repo Unit := do
  let now ← utcNow
  execute (.allowCimdClient url name now)
  commit

def adminClientId (n : Uuid) : String := "tf-" ++ toString n

def createAdminClient (name : String) (redirectUris : List String) : Repo String := do
  let n ← generate
  ensureClient (adminClientId n) .admin name redirectUris
  pure (adminClientId n)

def cacheClientDocument (id name : String) (redirectUris : List String) : Repo Unit := do
  let now ← utcNow
  execute (.cacheClientDocument id name redirectUris now)
  commit

end Clients

section Grants

def createGrant (clientId userId : String) (scopes : Scopes) (resource label : String)
    (expiresAt : Option Time) : Repo Uuid := do
  let scopes ← Program.ofExcept (validateScopes scopes)
  let now ← utcNow
  let grantId ← generate
  let inserted ← execute (.insertGrant
    { id := grantId
      clientId := clientId
      userId := userId
      scopes := scopes
      resource := canonical resource
      label := label
      createdAt := now
      expiresAt := expiresAt.getD (now + grantTtl) })
  orIntegrity inserted
  commit
  pure grantId

def revokeGrant (grantId : Uuid) : Repo Bool := do
  let now ← utcNow
  let changed ← execute (.revokeGrant grantId now)
  commit
  pure changed

end Grants

section Tokens

def issueAccessToken (grantId : Uuid) (ttlSeconds : Int) : Repo Secret := do
  let token ← generate
  let now ← utcNow
  let inserted ← execute (.insertToken
    { tokenHash := hashToken .access token
      grantId := grantId
      kind := .access
      createdAt := now
      expiresAt := (now + ttlSeconds).toNat })
  orIntegrity inserted
  commit
  pure token

def createManualGrant (label : String) (scopes : Scopes) (resource userId : String)
    (expiresAt : Option Time) : Repo (Uuid × Secret) := do
  ensureClient manualClientId .admin "Manual bearer token" []
  let now ← utcNow
  let deadline := expiresAt.getD (now + manualGrantTtl)
  let grantId ← createGrant manualClientId userId scopes resource label (some deadline)
  let now ← utcNow
  let token ← issueAccessToken grantId (deadline - now)
  pure (grantId, token)

def verifyAccessToken (token : Option Secret) (resource : String) : Repo (Option Principal) :=
  match token with
  | none => pure none
  | some token => do
    match ← execute (.accessToken (hashToken .access token)) with
    | none => pure none
    | some (r, g, c) =>
      let now ← utcNow
      if r.expiresAt ≤ now ∨ g.expiresAt ≤ now then pure none
      else if g.revokedAt.isSome ∨ c.disabledAt.isSome then pure none
      else if g.resource ≠ canonical resource then pure none
      else
        execute (.touchGrant r.grantId now)
        commit
        pure (some ⟨r.grantId, g.clientId, g.userId, g.scopes, g.resource, r.expiresAt⟩)

end Tokens

section Transactions

def createTransaction (clientId redirectUri codeChallenge : String) (scopes : Scopes)
    (resource : String) (state : Option String) : Repo Uuid := do
  let scopes ← Program.ofExcept (validateScopes scopes)
  let now ← utcNow
  let id ← generate
  let inserted ← execute (.insertTransaction
    { id := id
      clientId := clientId
      redirectUri := redirectUri
      codeChallenge := codeChallenge
      scopes := scopes
      resource := canonical resource
      state := state
      createdAt := now
      expiresAt := now + transactionTtl })
  orIntegrity inserted
  commit
  pure id

def getTransaction (id : Uuid) : Repo (Option Transaction) := do
  match ← execute (.getTransaction id) with
  | none => pure none
  | some r =>
    if r.consumedAt.isSome then pure none
    else
      let now ← utcNow
      pure (if r.expiresAt ≤ now then none else some r)

def armConsent (id : Uuid) : Repo (Option Secret) := do
  let nonce ← generate
  let changed ← execute (.armConsent id (hashToken .nonce nonce))
  commit
  pure (if changed then some nonce else none)

def approveTransaction (id : Uuid) (nonce : Option Secret) (userId : String) :
    Repo (Option Secret) :=
  match nonce with
  | none => pure none
  | some nonce => do
    let now ← utcNow
    let changed ← execute (.approveTransaction id (hashToken .nonce nonce) now)
    commit
    if changed then
      match ← getTransaction id with
      | none => pure none
      | some txn =>
        let grantId ← createGrant txn.clientId userId txn.scopes txn.resource "" none
        let code ← generate
        let recorded ← execute (.recordCode id grantId (hashToken .code code) (now + codeTtl))
        orIntegrity recorded
        commit
        pure (some code)
    else pure none

def denyTransaction (id : Uuid) (nonce : Option Secret) : Repo Bool :=
  match nonce with
  | none => pure false
  | some nonce => do
    let now ← utcNow
    let changed ← execute (.denyTransaction id (hashToken .nonce nonce) now)
    commit
    pure changed

def purgeExpiredTransactions : Repo Nat := do
  let now ← utcNow
  let count ← execute (.purgeExpiredTransactions now)
  commit
  pure count

end Transactions

section Redemption

-- The one conditional update that spends a credential, and the read-back of its marker.
def consume (c : Credential) : Repo Bool := do
  let marker ← generate
  let now ← utcNow
  let changed ← execute (.consume c now marker)
  commit
  if changed then
    let row ← execute (.consumedBy c)
    pure (row == some (some marker))
  else pure false

def redeemCode (code : Secret) : Repo (Option Transaction) := do
  let codeHash := hashToken .code code
  let now ← utcNow
  let spent ← consume (.code codeHash)
  match ← execute (.transactionByCode codeHash) with
  | none => pure none
  | some r =>
    if spent then
      pure (if r.grantId.isNone ∨ r.expiresAt ≤ now then none else some r)
    else if r.consumedAt.isNone then pure none
    else
      match r.grantId with
      | some grantId => do
        let _ ← revokeGrant grantId
        .raise .replay
      | none => .raise .replay

def issueTokens (grantId : Uuid) : Repo IssuedTokens := do
  match ← execute (.getGrant grantId) with
  | none => .raise .unknownGrant
  | some g =>
    let now ← utcNow
    let accessExpiry := min (now + accessTtl) g.expiresAt
    let access ← generate
    let refresh ← generate
    let inserted ← execute (.insertToken
      { tokenHash := hashToken .access access
        grantId := grantId
        kind := .access
        createdAt := now
        expiresAt := accessExpiry })
    orIntegrity inserted
    let inserted ← execute (.insertToken
      { tokenHash := hashToken .refresh refresh
        grantId := grantId
        kind := .refresh
        createdAt := now
        expiresAt := g.expiresAt })
    orIntegrity inserted
    commit
    pure ⟨access, refresh, accessExpiry - now, g.scopes⟩

def redeemRefreshToken (token : Secret) (requestedScopes : Option Scopes) : Repo (Option Grant) := do
  let tokenHash := hashToken .refresh token
  let now ← utcNow
  match ← execute (.refreshToken tokenHash) with
  | none => pure none
  | some (r, g, c) =>
    if r.consumedAt.isSome then
      let _ ← revokeGrant g.id
      .raise .replay
    else if r.expiresAt ≤ now ∨ g.expiresAt ≤ now then pure none
    else if g.revokedAt.isSome ∨ c.disabledAt.isSome then pure none
    else if requestedScopes.any fun scopes => !decide (scopes ⊆ g.scopes) then
      .raise .scopeTooWide
    else
      let spent ← consume (.refresh tokenHash)
      if spent then pure (some g)
      else
        let after ← execute (.consumedAt (.refresh tokenHash))
        if after = some none then pure none
        else
          let _ ← revokeGrant g.id
          .raise .replay

def revokeByToken (token : Secret) (clientId : String) : Repo Bool := do
  match ← execute (.grantByToken (hashToken .access token) (hashToken .refresh token)) with
  | none => pure false
  | some g => if g.clientId ≠ clientId then pure false else revokeGrant g.id

end Redemption

def Call.body : (f : Call) → Repo f.Result
  | .disableClient id => OAuth.disableClient id
  | .allowCimdClient url name => OAuth.allowCimdClient url name
  | .createAdminClient name redirectUris => OAuth.createAdminClient name redirectUris
  | .cacheClientDocument id name redirectUris => OAuth.cacheClientDocument id name redirectUris
  | .createTransaction clientId redirectUri codeChallenge scopes resource state =>
    OAuth.createTransaction clientId redirectUri codeChallenge scopes resource state
  | .armConsent id => OAuth.armConsent id
  | .approveTransaction id nonce userId => OAuth.approveTransaction id nonce userId
  | .denyTransaction id nonce => OAuth.denyTransaction id nonce
  | .redeemCode code => OAuth.redeemCode code
  | .purgeExpiredTransactions => OAuth.purgeExpiredTransactions
  | .issueTokens grantId => OAuth.issueTokens grantId
  | .redeemRefreshToken token requestedScopes => OAuth.redeemRefreshToken token requestedScopes
  | .revokeGrant id => OAuth.revokeGrant id
  | .revokeByToken token clientId => OAuth.revokeByToken token clientId
  | .createManualGrant label scopes resource userId expiresAt =>
    OAuth.createManualGrant label scopes resource userId expiresAt
  | .verifyAccessToken token resource => OAuth.verifyAccessToken token resource

def Call.invoke (f : Call) : Repo f.Result :=
  f.body.attempt.bind fun r => .call (.returned f r) fun _ => .ofExcept r

end TranscodeForge.OAuth
