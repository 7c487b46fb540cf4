import Mathlib.Data.Finset.Basic
import TranscodeForge.Relational.Table

namespace TranscodeForge.OAuth

open Relational

abbrev Uuid := Nat

-- Seconds since the epoch.
abbrev Time := Nat

-- What `generate` draws; a presented string that is empty is `none`.
abbrev Secret := Nat

abbrev Scopes := Finset String

def scopeDescriptions : List (String × String) :=
  [("catalog:read", "Read the libraries and the media catalog"),
    ("jobs:read", "Read jobs, the queue state and statistics"),
    ("jobs:write", "Queue files and cancel waiting jobs")]

def knownScopes : Scopes := (scopeDescriptions.map Prod.fst).toFinset

def manualClientId : String := "manual"

def accessTtl : Nat := 3600

def grantTtl : Nat := 30 * 86400

def manualGrantTtl : Nat := 90 * 86400

def transactionTtl : Nat := 600

def codeTtl : Nat := 600

inductive TokenKind where
  | access
  | refresh
  | code
  | nonce
deriving DecidableEq

-- The digest of a secret under its kind; no two secrets share one.
structure Digest where
  kind : TokenKind
  secret : Secret
deriving DecidableEq

def hashToken (kind : TokenKind) (token : Secret) : Digest := ⟨kind, token⟩

inductive ClientKind where
  | admin
  | cimd
deriving DecidableEq

structure Client where
  id : String
  kind : ClientKind
  name : String
  redirectUris : List String := []
  metadataUrl : Option String := none
  metadataFetchedAt : Option Time := none
  createdAt : Time
  disabledAt : Option Time := none
deriving DecidableEq

structure Grant where
  id : Uuid
  clientId : String
  userId : String
  scopes : Scopes
  resource : String
  label : String := ""
  createdAt : Time
  expiresAt : Time
  revokedAt : Option Time := none
  lastUsedAt : Option Time := none
deriving DecidableEq

structure Token where
  tokenHash : Digest
  grantId : Uuid
  kind : TokenKind
  createdAt : Time
  expiresAt : Time
  consumedAt : Option Time := none
  consumedBy : Option Secret := none
deriving DecidableEq

structure Transaction where
  id : Uuid
  clientId : String
  redirectUri : String
  codeChallenge : String
  scopes : Scopes
  resource : String
  state : Option String
  nonceHash : Option Digest := none
  createdAt : Time
  expiresAt : Time
  approvedAt : Option Time := none
  grantId : Option Uuid := none
  codeHash : Option Digest := none
  consumedAt : Option Time := none
  consumedBy : Option Secret := none
deriving DecidableEq

-- What `verify_access_token` answers.
structure Principal where
  grantId : Uuid
  clientId : String
  userId : String
  scopes : Scopes
  resource : String
  expiresAt : Time
deriving DecidableEq

-- A credential that is spent, by the column that names it.
inductive Credential where
  | code (codeHash : Digest)
  | refresh (tokenHash : Digest)
deriving DecidableEq

-- The rows that the INSERTs leave: columns they do not name are NULL.
def Grant.fresh (g : Grant) : Grant := { g with revokedAt := none, lastUsedAt := none }

def Token.fresh (r : Token) : Token := { r with consumedAt := none, consumedBy := none }

def Transaction.fresh (r : Transaction) : Transaction :=
  { r with
    nonceHash := none
    approvedAt := none
    grantId := none
    codeHash := none
    consumedAt := none
    consumedBy := none }

@[simp] theorem Grant.fresh_id (g : Grant) : g.fresh.id = g.id := rfl

@[simp] theorem Token.fresh_tokenHash (r : Token) : r.fresh.tokenHash = r.tokenHash := rfl

@[simp] theorem Transaction.fresh_id (r : Transaction) : r.fresh.id = r.id := rfl

def Grant.revoked (g : Grant) (now : Time) : Grant := { g with revokedAt := some now }

def Grant.used (g : Grant) (now : Time) : Grant := { g with lastUsedAt := some now }

def Token.consumed (r : Token) (now : Time) (marker : Secret) : Token :=
  { r with consumedAt := some now, consumedBy := some marker }

namespace Transaction

variable (r : Transaction)

-- Open for a decision: not approved, not denied, its code not redeemed.
def undecided : Bool := r.approvedAt.isNone && r.consumedAt.isNone

def armed (nonceHash : Digest) : Transaction := { r with nonceHash := some nonceHash }

def approved (now : Time) : Transaction := { r with approvedAt := some now }

def denied (now : Time) : Transaction := { r with consumedAt := some now }

def coded (grantId : Uuid) (codeHash : Digest) (expiresAt : Time) : Transaction :=
  { r with grantId := some grantId, codeHash := some codeHash, expiresAt := expiresAt }

def consumed (now : Time) (marker : Secret) : Transaction :=
  { r with consumedAt := some now, consumedBy := some marker }

end Transaction

-- `code_hash` is unique among the transactions that have one.
def UniqueCodes (T : Table Uuid Transaction Transaction.id) : Prop :=
  ∀ r ∈ T, ∀ r' ∈ T, ∀ h, r.codeHash = some h → r'.codeHash = some h → r.id = r'.id

structure Store where
  clients : Table String Client Client.id
  grants : Table Uuid Grant Grant.id
  tokens : Table Digest Token Token.tokenHash
  transactions : Table Uuid Transaction Transaction.id
  codes : UniqueCodes transactions

def Store.empty : Store := ⟨.empty, .empty, .empty, .empty, fun _ hr => absurd hr (by simp)⟩

end TranscodeForge.OAuth
