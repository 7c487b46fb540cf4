import TranscodeForge.Database.Connection
import TranscodeForge.Interaction.History
import TranscodeForge.OAuth.Repo

namespace TranscodeForge.OAuth

open Interaction Database

structure Settings where
  mcpResourceUrl : String
  -- PKCE: the challenge is the hash of the verifier.
  verifierMatches : String → String → Bool

inductive Response where
  | errorJson (error description : String) (status : Nat)
  | consentError (message : String)
  | consentPage (txn : Transaction) (nonce : Secret) (client : Client)
  | redirect (uri : String) (state : Option String) (code : Option Secret)
      (error : Option (String × String))
  | tokens (issued : IssuedTokens)
deriving DecidableEq

def expiredMessage : String :=
  "This sign-in request has expired or was already answered. Start again from the client."

def isVerifierChar (c : Char) : Bool := c.isAlphanum || ['-', '.', '_', '~'].contains c

-- The pattern's final `$` lets one newline pass.
def verifierWellFormed (verifier : String) : Bool :=
  let cs := verifier.toList
  let body := if cs.getLast? = some '\n' then cs.dropLast else cs
  body.all isVerifierChar && 43 ≤ body.length && body.length ≤ 128

def checkResource (settings : Settings) (value : Option String) : Option String :=
  match value with
  | none => some "resource is required"
  | some value =>
    if value = "" then some "resource is required"
    else if canonical value ≠ settings.mcpResourceUrl then
      some "resource does not name this server"
    else none

def consentPage (id : Uuid) : Repo Response := do
  match ← getTransaction id with
  | none => pure (.consentError expiredMessage)
  | some txn =>
    match ← (Call.armConsent id).invoke with
    | none => pure (.consentError expiredMessage)
    | some nonce =>
      match ← execute (.getClient txn.clientId) with
      | none => pure (.consentError "The client behind this request is no longer allowed.")
      | some client =>
        pure (if client.disabledAt.isSome then
          .consentError "The client behind this request is no longer allowed."
        else .consentPage txn nonce client)

-- `adminId` is what the users table answers.
def consentDecision (id : Uuid) (nonce : Option Secret) (allow : Bool) (adminId : Option String) :
    Repo Response := do
  match ← getTransaction id with
  | none => pure (.consentError expiredMessage)
  | some txn =>
    if allow then
      match adminId with
      | none => pure (.consentError expiredMessage)
      | some userId =>
        match ← (Call.approveTransaction id nonce userId).invoke with
        | none => pure (.consentError expiredMessage)
        | some code => pure (.redirect txn.redirectUri txn.state (some code) none)
    else
      if ← (Call.denyTransaction id nonce).invoke then
        pure (.redirect txn.redirectUri txn.state none
          (some ("access_denied", "the administrator declined")))
      else pure (.consentError expiredMessage)

structure CodeRequest where
  code : Secret
  codeVerifier : String
  redirectUri : Option String
  resource : Option String

structure RefreshRequest where
  refreshToken : Secret
  scope : Option Scopes
  resource : Option String

-- A function's error that the endpoint answers; any other fails the request.
def answering {α : Type} (p : Repo α) (handler : Failure → Option Response)
    (k : α → Repo Response) : Repo Response :=
  p.attempt.bind fun
    | .ok a => k a
    | .error e =>
      match handler e with
      | some response => .ret response
      | none => .raise e

def exchangeCode (settings : Settings) (client : Client) (req : CodeRequest) : Repo Response :=
  match checkResource settings req.resource with
  | some problem => pure (.errorJson "invalid_target" problem 400)
  | none =>
    if !verifierWellFormed req.codeVerifier then
      pure (.errorJson "invalid_request" "code_verifier is malformed" 400)
    else
      answering (Call.redeemCode req.code).invoke
        (fun
          | .replay => some (.errorJson "invalid_grant" "authorization code was already used" 400)
          | _ => none)
        fun
        | none => pure (.errorJson "invalid_grant" "authorization code is unknown or expired" 400)
        | some txn =>
          if txn.clientId ≠ client.id then
            pure (.errorJson "invalid_grant" "authorization code belongs to another client" 400)
          else if req.redirectUri.any (· ≠ txn.redirectUri) then
            pure (.errorJson "invalid_grant" "redirect_uri differs from the authorization request"
              400)
          else if !settings.verifierMatches req.codeVerifier txn.codeChallenge then
            pure (.errorJson "invalid_grant" "code_verifier does not match" 400)
          else
            match txn.grantId with
            | none => .raise .unknownGrant
            | some grantId => (Call.issueTokens grantId).invoke.bind fun issued =>
              pure (.tokens issued)

def refresh (settings : Settings) (client : Client) (req : RefreshRequest) : Repo Response :=
  let problem := req.resource.bind fun value => checkResource settings (some value)
  match problem with
  | some problem => pure (.errorJson "invalid_target" problem 400)
  | none =>
    answering (Call.redeemRefreshToken req.refreshToken req.scope).invoke
      (fun
        | .replay =>
          some (.errorJson "invalid_grant" "refresh token was already used. Grant revoked" 400)
        | .scopeTooWide => some (.errorJson "invalid_scope" "scope is wider than the grant" 400)
        | _ => none)
      fun
      | none =>
        pure (.errorJson "invalid_grant" "refresh token is unknown, expired or revoked" 400)
      | some grant =>
        if grant.clientId ≠ client.id then
          pure (.errorJson "invalid_grant" "refresh token is unknown, expired or revoked" 400)
        else (Call.issueTokens grant.id).invoke.bind fun issued => pure (.tokens issued)

inductive TokenRequest where
  | authorizationCode (req : CodeRequest)
  | refreshToken (req : RefreshRequest)

def token (settings : Settings) (clientId : String) (req : TokenRequest) : Repo Response := do
  let client ← if clientId = "" then pure none else execute (.getClient clientId)
  match client with
  | none => pure (.errorJson "invalid_client" "unknown client" 401)
  | some client =>
    if client.disabledAt.isSome then pure (.errorJson "invalid_client" "unknown client" 401)
    else
      match req with
      | .authorizationCode req => exchangeCode settings client req
      | .refreshToken req => refresh settings client req

inductive Request where
  | call (f : Call)
  | consentPage (id : Uuid)
  | consentDecision (id : Uuid) (nonce : Option Secret) (allow : Bool) (adminId : Option String)
  | token (clientId : String) (req : TokenRequest)

def Request.body (settings : Settings) : Request → Repo Unit
  | .call f => f.invoke.bind fun _ => .ret ()
  | .consentPage id => (OAuth.consentPage id).bind fun _ => .ret ()
  | .consentDecision id nonce allow adminId =>
    (OAuth.consentDecision id nonce allow adminId).bind fun _ => .ret ()
  | .token clientId req => (OAuth.token settings clientId req).bind fun _ => .ret ()

-- A property of programs that the endpoints have when the calls they make have it.
structure Composes (C : (α : Type) → Repo α → Prop) : Prop where
  ret : ∀ {α : Type} (a : α), C α (.ret a)
  raise : ∀ {α : Type} (e : Failure), C α (.raise e)
  bind : ∀ {α β : Type} {p : Repo α} {f : α → Repo β}, C α p → (∀ a, C β (f a)) → C β (p.bind f)
  attempt : ∀ {α : Type} {p : Repo α}, C α p → C (Except Failure α) p.attempt
  getTransaction : ∀ id, C _ (getTransaction id)
  getClient : ∀ id, C _ (execute (.getClient id))
  invoke : ∀ f : Call, C _ f.invoke

namespace Composes

variable {C : (α : Type) → Repo α → Prop} (h : Composes C)

include h

theorem consentPage (id : Uuid) : C _ (consentPage id) := by
  refine h.bind (h.getTransaction id) fun txn => ?_
  cases txn with
  | none => exact h.ret _
  | some txn =>
    refine h.bind (h.invoke (.armConsent id)) fun nonce => ?_
    cases nonce with
    | none => exact h.ret _
    | some nonce =>
      refine h.bind (h.getClient _) fun client => ?_
      cases client <;> exact h.ret _

theorem consentDecision (id : Uuid) (nonce : Option Secret) (allow : Bool)
    (adminId : Option String) : C _ (consentDecision id nonce allow adminId) := by
  refine h.bind (h.getTransaction id) fun txn => ?_
  cases txn with
  | none => exact h.ret _
  | some txn =>
    cases allow with
    | true =>
      cases adminId with
      | none => exact h.ret _
      | some userId =>
        refine h.bind (h.invoke (.approveTransaction id nonce userId)) fun code => ?_
        cases code <;> exact h.ret _
    | false =>
      refine h.bind (h.invoke (.denyTransaction id nonce)) fun denied => ?_
      cases denied <;> exact h.ret _

theorem answering {α : Type} {p : Repo α} {handler : Failure → Option Response}
    {k : α → Repo Response} (hp : C _ p) (hk : ∀ a, C _ (k a)) : C _ (answering p handler k) := by
  refine h.bind (h.attempt hp) fun r => ?_
  cases r with
  | ok a => exact hk a
  | error e =>
    dsimp only
    split
    · exact h.ret _
    · exact h.raise _

theorem issued (grantId : Uuid) :
    C _ ((Call.issueTokens grantId).invoke.bind fun issued => .ret (Response.tokens issued)) :=
  h.bind (h.invoke _) fun _ => h.ret _

theorem exchangeCode (settings : Settings) (client : Client) (req : CodeRequest) :
    C _ (exchangeCode settings client req) := by
  rw [OAuth.exchangeCode]
  split
  · exact h.ret _
  · split
    · exact h.ret _
    · refine h.answering (h.invoke _) fun txn => ?_
      cases txn with
      | none => exact h.ret _
      | some txn =>
        dsimp only
        split
        · exact h.ret _
        · split
          · exact h.ret _
          · split
            · exact h.ret _
            · split
              · exact h.raise _
              · exact h.issued _

theorem refresh (settings : Settings) (client : Client) (req : RefreshRequest) :
    C _ (refresh settings client req) := by
  rw [OAuth.refresh]
  split
  · exact h.ret _
  · refine h.answering (h.invoke _) fun grant => ?_
    cases grant with
    | none => exact h.ret _
    | some grant =>
      dsimp only
      split
      · exact h.ret _
      · exact h.issued _

theorem token (settings : Settings) (clientId : String) (req : TokenRequest) :
    C _ (token settings clientId req) := by
  have hanswer (client : Option Client) : C _ (match client with
      | none => .ret (.errorJson "invalid_client" "unknown client" 401)
      | some client =>
        if client.disabledAt.isSome then .ret (.errorJson "invalid_client" "unknown client" 401)
        else
          match req with
          | .authorizationCode req => OAuth.exchangeCode settings client req
          | .refreshToken req => OAuth.refresh settings client req) := by
    cases client with
    | none => exact h.ret _
    | some client =>
      dsimp only
      split
      · exact h.ret _
      · cases req with
        | authorizationCode req => exact h.exchangeCode settings client req
        | refreshToken req => exact h.refresh settings client req
  rw [OAuth.token]
  split
  · exact hanswer none
  · exact h.bind (h.getClient clientId) hanswer

theorem request (settings : Settings) (r : Request) : C _ (r.body settings) := by
  cases r with
  | call f => exact h.bind (h.invoke f) fun _ => h.ret _
  | consentPage id => exact h.bind (h.consentPage id) fun _ => h.ret _
  | consentDecision id nonce allow adminId =>
    exact h.bind (h.consentDecision id nonce allow adminId) fun _ => h.ret _
  | token clientId req => exact h.bind (h.token settings clientId req) fun _ => h.ret _

end Composes

section Engines

-- Where the statements run: what they see, and what a commit and a rollback do.
structure Engine (D : Type) where
  view : D → Store
  execute : Nat → Statement → D → D
  commit : D → D
  rollback : D → D

-- Every statement is durable at once.
def durable : Engine Store where
  view s := s
  execute _ q s := q.next s
  commit s := s
  rollback s := s

def dialect : Dialect Store Statement Statement.Answer where
  exec s q := q.exec s
  writes q := !q.selects
  reads s q h := q.next_of_selects (by simpa using h) s

-- One SQLite connection for every request.
def shared : Engine (Connection Store Statement) where
  view c := c.working dialect
  execute t q c := c.executed dialect t none q
  commit c := c.committed dialect
  rollback c := c.rolledBack

structure World (D : Type) where
  db : D
  now : Time
  drawn : Secret

-- What happens without any request of the store: time passes, and the other users of the
-- connection commit and roll back.
inductive Disturbance where
  | clock (seconds : Nat)
  | commit
  | rollback

variable {D : Type}

def Engine.exec (E : Engine D) (t : Nat) (w : World D) : (op : Op) → World D × op.Answer
  | .execute q => ({ w with db := E.execute t q w.db }, q.answer (E.view w.db))
  | .commit => ({ w with db := E.commit w.db }, ())
  | .now => (w, w.now)
  | .generate => ({ w with drawn := w.drawn + 1 }, w.drawn)
  | .returned _ _ => (w, ())

def Engine.disturb (E : Engine D) (w : World D) : Disturbance → World D
  | .clock seconds => { w with now := w.now + seconds }
  | .commit => { w with db := E.commit w.db }
  | .rollback => { w with db := E.rollback w.db }

def oauth (E : Engine D) (settings : Settings) :
    System Nat Request Disturbance Op Op.Answer (World D) Unit Failure Unit where
  handler := { exec := fun t op _ w => E.exec t w op }
  body _ r := r.body settings
  start _ _ w := some w
  disturb k w := E.disturb w k
  kills _ _ := false

end Engines

section Plays

variable {D : Type} {E : Engine D}

abbrev OAuthCall (D : Type) := ThreadCall Nat Request Op (World D) Unit

abbrev OAuthConfig (D : Type) := Config Nat Request Op Op.Answer (World D) Failure Unit

abbrev OAuthMove := Move Nat Request Disturbance Unit

def sampleSettings : Settings where
  mcpResourceUrl := "mcp"
  verifierMatches _ _ := true

def sampleWorld (db : D) : World D := { db := db, now := 1000, drawn := 0 }

def calls (t n : Nat) : List OAuthMove := List.replicate n (.call t ())

-- A request that runs to its end, undisturbed, in so many calls.
def whole (t : Nat) (r : Request) (n : Nat) : List OAuthMove := .start t r :: calls t n

-- A client is allowed, starts a transaction, and the page arms its nonce.
def sampleStart : List OAuthMove :=
  whole 0 (.call (.allowCimdClient "app" "App")) 4 ++
    whole 1 (.call (.createTransaction "app" "app/back" "challenge" {"jobs:read"} "mcp" none)) 5 ++
    whole 2 (.consentPage 0) 7

-- The approval that gives out the code 3.
def sampleApproval : List OAuthMove := whole 3 (.consentDecision 0 (some 1) true (some "admin")) 15

def play (E : Engine D) (db : D) (moves : List OAuthMove) :
    Option (List (OAuthCall D) × OAuthConfig D) :=
  (Config.initial (sampleWorld db) : OAuthConfig D).playAll (oauth E sampleSettings) moves

theorem play_run {db : D} {moves : List OAuthMove} {p : List (OAuthCall D) × OAuthConfig D}
    (h : play E db moves = some p) :
    Run (oauth E sampleSettings) (.initial (sampleWorld db)) p.1 p.2 :=
  Run.playAll .refl h

end Plays

end TranscodeForge.OAuth
