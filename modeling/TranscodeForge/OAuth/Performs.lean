import TranscodeForge.OAuth.Authz

namespace TranscodeForge.OAuth

open Interaction

-- The statements that give out authority: a grant, a code for it, a token under it.
def Statement.confers : Statement → Bool
  | .insertGrant _ | .recordCode _ _ _ _ | .insertToken _ => true
  | _ => false

def Call.issues : Call → Bool
  | .approveTransaction _ _ _ | .createManualGrant _ _ _ _ _ | .issueTokens _ => true
  | _ => false

-- What a function asks; only its caller records its return.
def Asks (issues : Bool) : Op → Prop
  | .execute q => q.confers = true → issues = true
  | .returned _ _ => False
  | _ => True

section Asks

variable {issues : Bool} {α : Type}

theorem asks_execute {q : Statement} {k : q.Answer → Repo α} (hq : q.confers = false)
    (hk : ∀ r, (k r).Calls (Asks issues)) :
    (Program.call (.execute q) k : Repo α).Calls (Asks issues) := by
  refine ⟨fun h => ?_, hk⟩
  rw [hq] at h
  cases h

theorem asks_confers {q : Statement} {k : q.Answer → Repo α}
    (hk : ∀ r, (k r).Calls (Asks true)) :
    (Program.call (.execute q) k : Repo α).Calls (Asks true) :=
  ⟨fun _ => rfl, hk⟩

theorem asks_orIntegrity (inserted : Bool) (k : Unit → Repo α) (hk : (k ()).Calls (Asks issues)) :
    ((orIntegrity inserted).bind k).Calls (Asks issues) := by
  cases inserted with
  | true => exact hk
  | false => trivial

theorem ensureClient_asks {id : String} {kind : ClientKind} {name : String}
    {redirectUris : List String} :
    (ensureClient id kind name redirectUris).Calls (Asks issues) :=
  ⟨trivial, fun _ => asks_execute rfl fun _ => ⟨trivial, fun _ => trivial⟩⟩

theorem createGrant_asks {clientId userId : String} {scopes : Scopes} {resource label : String}
    {expiresAt : Option Time} :
    (createGrant clientId userId scopes resource label expiresAt).Calls (Asks true) :=
  (Program.Calls.ofExcept _).bind fun _ => ⟨trivial, fun _ => ⟨trivial, fun _ =>
    asks_confers fun inserted => asks_orIntegrity inserted _ ⟨trivial, fun _ => trivial⟩⟩⟩

theorem revokeGrant_asks (grantId : Uuid) : (revokeGrant grantId).Calls (Asks issues) :=
  ⟨trivial, fun _ => asks_execute rfl fun _ => ⟨trivial, fun _ => trivial⟩⟩

theorem issueAccessToken_asks {grantId : Uuid} {ttl : Int} :
    (issueAccessToken grantId ttl).Calls (Asks true) :=
  ⟨trivial, fun _ => ⟨trivial, fun _ => asks_confers fun inserted =>
    asks_orIntegrity inserted _ ⟨trivial, fun _ => trivial⟩⟩⟩

theorem createManualGrant_asks {label : String} {scopes : Scopes} {resource userId : String}
    {expiresAt : Option Time} :
    (createManualGrant label scopes resource userId expiresAt).Calls (Asks true) :=
  ensureClient_asks.bind fun _ => ⟨trivial, fun _ => createGrant_asks.bind fun _ =>
    ⟨trivial, fun _ => issueAccessToken_asks.bind fun _ => trivial⟩⟩

theorem createTransaction_asks {clientId redirectUri codeChallenge : String} {scopes : Scopes}
    {resource : String} {state : Option String} :
    (createTransaction clientId redirectUri codeChallenge scopes resource state).Calls
      (Asks issues) :=
  (Program.Calls.ofExcept _).bind fun _ => ⟨trivial, fun _ => ⟨trivial, fun _ =>
    asks_execute rfl fun inserted => asks_orIntegrity inserted _ ⟨trivial, fun _ => trivial⟩⟩⟩

theorem getTransaction_asks (id : Uuid) : (getTransaction id).Calls (Asks issues) := by
  refine asks_execute rfl fun row => ?_
  cases row with
  | none => trivial
  | some r =>
    simp only [Program.ret_bind]
    split
    · trivial
    · exact ⟨trivial, fun _ => trivial⟩

theorem approveTransaction_asks {id : Uuid} {nonce : Option Secret} {userId : String} :
    (approveTransaction id nonce userId).Calls (Asks true) := by
  cases nonce with
  | none => trivial
  | some nonce =>
    refine ⟨trivial, fun now => asks_execute rfl fun changed => ⟨trivial, fun _ => ?_⟩⟩
    change Program.Calls _ (if changed then _ else _)
    cases changed with
    | false => trivial
    | true =>
      refine (getTransaction_asks id).bind fun txn => ?_
      cases txn with
      | none => trivial
      | some txn =>
        exact createGrant_asks.bind fun _ => ⟨trivial, fun _ => asks_confers fun recorded =>
          asks_orIntegrity recorded _ ⟨trivial, fun _ => trivial⟩⟩

theorem denyTransaction_asks {id : Uuid} {nonce : Option Secret} :
    (denyTransaction id nonce).Calls (Asks issues) := by
  cases nonce with
  | none => trivial
  | some nonce => exact ⟨trivial, fun _ => asks_execute rfl fun _ => ⟨trivial, fun _ => trivial⟩⟩

theorem consume_asks (c : Credential) : (consume c).Calls (Asks issues) := by
  refine ⟨trivial, fun _ => ⟨trivial, fun _ => asks_execute rfl fun changed =>
    ⟨trivial, fun _ => ?_⟩⟩⟩
  change Program.Calls _ (if changed then _ else _)
  cases changed with
  | false => trivial
  | true => exact asks_execute rfl fun _ => trivial

theorem redeemCode_asks (code : Secret) : (redeemCode code).Calls (Asks issues) := by
  refine ⟨trivial, fun _ => (consume_asks _).bind fun spent => asks_execute rfl fun row => ?_⟩
  cases row with
  | none => trivial
  | some r =>
    change Program.Calls _ (if spent then _ else _)
    split
    · trivial
    · split
      · trivial
      · split
        · exact (revokeGrant_asks _).bind fun _ => trivial
        · trivial

theorem issueTokens_asks (grantId : Uuid) : (issueTokens grantId).Calls (Asks true) := by
  refine asks_execute rfl fun row => ?_
  cases row with
  | none => trivial
  | some g =>
    exact ⟨trivial, fun _ => ⟨trivial, fun _ => ⟨trivial, fun _ => asks_confers fun inserted =>
      asks_orIntegrity inserted _ (asks_confers fun inserted =>
        asks_orIntegrity inserted _ ⟨trivial, fun _ => trivial⟩)⟩⟩⟩

theorem redeemRefreshToken_asks {token : Secret} {requestedScopes : Option Scopes} :
    (redeemRefreshToken token requestedScopes).Calls (Asks issues) := by
  refine ⟨trivial, fun _ => asks_execute rfl fun row => ?_⟩
  cases row with
  | none => trivial
  | some row =>
    obtain ⟨r, g, c⟩ := row
    simp only [Program.ret_bind]
    split
    · exact (revokeGrant_asks _).bind fun _ => trivial
    · split
      · trivial
      · split
        · trivial
        · split
          · trivial
          · refine (consume_asks _).bind fun spent => ?_
            split
            · trivial
            · refine asks_execute rfl fun after => ?_
              simp only [Program.ret_bind]
              split
              · trivial
              · exact (revokeGrant_asks _).bind fun _ => trivial

theorem revokeByToken_asks {token : Secret} {clientId : String} :
    (revokeByToken token clientId).Calls (Asks issues) := by
  refine asks_execute rfl fun row => ?_
  cases row with
  | none => trivial
  | some g =>
    simp only [Program.ret_bind]
    split
    · trivial
    · exact revokeGrant_asks _

theorem verifyAccessToken_asks {token : Option Secret} {resource : String} :
    (verifyAccessToken token resource).Calls (Asks issues) := by
  cases token with
  | none => trivial
  | some token =>
    refine asks_execute rfl fun row => ?_
    cases row with
    | none => trivial
    | some row =>
      obtain ⟨r, g, c⟩ := row
      refine ⟨trivial, fun now => ?_⟩
      simp only [Program.ret_bind]
      split
      · trivial
      · split
        · trivial
        · split
          · trivial
          · exact asks_execute rfl fun _ => ⟨trivial, fun _ => trivial⟩

theorem Call.body_asks (f : Call) : f.body.Calls (Asks f.issues) := by
  cases f with
  | createAdminClient => exact ⟨trivial, fun _ => ensureClient_asks.bind fun _ => trivial⟩
  | createTransaction => exact createTransaction_asks
  | armConsent id =>
    exact ⟨trivial, fun _ => asks_execute rfl fun _ => ⟨trivial, fun _ => trivial⟩⟩
  | approveTransaction => exact approveTransaction_asks
  | denyTransaction => exact denyTransaction_asks
  | redeemCode code => exact redeemCode_asks code
  | issueTokens grantId => exact issueTokens_asks grantId
  | redeemRefreshToken => exact redeemRefreshToken_asks
  | revokeGrant id => exact revokeGrant_asks id
  | revokeByToken => exact revokeByToken_asks
  | createManualGrant => exact createManualGrant_asks
  | verifyAccessToken => exact verifyAccessToken_asks
  | _ => exact ⟨trivial, fun _ => asks_execute rfl fun _ => ⟨trivial, fun _ => trivial⟩⟩

end Asks

section Audits

variable {D : Type} {E : Engine D} {settings : Settings} {t : Nat} {r : Request}
variable {admits checks : Nat → Request → Op → Unit → Traced Nat Op (World D) Unit → Prop}
variable {x : Traced Nat Op (World D) Unit}

-- A call is audited by its body, and by its return after whatever the others did meanwhile.
theorem audit_invoke {f : Call} {Q : Except Failure f.Result → Traced Nat Op (World D) Unit → Prop}
    (hbody : f.body.wp (oauth E settings).traced t ((oauth E settings).audit admits checks t r) Q x)
    (hstable : ∀ o, (oauth E settings).Stable admits t (Q o))
    (hreturned : ∀ o i y, Q o y → checks t r (.returned f o) i y) :
    f.invoke.wp (oauth E settings).traced t ((oauth E settings).audit admits checks t r)
      (fun _ _ => True) x := by
  rw [Call.invoke, Program.wp_bind, Program.wp_attempt]
  refine Program.wp_mono hbody fun o y hy => ?_
  refine System.wp_audit (hstable o) hy fun i z hz _ => ⟨hreturned o i z hz, ?_⟩
  exact (Program.wp_ofExcept _ _ _).mpr trivial

theorem audit_asks {issues : Bool} {α : Type} {p : Repo α} (hp : p.Calls (Asks issues))
    (hasks : ∀ op i y, Asks issues op → checks t r op i y) :
    p.wp (oauth E settings).traced t ((oauth E settings).audit admits checks t r)
      (fun _ _ => True) x :=
  System.wp_audit_of_calls hp fun op i y hop _ => hasks op i y hop

-- A request is audited by the calls it makes.
theorem audit_request (hasks : ∀ op i y, Asks false op → checks t r op i y)
    (hinvoke : ∀ (f : Call) x, f.invoke.wp (oauth E settings).traced t
      ((oauth E settings).audit admits checks t r) (fun _ _ => True) x) (r' : Request) :
    (r'.body settings).wp (oauth E settings).traced t
      ((oauth E settings).audit admits checks t r) (fun _ _ => True) x := by
  have hcomposes : Composes fun α p => ∀ x, p.wp (oauth E settings).traced t
      ((oauth E settings).audit admits checks t r) (fun (_ : Except Failure α) _ => True) x :=
    { ret := fun _ _ => trivial
      raise := fun _ _ => trivial
      bind := fun hp hf x => Program.wp_seq (hp x) (fun a y _ => hf a y) fun _ _ _ => trivial
      attempt := fun hp x => (Program.wp_attempt _ _ _).mpr (hp x)
      getTransaction := fun id x => audit_asks (getTransaction_asks id) hasks
      getClient := fun id x => audit_asks (asks_execute rfl fun _ => trivial) hasks
      invoke := hinvoke }
  exact hcomposes.request settings r' x

end Audits

end TranscodeForge.OAuth
