import TranscodeForge.Interaction.Supply
import TranscodeForge.OAuth.Authz

namespace TranscodeForge.OAuth

open Interaction

-- The drawn name a statement stores.
def Statement.spends : Statement → Option Secret
  | .insertGrant g => some g.id
  | .insertToken r => some r.tokenHash.secret
  | .insertTransaction r => some r.id
  | .armConsent _ nonceHash => some nonceHash.secret
  | .recordCode _ _ codeHash _ => some codeHash.secret
  | .consume _ _ marker => some marker
  | _ => none

def Op.spends : Op → Option Secret
  | .execute q => q.spends
  | _ => none

def Op.draws : (op : Op) → op.Answer → Option Secret
  | .generate, n => some n
  | _, _ => none

section Frugal

abbrev Frugal {α : Type} (held : List Secret) (p : Repo α) : Prop :=
  p.Frugal Op.draws Op.spends held

variable {α : Type}

theorem frugal_of_calls {held : List Secret} {p : Repo α}
    (hp : p.Calls fun op => op.spends = none) : Frugal held p :=
  (Program.Calls.frugal hp).mono (List.nil_subset _)

theorem frugal_orIntegrity (inserted : Bool) (k : Unit → Repo α) (hk : Frugal [] (k ())) :
    Frugal [] ((orIntegrity inserted).bind k) := by
  cases inserted with
  | true => exact hk
  | false => trivial

theorem frugal_execute {q : Statement} {held : List Secret} {k : q.Answer → Repo α}
    (hq : ∀ n, q.spends = some n → n ∈ held) (hk : ∀ r, Frugal [] (k r)) :
    Frugal held (.call (.execute q) k) :=
  ⟨hq, fun r _ => (hk r).mono (List.nil_subset _)⟩

theorem frugal_generate {held : List Secret} {k : Secret → Repo α}
    (hk : ∀ n, n ∉ held → Frugal (n :: held) (k n)) : Frugal held (.call .generate k) := by
  refine ⟨fun n hn => (by cases hn), fun n hfresh => (hk n (hfresh n rfl)).mono ?_⟩
  simp [Op.draws, Op.spends]

theorem frugal_now {held : List Secret} {k : Time → Repo α} (hk : ∀ now, Frugal held (k now)) :
    Frugal held (.call .now k) := by
  refine ⟨fun n hn => (by cases hn), fun now _ => (hk now).mono ?_⟩
  simp [Op.draws, Op.spends]

theorem frugal_ensureClient {id : String} {kind : ClientKind} {name : String}
    {redirectUris : List String} : Frugal [] (ensureClient id kind name redirectUris) :=
  frugal_of_calls ⟨rfl, fun _ => ⟨rfl, fun _ => ⟨rfl, fun _ => trivial⟩⟩⟩

theorem frugal_createGrant {clientId userId : String} {scopes : Scopes} {resource label : String}
    {expiresAt : Option Time} :
    Frugal [] (createGrant clientId userId scopes resource label expiresAt) := by
  refine (Program.Frugal.ofExcept (validateScopes scopes)).bind fun scopes => frugal_now fun now =>
    frugal_generate fun n _ => frugal_execute (fun n' hn => ?_) fun inserted =>
      frugal_orIntegrity inserted _ (frugal_of_calls ⟨rfl, fun _ => trivial⟩)
  cases hn
  exact List.mem_singleton_self _

theorem frugal_revokeGrant (grantId : Uuid) : Frugal [] (revokeGrant grantId) :=
  frugal_of_calls ⟨rfl, fun _ => ⟨rfl, fun _ => ⟨rfl, fun _ => trivial⟩⟩⟩

theorem frugal_issueAccessToken {grantId : Uuid} {ttl : Int} :
    Frugal [] (issueAccessToken grantId ttl) := by
  refine frugal_generate fun n _ => frugal_now fun now => frugal_execute (fun n' hn => ?_)
    fun inserted => frugal_orIntegrity inserted _ (frugal_of_calls ⟨rfl, fun _ => trivial⟩)
  cases hn
  exact List.mem_singleton_self _

theorem frugal_createManualGrant {label : String} {scopes : Scopes} {resource userId : String}
    {expiresAt : Option Time} :
    Frugal [] (createManualGrant label scopes resource userId expiresAt) :=
  frugal_ensureClient.bind fun _ => frugal_now fun _ => frugal_createGrant.bind fun _ =>
    frugal_now fun _ => frugal_issueAccessToken.bind fun _ => trivial

theorem frugal_createTransaction {clientId redirectUri codeChallenge : String} {scopes : Scopes}
    {resource : String} {state : Option String} :
    Frugal [] (createTransaction clientId redirectUri codeChallenge scopes resource state) := by
  refine (Program.Frugal.ofExcept (validateScopes scopes)).bind fun scopes => frugal_now fun now =>
    frugal_generate fun n _ => frugal_execute (fun n' hn => ?_) fun inserted =>
      frugal_orIntegrity inserted _ (frugal_of_calls ⟨rfl, fun _ => trivial⟩)
  cases hn
  exact List.mem_singleton_self _

theorem frugal_getTransaction (id : Uuid) : Frugal [] (getTransaction id) := by
  refine frugal_of_calls ⟨rfl, fun r => ?_⟩
  cases r with
  | none => trivial
  | some r =>
    simp only [Program.ret_bind]
    split
    · trivial
    · exact ⟨rfl, fun _ => trivial⟩

theorem frugal_armConsent (id : Uuid) : Frugal [] (armConsent id) := by
  refine frugal_generate fun n _ => frugal_execute (fun n' hn => ?_) fun changed =>
    frugal_of_calls ⟨rfl, fun _ => trivial⟩
  cases hn
  exact List.mem_singleton_self _

theorem frugal_approveTransaction {id : Uuid} {nonce : Option Secret} {userId : String} :
    Frugal [] (approveTransaction id nonce userId) := by
  cases nonce with
  | none => trivial
  | some nonce =>
    refine frugal_now fun now => frugal_execute (fun n hn => (by cases hn)) fun changed => ?_
    refine ⟨fun n hn => (by cases hn), fun _ _ => ?_⟩
    change Frugal [] (if changed then _ else _)
    cases changed with
    | false => trivial
    | true =>
      refine (frugal_getTransaction id).bind fun txn => ?_
      cases txn with
      | none => trivial
      | some txn =>
        refine frugal_createGrant.bind fun grantId => frugal_generate fun n _ =>
          frugal_execute (fun n' hn => ?_) fun recorded => frugal_orIntegrity recorded _
            (frugal_of_calls ⟨rfl, fun _ => trivial⟩)
        cases hn
        exact List.mem_singleton_self _

theorem frugal_denyTransaction {id : Uuid} {nonce : Option Secret} :
    Frugal [] (denyTransaction id nonce) := by
  cases nonce with
  | none => trivial
  | some nonce =>
    exact frugal_of_calls ⟨rfl, fun _ => ⟨rfl, fun _ => ⟨rfl, fun _ => trivial⟩⟩⟩

theorem frugal_consume (c : Credential) : Frugal [] (consume c) := by
  refine frugal_generate fun marker _ => frugal_now fun now => frugal_execute (fun n hn => ?_)
    fun changed => ⟨fun n hn => (by cases hn), fun _ _ => ?_⟩
  · cases hn
    exact List.mem_singleton_self _
  · change Frugal [] (if changed then _ else _)
    cases changed with
    | false => trivial
    | true => exact frugal_of_calls ⟨rfl, fun _ => trivial⟩

theorem frugal_redeemCode (code : Secret) : Frugal [] (redeemCode code) := by
  refine frugal_now fun now => (frugal_consume _).bind fun spent =>
    frugal_execute (fun n hn => (by cases hn)) fun row => ?_
  cases row with
  | none => trivial
  | some r =>
    change Frugal [] (if spent then _ else _)
    split
    · trivial
    · split
      · trivial
      · split
        · exact (frugal_revokeGrant _).bind fun _ => trivial
        · trivial

theorem frugal_issueTokens (grantId : Uuid) : Frugal [] (issueTokens grantId) := by
  refine frugal_execute (fun n hn => (by cases hn)) fun row => ?_
  cases row with
  | none => trivial
  | some g =>
    refine frugal_now fun now => frugal_generate fun access _ => frugal_generate fun refresh hne => ?_
    have hkept : access ≠ refresh := fun heq => hne (heq ▸ List.mem_singleton_self _)
    refine ⟨fun n hn => ?_, fun inserted _ => ?_⟩
    · cases hn
      exact List.mem_cons_of_mem _ (List.mem_singleton_self _)
    · cases inserted with
      | false => trivial
      | true =>
        refine ⟨fun n hn => ?_, fun inserted _ => ?_⟩
        · cases hn
          simp [Op.draws, Op.spends, Statement.spends, hashToken, hkept]
        · cases inserted with
          | false => trivial
          | true =>
            exact frugal_of_calls ⟨rfl, fun _ => trivial⟩

theorem frugal_redeemRefreshToken {token : Secret} {requestedScopes : Option Scopes} :
    Frugal [] (redeemRefreshToken token requestedScopes) := by
  refine frugal_now fun now => frugal_execute (fun n hn => (by cases hn)) fun row => ?_
  cases row with
  | none => trivial
  | some row =>
    obtain ⟨r, g, c⟩ := row
    simp only [Program.ret_bind]
    split
    · exact (frugal_revokeGrant _).bind fun _ => trivial
    · split
      · trivial
      · split
        · trivial
        · split
          · trivial
          · refine (frugal_consume _).bind fun spent => ?_
            split
            · trivial
            · refine frugal_execute (fun n hn => (by cases hn)) fun after => ?_
              simp only [Program.ret_bind]
              split
              · trivial
              · exact (frugal_revokeGrant _).bind fun _ => trivial

theorem frugal_revokeByToken {token : Secret} {clientId : String} :
    Frugal [] (revokeByToken token clientId) := by
  refine frugal_execute (fun n hn => (by cases hn)) fun row => ?_
  cases row with
  | none => trivial
  | some g =>
    simp only [Program.ret_bind]
    split
    · trivial
    · exact frugal_revokeGrant _

theorem frugal_verifyAccessToken {token : Option Secret} {resource : String} :
    Frugal [] (verifyAccessToken token resource) := by
  cases token with
  | none => trivial
  | some token =>
    refine frugal_execute (fun n hn => (by cases hn)) fun row => ?_
    cases row with
    | none => trivial
    | some row =>
      obtain ⟨r, g, c⟩ := row
      refine frugal_now fun now => ?_
      simp only [Program.ret_bind]
      split
      · trivial
      · split
        · trivial
        · split
          · trivial
          · exact frugal_of_calls ⟨rfl, fun _ => ⟨rfl, fun _ => trivial⟩⟩

theorem frugal_body (f : Call) : Frugal [] f.body := by
  cases f with
  | createAdminClient name redirectUris =>
    exact frugal_generate fun n _ =>
      (frugal_ensureClient.mono (List.nil_subset _)).bind fun _ => trivial
  | createTransaction => exact frugal_createTransaction
  | armConsent id => exact frugal_armConsent id
  | approveTransaction => exact frugal_approveTransaction
  | denyTransaction => exact frugal_denyTransaction
  | redeemCode code => exact frugal_redeemCode code
  | issueTokens grantId => exact frugal_issueTokens grantId
  | redeemRefreshToken => exact frugal_redeemRefreshToken
  | revokeGrant id => exact frugal_revokeGrant id
  | revokeByToken => exact frugal_revokeByToken
  | createManualGrant => exact frugal_createManualGrant
  | verifyAccessToken => exact frugal_verifyAccessToken
  | _ => exact frugal_of_calls ⟨rfl, fun _ => ⟨rfl, fun _ => ⟨rfl, fun _ => trivial⟩⟩⟩

theorem frugal_invoke (f : Call) : Frugal [] f.invoke := by
  refine (frugal_body f).attempt.bind fun r => ⟨fun n hn => (by cases hn), fun _ _ => ?_⟩
  exact (Program.Frugal.ofExcept r).mono (List.nil_subset _)

theorem frugal_composes : Composes fun _ p => Frugal [] p where
  ret _ := trivial
  raise _ := trivial
  bind hp hf := hp.bind hf
  attempt hp := hp.attempt
  getTransaction := frugal_getTransaction
  getClient _ := frugal_of_calls ⟨rfl, fun _ => trivial⟩
  invoke := frugal_invoke

end Frugal

section Names

variable {D : Type} (E : Engine D) (settings : Settings)

def names : Supply (oauth E settings) Secret where
  draws := Op.draws
  spends := Op.spends
  drawn w n := n < w.drawn
  fresh t op i w n hdraws := by
    cases op with
    | generate =>
      cases hdraws
      exact ⟨Nat.lt_irrefl _, Nat.lt_succ_self _⟩
    | _ => cases hdraws
  call t op i w n hn := by
    cases op with
    | generate => exact Nat.lt_succ_of_lt hn
    | _ => exact hn
  start t r w w' n hs hn := by
    cases hs
    exact hn
  disturb k w n hn := by
    cases k <;> exact hn

theorem names_disjoint {t : Nat} {op : Op} {i : Unit} {w : World D} {n : Secret}
    (hdraws : (names E settings).draws op ((oauth E settings).handler.answer t op i w) = some n) :
    (names E settings).spends op ≠ some n := by
  cases op with
  | generate => exact fun hspends => by cases hspends
  | _ => cases hdraws

-- A name that a statement of a run stores is new: to the run's start, and to the statements before.
theorem run_fresh {E : Engine D} {settings : Settings} {w₀ : World D} {es : List (OAuthCall D)}
    {d : OAuthConfig D} (h : Run (oauth E settings) (.initial w₀) es d) :
    ∀ xs e ys, es = xs ++ e :: ys → ∀ n, e.op.spends = some n →
      ¬n < w₀.drawn ∧ ∀ f ∈ xs, f.op.spends ≠ some n := by
  intro xs e ys heq n hn
  obtain ⟨⟨g, hg, hdraws⟩, hunspent⟩ := h.spent_once (N := names E settings)
    (fun _ r => frugal_composes.request settings r) (fun _ _ _ _ _ => names_disjoint E settings)
    xs e ys heq n hn
  exact ⟨h.drew_new (N := names E settings) ⟨g, heq ▸ List.mem_append_left _ hg, hdraws⟩, hunspent⟩

end Names

end TranscodeForge.OAuth
