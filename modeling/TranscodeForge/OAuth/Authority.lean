import TranscodeForge.OAuth.Fresh
import TranscodeForge.OAuth.Grants
import TranscodeForge.OAuth.Performs

namespace TranscodeForge.OAuth.Authority

open Interaction

abbrev Past : Type := Entry Nat Op (World Store) Unit

abbrev Seen : Type := Traced Nat Op (World Store) Unit

-- An approval that finds its transaction open, under the nonce it carries.
def Approves (id : Uuid) (e : Past) : Prop :=
  ∃ nonceHash now, e.op = .execute (.approveTransaction id nonceHash now) ∧
    ∃ r, e.pre.db.getTransaction id = some r ∧ Store.openWith id nonceHash r = true

def Reads (id : Uuid) (P : Transaction → Prop) (e : Past) : Prop :=
  e.op = .execute (.getTransaction id) ∧ ∃ r, e.pre.db.getTransaction id = some r ∧ P r

-- The grant is that of a transaction.
def Fits (g : Grant) (r : Transaction) : Prop :=
  g.clientId = r.clientId ∧ g.scopes = r.scopes ∧ g.resource = canonical r.resource

-- The row of a credential, as a call that redeems it reads it.
def Finds (c : Credential) (grantId : Option Uuid) (e : Past) : Prop :=
  match c with
  | .code codeHash => e.op = .execute (.transactionByCode codeHash) ∧
      ∃ r, e.pre.db.transactionByCode codeHash = some r ∧ r.grantId = grantId
  | .refresh tokenHash => e.op = .execute (.refreshToken tokenHash) ∧
      ∃ row, e.pre.db.refreshToken tokenHash = some row ∧ some row.2.1.id = grantId

def Revokes (grantId : Uuid) (op : Op) : Prop := ∃ now, op = .execute (.revokeGrant grantId now)

-- What the SELECT of a verification finds, for the principal it leads to.
structure Selects (token : Secret) (resource : String) (p : Principal) (e : Past) : Prop where
  op : e.op = .execute (.accessToken (hashToken .access token))
  row : ∃ r g c, e.pre.db.accessToken (hashToken .access token) = some (r, g, c) ∧
    e.pre.now < r.expiresAt ∧ e.pre.now < g.expiresAt ∧ g.revokedAt = none ∧ c.disabledAt = none ∧
    g.resource = canonical resource ∧
    p = ⟨r.grantId, g.clientId, g.userId, g.scopes, g.resource, r.expiresAt⟩

def redeems : Call → Option Credential
  | .redeemCode code => some (.code (hashToken .code code))
  | .redeemRefreshToken token _ => some (.refresh (hashToken .refresh token))
  | _ => none

def Unreturned : Op → Prop
  | .returned _ _ => False
  | _ => True

-- The thread's call under way has done this, in the order of the list.
def Under (t : Nat) (P : List Past → Past → Prop) (h : List Past) : Prop := Own t P Unreturned h

-- The thread's call has approved a transaction and then read it, and the grant is its.
def Approved (t : Nat) (g : Grant) (h : List Past) : Prop :=
  ∃ id, Under t (fun xs b => Reads id (Fits g) b ∧ Under t (fun _ a => Approves id a) xs) h

-- The thread's call has found a spent credential, and revoked the grant its row names.
def Replayed (t : Nat) (c : Credential) (h : List Past) : Prop :=
  Under t (fun _ b => Finds c none b) h ∨
    ∃ g, Under t (fun xs u => Revokes g u.op ∧ Under t (fun _ b => Finds c (some g) b) xs) h

structure Checked (t : Nat) (_ : Request) (op : Op) (_ : Unit) (x : Seen) : Prop where
  granted : ∀ g, op = .execute (.insertGrant g) → g.clientId = manualClientId ∨ Approved t g x.2
  verified : ∀ token resource p,
    op = .returned (.verifyAccessToken (some token) resource) (.ok (some p)) →
    Under t (fun _ b => Selects token resource p b) x.2
  replayed : ∀ f c, op = .returned f (.error .replay) → redeems f = some c → Replayed t c x.2

abbrev auditing (settings : Settings) (t : Nat) (r : Request) : Contract Op Seen Unit :=
  (oauth durable settings).audit (fun _ _ _ _ _ => True) Checked t r

def insertsGrant : Op → Bool
  | .execute (.insertGrant _) => true
  | _ => false

-- What neither returns nor inserts a grant.
def Plain (op : Op) : Prop := Unreturned op ∧ insertsGrant op = false

section Calls

variable {settings : Settings} {t : Nat} {r : Request} {x : Seen} {α : Type}
variable {P : List Past → Past → Prop} {c : Credential} {g : Grant}

theorem Plain.of_asks {op : Op} (h : Asks false op) : Plain op := by
  cases op with
  | execute q =>
    refine ⟨trivial, ?_⟩
    cases q with
    | insertGrant g => cases h rfl
    | _ => rfl
  | returned f r => exact h.elim
  | _ => exact ⟨trivial, rfl⟩

theorem Checked.of_unreturned {op : Op} {i : Unit} (h : Unreturned op)
    (hgranted : ∀ g, op = .execute (.insertGrant g) →
      g.clientId = manualClientId ∨ Approved t g x.2) : Checked t r op i x where
  granted := hgranted
  verified token resource p heq := by
    rw [heq] at h
    exact h.elim
  replayed f c heq := by
    rw [heq] at h
    exact h.elim

theorem Plain.checked {op : Op} {i : Unit} (h : Plain op) : Checked t r op i x := by
  refine .of_unreturned h.1 fun g heq => ?_
  have hplain := h.2
  rw [heq] at hplain
  cases hplain

theorem under_stable : (oauth durable settings).Stable (fun _ _ _ _ _ => True) t
    fun x => Under t P x.2 :=
  System.own_stable

theorem Under.next {op : Op} {i : Unit} (h : Under t P x.2) (hop : Unreturned op) :
    Under t P ((oauth durable settings).traced.next t op i x).2 :=
  Own.next h hop

theorem plain_wp {p : Repo α} (hp : p.Calls Plain) :
    p.wp (oauth durable settings).traced t (auditing settings t r) (fun _ _ => True) x :=
  System.wp_audit_of_calls hp fun _ i _ hop _ => hop.checked (r := r) (i := i)

theorem asks_plain {p : Repo α} (hp : p.Calls (Asks false)) : p.Calls Plain :=
  hp.mono fun _ => Plain.of_asks

theorem plain_orIntegrity (inserted : Bool) (k : Unit → Repo α) (hk : (k ()).Calls Plain) :
    ((orIntegrity inserted).bind k).Calls Plain := by
  cases inserted with
  | true => exact hk
  | false => trivial

theorem issueAccessToken_plain {grantId : Uuid} {ttl : Int} :
    (issueAccessToken grantId ttl).Calls Plain :=
  ⟨⟨trivial, rfl⟩, fun _ => ⟨⟨trivial, rfl⟩, fun _ => ⟨⟨trivial, rfl⟩, fun inserted =>
    plain_orIntegrity inserted _ ⟨⟨trivial, rfl⟩, fun _ => trivial⟩⟩⟩⟩

theorem issueTokens_plain (grantId : Uuid) : (issueTokens grantId).Calls Plain := by
  refine ⟨⟨trivial, rfl⟩, fun row => ?_⟩
  cases row with
  | none => trivial
  | some g =>
    exact ⟨⟨trivial, rfl⟩, fun _ => ⟨⟨trivial, rfl⟩, fun _ => ⟨⟨trivial, rfl⟩, fun _ =>
      ⟨⟨trivial, rfl⟩, fun inserted => plain_orIntegrity inserted _
        ⟨⟨trivial, rfl⟩, fun inserted => plain_orIntegrity inserted _
          ⟨⟨trivial, rfl⟩, fun _ => trivial⟩⟩⟩⟩⟩⟩

-- The insertion is the one call of it that needs a reason.
theorem createGrant_wp {clientId userId : String} {scopes : Scopes} {resource label : String}
    {expiresAt : Option Time} {P : Seen → Prop}
    (hP : (oauth durable settings).Stable (fun _ _ _ _ _ => True) t P)
    (hnext : ∀ op i y, Plain op → P y → P ((oauth durable settings).traced.next t op i y))
    (hreason : ∀ g y, g.clientId = clientId → g.scopes = scopes →
      g.resource = canonical resource → P y → g.clientId = manualClientId ∨ Approved t g y.2)
    (hx : P x) :
    (createGrant clientId userId scopes resource label expiresAt).wp
      (oauth durable settings).traced t (auditing settings t r) (fun _ _ => True) x := by
  cases hscopes : validateScopes scopes with
  | error e =>
    rw [createGrant, hscopes]
    trivial
  | ok validated =>
    have hvalid : validated = scopes := by
      rw [validateScopes] at hscopes
      split at hscopes
      · cases hscopes
      · split at hscopes
        · cases hscopes
        · exact (Except.ok.inj hscopes).symm
    rw [createGrant, hscopes]
    refine System.wp_audit hP hx fun i y hy _ => ⟨Plain.checked ⟨trivial, rfl⟩, ?_⟩
    refine System.wp_audit hP (hnext _ i y ⟨trivial, rfl⟩ hy) fun i z hz _ =>
      ⟨Plain.checked ⟨trivial, rfl⟩, ?_⟩
    refine System.wp_audit hP (hnext _ i z ⟨trivial, rfl⟩ hz) fun i u hu _ => ⟨?_, ?_⟩
    · refine .of_unreturned trivial fun g heq => ?_
      cases heq
      exact hreason _ u rfl hvalid rfl hu
    · exact plain_wp (plain_orIntegrity _ _ ⟨⟨trivial, rfl⟩, fun _ => trivial⟩)

theorem Approves.of_answer {id : Uuid} {nonceHash : Digest} {now : Time} {e : Past}
    (hop : e.op = .execute (.approveTransaction id nonceHash now))
    (hanswer : (e.pre.db.approveTransaction id nonceHash now).2 = true) : Approves id e :=
  ⟨nonceHash, now, hop, Store.rowCount_openWith.mp hanswer⟩

theorem getTransaction_wp (id : Uuid) (hx : Under t P x.2) :
    (getTransaction id).wp (oauth durable settings).traced t (auditing settings t r)
      (fun o y => ∀ txn, o = .ok (some txn) →
        Under t (fun xs b => Reads id (· = txn) b ∧ Under t P xs) y.2) x := by
  refine System.wp_audit under_stable hx fun i y hy _ => ⟨Plain.checked ⟨trivial, rfl⟩, ?_⟩
  generalize hread : (oauth durable settings).handler.answer t _ i y.1 = row
  cases row with
  | none => exact fun txn heq => by cases heq
  | some txn =>
    simp only [Program.ret_bind]
    split
    · exact fun txn heq => by cases heq
    · have hreads : Under t (fun xs b => Reads id (· = txn) b ∧ Under t P xs)
          ((oauth durable settings).traced.next t (.execute (.getTransaction id)) i y).2 :=
        Own.here ⟨⟨rfl, txn, hread, rfl⟩, hy⟩
      refine System.wp_audit under_stable hreads fun i z hz _ => ⟨Plain.checked ⟨trivial, rfl⟩, ?_⟩
      intro txn' heq
      split at heq
      · cases heq
      · cases heq
        exact Under.next hz trivial

theorem approveTransaction_wp (id : Uuid) (nonce : Option Secret) (userId : String) :
    (approveTransaction id nonce userId).wp (oauth durable settings).traced t
      (auditing settings t r) (fun _ _ => True) x := by
  cases nonce with
  | none => trivial
  | some nonce =>
    refine System.wp_audit (System.Stable.true t) trivial fun i y _ _ =>
      ⟨Plain.checked ⟨trivial, rfl⟩, ?_⟩
    refine System.wp_audit (System.Stable.true t) trivial fun i z _ _ =>
      ⟨Plain.checked ⟨trivial, rfl⟩, ?_⟩
    generalize hchanged : (oauth durable settings).handler.answer t _ i z.1 = changed
    cases changed with
    | false =>
      exact System.wp_audit (System.Stable.true t) trivial fun _ _ _ _ =>
        ⟨Plain.checked ⟨trivial, rfl⟩, trivial⟩
    | true =>
      have happroved : Under t (fun _ a => Approves id a) ((oauth durable settings).traced.next t
          (.execute (.approveTransaction id (hashToken .nonce nonce) y.1.now)) i z).2 :=
        Own.here (.of_answer rfl hchanged)
      refine System.wp_audit under_stable happroved fun i u hu _ =>
        ⟨Plain.checked ⟨trivial, rfl⟩, ?_⟩
      have hcommitted : Under t (fun _ a => Approves id a)
          ((oauth durable settings).traced.next t .commit i u).2 := hu.next trivial
      change Program.wp _ _ _ ((getTransaction id).bind _) _ _
      refine Program.wp_seq (getTransaction_wp id hcommitted) (fun txn v hv => ?_) fun _ _ _ => trivial
      cases txn with
      | none => trivial
      | some txn =>
        refine Program.wp_seq (createGrant_wp under_stable
          (fun _ _ _ hop hy => Under.next hy hop.1) (fun g y hclient hscopes hresource hy => ?_)
          (hv txn rfl)) (fun grantId w _ => ?_) fun _ _ _ => trivial
        · refine .inr ⟨id, Own.mono hy (fun xs b hb => ⟨⟨hb.1.1, ?_⟩, hb.2⟩) fun _ h => h⟩
          obtain ⟨r', hrow, rfl⟩ := hb.1.2
          exact ⟨r', hrow, hclient, hscopes, hresource⟩
        · exact plain_wp ⟨⟨trivial, rfl⟩, fun _ => ⟨⟨trivial, rfl⟩, fun recorded =>
            plain_orIntegrity recorded _ ⟨⟨trivial, rfl⟩, fun _ => trivial⟩⟩⟩

theorem createManualGrant_wp {label : String} {scopes : Scopes} {resource userId : String}
    {expiresAt : Option Time} :
    (createManualGrant label scopes resource userId expiresAt).wp (oauth durable settings).traced t
      (auditing settings t r) (fun _ _ => True) x := by
  refine Program.wp_seq (plain_wp (asks_plain ensureClient_asks)) (fun _ y _ => ?_)
    fun _ _ _ => trivial
  refine System.wp_audit (System.Stable.true t) trivial fun i z _ _ =>
    ⟨Plain.checked ⟨trivial, rfl⟩, ?_⟩
  change Program.wp _ _ _ ((createGrant _ _ _ _ _ _).bind _) _ _
  refine Program.wp_seq (createGrant_wp (System.Stable.true t) (fun _ _ _ _ h => h)
    (fun _ _ hclient _ _ _ => .inl hclient) trivial) (fun grantId u _ => ?_) fun _ _ _ => trivial
  exact plain_wp ⟨⟨trivial, rfl⟩, fun _ => issueAccessToken_plain.bind fun _ => trivial⟩

-- The clock has not gone back since the SELECT.
def Selected (t : Nat) (token : Secret) (r : Token) (g : Grant) (c : Client) (y : Seen) : Prop :=
  Under t (fun _ f => f.op = .execute (.accessToken (hashToken .access token)) ∧
    f.pre.db.accessToken (hashToken .access token) = some (r, g, c) ∧ f.pre.now ≤ y.1.now) y.2

theorem selected_stable {token : Secret} {r : Token} {c : Client} :
    (oauth durable settings).Stable (fun _ _ _ _ _ => True) t (Selected t token r g c) where
  call t' r' op i y hne _ hy := by
    have hnow : ((oauth durable settings).traced.next t' op i y).1.now = y.1.now := by
      cases op <;> rfl
    rw [Selected, hnow]
    exact Own.other hy hne
  start t' r' w' y hs hy := by
    cases hs
    exact hy
  disturb k y hy := by
    refine Own.mono hy (fun xs f ⟨hop, hrow, hnow⟩ => ⟨hop, hrow, ?_⟩) fun _ h => h
    cases k with
    | clock seconds => exact Nat.le_trans hnow (Nat.le_add_right _ _)
    | commit => exact hnow
    | rollback => exact hnow

theorem verifyAccessToken_wp (token : Secret) (resource : String) :
    (verifyAccessToken (some token) resource).wp (oauth durable settings).traced t
      (auditing settings t r) (fun o y => ∀ p, o = .ok (some p) →
        Under t (fun _ f => Selects token resource p f) y.2) x := by
  refine System.wp_audit (System.Stable.true t) trivial fun i y _ _ =>
    ⟨Plain.checked ⟨trivial, rfl⟩, ?_⟩
  generalize hread : (oauth durable settings).handler.answer t _ i y.1 = row
  cases row with
  | none => exact fun p heq => by cases heq
  | some row =>
    obtain ⟨r', g, c⟩ := row
    have hselected : Selected t token r' g c ((oauth durable settings).traced.next t
        (.execute (.accessToken (hashToken .access token))) i y) :=
      Own.here ⟨rfl, hread, Nat.le_refl _⟩
    refine System.wp_audit selected_stable hselected fun i z hz _ =>
      ⟨Plain.checked ⟨trivial, rfl⟩, ?_⟩
    simp only [Program.ret_bind]
    split
    · exact fun p heq => by cases heq
    · next hunexpired =>
      split
      · exact fun p heq => by cases heq
      · next hopen =>
        split
        · exact fun p heq => by cases heq
        · next hresource =>
          have hselects : Under t (fun _ f => Selects token resource
              ⟨r'.grantId, g.clientId, g.userId, g.scopes, g.resource, r'.expiresAt⟩ f) z.2 := by
            refine Own.mono hz (fun xs f ⟨hop, hrow, hnow⟩ => ⟨hop, r', g, c, hrow, ?_⟩) fun _ h => h
            rw [not_or, Nat.not_le, Nat.not_le] at hunexpired
            simp only [not_or, Bool.not_eq_true, Option.isSome_eq_false_iff,
              Option.isNone_iff_eq_none] at hopen
            exact ⟨Nat.lt_of_le_of_lt hnow hunexpired.1, Nat.lt_of_le_of_lt hnow hunexpired.2,
              hopen.1, hopen.2, not_not.mp hresource, rfl⟩
          refine System.wp_audit under_stable (Under.next hselects trivial) fun i u hu _ =>
            ⟨Plain.checked ⟨trivial, rfl⟩, ?_⟩
          refine System.wp_audit under_stable (hu.next trivial) fun i v hv _ =>
            ⟨Plain.checked ⟨trivial, rfl⟩, fun p heq => ?_⟩
          cases heq
          exact hv.next trivial

theorem revokeGrant_wp {grantId : Uuid} (hx : Under t (fun _ b => Finds c (some grantId) b) x.2) :
    (revokeGrant grantId).wp (oauth durable settings).traced t (auditing settings t r)
      (fun _ y => Replayed t c y.2) x := by
  refine System.wp_audit under_stable hx fun i y hy _ => ⟨Plain.checked ⟨trivial, rfl⟩, ?_⟩
  refine System.wp_audit under_stable (hy.next trivial) fun i z hz _ =>
    ⟨Plain.checked ⟨trivial, rfl⟩, ?_⟩
  have hrevoked : Under t (fun xs u => Revokes grantId u.op ∧
      Under t (fun _ b => Finds c (some grantId) b) xs) ((oauth durable settings).traced.next t
        (.execute (.revokeGrant grantId y.1.now)) i z).2 := Own.here ⟨⟨_, rfl⟩, hz⟩
  exact System.wp_audit under_stable hrevoked fun i u hu _ =>
    ⟨Plain.checked ⟨trivial, rfl⟩, .inr ⟨grantId, hu.next trivial⟩⟩

theorem replay_wp {grantId : Uuid} (hx : Under t (fun _ b => Finds c (some grantId) b) x.2) :
    ((revokeGrant grantId).bind fun _ => (.raise .replay : Repo α)).wp
      (oauth durable settings).traced t (auditing settings t r)
      (fun o y => o = .error .replay → Replayed t c y.2) x :=
  Program.wp_seq (revokeGrant_wp hx) (fun _ _ hy _ => hy) fun _ _ hy _ => hy

theorem consume_wp {P : Seen → Prop}
    (hP : (oauth durable settings).Stable (fun _ _ _ _ _ => True) t P)
    (hnext : ∀ op i y, Plain op → P y → P ((oauth durable settings).traced.next t op i y))
    (hx : P x) :
    (consume c).wp (oauth durable settings).traced t (auditing settings t r)
      (fun o y => (∃ b, o = .ok b) ∧ P y) x := by
  refine System.wp_audit hP hx fun i y hy _ => ⟨Plain.checked ⟨trivial, rfl⟩, ?_⟩
  refine System.wp_audit hP (hnext _ i y ⟨trivial, rfl⟩ hy) fun i z hz _ =>
    ⟨Plain.checked ⟨trivial, rfl⟩, ?_⟩
  refine System.wp_audit hP (hnext _ i z ⟨trivial, rfl⟩ hz) fun i u hu _ =>
    ⟨Plain.checked ⟨trivial, rfl⟩, ?_⟩
  generalize (oauth durable settings).handler.answer t _ i u.1 = changed
  refine System.wp_audit hP (hnext _ i u ⟨trivial, rfl⟩ hu) fun i v hv _ =>
    ⟨Plain.checked ⟨trivial, rfl⟩, ?_⟩
  cases changed with
  | false => exact ⟨⟨_, rfl⟩, hnext _ i v ⟨trivial, rfl⟩ hv⟩
  | true =>
    exact System.wp_audit hP (hnext _ i v ⟨trivial, rfl⟩ hv) fun i w hw _ =>
      ⟨Plain.checked ⟨trivial, rfl⟩, ⟨_, rfl⟩, hnext _ i w ⟨trivial, rfl⟩ hw⟩

theorem redeemCode_wp (code : Secret) :
    (redeemCode code).wp (oauth durable settings).traced t (auditing settings t r)
      (fun o y => o = .error .replay → Replayed t (.code (hashToken .code code)) y.2) x := by
  refine System.wp_audit (System.Stable.true t) trivial fun i y _ _ =>
    ⟨Plain.checked ⟨trivial, rfl⟩, ?_⟩
  change Program.wp _ _ _ ((consume _).bind _) _ _
  refine Program.wp_seq (consume_wp (System.Stable.true t) (fun _ _ _ _ h => h) trivial)
    (fun spent z _ => ?_) fun e z ⟨⟨b, hb⟩, _⟩ => by cases hb
  refine System.wp_audit (System.Stable.true t) trivial fun i u _ _ =>
    ⟨Plain.checked ⟨trivial, rfl⟩, ?_⟩
  generalize hread : (oauth durable settings).handler.answer t _ i u.1 = row
  cases row with
  | none => exact fun heq => by cases heq
  | some r' =>
    have hfinds : Under t (fun _ b => Finds (.code (hashToken .code code)) r'.grantId b)
        ((oauth durable settings).traced.next t
          (.execute (.transactionByCode (hashToken .code code))) i u).2 :=
      Own.here ⟨rfl, r', hread, rfl⟩
    change Program.wp _ _ _ (if spent = true then _ else _) _ _
    split
    · exact fun heq => by cases heq
    · split
      · exact fun heq => by cases heq
      · split
        · next grantId hgrant =>
          rw [hgrant] at hfinds
          exact replay_wp hfinds
        · next hgrant =>
          rw [hgrant] at hfinds
          exact fun _ => .inl hfinds

theorem redeemRefreshToken_wp (token : Secret) (requestedScopes : Option Scopes) :
    (redeemRefreshToken token requestedScopes).wp (oauth durable settings).traced t
      (auditing settings t r)
      (fun o y => o = .error .replay → Replayed t (.refresh (hashToken .refresh token)) y.2) x := by
  refine System.wp_audit (System.Stable.true t) trivial fun i y _ _ =>
    ⟨Plain.checked ⟨trivial, rfl⟩, ?_⟩
  refine System.wp_audit (System.Stable.true t) trivial fun i z _ _ =>
    ⟨Plain.checked ⟨trivial, rfl⟩, ?_⟩
  generalize hread : (oauth durable settings).handler.answer t _ i z.1 = row
  cases row with
  | none => exact fun heq => by cases heq
  | some row =>
    obtain ⟨r', g, c⟩ := row
    have hfinds : Under t (fun _ b => Finds (.refresh (hashToken .refresh token)) (some g.id) b)
        ((oauth durable settings).traced.next t
          (.execute (.refreshToken (hashToken .refresh token))) i z).2 :=
      Own.here ⟨rfl, (r', g, c), hread, rfl⟩
    simp only [Program.ret_bind]
    split
    · exact replay_wp hfinds
    · split
      · exact fun heq => by cases heq
      · split
        · exact fun heq => by cases heq
        · split
          · exact fun heq => by cases heq
          · refine Program.wp_seq (consume_wp under_stable (fun _ _ _ hop hy => hy.next hop.1) hfinds)
              (fun spent u hu => ?_) fun e u ⟨⟨b, hb⟩, _⟩ => by cases hb
            split
            · exact fun heq => by cases heq
            · refine System.wp_audit under_stable hu.2 fun i v hv _ =>
                ⟨Plain.checked ⟨trivial, rfl⟩, ?_⟩
              simp only [Program.ret_bind]
              split
              · exact fun heq => by cases heq
              · exact replay_wp (Under.next hv trivial)

-- What a call may return.
def Returns (t : Nat) (f : Call) (o : Except Failure f.Result) (h : List Past) : Prop :=
  (∀ token resource p, (⟨f, o⟩ : (f : Call) × Except Failure f.Result) =
      ⟨.verifyAccessToken (some token) resource, .ok (some p)⟩ →
    Under t (fun _ b => Selects token resource p b) h) ∧
  ∀ c, o = .error .replay → redeems f = some c → Replayed t c h

theorem returns_of_other {f : Call} {o : Except Failure f.Result} {h : List Past}
    (hverify : ∀ token resource, f ≠ .verifyAccessToken (some token) resource)
    (hredeems : redeems f = none) : Returns t f o h := by
  constructor
  · intro token resource p heq
    cases heq
    exact absurd rfl (hverify token resource)
  · intro c _ heq
    rw [hredeems] at heq
    cases heq

theorem body_wp (f : Call) : f.body.wp (oauth durable settings).traced t (auditing settings t r)
    (fun o y => Returns t f o y.2) x := by
  have hother (hp : f.body.wp (oauth durable settings).traced t (auditing settings t r)
        (fun _ _ => True) x)
      (hverify : ∀ token resource, f ≠ .verifyAccessToken (some token) resource)
      (hredeems : redeems f = none) :
      f.body.wp (oauth durable settings).traced t (auditing settings t r)
        (fun o y => Returns t f o y.2) x :=
    Program.wp_mono hp fun _ _ _ => returns_of_other hverify hredeems
  cases f with
  | approveTransaction id nonce userId =>
    exact hother (approveTransaction_wp id nonce userId) (fun _ _ h => by cases h) rfl
  | createManualGrant => exact hother createManualGrant_wp (fun _ _ h => by cases h) rfl
  | issueTokens grantId => exact hother (plain_wp (issueTokens_plain grantId)) (fun _ _ h => by cases h) rfl
  | redeemCode code =>
    refine Program.wp_mono (redeemCode_wp code) fun o y hy => ⟨fun _ _ _ heq => (by cases heq), ?_⟩
    intro c ho hredeems
    cases hredeems
    exact hy ho
  | redeemRefreshToken token requestedScopes =>
    refine Program.wp_mono (redeemRefreshToken_wp token requestedScopes) fun o y hy =>
      ⟨fun _ _ _ heq => (by cases heq), ?_⟩
    intro c ho hredeems
    cases hredeems
    exact hy ho
  | verifyAccessToken token resource =>
    cases token with
    | none => exact hother trivial (fun _ _ h => by cases h) rfl
    | some token =>
      refine Program.wp_mono (verifyAccessToken_wp token resource) fun o y hy =>
        ⟨fun token' resource' p heq => ?_, fun c _ hredeems => by cases hredeems⟩
      cases heq
      exact hy p rfl
  | _ =>
    exact hother (plain_wp ((Call.body_asks _).mono fun _ => Plain.of_asks)) (fun _ _ h => by cases h)
      rfl

theorem returns_stable {f : Call} {o : Except Failure f.Result} :
    (oauth durable settings).Stable (fun _ _ _ _ _ => True) t fun x => Returns t f o x.2 where
  call _ _ _ _ _ hne _ hy :=
    ⟨fun token resource p heq => Own.other (hy.1 token resource p heq) hne, fun c ho hc =>
      (hy.2 c ho hc).imp (fun h => Own.other h hne) fun ⟨g, h⟩ => ⟨g, Own.other h hne⟩⟩
  start _ _ _ _ _ hy := hy
  disturb _ _ hy := hy

theorem invoke_wp (f : Call) : f.invoke.wp (oauth durable settings).traced t
    (auditing settings t r) (fun _ _ => True) x := by
  refine audit_invoke (body_wp f) (fun o => returns_stable) fun o i y hy => ⟨?_, ?_, ?_⟩
  · exact fun g heq => by cases heq
  · intro token resource p heq
    cases heq
    exact hy.1 token resource p rfl
  · intro f' c heq hc
    cases heq
    exact hy.2 c rfl hc

theorem request_wp (r' : Request) : (r'.body settings).wp (oauth durable settings).traced t
    (auditing settings t r) (fun _ _ => True) x :=
  audit_request (fun _ _ _ hop => (Plain.of_asks hop).checked) (fun f _ => invoke_wp f) r'

end Calls

abbrev StoreCall : Type := OAuthCall Store

section Runs

variable {settings : Settings} {w₀ : World Store} {es xs ys : List StoreCall}
variable {d : OAuthConfig Store} {e : StoreCall}

theorem run_checked (h : Run (oauth durable settings) (.initial w₀) es d) :
    ∀ xs e ys, es = xs ++ e :: ys →
      Checked e.thread e.request e.op e.input (e.pre, xs.map ThreadCall.entry) :=
  Run.audited h (fun _ r _ => request_wp r) fun _ _ _ _ => trivial

-- An assertion on the rows and the calls so far: only a statement changes the rows.
theorem run_rows {P : Store → List StoreCall → Prop} {A : List StoreCall → StoreCall → Prop}
    (h : Run (oauth durable settings) (.initial w₀) es d)
    (ha : ∀ xs e ys, es = xs ++ e :: ys → A xs e) (hinit : P w₀.db [])
    (hexec : ∀ e es q, e.op = .execute q → A es e → P e.pre.db es →
      P (q.next e.pre.db) (es ++ [e]))
    (hother : ∀ e es, (∀ q, e.op ≠ .execute q) → P e.pre.db es → P e.pre.db (es ++ [e])) :
    ∀ xs e ys, es = xs ++ e :: ys → P e.pre.db xs := by
  refine (Run.history_invariant (P := fun w es => P w.db es) h ha hinit ?_ ?_ ?_).1
  · intro t r w w' es hP hstart
    cases hstart
    exact hP
  · intro k w es hP
    cases k <;> exact hP
  · rintro ⟨⟨op, i, w, w'⟩, t, r⟩ es hpost hadmitted hP
    change w' = (oauth durable settings).handler.next t op i w at hpost
    subst hpost
    cases op with
    | execute q => exact hexec _ es q rfl hadmitted hP
    | commit => exact hother _ es (fun q heq => by cases heq) hP
    | now => exact hother _ es (fun q heq => by cases heq) hP
    | generate => exact hother _ es (fun q heq => by cases heq) hP
    | returned f o => exact hother _ es (fun q heq => by cases heq) hP

theorem run_linked (h : Run (oauth durable settings) (.initial w₀) es d) (hlinked : w₀.db.Linked) :
    ∀ xs e ys, es = xs ++ e :: ys → e.pre.db.Linked :=
  run_rows (P := fun s _ => s.Linked) (A := fun _ _ => True) h (fun _ _ _ _ => trivial) hlinked
    (fun _ _ q _ _ hP => hP.next q) fun _ _ _ hP => hP

-- Where a grant's row comes from.
def Origin (w₀ : World Store) (g : Grant) (h : List StoreCall) : Prop :=
  (∃ g₀, w₀.db.getGrant g.id = some g₀ ∧ g.terms = g₀.terms) ∨
    Since (fun _ i => ∃ g₀, i.op = .execute (.insertGrant g₀) ∧ g₀.id = g.id ∧ g.terms = g₀.terms)
      (fun _ => True) h

theorem Origin.append {g g' : Grant} {h : List StoreCall} (horigin : Origin w₀ g h)
    (hid : g'.id = g.id) (hterms : g'.terms = g.terms) : Origin w₀ g' (h ++ [e]) := by
  rw [Origin, hid, hterms]
  exact horigin.imp_right fun hsince => Since.append hsince trivial

theorem run_origin (h : Run (oauth durable settings) (.initial w₀) es d) :
    ∀ xs e ys, es = xs ++ e :: ys → ∀ id g, e.pre.db.getGrant id = some g → Origin w₀ g xs := by
  refine run_rows (P := fun s h => ∀ id g, s.getGrant id = some g → Origin w₀ g h)
    (A := fun _ _ => True) h (fun _ _ _ _ => trivial) ?_ ?_ ?_
  · intro id g hrow
    exact .inl ⟨g, (Relational.Table.get?_key hrow).symm ▸ hrow, rfl⟩
  · intro e es q hop _ horigin id g' hrow'
    have hstep := grant_next q e.pre.db id
    rw [hrow'] at hstep
    generalize hbefore : e.pre.db.getGrant id = before at hstep
    cases hstep with
    | kept => exact (horigin id g' hbefore).append rfl rfl
    | created hq hid => exact .inr (Since.here ⟨_, hop.trans (congrArg _ hq), rfl, rfl⟩)
    | revoked => exact (horigin id _ hbefore).append rfl rfl
    | used => exact (horigin id _ hbefore).append rfl rfl
  · exact fun e es _ horigin id g hrow => (horigin id g hrow).append rfl rfl

theorem run_stays (h : Run (oauth durable settings) (.initial w₀) es d) :
    ∀ xs e ys, es = xs ++ e :: ys → ∀ us u vs, xs = us ++ u :: vs → ∀ id,
      u.pre.db.getGrant id ≠ none → e.pre.db.getGrant id ≠ none := by
  refine run_rows (P := fun s h => ∀ us u vs, h = us ++ u :: vs → ∀ id,
    u.pre.db.getGrant id ≠ none → s.getGrant id ≠ none) (A := fun _ _ => True) h
    (fun _ _ _ _ => trivial) ?_ ?_ ?_
  · intro us u vs heq
    cases us <;> cases heq
  · intro e es q _ _ hstays us u vs heq id hrow
    rcases eq_append_singleton_cases heq with ⟨rfl, rfl, rfl⟩ | ⟨ws, rfl, rfl⟩
    · exact grant_stays q hrow
    · exact grant_stays q (hstays us u ws rfl id hrow)
  · intro e es _ hstays us u vs heq id hrow
    rcases eq_append_singleton_cases heq with ⟨rfl, rfl, rfl⟩ | ⟨ws, rfl, rfl⟩
    · exact hrow
    · exact hstays us u ws rfl id hrow

def Revoked (id : Uuid) (s : Store) : Prop := ∃ g, s.getGrant id = some g ∧ g.revokedAt ≠ none

theorem Revoked.next {id : Uuid} {s : Store} (h : Revoked id s) (q : Statement) :
    Revoked id (q.next s) := by
  obtain ⟨g, hrow, hrevoked⟩ := h
  obtain ⟨g', hrow'⟩ := Option.ne_none_iff_exists'.mp
    (grant_stays q (show s.getGrant id ≠ none by rw [hrow]; exact Option.some_ne_none _))
  have hstep := grant_next q s id
  rw [hrow, hrow'] at hstep
  exact ⟨g', hrow', hstep.revokedAt hrevoked⟩

theorem run_revoked (h : Run (oauth durable settings) (.initial w₀) es d) :
    ∀ xs e ys, es = xs ++ e :: ys → ∀ us u vs, xs = us ++ u :: vs → ∀ id, Revokes id u.op →
      u.pre.db.getGrant id ≠ none → Revoked id e.pre.db := by
  refine run_rows (P := fun s h => ∀ us u vs, h = us ++ u :: vs → ∀ id, Revokes id u.op →
    u.pre.db.getGrant id ≠ none → Revoked id s) (A := fun _ _ => True) h
    (fun _ _ _ _ => trivial) ?_ ?_ ?_
  · intro us u vs heq
    cases us <;> cases heq
  · intro e es q hop _ hrevoked us u vs heq id hrevokes hrow
    rcases eq_append_singleton_cases heq with ⟨rfl, rfl, rfl⟩ | ⟨ws, rfl, rfl⟩
    · obtain ⟨now, hop'⟩ := hrevokes
      obtain rfl : q = .revokeGrant id now := Op.execute.inj (hop.symm.trans hop')
      obtain ⟨g, hg⟩ := Option.ne_none_iff_exists'.mp hrow
      exact revokeGrant_revokes now hg
    · exact (hrevoked us u ws rfl id hrevokes hrow).next q
  · intro e es hne hrevoked us u vs heq id hrevokes hrow
    rcases eq_append_singleton_cases heq with ⟨rfl, rfl, rfl⟩ | ⟨ws, rfl, rfl⟩
    · exact absurd hrevokes.choose_spec (hne _)
    · exact hrevoked us u ws rfl id hrevokes hrow

def Introduced (w₀ : World Store) (id : Uuid) (h : List StoreCall) : Prop :=
  id < w₀.drawn ∨ ∃ e ∈ h, e.op.spends = some id

theorem Introduced.append {id : Uuid} {h : List StoreCall} (hid : Introduced w₀ id h) :
    Introduced w₀ id (h ++ [e]) :=
  hid.imp_right fun ⟨f, hf, hspends⟩ => ⟨f, List.mem_append_left _ hf, hspends⟩

-- The ids of the transactions are not drawn again.
def Opening (w₀ : World Store) : Prop :=
  ∀ id r, w₀.db.getTransaction id = some r → id < w₀.drawn

theorem run_introduced (h : Run (oauth durable settings) (.initial w₀) es d) (hopen : Opening w₀) :
    ∀ xs e ys, es = xs ++ e :: ys → ∀ id, e.pre.db.getTransaction id ≠ none →
      Introduced w₀ id xs := by
  refine run_rows (P := fun s h => ∀ id, s.getTransaction id ≠ none → Introduced w₀ id h)
    (A := fun _ _ => True) h (fun _ _ _ _ => trivial) ?_ ?_ ?_
  · intro id hrow
    obtain ⟨r, hr⟩ := Option.ne_none_iff_exists'.mp hrow
    exact .inl (hopen id r hr)
  · intro e es q hop _ hknown id hrow'
    by_cases hrow : e.pre.db.getTransaction id = none
    · obtain ⟨r', hr'⟩ := Option.ne_none_iff_exists'.mp hrow'
      have hstep := row_next q e.pre.db id
      rw [hrow, hr'] at hstep
      cases hstep with
      | created hq hid =>
        refine .inr ⟨e, by simp, ?_⟩
        rw [hop, hq]
        exact congrArg some hid
    · exact (hknown id hrow).append
  · exact fun e es _ hknown id hrow => (hknown id hrow).append

-- No two rows of one id differ in their client, scopes or resource.
theorem run_terms (h : Run (oauth durable settings) (.initial w₀) es d) (hopen : Opening w₀)
    (id : Uuid) :
    ∀ xs e ys, es = xs ++ e :: ys → ∀ us a vs r₁ r, xs = us ++ a :: vs →
      a.pre.db.getTransaction id = some r₁ → e.pre.db.getTransaction id = some r →
      r.terms = r₁.terms := by
  refine run_rows (P := fun s h => ∀ us a vs r₁ r, h = us ++ a :: vs →
      a.pre.db.getTransaction id = some r₁ → s.getTransaction id = some r → r.terms = r₁.terms)
    (A := fun xs e => e.op.spends = some id → ∀ a ∈ xs, a.pre.db.getTransaction id = none)
    h ?_ ?_ ?_ ?_
  · intro xs e ys heq hspends a ha
    obtain ⟨us, vs, rfl⟩ := List.append_of_mem ha
    by_contra hrow
    obtain ⟨hnew, hunspent⟩ := run_fresh h _ e ys heq id hspends
    rcases run_introduced h hopen us a (vs ++ e :: ys) (by simp [heq]) id hrow with
      hold | ⟨f, hf, hf'⟩
    · exact hnew hold
    · exact hunspent f (List.mem_append_left _ hf) hf'
  · intro us a vs r₁ r heq
    cases us <;> cases heq
  · intro e es q hop hfresh hterms us a vs r₁ r' heq hrow₁ hrow'
    have hstep := row_next q e.pre.db id
    rw [hrow'] at hstep
    generalize hbefore : e.pre.db.getTransaction id = before at hstep
    cases before with
    | none =>
      cases hstep with
      | created hq hid =>
        have hspends : e.op.spends = some id := by
          rw [hop, hq]
          exact congrArg some hid
        have hnone : a.pre.db.getTransaction id = none := by
          rcases eq_append_singleton_cases heq with ⟨rfl, rfl, rfl⟩ | ⟨ws, rfl, rfl⟩
          · exact hbefore
          · exact hfresh hspends a (by simp)
        rw [hnone] at hrow₁
        cases hrow₁
    | some r =>
      rw [transaction_terms hstep]
      rcases eq_append_singleton_cases heq with ⟨rfl, rfl, rfl⟩ | ⟨ws, rfl, rfl⟩
      · rw [Option.some.inj (hbefore.symm.trans hrow₁)]
      · exact hterms us a ws r₁ r rfl hrow₁ hbefore
  · intro e es _ hterms us a vs r₁ r heq hrow₁ hrow
    rcases eq_append_singleton_cases heq with ⟨rfl, rfl, rfl⟩ | ⟨ws, rfl, rfl⟩
    · rw [Option.some.inj (hrow.symm.trans hrow₁)]
    · exact hterms us a ws r₁ r rfl hrow₁ hrow

-- The insertion's call has approved a transaction of the grant's client, scopes and resource,
-- under the nonce that its page was armed with.
def Consented (i : StoreCall) (g : Grant) (h : List StoreCall) : Prop :=
  Since (fun _ a => a.thread = i.thread ∧ ∃ id nonceHash now r,
      a.op = .execute (.approveTransaction id nonceHash now) ∧
      a.pre.db.getTransaction id = some r ∧ r.nonceHash = some nonceHash ∧ r.undecided = true ∧
      Fits g r)
    (fun b => b.thread = i.thread → Unreturned b.op) h

theorem Approved.consented (h : Run (oauth durable settings) (.initial w₀) es d)
    (hopen : Opening w₀) {i : StoreCall} (heq : es = xs ++ i :: ys) {g : Grant}
    (happroved : Approved i.thread g (xs.map ThreadCall.entry)) : Consented i g xs := by
  obtain ⟨id, hunder⟩ := happroved
  obtain ⟨us, b, vs, rfl, ⟨hthread, ⟨hread, r, hrow, hfits⟩, hbefore⟩, hquiet⟩ := Since.of_map hunder
  obtain ⟨as, a, bs, rfl, ⟨hthread', nonceHash, now, hop, r', hrow', hopenWith⟩, hquiet'⟩ :=
    Since.of_map hbefore
  obtain ⟨-, hnonce, hundecided⟩ := Store.openWith_iff.mp hopenWith
  have hterms := run_terms h hopen id (as ++ a :: bs) b (vs ++ i :: ys) (by simp [heq]) as a bs r' r
    rfl hrow' hrow
  obtain ⟨hclient, hscopes, hresource⟩ := hfits
  simp only [Transaction.terms, Prod.mk.injEq] at hterms
  refine ⟨as, a, bs ++ b :: vs, by simp, ⟨hthread', id, nonceHash, now, r', hop, hrow', hnonce,
    hundecided, hclient.trans hterms.1, hscopes.trans hterms.2.1, ?_⟩, fun f hf hft => ?_⟩
  · rw [hresource, hterms.2.2]
  · rcases List.mem_append.mp hf with hf | hf
    · exact hquiet' f hf hft
    · rcases List.mem_cons.mp hf with rfl | hf
      · rw [show f.op = _ from hread]
        trivial
      · exact hquiet f hf hft

-- The grant is the principal's, and says the same of it.
def Holds (g : Grant) (p : Principal) : Prop :=
  g.id = p.grantId ∧ g.clientId = p.clientId ∧ g.userId = p.userId ∧ g.scopes = p.scopes ∧
    g.resource = p.resource

-- What a principal rests on when its SELECT is made.
structure Entitled (w₀ : World Store) (h : List StoreCall) (token : Secret) (resource : String)
    (p : Principal) (f : StoreCall) : Prop where
  selects : Selects token resource p f.entry
  granted : (∃ g, w₀.db.getGrant p.grantId = some g ∧ Holds g p) ∨
    Since (fun xs i => ∃ g, i.op = .execute (.insertGrant g) ∧ Holds g p ∧
      (g.clientId = manualClientId ∨ Consented i g xs)) (fun _ => True) h
  unreplayed : ∀ xs e ys f c, h = xs ++ e :: ys → e.op = .returned f (.error .replay) →
    redeems f = some c → ∃ grantId, grantId ≠ some p.grantId ∧
      Since (fun _ b => b.thread = e.thread ∧ Finds c grantId b.entry)
        (fun b => b.thread = e.thread → Unreturned b.op) xs

theorem accessToken_grant {s : Store} {tokenHash : Digest} {r : Token} {g : Grant} {c : Client}
    (h : s.accessToken tokenHash = some (r, g, c)) : s.getGrant r.grantId = some g := by
  obtain ⟨r', -, hjoined⟩ := Option.bind_eq_some_iff.mp h
  obtain ⟨g', hg', hrow⟩ := Option.bind_eq_some_iff.mp hjoined
  obtain ⟨c', -, heq⟩ := Option.map_eq_some_iff.mp hrow
  cases heq
  exact hg'

theorem refreshToken_grant {s : Store} {tokenHash : Digest} {row : Token × Grant × Client}
    (h : s.refreshToken tokenHash = some row) : s.getGrant row.2.1.id = some row.2.1 := by
  obtain ⟨r, -, hjoined⟩ := Option.bind_eq_some_iff.mp h
  obtain ⟨g, hg, hrow⟩ := Option.bind_eq_some_iff.mp hjoined
  obtain ⟨c, -, rfl⟩ := Option.map_eq_some_iff.mp hrow
  exact Relational.Table.get?_key hg ▸ hg

theorem transactionByCode_row {s : Store} {codeHash : Digest} {r : Transaction}
    (h : s.transactionByCode codeHash = some r) : s.getTransaction r.id = some r :=
  Relational.Table.get?_of_mem (List.mem_of_find?_eq_some h)

-- The grant that a credential is found under is there.
theorem Finds.grant {c : Credential} {g : Uuid} {b : Past} (h : Finds c (some g) b)
    (hlinked : b.pre.db.Linked) : b.pre.db.getGrant g ≠ none := by
  cases c with
  | code codeHash =>
    obtain ⟨-, r, hrow, hgrant⟩ := h
    exact hlinked r.id r g (transactionByCode_row hrow) hgrant
  | refresh tokenHash =>
    obtain ⟨-, row, hrow, hgrant⟩ := h
    cases hgrant
    rw [refreshToken_grant hrow]
    exact Option.some_ne_none _

theorem entitled_granted (h : Run (oauth durable settings) (.initial w₀) es d)
    (hopen : Opening w₀) {f : StoreCall} (heq : es = xs ++ f :: ys) {p : Principal} {g : Grant}
    (hrow : f.pre.db.getGrant p.grantId = some g) (hg : Holds g p) :
    (∃ g, w₀.db.getGrant p.grantId = some g ∧ Holds g p) ∨
      Since (fun us i => ∃ g, i.op = .execute (.insertGrant g) ∧ Holds g p ∧
        (g.clientId = manualClientId ∨ Consented i g us)) (fun _ => True) xs := by
  obtain ⟨hid, hclient, huser, hscopes, hresource⟩ := hg
  have hholds {g₀ : Grant} (hid₀ : g₀.id = g.id) (hterms : g.terms = g₀.terms) : Holds g₀ p := by
    simp only [Grant.terms, Prod.mk.injEq] at hterms
    exact ⟨hid₀.trans hid, hterms.1.symm.trans hclient, hterms.2.1.symm.trans huser,
      hterms.2.2.1.symm.trans hscopes, hterms.2.2.2.1.symm.trans hresource⟩
  rcases run_origin h xs f ys heq p.grantId g hrow with
    ⟨g₀, hg₀, hterms⟩ | ⟨us, i, vs, rfl, ⟨g₀, hop, hid₀, hterms⟩, -⟩
  · exact .inl ⟨g₀, hid ▸ hg₀, hholds (Relational.Table.get?_key hg₀) hterms⟩
  · have hsplit : es = us ++ i :: (vs ++ f :: ys) := by simp [heq]
    refine .inr ⟨us, i, vs, rfl, ⟨g₀, hop, hholds hid₀ hterms, ?_⟩, fun _ _ => trivial⟩
    exact ((run_checked h us i _ hsplit).granted g₀ hop).imp_right fun happroved =>
      happroved.consented h hopen hsplit

-- A grant that is revoked while it is there is never found open again.
theorem replayed_other (h : Run (oauth durable settings) (.initial w₀) es d)
    (hlinked : w₀.db.Linked) {f : StoreCall} (heq : es = xs ++ f :: ys) {grantId : Uuid} {g : Grant}
    (hrow : f.pre.db.getGrant grantId = some g) (hopen : g.revokedAt = none) {us vs : List StoreCall}
    (hxs : xs = us ++ e :: vs) {c : Credential}
    (hreplayed : Replayed e.thread c (us.map ThreadCall.entry)) :
    ∃ found, found ≠ some grantId ∧ Since (fun _ b => b.thread = e.thread ∧ Finds c found b.entry)
      (fun b => b.thread = e.thread → Unreturned b.op) us := by
  rcases hreplayed with hnone | ⟨found, hunder⟩
  · exact ⟨none, (Option.some_ne_none _).symm, Since.of_map hnone⟩
  · obtain ⟨as, u, bs, rfl, ⟨-, hrevokes, hfound⟩, hquiet⟩ := Since.of_map hunder
    obtain ⟨as, b, cs, rfl, ⟨hthread, hfinds⟩, hquiet'⟩ := Since.of_map hfound
    refine ⟨some found, ?_, as, b, cs ++ u :: bs, by simp, ⟨hthread, hfinds⟩, fun k hk hkt => ?_⟩
    · rintro heq'
      cases heq'
      have hthere : b.pre.db.getGrant grantId ≠ none :=
        hfinds.grant (run_linked h hlinked as b (cs ++ u :: (bs ++ e :: vs ++ f :: ys))
          (by simp [heq, hxs]))
      have hstill : u.pre.db.getGrant grantId ≠ none :=
        run_stays h (as ++ b :: cs) u (bs ++ e :: vs ++ f :: ys) (by simp [heq, hxs]) as b cs rfl
          grantId hthere
      obtain ⟨g', hg', hrevoked⟩ := run_revoked h xs f ys heq (as ++ b :: cs) u (bs ++ e :: vs)
        (by simp [hxs]) grantId hrevokes hstill
      rw [Option.some.inj (hg'.symm.trans hrow)] at hrevoked
      exact hrevoked hopen
    · rcases List.mem_append.mp hk with hk | hk
      · exact hquiet' k hk hkt
      · rcases List.mem_cons.mp hk with rfl | hk
        · obtain ⟨now, hop⟩ := hrevokes
          rw [show k.op = _ from hop]
          trivial
        · exact hquiet k hk hkt

-- A token verifies only by the authority of its grant.
theorem verified_authority (h : Run (oauth durable settings) (.initial w₀) es d)
    (hlinked : w₀.db.Linked) (hopen : Opening w₀) (heq : es = xs ++ e :: ys) {token : Secret}
    {resource : String} {p : Principal}
    (hverified : e.op = .returned (.verifyAccessToken (some token) resource) (.ok (some p))) :
    Since (fun us f => f.thread = e.thread ∧ Entitled w₀ us token resource p f)
      (fun b => b.thread = e.thread → Unreturned b.op) xs := by
  obtain ⟨us, f, vs, rfl, ⟨hthread, hselects⟩, hquiet⟩ :=
    Since.of_map ((run_checked h xs e ys heq).verified token resource p hverified)
  have hsplit : es = us ++ f :: (vs ++ e :: ys) := by simp [heq]
  have ⟨_, r, g, c, haccess, _, _, hunrevoked, _, _, hp⟩ := hselects
  have hrow : f.pre.db.getGrant p.grantId = some g := by
    rw [hp]
    exact accessToken_grant haccess
  have hholds : Holds g p :=
    ⟨Relational.Table.get?_key hrow, by rw [hp], by rw [hp], by rw [hp], by rw [hp]⟩
  refine ⟨us, f, vs, rfl, ⟨hthread, hselects, entitled_granted h hopen hsplit hrow hholds, ?_⟩,
    hquiet⟩
  intro as e' bs f' c' has hop hredeems
  have hchecked := run_checked h as e' (bs ++ f :: (vs ++ e :: ys)) (by simp [hsplit, has])
  exact replayed_other h hlinked hsplit hrow hunrevoked has (hchecked.replayed f' c' hop hredeems)

end Runs

section Sample

def verified : Op → Option (Secret × String × Principal)
  | .returned (.verifyAccessToken (some token) resource) (.ok (some p)) => some (token, resource, p)
  | _ => none

theorem verified_sound {op : Op} {token : Secret} {resource : String} {p : Principal}
    (h : verified op = some (token, resource, p)) :
    op = .returned (.verifyAccessToken (some token) resource) (.ok (some p)) := by
  unfold verified at h
  split at h
  · cases h
    rfl
  · cases h

-- The sample's code is exchanged for tokens, of which the access token is verified.
def exchanged : List StoreCall × OAuthConfig Store :=
  (play durable .empty (sampleStart ++ sampleApproval ++
    whole 4 (.token "app" (.authorizationCode
      ⟨3, String.ofList (List.replicate 43 'v'), some "app/back", some "mcp"⟩)) 17 ++
    whole 5 (.call (.verifyAccessToken (some 5) "mcp")) 5)).get (by decide +kernel)

def exchangedReturn : StoreCall := exchanged.1[52]?.get (by decide +kernel)

def exchangedPrincipal : Principal where
  grantId := 2
  clientId := "app"
  userId := "admin"
  scopes := {"jobs:read"}
  resource := "mcp"
  expiresAt := 4600

theorem verified_authority_exchanged :
    Since (fun us f => f.thread = exchangedReturn.thread ∧
        Entitled (sampleWorld Store.empty) us 5 "mcp" exchangedPrincipal f)
      (fun b => b.thread = exchangedReturn.thread → Unreturned b.op) (exchanged.1.take 52) :=
  verified_authority (play_run (p := exchanged) (Option.some_get _).symm)
    (fun id r g hrow _ => by cases hrow) (fun id r hrow => by cases hrow)
    (split_at (show exchanged.1[52]? = some exchangedReturn from (Option.some_get _).symm))
    (verified_sound (by decide +kernel))

end Sample

end TranscodeForge.OAuth.Authority
