import TranscodeForge.OAuth.Performs
import TranscodeForge.OAuth.Fresh
import TranscodeForge.OAuth.Transactions

namespace TranscodeForge.OAuth.Consent

open Interaction

abbrev Past : Type := Entry Nat Op (World Store) Unit

abbrev Seen : Type := Traced Nat Op (World Store) Unit

-- A decision that finds its transaction open, under the nonce it carries.
def Accepts (id : Uuid) (nonceHash : Digest) (e : Past) : Prop :=
  ∃ q, e.op = .execute q ∧ q.decision = some (id, nonceHash) ∧ q.accepted e.pre.db = true

def Arms (id : Uuid) (nonceHash : Digest) (op : Op) : Prop :=
  op = .execute (.armConsent id nonceHash)

-- The transaction a call records a code for.
def recorded : Op → Option Uuid
  | .execute (.recordCode id _ _ _) => some id
  | _ => none

-- The page was last armed with this nonce.
def LastArmed (id : Uuid) (nonceHash : Digest) (h : List Past) : Prop :=
  Since (fun _ f => Arms id nonceHash f.op) (fun g => ∀ n, ¬Arms id n g.op) h

def decides : Call → Option (Uuid × Secret)
  | .approveTransaction id (some nonce) _ | .denyTransaction id (some nonce) => some (id, nonce)
  | _ => none

def succeeds : (f : Call) → Except Failure f.Result → Bool
  | .approveTransaction _ _ _, .ok (some _) | .denyTransaction _ _, .ok true => true
  | _, _ => false

-- The decision that a call returns as accepted: by its code, or as denied.
def reported : Op → Option (Uuid × Secret)
  | .returned f r => if succeeds f r then decides f else none
  | _ => none

def Reports (id : Uuid) (nonce : Secret) (op : Op) : Prop := reported op = some (id, nonce)

section Calls

-- The thread has been accepted, and has done nothing unquiet since.
def Own (t : Nat) (P : Past → Prop) (quiet : Op → Prop) (h : List Past) : Prop :=
  Since (fun _ e => e.thread = t ∧ P e) (fun g => g.thread = t → quiet g.op) h

def Unreturned : Op → Prop
  | .returned _ _ => False
  | _ => True

def Deciding (t : Nat) (id : Uuid) (nonce : Secret) (h : List Past) : Prop :=
  Own t (Accepts id (hashToken .nonce nonce)) Unreturned h

def Claiming (t : Nat) (id : Uuid) (h : List Past) : Prop :=
  Own t (fun e => ∃ nonceHash, Accepts id nonceHash e) (fun op => recorded op ≠ some id) h

def Checked (t : Nat) (_ : Request) (op : Op) (_ : Unit) (x : Seen) : Prop :=
  (∀ id nonce, Reports id nonce op → Deciding t id nonce x.2) ∧
    ∀ id, recorded op = some id → Claiming t id x.2

abbrev auditing (settings : Settings) (t : Nat) (r : Request) : Contract Op Seen Unit :=
  (oauth durable settings).audit (fun _ _ _ _ _ => True) Checked t r

-- What neither returns nor records a code.
def Quiet (op : Op) : Prop := Unreturned op ∧ recorded op = none

variable {settings : Settings} {t : Nat} {r : Request} {x : Seen} {α : Type}
variable {P : Past → Prop} {quiet : Op → Prop}

theorem Quiet.of_asks {op : Op} (h : Asks false op) : Quiet op := by
  cases op with
  | execute q =>
    refine ⟨trivial, ?_⟩
    cases q with
    | recordCode id grantId codeHash expiresAt => cases h rfl
    | _ => rfl
  | returned f r => exact h.elim
  | _ => exact ⟨trivial, rfl⟩

theorem Unreturned.reports {op : Op} {id : Uuid} {nonce : Secret} (h : Unreturned op) :
    ¬Reports id nonce op := by
  cases op with
  | returned f o => exact h.elim
  | _ => exact fun hreports => by cases hreports

theorem Quiet.checked {op : Op} {i : Unit} (h : Quiet op) : Checked t r op i x := by
  constructor
  · exact fun id nonce hreports => absurd hreports h.1.reports
  · intro id hrecords
    rw [h.2] at hrecords
    cases hrecords

theorem own_stable : (oauth durable settings).Stable (fun _ _ _ _ _ => True) t
    fun x => Own t P quiet x.2 where
  call _ _ _ _ _ hne _ hy := Since.append hy fun hthread => absurd hthread hne
  start _ _ _ _ _ hy := hy
  disturb _ _ hy := hy

theorem Own.next {op : Op} {i : Unit} (h : Own t P quiet x.2) (hop : quiet op) :
    Own t P quiet ((oauth durable settings).traced.next t op i x).2 :=
  Since.append h fun _ => hop

-- A stretch of calls that the thread's own event stays the last one through.
theorem own_wp {p : Repo α} (hp : p.Calls Quiet) (hquiet : ∀ op, Quiet op → quiet op)
    (hx : Own t P quiet x.2) :
    p.wp (oauth durable settings).traced t (auditing settings t r)
      (fun _ y => Own t P quiet y.2) x :=
  Program.wp_of_calls hp hx (fun _ _ hy hrely => own_stable.keeps hy hrely)
    fun op i _ hop hy _ _ => ⟨hop.checked (r := r) (i := i), Own.next hy (hquiet op hop)⟩

theorem quiet_orIntegrity (inserted : Bool) (k : Unit → Repo α) (hk : (k ()).Calls Quiet) :
    ((orIntegrity inserted).bind k).Calls Quiet := by
  cases inserted with
  | true => exact hk
  | false => trivial

theorem createGrant_quiet {clientId userId : String} {scopes : Scopes} {resource label : String}
    {expiresAt : Option Time} :
    (createGrant clientId userId scopes resource label expiresAt).Calls Quiet :=
  (Program.Calls.ofExcept _).bind fun _ => ⟨⟨trivial, rfl⟩, fun _ => ⟨⟨trivial, rfl⟩, fun _ =>
    ⟨⟨trivial, rfl⟩, fun inserted =>
      quiet_orIntegrity inserted _ ⟨⟨trivial, rfl⟩, fun _ => trivial⟩⟩⟩⟩

theorem issueAccessToken_quiet {grantId : Uuid} {ttl : Int} :
    (issueAccessToken grantId ttl).Calls Quiet :=
  ⟨⟨trivial, rfl⟩, fun _ => ⟨⟨trivial, rfl⟩, fun _ => ⟨⟨trivial, rfl⟩, fun inserted =>
    quiet_orIntegrity inserted _ ⟨⟨trivial, rfl⟩, fun _ => trivial⟩⟩⟩⟩

theorem createManualGrant_quiet {label : String} {scopes : Scopes} {resource userId : String}
    {expiresAt : Option Time} :
    (createManualGrant label scopes resource userId expiresAt).Calls Quiet :=
  (ensureClient_asks.mono fun _ => Quiet.of_asks).bind fun _ => ⟨⟨trivial, rfl⟩, fun _ =>
    createGrant_quiet.bind fun _ => ⟨⟨trivial, rfl⟩, fun _ =>
      issueAccessToken_quiet.bind fun _ => trivial⟩⟩

theorem issueTokens_quiet (grantId : Uuid) : (issueTokens grantId).Calls Quiet := by
  refine ⟨⟨trivial, rfl⟩, fun row => ?_⟩
  cases row with
  | none => trivial
  | some g =>
    exact ⟨⟨trivial, rfl⟩, fun _ => ⟨⟨trivial, rfl⟩, fun _ => ⟨⟨trivial, rfl⟩, fun _ =>
      ⟨⟨trivial, rfl⟩, fun inserted => quiet_orIntegrity inserted _
        ⟨⟨trivial, rfl⟩, fun inserted => quiet_orIntegrity inserted _
          ⟨⟨trivial, rfl⟩, fun _ => trivial⟩⟩⟩⟩⟩⟩

-- Of all calls only an approval records a code.
theorem body_quiet (f : Call) (hf : ∀ id nonce userId, f ≠ .approveTransaction id nonce userId) :
    f.body.Calls Quiet := by
  cases f with
  | approveTransaction id nonce userId => exact absurd rfl (hf id nonce userId)
  | createManualGrant => exact createManualGrant_quiet
  | issueTokens grantId => exact issueTokens_quiet grantId
  | _ => exact (Call.body_asks _).mono fun _ => Quiet.of_asks

theorem Own.claiming {id : Uuid} {nonceHash : Digest} {h : List Past}
    (hown : Own t (Accepts id nonceHash) Quiet h) : Claiming t id h :=
  Since.mono hown (fun _ _ hf => ⟨hf.1, nonceHash, hf.2⟩) fun _ hquiet hthread heq => by
    rw [(hquiet hthread).2] at heq
    cases heq

theorem Own.deciding {id : Uuid} {nonce : Secret} {h : List Past}
    (hown : Own t (Accepts id (hashToken .nonce nonce)) Quiet h) : Deciding t id nonce h :=
  Since.mono hown (fun _ _ hf => hf) fun _ hquiet hthread => (hquiet hthread).1

theorem approveTransaction_wp (id : Uuid) (nonce : Secret) (userId : String) :
    (OAuth.approveTransaction id (some nonce) userId).wp (oauth durable settings).traced t
      (auditing settings t r) (fun o y => ∀ code, o = .ok (some code) → Deciding t id nonce y.2)
      x := by
  refine System.wp_audit (System.Stable.true t) trivial fun i y _ _ => ⟨Quiet.checked ⟨trivial, rfl⟩, ?_⟩
  refine System.wp_audit (System.Stable.true t) trivial fun i z _ _ =>
    ⟨Quiet.checked (.of_asks fun h => h), ?_⟩
  generalize hchanged : (oauth durable settings).handler.answer t _ i z.1 = changed
  have haccepted : changed = true → Own t (Accepts id (hashToken .nonce nonce)) Quiet
      ((oauth durable settings).traced.next t
        (.execute (.approveTransaction id (hashToken .nonce nonce) y.1.now)) i z).2 := by
    rintro rfl
    exact Since.here ⟨rfl, _, rfl, rfl, hchanged⟩
  cases changed with
  | false =>
    exact System.wp_audit (System.Stable.true t) trivial fun _ _ _ _ =>
      ⟨Quiet.checked ⟨trivial, rfl⟩, fun code heq => by cases heq⟩
  | true =>
    refine System.wp_audit own_stable (haccepted rfl) fun i u hu _ => ⟨Quiet.checked ⟨trivial, rfl⟩, ?_⟩
    have hcommitted : Own t (Accepts id (hashToken .nonce nonce)) Quiet
        ((oauth durable settings).traced.next t .commit i u).2 := hu.next ⟨trivial, rfl⟩
    have hopened : (getTransaction id).Calls Quiet :=
      (getTransaction_asks id).mono fun _ => Quiet.of_asks
    change Program.wp _ _ _ ((getTransaction id).bind _) _ _
    refine Program.wp_seq (own_wp hopened (fun _ hop => hop) hcommitted) (fun txn v hv => ?_)
      fun e v _ code heq => by cases heq
    cases txn with
    | none => exact fun code heq => by cases heq
    | some txn =>
      refine Program.wp_seq (own_wp createGrant_quiet (fun _ hop => hop) hv)
        (fun grantId w hw => ?_) fun e w _ code heq => by cases heq
      refine System.wp_audit own_stable hw fun i w' hw' _ => ⟨Quiet.checked ⟨trivial, rfl⟩, ?_⟩
      have hdrawn : Own t (Accepts id (hashToken .nonce nonce)) Quiet
          ((oauth durable settings).traced.next t .generate i w').2 := hw'.next ⟨trivial, rfl⟩
      -- The one statement that records a code: nothing of the thread has recorded one since.
      refine System.wp_audit own_stable hdrawn fun i v' hv' _ => ⟨⟨?_, ?_⟩, ?_⟩
      · intro id' nonce' heq
        cases heq
      · intro id' heq
        cases heq
        exact hv'.claiming
      · generalize (oauth durable settings).handler.answer t _ i v'.1 = recorded
        cases recorded with
        | false => exact fun code heq => by cases heq
        | true =>
          exact System.wp_audit own_stable (Own.next hv'.deciding trivial) fun _ _ hdone _ =>
            ⟨Quiet.checked ⟨trivial, rfl⟩, fun _ _ => Own.next hdone trivial⟩

theorem denyTransaction_wp (id : Uuid) (nonce : Secret) :
    (denyTransaction id (some nonce)).wp (oauth durable settings).traced t
      (auditing settings t r) (fun o y => o = .ok true → Deciding t id nonce y.2) x := by
  refine System.wp_audit (System.Stable.true t) trivial fun i y _ _ => ⟨Quiet.checked ⟨trivial, rfl⟩, ?_⟩
  refine System.wp_audit (System.Stable.true t) trivial fun i z _ _ =>
    ⟨Quiet.checked (.of_asks fun h => h), ?_⟩
  generalize hchanged : (oauth durable settings).handler.answer t _ i z.1 = changed
  cases changed with
  | false =>
    exact System.wp_audit (System.Stable.true t) trivial fun _ _ _ _ =>
      ⟨Quiet.checked ⟨trivial, rfl⟩, fun heq => by cases heq⟩
  | true =>
    have haccepted : Own t (Accepts id (hashToken .nonce nonce)) Quiet
        ((oauth durable settings).traced.next t
          (.execute (.denyTransaction id (hashToken .nonce nonce) y.1.now)) i z).2 :=
      Since.here ⟨rfl, _, rfl, rfl, hchanged⟩
    refine System.wp_audit own_stable haccepted fun i u hu _ => ⟨Quiet.checked ⟨trivial, rfl⟩, fun _ => ?_⟩
    exact Own.next hu.deciding trivial

theorem body_wp (f : Call) : f.body.wp (oauth durable settings).traced t (auditing settings t r)
    (fun o y => ∀ id nonce, decides f = some (id, nonce) → succeeds f o = true →
      Deciding t id nonce y.2) x := by
  have hother (hf : decides f = none) (hquiet : f.body.Calls Quiet) :
      f.body.wp (oauth durable settings).traced t (auditing settings t r)
        (fun o y => ∀ id nonce, decides f = some (id, nonce) → succeeds f o = true →
          Deciding t id nonce y.2) x := by
    refine Program.wp_mono (System.wp_audit_of_calls hquiet fun _ _ _ hop _ => hop.checked)
      fun o y _ id nonce hdecides => ?_
    rw [hf] at hdecides
    cases hdecides
  cases f with
  | approveTransaction id nonce userId =>
    cases nonce with
    | none => exact fun id nonce heq => by cases heq
    | some nonce =>
      refine Program.wp_mono (approveTransaction_wp id nonce userId)
        fun o y hy id' nonce' heq hsucceeds => ?_
      cases heq
      match o, hsucceeds with
      | .ok (some code), _ => exact hy code rfl
  | denyTransaction id nonce =>
    cases nonce with
    | none => exact fun id nonce heq => by cases heq
    | some nonce =>
      refine Program.wp_mono (denyTransaction_wp id nonce) fun o y hy id' nonce' heq hsucceeds => ?_
      cases heq
      match o, hsucceeds with
      | .ok true, _ => exact hy rfl
  | _ => exact hother rfl (body_quiet _ nofun)

theorem invoke_wp (f : Call) : f.invoke.wp (oauth durable settings).traced t
    (auditing settings t r) (fun _ _ => True) x := by
  refine audit_invoke (body_wp f) (fun o => ?_) fun o i y hy => ⟨?_, ?_⟩
  · exact ⟨fun t' r' op i y hne ha hy id nonce hf ho =>
      own_stable.call t' r' op i y hne ha (hy id nonce hf ho), fun _ _ _ _ _ hy => hy,
      fun _ _ hy => hy⟩
  · intro id nonce hreports
    rw [Reports, reported] at hreports
    split at hreports
    · next hsucceeds => exact hy id nonce hreports hsucceeds
    · cases hreports
  · intro id heq
    cases heq

theorem request_wp (r' : Request) : (r'.body settings).wp (oauth durable settings).traced t
    (auditing settings t r) (fun _ _ => True) x :=
  audit_request (fun _ _ _ hop => (Quiet.of_asks hop).checked) (fun f _ => invoke_wp f) r'

end Calls

section Rows

variable {w₀ : World Store} {id : Uuid} {h : List Past} {e : Past} {q : Statement}
variable {x x' : Option Transaction}

-- The id was drawn before the run, or a statement has stored it since.
def Introduced (w₀ : World Store) (id : Uuid) (h : List Past) : Prop :=
  id < w₀.drawn ∨ ∃ e ∈ h, e.op.spends = some id

-- What the calls so far tell of a transaction's row.
structure Chronicle (w₀ : World Store) (id : Uuid) (h : List Past) (x : Option Transaction) :
    Prop where
  known : x ≠ none → Introduced w₀ id h
  closed : ∀ e ∈ h, ∀ n, Accepts id n e →
    Introduced w₀ id h ∧ ∀ r, x = some r → r.undecided = false
  armed : ∀ r n, x = some r → r.undecided = true → r.nonceHash = some n → LastArmed id n h

theorem Introduced.append (hid : Introduced w₀ id h) : Introduced w₀ id (h ++ [e]) :=
  hid.imp_right fun ⟨f, hf, hspends⟩ => ⟨f, List.mem_append_left _ hf, hspends⟩

theorem LastArmed.append {n : Digest} (hlast : LastArmed id n h) (he : ∀ n, ¬Arms id n e.op) :
    LastArmed id n (h ++ [e]) :=
  Since.append hlast he

theorem Accepts.row {n : Digest} (haccepts : Accepts id n e) (hop : e.op = .execute q) :
    q.decision = some (id, n) ∧
      ∃ r, e.pre.db.getTransaction id = some r ∧ Store.openWith id n r = true := by
  obtain ⟨q', hop', hdecision, haccepted⟩ := haccepts
  obtain rfl : q' = q := Op.execute.inj (hop'.symm.trans hop)
  exact ⟨hdecision, (accepted_iff hdecision).mp haccepted⟩

theorem consents_of_decision {n : Digest} {r : Transaction} (hq : q.decision = some (id, n)) :
    q.consents r = Store.openWith id n r := by
  cases q with
  | approveTransaction id' n' now =>
    cases hq
    rfl
  | denyTransaction id' n' now =>
    cases hq
    rfl
  | _ => cases hq

-- A call that leaves the row, because its condition fails or it has none.
theorem Chronicle.kept (hc : Chronicle w₀ id h (e.pre.db.getTransaction id))
    (hidle : ∀ q, e.op = .execute q → ∀ r, e.pre.db.getTransaction id = some r →
      q.consents r = false) :
    Chronicle w₀ id (h ++ [e]) (e.pre.db.getTransaction id) where
  known hx := (hc.known hx).append
  closed f hf n haccepts := by
    rcases List.mem_append.mp hf with hf | hf
    · obtain ⟨hid, hclosed⟩ := hc.closed f hf n haccepts
      exact ⟨hid.append, hclosed⟩
    · obtain rfl := List.mem_singleton.mp hf
      have ⟨q, hop, _⟩ := haccepts
      obtain ⟨hdecision, r, hrow, hopen⟩ := haccepts.row hop
      rw [← consents_of_decision hdecision, hidle q hop r hrow] at hopen
      cases hopen
  armed r n hrow hundecided hnonce := by
    refine (hc.armed r n hrow hundecided hnonce).append fun n' harms => ?_
    have hconsents := hidle _ harms r hrow
    simp [Statement.consents, Store.getTransaction_id hrow, hundecided] at hconsents

-- A call that changes the row and is no decision.
theorem Chronicle.changed {r r' : Transaction} (hc : Chronicle w₀ id h (some r))
    (he : ∀ n, ¬Accepts id n e) (hdecided : r.undecided = false → r'.undecided = false)
    (harmed : ∀ n, r'.undecided = true → r'.nonceHash = some n → LastArmed id n (h ++ [e])) :
    Chronicle w₀ id (h ++ [e]) (some r') where
  known _ := (hc.known (Option.some_ne_none _)).append
  closed f hf n haccepts := by
    rcases List.mem_append.mp hf with hf | hf
    · obtain ⟨hid, hclosed⟩ := hc.closed f hf n haccepts
      refine ⟨hid.append, fun r'' heq => ?_⟩
      cases heq
      exact hdecided (hclosed r rfl)
    · obtain rfl := List.mem_singleton.mp hf
      exact absurd haccepts (he n)
  armed r'' n heq hundecided hnonce := by
    cases heq
    exact harmed n hundecided hnonce

theorem Chronicle.decided {r' : Transaction} (hc : Chronicle w₀ id h x) (hx : x ≠ none)
    (hdecided : r'.undecided = false) : Chronicle w₀ id (h ++ [e]) (some r') where
  known _ := (hc.known hx).append
  closed f hf n haccepts := by
    refine ⟨(hc.known hx).append, fun r'' heq => ?_⟩
    cases heq
    exact hdecided
  armed r'' n heq hundecided _ := by
    cases heq
    rw [hdecided] at hundecided
    cases hundecided

theorem Chronicle.executed (hc : Chronicle w₀ id h (e.pre.db.getTransaction id))
    (hop : e.op = .execute q) (hfresh : q.spends = some id → ¬Introduced w₀ id h) :
    Chronicle w₀ id (h ++ [e]) ((q.next e.pre.db).getTransaction id) := by
  have hnone (hq : q.decision = none) (n : Digest) : ¬Accepts id n e := by
    intro haccepts
    have hdecision := (haccepts.row hop).1
    rw [hq] at hdecision
    cases hdecision
  have hstep := row_next q e.pre.db id
  generalize hbefore : e.pre.db.getTransaction id = x at hstep hc
  generalize (q.next e.pre.db).getTransaction id = x' at hstep
  cases hstep with
  | kept hidle =>
    subst hbefore
    refine hc.kept fun q' hop' => ?_
    obtain rfl : q' = q := Op.execute.inj (hop'.symm.trans hop)
    exact hidle
  | @created r hq hid =>
    subst hq hid
    refine ⟨fun _ => .inr ⟨e, by simp, by rw [hop]; rfl⟩, fun f hf n haccepts => ?_, ?_⟩
    · rcases List.mem_append.mp hf with hf | hf
      · exact absurd (hc.closed f hf n haccepts).1 (hfresh rfl)
      · obtain rfl := List.mem_singleton.mp hf
        exact absurd haccepts (hnone rfl n)
    · rintro r' n heq - hnonce
      cases heq
      cases hnonce
  | @armed r n hq hopen =>
    subst hq
    refine hc.changed (hnone rfl) (fun hdecided => hdecided) fun n' _ hnonce => ?_
    cases hnonce
    exact Since.here hop
  | approved hq hopen => exact hc.decided (Option.some_ne_none _) rfl
  | denied hq hopen => exact hc.decided (Option.some_ne_none _) (by simp [Transaction.undecided, Transaction.denied])
  | coded hq =>
    subst hq
    refine hc.changed (hnone rfl) (fun hdecided => hdecided) fun n' hundecided hnonce => ?_
    refine (hc.armed _ n' rfl hundecided hnonce).append fun n'' harms => ?_
    cases hop.symm.trans harms
  | spent hq hcode hnull =>
    exact hc.decided (Option.some_ne_none _) (by simp [Transaction.undecided, Transaction.consumed])
  | purged hq hexpired =>
    subst hq
    refine ⟨fun hx => absurd rfl hx, fun f hf n haccepts => ?_, fun r n heq => by cases heq⟩
    exact ⟨(hc.known (Option.some_ne_none _)).append, fun r heq => by cases heq⟩

end Rows

-- The page of the transaction has not been armed, and its id is not drawn again.
def Opening (id : Uuid) (w₀ : World Store) : Prop :=
  ∀ r, w₀.db.getTransaction id = some r → id < w₀.drawn ∧ r.nonceHash = none

section Runs

variable {settings : Settings} {w₀ : World Store} {id : Uuid} {es : List (OAuthCall Store)}
variable {d : OAuthConfig Store}

theorem run_chronicle (h : Run (oauth durable settings) (.initial w₀) es d)
    (hopen : Opening id w₀) :
    ∀ xs e ys, es = xs ++ e :: ys →
      Chronicle w₀ id (xs.map ThreadCall.entry) (e.pre.db.getTransaction id) := by
  refine (Run.history_invariant
    (P := fun w es => Chronicle w₀ id (es.map ThreadCall.entry) (w.db.getTransaction id))
    (A := fun xs e => e.op.spends = some id → ¬Introduced w₀ id (xs.map ThreadCall.entry))
    h ?_ ?_ ?_ ?_ ?_).1
  · rintro xs e ys heq hspends (hold | ⟨f, hf, hf'⟩)
    · exact (run_fresh h xs e ys heq id hspends).1 hold
    · obtain ⟨g, hg, rfl⟩ := List.mem_map.mp hf
      exact (run_fresh h xs e ys heq id hspends).2 g hg hf'
  · refine ⟨fun hx => ?_, fun e he => (by cases he), fun r n hrow _ hnonce => ?_⟩
    · obtain ⟨r, hrow⟩ := Option.ne_none_iff_exists'.mp hx
      exact .inl (hopen r hrow).1
    · rw [(hopen r hrow).2] at hnonce
      cases hnonce
  · intro t r w w' es hc hstart
    cases hstart
    exact hc
  · intro k w es hc
    cases k <;> exact hc
  · rintro ⟨⟨op, i, w, w'⟩, t, r⟩ es hpost hfresh hc
    change w' = (oauth durable settings).handler.next t op i w at hpost
    subst hpost
    rw [List.map_append]
    cases op with
    | execute q => exact Chronicle.executed hc rfl hfresh
    | commit => exact Chronicle.kept hc fun _ hop => by cases hop
    | now => exact Chronicle.kept hc fun _ hop => by cases hop
    | generate => exact Chronicle.kept hc fun _ hop => by cases hop
    | returned f o => exact Chronicle.kept hc fun _ hop => by cases hop

theorem run_accepts (h : Run (oauth durable settings) (.initial w₀) es d) (hopen : Opening id w₀) :
    Once (fun e => ∃ n, Accepts id n e) (es.map ThreadCall.entry) := by
  rintro xs e ys e' zs heq ⟨n, haccepts⟩ ⟨n', haccepts'⟩
  obtain ⟨xs', e', ys', hes, hxs, rfl, -⟩ := map_split heq
  have hc := run_chronicle h hopen xs' e' ys' hes
  rw [hxs] at hc
  have ⟨q, hop, _⟩ := haccepts'
  obtain ⟨-, r, hrow, hfound⟩ := haccepts'.row hop
  have hundecided := (Store.openWith_iff.mp hfound).2.2
  rw [(hc.closed e (by simp) n haccepts).2 r hrow] at hundecided
  cases hundecided

theorem run_armed (h : Run (oauth durable settings) (.initial w₀) es d) (hopen : Opening id w₀) :
    ∀ xs e ys, es.map ThreadCall.entry = xs ++ e :: ys → ∀ n, Accepts id n e →
      LastArmed id n xs := by
  intro xs e ys heq n haccepts
  obtain ⟨xs', e', ys', hes, rfl, rfl, -⟩ := map_split heq
  have ⟨q, hop, _⟩ := haccepts
  obtain ⟨-, r, hrow, hfound⟩ := haccepts.row hop
  obtain ⟨-, hnonce, hundecided⟩ := Store.openWith_iff.mp hfound
  exact (run_chronicle h hopen xs' e' ys' hes).armed r n hrow hundecided hnonce

theorem run_checked (h : Run (oauth durable settings) (.initial w₀) es d) :
    ∀ xs e ys, es.map ThreadCall.entry = xs ++ e :: ys →
      (∀ id nonce, Reports id nonce e.op → Deciding e.thread id nonce xs) ∧
        ∀ id, recorded e.op = some id → Claiming e.thread id xs := by
  intro xs e ys heq
  obtain ⟨xs', e', ys', hes, rfl, rfl, -⟩ := map_split heq
  exact h.audited (fun _ _ _ => request_wp _) (fun _ _ _ _ => trivial) xs' e' ys' hes

-- One decision at most is accepted on a transaction, under the nonce its page was last armed
-- with; one code at most is recorded; and a call reports no decision but its own accepted one.
theorem decided_once (h : Run (oauth durable settings) (.initial w₀) es d)
    (hopen : Opening id w₀) :
    Once (fun e => ∃ n, Accepts id n e) (es.map ThreadCall.entry) ∧
      Once (fun e => ∃ nonce, Reports id nonce e.op) (es.map ThreadCall.entry) ∧
      Once (fun e => recorded e.op = some id) (es.map ThreadCall.entry) ∧
      (∀ xs e ys, es.map ThreadCall.entry = xs ++ e :: ys → ∀ n, Accepts id n e →
        LastArmed id n xs) ∧
      ∀ xs e ys, es.map ThreadCall.entry = xs ++ e :: ys → ∀ nonce, Reports id nonce e.op →
        Since (fun us f => f.thread = e.thread ∧ Accepts id (hashToken .nonce nonce) f ∧
          LastArmed id (hashToken .nonce nonce) us) (fun _ => True) xs := by
  have haccepts := run_accepts h hopen
  have hchecked := run_checked h
  refine ⟨haccepts, ?_, ?_, run_armed h hopen, ?_⟩
  · refine haccepts.of_since Entry.thread fun xs e ys heq ⟨nonce, hreports⟩ => ?_
    refine ((hchecked xs e ys heq).1 id nonce hreports).mono ?_ ?_
    · exact fun _ f ⟨hthread, hf⟩ => ⟨hthread, _, hf⟩
    · rintro g hquiet hthread ⟨nonce', hreports⟩
      exact (hquiet hthread).reports hreports
  · refine haccepts.of_since Entry.thread fun xs e ys heq hrecords => ?_
    exact (hchecked xs e ys heq).2 id hrecords
  · intro xs e ys heq nonce hreports
    obtain ⟨us, f, vs, rfl, ⟨hthread, hf⟩, -⟩ := (hchecked xs e ys heq).1 id nonce hreports
    have hlast := run_armed h hopen us f (vs ++ e :: ys) (by simp [heq]) _ hf
    exact ⟨us, f, vs, rfl, ⟨hthread, hf, hlast⟩, fun _ _ => trivial⟩

end Runs

section Sample

-- Two pages are open: an approval with the older nonce, and an approval and a denial with the
-- newer one, which the approval overtakes.
def answering : List (OAuthCall Store) × OAuthConfig Store :=
  (play durable .empty (sampleStart ++ whole 3 (.consentPage 0) 7 ++
    .start 4 (.consentDecision 0 (some 1) true (some "admin")) ::
    .start 5 (.consentDecision 0 (some 2) true (some "admin")) ::
    .start 6 (.consentDecision 0 (some 2) false (some "admin")) ::
    calls 4 6 ++ calls 6 3 ++ calls 5 15 ++ calls 6 3)).get (by decide +kernel)

theorem decided_once_answering :
    Once (fun e => ∃ n, Accepts 0 n e) (answering.1.map ThreadCall.entry) ∧
      ∃ e ∈ answering.1, e.thread = 5 ∧ Reports 0 2 e.op := by
  have hrun := play_run (p := answering) (Option.some_get _).symm
  refine ⟨(decided_once hrun fun r hrow => by cases hrow).1, ?_⟩
  have hreports : answering.1[46]?.map (fun e => (e.thread, reported e.op)) =
      some (5, some (0, 2)) := by
    decide +kernel
  obtain ⟨e, hget, heq⟩ := Option.map_eq_some_iff.mp hreports
  obtain ⟨hthread, hreported⟩ := Prod.mk.injEq .. ▸ heq
  exact ⟨e, List.mem_of_getElem? hget, hthread, hreported⟩

end Sample

end TranscodeForge.OAuth.Consent
