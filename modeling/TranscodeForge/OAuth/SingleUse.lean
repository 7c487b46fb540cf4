import TranscodeForge.OAuth.Performs
import TranscodeForge.OAuth.Spending

namespace TranscodeForge.OAuth.SingleUse

open Interaction Database Relational

abbrev Shared : Type := World (Connection Store Statement)

abbrev SharedCall : Type := OAuthCall (Connection Store Statement)

abbrev SharedConfig : Type := OAuthConfig (Connection Store Statement)

abbrev Past : Type := Entry Nat Op Shared Unit

def seen (w : Shared) : Store := w.db.working dialect

def redeems : Call → Option Credential
  | .redeemCode code => some (.code (hashToken .code code))
  | .redeemRefreshToken token _ => some (.refresh (hashToken .refresh token))
  | _ => none

def succeeds : (f : Call) → Except Failure f.Result → Bool
  | .redeemCode _, .ok (some _) | .redeemRefreshToken _ _, .ok (some _) => true
  | _, _ => false

-- The return of a call that has redeemed the credential.
def Succeeds (c : Credential) (op : Op) : Prop :=
  ∃ f r, op = .returned f r ∧ redeems f = some c ∧ succeeds f r = true

def successOf : Op → Option Credential
  | .returned f r => if succeeds f r then redeems f else none
  | _ => none

theorem successOf_sound {op : Op} {c : Credential} (h : successOf op = some c) : Succeeds c op := by
  cases op with
  | returned f r =>
    simp only [successOf] at h
    split at h
    · next hsucceeds => exact ⟨f, r, rfl, h, hsucceeds⟩
    · cases h
  | _ => cases h

-- The row carries the stamp of the call that drew the marker.
def Stamped (c : Credential) (marker : Secret) (s : Store) : Prop :=
  ∃ now, s.spending c = some (some now, some marker)

def Marks (c : Credential) (marker : Secret) (e : Past) : Prop :=
  ∃ now, e.op = .execute (.consume c now marker) ∧
    (Statement.consume c now marker).answer (seen e.pre) = true

-- The thread has stamped the row and then asked nothing but commits.
def Marking (t : Nat) (c : Credential) (marker : Secret) (h : List Past) : Prop :=
  Since (fun _ e => e.thread = t ∧ Marks c marker e) (fun g => g.thread = t → g.op = .commit) h

-- The read-back that finds the caller's own marker.
structure Wins (c : Credential) (marker : Secret) (h : List Past) (e : Past) : Prop where
  op : e.op = .execute (.consumedBy c)
  answer : ((seen e.pre).spending c).map Prod.snd = some (some marker)
  marking : Marking e.thread c marker h
  settled : e.pre.db.Settled dialect (Stamped c marker)

-- The thread's call under way has won.
def Winning (t : Nat) (c : Credential) (h : List Past) : Prop :=
  Since (fun xs e => e.thread = t ∧ ∃ marker, Wins c marker xs e)
    (fun g => g.thread = t → ∀ f r, g.op ≠ .returned f r) h

def Admitted (_ : Nat) (_ : Request) (op : Op) (_ : Unit) (x : Traced Nat Op Shared Unit) : Prop :=
  (seen x.1).Dated ∧ ∀ n, op.spends = some n → (∀ f ∈ x.2, f.op.spends ≠ some n) ∧
    ∀ c, c.secret = n → ∀ marker, ∀ f ∈ x.2, ¬Marks c marker f

def Checked (t : Nat) (_ : Request) (op : Op) (_ : Unit) (x : Traced Nat Op Shared Unit) : Prop :=
  ∀ c, Succeeds c op → Winning t c x.2

abbrev auditing (settings : Settings) (t : Nat) (r : Request) :
    Contract Op (Traced Nat Op Shared Unit) Unit :=
  (oauth shared settings).audit Admitted Checked t r

section Calls

variable {settings : Settings} {t : Nat} {r : Request} {c : Credential} {marker : Secret}
variable {x : Traced Nat Op Shared Unit}

theorem Marks.spends {e : Past} (h : Marks c marker e) : e.op.spends = some marker := by
  obtain ⟨now, hop, -⟩ := h
  rw [hop]
  rfl

theorem stamped_of_next {q : Statement} {s : Store} (hdated : s.Dated)
    (hmarker : q.spends ≠ some marker) (hsecret : q.spends ≠ some c.secret)
    (h : Stamped c marker (q.next s)) : Stamped c marker s := by
  obtain ⟨now, hafter⟩ := h
  have hstep := spending_next q s c
  rw [hafter] at hstep
  generalize hbefore : s.spending c = before at hstep
  cases hstep with
  | kept => exact ⟨now, hbefore⟩
  | spent hq =>
    rw [hq] at hmarker
    exact absurd rfl hmarker
  | denied hq => cases hdated.spending hbefore
  | created hq => exact absurd hq hsecret

-- Where the row still is, its stamp is that of the marker.
def Kept (c : Credential) (marker : Secret) (s : Store) : Prop :=
  ∀ spent, s.spending c = some spent → ∃ now, spent = (some now, some marker)

theorem Stamped.kept {s : Store} (h : Stamped c marker s) : Kept c marker s := by
  obtain ⟨now, hspending⟩ := h
  intro spent hspent
  exact ⟨now, Option.some.inj (hspent.symm.trans hspending)⟩

theorem Kept.next {q : Statement} {s : Store} (h : Kept c marker s)
    (hsecret : q.spends ≠ some c.secret) : Kept c marker (q.next s) := by
  intro spent hspent
  have hstep := spending_next q s c
  rw [hspent] at hstep
  generalize hbefore : s.spending c = before at hstep
  cases hstep with
  | kept => exact h spent hbefore
  | spent hq =>
    obtain ⟨now, hnull⟩ := h _ hbefore
    cases hnull
  | denied hq =>
    obtain ⟨now, hnull⟩ := h _ hbefore
    cases hnull
  | created hq => exact absurd hq hsecret

theorem Stamped.next {q : Statement} {s : Store} (h : Stamped c marker s)
    (hq : q.removes c = false) : Stamped c marker (q.next s) := by
  obtain ⟨now, hbefore⟩ := h
  have hstep := spending_next q s c
  rw [hbefore] at hstep
  generalize hafter : (q.next s).spending c = after at hstep
  cases hstep with
  | kept => exact ⟨now, hafter⟩
  | removed hremoves =>
    rw [hq] at hremoves
    cases hremoves

theorem Marking.other {op : Op} {i : Unit} {t' : Nat} (h : Marking t c marker x.2) (hne : t' ≠ t) :
    Marking t c marker ((oauth shared settings).traced.next t' op i x).2 :=
  Since.append h fun hthread => absurd hthread hne

-- What nobody else writes stays settled.
theorem Marking.settled {op : Op} {i : Unit} {t' : Nat} (h : Marking t c marker x.2)
    (hsettled : x.1.db.Settled dialect (Stamped c marker)) (ha : Admitted t' r op i x) :
    ((oauth shared settings).traced.next t' op i x).1.db.Settled dialect (Stamped c marker) := by
  obtain ⟨xs, e, ys, heq, ⟨-, hmarks⟩, -⟩ := h
  have hmem : e ∈ x.2 := by simp [heq]
  obtain ⟨hdated, hfresh⟩ := ha
  cases op with
  | execute q =>
    have hmarker : q.spends ≠ some marker := fun hq => (hfresh marker hq).1 e hmem hmarks.spends
    have hsecret : q.spends ≠ some c.secret := fun hq =>
      (hfresh c.secret hq).2 c rfl marker e hmem hmarks
    exact hsettled.executed dialect t' none (stamped_of_next hdated hmarker hsecret)
  | commit => exact x.1.db.settled_committed dialect _
  | now => exact hsettled
  | generate => exact hsettled
  | returned f r => exact hsettled

theorem marking_stable : (oauth shared settings).Stable Admitted t fun x => Marking t c marker x.2 where
  call _ _ _ _ _ hne _ hy := hy.other hne
  start _ _ _ _ _ hy := hy
  disturb _ _ hy := hy

theorem settled_stable : (oauth shared settings).Stable Admitted t fun x =>
    Marking t c marker x.2 ∧ x.1.db.Settled dialect (Stamped c marker) where
  call _ _ _ _ _ hne ha hy := ⟨hy.1.other hne, hy.1.settled hy.2 ha⟩
  start t' r s' y hs hy := by
    cases hs
    exact hy
  disturb k y hy := by
    cases k with
    | clock seconds => exact hy
    | commit => exact ⟨hy.1, y.1.db.settled_committed dialect _⟩
    | rollback => exact ⟨hy.1, y.1.db.settled_rolledBack dialect _⟩

theorem winning_stable : (oauth shared settings).Stable Admitted t fun x => Winning t c x.2 where
  call _ _ _ _ _ hne _ hy := Since.append hy fun hthread => absurd hthread hne
  start _ _ _ _ _ hy := hy
  disturb _ _ hy := hy

theorem asked_checked {b : Bool} {op : Op} {i : Unit} (hop : Asks b op) :
    Checked t r op i x := by
  rintro c ⟨f, result, rfl, -⟩
  cases hop

theorem consume_wp : (consume c).wp (oauth shared settings).traced t (auditing settings t r)
    (fun o x => o = .ok true → Winning t c x.2) x := by
  refine System.wp_audit (System.Stable.true t) trivial fun i y _ _ =>
    ⟨asked_checked (b := true) trivial, ?_⟩
  refine System.wp_audit (System.Stable.true t) trivial fun i z _ _ =>
    ⟨asked_checked (b := true) trivial, ?_⟩
  refine System.wp_audit (System.Stable.true t) trivial fun i u _ _ =>
    ⟨asked_checked (b := true) fun h => (by cases h), ?_⟩
  generalize hchanged : (oauth shared settings).handler.answer t _ i u.1 = changed
  have hmarking : changed = true → Marking t c y.1.drawn
      ((oauth shared settings).traced.next t (.execute (.consume c z.1.now y.1.drawn)) i u).2 := by
    rintro rfl
    exact Since.here ⟨rfl, z.1.now, rfl, hchanged⟩
  have hstable : (oauth shared settings).Stable Admitted t fun x =>
      changed = true → Marking t c y.1.drawn x.2 :=
    ⟨fun t' r' op i y hne ha hy h => marking_stable.call t' r' op i y hne ha (hy h),
      fun _ _ _ _ _ hy => hy, fun _ _ hy => hy⟩
  refine System.wp_audit hstable hmarking fun i v hv _ =>
    ⟨asked_checked (b := true) trivial, ?_⟩
  cases changed with
  | false => exact fun h => by cases h
  | true =>
    have hcommitted : Marking t c y.1.drawn ((oauth shared settings).traced.next t .commit i v).2 :=
      Since.append (hv rfl) fun _ => rfl
    have hsettled : ((oauth shared settings).traced.next t .commit i v).1.db.Settled dialect
        (Stamped c y.1.drawn) := v.1.db.settled_committed dialect _
    refine System.wp_audit settled_stable ⟨hcommitted, hsettled⟩ fun i w hw _ =>
      ⟨asked_checked (b := true) fun h => (by cases h), fun hwon => ?_⟩
    refine Since.here ⟨rfl, y.1.drawn, rfl, ?_, hw.1, hw.2⟩
    exact beq_iff_eq.mp (Except.ok.inj hwon)

theorem asks_wp {b : Bool} {α : Type} {p : Repo α} (hp : p.Calls (Asks b)) :
    p.wp (oauth shared settings).traced t (auditing settings t r) (fun _ _ => True) x :=
  System.wp_audit_of_calls hp fun _ i y hop _ => asked_checked (r := r) (i := i) hop

theorem redeemCode_wp (code : Secret) :
    (redeemCode code).wp (oauth shared settings).traced t (auditing settings t r)
      (fun o x => ∀ txn, o = .ok (some txn) → Winning t (.code (hashToken .code code)) x.2) x := by
  refine System.wp_audit (System.Stable.true t) trivial fun i y _ _ =>
    ⟨asked_checked (b := true) trivial, ?_⟩
  change (Program.bind (consume _) _).wp _ _ _ _ _
  refine Program.wp_seq consume_wp (fun spent z hz => ?_) fun e z _ txn heq => by cases heq
  have hstable : (oauth shared settings).Stable Admitted t fun x =>
      spent = true → Winning t (.code (hashToken .code code)) x.2 :=
    ⟨fun t' r' op i y hne ha hy h => winning_stable.call t' r' op i y hne ha (hy h),
      fun _ _ _ _ _ hy => hy, fun _ _ hy => hy⟩
  refine System.wp_audit hstable (fun h => hz (congrArg _ h)) fun i u hu _ =>
    ⟨asked_checked (b := true) fun h => (by cases h), ?_⟩
  generalize (oauth shared settings).handler.answer t _ i u.1 = row
  cases row with
  | none => exact fun txn heq => by cases heq
  | some r' =>
    change Program.wp _ _ _ (if spent = true then _ else _) _ _
    split
    · next hspent => exact fun txn _ => Since.append (hu hspent) fun _ _ _ => nofun
    · split
      · exact fun txn heq => by cases heq
      · split
        · refine Program.wp_seq (asks_wp (b := true) (revokeGrant_asks _)) (fun _ _ _ => ?_)
            fun _ _ _ => ?_
          · exact fun txn heq => by cases heq
          · exact fun txn heq => by cases heq
        · exact fun txn heq => by cases heq

theorem redeemRefreshToken_wp (token : Secret) (requestedScopes : Option Scopes) :
    (redeemRefreshToken token requestedScopes).wp (oauth shared settings).traced t
      (auditing settings t r) (fun o x => ∀ g, o = .ok (some g) →
        Winning t (.refresh (hashToken .refresh token)) x.2) x := by
  refine System.wp_audit (System.Stable.true t) trivial fun i y _ _ =>
    ⟨asked_checked (b := true) trivial, ?_⟩
  refine System.wp_audit (System.Stable.true t) trivial fun i z _ _ =>
    ⟨asked_checked (b := true) fun h => (by cases h), ?_⟩
  generalize (oauth shared settings).handler.answer t _ i z.1 = row
  have hreplay {grantId : Uuid} {x : Traced Nat Op Shared Unit} :
      ((revokeGrant grantId).bind fun _ => (.raise .replay : Repo (Option Grant))).wp
        (oauth shared settings).traced t (auditing settings t r) (fun o x => ∀ g,
          o = .ok (some g) → Winning t (.refresh (hashToken .refresh token)) x.2) x :=
    Program.wp_seq (asks_wp (b := true) (revokeGrant_asks _)) (fun _ _ _ _ heq => by cases heq)
      fun _ _ _ _ heq => by cases heq
  cases row with
  | none => exact fun g heq => by cases heq
  | some row =>
    obtain ⟨r', g, c⟩ := row
    simp only [Program.ret_bind]
    split
    · exact hreplay
    · split
      · exact fun g heq => by cases heq
      · split
        · exact fun g heq => by cases heq
        · split
          · exact fun g heq => by cases heq
          · refine Program.wp_seq consume_wp (fun spent u hu => ?_) fun e u _ g heq => by cases heq
            split
            · next hspent => exact fun _ _ => hu (congrArg _ hspent)
            · refine System.wp_audit (System.Stable.true t) trivial fun i v _ _ =>
                ⟨asked_checked (b := true) fun h => (by cases h), ?_⟩
              simp only [Program.ret_bind]
              split
              · exact fun g heq => by cases heq
              · exact hreplay

-- A call that returns a success has won; nothing else of it has returned since.
theorem body_wp (f : Call) : f.body.wp (oauth shared settings).traced t (auditing settings t r)
    (fun o x => ∀ c, redeems f = some c → succeeds f o = true → Winning t c x.2) x := by
  have hother (hf : redeems f = none) :
      f.body.wp (oauth shared settings).traced t (auditing settings t r)
        (fun o x => ∀ c, redeems f = some c → succeeds f o = true → Winning t c x.2) x := by
    refine Program.wp_mono (asks_wp f.body_asks) fun o y _ c hredeems => ?_
    rw [hf] at hredeems
    cases hredeems
  cases f with
  | redeemCode code =>
    refine Program.wp_mono (redeemCode_wp code) fun o y hy c hredeems hsucceeds => ?_
    cases hredeems
    match o, hsucceeds with
    | .ok (some txn), _ => exact hy txn rfl
  | redeemRefreshToken token requestedScopes =>
    refine Program.wp_mono (redeemRefreshToken_wp token requestedScopes)
      fun o y hy c hredeems hsucceeds => ?_
    cases hredeems
    match o, hsucceeds with
    | .ok (some g), _ => exact hy g rfl
  | _ => exact hother rfl

theorem invoke_wp (f : Call) : f.invoke.wp (oauth shared settings).traced t
    (auditing settings t r) (fun _ _ => True) x := by
  refine audit_invoke (body_wp f) (fun o => ?_) fun o i y hy => ?_
  · exact ⟨fun t' r' op i y hne ha hy c hc ho => winning_stable.call t' r' op i y hne ha (hy c hc ho),
      fun _ _ _ _ _ hy => hy, fun _ _ hy => hy⟩
  · rintro c ⟨f', o', heq, hredeems, hsucceeds⟩
    cases heq
    exact hy c hredeems hsucceeds

theorem request_wp (r' : Request) : (r'.body settings).wp (oauth shared settings).traced t
    (auditing settings t r) (fun _ _ => True) x :=
  audit_request (fun _ _ _ hop => asked_checked hop) (fun f _ => invoke_wp f) r'

end Calls

section Views

variable {w : Shared} {P P' : Store → Prop}

-- Of what the requests see, and of what is durable.
def Both (P : Store → Prop) (w : Shared) : Prop := P (seen w) ∧ P w.db.durable

theorem Both.mono (h : Both P w) (hP : ∀ s, P s → P' s) : Both P' w := ⟨hP _ h.1, hP _ h.2⟩

theorem Both.exec {t : Nat} {op : Op} (h : Both P w) (hP : ∀ s, P s → P' s)
    (hop : ∀ q, op = .execute q → P (seen w) → P' (q.next (seen w))) :
    Both P' (shared.exec t w op).1 := by
  cases op with
  | execute q =>
    refine ⟨?_, ?_⟩
    · change P' ((w.db.executed dialect t none q).working dialect)
      rw [Connection.working_executed]
      exact hop q rfl h.1
    · change P' (w.db.executed dialect t none q).durable
      rw [Connection.durable_executed]
      exact hP _ h.2
  | commit => exact ⟨hP _ h.1, hP _ h.1⟩
  | now => exact h.mono hP
  | generate => exact h.mono hP
  | returned f r => exact h.mono hP

theorem Both.disturb (h : Both P w) (k : Disturbance) : Both P (shared.disturb w k) := by
  cases k with
  | clock seconds => exact h
  | commit => exact ⟨h.1, h.1⟩
  | rollback => exact ⟨h.2, h.2⟩

end Views

-- Rows written by the store's own statements, with names that have been drawn.
structure Opening (w : Shared) : Prop where
  dated : Both Store.Dated w
  drawn : ∀ c, Both (fun s => s.spending c ≠ none → c.secret < w.drawn) w

section Runs

variable {settings : Settings} {w₀ : Shared} {es : List SharedCall} {d : SharedConfig}

theorem run_dated (h : Run (oauth shared settings) (.initial w₀) es d) (hopen : Opening w₀) :
    ∀ e ∈ es, Both Store.Dated e.pre := by
  refine (h.invariant (P := Both Store.Dated) (A := fun _ => True) (fun _ _ => trivial) hopen.dated
    ?_ ?_ ?_).1
  · intro t r w w' hw hstart
    cases hstart
    exact hw
  · exact fun k w hw => hw.disturb k
  · exact fun t r op i w hw _ => hw.exec (fun _ hs => hs) fun q _ hs => dated_next q hs

-- A credential that has a row was there before the run or has been introduced in it.
def Known (w₀ : Shared) (es : List SharedCall) (s : Store) : Prop :=
  ∀ c, s.spending c ≠ none → c.secret < w₀.drawn ∨ ∃ e ∈ es, e.op.spends = some c.secret

theorem run_known (h : Run (oauth shared settings) (.initial w₀) es d) (hopen : Opening w₀) :
    ∀ xs e ys, es = xs ++ e :: ys → Both (Known w₀ xs) e.pre := by
  refine (Run.history_invariant (P := fun w es => Both (Known w₀ es) w) (A := fun _ _ => True) h
    (fun _ _ _ _ => trivial) ?_ ?_ ?_ ?_).1
  · exact ⟨fun c hc => .inl ((hopen.drawn c).1 hc), fun c hc => .inl ((hopen.drawn c).2 hc)⟩
  · intro t r w w' es hw hstart
    cases hstart
    exact hw
  · exact fun k w es hw => hw.disturb k
  · intro e es hpost _ hw
    rw [hpost]
    refine hw.exec (fun s hs c hc => (hs c hc).imp_right fun ⟨f, hf, hspends⟩ =>
      ⟨f, List.mem_append_left _ hf, hspends⟩) fun q hop hs c hc => ?_
    have hstep := spending_next q (seen e.pre) c
    by_cases hbefore : (seen e.pre).spending c = none
    · rw [hbefore] at hstep
      cases hstep' : (q.next (seen e.pre)).spending c with
      | none => exact absurd hstep' hc
      | some x =>
        rw [hstep'] at hstep
        cases hstep with
        | created hq => exact .inr ⟨e, by simp, by rw [hop]; exact hq⟩
    · exact (hs c hbefore).imp_right fun ⟨f, hf, hspends⟩ =>
        ⟨f, List.mem_append_left _ hf, hspends⟩

theorem Marks.known {c : Credential} {marker : Secret} {e : Past} (h : Marks c marker e) :
    (seen e.pre).spending c ≠ none := by
  obtain ⟨now, -, hanswer⟩ := h
  intro hnone
  cases c with
  | code codeHash =>
    have hcount : (seen e.pre).transactions.rowCount
        (fun r => r.codeHash == some codeHash && r.consumedAt.isNone) = 0 := by
      refine Table.rowCount_eq_zero.mpr fun r hr => ?_
      have hrow := Option.map_eq_none_iff.mp hnone
      by_contra hp
      simp only [Bool.not_eq_false, Bool.and_eq_true, beq_iff_eq] at hp
      rw [Store.transactionByCode_eq_some.mpr ⟨hr, hp.1⟩] at hrow
      cases hrow
    simp [Statement.answer, Statement.exec, Store.consume, hcount] at hanswer
  | refresh tokenHash =>
    have hcount : (seen e.pre).tokens.rowCount
        (fun r => r.tokenHash == tokenHash && r.consumedAt.isNone && r.kind == .refresh) = 0 := by
      refine Table.rowCount_eq_zero.mpr fun r hr => ?_
      have hrow := Table.get?_eq_none.mp (Option.map_eq_none_iff.mp hnone) r hr
      simp [hrow]
    simp [Statement.answer, Statement.exec, Store.consume, hcount] at hanswer

theorem run_admitted (h : Run (oauth shared settings) (.initial w₀) es d) (hopen : Opening w₀) :
    ∀ xs e ys, es = xs ++ e :: ys →
      Admitted e.thread e.request e.op e.input (e.pre, xs.map ThreadCall.entry) := by
  intro xs e ys heq
  refine ⟨(run_dated h hopen e (by simp [heq])).1, fun n hn => ?_⟩
  obtain ⟨hnew, hunspent⟩ := run_fresh h xs e ys heq n hn
  constructor
  · intro f hf
    obtain ⟨f', hf', rfl⟩ := List.mem_map.mp hf
    exact hunspent f' hf'
  · rintro c rfl marker f hf hmarks
    obtain ⟨f', hf', rfl⟩ := List.mem_map.mp hf
    obtain ⟨us, vs, rfl⟩ := List.append_of_mem hf'
    rcases (run_known h hopen us f' (vs ++ e :: ys) (by simp [heq])).1 c hmarks.known with
      hold | ⟨g, hg, hspends⟩
    · exact absurd hold hnew
    · exact hunspent g (List.mem_append_left _ hg) hspends

theorem run_spends (h : Run (oauth shared settings) (.initial w₀) es d) (hopen : Opening w₀) :
    ∀ xs e ys, es.map ThreadCall.entry = xs ++ e :: ys → ∀ n, e.op.spends = some n →
      ∀ f ∈ xs, f.op.spends ≠ some n := by
  intro xs e ys heq n hn
  obtain ⟨xs', e', ys', rfl, rfl, rfl, rfl⟩ := map_split heq
  exact ((run_admitted h hopen xs' e' ys' rfl).2 n hn).1

-- What became of the row that has been won.
structure Holding (c : Credential) (marker : Secret) (vs : List Past) (w : Shared) : Prop where
  kept : Both (Kept c marker) w
  stamped : (∀ g ∈ vs, ∀ q, g.op = .execute q → q.removes c = false) → Both (Stamped c marker) w

theorem Holding.mono {c : Credential} {marker : Secret} {vs : List Past} {w w' : Shared}
    (h : Holding c marker vs w) (hw : ∀ P, Both P w → Both P w') : Holding c marker vs w' :=
  ⟨hw _ h.kept, fun hvs => hw _ (h.stamped hvs)⟩

theorem Wins.stamped {c : Credential} {marker : Secret} {h : List Past} {e : Past}
    (hwins : Wins c marker h e) (hdated : (seen e.pre).Dated) : Both (Stamped c marker) e.pre := by
  have hseen : Stamped c marker (seen e.pre) := by
    obtain ⟨⟨x, y⟩, hspending, hy⟩ := Option.map_eq_some_iff.mp hwins.answer
    obtain rfl : y = some marker := hy
    obtain ⟨now, rfl⟩ := Option.isSome_iff_exists.mp (hdated.spending hspending)
    exact ⟨now, hspending⟩
  exact ⟨hseen, hwins.settled hseen⟩

theorem Wins.marked {c : Credential} {marker : Secret} {h : List Past} {e : Past}
    (hwins : Wins c marker h e) : ∃ f ∈ h, Marks c marker f := by
  obtain ⟨xs, f, ys, rfl, ⟨-, hmarks⟩, -⟩ := hwins.marking
  exact ⟨f, by simp, hmarks⟩

theorem run_holding (h : Run (oauth shared settings) (.initial w₀) es d) (hopen : Opening w₀) :
    (∀ xs e ys, es = xs ++ e :: ys → ∀ c marker us f vs, xs.map ThreadCall.entry = us ++ f :: vs →
      Wins c marker us f → Holding c marker vs e.pre) ∧
    ∀ c marker us f vs, es.map ThreadCall.entry = us ++ f :: vs →
      Wins c marker us f → Holding c marker vs d.state := by
  refine Run.history_invariant (P := fun w es => ∀ c marker us f vs,
    es.map ThreadCall.entry = us ++ f :: vs → Wins c marker us f → Holding c marker vs w)
    (A := fun xs e => Admitted e.thread e.request e.op e.input (e.pre, xs.map ThreadCall.entry))
    h (run_admitted h hopen) ?_ ?_ ?_ ?_
  · intro c marker us f vs heq
    cases us <;> cases heq
  · intro t r w w' es hw hstart
    cases hstart
    exact hw
  · intro k w es hw c marker us f vs heq hwins
    exact (hw c marker us f vs heq hwins).mono fun P hP => hP.disturb k
  · intro e es hpost hadmitted hw c marker us f vs heq hwins
    rw [List.map_append] at heq
    rw [hpost]
    rcases eq_append_singleton_cases heq with ⟨rfl, rfl, rfl⟩ | ⟨zs, rfl, hbefore⟩
    · have hstamped : Both (Stamped c marker) ((oauth shared settings).handler.next e.thread e.op
          e.input e.pre) := (hwins.stamped hadmitted.1).exec (fun _ hs => hs) fun q hop hs => by
        obtain rfl : q = .consumedBy c := Op.execute.inj (hop.symm.trans hwins.op)
        exact hs
      exact ⟨hstamped.mono fun _ hs => hs.kept, fun _ => hstamped⟩
    · obtain ⟨g, hg, hmarks⟩ := hwins.marked
      have hold := hw c marker us f zs hbefore hwins
      have hlater (q : Statement) (hop : e.op = .execute q) : q.spends ≠ some c.secret := by
        intro hq
        refine (hadmitted.2 c.secret (by rw [hop]; exact hq)).2 c rfl marker g ?_ hmarks
        rw [hbefore]
        exact List.mem_append_left _ hg
      refine ⟨hold.kept.exec (fun _ hs => hs) fun q hop hs => hs.next (hlater q hop), fun hvs => ?_⟩
      refine (hold.stamped fun g hg => hvs g (List.mem_append_left _ hg)).exec (fun _ hs => hs)
        fun q hop hs => hs.next (hvs e.entry (by simp) q hop)

-- No two read-backs find their own marker on one row.
theorem one_win (h : Run (oauth shared settings) (.initial w₀) es d) (hopen : Opening w₀)
    {c : Credential} {m m' : Secret} {us vs us' vs' : List Past} {f f' : Past}
    (heq : es.map ThreadCall.entry = us ++ f :: vs)
    (heq' : es.map ThreadCall.entry = us' ++ f' :: vs') (hwins : Wins c m us f)
    (hwins' : Wins c m' us' f') : us = us' ∧ f = f' := by
  have hlater {m m' : Secret} {us vs zs : List Past} {f f' : Past} (hwins : Wins c m us f)
      (hwins' : Wins c m' (us ++ f :: zs) f')
      (heq : es.map ThreadCall.entry = (us ++ f :: zs) ++ f' :: vs) : False := by
    obtain ⟨xs', e', ys', rfl, hxs, rfl, rfl⟩ := map_split heq
    have hkept := ((run_holding h hopen).1 xs' e' ys' rfl c m us f zs hxs hwins).kept.1
    obtain rfl : m' = m := by
      obtain ⟨spent, hspending, hby⟩ := Option.map_eq_some_iff.mp hwins'.answer
      obtain ⟨now, rfl⟩ := hkept spent hspending
      exact (Option.some.inj hby).symm
    obtain ⟨xs₁, e₁, ys₁, rfl, ⟨hthread₁, hmarks₁⟩, -⟩ := hwins.marking
    obtain ⟨xs₂, e₂, ys₂, heq₂, ⟨hthread₂, hmarks₂⟩, hquiet₂⟩ := hwins'.marking
    rw [List.append_assoc, List.cons_append] at heq₂
    rcases append_cons_cases heq₂ with ⟨rfl, rfl, rfl⟩ | ⟨ws, rfl, hws⟩ | ⟨ws, rfl, hws⟩
    · have hcommit := hquiet₂ f (by simp) (hthread₁.symm.trans hthread₂)
      rw [hwins.op] at hcommit
      cases hcommit
    · exact run_spends h hopen (xs₁ ++ e₁ :: ws) e₂ (ys₂ ++ e'.entry :: ys'.map ThreadCall.entry)
        (by simp [hxs, hws]) m' hmarks₂.spends e₁ (by simp) hmarks₁.spends
    · exact run_spends h hopen (xs₂ ++ e₂ :: ws) e₁
        (ys₁ ++ f :: zs ++ e'.entry :: ys'.map ThreadCall.entry)
        (by simp [hxs]) m' hmarks₁.spends e₂ (by simp) hmarks₂.spends
  rcases append_cons_cases (heq.symm.trans heq') with ⟨rfl, rfl, -⟩ | ⟨zs, rfl, -⟩ | ⟨zs, rfl, -⟩
  · exact ⟨rfl, rfl⟩
  · exact (hlater hwins hwins' heq').elim
  · exact (hlater hwins' hwins heq).elim

theorem run_checked (h : Run (oauth shared settings) (.initial w₀) es d) (hopen : Opening w₀) :
    ∀ xs e ys, es = xs ++ e :: ys → ∀ c, Succeeds c e.op →
      Winning e.thread c (xs.map ThreadCall.entry) :=
  h.audited (fun _ _ _ => request_wp _) (run_admitted h hopen)

-- A credential is redeemed once at most, and its row keeps the winner's stamp.
theorem single_use (h : Run (oauth shared settings) (.initial w₀) es d) (hopen : Opening w₀)
    (c : Credential) :
    (∀ xs e ys e' zs, es = xs ++ e :: ys ++ e' :: zs → Succeeds c e.op → ¬Succeeds c e'.op) ∧
      ∀ xs e ys, es = xs ++ e :: ys → Succeeds c e.op →
        ∃ marker us f vs, xs.map ThreadCall.entry = us ++ f :: vs ∧ f.thread = e.thread ∧
          Wins c marker us f ∧
          Holding c marker (vs ++ e.entry :: ys.map ThreadCall.entry) d.state := by
  have hwon := run_checked h hopen
  constructor
  · intro xs e ys e' zs heq hsuccess hsuccess'
    obtain ⟨us, f, vs, hus, ⟨hthread, m, hwins⟩, -⟩ := hwon xs e (ys ++ e' :: zs) (by simp [heq]) c
      hsuccess
    obtain ⟨us', f', vs', hus', ⟨hthread', m', hwins'⟩, hquiet⟩ := hwon _ e' zs heq c hsuccess'
    have hfirst : es.map ThreadCall.entry =
        us ++ f :: (vs ++ e.entry :: (ys ++ e' :: zs).map ThreadCall.entry) := by
      simp [heq, hus]
    have hsecond : es.map ThreadCall.entry =
        us' ++ f' :: (vs' ++ e'.entry :: zs.map ThreadCall.entry) := by
      rw [heq, List.map_append, hus']
      simp
    obtain ⟨rfl, rfl⟩ := one_win h hopen hfirst hsecond hwins hwins'
    obtain rfl : vs' = vs ++ e.entry :: ys.map ThreadCall.entry := by
      simpa [hus] using hus'.symm
    obtain ⟨g, r, hop, -⟩ := hsuccess
    exact hquiet e.entry (by simp) (hthread.symm.trans hthread') g r hop
  · intro xs e ys heq hsuccess
    obtain ⟨us, f, vs, hus, ⟨hthread, marker, hwins⟩, -⟩ := hwon xs e ys heq c hsuccess
    exact ⟨marker, us, f, vs, hus, hthread, hwins,
      (run_holding h hopen).2 c marker us f _ (by simp [heq, hus]) hwins⟩

end Runs

section Sample

theorem opening_empty : Opening (sampleWorld ⟨.empty, [], 0, 0⟩) := by
  have hdated : Store.Dated .empty := ⟨fun r hr => (by cases hr), fun r hr => (by cases hr)⟩
  refine ⟨⟨hdated, hdated⟩, fun c => ⟨fun hc => absurd ?_ hc, fun hc => absurd ?_ hc⟩⟩ <;>
    cases c <;> rfl

-- The first stamp is rolled back before its commit, and the second redeemer wins.
def racing : List SharedCall × SharedConfig :=
  (play shared ⟨.empty, [], 0, 0⟩ (sampleStart ++ sampleApproval ++
    .start 4 (.call (.redeemCode 3)) :: .start 5 (.call (.redeemCode 3)) :: calls 4 4 ++
    .disturb .rollback :: calls 5 4 ++ calls 4 2 ++ calls 5 4 ++ calls 4 5)).get (by decide +kernel)

theorem single_use_racing :
    (∀ xs e ys e' zs, racing.1 = xs ++ e :: ys ++ e' :: zs →
        Succeeds (.code ⟨.code, 3⟩) e.op → ¬Succeeds (.code ⟨.code, 3⟩) e'.op) ∧
      ∃ e ∈ racing.1, e.thread = 5 ∧ Succeeds (.code ⟨.code, 3⟩) e.op := by
  have hrun := play_run (p := racing) (Option.some_get _).symm
  refine ⟨(single_use hrun opening_empty (.code ⟨.code, 3⟩)).1, ?_⟩
  have hwins : racing.1[44]?.map (fun e => (e.thread, successOf e.op)) =
      some (5, some (.code ⟨.code, 3⟩)) := by
    decide +kernel
  obtain ⟨e, hget, heq⟩ := Option.map_eq_some_iff.mp hwins
  obtain ⟨hthread, hsuccess⟩ := Prod.mk.injEq .. ▸ heq
  exact ⟨e, List.mem_of_getElem? hget, hthread, successOf_sound hsuccess⟩

end Sample

end TranscodeForge.OAuth.SingleUse
