import TranscodeForge.Migrations.Runner

namespace TranscodeForge.Migrations

open Database Interaction Interaction.Program

variable {σ : Type}

section Contract

variable (S : Schema σ) (legacy : Bool) (stampsOf : Bool → Migration → Bool) (ms : List Migration)
  (d : Db σ) (faulty : Prop)

-- Stamps alone, in a run that began with `d`.
def Stamped (x y : Db σ) : Prop :=
  y.body = x.body ∧ ∀ v ∈ y.applied,
    v ∈ x.applied ∨ ∃ m ∈ ms, m.version = v ∧ stampsOf (isFresh S d) m = true

-- Rows are only added: those of stamps, or the one that comes with a whole migration.
def Whole (x y : Db σ) : Prop :=
  (∀ v ∈ x.applied, v ∈ y.applied) ∧ (Stamped S stampsOf ms d x y ∨
    ∃ m ∈ ms, m.version ∉ x.applied ∧ apply S m x = some y)

-- One runner, of which every call may fail, or none does.
def running : Contract (Call σ) (Session (Db σ)) Delivery where
  rely s s' := s = s'
  assume _ i _ := ¬faulty → i = .done
  guar _ _ s s' := Whole S stampsOf ms d s.durable s'.durable ∧ Reached S stampsOf ms d s'.durable

variable {α : Type} (Q : α → Session (Db σ) → Prop) (N : Prop)

-- Whatever goes wrong has a cause: a call that failed, or `N`.
def Outcome : Except Fault α → Session (Db σ) → Prop
  | .ok a, s => Q a s
  | .error _, s => (faulty ∨ N) ∧ Reached S stampsOf ms d s.durable

def Ends (p : Runner σ α) (s : Session (Db σ)) : Prop :=
  p.wp (handler S legacy) () (running S stampsOf ms d faulty) (Outcome S stampsOf ms d faulty Q N) s

end Contract

section Rules

variable {S : Schema σ} {legacy : Bool} {stampsOf : Bool → Migration → Bool} {ms : List Migration}
  {d W x y : Db σ} {faulty N : Prop} {s s' : Session (Db σ)} {α β : Type}
  {Q : α → Session (Db σ) → Prop}

theorem Whole.refl (x : Db σ) : Whole S stampsOf ms d x x :=
  ⟨fun _ h => h, .inl ⟨rfl, fun _ h => .inl h⟩⟩

theorem Ends.mono {p : Runner σ α} {Q' : α → Session (Db σ) → Prop} {N' : Prop}
    (h : Ends S legacy stampsOf ms d faulty Q N p s) (hQ : ∀ a s', Q a s' → Q' a s')
    (hN : N → N') : Ends S legacy stampsOf ms d faulty Q' N' p s := by
  refine wp_mono h fun r s' hr => ?_
  cases r with
  | ok a => exact hQ a s' hr
  | error e => exact ⟨hr.1.imp_right hN, hr.2⟩

theorem Ends.bind {p : Runner σ α} {f : α → Runner σ β} {R : β → Session (Db σ) → Prop}
    (hp : Ends S legacy stampsOf ms d faulty Q N p s)
    (hf : ∀ a s', Q a s' → Ends S legacy stampsOf ms d faulty R N (f a) s') :
    Ends S legacy stampsOf ms d faulty R N (p.bind f) s :=
  wp_seq hp hf fun _ _ h => h

theorem faulty_of {i : Delivery} (hi : ¬faulty → i = .done) (hne : i ≠ .done) : faulty := by
  by_contra h
  exact hne (hi h)

theorem Ends.call {op : Call σ} {Q : op.Payload → Session (Db σ) → Prop}
    (h : ∀ i, (¬faulty → i = .done) →
      Whole S stampsOf ms d s.durable (exec S legacy op i s).1.durable ∧
      Reached S stampsOf ms d (exec S legacy op i s).1.durable ∧
      Outcome S stampsOf ms d faulty Q N (exec S legacy op i s).2 (exec S legacy op i s).1) :
    Ends S legacy stampsOf ms d faulty Q N (send op) s := by
  rintro _ rfl - i hi
  obtain ⟨hwhole, hreached, hpost⟩ := h i hi
  exact ⟨⟨hwhole, hreached⟩, (wp_ofExcept _ _ _).mpr hpost⟩

-- A question, which a runner without faults gets answered.
theorem Ends.ask {op : Call σ} {Q : op.Payload → Session (Db σ) → Prop} (a : Option op.Payload)
    (hreached : Reached S stampsOf ms d s.durable)
    (hexec : ∀ i, exec S legacy op i s = (s, i.ask a)) (hsome : ∀ b, a = some b → Q b s)
    (hnone : a = none → N) : Ends S legacy stampsOf ms d faulty Q N (send op) s := by
  refine Ends.call fun i hi => ?_
  rw [hexec]
  refine ⟨.refl _, hreached, ?_⟩
  cases a with
  | none => exact ⟨.inr (hnone rfl), hreached⟩
  | some b =>
    cases i with
    | done => exact hsome b rfl
    | _ => exact ⟨.inl (faulty_of hi (by simp)), hreached⟩

-- A call that puts the connection into a state, or fails.
theorem transfer_outcome {Q : Unit → Session (Db σ) → Prop} {next : Session (Db σ)} {i : Delivery}
    (hi : ¬faulty → i = .done) (hs : Reached S stampsOf ms d s.durable)
    (hwhole : Whole S stampsOf ms d s.durable next.durable) (hnext : Reached S stampsOf ms d next.durable)
    (hQ : Q () next) : Whole S stampsOf ms d s.durable (transfer next i s).1.durable ∧
      Reached S stampsOf ms d (transfer next i s).1.durable ∧
      Outcome S stampsOf ms d faulty Q N (transfer next i s).2 (transfer next i s).1 := by
  cases i with
  | done => exact ⟨hwhole, hnext, hQ⟩
  | failed => exact ⟨.refl _, hs, .inl (faulty_of hi (by simp)), hs⟩
  | stopped n => exact ⟨.refl _, hs, .inl (faulty_of hi (by simp)), hs⟩
  | interrupted => exact ⟨hwhole, hnext, .inl (faulty_of hi (by simp)), hnext⟩

theorem change_outcome {Q : Unit → Session (Db σ) → Prop} {f : Statement σ} {i : Delivery}
    (hi : ¬faulty → i = .done) (hs : Reached S stampsOf ms d s.durable)
    (hsome : ∀ x, f s.working = some x →
      Whole S stampsOf ms d s.durable ((if legacy then s.begin else s).write x).durable ∧
      Reached S stampsOf ms d ((if legacy then s.begin else s).write x).durable ∧
      Q () ((if legacy then s.begin else s).write x))
    (hnone : f s.working = none → N) :
    Whole S stampsOf ms d s.durable (change legacy f i s).1.durable ∧
      Reached S stampsOf ms d (change legacy f i s).1.durable ∧
      Outcome S stampsOf ms d faulty Q N (change legacy f i s).2 (change legacy f i s).1 := by
  have hbegun : (if legacy then s.begin else s).working = s.working ∧
      (if legacy then s.begin else s).durable = s.durable := by
    split <;> exact ⟨rfl, rfl⟩
  unfold change
  split
  · next heffect =>
    dsimp only
    rw [hbegun.1]
    cases hf : f s.working with
    | none =>
      dsimp only
      rw [hbegun.2]
      exact ⟨.refl _, hs, .inr (hnone hf), hbegun.2 ▸ hs⟩
    | some x =>
      obtain ⟨hwhole, hreached, hQ⟩ := hsome x hf
      refine ⟨hwhole, hreached, ?_⟩
      cases i with
      | done => exact hQ
      | interrupted => exact ⟨.inl (faulty_of hi (by simp)), hreached⟩
      | failed => cases heffect
      | stopped n => cases heffect
  · next hnot =>
    refine ⟨.refl _, hs, .inl (faulty_of hi ?_), hs⟩
    rintro rfl
    exact hnot rfl

end Rules

section Inside

variable {S : Schema σ} {legacy : Bool} {stampsOf : Bool → Migration → Bool} {ms : List Migration}
  {d W : Db σ} {faulty : Prop} {f g : Statement σ} {p q : Runner σ Unit}

-- What a program does to a transaction that is open: nothing of it is durable.
def Inside (S : Schema σ) (legacy : Bool) (stampsOf : Bool → Migration → Bool)
    (ms : List Migration) (d : Db σ) (faulty : Prop) (W : Db σ) (f : Statement σ)
    (p : Runner σ Unit) : Prop :=
  ∀ s : Session (Db σ), s.durable = W → s.inTransaction = true →
    Ends S legacy stampsOf ms d faulty
      (fun _ s' => s'.durable = W ∧ s'.inTransaction = true ∧ f s.working = some s'.working)
      (f s.working = none) p s

theorem Inside.nothing : Inside S legacy stampsOf ms d faulty W some (.ret ()) :=
  fun _ hdurable hopen => ⟨hdurable, hopen, rfl⟩

theorem Inside.bind (hp : Inside S legacy stampsOf ms d faulty W f p)
    (hq : Inside S legacy stampsOf ms d faulty W g q) :
    Inside S legacy stampsOf ms d faulty W (fun x => (f x).bind g) (p.bind fun _ => q) := by
  intro s hdurable hopen
  have hfirst : Ends S legacy stampsOf ms d faulty _ ((f s.working).bind g = none) p s :=
    (hp s hdurable hopen).mono (fun _ _ h => h) fun hnone => by rw [hnone]; rfl
  refine hfirst.bind fun _ s' hs' => ?_
  obtain ⟨hdurable', hopen', hf⟩ := hs'
  dsimp only
  rw [hf, Option.bind_some]
  exact hq s' hdurable' hopen'

theorem Inside.each {β : Type} {xs : List β} {f : β → Statement σ} {body : β → Runner σ Unit}
    (h : ∀ x ∈ xs, Inside S legacy stampsOf ms d faulty W (f x) (body x)) :
    Inside S legacy stampsOf ms d faulty W (fun d => xs.foldlM (fun d x => f x d) d)
      (Program.each xs body) := by
  induction xs with
  | nil => exact .nothing
  | cons x xs ih =>
    exact (h x List.mem_cons_self).bind (ih fun y hy => h y (List.mem_cons_of_mem x hy))

theorem write_open {l : Bool} {s : Session (Db σ)} (hopen : s.inTransaction = true) (x : Db σ) :
    ((if l then s.begin else s).write x).durable = s.durable ∧
      ((if l then s.begin else s).write x).inTransaction = true ∧
      ((if l then s.begin else s).write x).working = x := by
  cases l with
  | false => simp [Session.durable_write, hopen]
  | true => simp [Session.durable_write]

variable (hW : Reached S stampsOf ms d W)

include hW

theorem change_inside {l : Bool} {f : Statement σ} {i : Delivery} {s : Session (Db σ)}
    (hi : ¬faulty → i = .done) (hdurable : s.durable = W) (hopen : s.inTransaction = true) :
    Whole S stampsOf ms d s.durable (change l f i s).1.durable ∧
      Reached S stampsOf ms d (change l f i s).1.durable ∧
      Outcome S stampsOf ms d faulty
        (fun _ s' => s'.durable = W ∧ s'.inTransaction = true ∧ f s.working = some s'.working)
        (f s.working = none) (change l f i s).2 (change l f i s).1 := by
  refine change_outcome hi (hdurable ▸ hW) (fun x hx => ?_) id
  obtain ⟨hsame, hinside, hworking⟩ := write_open (l := l) hopen x
  rw [hsame, hworking]
  exact ⟨.refl _, hdurable ▸ hW, hdurable, hinside, hx⟩

theorem record_inside (m : Migration) :
    Inside S legacy stampsOf ms d faulty W (·.record m.version m.name) (recordApplied m) :=
  fun _ hdurable hopen => Ends.call fun _ hi => change_inside hW hi hdurable hopen

theorem execute_inside (statement : Statement σ) :
    Inside S legacy stampsOf ms d faulty W statement (send (.execute statement)) :=
  fun _ hdurable hopen => Ends.call fun _ hi => change_inside hW hi hdurable hopen

theorem updateToken_inside (token : String) :
    Inside S legacy stampsOf ms d faulty W (setHash S token) (send (.updateToken token)) :=
  fun _ hdurable hopen => Ends.call fun _ hi => change_inside hW hi hdurable hopen

theorem backfill_inside :
    Inside S legacy stampsOf ms d faulty W (backfill S) (backfillTokenHashes : Runner σ Unit) := by
  intro s hdurable hopen
  have hread : Ends S legacy stampsOf ms d faulty
      (fun tokens s' => s' = s ∧ S.unhashedTokens s.working.body = some tokens)
      (backfill S s.working = none) (send .selectTokens) s := by
    refine Ends.ask (S.unhashedTokens s.working.body) (hdurable ▸ hW) (fun _ => rfl)
      (fun tokens htokens => ⟨rfl, htokens⟩) fun hnone => ?_
    rw [backfill, hnone]
    rfl
  refine Ends.bind hread ?_
  rintro tokens s' ⟨rfl, htokens⟩
  have hall : Inside S legacy stampsOf ms d faulty W
      (fun d => tokens.foldlM (fun d token => setHash S token d) d)
      (Program.each tokens fun token => send (.updateToken token)) :=
    .each fun token _ => updateToken_inside hW token
  have heq : backfill S s'.working =
      tokens.foldlM (fun d token => setHash S token d) s'.working := by
    rw [backfill, htokens]
    rfl
  rw [heq]
  exact hall s' hdurable hopen

theorem backfillFor_inside (m : Migration) :
    Inside S legacy stampsOf ms d faulty W (backfillOf S m) (backfillFor m) := by
  unfold backfillFor
  by_cases hname : m.name = "token_hash"
  · have hfill : backfillOf S m = backfill S := funext fun d => if_pos hname
    rw [if_pos hname, hfill]
    exact backfill_inside hW
  · have hfill : backfillOf S m = some := funext fun d => if_neg hname
    rw [if_neg hname, hfill]
    exact .nothing

theorem script_inside (m : Migration) :
    Inside S legacy stampsOf ms d faulty W (runAll (S.script m.sql))
      (Program.each (S.script m.sql) fun statement => send (.execute statement)) :=
  .each fun statement _ => execute_inside hW statement

end Inside

section Migrations

variable {S : Schema σ} {legacy : Bool} {stampsOf : Bool → Migration → Bool} {ms : List Migration}
  {d W : Db σ} {faulty N : Prop} {s : Session (Db σ)} {m : Migration}

-- Between two migrations: what is not durable yet is stamps.
structure Between (S : Schema σ) (legacy : Bool) (stampsOf : Bool → Migration → Bool)
    (ms : List Migration) (d W : Db σ) (s : Session (Db σ)) : Prop where
  working : s.working = W
  reached : Reached S stampsOf ms d s.durable
  rows : ∀ v ∈ s.durable.applied, v ∈ W.applied
  stamped : Stamped S stampsOf ms d s.durable W
  settled : legacy = false → s.inTransaction = false

theorem Between.whole (h : Between S legacy stampsOf ms d W s) : Whole S stampsOf ms d s.durable W :=
  ⟨h.rows, .inl h.stamped⟩

theorem Between.opened (h : Reached S stampsOf ms d W) :
    Between S legacy stampsOf ms d W (.opened W) :=
  ⟨rfl, h, fun _ h => h, ⟨rfl, fun _ h => .inl h⟩, fun _ => rfl⟩

-- What a migration comes to that begins between two of them.
def Migrates (S : Schema σ) (legacy : Bool) (stampsOf : Bool → Migration → Bool)
    (ms : List Migration) (d : Db σ) (faulty : Prop) (f : Statement σ) (p : Runner σ Unit) : Prop :=
  ∀ W s, Between S legacy stampsOf ms d W s → Reached S stampsOf ms d W →
    (∀ W', f W = some W' → Reached S stampsOf ms d W') →
    Ends S legacy stampsOf ms d faulty
      (fun _ s' => ∃ W', f W = some W' ∧ Between S legacy stampsOf ms d W' s') (f W = none) p s

theorem record_migrates (hm : m ∈ ms) (hstamps : stampsOf (isFresh S d) m = true) :
    Migrates S legacy stampsOf ms d faulty (·.record m.version m.name) (recordApplied m) := by
  intro W s hs hW hW'
  obtain ⟨rfl, hreached, hrows, ⟨hbody, hstamped⟩, hsettled⟩ := hs
  refine Ends.call fun i hi => change_outcome hi hreached (fun x hx => ?_) id
  obtain ⟨-, hsame, happlied, -⟩ := Db.record_eq hx
  have hx' := hW' x hx
  have hgrows : ∀ v ∈ s.durable.applied, v ∈ x.applied := fun v hv => by
    rw [happlied]
    exact List.mem_append_left _ (hrows v hv)
  have hstamp : Stamped S stampsOf ms d s.durable x := by
    refine ⟨hsame.trans hbody, fun v hv => ?_⟩
    rw [happlied] at hv
    rcases List.mem_append.mp hv with hv | hv
    · exact hstamped v hv
    · exact .inr ⟨m, hm, (List.mem_singleton.mp hv).symm, hstamps⟩
  cases legacy with
  | false =>
    have hwritten : s.write x = .opened x := by rw [Session.write, hsettled rfl]; rfl
    rw [if_neg Bool.false_ne_true, hwritten]
    exact ⟨⟨hgrows, .inl hstamp⟩, hx', x, hx, .opened hx'⟩
  | true =>
    rw [if_pos rfl]
    have hdurable : (s.begin.write x).durable = s.durable := Session.durable_write_inside rfl x
    rw [hdurable]
    refine ⟨.refl _, hreached, x, hx, ?_⟩
    refine ⟨Session.working_write _ x, hdurable ▸ hreached, ?_, ?_, Bool.noConfusion⟩
    · rw [hdurable]
      exact hgrows
    · rw [hdurable]
      exact hstamp

theorem rollback_ends {Q : Unit → Session (Db σ) → Prop} {body : Runner σ Unit}
    (h : Ends S legacy stampsOf ms d faulty Q N body s) :
    Ends S legacy stampsOf ms d faulty Q N (rollingBack body) s := by
  unfold Ends rollingBack
  rw [wp_rescue]
  refine wp_mono h fun r s' hr => ?_
  cases r with
  | ok a => exact hr
  | error e =>
    obtain ⟨hcause, hreached⟩ := hr
    have hsent : Ends S legacy stampsOf ms d faulty
        (fun _ s'' => Reached S stampsOf ms d s''.durable) N (send .rollback) s' :=
      Ends.call fun i hi => transfer_outcome hi hreached (.refl _) hreached hreached
    exact hsent.bind fun _ s'' hs'' => ⟨hcause, hs''⟩

theorem commit_ends {W' : Db σ} (hm : m ∈ ms) (hdurable : s.durable = W)
    (happly : apply S m W = some W') (hsane : Sane S ms) (hW : Reached S stampsOf ms d W)
    (hW' : Reached S stampsOf ms d W') (hworking : s.working = W') :
    Ends S legacy stampsOf ms d faulty
      (fun _ s' => ∃ W', apply S m W = some W' ∧ Between S legacy stampsOf ms d W' s')
      N (send .commit) s := by
  obtain ⟨hfree, happlied, -⟩ := apply_eq hsane hm happly
  have hwhole : Whole S stampsOf ms d W W' := by
    refine ⟨fun v hv => ?_, .inr ⟨m, hm, hfree, happly⟩⟩
    rw [happlied]
    exact List.mem_append_left _ hv
  refine Ends.call fun i hi => transfer_outcome hi (hdurable ▸ hW) ?_ ?_ ?_
  · rw [hdurable, Session.durable_commit, hworking]
    exact hwhole
  · rw [Session.durable_commit, hworking]
    exact hW'
  · refine ⟨W', happly, ?_⟩
    rw [Session.commit, hworking]
    exact .opened hW'

theorem runScript_open (script : List (Statement σ)) (hopen : s.inTransaction = true) :
    (runScript script s).1.durable = s.durable ∧ (runScript script s).1.inTransaction = true := by
  induction script generalizing s with
  | nil => exact ⟨rfl, hopen⟩
  | cons f script ih =>
    unfold runScript
    cases f s.working with
    | none => exact ⟨rfl, hopen⟩
    | some x =>
      obtain ⟨hdurable, hinside⟩ := ih ((s.inTransaction_write x).trans hopen)
      exact ⟨hdurable.trans (Session.durable_write_inside hopen x), hinside⟩

theorem runScript_runs (script : List (Statement σ)) (s : Session (Db σ)) :
    runAll script s.working =
      if (runScript script s).2 then some (runScript script s).1.working else none := by
  induction script generalizing s with
  | nil => rfl
  | cons f script ih =>
    have hcons : runAll (f :: script) s.working = (f s.working).bind (runAll script) := rfl
    rw [hcons]
    unfold runScript
    cases f s.working with
    | none => rfl
    | some x =>
      have hrest := ih (s.write x)
      rw [Session.working_write] at hrest
      rw [Option.bind_some, hrest]

-- The transaction that was pending is committed ahead of the script.
theorem executescript_ends (script : List (Statement σ))
    (hs : Between S legacy stampsOf ms d W s) (hW : Reached S stampsOf ms d W)
    (hnone : runAll script W = none → N) :
    Ends S legacy stampsOf ms d faulty
      (fun _ s' => s'.durable = W ∧ s'.inTransaction = true ∧ runAll script W = some s'.working)
      N (send (.executescript script)) s := by
  have hbegun : s.commit.begin.durable = W := hs.working
  have hruns := runScript_runs script s.commit.begin
  have hworking : s.commit.begin.working = W := hs.working
  rw [hworking] at hruns
  have hopen (script : List (Statement σ)) :
      (runScript script s.commit.begin).1.durable = W ∧
        (runScript script s.commit.begin).1.inTransaction = true := by
    obtain ⟨hdurable, hinside⟩ := runScript_open (s := s.commit.begin) script rfl
    exact ⟨hdurable.trans hbegun, hinside⟩
  refine Ends.call fun i hi => ?_
  cases i with
  | failed => exact ⟨.refl _, hs.reached, .inl (faulty_of hi (by simp)), hs.reached⟩
  | stopped n =>
    cases n with
    | zero =>
      have hcommitted : s.commit.durable = W := hs.working
      change Whole S stampsOf ms d s.durable s.commit.durable ∧ Reached S stampsOf ms d s.commit.durable ∧
        (faulty ∨ N) ∧ Reached S stampsOf ms d s.commit.durable
      rw [hcommitted]
      exact ⟨hs.whole, hW, .inl (faulty_of hi (by simp)), hW⟩
    | succ n =>
      change Whole S stampsOf ms d s.durable (runScript (script.take n) s.commit.begin).1.durable ∧
        Reached S stampsOf ms d (runScript (script.take n) s.commit.begin).1.durable ∧
        (faulty ∨ N) ∧ Reached S stampsOf ms d (runScript (script.take n) s.commit.begin).1.durable
      rw [(hopen (script.take n)).1]
      exact ⟨hs.whole, hW, .inl (faulty_of hi (by simp)), hW⟩
  | done =>
    obtain ⟨hdurable, hinside⟩ := hopen script
    have hexec : exec S legacy (.executescript script) .done s =
        ((runScript script s.commit.begin).1,
          if (runScript script s.commit.begin).2 then .ok () else .error .failed) := rfl
    rw [hexec]
    dsimp only
    rw [hdurable]
    refine ⟨hs.whole, hW, ?_⟩
    cases hcomplete : (runScript script s.commit.begin).2 with
    | true =>
      rw [hcomplete] at hruns
      exact ⟨hdurable, hinside, hruns⟩
    | false =>
      rw [hcomplete] at hruns
      exact ⟨.inr (hnone hruns), hdurable ▸ hW⟩
  | interrupted =>
    obtain ⟨hdurable, -⟩ := hopen script
    have hexec : ∃ e, exec S legacy (.executescript script) .interrupted s =
        ((runScript script s.commit.begin).1, .error e) := by
      cases hcomplete : (runScript script s.commit.begin).2 with
      | true => exact ⟨.cancelled, by simp [exec, executescript, hcomplete, Delivery.answer]⟩
      | false => exact ⟨.failed, by simp [exec, executescript, hcomplete]⟩
    obtain ⟨e, hexec⟩ := hexec
    rw [hexec]
    dsimp only
    rw [hdurable]
    exact ⟨hs.whole, hW, .inl (faulty_of hi (by simp)), hdurable ▸ hW⟩

theorem conclude_inside (hW : Reached S stampsOf ms d W) (m : Migration) :
    Inside S legacy stampsOf ms d faulty W (conclude S m)
      ((backfillFor m).bind fun _ => recordApplied m) :=
  (backfillFor_inside hW m).bind (record_inside hW m)

theorem sqlite_migrates (hsane : Sane S ms) (hm : m ∈ ms) :
    Migrates S legacy stampsOf ms d faulty (apply S m) (rollingBack do
      send (.executescript (S.script m.sql))
      backfillFor m
      recordApplied m
      send .commit) := by
  intro W s hs hW hW'
  refine rollback_ends ?_
  have hscript : Ends S legacy stampsOf ms d faulty _ (apply S m W = none) _ s :=
    executescript_ends (S.script m.sql) hs hW fun hnone => by rw [apply, hnone]; rfl
  refine Ends.bind hscript ?_
  rintro _ s₁ ⟨hdurable, hopen, hran⟩
  have happly : apply S m W = conclude S m s₁.working := by rw [apply, hran, Option.bind_some]
  have hrest : Ends S legacy stampsOf ms d faulty
      (fun _ s' => s'.durable = W ∧ s'.inTransaction = true ∧ apply S m W = some s'.working)
      (apply S m W = none) ((backfillFor m).bind fun _ => recordApplied m) s₁ := by
    rw [happly]
    exact conclude_inside hW m s₁ hdurable hopen
  simp only [bind_eq]
  rw [← bind_assoc]
  refine Ends.bind hrest ?_
  rintro _ s₂ ⟨hdurable₂, -, hrecorded⟩
  exact commit_ends hm hdurable₂ hrecorded hsane hW (hW' _ hrecorded) rfl

theorem postgres_migrates (hsane : Sane S ms) (hm : m ∈ ms) :
    Migrates S false stampsOf ms d faulty (apply S m) (transaction do
      Program.each (S.script m.sql) fun statement => send (.execute statement)
      backfillFor m
      recordApplied m) := by
  intro W s hs hW hW'
  have hdurable : s.durable = W := (s.idle (hs.settled rfl)).symm.trans hs.working
  have hstart : Ends S false stampsOf ms d faulty
      (fun _ s' => s'.durable = W ∧ s'.inTransaction = true ∧ s'.working = W)
      (apply S m W = none) (send .start) s :=
    Ends.call fun i hi => transfer_outcome hi hs.reached (.refl _) hs.reached
      ⟨hdurable, rfl, hs.working⟩
  refine Ends.bind hstart ?_
  rintro _ s₁ ⟨hdurable₁, hopen, rfl⟩
  have hbody : Inside S false stampsOf ms d faulty s₁.working (apply S m) _ :=
    (script_inside hW m).bind (conclude_inside hW m)
  refine Ends.bind (rollback_ends (hbody s₁ hdurable₁ hopen)) ?_
  rintro _ s₂ ⟨hdurable₂, -, hrecorded⟩
  exact commit_ends hm hdurable₂ hrecorded hsane hW (hW' _ hrecorded) rfl

-- The loop, begun after the migrations of `pre`.
theorem each_ends (hsane : Sane S ms) {body : Migration → Runner σ Unit}
    (hskip : ∀ m ∈ ms, m.version ∈ d.applied → body m = .ret ())
    (hrun : ∀ m ∈ ms, m.version ∉ d.applied → Migrates S legacy stampsOf ms d faulty
      (if stampsOf (isFresh S d) m then (·.record m.version m.name) else apply S m) (body m))
    {pre post : List Migration} (hms : ms = pre ++ post)
    (hpre : migrate S (stampsOf (isFresh S d)) pre d.created = some W)
    (hs : Between S legacy stampsOf ms d W s) :
    Ends S legacy stampsOf ms d faulty
      (fun _ s' => ∃ W', migrate S (stampsOf (isFresh S d)) post W = some W' ∧
        Between S legacy stampsOf ms d W' s')
      (migrate S (stampsOf (isFresh S d)) post W = none) (Program.each post body) s := by
  induction post generalizing pre W s with
  | nil => exact ⟨W, rfl, hs⟩
  | cons m post ih =>
    have hm : m ∈ ms := hms ▸ List.mem_append_right pre List.mem_cons_self
    have hnext : ms = (pre ++ [m]) ++ post := by rw [hms, List.append_assoc]; rfl
    have hW : Reached S stampsOf ms d W := .inr ⟨pre, m :: post, hms, hpre⟩
    have happlied : m.version ∈ W.applied ↔ m.version ∈ d.applied := by
      have hin : ∀ m ∈ pre, m ∈ ms := fun m hm => hms ▸ List.mem_append_left _ hm
      obtain ⟨-, hall⟩ := migrate_eq hsane hin rfl hpre
      rw [hall]
      refine or_iff_left ?_
      rintro ⟨m', hm', hversion⟩
      have hordered := hsane.ordered
      rw [hms, List.pairwise_append] at hordered
      have hbefore := hordered.2.2 m' hm' m List.mem_cons_self
      omega
    have hstep (W' : Db σ) (hW' : advance S (stampsOf (isFresh S d)) m W = some W') :
        migrate S (stampsOf (isFresh S d)) (pre ++ [m]) d.created = some W' := by
      rw [migrate_append, hpre, Option.bind_some, migrate_cons, hW']
      rfl
    by_cases hdone : m.version ∈ d.applied
    · have hadvance : advance S (stampsOf (isFresh S d)) m W = some W :=
        if_pos (happlied.mpr hdone)
      rw [migrate_cons, hadvance, Option.bind_some, Program.each, hskip m hm hdone, ret_bind]
      exact ih hnext (hstep W hadvance) hs
    · have hadvance : advance S (stampsOf (isFresh S d)) m W =
          (if stampsOf (isFresh S d) m then (·.record m.version m.name) else apply S m) W := by
        rw [advance, if_neg fun h => hdone (happlied.mp h)]
        split <;> rfl
      have hfirst := hrun m hm hdone W s hs hW fun W' hW' =>
        .inr ⟨pre ++ [m], post, hnext, hstep W' (hadvance.trans hW')⟩
      rw [← hadvance] at hfirst
      have hcause : Ends S legacy stampsOf ms d faulty _
          (migrate S (stampsOf (isFresh S d)) (m :: post) W = none) (body m) s :=
        hfirst.mono (fun _ _ h => h) fun hnone => by rw [migrate_cons, hnone]; rfl
      refine Ends.bind hcause ?_
      rintro _ s' ⟨W', hW', hs'⟩
      rw [migrate_cons, hW', Option.bind_some]
      exact ih hnext (hstep W' hW') hs'

theorem select_ends {op : Call σ} {a : op.Payload} (hreached : Reached S stampsOf ms d s.durable)
    (hexec : ∀ i, exec S legacy op i s = (s, i.ask (some a))) :
    Ends S legacy stampsOf ms d faulty (fun b s' => s' = s ∧ b = a) N (send op) s :=
  Ends.ask (some a) hreached hexec (fun _ hb => ⟨rfl, (Option.some.inj hb).symm⟩) nofun

theorem created_ends :
    Ends S legacy stampsOf ms d faulty (fun _ s' => s' = .opened d.created) N
      (send .createVersions) (.opened d) := by
  have hcreated : Reached S stampsOf ms d d.created := .inr ⟨[], ms, rfl, rfl⟩
  refine Ends.call fun i hi => transfer_outcome hi (.inl rfl) ?_ hcreated rfl
  exact ⟨fun _ h => h, .inl ⟨rfl, fun _ h => .inl h⟩⟩

-- A runner from the opening of its connection to its end.
def Finishes (S : Schema σ) (legacy : Bool) (stampsOf : Bool → Migration → Bool)
    (ms : List Migration) (runner : Runner σ Unit) : Prop :=
  ∀ (d : Db σ) (faulty : Prop), Ends S legacy stampsOf ms d faulty
    (fun _ s' => finished S stampsOf ms d = some s'.durable)
    (finished S stampsOf ms d = none) runner (.opened d)

theorem sqliteTurn_migrates (hsane : Sane S ms) {applied : List Nat} (hm : m ∈ ms)
    (hfree : m.version ∉ applied) : Migrates S true sqliteStamps ms d faulty
      (if sqliteStamps (isFresh S d) m then (·.record m.version m.name) else apply S m)
      (sqliteTurn S (isFresh S d) applied m) := by
  unfold sqliteTurn
  rw [if_neg hfree]
  cases hfirst : (!isFresh S d && decide (m.version = 1)) with
  | true =>
    have hstamps : sqliteStamps (isFresh S d) m = true := by rw [sqliteStamps, hfirst]; rfl
    rw [hstamps]
    exact record_migrates hm hstamps
  | false =>
    cases hpg : m.pgOnly with
    | true =>
      have hstamps : sqliteStamps (isFresh S d) m = true := by rw [sqliteStamps, hfirst, hpg]; rfl
      rw [hstamps]
      exact record_migrates hm hstamps
    | false =>
      have hruns : sqliteStamps (isFresh S d) m = false := by rw [sqliteStamps, hfirst, hpg]; rfl
      rw [hruns]
      exact sqlite_migrates hsane hm

theorem postgresTurn_migrates (hsane : Sane S ms) {applied : List Nat} (hm : m ∈ ms)
    (hfree : m.version ∉ applied) : Migrates S false postgresStamps ms d faulty
      (if postgresStamps (isFresh S d) m then (·.record m.version m.name) else apply S m)
      (postgresTurn S (isFresh S d) applied m) := by
  unfold postgresTurn
  rw [if_neg hfree]
  cases hfirst : (!isFresh S d && decide (m.version = 1)) with
  | true =>
    have hstamps : postgresStamps (isFresh S d) m = true := hfirst
    rw [hstamps]
    exact record_migrates hm hstamps
  | false =>
    have hruns : postgresStamps (isFresh S d) m = false := hfirst
    rw [hruns]
    exact postgres_migrates hsane hm

theorem applySqlite_finishes (hsane : Sane S ms) :
    Finishes S true sqliteStamps ms (applySqlite S ms) := by
  intro d faulty
  have hcreated : Reached S sqliteStamps ms d d.created := .inr ⟨[], ms, rfl, rfl⟩
  refine Ends.bind created_ends ?_
  rintro _ _ rfl
  have hcommit : Ends S true sqliteStamps ms d faulty (fun _ s' => s' = .opened d.created)
      (finished S sqliteStamps ms d = none) (send .commit) (.opened d.created) :=
    Ends.call fun i hi => transfer_outcome hi hcreated (.refl _) hcreated rfl
  refine Ends.bind hcommit ?_
  rintro _ _ rfl
  refine Ends.bind (select_ends hcreated fun _ => rfl) ?_
  rintro jobs _ ⟨rfl, rfl⟩
  refine Ends.bind (select_ends hcreated fun _ => rfl) ?_
  rintro applied _ ⟨rfl, rfl⟩
  have hloop : Ends S true sqliteStamps ms d faulty _ (finished S sqliteStamps ms d = none)
      (Program.each ms (sqliteTurn S (isFresh S d) d.applied)) (.opened d.created) :=
    each_ends hsane (fun m _ hdone => if_pos hdone)
      (fun m hm hfree => sqliteTurn_migrates hsane hm hfree) (List.nil_append ms).symm rfl
      (.opened hcreated)
  refine Ends.bind hloop ?_
  rintro _ s ⟨W, hW, hs⟩
  have hfinished : finished S sqliteStamps ms d = some s.commit.durable := by
    rw [Session.durable_commit, hs.working]
    exact hW
  refine Ends.call fun i hi => transfer_outcome hi hs.reached ?_ ?_ hfinished
  · rw [Session.durable_commit, hs.working]
    exact hs.whole
  · exact .inr ⟨ms, [], (List.append_nil ms).symm, hfinished⟩

theorem applyPostgres_finishes (hsane : Sane S ms) :
    Finishes S false postgresStamps ms (applyPostgres S ms) := by
  intro d faulty
  have hcreated : Reached S postgresStamps ms d d.created := .inr ⟨[], ms, rfl, rfl⟩
  refine Ends.bind created_ends ?_
  rintro _ _ rfl
  refine Ends.bind (select_ends hcreated fun _ => rfl) ?_
  rintro jobs _ ⟨rfl, rfl⟩
  refine Ends.bind (select_ends hcreated fun _ => rfl) ?_
  rintro applied _ ⟨rfl, rfl⟩
  have hloop : Ends S false postgresStamps ms d faulty _ (finished S postgresStamps ms d = none)
      (Program.each ms (postgresTurn S (isFresh S d) d.applied)) (.opened d.created) :=
    each_ends hsane (fun m _ hdone => if_pos hdone)
      (fun m hm hfree => postgresTurn_migrates hsane hm hfree) (List.nil_append ms).symm rfl
      (.opened hcreated)
  refine hloop.mono ?_ id
  rintro _ s ⟨W, hW, hs⟩
  rw [← s.idle (hs.settled rfl), hs.working]
  exact hW

end Migrations

end TranscodeForge.Migrations
