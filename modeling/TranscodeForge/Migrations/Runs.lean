import TranscodeForge.Interaction.Run
import TranscodeForge.Migrations.CrashSafe

namespace TranscodeForge.Migrations

open Database Interaction

variable {σ : Type}

abbrev CallMade (σ : Type) := CallRecord (Call σ) (Session (Db σ)) Delivery

section Histories

variable (S : Schema σ) (legacy : Bool) (runner : Runner σ Unit) (d₀ : Db σ)

-- One run after another, each of which may fail or be cut short after any call; the next one
-- opens the database again.
inductive Runs : List (CallMade σ) → Db σ → Prop
  | start : Runs [] d₀
  | run {es es' : List (CallMade σ)} {d : Db σ} {p : Runner σ Unit} {s : Session (Db σ)} :
      Runs es d → Exec (handler S legacy) () (· = ·) runner (.opened d) es' p s →
      Runs (es ++ es') s.durable

def undisturbed (_ : Unit) (_ : Call σ) : Delivery × Unit := (.done, ())

-- A run of which no call is disturbed; `none` where a statement fails.
def uninterrupted (d : Db σ) : Option (Db σ) :=
  match runner.run (handler S legacy) () undisturbed () (.opened d) with
  | (.ok _, _, s) => some s.durable
  | (.error _, _, _) => none

variable (m : Migration) (e : CallMade σ)

-- What makes a migration durable: the script, the backfill and the row, in one call.
def Lands : Prop :=
  m.version ∉ e.pre.durable.applied ∧ apply S m e.pre.durable = some e.post.durable

def Marks : Prop :=
  e.post.durable.body = e.pre.durable.body ∧
    m.version ∉ e.pre.durable.applied ∧ m.version ∈ e.post.durable.applied

structure Safe (stampsOf : Bool → Migration → Bool) (ms : List Migration) (es : List (CallMade σ))
    (d : Db σ) : Prop where
  resumed : uninterrupted S legacy runner d = uninterrupted S legacy runner d₀
  effects : ∀ e ∈ es, e.post.durable.body = e.pre.durable.body ∨ ∃ m ∈ ms, Lands S m e
  once : ∀ m ∈ ms, es.Pairwise fun e e' => ¬(Lands S m e ∧ Lands S m e')
  rows : ∀ m ∈ ms, m.version ∈ d.applied ↔ m.version ∈ d₀.applied ∨ (∃ e ∈ es, Lands S m e) ∨
    stampsOf (isFresh S d₀) m = true ∧ ∃ e ∈ es, Marks m e

end Histories

section Safety

variable {S : Schema σ} {legacy : Bool} {stampsOf : Bool → Migration → Bool} {ms : List Migration}
  {runner : Runner σ Unit} {d₀ d : Db σ} {es : List (CallMade σ)} {m : Migration}

theorem Finishes.uninterrupted_eq (h : Finishes S legacy stampsOf ms runner) (d : Db σ) :
    uninterrupted S legacy runner d = finished S stampsOf ms d := by
  have hrun : Outcome S stampsOf ms d False (fun _ s' => finished S stampsOf ms d = some s'.durable)
      (finished S stampsOf ms d = none)
      (runner.run (handler S legacy) () undisturbed () (.opened d)).1
      (runner.run (handler S legacy) () undisturbed () (.opened d)).2.2 :=
    Program.run_post (h d False) (fun _ => rfl) (fun _ _ => rfl) fun _ _ _ _ => rfl
  unfold uninterrupted
  revert hrun
  obtain ⟨r, -, s⟩ := runner.run (handler S legacy) () undisturbed () (.opened d)
  cases r with
  | ok a => exact fun hok => hok.symm
  | error e =>
    rintro ⟨hcause, -⟩
    exact (hcause.resolve_left id).symm

def RowsIn (s s' : Session (Db σ)) : Prop := ∀ v ∈ s.durable.applied, v ∈ s'.durable.applied

theorem version_inj (hordered : ms.Pairwise fun m m' => m.version < m'.version) {m m' : Migration}
    (hm : m ∈ ms) (hm' : m' ∈ ms) (h : m.version = m'.version) : m = m' := by
  by_contra hne
  have hdistinct : ms.Pairwise fun m m' => m.version ≠ m'.version := hordered.imp fun hlt => hlt.ne
  have hsymm : Std.Symm fun m m' : Migration => m.version ≠ m'.version := ⟨fun _ _ hne => hne.symm⟩
  exact hdistinct.forall hm hm' hne h

theorem Runs.event {P : Db σ → Prop} (h : Runs S legacy runner d₀ es d) (h₀ : ¬P d₀) (hd : P d) :
    ∃ e ∈ es, ¬P e.pre.durable ∧ P e.post.durable := by
  induction h with
  | start => exact absurd hd h₀
  | @run es es' d p s _ hexec ih =>
    by_cases hbefore : P d
    · obtain ⟨e, he, hevent⟩ := ih hbefore
      exact ⟨e, List.mem_append_left es' he, hevent⟩
    · have hkeeps : ∀ s s' : Session (Db σ), s = s' → P s'.durable → P s.durable := by
        rintro s _ rfl hs
        exact hs
      obtain ⟨e, he, hevent⟩ := hexec.event (P := fun s => P s.durable) hkeeps hbefore hd
      exact ⟨e, List.mem_append_right es he, hevent⟩

variable (hsane : Sane S ms)
  (hfirst : ∀ f f' m, m.version ≠ 1 → stampsOf f m = stampsOf f' m)

include hsane hfirst

-- What a run takes for a stamp is one for the first run too.
theorem whole_again {x y : Db σ} (h : Reached S stampsOf ms d₀ d)
    (hrows : ∀ v ∈ d.applied, v ∈ x.applied) (hwhole : Whole S stampsOf ms d x y) :
    Whole S stampsOf ms d₀ x y := by
  obtain ⟨hgrows, ⟨hbody, hstamped⟩ | hlands⟩ := hwhole
  · refine ⟨hgrows, .inl ⟨hbody, fun v hv => ?_⟩⟩
    by_cases hold : v ∈ x.applied
    · exact .inl hold
    obtain ⟨m, hm, rfl, hstamps⟩ := (hstamped v hv).resolve_left hold
    refine .inr ⟨m, hm, rfl, ?_⟩
    rcases h with rfl | ⟨pre, post, hms, h⟩
    · exact hstamps
    · have hpost : m ∈ post := by
        rw [hms] at hm
        refine (List.mem_append.mp hm).resolve_left fun hpre => hold (hrows _ ?_)
        obtain ⟨-, hall⟩ := migrate_eq hsane (fun m hm => hms ▸ List.mem_append_left post hm) rfl h
        exact (hall _).mpr (.inr ⟨m, hpre, rfl⟩)
      rw [← partly_agrees hsane hfirst hms h m hpost]
      exact hstamps
  · exact ⟨hgrows, .inr hlands⟩

variable (hfinishes : Finishes S legacy stampsOf ms runner)

include hfinishes

theorem runs_reached (h : Runs S legacy runner d₀ es d) : Reached S stampsOf ms d₀ d ∧
    (∀ e ∈ es, Whole S stampsOf ms d₀ e.pre.durable e.post.durable) ∧
    Rising RowsIn (.opened d₀) es (.opened d) := by
  induction h with
  | start => exact ⟨.inl rfl, by simp, by simp, .nil, by simp, fun _ hv => hv⟩
  | @run es es' d p s _ hexec ih =>
    obtain ⟨hreached, hwhole, hrising⟩ := ih
    have htrans : ∀ s₁ s₂ s₃ : Session (Db σ), RowsIn s₁ s₂ → RowsIn s₂ s₃ → RowsIn s₁ s₃ :=
      fun _ _ _ h h' v hv => h' v (h v hv)
    obtain ⟨hguar, -⟩ := hexec.adequate (C := running S stampsOf ms d True) (hfinishes d True)
      fun e _ hno => absurd trivial hno
    have hrises : Rising RowsIn (.opened d) es' s := by
      refine hexec.rising (fun _ _ hv => hv) htrans ?_ fun e he => (hguar e he).1.1
      rintro s _ rfl v hv
      exact hv
    have hkeeps : ∀ s s' : Session (Db σ), Reached S stampsOf ms d s.durable → s = s' →
        Reached S stampsOf ms d s'.durable := by
      rintro s _ hs rfl
      exact hs
    obtain ⟨-, hlast⟩ := hexec.around (P := fun s => Reached S stampsOf ms d s.durable) (.inl rfl)
      hkeeps fun e he => (hguar e he).2
    refine ⟨reached_again hsane hfirst hreached hlast, fun e he => ?_, hrising.trans htrans ?_⟩
    · rcases List.mem_append.mp he with he | he
      · exact hwhole e he
      · exact whole_again hsane hfirst hreached (hrises.before e he) (hguar e he).1
    · exact ⟨hrises.before, hrises.between, hrises.after, hrises.whole⟩

theorem runs_safe (h : Runs S legacy runner d₀ es d) :
    Safe S legacy runner d₀ stampsOf ms es d := by
  obtain ⟨hreached, hwhole, hrising⟩ := runs_reached hsane hfirst hfinishes h
  have hlanded {m : Migration} (hm : m ∈ ms) {e : CallMade σ} (hlands : Lands S m e) :
      m.version ∈ e.post.durable.applied := by
    obtain ⟨-, happlied, -⟩ := apply_eq hsane hm hlands.2
    rw [happlied]
    exact List.mem_append_right _ (List.mem_singleton_self _)
  refine ⟨?_, fun e he => ?_, fun m hm => ?_, fun m hm => ⟨fun hrow => ?_, ?_⟩⟩
  · rw [hfinishes.uninterrupted_eq, hfinishes.uninterrupted_eq]
    exact reached_finished hsane hfirst hreached
  · obtain ⟨-, ⟨hbody, -⟩ | hlands⟩ := hwhole e he
    · exact .inl hbody
    · exact .inr hlands
  · refine hrising.between.imp ?_
    rintro e e' hkept ⟨hlands, hlands'⟩
    exact hlands'.1 (hkept _ (hlanded hm hlands))
  · by_cases hold : m.version ∈ d₀.applied
    · exact .inl hold
    obtain ⟨e, he, hbefore, hafter⟩ := h.event (P := fun d => m.version ∈ d.applied) hold hrow
    obtain ⟨-, ⟨hbody, hstamped⟩ | ⟨m', hm', hlands⟩⟩ := hwhole e he
    · obtain ⟨m', hm', hversion, hstamps⟩ := (hstamped _ hafter).resolve_left hbefore
      cases version_inj hsane.ordered hm' hm hversion
      exact .inr (.inr ⟨hstamps, e, he, hbody, hbefore, hafter⟩)
    · obtain ⟨-, happlied, -⟩ := apply_eq hsane hm' hlands.2
      rw [happlied] at hafter
      have hversion := List.mem_singleton.mp ((List.mem_append.mp hafter).resolve_left hbefore)
      cases version_inj hsane.ordered hm hm' hversion
      exact .inr (.inl ⟨e, he, hlands⟩)
  · rintro (hold | ⟨e, he, hlands⟩ | ⟨-, e, he, -, -, hmarked⟩)
    · exact hrising.whole _ hold
    · exact hrising.after e he _ (hlanded hm hlands)
    · exact hrising.after e he _ hmarked

end Safety

section Claims

variable {S : Schema σ} {legacy : Bool} {ms : List Migration} {runner : Runner σ Unit}
  {d₀ d d' : Db σ} {es : List (CallMade σ)}

theorem sqliteStamps_congr (f f' : Bool) (m : Migration) (h : m.version ≠ 1) :
    sqliteStamps f m = sqliteStamps f' m := by simp [sqliteStamps, h]

theorem postgresStamps_congr (f f' : Bool) (m : Migration) (h : m.version ≠ 1) :
    postgresStamps f m = postgresStamps f' m := by simp [postgresStamps, h]

theorem Runs.driven (h : Runs S legacy runner d₀ es d) (inputs : List Delivery)
    (hdrive : (runner.drive (handler S legacy) () inputs (.opened d)).map (·.2.2.durable) =
      some d') : ∃ es', Runs S legacy runner d₀ (es ++ es') d' := by
  obtain ⟨⟨es', p, s⟩, hdriven, rfl⟩ := Option.map_eq_some_iff.mp hdrive
  exact ⟨es', h.run (Exec.drive (fun _ => rfl) hdriven)⟩

-- Runs of either runner, each cut short anywhere, and then one that is not.
theorem migrations_crash_safe (hsane : Sane S ms) (d₀ d : Db σ) (es : List (CallMade σ)) :
    (Runs S true (applySqlite S ms) d₀ es d →
      Safe S true (applySqlite S ms) d₀ sqliteStamps ms es d) ∧
    (Runs S false (applyPostgres S ms) d₀ es d →
      Safe S false (applyPostgres S ms) d₀ postgresStamps ms es d) :=
  ⟨runs_safe hsane sqliteStamps_congr (applySqlite_finishes hsane),
    runs_safe hsane postgresStamps_congr (applyPostgres_finishes hsane)⟩

end Claims

section Tables

-- A database as the names of its tables, one of which a script creates; another script empties
-- the version table.
def tables : Schema (List String) where
  script name :=
    if name = "forget" then [fun d => some { d with versions := some [] }]
    else [fun d => if name ∈ d.body then none else some { d with body := name :: d.body }]
  hasJobs body := "jobs" ∈ body
  unhashedTokens _ := some []
  setTokenHash _ _ _ body := some body
  hashToken token := token
  fingerprintPrefix token := token

def ordinary : List Migration :=
  [⟨1, "initial", "jobs", false⟩, ⟨2, "token_hash", "users", false⟩, ⟨3, "bigint", "sizes", true⟩]

theorem tables_versions {ms : List Migration} (hcreates : ∀ m ∈ ms, m.sql ≠ "forget") :
    ∀ m ∈ ms, ∀ statement ∈ tables.script m.sql, ∀ d d',
      statement d = some d' → d'.versions = d.versions := by
  intro m hm statement hstatement d d' h
  have hscript : tables.script m.sql =
      [fun d => if m.sql ∈ d.body then none else some { d with body := m.sql :: d.body }] :=
    if_neg (hcreates m hm)
  rw [hscript] at hstatement
  cases List.mem_singleton.mp hstatement
  dsimp only at h
  split at h
  · cases h
  · cases h
    rfl

theorem ordinary_sane : Sane tables ordinary where
  ordered := by decide
  versions := tables_versions (by decide)
  jobs := by
    have hfirst : ∀ m ∈ ordinary, ∀ m' ∈ ordinary, m.version < m'.version → m'.version ≠ 1 := by
      decide
    intro m hm m' hm' hlt hone
    exact absurd hone (hfirst m hm m' hm' hlt)

theorem migrations_crash_safe_tables :
    (∃ es d, Runs tables true (applySqlite tables ordinary) ⟨[], none⟩ es d ∧
      d = ⟨["users", "jobs"], some [(1, "initial"), (2, "token_hash"), (3, "bigint")]⟩ ∧
      Safe tables true (applySqlite tables ordinary) ⟨[], none⟩ sqliteStamps ordinary es d) ∧
    ∃ es d, Runs tables false (applyPostgres tables ordinary) ⟨[], none⟩ es d ∧
      d = ⟨["users", "jobs"], some [(1, "initial"), (2, "token_hash")]⟩ ∧
      Safe tables false (applyPostgres tables ordinary) ⟨[], none⟩ postgresStamps ordinary es d := by
  constructor
  · have hstart : Runs tables true (applySqlite tables ordinary) ⟨[], none⟩ [] ⟨[], none⟩ := .start
    have hcut : ∃ es, Runs tables true (applySqlite tables ordinary) ⟨[], none⟩ es
        ⟨["jobs"], some [(1, "initial")]⟩ :=
      hstart.driven (List.replicate 7 .done ++ [.stopped 2]) rfl
    obtain ⟨es, hcut⟩ := hcut
    obtain ⟨es', hdone⟩ := hcut.driven (List.replicate 10 .done) rfl
    exact ⟨_, _, hdone, rfl, (migrations_crash_safe ordinary_sane _ _ _).1 hdone⟩
  · have hstart : Runs tables false (applyPostgres tables ordinary) ⟨[], none⟩ [] ⟨[], none⟩ := .start
    have hcut : ∃ es, Runs tables false (applyPostgres tables ordinary) ⟨[], none⟩ es
        ⟨["jobs"], some [(1, "initial")]⟩ :=
      hstart.driven (List.replicate 8 .done) rfl
    obtain ⟨es, hcut⟩ := hcut
    obtain ⟨es', hdone⟩ := hcut.driven (List.replicate 8 .done) rfl
    exact ⟨_, _, hdone, rfl, (migrations_crash_safe ordinary_sane _ _ _).2 hdone⟩

def early : List Migration := [⟨0, "queue", "jobs", false⟩, ⟨1, "initial", "users", false⟩]

def forgetful : List Migration := [⟨1, "initial", "jobs", false⟩, ⟨2, "renumber", "forget", false⟩]

-- A crash after a version 0 that creates the `jobs` table, and a script that empties the version
-- table: either way the next run comes to something else.
theorem migrations_diverge :
    (∃ ms : List Migration, ms.Pairwise (fun m m' => m.version < m'.version) ∧
      (∀ m ∈ ms, ∀ statement ∈ tables.script m.sql, ∀ d d',
        statement d = some d' → d'.versions = d.versions) ∧
      ∃ es d, Runs tables true (applySqlite tables ms) ⟨[], none⟩ es d ∧
        ¬Safe tables true (applySqlite tables ms) ⟨[], none⟩ sqliteStamps ms es d) ∧
    ∃ ms : List Migration, ms.Pairwise (fun m m' => m.version < m'.version) ∧
      (∀ m ∈ ms, 1 ≤ m.version) ∧
      ∃ es d, Runs tables true (applySqlite tables ms) ⟨[], none⟩ es d ∧
        ¬Safe tables true (applySqlite tables ms) ⟨[], none⟩ sqliteStamps ms es d := by
  refine ⟨⟨early, by decide, tables_versions (by decide), ?_⟩, forgetful, by decide, by decide, ?_⟩
  · have hstart : Runs tables true (applySqlite tables early) ⟨[], none⟩ [] ⟨[], none⟩ := .start
    have hcut : ∃ es, Runs tables true (applySqlite tables early) ⟨[], none⟩ es
        ⟨["jobs"], some [(0, "queue")]⟩ :=
      hstart.driven (List.replicate 7 .done) rfl
    obtain ⟨es, hcut⟩ := hcut
    exact ⟨es, _, hcut, fun hsafe => absurd hsafe.resumed (by decide)⟩
  · have hstart : Runs tables true (applySqlite tables forgetful) ⟨[], none⟩ [] ⟨[], none⟩ := .start
    have hcut : ∃ es, Runs tables true (applySqlite tables forgetful) ⟨[], none⟩ es
        ⟨["jobs"], some [(2, "renumber")]⟩ :=
      hstart.driven (List.replicate 10 .done) rfl
    obtain ⟨es, hcut⟩ := hcut
    exact ⟨es, _, hcut, fun hsafe => absurd hsafe.resumed (by decide)⟩

end Tables

end TranscodeForge.Migrations
