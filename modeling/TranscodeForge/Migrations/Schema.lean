import Mathlib.Data.List.Basic
import Mathlib.Data.List.Infix
import Mathlib.Data.List.Pairwise

namespace TranscodeForge.Migrations

-- Everything but `schema_migrations`, and the version and the name of its rows; there is no
-- such table in an install from before there were versions.
structure Db (σ : Type) where
  body : σ
  versions : Option (List (Nat × String))
deriving DecidableEq, Repr

-- `none` where the statement fails.
abbrev Statement (σ : Type) := Db σ → Option (Db σ)

structure Migration where
  version : Nat
  name : String
  sql : String
  pgOnly : Bool
deriving DecidableEq, Repr

-- What a database makes of the texts that the runner sends it.
structure Schema (σ : Type) where
  script : String → List (Statement σ)
  hasJobs : σ → Bool
  unhashedTokens : σ → Option (List String)
  setTokenHash : (tokenHash tokenPrefix token : String) → σ → Option σ
  hashToken : String → String
  fingerprintPrefix : String → String

variable {σ : Type}

namespace Db

variable (d : Db σ)

def applied : List Nat := (d.versions.getD []).map Prod.fst

-- CREATE TABLE IF NOT EXISTS.
def created : Db σ := { d with versions := some (d.versions.getD []) }

-- INSERT; the version is the primary key.
def record (version : Nat) (name : String) : Option (Db σ) :=
  d.versions.bind fun rows =>
    if version ∈ rows.map Prod.fst then none
    else some { d with versions := some (rows ++ [(version, name)]) }

@[simp] theorem applied_created : d.created.applied = d.applied := rfl

@[simp] theorem body_created : d.created.body = d.body := rfl

@[simp] theorem created_created : d.created.created = d.created := rfl

variable {d} {d' : Db σ} {version : Nat} {name : String}

theorem record_eq (h : d.record version name = some d') : version ∉ d.applied ∧ d'.body = d.body ∧
    d'.applied = d.applied ++ [version] ∧ d'.created = d' := by
  obtain ⟨rows, hrows, h⟩ := Option.bind_eq_some_iff.mp h
  split at h
  · cases h
  · next hfree =>
    cases h
    refine ⟨?_, rfl, ?_, rfl⟩
    · rw [applied, hrows]
      exact hfree
    · simp [applied, hrows]

end Db

variable (S : Schema σ)

def runAll (statements : List (Statement σ)) (d : Db σ) : Option (Db σ) :=
  statements.foldlM (fun d statement => statement d) d

def setHash (token : String) (d : Db σ) : Option (Db σ) :=
  (S.setTokenHash (S.hashToken token) (S.fingerprintPrefix token) token d.body).map fun body =>
    { d with body := body }

def backfill (d : Db σ) : Option (Db σ) :=
  (S.unhashedTokens d.body).bind fun tokens => tokens.foldlM (fun d token => setHash S token d) d

def backfillOf (m : Migration) (d : Db σ) : Option (Db σ) :=
  if m.name = "token_hash" then backfill S d else some d

-- What comes after the script: the backfill and the version row.
def conclude (m : Migration) (d : Db σ) : Option (Db σ) :=
  (backfillOf S m d).bind (·.record m.version m.name)

def apply (m : Migration) (d : Db σ) : Option (Db σ) :=
  (runAll (S.script m.sql) d).bind (conclude S m)

variable (stamps : Migration → Bool)

def advance (m : Migration) (d : Db σ) : Option (Db σ) :=
  if m.version ∈ d.applied then some d
  else if stamps m then d.record m.version m.name
  else apply S m d

def migrate (ms : List Migration) (d : Db σ) : Option (Db σ) :=
  ms.foldlM (fun d m => advance S stamps m d) d

theorem migrate_cons (m : Migration) (ms : List Migration) (d : Db σ) :
    migrate S stamps (m :: ms) d = (advance S stamps m d).bind (migrate S stamps ms) := rfl

theorem migrate_append (xs ys : List Migration) (d : Db σ) :
    migrate S stamps (xs ++ ys) d = (migrate S stamps xs d).bind (migrate S stamps ys) := by
  unfold migrate
  exact List.foldlM_append

-- Lists in their order, with scripts that leave alone what they do not own: the version table,
-- and ahead of version 1 whether there is a `jobs` table.
structure Sane (ms : List Migration) : Prop where
  ordered : ms.Pairwise fun m m' => m.version < m'.version
  versions : ∀ m ∈ ms, ∀ statement ∈ S.script m.sql, ∀ d d',
    statement d = some d' → d'.versions = d.versions
  jobs : ∀ m ∈ ms, ∀ m' ∈ ms, m.version < m'.version → m'.version = 1 →
    ∀ d d', apply S m d = some d' → S.hasJobs d'.body = S.hasJobs d.body

variable {S stamps} {ms xs ys : List Migration} {m : Migration} {d d' x : Db σ}

theorem runAll_versions (statements : List (Statement σ))
    (hleaves : ∀ statement ∈ statements, ∀ d d', statement d = some d' → d'.versions = d.versions)
    (h : runAll statements d = some d') : d'.versions = d.versions := by
  induction statements generalizing d with
  | nil =>
    cases h
    rfl
  | cons statement statements ih =>
    obtain ⟨d₁, hfirst, hrest⟩ := Option.bind_eq_some_iff.mp h
    rw [ih (fun q hq => hleaves q (List.mem_cons_of_mem _ hq)) hrest]
    exact hleaves statement List.mem_cons_self d d₁ hfirst

theorem backfillOf_versions (h : backfillOf S m d = some d') : d'.versions = d.versions := by
  unfold backfillOf at h
  split at h
  · obtain ⟨tokens, -, hall⟩ := Option.bind_eq_some_iff.mp h
    refine runAll_versions (tokens.map (setHash S)) ?_ ?_
    · intro statement hstatement d₁ d₂ heq
      obtain ⟨token, -, rfl⟩ := List.mem_map.mp hstatement
      obtain ⟨body, -, rfl⟩ := Option.map_eq_some_iff.mp heq
      rfl
    · rw [runAll, List.foldlM_map]
      exact hall
  · cases h
    rfl

theorem migrate_done (hdone : ∀ m ∈ xs, m.version ∈ d.applied) : migrate S stamps xs d = some d := by
  induction xs with
  | nil => rfl
  | cons m xs ih =>
    rw [migrate_cons, advance, if_pos (hdone m List.mem_cons_self), Option.bind_some]
    exact ih fun m' hm' => hdone m' (List.mem_cons_of_mem m hm')

section Applied

variable (hsane : Sane S ms)

include hsane

theorem apply_eq (hm : m ∈ ms) (h : apply S m d = some d') : m.version ∉ d.applied ∧
    d'.applied = d.applied ++ [m.version] ∧ d'.created = d' := by
  obtain ⟨d₁, hscript, hconclude⟩ := Option.bind_eq_some_iff.mp h
  obtain ⟨d₂, hfill, hrecord⟩ := Option.bind_eq_some_iff.mp hconclude
  have hversions : d₂.versions = d.versions :=
    (backfillOf_versions hfill).trans (runAll_versions _ (hsane.versions m hm) hscript)
  have happlied : d₂.applied = d.applied := by
    rw [Db.applied, hversions]
    rfl
  obtain ⟨hfree, -, hrows, hcreated⟩ := Db.record_eq hrecord
  rw [happlied] at hfree hrows
  exact ⟨hfree, hrows, hcreated⟩

theorem advance_eq (hm : m ∈ ms) (hcreated : d.created = d) (h : advance S stamps m d = some d') :
    d'.created = d' ∧ d'.applied =
      if m.version ∈ d.applied then d.applied else d.applied ++ [m.version] := by
  unfold advance at h
  split at h
  · next hdone =>
    cases h
    exact ⟨hcreated, (if_pos hdone).symm⟩
  · next hdone =>
    rw [if_neg hdone]
    split at h
    · obtain ⟨-, -, hrows, hkept⟩ := Db.record_eq h
      exact ⟨hkept, hrows⟩
    · obtain ⟨-, hrows, hkept⟩ := apply_eq hsane hm h
      exact ⟨hkept, hrows⟩

-- What the migrations of a list leave recorded.
theorem migrate_eq (hxs : ∀ m ∈ xs, m ∈ ms) (hcreated : d.created = d)
    (h : migrate S stamps xs d = some d') : d'.created = d' ∧
      ∀ v, v ∈ d'.applied ↔ v ∈ d.applied ∨ ∃ m ∈ xs, m.version = v := by
  induction xs generalizing d with
  | nil =>
    cases h
    exact ⟨hcreated, by simp⟩
  | cons m xs ih =>
    rw [migrate_cons] at h
    obtain ⟨d₁, hfirst, hrest⟩ := Option.bind_eq_some_iff.mp h
    obtain ⟨hcreated₁, happlied⟩ := advance_eq hsane (hxs m List.mem_cons_self) hcreated hfirst
    obtain ⟨hcreated', hall⟩ := ih (fun m' hm' => hxs m' (List.mem_cons_of_mem m hm')) hcreated₁ hrest
    refine ⟨hcreated', fun v => ?_⟩
    rw [hall, happlied]
    split
    · next hdone =>
      constructor
      · rintro (hv | ⟨m', hm', hv⟩)
        · exact .inl hv
        · exact .inr ⟨m', List.mem_cons_of_mem m hm', hv⟩
      · rintro (hv | ⟨m', hm', rfl⟩)
        · exact .inl hv
        · rcases List.mem_cons.mp hm' with rfl | hm'
          · exact .inl hdone
          · exact .inr ⟨m', hm', rfl⟩
    · simp only [List.mem_append, List.mem_singleton, List.exists_mem_cons_iff, or_assoc, eq_comm]

-- Another decision about the migrations that are recorded changes nothing.
theorem migrate_congr {stamps' : Migration → Bool} (hys : ∀ m ∈ ys, m ∈ ms)
    (hcreated : d.created = d)
    (hagree : ∀ m ∈ ys, m.version ∉ d.applied → stamps m = stamps' m) :
    migrate S stamps ys d = migrate S stamps' ys d := by
  induction ys generalizing d with
  | nil => rfl
  | cons m ys ih =>
    have hadvance : advance S stamps m d = advance S stamps' m d := by
      unfold advance
      split
      · rfl
      · next hfree => rw [hagree m List.mem_cons_self hfree]
    rw [migrate_cons, migrate_cons, ← hadvance]
    cases hfirst : advance S stamps m d with
    | none => rfl
    | some d₁ =>
      obtain ⟨hcreated₁, happlied⟩ := advance_eq hsane (hys m List.mem_cons_self) hcreated hfirst
      refine ih (fun m' hm' => hys m' (List.mem_cons_of_mem m hm')) hcreated₁ fun m' hm' hfree => ?_
      refine hagree m' (List.mem_cons_of_mem m hm') fun hmem => hfree ?_
      rw [happlied]
      split
      · exact hmem
      · exact List.mem_append_left _ hmem

theorem migrate_jobs {m' : Migration} (hm' : m' ∈ ms) (hone : m'.version = 1)
    (hxs : ∀ m ∈ xs, m ∈ ms ∧ m.version < m'.version) (h : migrate S stamps xs d = some d') :
    S.hasJobs d'.body = S.hasJobs d.body := by
  induction xs generalizing d with
  | nil =>
    cases h
    rfl
  | cons m xs ih =>
    rw [migrate_cons] at h
    obtain ⟨d₁, hfirst, hrest⟩ := Option.bind_eq_some_iff.mp h
    rw [ih (fun m' hm' => hxs m' (List.mem_cons_of_mem m hm')) hrest]
    obtain ⟨hm, hearly⟩ := hxs m List.mem_cons_self
    unfold advance at hfirst
    split at hfirst
    · cases hfirst
      rfl
    · split at hfirst
      · rw [(Db.record_eq hfirst).2.1]
      · exact hsane.jobs m hm m' hm' hearly hone d d₁ hfirst

end Applied

section Resuming

-- Whether a migration is stamped, by whether the install is fresh.
variable (S) (stampsOf : Bool → Migration → Bool) (ms : List Migration)

def isFresh (d : Db σ) : Bool := !S.hasJobs d.body

-- What all the migrations make of a database.
def finished (d : Db σ) : Option (Db σ) := migrate S (stampsOf (isFresh S d)) ms d.created

-- What some of them make of it: those of a beginning of the list.
def Partly (d x : Db σ) : Prop :=
  ∃ pre post, ms = pre ++ post ∧ migrate S (stampsOf (isFresh S d)) pre d.created = some x

def Reached (d x : Db σ) : Prop := x = d ∨ Partly S stampsOf ms d x

variable {S stampsOf ms} {d₀ : Db σ} (hsane : Sane S ms)
  (hfirst : ∀ f f' m, m.version ≠ 1 → stampsOf f m = stampsOf f' m)

include hsane hfirst

-- The decision is the same again, wherever it still matters.
theorem partly_agrees {pre post : List Migration} (hms : ms = pre ++ post)
    (h : migrate S (stampsOf (isFresh S d₀)) pre d₀.created = some d) :
    ∀ m ∈ post, stampsOf (isFresh S d) m = stampsOf (isFresh S d₀) m := by
  intro m hm
  by_cases hone : m.version = 1
  · have hordered := hsane.ordered
    rw [hms, List.pairwise_append] at hordered
    have hearly : ∀ m' ∈ pre, m' ∈ ms ∧ m'.version < m.version := fun m' hm' =>
      ⟨hms ▸ List.mem_append_left post hm', hordered.2.2 m' hm' m hm⟩
    have hjobs : S.hasJobs d.body = S.hasJobs d₀.created.body :=
      migrate_jobs hsane (hms ▸ List.mem_append_right pre hm) hone hearly h
    rw [isFresh, hjobs]
    rfl
  · exact hfirst _ _ m hone

theorem partly_resumes {pre post : List Migration} (hms : ms = pre ++ post)
    (h : migrate S (stampsOf (isFresh S d₀)) pre d₀.created = some d) (rest : List Migration)
    (hrest : ∀ m ∈ rest, m ∈ post) : migrate S (stampsOf (isFresh S d)) (pre ++ rest) d.created =
      migrate S (stampsOf (isFresh S d₀)) (pre ++ rest) d₀.created := by
  have hpre : ∀ m ∈ pre, m ∈ ms := fun m hm => hms ▸ List.mem_append_left post hm
  obtain ⟨hcreated, happlied⟩ := migrate_eq hsane hpre rfl h
  have hdone : ∀ m ∈ pre, m.version ∈ d.applied := fun m hm => (happlied _).mpr (.inr ⟨m, hm, rfl⟩)
  rw [hcreated, migrate_append, migrate_append, migrate_done hdone, h, Option.bind_some,
    Option.bind_some]
  exact migrate_congr hsane (fun m hm => hms ▸ List.mem_append_right pre (hrest m hm)) hcreated
    fun m hm _ => partly_agrees hsane hfirst hms h m (hrest m hm)

theorem reached_finished (h : Reached S stampsOf ms d₀ d) :
    finished S stampsOf ms d = finished S stampsOf ms d₀ := by
  rcases h with rfl | ⟨pre, post, hms, h⟩
  · rfl
  · have hresumes := partly_resumes hsane hfirst hms h post fun _ hm => hm
    rw [← hms] at hresumes
    exact hresumes

theorem reached_again (h : Reached S stampsOf ms d₀ d) (hx : Reached S stampsOf ms d x) :
    Reached S stampsOf ms d₀ x := by
  rcases h with rfl | ⟨pre, post, hms, h⟩
  · exact hx
  · rcases hx with rfl | ⟨pre', post', hms', h'⟩
    · exact .inr ⟨pre, post, hms, h⟩
    · have hsplit : pre <+: pre' ∨ pre' <+: pre :=
        List.prefix_or_prefix_of_prefix ⟨post, hms.symm⟩ ⟨post', hms'.symm⟩
      rcases hsplit with ⟨rest, rfl⟩ | ⟨rest, rfl⟩
      · have hpost : post = rest ++ post' := by
          rw [hms, List.append_assoc] at hms'
          exact List.append_cancel_left hms'
        have hresumes := partly_resumes hsane hfirst hms h rest fun m hm => by
          rw [hpost]
          exact List.mem_append_left post' hm
        exact .inr ⟨pre ++ rest, post', hms', hresumes.symm.trans h'⟩
      · have hpre : ∀ m ∈ pre' ++ rest, m ∈ ms := fun m hm => hms ▸ List.mem_append_left post hm
        obtain ⟨hcreated, happlied⟩ := migrate_eq hsane hpre rfl h
        have hdone : ∀ m ∈ pre', m.version ∈ d.applied := fun m hm =>
          (happlied _).mpr (.inr ⟨m, List.mem_append_left rest hm, rfl⟩)
        rw [hcreated, migrate_done hdone] at h'
        cases h'
        exact .inr ⟨pre' ++ rest, post, hms, h⟩

end Resuming

end TranscodeForge.Migrations
