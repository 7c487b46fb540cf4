import TranscodeForge.Scratch.Manager

namespace TranscodeForge.Scratch

open Interaction Storage SourcePath Text

-- Paths are resolved; `none` is a setting left empty.
structure Settings where
  scratchDir : Option (List String) := none
  workerStateDir : Option (List String) := none
deriving DecidableEq

namespace Settings

def scratchRoot (s : Settings) : List String := s.scratchDir.getD ["tmp", "transcode-scratch"]

def stateRoot (s : Settings) : List String := s.workerStateDir.getD (s.scratchRoot ++ ["state"])

def outboxDir (s : Settings) : List String := s.stateRoot ++ ["outbox"]

-- No part below the scratch root on the way to the state directory has an underscore first.
def KeepsState (s : Settings) : Prop :=
  ∀ name rest, s.stateRoot = s.scratchRoot ++ name :: rest → '_' ∉ name.toList

end Settings

inductive Request where
  | reserve (jobId : JobId) (sizeBytes : Nat)
  | release (jobId : JobId)
  | cleanupOrphans
  | cleanupOnShutdown
deriving DecidableEq

def Request.program (scratchRoot : List String) : Request → Manager Unit
  | .reserve jobId sizeBytes => do
    let _ ← Scratch.reserve scratchRoot jobId sizeBytes
    pure ()
  | .release jobId => Scratch.release scratchRoot jobId
  | .cleanupOrphans => Scratch.cleanupOrphans scratchRoot
  | .cleanupOnShutdown => Scratch.cleanupOnShutdown scratchRoot

-- What happens besides: the journal's writes and acknowledgements, the files that downloads and
-- encodes leave, and the end of the worker's process.
inductive Event where
  | journal (name content : String)
  | acknowledge (name : String)
  | store (path : Path) (content : String)
  | restart

def writeFile (t : Tree) (path : Path) (content : String) : Tree :=
  t.upsert ⟨path, .file content⟩ (fun e => { e with node := .file content }) fun _ => rfl

def Event.exec (s : Settings) (t : Tree) : Event → Tree
  | .journal name content => writeFile t ⟨s.outboxDir, name⟩ content
  | .acknowledge name => t.remove ⟨s.outboxDir, name⟩
  | .store path content => writeFile t path content
  | .restart => t

def system (s : Settings) :
    System Nat Request Event Call Call.Answer Tree Input Failure Unit where
  handler := handler s.scratchRoot
  body _ r := r.program s.scratchRoot
  start _ _ t := some t
  disturb e t := e.exec s t
  kills
    | .restart, _ => true
    | _, _ => false

abbrev ScratchCall := ThreadCall Nat Request Call Tree Input

abbrev ScratchConfig := Interaction.Config Nat Request Call Call.Answer Tree Failure Unit

abbrev ScratchRun (s : Settings) (t : Tree) (es : List ScratchCall) (d : ScratchConfig) : Prop :=
  Run (system s) (.initial t) es d

-- The entries that are journaled before a call are there after it.
def Spares (s : Settings) (e : ScratchCall) : Prop :=
  ∀ name content, name ≠ ".." → e.pre.node ⟨s.outboxDir, name⟩ = some (.file content) →
    e.post.node ⟨s.outboxDir, name⟩ = some (.file content)

section Removals

variable {scratchRoot : List String}

def RemovesJobDirs (scratchRoot : List String) (c : Call) : Prop :=
  ∀ path, c = .rmtree path → ∃ name, path = ⟨scratchRoot, name⟩ ∧ '_' ∈ name.toList

theorem calls_act {α : Type} {A : Call → Prop} {c : Call} {k : c.Answer → Manager α} (hc : A c)
    (hk : ∀ a, (k a).Calls A) : (act c >>= k).Calls A :=
  ⟨hc, hk⟩

theorem other_calls {c : Call} (h : ∀ path, c ≠ .rmtree path) : RemovesJobDirs scratchRoot c :=
  fun path hpath => absurd hpath (h path)

theorem glob_calls {front : String} {k : List String → Manager Unit}
    (hk : ∀ names, (∀ name ∈ names, '_' ∈ name.toList) →
      (k names).Calls (RemovesJobDirs scratchRoot)) :
    (glob (front ++ "_*") >>= k).Calls (RemovesJobDirs scratchRoot) := by
  unfold glob
  split
  · trivial
  · refine ⟨other_calls (by simp), fun names => hk _ fun name hname => ?_⟩
    exact underscore_of_fnmatch (List.mem_filter.mp hname).2

theorem remove_calls {name : String} (h : '_' ∈ name.toList) :
    (remove scratchRoot name).Calls (RemovesJobDirs scratchRoot) := by
  refine calls_act (fun path hpath => ?_) fun _ => trivial
  cases hpath
  exact ⟨name, rfl, h⟩

theorem job_pattern : "*_*" = "*" ++ "_*" := by decide

theorem reserve_calls (jobId : JobId) (sizeBytes : Nat) :
    (reserve scratchRoot jobId sizeBytes).Calls (RemovesJobDirs scratchRoot) := by
  refine calls_act (other_calls (by simp)) fun free => ?_
  split
  · trivial
  · refine calls_act (other_calls (by simp)) fun uuid => ?_
    refine calls_act (other_calls (by simp)) fun made => ?_
    cases made <;> trivial

theorem release_calls (jobId : JobId) :
    (release scratchRoot jobId).Calls (RemovesJobDirs scratchRoot) :=
  glob_calls fun _ hnames => .each fun name hname => remove_calls (hnames name hname)

theorem cleanupOrphans_calls :
    (cleanupOrphans scratchRoot).Calls (RemovesJobDirs scratchRoot) := by
  refine calls_act (other_calls (by simp)) fun now => ?_
  rw [job_pattern]
  refine glob_calls fun _ hnames => .each fun name hname => ?_
  refine calls_act (other_calls (by simp)) fun isDir => ?_
  split
  · trivial
  · refine calls_act (other_calls (by simp)) fun modified => ?_
    cases modified with
    | error e => trivial
    | ok modified =>
      dsimp only
      split
      · exact remove_calls (hnames name hname)
      · trivial

theorem cleanupOnShutdown_calls :
    (cleanupOnShutdown scratchRoot).Calls (RemovesJobDirs scratchRoot) := by
  unfold cleanupOnShutdown
  rw [job_pattern]
  refine glob_calls fun _ hnames => .each fun name hname => ?_
  refine calls_act (other_calls (by simp)) fun isDir => ?_
  split
  · trivial
  · exact remove_calls (hnames name hname)

theorem Request.calls (r : Request) :
    (r.program scratchRoot).Calls (RemovesJobDirs scratchRoot) := by
  cases r with
  | reserve jobId sizeBytes => exact (reserve_calls jobId sizeBytes).bind fun _ => trivial
  | release jobId => exact release_calls jobId
  | cleanupOrphans => exact cleanupOrphans_calls
  | cleanupOnShutdown => exact cleanupOnShutdown_calls

end Removals

section Sparing

variable {s : Settings} {t : Tree} {name content : String}

theorem not_under_jobDir (hs : s.KeepsState) {dir : String} (hdir : '_' ∈ dir.toList)
    (hunder : s.scratchRoot ++ [dir] <+: s.outboxDir ++ [name]) :
    (⟨s.scratchRoot, dir⟩ : Path) = ⟨s.outboxDir, name⟩ := by
  obtain ⟨rest, hrest⟩ := hunder
  rcases List.eq_nil_or_concat rest with rfl | ⟨rest', last, rfl⟩
  · rw [List.append_nil] at hrest
    obtain ⟨hroot, hlast⟩ := List.append_inj' hrest rfl
    cases hlast
    rw [hroot]
  · exfalso
    rw [List.concat_eq_append, ← List.append_assoc] at hrest
    obtain ⟨hinit, -⟩ := List.append_inj' hrest rfl
    rw [Settings.outboxDir] at hinit
    rcases List.eq_nil_or_concat rest' with rfl | ⟨rest'', last', rfl⟩
    · rw [List.append_nil] at hinit
      obtain ⟨-, hlast⟩ := List.append_inj' hinit rfl
      cases hlast
      exact absurd hdir (by decide)
    · rw [List.concat_eq_append, ← List.append_assoc] at hinit
      obtain ⟨hstate, -⟩ := List.append_inj' hinit rfl
      refine hs dir rest'' ?_ hdir
      rw [← hstate, List.append_assoc]
      rfl

theorem removeTree_spares (hs : s.KeepsState) {dir : String} (hdir : '_' ∈ dir.toList) (i : Input)
    (hname : name ≠ "..") (hentry : t.node ⟨s.outboxDir, name⟩ = some (.file content)) :
    (removeTree ⟨s.scratchRoot, dir⟩ i t).1.node ⟨s.outboxDir, name⟩ = some (.file content) := by
  unfold removeTree
  split
  · exact hentry
  · exact hentry
  · next hnode =>
    -- The entry is a file, so it is not the directory that goes; and it is not below it.
    have houtside : (Path.parts ⟨s.scratchRoot, dir⟩).isPrefixOf (Path.parts ⟨s.outboxDir, name⟩) =
        false := by
      rw [← Bool.not_eq_true, List.isPrefixOf_iff_prefix]
      intro hunder
      have hsame := not_under_jobDir hs hdir hunder
      rw [hsame, hentry] at hnode
      cases hnode
    split
    · rw [FileTree.node_prune _ hname, houtside]
      exact hentry
    · rw [FileTree.rmtree, FileTree.node_prune _ hname, houtside]
      exact hentry

theorem mkdir_spares {path : Path} (hname : name ≠ "..")
    (hentry : t.node ⟨s.outboxDir, name⟩ = some (.file content)) :
    (t.mkdir path).node ⟨s.outboxDir, name⟩ = some (.file content) := by
  rw [FileTree.node_mkdir _ hname, hentry]
  simp

theorem exec_spares (hs : s.KeepsState) {c : Call} (hc : RemovesJobDirs s.scratchRoot c) (n : Nat)
    (i : Input) (hname : name ≠ "..")
    (hentry : t.node ⟨s.outboxDir, name⟩ = some (.file content)) :
    ((handler s.scratchRoot).next n c i t).node ⟨s.outboxDir, name⟩ = some (.file content) := by
  cases c with
  | mkdir path =>
    simp only [Handler.next, handler, exec]
    split
    · exact hentry
    · split
      · exact hentry
      · exact mkdir_spares hname hentry
  | rmtree path =>
    obtain ⟨dir, rfl, hdir⟩ := hc path rfl
    exact removeTree_spares hs hdir i hname hentry
  | _ => exact hentry

theorem run_spares (hs : s.KeepsState) {es : List ScratchCall} {d : ScratchConfig}
    (h : ScratchRun s t es d) : ∀ e ∈ es, Spares s e := by
  intro e he name content hname hentry
  have hcall := (Run.calls h fun _ r _ _ _ => r.calls).1 e he
  rw [Run.post_eq h e he]
  exact exec_spares hs hcall e.thread e.input hname hentry

end Sparing

section Losing

variable {s : Settings} {name : String} {rest : List String}

def entryFile : String := "0000000001-a-complete.json"

-- The directories that a path leads through.
def directories (dir : List String) : List String → List Path
  | [] => []
  | name :: rest => ⟨dir, name⟩ :: directories (dir ++ [name]) rest

def makeDirs (t : Tree) (paths : List Path) : Tree := paths.foldl FileTree.mkdir t

-- A journaled entry, and the directories below the scratch root that its path leads through.
def stateTree (s : Settings) (name : String) (rest : List String) : Tree :=
  makeDirs (writeFile Relational.Table.empty ⟨s.outboxDir, entryFile⟩ "report")
    (directories s.scratchRoot (name :: rest ++ ["outbox"]))

theorem node_makeDirs {path : Path} {n : Node String} (hname : path.name ≠ "..") {paths : List Path} {t : Tree}
    (hnode : t.node path = some n) : (makeDirs t paths).node path = some n := by
  induction paths generalizing t with
  | nil => exact hnode
  | cons other paths ih =>
    refine ih ?_
    rw [FileTree.node_mkdir _ hname, hnode]
    simp

theorem children_makeDirs {dir below : List String} {names : List String} {t : Tree}
    (hbelow : dir.length < below.length) :
    (makeDirs t (directories below names)).children dir = t.children dir := by
  induction names generalizing t below with
  | nil => rfl
  | cons name names ih =>
    have hne : below ≠ dir := by
      rintro rfl
      omega
    refine (ih ?_).trans (FileTree.children_mkdir (p := ⟨below, name⟩) hne)
    rw [List.length_append]
    omega

theorem outboxDir_ne (hstate : s.stateRoot = s.scratchRoot ++ name :: rest) :
    s.outboxDir ≠ s.scratchRoot := by
  intro heq
  have hlength := congrArg List.length heq
  simp only [Settings.outboxDir, hstate, List.length_append, List.length_cons] at hlength
  omega

theorem rows_entry : (writeFile Relational.Table.empty ⟨s.outboxDir, entryFile⟩ "report").rows =
    [⟨⟨s.outboxDir, entryFile⟩, .file "report"⟩] := by
  simp [writeFile, Relational.Table.upsert, Relational.Table.update, Relational.Table.insert,
    Relational.Table.empty]

theorem node_stateTree : (stateTree s name rest).node ⟨s.outboxDir, entryFile⟩ =
    some (.file "report") := by
  have hentry : entryFile ≠ ".." := by decide
  refine node_makeDirs hentry ?_
  simp [FileTree.node, Relational.Table.get?, rows_entry, hentry]

theorem stateTree_eq : stateTree s name rest =
    makeDirs (FileTree.mkdir (writeFile Relational.Table.empty ⟨s.outboxDir, entryFile⟩ "report")
      ⟨s.scratchRoot, name⟩) (directories (s.scratchRoot ++ [name]) (rest ++ ["outbox"])) := rfl

theorem isDirectory_stateTree (hstate : s.stateRoot = s.scratchRoot ++ name :: rest)
    (hname : '_' ∈ name.toList) :
    (stateTree s name rest).node ⟨s.scratchRoot, name⟩ = some .directory := by
  have hne := outboxDir_ne hstate
  have hdots : name ≠ ".." := by
    rintro rfl
    exact absurd hname (by decide)
  rw [stateTree_eq]
  refine node_makeDirs hdots ?_
  rw [FileTree.node_mkdir _ hdots]
  simp [FileTree.node, Relational.Table.get?, rows_entry, hdots, hne]

theorem children_stateTree (hstate : s.stateRoot = s.scratchRoot ++ name :: rest) :
    (stateTree s name rest).children s.scratchRoot = [name] := by
  have hne := outboxDir_ne hstate
  have hbelow : s.scratchRoot.length < (s.scratchRoot ++ [name]).length := by simp
  rw [stateTree_eq, children_makeDirs hbelow]
  simp [FileTree.children, FileTree.mkdir, Relational.Table.insert, rows_entry, hne, Ne.symm hne]

theorem cleanupOnShutdown_eq (scratchRoot : List String) :
    cleanupOnShutdown scratchRoot = .call .scandir fun names =>
      Program.each (names.filter (fnmatch "*_*")) (removeJobDir scratchRoot) := by
  have hstars : ¬ ['*', '*'] <:+: "*_*".toList := by decide
  rw [cleanupOnShutdown, glob, if_neg hstars]
  rfl

-- The shutdown removes the directory, and the entry with it.
theorem shutdown_loses (hstate : s.stateRoot = s.scratchRoot ++ name :: rest)
    (hname : '_' ∈ name.toList) :
    ∃ es d, ScratchRun s (stateTree s name rest) es d ∧ ∃ e ∈ es, ¬ Spares s e := by
  have hdir := isDirectory_stateTree hstate hname
  have hnames : ((stateTree s name rest).children s.scratchRoot).filter (fnmatch "*_*") = [name] := by
    rw [children_stateTree hstate, List.filter_cons_of_pos (fnmatch_job.mpr hname)]
    rfl
  have hunreserved : reservedDirs.contains name = false := by
    simp only [reservedDirs, List.contains_cons, List.contains_nil, Bool.or_false, beq_eq_false_iff_ne]
    rintro rfl
    exact absurd hname (by decide)
  have hbody : Request.cleanupOnShutdown.program s.scratchRoot = .call .scandir fun names =>
      Program.each (names.filter (fnmatch "*_*")) (removeJobDir s.scratchRoot) :=
    cleanupOnShutdown_eq s.scratchRoot
  have hrest : Program.each (((stateTree s name rest).children s.scratchRoot).filter (fnmatch "*_*"))
      (removeJobDir s.scratchRoot) = .call (.isDir ⟨s.scratchRoot, name⟩) fun isDir =>
        (if !isDir || reservedDirs.contains name then pure ()
          else remove s.scratchRoot name).bind fun _ => .ret () := by
    rw [hnames]
    rfl
  have hremoved : (if !(stateTree s name rest).isDirectory ⟨s.scratchRoot, name⟩ ||
        reservedDirs.contains name then (pure () : Manager Unit)
        else remove s.scratchRoot name).bind (fun _ => .ret ()) =
      .call (.rmtree ⟨s.scratchRoot, name⟩) fun _ => .ret () := by
    rw [FileTree.isDirectory, hdir, hunreserved]
    rfl
  have hstart : ScratchRun s (stateTree s name rest) [] ((Config.initial (stateTree s name rest)).setThread
      (stateTree s name rest) 0
      (some ⟨.cleanupOnShutdown, Request.cleanupOnShutdown.program s.scratchRoot⟩)) :=
    Run.refl.start rfl rfl
  let onThread : Manager Unit → Option (Thread Request Call Call.Answer Failure Unit) :=
    fun p => some ⟨.cleanupOnShutdown, p⟩
  obtain ⟨d₁, hscan, hthread₁, hstate₁⟩ :=
    hstart.next ((Function.update_self ..).trans (by rw [hbody])) rfl {} rfl
  obtain ⟨d₂, hlook, hthread₂, hstate₂⟩ :=
    hscan.next (hthread₁.trans (congrArg onThread hrest)) hstate₁ {} rfl
  obtain ⟨d₃, hremove, -⟩ :=
    hlook.next (hthread₂.trans (congrArg onThread hremoved)) hstate₂ {} rfl
  refine ⟨_, d₃, hremove, _, List.mem_append_right _ (List.mem_singleton_self _), fun hspares => ?_⟩
  have hkept := hspares entryFile "report" (by decide) node_stateTree
  have hgone : (removeTree ⟨s.scratchRoot, name⟩ {} (stateTree s name rest)).1.node
      ⟨s.outboxDir, entryFile⟩ = none := by
    have hunder : (Path.parts ⟨s.scratchRoot, name⟩).isPrefixOf
        (Path.parts ⟨s.outboxDir, entryFile⟩) = true := by
      rw [List.isPrefixOf_iff_prefix]
      refine ⟨rest ++ ["outbox", entryFile], ?_⟩
      simp [Path.parts, Settings.outboxDir, hstate]
    have hentry : entryFile ≠ ".." := by decide
    have hremove : removeTree ⟨s.scratchRoot, name⟩ {} (stateTree s name rest) =
        ((stateTree s name rest).rmtree ⟨s.scratchRoot, name⟩, .ok ()) := by
      simp [removeTree, hdir]
    rw [hremove, FileTree.rmtree, FileTree.node_prune _ hentry, hunder]
    rfl
  exact absurd (hgone.symm.trans hkept) (by simp)

-- Every cleanup spares the outbox in every history iff no part below the scratch root on the way
-- to the state directory has an underscore first.
theorem cleanup_spares_outbox_iff (s : Settings) :
    (∀ t es d, ScratchRun s t es d → ∀ e ∈ es, Spares s e) ↔ s.KeepsState := by
  constructor
  · intro hspares name rest hstate hname
    obtain ⟨es, d, hrun, e, he, hlost⟩ := shutdown_loses hstate hname
    exact hlost (hspares _ es d hrun e he)
  · intro hs t es d hrun
    exact run_spares hs hrun

theorem not_cleanup_spares_outbox :
    ∃ es d, ScratchRun ⟨some ["scratch"], some ["scratch", "worker_state"]⟩
      (stateTree ⟨some ["scratch"], some ["scratch", "worker_state"]⟩ "worker_state" []) es d ∧
        ∃ e ∈ es, ¬ Spares ⟨some ["scratch"], some ["scratch", "worker_state"]⟩ e :=
  shutdown_loses rfl (by decide)

theorem keepsState_default (scratchDir : Option (List String)) :
    Settings.KeepsState ⟨scratchDir, none⟩ := by
  intro name rest hstate
  obtain ⟨rfl, -⟩ := List.cons.inj (List.append_cancel_left hstate)
  decide

end Losing

end TranscodeForge.Scratch
