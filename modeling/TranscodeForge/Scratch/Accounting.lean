import TranscodeForge.Scratch.S3Backend

namespace TranscodeForge.S3Backend

open Interaction Storage TranscodeForge.Derivative ProcessJob Scratch

def RemovalsSucceed (c : Call) (i : Input) : Prop :=
  match c with
  | .scratch c => Removes c i.scratch
  | _ => True

-- While a call is awaited nobody else touches the directories of the scratch root; what is in them
-- changes.
structure Meanwhile (scratchRoot : List String) (s s' : Station) : Prop where
  reserved : s'.reserved = s.reserved
  ending : s'.ending = s.ending
  dirs : SameDirs scratchRoot s.tree s'.tree

abbrev accounting (scratchRoot : List String) : Contract Call Station Input where
  rely := Meanwhile scratchRoot
  assume c i _ := RemovalsSucceed c i
  guar _ _ _ _ := True

-- Nothing is left of what `fetch` reserved.
def Settled (s : Station) : Prop := ∀ dir, s.reserved = some dir → s.tree.node dir = none

-- What the download's end leads to, a release by the fetch's id or by the job's, finds the name.
def Finds (source : String) (jobId : JobId) (ending : Option Ending) (name : String) : Prop :=
  match ending with
  | some .downloaded => Matches jobId name
  | some .clientError => Matches (fetchId source) name
  | _ => False

def Accounted (source : String) (jobId : JobId) (s : Station) : Prop :=
  ∀ dir, s.reserved = some dir → Finds source jobId s.ending dir.name

section Keeping

variable {scratchRoot : List String} {s s' : Station} {id : JobId}

-- The calls that reserve nothing.
def Reserves : Scratch.Call → Prop
  | .mkdir _ => True
  | _ => False

-- The reserved directory, how the download into it ended, and what is there now.
structure Holds (scratchRoot : List String) (name : String) (ending : Option Ending)
    (n : Option (Node String)) (s : Station) : Prop where
  reserved : s.reserved = some ⟨scratchRoot, name⟩
  ending : s.ending = ending
  node : s.tree.node ⟨scratchRoot, name⟩ = n

theorem Holds.rely {name : String} {ending : Option Ending} {n : Option (Node String)}
    (hname : name ≠ "..") (h : Holds scratchRoot name ending n s) (hr : Meanwhile scratchRoot s s') :
    Holds scratchRoot name ending n s' :=
  ⟨hr.reserved.trans h.reserved, hr.ending.trans h.ending, (hr.dirs name hname).trans h.node⟩

theorem release_noReserve (id : JobId) :
    (release scratchRoot id).Calls fun c => ¬ Reserves c := by
  unfold release glob
  split
  · trivial
  · refine ⟨fun h => h, fun names => .each fun name _ => ⟨fun h => h, fun _ => trivial⟩⟩

theorem scratch_next {c : Scratch.Call} (hc : ¬ Reserves c) (i : Input) (s : Station) :
    (handler scratchRoot).next () (.scratch c) i s =
      { s with tree := (Scratch.handler scratchRoot).next 0 c i.scratch s.tree } := by
  cases c with
  | mkdir path => exact absurd trivial hc
  | _ => rfl

-- What a release leaves: the directories with a matching name are gone, and no other is.
structure Released (scratchRoot : List String) (id : JobId) (s s' : Station) : Prop where
  reserved : s'.reserved = s.reserved
  ending : s'.ending = s.ending
  without : Without scratchRoot (Matches id) s.tree s'.tree

theorem onScratch_release_wp (id : JobId) :
    (onScratch (release scratchRoot id)).wp (handler scratchRoot) () (accounting scratchRoot)
      (fun _ s' => Released scratchRoot id s s') s := by
  have hrelease : ((release scratchRoot id).attempt : Program _ _ Raised _).wp
      (Scratch.handler scratchRoot) 0 (removing scratchRoot)
      (fun _ t' => Without scratchRoot (Matches id) s.tree t') s.tree := by
    rw [Program.wp_attempt]
    exact Scratch.release_wp id
  have hscratch : ((release scratchRoot id).attempt.expand fun c => act (.scratch c)).wp
      (handler scratchRoot) () (accounting scratchRoot)
      (fun _ s' => (s'.reserved = s.reserved ∧ s'.ending = s.ending) ∧
        Without scratchRoot (Matches id) s.tree s'.tree) s := by
    refine Program.wp_expand_view (v := Station.tree)
      (P := fun s' => s'.reserved = s.reserved ∧ s'.ending = s.ending)
      (release_noReserve id).attempt hrelease ⟨rfl, rfl⟩ ?_
    intro c s₁ R hc hs hcall s₂ hr _ i hi
    have hnext := hcall s₂.tree hr.dirs rfl i.scratch hi
    rw [scratch_next hc]
    exact ⟨trivial, ⟨hr.reserved.trans hs.1, hr.ending.trans hs.2⟩, hnext⟩
  refine Program.wp_seq hscratch (fun o s' h => ?_) fun e s' h => ⟨h.1.1, h.1.2, h.2⟩
  cases o with
  | ok a => exact ⟨h.1.1, h.1.2, h.2⟩
  | error e => exact ⟨h.1.1, h.1.2, h.2⟩

-- The calls that have nothing to do with the scratch root.
def Idle : Call → Prop
  | .scratch _ | .downloadFile _ _ => False
  | _ => True

variable (scratchRoot) in
theorem idle_next {c : Call} (hc : Idle c) (i : Input) (s : Station) :
    ((handler scratchRoot).next () c i s).tree = s.tree ∧
      ((handler scratchRoot).next () c i s).reserved = s.reserved ∧
      ((handler scratchRoot).next () c i s).ending = s.ending := by
  cases c with
  | scratch c => exact hc.elim
  | downloadFile key filename => exact hc.elim
  | _ => exact ⟨rfl, rfl, rfl⟩

-- The space that is needed stays a variable here: it is too large to compute with.
theorem onScratch_checked_wp {needed : Nat} {p : Manager Path}
    {Q : Except Raised Path → Station → Prop}
    (herror : ∀ s', Meanwhile scratchRoot s s' → Q (.error (raisedOf (.os .other))) s')
    (hok : ∀ s', Meanwhile scratchRoot s s' →
      (onScratch p).wp (handler scratchRoot) () (accounting scratchRoot) Q s') :
    (onScratch (Scratch.act .freeSpace >>= fun free =>
      if free < needed then .raise (.os .other) else p)).wp (handler scratchRoot) ()
        (accounting scratchRoot) Q s := by
  intro s₁ hr _ i _
  refine ⟨trivial, ?_⟩
  by_cases hfree : i.scratch.free < needed
  · have hraise : (if i.scratch.free < needed then .raise (.os .other) else p : Manager Path) =
        .raise (.os .other) := if_pos hfree
    change (onScratch (if i.scratch.free < needed then .raise (.os .other) else p)).wp _ _ _ Q _
    rw [hraise]
    exact herror s₁ hr
  · have hrest : (if i.scratch.free < needed then .raise (.os .other) else p : Manager Path) = p :=
      if_neg hfree
    change (onScratch (if i.scratch.free < needed then .raise (.os .other) else p)).wp _ _ _ Q _
    rw [hrest]
    exact hok s₁ hr

theorem dirName_ne {id : JobId} {uuid : String} : dirName id uuid ≠ ".." := by
  intro h
  have hmem : '_' ∈ (dirName id uuid).toList := by simp [dirName]
  rw [h] at hmem
  exact absurd hmem (by decide)

variable (scratchRoot) in
theorem mkdir_cases {name : String} (hname : name ≠ "..") (i : Input) (s : Station) :
    (∃ e, (handler scratchRoot).answer () (.scratch (.mkdir ⟨scratchRoot, name⟩)) i s = .error e ∧
      ((handler scratchRoot).next () (.scratch (.mkdir ⟨scratchRoot, name⟩)) i s).reserved =
        s.reserved) ∨
    (handler scratchRoot).answer () (.scratch (.mkdir ⟨scratchRoot, name⟩)) i s = .ok () ∧
      Holds scratchRoot name s.ending (some .directory)
        ((handler scratchRoot).next () (.scratch (.mkdir ⟨scratchRoot, name⟩)) i s) := by
  simp only [Handler.answer, Handler.next, handler, exec, Scratch.exec]
  split
  · exact .inl ⟨_, rfl, rfl⟩
  · split
    · exact .inl ⟨_, rfl, rfl⟩
    · next hfile =>
      refine .inr ⟨rfl, rfl, rfl, ?_⟩
      rw [FileTree.node_mkdir _ hname]
      cases hnode : s.tree.node ⟨scratchRoot, name⟩ with
      | none => simp
      | some n =>
        cases n with
        | file content => exact absurd hnode (hfile content)
        | directory => simp

variable (scratchRoot) in
theorem reserve_wp (id : JobId) (sizeBytes : Nat) (hs : s.reserved = none) :
    (onScratch (reserve scratchRoot id sizeBytes)).wp (handler scratchRoot) ()
      (accounting scratchRoot)
      (fun o s' => match o with
        | .ok dir => ∃ uuid, dir = ⟨scratchRoot, dirName id uuid⟩ ∧
            Holds scratchRoot (dirName id uuid) s.ending (some .directory) s'
        | .error _ => s'.reserved = none) s := by
  rw [reserve]
  refine onScratch_checked_wp (fun s₁ hr₁ => hr₁.reserved.trans hs) fun s₁ hr₁ => ?_
  intro s₂ hr₂ _ i₂ _
  refine ⟨trivial, ?_⟩
  intro s₃ hr₃ _ i₃ _
  refine ⟨trivial, ?_⟩
  have hending : s₃.ending = s.ending := hr₃.ending.trans (hr₂.ending.trans hr₁.ending)
  have hreserved : s₃.reserved = none :=
    hr₃.reserved.trans (hr₂.reserved.trans (hr₁.reserved.trans hs))
  generalize (handler scratchRoot).answer () (.scratch .uuid) i₂ s₂ = uuid
  have hname : dirName id uuid ≠ ".." := dirName_ne
  rcases mkdir_cases scratchRoot hname i₃ s₃ with ⟨e, hanswer, hnext⟩ | ⟨hanswer, hnext⟩
  · rw [hanswer]
    exact hnext.trans hreserved
  · rw [hanswer]
    refine ⟨uuid, rfl, ?_⟩
    rw [← hending]
    exact hnext

theorem node_store {t : Tree} {path q : Path} {content : String} (hq : q.name ≠ "..")
    (hne : path ≠ q) : (store t path content).node q = t.node q := by
  rw [FileTree.node, FileTree.node, if_neg hq, if_neg hq, store, Relational.Table.get?_upsert,
    if_neg hne]

-- How a download ends, and that it leaves the directories of the scratch root where they are.
theorem downloadFile_cases {name : String} {n : Option (Node String)} {ending : Option Ending}
    (key file : String) (hname : name ≠ "..") (i : Input) (h : Holds scratchRoot name ending n s) :
    (∃ e, (handler scratchRoot).answer () (.downloadFile key ⟨Path.parts ⟨scratchRoot, name⟩, file⟩) i s =
        .error e ∧ Holds scratchRoot name (some (if e.isClient then .clientError else .otherError)) n
          ((handler scratchRoot).next () (.downloadFile key ⟨Path.parts ⟨scratchRoot, name⟩, file⟩) i s)) ∨
    (handler scratchRoot).answer () (.downloadFile key ⟨Path.parts ⟨scratchRoot, name⟩, file⟩) i s = .ok () ∧
      Holds scratchRoot name (some .downloaded) n
        ((handler scratchRoot).next () (.downloadFile key ⟨Path.parts ⟨scratchRoot, name⟩, file⟩) i s) := by
  simp only [Handler.answer, Handler.next, handler, exec, downloadFile]
  split
  · exact .inl ⟨_, rfl, h.reserved, rfl, h.node⟩
  · split
    · exact .inl ⟨_, rfl, h.reserved, rfl, h.node⟩
    · have hne : (⟨Path.parts ⟨scratchRoot, name⟩, file⟩ : Path) ≠ ⟨scratchRoot, name⟩ := by
        intro heq
        have hlength := congrArg (fun q : Path => q.dir.length) heq
        simp [Path.parts] at hlength
      exact .inr ⟨rfl, h.reserved, rfl, (node_store hname hne).trans h.node⟩

end Keeping

section Phases

variable {scratchRoot : List String} {s s' : Station} {source : String} {jobId : JobId}

instance {ending : Option Ending} {name : String} : Decidable (Finds source jobId ending name) := by
  unfold Finds
  split <;> infer_instance

-- The download is done, and the directory is there, unless a release by the job's id took it.
def Held (scratchRoot : List String) (jobId : JobId) (s : Station) : Prop :=
  ∃ name n, name ≠ ".." ∧ Holds scratchRoot name (some .downloaded) n s ∧
    (n = some .directory ∨ n = none ∧ Matches jobId name)

-- Nothing was reserved, or what was reserved has met its last release.
def Concluded (scratchRoot : List String) (source : String) (jobId : JobId) (s : Station) : Prop :=
  s.reserved = none ∨ ∃ name ending, name ≠ ".." ∧ Holds scratchRoot name ending
    (if Finds source jobId ending name then none else some .directory) s

theorem Concluded.settled_iff (h : Concluded scratchRoot source jobId s) :
    Settled s ↔ Accounted source jobId s := by
  rcases h with hnone | ⟨name, ending, -, h⟩
  · simp [Settled, Accounted, hnone]
  · by_cases hfinds : Finds source jobId ending name
    · simp [Settled, Accounted, h.reserved, h.ending, h.node, hfinds]
    · simp [Settled, Accounted, h.reserved, h.ending, h.node, hfinds]

theorem Held.rely (h : Held scratchRoot jobId s) (hr : Meanwhile scratchRoot s s') :
    Held scratchRoot jobId s' := by
  obtain ⟨name, n, hname, hholds, hn⟩ := h
  exact ⟨name, n, hname, hholds.rely hname hr, hn⟩

theorem Concluded.rely (h : Concluded scratchRoot source jobId s) (hr : Meanwhile scratchRoot s s') :
    Concluded scratchRoot source jobId s' := by
  rcases h with hnone | ⟨name, ending, hname, h⟩
  · exact .inl (hr.reserved.trans hnone)
  · exact .inr ⟨name, ending, hname, h.rely hname hr⟩

theorem Holds.released {name : String} {ending : Option Ending} {n : Option (Node String)}
    {id : JobId} (hname : name ≠ "..") (h : Holds scratchRoot name ending n s)
    (hreleased : Released scratchRoot id s s') :
    Holds scratchRoot name ending
      (if Matches id name ∧ n = some .directory then none else n) s' := by
  refine ⟨hreleased.reserved.trans h.reserved, hreleased.ending.trans h.ending, ?_⟩
  rw [hreleased.without name hname, h.node]

theorem Holds.concluded {name : String} {ending : Option Ending} {id : JobId} (hname : name ≠ "..")
    (h : Holds scratchRoot name ending (some .directory) s)
    (hfinds : Finds source jobId ending name ↔ Matches id name)
    (hreleased : Released scratchRoot id s s') : Concluded scratchRoot source jobId s' := by
  have hlast := h.released hname hreleased
  refine .inr ⟨name, ending, hname, hlast.reserved, hlast.ending, ?_⟩
  rw [hlast.node]
  by_cases hmatch : Matches id name
  · simp [hmatch, hfinds.mpr hmatch]
  · simp [hmatch, mt hfinds.mp hmatch]

-- The id stays a variable here: the pattern of a fetch's is not to be computed with.
theorem fetchFailed_wp {name : String} {e : S3Failure} {id : JobId} (hname : name ≠ "..")
    (hfinds : Finds source jobId (some .clientError) name ↔ Matches id name)
    (h : Holds scratchRoot name (some (if e.isClient then .clientError else .otherError))
      (some .directory) s) :
    (if e.isClient then (onScratch (release scratchRoot id)).bind fun _ => .raise e.raised
      else .raise e.raised : Backend String).wp (handler scratchRoot) () (accounting scratchRoot)
      (fun o s' => match o with
        | .ok _ => Held scratchRoot jobId s'
        | .error _ => Concluded scratchRoot source jobId s') s := by
  split
  · next hclient =>
    rw [if_pos hclient] at h
    refine Program.wp_seq (onScratch_release_wp id) (fun _ s' hreleased => ?_) fun _ s' hreleased => ?_
    · exact h.concluded hname hfinds hreleased
    · exact h.concluded hname hfinds hreleased
  · next hother =>
    rw [if_neg hother] at h
    exact .inr ⟨_, _, hname, h⟩

variable (jobId) in
theorem fetch_wp (hs : s.reserved = none) :
    (fetch scratchRoot source).wp (handler scratchRoot) () (accounting scratchRoot)
      (fun o s' => match o with
        | .ok _ => Held scratchRoot jobId s'
        | .error _ => Concluded scratchRoot source jobId s') s := by
  intro s₁ hr₁ _ i₁ _
  refine ⟨trivial, ?_⟩
  have hs₁ : s₁.reserved = none := hr₁.reserved.trans hs
  generalize (handler scratchRoot).answer () (.headObject source) i₁ s₁ = head
  cases head with
  | error e => exact .inl hs₁
  | ok contentLength =>
    have hreserve := reserve_wp scratchRoot (fetchId source) (contentLength.getD (100 * 1024 ^ 3)) hs₁
    dsimp only [Program.ret_bind]
    refine Program.wp_seq hreserve (fun dir s₂ hdir => ?_) fun e s₂ h => .inl h
    obtain ⟨uuid, rfl, hholds⟩ := hdir
    intro s₃ hr₃ _ i₃ _
    refine ⟨trivial, ?_⟩
    have hname : dirName (fetchId source) uuid ≠ ".." := dirName_ne
    have hholds₃ := hholds.rely hname hr₃
    rcases downloadFile_cases source (pathName source) hname i₃ hholds₃ with
      ⟨e, hanswer, hnext⟩ | ⟨hanswer, hnext⟩
    · rw [hanswer]
      have hfinds : Finds source jobId (some .clientError) (dirName (fetchId source) uuid) ↔
          Matches (fetchId source) (dirName (fetchId source) uuid) := Iff.rfl
      exact fetchFailed_wp hname hfinds hnext
    · rw [hanswer]
      have hheld : Held scratchRoot jobId _ := ⟨_, _, hname, hnext, .inl rfl⟩
      exact hheld

theorem Held.released (h : Held scratchRoot jobId s) (hreleased : Released scratchRoot jobId s s') :
    Held scratchRoot jobId s' := by
  obtain ⟨name, n, hname, hholds, hn⟩ := h
  have hlast := hholds.released hname hreleased
  rcases hn with rfl | ⟨rfl, hmatch⟩
  · by_cases hmatch : Matches jobId name
    · rw [if_pos ⟨hmatch, rfl⟩] at hlast
      exact ⟨name, none, hname, hlast, .inr ⟨rfl, hmatch⟩⟩
    · rw [if_neg fun hboth => hmatch hboth.1] at hlast
      exact ⟨name, _, hname, hlast, .inl rfl⟩
  · rw [if_neg fun hboth => by cases hboth.2] at hlast
    exact ⟨name, none, hname, hlast, .inr ⟨rfl, hmatch⟩⟩

-- The last release by the job's id.
theorem Held.concluded (h : Held scratchRoot jobId s) (hreleased : Released scratchRoot jobId s s') :
    Concluded scratchRoot source jobId s' := by
  obtain ⟨name, n, hname, hholds, hn⟩ := h
  have hfinds : Finds source jobId (some .downloaded) name ↔ Matches jobId name := Iff.rfl
  rcases hn with rfl | ⟨rfl, hmatch⟩
  · exact hholds.concluded hname hfinds hreleased
  · have hlast := hholds.released hname hreleased
    rw [if_neg fun hboth => by cases hboth.2] at hlast
    refine .inr ⟨name, _, hname, hlast.reserved, hlast.ending, ?_⟩
    rw [hlast.node, if_pos (hfinds.mpr hmatch)]

theorem Holds.idle {name : String} {ending : Option Ending} {n : Option (Node String)} {c : Call}
    (h : Holds scratchRoot name ending n s) (hc : Idle c) (i : Input) :
    Holds scratchRoot name ending n ((handler scratchRoot).next () c i s) := by
  obtain ⟨htree, hreserved, hending⟩ := idle_next scratchRoot hc i s
  exact ⟨hreserved.trans h.reserved, hending.trans h.ending, htree ▸ h.node⟩

theorem Concluded.idle {c : Call} (h : Concluded scratchRoot source jobId s) (hc : Idle c)
    (i : Input) : Concluded scratchRoot source jobId ((handler scratchRoot).next () c i s) := by
  rcases h with hnone | ⟨name, ending, hname, h⟩
  · exact .inl ((idle_next scratchRoot hc i s).2.1.trans hnone)
  · exact .inr ⟨name, ending, hname, h.idle hc i⟩

-- An assertion that holds on until the job's last release.
structure Lasting (scratchRoot : List String) (jobId : JobId) (P : Station → Prop) : Prop where
  rely {s s' : Station} : P s → Meanwhile scratchRoot s s' → P s'
  idle {s : Station} {c : Call} (i : Input) : P s → Idle c → P ((handler scratchRoot).next () c i s)
  released {s s' : Station} : P s → Released scratchRoot jobId s s' → P s'

theorem lasting_unreserved : Lasting scratchRoot jobId fun s => s.reserved = none where
  rely hs hr := hr.reserved.trans hs
  idle i hs hc := (idle_next scratchRoot hc i _).2.1.trans hs
  released hs hreleased := hreleased.reserved.trans hs

theorem lasting_held : Lasting scratchRoot jobId (Held scratchRoot jobId) where
  rely := Held.rely
  idle i hs hc := by
    obtain ⟨name, n, hname, hholds, hn⟩ := hs
    exact ⟨name, n, hname, hholds.idle hc i, hn⟩
  released := Held.released

end Phases

section Storage

variable {scratchRoot : List String} {s s' : Station} {jobId : JobId} {job : ClaimedJob}
variable {blake2b : List Char → List Char} {P : Station → Prop}

theorem release_lasts (hP : Lasting scratchRoot jobId P) (hs : P s) :
    (onScratch (release scratchRoot jobId)).wp (handler scratchRoot) () (accounting scratchRoot)
      (fun _ s' => P s') s :=
  Program.wp_mono (onScratch_release_wp jobId) fun _ _ hreleased => hP.released hs hreleased

theorem commit_lasts (hP : Lasting scratchRoot jobId P) (localOutput : String) (hs : P s) :
    (commit scratchRoot blake2b job jobId localOutput).wp (handler scratchRoot) ()
      (accounting scratchRoot) (fun _ s' => P s') s := by
  intro s₁ hr₁ _ i₁ _
  refine ⟨trivial, ?_⟩
  have hs₁ := hP.idle i₁ (c := .stat localOutput) (hP.rely hs hr₁) trivial
  generalize (handler scratchRoot).answer () (.stat localOutput) i₁ s₁ = stat
  cases stat with
  | error e => exact hs₁
  | ok outputSize =>
    intro s₂ hr₂ _ i₂ _
    refine ⟨trivial, ?_⟩
    have hs₂ := hP.idle i₂ (c := .uploadFile localOutput (uploadKey blake2b job localOutput))
      (hP.rely hs₁ hr₂) trivial
    generalize (handler scratchRoot).answer ()
      (.uploadFile localOutput (uploadKey blake2b job localOutput)) i₂ s₂ = upload
    cases upload with
    | error e => exact hs₂
    | ok _ =>
      dsimp only [Program.ret_bind]
      exact Program.wp_seq (release_lasts hP hs₂) (fun _ _ hs => hs) fun _ _ hs => hs

def Fetches : ProcessJob.Call → Prop
  | .fetch _ => True
  | _ => False

def AsksStorage : ProcessJob.Call → Prop
  | .fetch _ | .commit _ _ _ | .cleanup _ => True
  | _ => False

theorem agent_wp (c : ProcessJob.Call) (hrely : ∀ s s', P s → Meanwhile scratchRoot s s' → P s')
    (hidle : ∀ i s, P s → P ((handler scratchRoot).next () (.agent c) i s)) (hs : P s) :
    (act (.agent c)).wp (handler scratchRoot) () (accounting scratchRoot) (fun _ s' => P s') s := by
  intro s₁ hr _ i _
  exact ⟨trivial, hidle i s₁ (hrely s s₁ hs hr)⟩

theorem carryOut_lasts (hP : Lasting scratchRoot jobId P) (c : ProcessJob.Call) (hc : ¬ Fetches c)
    (hs : P s) :
    (carryOut scratchRoot blake2b job jobId c).wp (handler scratchRoot) () (accounting scratchRoot)
      (fun _ s' => P s') s := by
  cases c with
  | fetch source => exact absurd trivial hc
  | commit localOutput source spaceSaved =>
    rw [carryOut, Program.wp_attempt]
    exact commit_lasts hP localOutput hs
  | cleanup site =>
    rw [carryOut, Program.wp_attempt]
    exact release_lasts hP hs
  | _ => exact agent_wp _ (fun _ _ => hP.rely) (fun i s hs => hP.idle i hs trivial) hs

theorem carryOut_concluded {source : String} (c : ProcessJob.Call) (hc : ¬ AsksStorage c)
    (hs : Concluded scratchRoot source jobId s) :
    (carryOut scratchRoot blake2b job jobId c).wp (handler scratchRoot) () (accounting scratchRoot)
      (fun _ s' => Concluded scratchRoot source jobId s') s := by
  cases c with
  | fetch source => exact absurd trivial hc
  | commit localOutput source spaceSaved => exact absurd trivial hc
  | cleanup site => exact absurd trivial hc
  | _ => exact agent_wp _ (fun _ _ => Concluded.rely) (fun i _ hs => hs.idle (c := .agent _) trivial i) hs

end Storage

section Job

variable {config : AgentConfig} {job : ClaimedJob} {safetyMean safetyPerc5 : Option Rat}
variable {blake2b : List Char → List Char} {workerId codec backend : String} {site : Site}

theorem deliver_calls (kind : Milestone) (payload : Payload) :
    (deliver config job site kind payload).Calls fun c => ¬ AsksStorage c := by
  refine ⟨fun h => h, fun appended => ?_⟩
  cases appended with
  | error e =>
    dsimp only [Program.ret_bind]
    split
    · refine ⟨fun h => h, fun sent => ?_⟩
      cases sent with
      | ok _ => trivial
      | error e =>
        dsimp only [Program.ret_bind]
        split <;> trivial
    · trivial
  | ok _ =>
    refine ⟨fun h => h, fun drained => ?_⟩
    cases drained with
    | ok _ => trivial
    | error e =>
      dsimp only [Program.ret_bind]
      split <;> trivial

theorem not_fetches {c : ProcessJob.Call} (h : ¬ AsksStorage c) : ¬ Fetches c := by
  cases c with
  | fetch source => exact h
  | _ => exact fun hfetch => hfetch

theorem deliver_noFetch (kind : Milestone) (payload : Payload) :
    (deliver config job site kind payload).Calls fun c => ¬ Fetches c :=
  (deliver_calls kind payload).mono fun _ => not_fetches

theorem orRaise_calls {α : Type} {A : ProcessJob.Call → Prop} {p : Agent (Except Raised α)}
    (hp : p.Calls A) : (orRaise p).Calls A :=
  hp.bind fun answer => .ofExcept answer

theorem act_calls {A : ProcessJob.Call → Prop} {c : ProcessJob.Call} (hc : A c) :
    (ProcessJob.act c).Calls A :=
  ⟨hc, fun _ => trivial⟩

theorem getBackendForJob_calls : (getBackendForJob job).Calls fun c => ¬ Fetches c := by
  unfold getBackendForJob
  split
  · split
    · trivial
    · exact orRaise_calls (act_calls fun h => h)
  · exact orRaise_calls (act_calls fun h => h)

theorem completeByDedup_calls :
    (completeByDedup config job blake2b).Calls fun c => ¬ Fetches c := by
  have htry : (tryDedup job blake2b).Calls fun c => ¬ Fetches c := by
    refine ⟨fun h => h, fun found => ?_⟩
    cases found with
    | ok answer => trivial
    | error e =>
      dsimp only [Program.ret_bind]
      split <;> trivial
  refine htry.bind fun found => ?_
  cases found with
  | none => trivial
  | some answer =>
    dsimp only
    split
    · trivial
    · refine (deliver_noFetch _ _).bind fun _ => ?_
      exact (orRaise_calls (act_calls fun h => h)).bind fun _ => ⟨fun h => h, fun _ => trivial⟩

theorem encodeAndReport_calls {path : String} :
    (encodeAndReport config job safetyMean safetyPerc5 blake2b workerId codec backend path).Calls
      fun c => ¬ Fetches c := by
  refine ⟨fun h => h, fun aborted => ?_⟩
  dsimp only [Program.ret_bind]
  split
  · trivial
  · refine (orRaise_calls (act_calls fun h => h)).bind fun result => ?_
    refine (orRaise_calls (act_calls fun h => h)).bind fun committed => ?_
    split
    · exact (deliver_noFetch _ _).bind fun _ => deliver_noFetch _ _
    · exact deliver_noFetch _ _

theorem reportFailure_calls (e : Raised) :
    (reportFailure config job e).Calls fun c => ¬ Fetches c := by
  unfold reportFailure
  split
  · refine ⟨fun h => h, fun requested => ?_⟩
    dsimp only [Program.ret_bind]
    split
    · refine ⟨fun h => h, fun message => (deliver_noFetch _ _).rescue fun e => ?_⟩
      split <;> trivial
    · trivial
  · exact deliver_noFetch _ _
  · exact deliver_noFetch _ _
  · exact deliver_noFetch _ _
  · exact deliver_noFetch _ _
  · exact deliver_noFetch _ _
  · exact deliver_noFetch _ _
  · exact deliver_noFetch _ _
  · trivial

end Job

section Accounts

variable {scratchRoot : List String} {s s' : Station} {jobId : JobId} {config : AgentConfig}
variable {job : ClaimedJob} {safetyMean safetyPerc5 : Option Rat} {polls : Nat}
variable {blake2b : List Char → List Char} {workerId codec backend source : String}

-- After the last release nothing asks the storage for anything.
theorem concluded_wp {α : Type} {p : Agent α} (hp : p.Calls fun c => ¬ AsksStorage c)
    (hs : Concluded scratchRoot source jobId s) :
    (p.expand (carryOut scratchRoot blake2b job jobId)).wp (handler scratchRoot) ()
      (accounting scratchRoot) (fun _ s' => Concluded scratchRoot source jobId s') s :=
  Program.wp_expand hp hs fun c _ hc hs => carryOut_concluded c hc hs

theorem lasts_wp {α : Type} {p : Agent α} {P : Station → Prop}
    (hP : Lasting scratchRoot jobId P) (hp : p.Calls fun c => ¬ Fetches c) (hs : P s) :
    (p.expand (carryOut scratchRoot blake2b job jobId)).wp (handler scratchRoot) ()
      (accounting scratchRoot) (fun _ s' => P s') s :=
  Program.wp_expand hp hs fun c _ hc hs => carryOut_lasts hP c hc hs

theorem carryOut_noRaise (c : ProcessJob.Call) :
    (carryOut scratchRoot blake2b job jobId c).NoRaise := by
  cases c with
  | fetch source => exact .attempt _
  | commit localOutput source spaceSaved => exact .attempt _
  | cleanup site => exact .attempt _
  | _ => exact fun _ => trivial

theorem carryOut_wp {c : ProcessJob.Call} {α : Type} {k : c.Answer → Agent α}
    {R : c.Answer → Station → Prop} {Q : Except Raised α → Station → Prop}
    (hc : (carryOut scratchRoot blake2b job jobId c).wp (handler scratchRoot) ()
      (accounting scratchRoot) (fun o s' => ∀ answer, o = .ok answer → R answer s') s)
    (hk : ∀ answer s', R answer s' → ((k answer).expand (carryOut scratchRoot blake2b job jobId)).wp
      (handler scratchRoot) () (accounting scratchRoot) Q s') :
    ((Program.call c k).expand (carryOut scratchRoot blake2b job jobId)).wp (handler scratchRoot) ()
      (accounting scratchRoot) Q s := by
  refine Program.wp_seq (Program.wp_noRaise (carryOut_noRaise c) hc) (fun answer s' h => ?_)
    fun e s' h => ?_
  · exact hk answer s' (h.1 answer rfl)
  · obtain ⟨-, _, hnone⟩ := h
    cases hnone

theorem finishJob_wp (hs : Held scratchRoot jobId s) :
    (finishJob.expand (carryOut scratchRoot blake2b job jobId)).wp (handler scratchRoot) ()
      (accounting scratchRoot) (fun _ s' => Concluded scratchRoot source jobId s') s := by
  have hfinish : (carryOut scratchRoot blake2b job jobId .finish).wp (handler scratchRoot) ()
      (accounting scratchRoot) (fun _ s' => Held scratchRoot jobId s') s :=
    carryOut_lasts lasting_held .finish (fun h => h) hs
  refine carryOut_wp (Program.wp_mono hfinish fun o s₁ hs₁ _ _ => hs₁) fun _ s₁ hs₁ => ?_
  have hcleanup : (carryOut scratchRoot blake2b job jobId (.cleanup .finished)).wp
      (handler scratchRoot) () (accounting scratchRoot)
      (fun _ s' => Concluded scratchRoot source jobId s') s₁ := by
    rw [carryOut, Program.wp_attempt]
    exact Program.wp_mono (onScratch_release_wp jobId) fun _ _ h => hs₁.concluded h
  refine carryOut_wp (Program.wp_mono hcleanup fun o s₂ hs₂ _ _ => hs₂) fun answer s₂ hs₂ => ?_
  cases answer with
  | ok _ => exact hs₂
  | error e => exact hs₂

theorem fetchAndEncode_wp (hs : s.reserved = none) :
    ((fetchAndEncode config job safetyMean safetyPerc5 blake2b workerId codec backend source).expand
      (carryOut scratchRoot blake2b job jobId)).wp (handler scratchRoot) () (accounting scratchRoot)
      (fun _ s' => Concluded scratchRoot source jobId s') s := by
  have hfetch : (carryOut scratchRoot blake2b job jobId (.fetch source)).wp (handler scratchRoot) ()
      (accounting scratchRoot) (fun o s' => ∀ answer, o = .ok answer → match answer with
        | .ok _ => Held scratchRoot jobId s'
        | .error _ => Concluded scratchRoot source jobId s') s := by
    rw [carryOut, Program.wp_attempt]
    refine Program.wp_mono (fetch_wp jobId hs) fun o s' h answer heq => ?_
    cases heq
    cases o with
    | ok path => exact h
    | error e => exact h
  refine carryOut_wp hfetch fun answer s₁ h => ?_
  cases answer with
  | error e =>
    refine concluded_wp ?_ h
    dsimp only [Program.ret_bind]
    split
    · exact (deliver_calls _ _).bind fun _ => act_calls fun h => h
    · trivial
  | ok path =>
    dsimp only [Program.ret_bind]
    rw [ensuring, Program.expand_bind]
    have hcalls : ((encodeAndReport config job safetyMean safetyPerc5 blake2b workerId codec backend
        path).rescue (reportFailure config job)).Calls fun c => ¬ Fetches c :=
      encodeAndReport_calls.rescue reportFailure_calls
    have hbody : (((encodeAndReport config job safetyMean safetyPerc5 blake2b workerId codec backend
        path).rescue (reportFailure config job)).attempt.expand
          (carryOut scratchRoot blake2b job jobId)).wp (handler scratchRoot) ()
          (accounting scratchRoot) (fun _ s' => Held scratchRoot jobId s') s₁ :=
      lasts_wp lasting_held hcalls.attempt h
    have hreturns := Program.wp_noRaise ((Program.NoRaise.attempt _).expand carryOut_noRaise) hbody
    refine Program.wp_seq hreturns (fun outcome s₂ h => ?_) fun e s₂ h => ?_
    · rw [Program.expand_bind]
      refine Program.wp_seq (finishJob_wp h.1) (fun _ s₃ hs₃ => ?_) fun _ s₃ hs₃ => hs₃
      cases outcome with
      | ok _ => exact hs₃
      | error e => exact hs₃
    · obtain ⟨-, _, hnone⟩ := h
      cases hnone

theorem processWith_wp (hs3 : job.backendType = "s3") (hs : s.reserved = none) :
    ((processWith config job safetyMean safetyPerc5 blake2b polls workerId codec backend).expand
      (carryOut scratchRoot blake2b job jobId)).wp (handler scratchRoot) () (accounting scratchRoot)
      (fun _ s' => Concluded scratchRoot job.sourcePath jobId s') s := by
  unfold processWith
  rw [Program.bind_eq, Program.expand_bind]
  refine Program.wp_seq (lasts_wp lasting_unreserved getBackendForJob_calls hs) (fun _ s₁ hs₁ => ?_)
    fun _ s₁ hs₁ => .inl hs₁
  rw [if_pos hs3, Program.bind_eq, Program.expand_bind]
  refine Program.wp_seq (lasts_wp lasting_unreserved completeByDedup_calls hs₁)
    (fun done s₂ hs₂ => ?_) fun _ s₂ hs₂ => .inl hs₂
  split
  · exact .inl hs₂
  · exact fetchAndEncode_wp hs₂

theorem s3Job_wp (hs3 : job.backendType = "s3") (hs : s.reserved = none) :
    (s3Job scratchRoot blake2b job jobId config safetyMean safetyPerc5 polls).wp
      (handler scratchRoot) () (accounting scratchRoot)
      (fun _ s' => Concluded scratchRoot job.sourcePath jobId s') s := by
  unfold s3Job processJob
  split
  · exact .inl hs
  · next workerId _ =>
    have hbegin : (carryOut scratchRoot blake2b job jobId (.begin job.id)).wp (handler scratchRoot) ()
        (accounting scratchRoot) (fun _ s' => s'.reserved = none) s :=
      carryOut_lasts lasting_unreserved (.begin job.id) (fun h => h) hs
    refine carryOut_wp (Program.wp_mono hbegin fun _ _ hs₁ _ _ => hs₁) fun _ s₁ hs₁ => ?_
    dsimp only [Program.ret_bind]
    split
    · refine concluded_wp ?_ (.inl hs₁)
      exact (deliver_calls _ _).bind fun _ => act_calls fun h => h
    · exact processWith_wp hs3 hs₁

end Accounts

-- A job leaves nothing of what was reserved iff the release that the download's end leads to finds
-- it; and a release deletes an id's directories, and no other's, iff its pattern tells them apart.
theorem scratch_accounted_iff (scratchRoot : List String) :
    (∀ (blake2b : List Char → List Char) (config : AgentConfig)
      (job : ClaimedJob) (jobId : JobId) (safetyMean safetyPerc5 : Option Rat) (polls : Nat)
      (s s' : Station) (es : List (CallRecord Call Station Input)) (p : Backend Unit),
      jobId.text = job.id → job.backendType = "s3" → s.reserved = none →
      Exec (handler scratchRoot) () (Meanwhile scratchRoot)
        (s3Job scratchRoot blake2b job jobId config safetyMean safetyPerc5 polls) s es p s' →
      p.outcome.isSome → (∀ e ∈ es, RemovalsSucceed e.op e.input) →
      (Settled s' ↔ Accounted job.sourcePath jobId s')) ∧
    ∀ (id id' : JobId) (uuid : String) (t t' : Tree)
      (es : List (CallRecord Scratch.Call Tree Scratch.Input)) (p : Manager Unit),
      t.node ⟨scratchRoot, dirName id' uuid⟩ = some .directory →
      Exec (Scratch.handler scratchRoot) 0 (SameDirs scratchRoot) (release scratchRoot id) t es p t' →
      p.outcome.isSome → (∀ e ∈ es, Removes e.op e.input) →
      ((t'.node ⟨scratchRoot, dirName id' uuid⟩ = none ↔ id' = id) ↔
        (Matches id (dirName id' uuid) ↔ id' = id)) := by
  constructor
  · intro blake2b config job jobId safetyMean safetyPerc5 polls s s' es p _ hs3 hs h hend
      hremovals
    obtain ⟨o, ho⟩ := Option.isSome_iff_exists.mp hend
    have hconcluded := Exec.outcome_post (C := accounting scratchRoot) h (s3Job_wp hs3 hs) hremovals ho
    exact hconcluded.settled_iff
  · intro id id' uuid t t' es p hdir h hend hremoves
    have hnode := release_deletes h hend hremoves (dirName id' uuid) dirName_ne
    have hdeleted : t'.node ⟨scratchRoot, dirName id' uuid⟩ = none ↔ Matches id (dirName id' uuid) := by
      rw [hnode, hdir]
      by_cases hmatch : Matches id (dirName id' uuid)
      · simp [hmatch]
      · simp [hmatch]
    rw [hdeleted]

section Sample

def sampleConfig : AgentConfig where
  workerId := some "worker"
  capabilities := some [("hevc", "cpu")]

def sampleClaim : ClaimedJob where
  id := "job"
  sourcePath := "film.mkv"
  backendType := "s3"
  s3Bucket := "media"

def sampleId : JobId := ⟨"job", by decide⟩

abbrev SampleRun := List (CallRecord Call Station Input) × Backend Unit × Station

def sampleRun (inputs : List Input) : Option SampleRun :=
  (s3Job ["scratch"] id sampleClaim sampleId sampleConfig none none 1).drive (handler ["scratch"]) ()
    inputs { tree := Relational.Table.empty }

theorem sampleRun_exec {inputs : List Input} {r : SampleRun} (h : sampleRun inputs = some r) :
    Exec (handler ["scratch"]) () (Meanwhile ["scratch"])
      (s3Job ["scratch"] id sampleClaim sampleId sampleConfig none none 1)
      { tree := Relational.Table.empty } r.1 r.2.1 r.2.2 :=
  Exec.drive (fun _ => ⟨rfl, rfl, fun _ _ => rfl⟩) h

def unremarkable : Input := {}

-- The job is encoded, uploaded and reported, and its cleanup is made.
def encodedInputs : List Input :=
  List.replicate 3 unremarkable ++ [{ contentLength := some 0 },
    { scratch := { free := 200 * 1024 * 1024 } }, { scratch := { uuid := "00000000" } }] ++
    List.replicate 13 unremarkable

def encoded : SampleRun := (sampleRun encodedInputs).get (by decide +kernel)

theorem removes_of {c : Scratch.Call} {i : Scratch.Input} (h : i.fault = false) : Removes c i := by
  cases c with
  | scandir => exact h
  | rmtree path => exact h
  | _ => trivial

theorem removalsSucceed_of {es : List (CallRecord Call Station Input)}
    (h : es.all (fun e => !e.input.scratch.fault) = true) :
    ∀ e ∈ es, RemovalsSucceed e.op e.input := by
  intro e he
  have hfault := List.all_eq_true.mp h e he
  rw [Bool.not_eq_true'] at hfault
  unfold RemovalsSucceed
  split
  · exact removes_of hfault
  · trivial

-- An id that begins with the other and an underscore.
def longerId : JobId := ⟨"job_2", by decide⟩

def longerDir : Path := ⟨["scratch"], dirName longerId "00000000"⟩

abbrev ReleaseRun := List (CallRecord Scratch.Call Tree Scratch.Input) × Manager Unit × Tree

def releaseRun (inputs : List Scratch.Input) : Option ReleaseRun :=
  (release ["scratch"] sampleId).drive (Scratch.handler ["scratch"]) 0 inputs
    (FileTree.mkdir Relational.Table.empty longerDir)

theorem releaseRun_exec {inputs : List Scratch.Input} {r : ReleaseRun}
    (h : releaseRun inputs = some r) :
    Exec (Scratch.handler ["scratch"]) 0 (SameDirs ["scratch"]) (release ["scratch"] sampleId)
      (FileTree.mkdir Relational.Table.empty longerDir) r.1 r.2.1 r.2.2 :=
  Exec.drive (fun _ _ _ => rfl) h

def released : ReleaseRun := (releaseRun [{}, {}]).get (by decide +kernel)

theorem released_removes : ∀ e ∈ released.1, Removes e.op e.input := by
  have hfaults : released.1.all (fun e => !e.input.fault) = true := by decide +kernel
  intro e he
  have hfault := List.all_eq_true.mp hfaults e he
  rw [Bool.not_eq_true'] at hfault
  exact removes_of hfault

theorem scratch_accounted_iff_encoded :
    (Settled encoded.2.2 ↔ Accounted "film.mkv" sampleId encoded.2.2) ∧
      ((released.2.2.node longerDir = none ↔ longerId = sampleId) ↔
        (Matches sampleId (dirName longerId "00000000") ↔ longerId = sampleId)) := by
  constructor
  · exact (scratch_accounted_iff ["scratch"]).1 id sampleConfig sampleClaim sampleId none none 1 _ _ _ _
      rfl rfl rfl (sampleRun_exec (Option.some_get _).symm) (by decide +kernel)
      (removalsSucceed_of (by decide +kernel))
  · exact (scratch_accounted_iff ["scratch"]).2 sampleId longerId "00000000" _ _ _ _ (by decide +kernel)
      (releaseRun_exec (Option.some_get _).symm) (by decide +kernel) released_removes

-- The job that is encoded, uploaded and reported leaves its download behind; and a release deletes
-- the directory of an id that its own begins.
theorem not_scratch_accounted :
    (¬ ∀ (s' : Station) (es : List (CallRecord Call Station Input)) (p : Backend Unit),
      Exec (handler ["scratch"]) () (Meanwhile ["scratch"])
        (s3Job ["scratch"] id sampleClaim sampleId sampleConfig none none 1)
        { tree := Relational.Table.empty } es p s' → p.outcome = some (.ok ()) →
      (∀ e ∈ es, RemovalsSucceed e.op e.input) → Settled s') ∧
    ¬ ∀ (id id' : JobId) (uuid : String) (t t' : Tree)
      (es : List (CallRecord Scratch.Call Tree Scratch.Input)) (p : Manager Unit),
      t.node ⟨["scratch"], dirName id' uuid⟩ = some .directory →
      Exec (Scratch.handler ["scratch"]) 0 (SameDirs ["scratch"]) (release ["scratch"] id) t es p t' →
      p.outcome = some (.ok ()) → (∀ e ∈ es, Removes e.op e.input) →
      (t'.node ⟨["scratch"], dirName id' uuid⟩ = none ↔ id' = id) := by
  constructor
  · intro h
    have hsettled : Settled encoded.2.2 :=
      h _ _ _ (sampleRun_exec (Option.some_get _).symm) (by decide +kernel)
        (removalsSucceed_of (by decide +kernel))
    have hreserved : encoded.2.2.reserved = some ⟨["scratch"], "s3-fetch-film.mkv_00000000"⟩ := by
      decide +kernel
    have hthere : encoded.2.2.tree.node ⟨["scratch"], "s3-fetch-film.mkv_00000000"⟩ =
        some .directory := by decide +kernel
    exact absurd (hthere.symm.trans (hsettled _ hreserved)) (by simp)
  · intro h
    have hgone : released.2.2.node longerDir = none := by decide +kernel
    have hsame : longerId = sampleId :=
      (h sampleId longerId "00000000" _ _ _ _ (by decide +kernel)
        (releaseRun_exec (Option.some_get _).symm) (by decide +kernel) released_removes).mp hgone
    exact absurd hsame (by decide)

end Sample

end TranscodeForge.S3Backend
