import TranscodeForge.Outbox.Delivery
import Mathlib.Data.List.Sort

namespace TranscodeForge.Outbox

open Interaction Storage SourcePath

-- A file that `entries` lists when it can read it.
def Live (d : Disk) (path : String) (b : Body) : Prop :=
  isJson path = true ∧ (numberOf path).isSome = true ∧ d.files.lookup path = some (.body b)

def isLive (d : Disk) (path : String) : Bool :=
  isJson path && (numberOf path).isSome &&
    match d.files.lookup path with
    | some (.body _) => true
    | _ => false

theorem isLive_iff {d : Disk} {path : String} : isLive d path = true ↔ ∃ b, Live d path b := by
  simp only [isLive, Live, Bool.and_eq_true]
  constructor
  · rintro ⟨⟨hjson, hnumber⟩, hfile⟩
    split at hfile
    · next b hlook => exact ⟨b, hjson, hnumber, hlook⟩
    · cases hfile
  · rintro ⟨b, hjson, hnumber, hfile⟩
    simp [hjson, hnumber, hfile]

theorem not_live_of {d : Disk} {path : String} (h : isLive d path = false) (b : Body) :
    ¬ Live d path b := by
  intro hlive
  rw [isLive_iff.mpr ⟨b, hlive⟩] at h
  cases h

structure SameHistory (d d' : Disk) : Prop where
  nextReport : d'.nextReport = d.nextReport
  journaled : d'.journaled = d.journaled
  returned : d'.returned = d.returned
  settled : d'.settled = d.settled

theorem SameHistory.trans {d d' d'' : Disk} (h : SameHistory d d') (h' : SameHistory d' d'') :
    SameHistory d d'' :=
  ⟨h'.nextReport.trans h.nextReport, h'.journaled.trans h.journaled,
    h'.returned.trans h.returned, h'.settled.trans h.settled⟩

structure SameLive (d d' : Disk) : Prop extends SameHistory d d' where
  live : ∀ path b, Live d' path b ↔ Live d path b

theorem SameLive.refl (d : Disk) : SameLive d d := ⟨⟨rfl, rfl, rfl, rfl⟩, fun _ _ => Iff.rfl⟩

theorem SameLive.trans {d d' d'' : Disk} (h : SameLive d d') (h' : SameLive d' d'') :
    SameLive d d'' :=
  ⟨h.toSameHistory.trans h'.toSameHistory, fun path b => (h'.live path b).trans (h.live path b)⟩

theorem Live.body_eq {d : Disk} {path : String} {b b' : Body} (h : Live d path b)
    (h' : Live d path b') : b = b' := by
  have hsame : Content.body b = .body b' := by
    rw [← Option.some_inj, ← h.2.2, h'.2.2]
  cases hsame
  rfl

theorem sameLive_files {d : Disk} {files : Directory Content}
    (h : ∀ path, isJson path = true → files.lookup path = d.files.lookup path) :
    SameLive d { d with files := files } := by
  refine ⟨⟨rfl, rfl, rfl, rfl⟩, fun path b => ?_⟩
  simp only [Live]
  constructor
  · rintro ⟨hjson, hnumber, hfile⟩
    exact ⟨hjson, hnumber, by rw [← h path hjson]; exact hfile⟩
  · rintro ⟨hjson, hnumber, hfile⟩
    exact ⟨hjson, hnumber, by rw [h path hjson]; exact hfile⟩

theorem sameLive_put {d : Disk} {name : String} (h : isJson name = false) (content : Content) :
    SameLive d { d with files := d.files.put name content } := by
  refine sameLive_files fun path hjson => ?_
  rw [Directory.lookup_put, if_neg]
  rintro rfl
  rw [h] at hjson
  cases hjson

-- Writing the temporary file of an entry.
theorem sameLive_writeText {d : Disk} {site : Site} {name : String} (h : isJson name = false)
    (b : Body) (i : Input) : SameLive d (exec () ⟨site, .writeText name b⟩ i d).1 := by
  simp only [exec]
  split
  · split
    · exact sameLive_put h _
    · exact .refl d
  · exact sameLive_put h _

theorem live_remove {d : Disk} {name path : String} {b : Body} :
    Live { d with files := d.files.remove name } path b ↔ Live d path b ∧ name ≠ path := by
  simp only [Live, Directory.lookup_remove]
  by_cases h : name = path <;> simp [h]

-- Renaming aside a file that holds no entry.
theorem sameLive_quarantine {d : Disk} {path : String} {i : Input}
    (hquiet : i.fault = true ∨ ∀ b, ¬ Live d path b) :
    SameLive d (exec () ⟨.entries, .replace path (withSuffix path ".corrupt")⟩ i d).1 := by
  simp only [exec]
  split
  · exact .refl d
  · next hfault =>
    have hdead : ∀ b, ¬ Live d path b := hquiet.resolve_left hfault
    split
    · exact .refl d
    · next content hfile =>
      refine ⟨⟨rfl, rfl, rfl, rfl⟩, fun name b => ?_⟩
      simp only [Live, Directory.lookup_move _ hfile]
      constructor
      · rintro ⟨hjson, hnumber, hlook⟩
        have hne : withSuffix path ".corrupt" ≠ name := by
          rintro rfl
          rw [isJson_corrupt] at hjson
          cases hjson
        rw [if_neg hne] at hlook
        split at hlook
        · cases hlook
        · exact ⟨hjson, hnumber, hlook⟩
      · rintro ⟨hjson, hnumber, hlook⟩
        have hne : withSuffix path ".corrupt" ≠ name := by
          rintro rfl
          rw [isJson_corrupt] at hjson
          cases hjson
        have hother : path ≠ name := by
          rintro rfl
          exact hdead b ⟨hjson, hnumber, hlook⟩
        refine ⟨hjson, hnumber, ?_⟩
        rw [if_neg hne, if_neg hother]
        exact hlook

-- Renaming a temporary file onto the entry it was written for.
theorem live_place {d : Disk} (site : Site) {path : String} {b : Body} {i : Input}
    (hjson : isJson path = true) (hnumber : (numberOf path).isSome = true)
    (hfault : i.fault = false)
    (htmp : d.files.lookup (withSuffix path ".tmp") = some (.body b)) (name : String) (b' : Body) :
    Live (exec () ⟨site, .replace (withSuffix path ".tmp") path⟩ i d).1 name b' ↔
      if path = name then b' = b else Live d name b' := by
  have hexec : (exec () ⟨site, .replace (withSuffix path ".tmp") path⟩ i d).1.files =
      d.files.move (withSuffix path ".tmp") path := by
    simp only [exec, hfault, htmp]
    rfl
  simp only [Live, hexec, Directory.lookup_move _ htmp]
  by_cases h : path = name
  · subst h
    simp [hjson, hnumber, eq_comm]
  · simp only [if_neg h]
    constructor
    · rintro ⟨hname, hname', hlook⟩
      split at hlook
      · cases hlook
      · exact ⟨hname, hname', hlook⟩
    · rintro ⟨hname, hname', hlook⟩
      have hne : withSuffix path ".tmp" ≠ name := by
        rintro rfl
        rw [isJson_tmp] at hname
        cases hname
      refine ⟨hname, hname', ?_⟩
      rw [if_neg hne]
      exact hlook

-- The process is alone with its directory, so nothing happens between two calls.
def contract (assume : Call → Input → Disk → Prop) (guar : Call → Input → Disk → Disk → Prop) :
    Contract Call Disk Input := ⟨(· = ·), assume, guar⟩

section Logic

variable {A : Call → Input → Disk → Prop} {G : Call → Input → Disk → Disk → Prop} {α β : Type}

theorem act_wp {site : Site} {action : Action} {f : action.Answer → Courier α}
    {Q : Except Failure α → Disk → Prop} {d : Disk}
    (h : ∀ i, A ⟨site, action⟩ i d →
      G ⟨site, action⟩ i d (exec () ⟨site, action⟩ i d).1 ∧
        (f (exec () ⟨site, action⟩ i d).2).wp handler () (contract A G) Q
          (exec () ⟨site, action⟩ i d).1) :
    ((act site action).bind f).wp handler () (contract A G) Q d := by
  rintro _ rfl _ i hi
  exact h i hi

-- What an undisturbed listing returns: the entries in the order of their file names.
structure Listing (d : Disk) (listed : List OutboxEntry) : Prop where
  sorted : listed.Pairwise fun e e' => e.path < e'.path
  live : ∀ e ∈ listed, Live d e.path e.body

theorem Listing.sameLive {d d' : Disk} {listed : List OutboxEntry} (h : Listing d listed)
    (hsame : SameLive d d') : Listing d' listed :=
  ⟨h.sorted, fun e he => (hsame.live _ _).mpr (h.live e he)⟩

-- No listing and no read fails.
def Readable (op : Call) (i : Input) : Prop :=
  match op.action with
  | .glob | .readText _ => i.fault = false
  | _ => True

def Complete (A : Call → Input → Disk → Prop) (d : Disk) (names : List String)
    (listed : List OutboxEntry) : Prop :=
  (∀ op i d, A op i d → Readable op i) →
    ∀ path ∈ names, ∀ b, Live d path b → ∃ e ∈ listed, e.path = path ∧ e.body = b

-- A failed read of an entry is not followed by renaming the entry aside.
def Spares (A : Call → Input → Disk → Prop) : Prop :=
  ∀ path i i' d, A ⟨.entries, .readText path⟩ i d → i.fault = true →
    A ⟨.entries, .replace path (withSuffix path ".corrupt")⟩ i' d →
      i'.fault = true ∨ ∀ b, ¬ Live d path b

variable (hspares : Spares A)
  (hguar : ∀ op i d, op.site = .entries → SameLive d (exec () op i d).1 →
    G op i d (exec () op i d).1)

include hguar

theorem quarantine_wp {path : String} {d : Disk}
    (hquiet : ∀ i, A ⟨.entries, .replace path (withSuffix path ".corrupt")⟩ i d →
      i.fault = true ∨ ∀ b, ¬ Live d path b) :
    (quarantine path).wp handler () (contract A G)
      (fun o d' => SameLive d d' ∧ o = .ok none) d := by
  refine act_wp fun i hi => ?_
  have hsame := sameLive_quarantine (hquiet i hi)
  exact ⟨hguar _ _ _ rfl hsame, hsame, rfl⟩

include hspares

theorem readEntry_wp {path : String} (hjson : isJson path = true) (d : Disk) :
    (readEntry path).wp handler () (contract A G)
      (fun o d' => SameLive d d' ∧ ∃ entry, o = .ok entry ∧
        (∀ e ∈ entry, e.path = path ∧ Live d path e.body) ∧
          Complete A d [path] entry.toList) d := by
  have hgone : (∀ b, ¬ Live d path b) → (quarantine path).wp handler () (contract A G)
      (fun o d' => SameLive d d' ∧ ∃ entry, o = .ok entry ∧
        (∀ e ∈ entry, e.path = path ∧ Live d path e.body) ∧
          Complete A d [path] entry.toList) d := by
    intro hdead
    refine Program.wp_mono (quarantine_wp hguar fun _ _ => .inr hdead) ?_
    rintro o d' ⟨hsame, rfl⟩
    refine ⟨hsame, none, rfl, by simp, fun _ name hname b hlive => ?_⟩
    rw [List.mem_singleton.mp hname] at hlive
    exact absurd hlive (hdead b)
  unfold readEntry
  split
  · next hnumber =>
    refine hgone ?_
    rintro b ⟨_, hlive, _⟩
    rw [hnumber] at hlive
    cases hlive
  · next seq hseq =>
    refine act_wp fun i hi => ⟨hguar _ _ _ rfl (.refl d), ?_⟩
    have hread : (exec () ⟨.entries, .readText path⟩ i d).2 =
        (if i.fault then .error .other else (d.files.lookup path).elim (.error .notFound) .ok :
          Except OSError Content) := by
      cases hfile : d.files.lookup path <;> simp [exec, hfile]
    rw [hread]
    by_cases hfault : i.fault = true
    · rw [if_pos hfault]
      refine Program.wp_mono (quarantine_wp hguar fun i' hi' => hspares path i i' d hi hfault hi') ?_
      rintro o d' ⟨hsame, rfl⟩
      refine ⟨hsame, none, rfl, by simp, fun hreadable => ?_⟩
      have hsound : i.fault = false := hreadable _ _ _ hi
      rw [hsound] at hfault
      cases hfault
    · rw [if_neg hfault]
      cases hfile : d.files.lookup path with
      | some content =>
        cases content with
        | body b =>
          refine ⟨.refl d, some ⟨seq, b, path⟩, rfl, by simp [Live, hjson, hseq, hfile], ?_⟩
          intro _ name hname b' hlive
          rw [List.mem_singleton.mp hname] at hlive ⊢
          have hsame : Content.body b = .body b' := by
            rw [← Option.some_inj, ← hfile, hlive.2.2]
          refine ⟨⟨seq, b, path⟩, by simp, rfl, ?_⟩
          cases hsame
          rfl
        | unreadable =>
          refine hgone ?_
          rintro b ⟨_, _, hlive⟩
          rw [hfile] at hlive
          cases hlive
      | none =>
        refine hgone ?_
        rintro b ⟨_, _, hlive⟩
        rw [hfile] at hlive
        cases hlive

theorem readEach_wp (names : List String) (hjson : ∀ name ∈ names, isJson name = true)
    (d : Disk) : (readEach names).wp handler () (contract A G)
      (fun o d' => SameLive d d' ∧ ∃ listed, o = .ok listed ∧
        (listed.map OutboxEntry.path).Sublist names ∧ (∀ e ∈ listed, Live d e.path e.body) ∧
          Complete A d names listed) d := by
  induction names generalizing d with
  | nil => exact ⟨.refl d, [], rfl, by simp, by simp, fun _ path hpath => absurd hpath (by simp)⟩
  | cons name names ih =>
    refine Program.wp_seq (readEntry_wp hspares hguar (hjson name (by simp)) d) ?_ ?_
    · rintro entry d' ⟨hsame, entry', heq, hentry, hfound⟩
      cases heq
      refine Program.wp_seq (ih (fun n hn => hjson n (by simp [hn])) d') ?_ ?_
      · rintro listed d'' ⟨hsame', listed', heq, hsub, hlive, hall⟩
        cases heq
        refine ⟨hsame.trans hsame', _, rfl, ?_, ?_, ?_⟩
        · cases entry with
          | none => exact hsub.cons name
          | some e =>
            obtain ⟨rfl, _⟩ := hentry e rfl
            exact hsub.cons_cons _
        · intro e he
          rcases List.mem_append.mp he with he | he
          · obtain ⟨rfl, hlive'⟩ := hentry e (Option.mem_toList.mp he)
            exact hlive'
          · exact (hsame.live _ _).mp (hlive e he)
        · intro hreadable path hpath b hb
          rcases List.mem_cons.mp hpath with rfl | hpath
          · obtain ⟨e, he, heq⟩ := hfound hreadable path (by simp) b hb
            exact ⟨e, List.mem_append_left _ he, heq⟩
          · obtain ⟨e, he, heq⟩ := hall hreadable path hpath b ((hsame.live _ _).mpr hb)
            exact ⟨e, List.mem_append_right _ he, heq⟩
      · rintro e d'' ⟨_, _, heq, _⟩
        cases heq
    · rintro e d' ⟨_, _, heq, _⟩
      cases heq

theorem entries_wp (d : Disk) : entries.wp handler () (contract A G)
    (fun o d' => SameLive d d' ∧ ∃ listed, o = .ok listed ∧ Listing d listed ∧
      ((∀ op i d, A op i d → Readable op i) →
        ∀ path b, Live d path b → ∃ e ∈ listed, e.path = path ∧ e.body = b)) d := by
  refine act_wp fun i hi => ⟨hguar _ _ _ rfl (.refl d), ?_⟩
  have hglob : (exec () ⟨.entries, .glob⟩ i d).2 =
      (if i.fault then [] else d.files.names.filter isJson : List String) := rfl
  have hnames : ∀ name ∈ (if i.fault then [] else d.files.names.filter isJson : List String),
      isJson name = true := by
    intro name hname
    split at hname
    · cases hname
    · exact (List.mem_filter.mp hname).2
  have hnodup : (if i.fault then [] else d.files.names.filter isJson : List String).Nodup := by
    split
    · exact List.nodup_nil
    · exact d.files.nodup_names.filter _
  have hlisted : i.fault = false → ∀ path b, Live d path b →
      path ∈ (if i.fault then [] else d.files.names.filter isJson : List String) := by
    rintro hfault path b ⟨hjson, _, hfile⟩
    rw [hfault]
    exact List.mem_filter.mpr ⟨(Directory.mem_names _ _).mpr ⟨_, hfile⟩, hjson⟩
  rw [hglob]
  generalize (if i.fault then [] else d.files.names.filter isJson : List String) = names
    at hnames hnodup hlisted ⊢
  have hsorted : (names.insertionSort (· ≤ ·)).Pairwise (· < ·) := by
    have hle := List.pairwise_insertionSort (· ≤ ·) names
    have hne : (names.insertionSort (· ≤ ·)).Pairwise (· ≠ ·) :=
      (List.perm_insertionSort (· ≤ ·) names).nodup_iff.mpr hnodup
    exact hle.imp₂ (fun _ _ h h' => lt_of_le_of_ne h h') hne
  have hread := readEach_wp hspares hguar (names.insertionSort (· ≤ ·))
    (fun name hname => hnames name ((List.mem_insertionSort _).mp hname)) d
  refine Program.wp_mono hread ?_
  rintro o d' ⟨hsame, listed, rfl, hsub, hlive, hall⟩
  refine ⟨hsame, listed, rfl, ⟨List.pairwise_map.mp (hsorted.sublist hsub), hlive⟩, ?_⟩
  intro hreadable path b hb
  have hfault : i.fault = false := hreadable _ _ _ hi
  exact hall hreadable path ((List.mem_insertionSort _).mpr (hlisted hfault path b hb)) b hb

omit hspares hguar

-- An entry is gone, or was not removed.
structure Cleared (path : String) (d d' : Disk) : Prop extends SameHistory d d' where
  kept : ∀ name b, Live d' name b → Live d name b
  others : ∀ name b, name ≠ path → Live d name b → Live d' name b

theorem delete_wp {e : OutboxEntry} {d : Disk}
    (hguar : ∀ i, Cleared e.path d (exec () ⟨.delete, .unlink e.path⟩ i d).1 →
      G ⟨.delete, .unlink e.path⟩ i d (exec () ⟨.delete, .unlink e.path⟩ i d).1) :
    (delete e).wp handler () (contract A G) (fun _ d' => Cleared e.path d d') d := by
  have hclear : ∀ i, Cleared e.path d (exec () ⟨.delete, .unlink e.path⟩ i d).1 := by
    intro i
    have hstay : Cleared e.path d d := ⟨⟨rfl, rfl, rfl, rfl⟩, fun _ _ h => h, fun _ _ _ h => h⟩
    simp only [exec]
    split
    · exact hstay
    · split
      · refine ⟨⟨rfl, rfl, rfl, rfl⟩, fun name b h => (live_remove.mp h).1, fun name b hne h => ?_⟩
        exact live_remove.mpr ⟨h, Ne.symm hne⟩
      · exact hstay
  refine act_wp fun i _ => ⟨hguar i (hclear i), ?_⟩
  have hclear := hclear i
  split
  · exact hclear
  · exact hclear
  · exact hclear

-- An entry is rewritten, or back in its place, under its own mark.
structure Placed (path : String) (mark : Mark) (d d' : Disk) : Prop extends SameHistory d d' where
  here : ∃ b, Live d' path b
  mark_eq : ∀ b, Live d' path b → b.mark = mark
  others : ∀ name b, name ≠ path → (Live d' name b ↔ Live d name b)

def Bumped (e : OutboxEntry) (d d' : Disk) : Prop :=
  SameLive d d' ∨ Placed e.path e.body.mark d d'

theorem bumpAttempts_wp {I : Disk → Prop} {e : OutboxEntry} {d : Disk}
    (hjson : isJson e.path = true) (hnumber : (numberOf e.path).isSome = true) (hI : I d)
    (hstable : ∀ d d', SameLive d d' → I d → I d')
    (hguar : ∀ op i d d', op.site = .bumpAttempts → I d → Bumped e d d' → G op i d d') :
    (bumpAttempts e).wp handler () (contract A G)
      (fun o d' => Bumped e d d' ∧ o = .ok ()) d := by
  refine act_wp fun i _ => ⟨hguar _ _ _ _ rfl hI (.inl (.refl d)), ?_⟩
  generalize hbody : ({ e.body with
    attempts := e.body.attempts + 1
    lastAttemptAt := (exec () ⟨.bumpAttempts, .now⟩ i d).2 } : Body) = body
  have hmark : body.mark = e.body.mark := by
    rw [← hbody]
    rfl
  have htmp : isJson (withSuffix e.path ".tmp") = false := isJson_tmp e.path
  have hnow : (exec () ⟨.bumpAttempts, .now⟩ i d).1 = d := rfl
  rw [hnow]
  refine act_wp fun i₁ _ => ?_
  have hsame : SameLive d
      (exec () ⟨.bumpAttempts, .writeText (withSuffix e.path ".tmp") body⟩ i₁ d).1 :=
    sameLive_writeText htmp body i₁
  refine ⟨hguar _ _ _ _ rfl hI (.inl hsame), ?_⟩
  have hwritten : (exec () ⟨.bumpAttempts, .writeText (withSuffix e.path ".tmp") body⟩ i₁ d).2 =
      .ok () → (exec () ⟨.bumpAttempts, .writeText (withSuffix e.path ".tmp") body⟩
        i₁ d).1.files.lookup (withSuffix e.path ".tmp") = some (.body body) := by
    intro hok
    simp only [exec] at hok ⊢
    split at hok
    · cases hok
    · next hfault =>
      rw [if_neg hfault]
      simp [Directory.lookup_put]
  generalize (exec () ⟨.bumpAttempts, .writeText (withSuffix e.path ".tmp") body⟩ i₁ d).1 = d₁
    at hsame hwritten ⊢
  generalize (exec () ⟨.bumpAttempts, .writeText (withSuffix e.path ".tmp") body⟩ i₁ d).2 = answer
    at hwritten ⊢
  cases answer with
  | error err => exact ⟨.inl hsame, rfl⟩
  | ok u =>
    refine act_wp fun i₂ _ => ?_
    have hplaced : Bumped e d₁
        (exec () ⟨.bumpAttempts, .replace (withSuffix e.path ".tmp") e.path⟩ i₂ d₁).1 := by
      cases hfault : i₂.fault with
      | true =>
        refine .inl ?_
        simp only [exec, hfault]
        exact .refl d₁
      | false =>
        have hlive := live_place .bumpAttempts hjson hnumber hfault (hwritten rfl)
        refine .inr ⟨?_, ⟨body, (hlive _ _).mpr (by simp)⟩, fun b hb => ?_, fun name b hne => ?_⟩
        · simp only [exec, hfault, hwritten rfl]
          exact ⟨rfl, rfl, rfl, rfl⟩
        · have hb := (hlive _ _).mp hb
          rw [if_pos rfl] at hb
          rw [hb, hmark]
        · rw [hlive, if_neg (Ne.symm hne)]
    refine ⟨hguar _ _ _ _ rfl (hstable _ _ hsame hI) hplaced, ?_, rfl⟩
    rcases hplaced with hplaced | hplaced
    · exact .inl (hsame.trans hplaced)
    · refine .inr ⟨?_, hplaced.here, hplaced.mark_eq, fun name b hne => ?_⟩
      · exact hsame.toSameHistory.trans hplaced.toSameHistory
      · rw [hplaced.others name b hne, hsame.live]

theorem readParked_wp {e : OutboxEntry} {d : Disk}
    (hguar : ∀ op i d, op.action = .now → G op i d d) :
    (readParked e).wp handler () (contract A G)
      (fun o d' => d' = d ∧ ∃ parked, o = .ok parked) d := by
  unfold readParked
  split
  · exact act_wp fun i _ => ⟨hguar _ _ _ rfl, rfl, _, rfl⟩
  · exact ⟨rfl, _, rfl⟩

-- The scheduler's answer settles the report, or leaves it open.
structure Answered (report : Option Nat) (reply : Reply) (d d' : Disk) : Prop where
  live : ∀ path b, Live d' path b ↔ Live d path b
  nextReport : d'.nextReport = d.nextReport
  journaled : d'.journaled = d.journaled
  returned : d'.returned = d.returned
  settled : d'.settled = if settles reply then d.settled ++ report.toList else d.settled

theorem heartbeats_wp (hspares : Spares A)
    (hguar : ∀ op i d, op.site = .entries → SameLive d (exec () op i d).1 →
      G op i d (exec () op i d).1)
    (hbeat : ∀ i d, G ⟨.drain, .heartbeats⟩ i d d) (d : Disk) :
    heartbeats.wp handler () (contract A G) (fun o d' => SameLive d d' ∧ o = .ok ()) d := by
  refine act_wp fun i hi => ⟨hbeat i d, ?_⟩
  clear hi
  change Program.wp handler () (contract A G) (Program.each (List.range _) _) _ d
  generalize List.range _ = beats
  induction beats generalizing d with
  | nil => exact ⟨.refl d, rfl⟩
  | cons beat beats ih =>
    refine Program.wp_seq (Program.wp_seq (entries_wp hspares hguar d) ?_ ?_) ?_ ?_
      (R := fun o d' => SameLive d d' ∧ o = .ok ())
    · rintro listed d' ⟨hsame, _⟩
      exact ⟨hsame, rfl⟩
    · rintro err d' ⟨_, _, heq, _⟩
      cases heq
    · rintro _ d' ⟨hsame, _⟩
      refine Program.wp_mono (ih d') ?_
      rintro o d'' ⟨hsame', rfl⟩
      exact ⟨hsame.trans hsame', rfl⟩
    · rintro err d' ⟨_, heq⟩
      cases heq

theorem sendReport_wp (hspares : Spares A)
    (hguar : ∀ op i d, op.site = .entries → SameLive d (exec () op i d).1 →
      G op i d (exec () op i d).1)
    (hbeat : ∀ i d, G ⟨.drain, .heartbeats⟩ i d d) {report : Option Nat} {jobId kind : String}
    {payload : Payload} {d : Disk}
    (hsend : ∀ i, Answered report i.reply d (exec () ⟨.drain, .send report jobId kind payload⟩ i d).1 →
      G ⟨.drain, .send report jobId kind payload⟩ i d
        (exec () ⟨.drain, .send report jobId kind payload⟩ i d).1) :
    (sendReport report jobId kind payload).wp handler () (contract A G)
      (fun o d' => ∃ reply, o = .ok reply ∧ Answered report reply d d') d := by
  unfold sendReport
  split
  · refine act_wp fun i _ => ?_
    have hanswered : Answered report i.reply d
        (exec () ⟨.drain, .send report jobId kind payload⟩ i d).1 := by
      simp only [exec]
      split
      · next hsettles => exact ⟨fun _ _ => Iff.rfl, rfl, rfl, rfl, by rw [if_pos hsettles]⟩
      · next hsettles => exact ⟨fun _ _ => Iff.rfl, rfl, rfl, rfl, by rw [if_neg hsettles]⟩
    refine ⟨hsend i hanswered, ?_⟩
    refine Program.wp_seq (heartbeats_wp hspares hguar hbeat _) ?_ ?_
    · rintro _ d' ⟨hsame, _⟩
      refine ⟨i.reply, rfl, fun path b => (hsame.live path b).trans (hanswered.live path b), ?_, ?_,
        ?_, ?_⟩
      · rw [hsame.nextReport, hanswered.nextReport]
      · rw [hsame.journaled, hanswered.journaled]
      · rw [hsame.returned, hanswered.returned]
      · rw [hsame.settled, hanswered.settled]
    · rintro err d' ⟨_, heq⟩
      cases heq
  · exact ⟨.error, rfl, fun _ _ => Iff.rfl, rfl, rfl, rfl, rfl⟩

-- A new report is in the journal, under a name of its own.
structure Journals (path : String) (b : Body) (d d' : Disk) : Prop where
  live : ∀ name b', Live d' name b' ↔ if path = name then b' = b else Live d name b'
  nextReport : d'.nextReport = d.nextReport
  journaled : d'.journaled = d.journaled ++ [b.mark]
  returned : d'.returned = d.returned
  settled : d'.settled = d.settled

theorem journals_of_replace {d : Disk} {path : String} {b : Body} {i : Input}
    (hjson : isJson path = true) (hnumber : (numberOf path).isSome = true)
    (hfault : i.fault = false)
    (htmp : d.files.lookup (withSuffix path ".tmp") = some (.body b)) :
    Journals path b d (exec () ⟨.append, .replace (withSuffix path ".tmp") path⟩ i d).1 := by
  refine ⟨live_place .append hjson hnumber hfault htmp, ?_, ?_, ?_, ?_⟩
  all_goals simp only [exec, hfault, htmp]
  all_goals rfl

theorem lookup_writeText {d : Disk} {site : Site} {name : String} {b : Body} {i : Input}
    (h : (exec () ⟨site, .writeText name b⟩ i d).2 = .ok ()) :
    (exec () ⟨site, .writeText name b⟩ i d).1.files.lookup name = some (.body b) := by
  simp only [exec] at h ⊢
  split at h
  · cases h
  · next hfault =>
    rw [if_neg hfault]
    simp [Directory.lookup_put]

-- One above the largest number of a listing that did not fail is a free name.
theorem free_of_listed {d : Disk} {i : Input} (hfault : i.fault = false) (jobId kind : String)
    (b : Body) : ¬ Live d (entryName
      (((exec () ⟨.nextSeq, .glob⟩ i d).2.filterMap numberOf).foldl max 0 + 1) jobId kind) b := by
  have hglob : (exec () ⟨.nextSeq, .glob⟩ i d).2 = d.files.names.filter isJson := by
    simp [exec, hfault]
  rintro ⟨hjson, _, hfile⟩
  rw [hglob] at hjson hfile
  have hfresh := entryName_fresh jobId kind
    (Nat.lt_succ_self (((d.files.names.filter isJson).filterMap numberOf).foldl max 0))
  exact hfresh (List.mem_filter.mpr ⟨(Directory.mem_names _ _).mpr ⟨_, hfile⟩, hjson⟩)

theorem place_wp {P : Disk → Prop} {d : Disk} {path : String} {b : Body}
    (hjson : isJson path = true) (hnumber : (numberOf path).isSome = true) (hP : P d)
    (hsame : ∀ d d', P d → SameLive d d' → P d')
    (hjournal : ∀ i d₁ d₂, SameLive d d₁ →
      A ⟨.append, .replace (withSuffix path ".tmp") path⟩ i d₁ → i.fault = false →
      d₁.files.lookup (withSuffix path ".tmp") = some (.body b) → Journals path b d₁ d₂ → P d₂)
    (hguar : ∀ op i d d', op.site = .append → (P d → P d') → G op i d d') :
    (place path b).wp handler () (contract A G)
      (fun o d' => P d' ∧ (o = .ok () → b.mark ∈ d'.journaled)) d := by
  refine act_wp fun i _ => ?_
  have hwritten : SameLive d
      (exec () ⟨.append, .writeText (withSuffix path ".tmp") b⟩ i d).1 :=
    sameLive_writeText (isJson_tmp path) b i
  have hlook : (exec () ⟨.append, .writeText (withSuffix path ".tmp") b⟩ i d).2 = .ok () → _ :=
    lookup_writeText
  refine ⟨hguar _ _ _ _ rfl fun h => hsame _ _ h hwritten, ?_⟩
  generalize (exec () ⟨.append, .writeText (withSuffix path ".tmp") b⟩ i d).1 = d₁
    at hwritten hlook ⊢
  generalize (exec () ⟨.append, .writeText (withSuffix path ".tmp") b⟩ i d).2 = answer
    at hlook ⊢
  have hP₁ : P d₁ := hsame _ _ hP hwritten
  cases answer with
  | error err => exact ⟨hP₁, fun h => by cases h⟩
  | ok u =>
    have htmp := hlook rfl
    refine act_wp fun i₁ hi₁ => ?_
    cases hfault : i₁.fault with
    | true =>
      have hexec : exec () ⟨.append, .replace (withSuffix path ".tmp") path⟩ i₁ d₁ =
          (d₁, .error .other) := by
        simp only [exec, hfault]
        rfl
      rw [hexec]
      exact ⟨hguar _ _ _ _ rfl fun h => h, hP₁, fun h => by cases h⟩
    | false =>
      have hplaced := journals_of_replace hjson hnumber hfault htmp
      have hP₂ := hjournal i₁ d₁ _ hwritten hi₁ hfault htmp hplaced
      refine ⟨hguar _ _ _ _ rfl fun _ => hP₂, ?_⟩
      rw [Program.wp_ofExcept]
      refine ⟨hP₂, fun _ => ?_⟩
      rw [hplaced.journaled]
      simp

theorem append_wp {P : Disk → Prop} {d : Disk} {jobId kind : String} {payload : Payload}
    (hP : P d) (hsame : ∀ d d', P d → SameLive d d' → P d')
    (henroll : P { d with nextReport := d.nextReport + 1 })
    (hjournal : ∀ i₀ i d₁ d₂ path b, A ⟨.nextSeq, .glob⟩ i₀ d →
      (i₀.fault = false → ∀ b, ¬ Live d path b) →
      SameLive { d with nextReport := d.nextReport + 1 } d₁ →
      A ⟨.append, .replace (withSuffix path ".tmp") path⟩ i d₁ → i.fault = false →
      d₁.files.lookup (withSuffix path ".tmp") = some (.body b) →
      b.mark = ⟨d.nextReport, jobId⟩ → Journals path b d₁ d₂ → P d₂)
    (hreturned : ∀ d report, P d → (∃ m ∈ d.journaled, m.report = report) →
      P { d with returned := d.returned ++ [report] })
    (hguar : ∀ op i d d', op.site = .nextSeq ∨ op.site = .append → (P d → P d') →
      G op i d d') :
    (append jobId kind payload).wp handler () (contract A G) (fun _ d' => P d') d := by
  unfold append
  split
  · refine act_wp fun i₀ hi₀ => ⟨hguar _ _ _ _ (.inl rfl) fun h => h, ?_⟩
    have hfree := fun hfault => free_of_listed (d := d) (i := i₀) hfault jobId kind
    dsimp only
    generalize ((exec () ⟨.nextSeq, .glob⟩ i₀ d).2.filterMap numberOf).foldl max 0 + 1 = seq
      at hfree ⊢
    refine act_wp fun i₁ _ => ⟨hguar _ _ _ _ (.inr rfl) fun _ => henroll, ?_⟩
    refine Program.wp_seq (place_wp (isJson_entryName ..) (by simp [numberOf_entryName]) henroll hsame
      (fun i d₁ d₂ hsame₁ hA hfault htmp hplaced => hjournal i₀ i d₁ d₂ _ _ hi₀ hfree hsame₁ hA
        hfault htmp rfl hplaced) fun op i d d' hsite => hguar op i d d' (.inr hsite)) ?_ ?_
    · rintro _ d₂ ⟨hP₂, hjournaled⟩
      have hP₃ := hreturned d₂ d.nextReport hP₂
        ⟨_, hjournaled rfl, rfl⟩
      exact act_wp fun i₂ _ => ⟨hguar _ _ _ _ (.inr rfl) fun _ => hP₃, hP₃⟩
    · rintro err d₂ ⟨hP₂, _⟩
      exact hP₂
  · exact hP

end Logic

end TranscodeForge.Outbox
