import TranscodeForge.Scanner.Inventory

namespace TranscodeForge.Scanner

open Relational Scheduler Text

-- One call of `upsert_media_file`, with the id and the time it draws.
structure Rescan extends Upsert where
  id : String
  now : Instant
deriving DecidableEq

def Inventory.rescans (inv : Inventory) (us : List Rescan) : Except Error Inventory :=
  us.foldlM (fun inv u => inv.upsert u.toUpsert u.id u.now) inv

def MediaFile.rescanned (r : MediaFile) (us : List Rescan) : MediaFile :=
  us.foldl (fun r u => u.onto u.now r) r

def MediaFile.decided (r : MediaFile) : TranscodeStatus × Option String × Option String :=
  (r.transcodeStatus, r.skipReason, r.jobId)

section Rows

variable {u : Upsert} {r : MediaFile} {c : String} {us : List Rescan}

theorem onto_null (now : Instant) (r : MediaFile) (h : u.videoCodec = none) :
    (u.onto now r).videoCodec = none ∧ (u.onto now r).decided = r.decided := by
  simp [Upsert.onto, MediaFile.decided, h]

theorem onto_same (now : Instant) (h : u.videoCodec = some c) (hr : r.videoCodec = some c) :
    (u.onto now r).videoCodec = some c ∧ (u.onto now r).decided = r.decided := by
  simp [Upsert.onto, MediaFile.decided, h, hr]

-- NULL = codec is not true, so a codec that NULL has replaced counts as another one.
theorem onto_forgotten (now : Instant) (h : u.videoCodec = some c) (hr : r.videoCodec = none) :
    (u.onto now r).videoCodec = some c ∧
      (u.onto now r).decided = ((initialStatus (some c)).1, (initialStatus (some c)).2, r.jobId) := by
  simp [Upsert.onto, MediaFile.decided, h, hr]

-- A NULL probe is followed by NULL probes only.
def NullsLast (us : List Rescan) : Prop :=
  us.Pairwise fun u u' => u.videoCodec = none → u'.videoCodec = none

instance (us : List Rescan) : Decidable (NullsLast us) :=
  inferInstanceAs (Decidable (us.Pairwise fun u u' => u.videoCodec = none → u'.videoCodec = none))

def Forgets (r : MediaFile) (us : List Rescan) : Prop :=
  ¬NullsLast us ∨ r.videoCodec = none ∧ ∃ u ∈ us, u.videoCodec ≠ none

theorem rescanned_cons (r : MediaFile) (u : Rescan) (us : List Rescan) :
    r.rescanned (u :: us) = (u.onto u.now r).rescanned us := rfl

theorem rescanned_kept (hr : r.videoCodec = none ∨ r.videoCodec = some c)
    (hus : ∀ u ∈ us, u.videoCodec = none ∨ u.videoCodec = some c) (h : ¬Forgets r us) :
    (r.rescanned us).decided = r.decided := by
  induction us generalizing r with
  | nil => rfl
  | cons u us ih =>
    have hrest : ∀ u ∈ us, u.videoCodec = none ∨ u.videoCodec = some c :=
      fun u hu => hus u (List.mem_cons_of_mem _ hu)
    obtain ⟨hlast, hknown⟩ := not_or.mp h
    obtain ⟨hhead, htail⟩ := List.pairwise_cons.mp (not_not.mp hlast)
    rw [rescanned_cons]
    rcases hus u List.mem_cons_self with hnull | hcodec
    · obtain ⟨hcodec, hdecided⟩ := onto_null u.now r hnull
      rw [← hdecided]
      refine ih (.inl hcodec) hrest (not_or.mpr ⟨not_not.mpr htail, ?_⟩)
      rintro ⟨-, u', hu', hsome⟩
      exact hsome (hhead u' hu' hnull)
    · have hsome : r.videoCodec = some c := by
        refine hr.resolve_left fun hnone => hknown ⟨hnone, u, List.mem_cons_self, ?_⟩
        rw [hcodec]
        exact Option.some_ne_none c
      obtain ⟨hcodec', hdecided⟩ := onto_same u.now hcodec hsome
      rw [← hdecided]
      refine ih (.inr hcodec') hrest (not_or.mpr ⟨not_not.mpr htail, ?_⟩)
      rintro ⟨hnone, -⟩
      rw [hcodec'] at hnone
      cases hnone

theorem rescanned_jobId : (r.rescanned us).jobId = r.jobId := by
  induction us generalizing r with
  | nil => rfl
  | cons u us ih =>
    rw [rescanned_cons, ih]
    rfl

-- Once it has been judged afresh, whatever follows leaves the row as judged.
theorem rescanned_judged (hr : r.videoCodec = none ∨ r.videoCodec = some c)
    (hus : ∀ u ∈ us, u.videoCodec = none ∨ u.videoCodec = some c)
    (h : (r.transcodeStatus, r.skipReason) = initialStatus (some c)) :
    ((r.rescanned us).transcodeStatus, (r.rescanned us).skipReason) = initialStatus (some c) := by
  induction us generalizing r with
  | nil => exact h
  | cons u us ih =>
    have hrest : ∀ u ∈ us, u.videoCodec = none ∨ u.videoCodec = some c :=
      fun u hu => hus u (List.mem_cons_of_mem _ hu)
    rw [rescanned_cons]
    rcases hus u List.mem_cons_self with hnull | hcodec
    · refine ih (.inl (onto_null u.now r hnull).1) hrest ?_
      simpa [Upsert.onto, hnull] using h
    · rcases hr with hnone | hsome
      · refine ih (.inr (onto_forgotten u.now hcodec hnone).1) hrest ?_
        simp [Upsert.onto, hcodec, hnone]
      · refine ih (.inr (onto_same u.now hcodec hsome).1) hrest ?_
        simpa [Upsert.onto, hcodec, hsome] using h

theorem rescanned_forgets (hr : r.videoCodec = none ∨ r.videoCodec = some c)
    (hus : ∀ u ∈ us, u.videoCodec = none ∨ u.videoCodec = some c) (h : Forgets r us) :
    ((r.rescanned us).transcodeStatus, (r.rescanned us).skipReason) = initialStatus (some c) := by
  induction us generalizing r with
  | nil =>
    rcases h with hlast | ⟨-, u, hu, -⟩
    · exact absurd List.Pairwise.nil hlast
    · cases hu
  | cons u us ih =>
    have hrest : ∀ u ∈ us, u.videoCodec = none ∨ u.videoCodec = some c :=
      fun u hu => hus u (List.mem_cons_of_mem _ hu)
    rw [rescanned_cons]
    rcases hus u List.mem_cons_self with hnull | hcodec
    · refine ih (.inl (onto_null u.now r hnull).1) hrest ?_
      by_cases hlater : ∃ u ∈ us, u.videoCodec ≠ none
      · exact .inr ⟨(onto_null u.now r hnull).1, hlater⟩
      · push Not at hlater
        rcases h with hlast | ⟨-, u', hu', hsome⟩
        · refine .inl fun htail => hlast (List.pairwise_cons.mpr ⟨fun u' hu' _ => hlater u' hu', htail⟩)
        · rcases List.mem_cons.mp hu' with rfl | hu'
          · exact absurd hnull hsome
          · exact absurd (hlater u' hu') hsome
    · rcases hr with hnone | hsome
      · refine rescanned_judged (.inr (onto_forgotten u.now hcodec hnone).1) hrest ?_
        simp [Upsert.onto, hcodec, hnone]
      · refine ih (.inr (onto_same u.now hcodec hsome).1) hrest (.inl fun htail => ?_)
        rcases h with hlast | ⟨hnone, -⟩
        · refine hlast (List.pairwise_cons.mpr ⟨fun u' _ hnull => ?_, htail⟩)
          rw [hcodec] at hnull
          cases hnull
        · rw [hsome] at hnone
          cases hnone

end Rows

namespace Inventory

variable {inv : Inventory} {path : Chars} {r : MediaFile} {us : List Rescan}

theorem upsert_known {u : Upsert} (id : String) (now : Instant) (hpath : u.filePath = path)
    (hget : inv.get? path = some r) :
    ∃ inv', inv.upsert u id now = .ok inv' ∧ inv'.get? path = some (u.onto now r) := by
  subst hpath
  unfold upsert
  split
  · refine ⟨_, rfl, ?_⟩
    have hkey : r.filePath = u.filePath := Table.get?_key hget
    rw [get?, Table.get?_update, show inv.files.get? u.filePath = some r from hget]
    simp [hkey]
  · next hnone =>
    rw [hget] at hnone
    cases hnone

theorem rescans_known (hpaths : ∀ u ∈ us, u.filePath = path) (hget : inv.get? path = some r) :
    ∃ inv', inv.rescans us = .ok inv' ∧ inv'.get? path = some (r.rescanned us) := by
  induction us generalizing inv r with
  | nil => exact ⟨inv, rfl, hget⟩
  | cons u us ih =>
    obtain ⟨inv₁, hfirst, hget₁⟩ := upsert_known u.id u.now
      (hpaths u List.mem_cons_self) hget
    obtain ⟨inv', hrest, hget'⟩ := ih (fun u hu => hpaths u (List.mem_cons_of_mem _ hu)) hget₁
    refine ⟨inv', ?_, hget'⟩
    rw [rescans, List.foldlM_cons, hfirst]
    exact hrest

end Inventory

theorem rescans_preserve_iff {inv : Inventory} {path : Chars} {r : MediaFile} {c : String}
    {us : List Rescan} (hget : inv.get? path = some r) (hr : r.videoCodec = some c)
    (hus : ∀ u ∈ us, u.filePath = path ∧ (u.videoCodec = none ∨ u.videoCodec = some c)) :
    ∃ inv' r', inv.rescans us = .ok inv' ∧ inv'.get? path = some r' ∧ (r'.decided = r.decided ↔
      NullsLast us ∨ (r.transcodeStatus, r.skipReason) = initialStatus (some c)) := by
  obtain ⟨inv', hrescans, hget'⟩ := Inventory.rescans_known (fun u hu => (hus u hu).1) hget
  have hcodecs : ∀ u ∈ us, u.videoCodec = none ∨ u.videoCodec = some c := fun u hu => (hus u hu).2
  refine ⟨inv', _, hrescans, hget', ?_⟩
  by_cases hforgets : Forgets r us
  · have hjudged := rescanned_forgets (.inr hr) hcodecs hforgets
    have hlast : ¬NullsLast us := by
      refine hforgets.resolve_right ?_
      rintro ⟨hnone, -⟩
      rw [hr] at hnone
      cases hnone
    rw [← hjudged, or_iff_right hlast]
    simp only [MediaFile.decided, rescanned_jobId, Prod.mk.injEq, and_true]
    exact and_congr eq_comm eq_comm
  · have hkept := rescanned_kept (.inr hr) hcodecs hforgets
    have hlast : NullsLast us := not_not.mp (not_or.mp hforgets).1
    exact iff_of_true hkept (.inl hlast)

def queuedFile : MediaFile where
  id := "f"
  libraryId := "l"
  filePath := ['a']
  filename := ['a']
  videoCodec := some "h264"
  transcodeStatus := .queued
  jobId := some "j"
  scannedAt := 0
  updatedAt := 0

def nullProbe : Rescan where
  libraryId := "l"
  filePath := ['a']
  filename := ['a']
  id := "g"
  now := 1

def codecProbe : Rescan := { nullProbe with videoCodec := some "h264" }

def oneQueued : Inventory where
  files := Table.empty.insert queuedFile
  ids := by decide

theorem rescans_preserve_queued : ∃ inv' r',
    oneQueued.rescans [codecProbe, nullProbe] = .ok inv' ∧ inv'.get? ['a'] = some r' ∧
      (r'.decided = queuedFile.decided ↔ NullsLast [codecProbe, nullProbe] ∨
        (queuedFile.transcodeStatus, queuedFile.skipReason) = initialStatus (some "h264")) :=
  rescans_preserve_iff rfl rfl (by decide)

theorem not_rescans_preserve : ∃ inv' r',
    oneQueued.rescans [nullProbe, codecProbe] = .ok inv' ∧ inv'.get? ['a'] = some r' ∧
      r'.transcodeStatus = .needsTranscode ∧ queuedFile.transcodeStatus = .queued :=
  ⟨_, _, rfl, rfl, rfl, rfl⟩

end TranscodeForge.Scanner
