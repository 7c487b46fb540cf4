import TranscodeForge.Interaction.Sequence
import TranscodeForge.Scanner.Isolation
import TranscodeForge.Scanner.Rescans
import Mathlib.Logic.Relation

namespace TranscodeForge.Scanner

open Interaction Relational Scheduler Text

section Catalog

-- `//` rounds down.
def scaledWidth (width height : Option Int) (targetHeight : Int) : Option Int :=
  match width, height with
  | some w, some h =>
    if w = 0 ∨ h = 0 then none else some (Int.fdiv (w * targetHeight + h) (2 * h) * 2)
  | _, _ => none

def formatResolution (width height : Int) : String := toString width ++ "x" ++ toString height

namespace MediaFile

def withStatus (status : TranscodeStatus) (skipReason : Option String) (now : Instant)
    (r : MediaFile) : MediaFile :=
  { r with transcodeStatus := status, skipReason := skipReason, updatedAt := now }

def described (videoCodec : String) (fileSize : Int) (now : Instant) (r : MediaFile) : MediaFile :=
  { r with videoCodec := some videoCodec, fileSize := some fileSize, updatedAt := now }

def downscaled (width : Option Int) (height : Int) (r : MediaFile) : MediaFile :=
  match width with
  | none => { r with height := some height }
  | some w =>
    { r with width := some w, height := some height, resolution := some (formatResolution w height) }

@[simp] theorem withStatus_id (status : TranscodeStatus) (skipReason : Option String)
    (now : Instant) (r : MediaFile) : (r.withStatus status skipReason now).id = r.id := rfl

@[simp] theorem withStatus_filePath (status : TranscodeStatus) (skipReason : Option String)
    (now : Instant) (r : MediaFile) :
    (r.withStatus status skipReason now).filePath = r.filePath := rfl

@[simp] theorem described_id (videoCodec : String) (fileSize : Int) (now : Instant)
    (r : MediaFile) : (r.described videoCodec fileSize now).id = r.id := rfl

@[simp] theorem described_filePath (videoCodec : String) (fileSize : Int) (now : Instant)
    (r : MediaFile) : (r.described videoCodec fileSize now).filePath = r.filePath := rfl

@[simp] theorem downscaled_id (width : Option Int) (height : Int) (r : MediaFile) :
    (r.downscaled width height).id = r.id := by
  cases width <;> rfl

@[simp] theorem downscaled_filePath (width : Option Int) (height : Int) (r : MediaFile) :
    (r.downscaled width height).filePath = r.filePath := by
  cases width <;> rfl

@[simp] theorem downscaled_videoCodec (width : Option Int) (height : Int) (r : MediaFile) :
    (r.downscaled width height).videoCodec = r.videoCodec := by
  cases width <;> rfl

@[simp] theorem downscaled_transcodeStatus (width : Option Int) (height : Int) (r : MediaFile) :
    (r.downscaled width height).transcodeStatus = r.transcodeStatus := by
  cases width <;> rfl

end MediaFile

namespace Inventory

variable (inv : Inventory)

def updateStatusByJob (jobId : String) (status : TranscodeStatus) (skipReason : Option String)
    (now : Instant) : Inventory where
  files := inv.files.update (fun r => r.jobId = some jobId)
    (MediaFile.withStatus status skipReason now) (MediaFile.withStatus_filePath status skipReason now)
  ids := ids_update (MediaFile.withStatus_id status skipReason now) inv.ids

-- A job never replaces an S3 master, so its row is not described again.
def swapped (onS3 : String → Bool) (jobId : String) (r : MediaFile) : Bool :=
  r.jobId = some jobId && !onS3 r.libraryId

def describe (id : String) (videoCodec : String) (fileSize : Int) (width : Option Int)
    (height : Int) (now : Instant) : Inventory where
  files := inv.files.update (fun r => r.id = id)
    (fun r => (r.described videoCodec fileSize now).downscaled width height) (by simp)
  ids := ids_update (by simp) inv.ids

def describeSwapped (onS3 : String → Bool) (jobId videoCodec : String) (fileSize : Int)
    (now : Instant) : Inventory where
  files := inv.files.update (swapped onS3 jobId) (MediaFile.described videoCodec fileSize now)
    (MediaFile.described_filePath videoCodec fileSize now)
  ids := ids_update (MediaFile.described_id videoCodec fileSize now) inv.ids

def updateOutputByJob (onS3 : String → Bool) (jobId videoCodec : String) (fileSize : Int)
    (targetHeight : Option Int) (now : Instant) : Inventory :=
  match targetHeight with
  | none => inv.describeSwapped onS3 jobId videoCodec fileSize now
  | some height =>
    (inv.files.select (swapped onS3 jobId)).foldl (fun inv r =>
      inv.describe r.id videoCodec fileSize (scaledWidth r.width r.height height) height now) inv

section Rows

variable {inv : Inventory} {path : Chars}

theorem get?_updateStatusByJob (jobId : String) (status : TranscodeStatus)
    (skipReason : Option String) (now : Instant) :
    (inv.updateStatusByJob jobId status skipReason now).get? path =
      (inv.get? path).map fun r =>
        if r.jobId = some jobId then r.withStatus status skipReason now else r := by
  simp only [get?, updateStatusByJob, Table.get?_update, decide_eq_true_eq]

theorem get?_describe (id codec : String) (size : Int) (width : Option Int) (height : Int)
    (now : Instant) :
    (inv.describe id codec size width height now).get? path =
      (inv.get? path).map fun r =>
        if r.id = id then (r.described codec size now).downscaled width height else r := by
  simp only [get?, describe, Table.get?_update, decide_eq_true_eq]

theorem get?_describeSwapped (onS3 : String → Bool) (jobId codec : String) (size : Int)
    (now : Instant) :
    (inv.describeSwapped onS3 jobId codec size now).get? path =
      (inv.get? path).map fun r => if swapped onS3 jobId r then r.described codec size now else r := by
  rw [get?, describeSwapped, Table.get?_update]
  rfl

end Rows

end Inventory

end Catalog

-- A job's swap: the file it replaces, and its encode, which CONFIRM found in the job's codec.
structure Swap where
  jobId : String
  targetCodec : String
  targetHeight : Option Int
  original : ProbeResult
  encode : ProbeResult
  confirmed : encode.videoCodec = targetCodec

inductive Stage where
  | encoding
  | displaced
  | swapped
  | complete
deriving DecidableEq, Repr

def Swap.file (swap : Swap) : Stage → Option ProbeResult
  | .encoding => some swap.original
  | .displaced => none
  | .swapped | .complete => some swap.encode

-- The catalog's part of a complete report whose transition was won.
def Swap.completed (swap : Swap) (onS3 : String → Bool) (inv : Inventory) (now : Instant) :
    Inventory :=
  (inv.updateStatusByJob swap.jobId .complete none now).updateOutputByJob onS3 swap.jobId
    swap.targetCodec swap.encode.fileSize swap.targetHeight now

structure World where
  inventory : Inventory
  stage : Stage

-- The worker's two renames, and the scheduler's handling of its report.
inductive Advance (swap : Swap) (onS3 : String → Bool) : World → World → Prop
  | displace (inv : Inventory) : Advance swap onS3 ⟨inv, .encoding⟩ ⟨inv, .displaced⟩
  | place (inv : Inventory) : Advance swap onS3 ⟨inv, .displaced⟩ ⟨inv, .swapped⟩
  | report (inv : Inventory) (now : Instant) :
      Advance swap onS3 ⟨inv, .swapped⟩ ⟨swap.completed onS3 inv now, .complete⟩

abbrev Advances (swap : Swap) (onS3 : String → Bool) : World → World → Prop :=
  Relation.ReflTransGen (Advance swap onS3)

inductive ScanCall where
  | lookup
  | stat
  | probe
  | upsert (u : Upsert)

abbrev ScanCall.Answer : ScanCall → Type
  | .lookup => Except Error (Option MediaFile)
  | .stat => Except Error Stat
  | .probe => Except Error ProbeResult
  | .upsert _ => Except Error Unit

structure ScanInput where
  error : Option Error := none
  mtime : String := ""
  fileId : String := ""
  now : Instant := 0
  write : Write := .done

def scanCall (swap : Swap) (path : Chars) (_ : Unit) :
    (c : ScanCall) → ScanInput → World → World × c.Answer
  | .lookup, i, w =>
    (w, match i.error with
      | some e => .error e
      | none => .ok (w.inventory.get? path))
  | .stat, i, w =>
    (w, match i.error, swap.file w.stage with
      | some e, _ => .error e
      | none, none => .error .notFound
      | none, some file => .ok ⟨i.mtime, file.fileSize⟩)
  | .probe, i, w =>
    (w, match i.error, swap.file w.stage with
      | some e, _ => .error e
      | none, none => .error .probe
      | none, some file => .ok file)
  | .upsert u, i, w =>
    let (after, answer) := store w.inventory u i.fileId i.now i.write
    ({ w with inventory := after }, answer)

def scanning (swap : Swap) (path : Chars) :
    Handler Unit ScanCall ScanCall.Answer World ScanInput where
  exec := scanCall swap path

abbrev Scanning := Program ScanCall ScanCall.Answer Error

-- `examine`, call by call.
def scanFile {libraryId : String} (f : Found libraryId) : Scanning Examined := do
  match ← (Program.perform ScanCall.lookup : Scanning (Except Error (Option MediaFile))) with
  | .error e => .raise e
  | .ok existing =>
    match ← (Program.perform ScanCall.stat : Scanning (Except Error Stat)) with
    | .error e => .raise e
    | .ok stat =>
      if existing.any (f.unchanged stat) then pure .unchanged
      else
        match ← (Program.perform ScanCall.probe : Scanning (Except Error ProbeResult)) with
        | .error .probe => pure .unprobed
        | .error e => .raise e
        | .ok probe =>
          match ← (Program.perform (ScanCall.upsert (f.upsert stat probe)) :
              Scanning (Except Error Unit)) with
          | .error e => .raise e
          | .ok () => pure (if existing.isSome then .updated else .added)

section Completing

variable {swap : Swap} {onS3 : String → Bool} {path : Chars} {inv : Inventory} {w w' : World}

-- The row of the file is the one queued into the job, in a library on a filesystem.
def Linked (swap : Swap) (onS3 : String → Bool) (path : Chars) (inv : Inventory) : Prop :=
  ∃ r, inv.get? path = some r ∧ r.jobId = some swap.jobId ∧ onS3 r.libraryId = false

def Completed (swap : Swap) (path : Chars) (inv : Inventory) : Prop :=
  ∃ r, inv.get? path = some r ∧ r.transcodeStatus = .complete ∧
    r.videoCodec = some swap.targetCodec

theorem describeAll_get? {rows : List MediaFile} {r : MediaFile} {codec : String}
    (hget : inv.get? path = some r) (hstatus : r.transcodeStatus = .complete)
    (hcodec : r.videoCodec = some codec ∨ ∃ m ∈ rows, m.id = r.id) (size height : Int)
    (now : Instant) :
    ∃ r', (rows.foldl (fun inv m => inv.describe m.id codec size
        (scaledWidth m.width m.height height) height now) inv).get? path = some r' ∧
      r'.transcodeStatus = .complete ∧ r'.videoCodec = some codec := by
  induction rows generalizing inv r with
  | nil =>
    refine ⟨r, hget, hstatus, hcodec.resolve_right ?_⟩
    rintro ⟨m, hm, -⟩
    cases hm
  | cons m rows ih =>
    have hnext : (inv.describe m.id codec size (scaledWidth m.width m.height height) height
        now).get? path = some (if r.id = m.id then (r.described codec size now).downscaled
          (scaledWidth m.width m.height height) height else r) := by
      rw [Inventory.get?_describe, hget, Option.map_some]
    by_cases hid : r.id = m.id
    · rw [if_pos hid] at hnext
      exact ih hnext (by simpa [MediaFile.described] using hstatus)
        (.inl (by simp [MediaFile.described]))
    · rw [if_neg hid] at hnext
      refine ih hnext hstatus (hcodec.imp_right ?_)
      rintro ⟨m', hm', hsame⟩
      rcases List.mem_cons.mp hm' with rfl | hm'
      · exact absurd hsame.symm hid
      · exact ⟨m', hm', hsame⟩

theorem Linked.completed (h : Linked swap onS3 path inv) (now : Instant) :
    Completed swap path (swap.completed onS3 inv now) := by
  obtain ⟨r, hget, hjob, hlibrary⟩ := h
  have hstatus : (inv.updateStatusByJob swap.jobId .complete none now).get? path =
      some (r.withStatus .complete none now) := by
    rw [Inventory.get?_updateStatusByJob, hget, Option.map_some, if_pos hjob]
  have hswapped : Inventory.swapped onS3 swap.jobId (r.withStatus .complete none now) = true := by
    simp [Inventory.swapped, MediaFile.withStatus, hjob, hlibrary]
  unfold Swap.completed Inventory.updateOutputByJob
  split
  · refine ⟨(r.withStatus .complete none now).described swap.targetCodec swap.encode.fileSize now,
      ?_, rfl, rfl⟩
    rw [Inventory.get?_describeSwapped, hstatus, Option.map_some, if_pos hswapped]
  · refine describeAll_get? hstatus rfl (.inr ⟨_, ?_, rfl⟩) _ _ _
    exact Table.mem_select.mpr ⟨Table.get?_mem hstatus, hswapped⟩

def Sound (swap : Swap) (onS3 : String → Bool) (path : Chars) (w : World) : Prop :=
  (w.stage = .complete → Completed swap path w.inventory) ∧
    (w.stage ≠ .complete → Linked swap onS3 path w.inventory)

theorem Sound.advance (h : Sound swap onS3 path w) (hstep : Advance swap onS3 w w') :
    Sound swap onS3 path w' := by
  cases hstep with
  | displace inv => exact ⟨nofun, fun _ => h.2 (by simp)⟩
  | place inv => exact ⟨nofun, fun _ => h.2 (by simp)⟩
  | report inv now => exact ⟨fun _ => (h.2 (by simp)).completed now, fun hne => absurd rfl hne⟩

theorem Sound.advances (h : Sound swap onS3 path w) (hsteps : Advances swap onS3 w w') :
    Sound swap onS3 path w' := by
  induction hsteps with
  | refl => exact h
  | tail _ hstep ih => exact ih.advance hstep

theorem advances_complete (h : Advances swap onS3 w w') (hstage : w.stage = .complete) :
    w' = w := by
  induction h with
  | refl => rfl
  | tail _ hstep ih =>
    subst ih
    cases hstep <;> cases hstage

end Completing

section Scan

variable {swap : Swap} {onS3 : String → Bool} {path : Chars} {libraryId : String}
  {f : Found libraryId} {w w' : World} {q : Scanning Examined}
  {es : List (CallRecord ScanCall World ScanInput)}

-- The scan's only write, and what it measured before.
def Upserted (swap : Swap) (onS3 : String → Bool) (f : Found libraryId) (w : World)
    (es : List (CallRecord ScanCall World ScanInput)) (w' : World) : Prop :=
  ∃ e₁ e₂ i₃ i₄ stat probe w₁ w₂,
    es = [e₁, e₂, ⟨.probe, i₃, w₁, w₁⟩, ⟨.upsert (f.upsert stat probe), i₄, w₂, w'⟩] ∧
      e₁.op = .lookup ∧ e₂.op = .stat ∧ swap.file w₁.stage = some probe ∧
      Advances swap onS3 w w₁ ∧ Advances swap onS3 w₁ w₂ ∧
      w' = { w₂ with
        inventory := (store w₂.inventory (f.upsert stat probe) i₄.fileId i₄.now i₄.write).1 }

theorem probe_answer {i : ScanInput} {probe : ProbeResult}
    (h : (scanning swap path).answer () .probe i w = .ok probe) :
    swap.file w.stage = some probe := by
  simp only [Handler.answer, scanning, scanCall] at h
  split at h
  · cases h
  · cases h
  · next heq =>
    cases h
    exact heq

theorem scanFile_cases
    (h : Exec (scanning swap path) () (Advances swap onS3) (scanFile f) w es q w')
    (hdone : q.outcome.isSome) :
    (Advances swap onS3 w w' ∧ ∀ e ∈ es, ∀ u, e.op ≠ .upsert u) ∨
      Upserted swap onS3 f w es w' := by
  obtain ⟨i₁, w₁, es₁, hr₁, rfl, hrest₁⟩ := Exec.first h hdone
  cases hlookup : (scanning swap path).answer () .lookup i₁ w₁ with
  | error e =>
    rw [hlookup] at hrest₁
    obtain ⟨-, rfl, rfl⟩ := hrest₁.stopped rfl
    exact .inl ⟨hr₁, by simp⟩
  | ok existing =>
    rw [hlookup] at hrest₁
    obtain ⟨i₂, w₂, es₂, hr₂, rfl, hrest₂⟩ := Exec.first hrest₁ hdone
    have hr₂' : Advances swap onS3 w w₂ := hr₁.trans hr₂
    cases hstat : (scanning swap path).answer () .stat i₂ w₂ with
    | error e =>
      rw [hstat] at hrest₂
      obtain ⟨-, rfl, rfl⟩ := hrest₂.stopped rfl
      exact .inl ⟨hr₂', by simp⟩
    | ok stat =>
      rw [hstat, Program.ret_bind] at hrest₂
      dsimp only at hrest₂
      by_cases hsame : existing.any (f.unchanged stat)
      · rw [if_pos hsame] at hrest₂
        obtain ⟨-, rfl, rfl⟩ := hrest₂.stopped rfl
        exact .inl ⟨hr₂', by simp⟩
      · rw [if_neg hsame] at hrest₂
        obtain ⟨i₃, w₃, es₃, hr₃, rfl, hrest₃⟩ := Exec.first hrest₂ hdone
        have hr₃' : Advances swap onS3 w w₃ := hr₂'.trans hr₃
        cases hprobe : (scanning swap path).answer () .probe i₃ w₃ with
        | error e =>
          rw [hprobe] at hrest₃
          have hstopped : es₃ = [] ∧ w' = w₃ := by
            cases e <;> exact (hrest₃.stopped rfl).2
          obtain ⟨rfl, rfl⟩ := hstopped
          exact .inl ⟨hr₃', by simp⟩
        | ok probe =>
          rw [hprobe] at hrest₃
          obtain ⟨i₄, w₄, es₄, hr₄, rfl, hrest₄⟩ := Exec.first hrest₃ hdone
          have hstopped : es₄ = [] ∧
              w' = (scanning swap path).next () (.upsert (f.upsert stat probe)) i₄ w₄ := by
            cases hstored : (scanning swap path).answer () (.upsert (f.upsert stat probe)) i₄ w₄ with
            | error e =>
              rw [hstored] at hrest₄
              exact (hrest₄.stopped rfl).2
            | ok u =>
              rw [hstored] at hrest₄
              exact (hrest₄.stopped rfl).2
          obtain ⟨rfl, rfl⟩ := hstopped
          exact .inr ⟨_, _, i₃, i₄, stat, probe, w₃, w₄, rfl, rfl, rfl, probe_answer hprobe, hr₃',
            hr₄, rfl⟩

theorem lookup_answer {i : ScanInput} :
    (scanning swap path).answer () .lookup i w = match i.error with
      | some e => .error e
      | none => .ok (w.inventory.get? path) := rfl

theorem next_still {c : ScanCall} (hc : ∀ u, c ≠ .upsert u) (i : ScanInput) :
    (scanning swap path).next () c i w = w := by
  cases c with
  | upsert u => exact absurd rfl (hc u)
  | _ => rfl

-- A scan by itself is `examine` of what its calls were answered.
theorem scanFile_alone (h : Exec (scanning swap f.path) () (· = ·) (scanFile f) w es q w')
    (hdone : q.outcome.isSome) : ∃ f' : Found libraryId, f'.path = f.path ∧
      f'.unchanged = f.unchanged ∧ f'.upsert = f.upsert ∧
      q.outcome = some (examine f' w.inventory).2 ∧ w'.inventory = (examine f' w.inventory).1 := by
  obtain ⟨i₁, _, es₁, rfl, -, hrest₁⟩ := Exec.first h hdone
  rw [lookup_answer, Program.ret_bind, next_still (by simp)] at hrest₁
  cases hlookup : i₁.error with
  | some e =>
    rw [hlookup] at hrest₁
    obtain ⟨rfl, -, rfl⟩ := hrest₁.stopped rfl
    refine ⟨{ f with lookup := some e }, rfl, rfl, rfl, ?_, ?_⟩ <;> rfl
  | none =>
    rw [hlookup] at hrest₁
    obtain ⟨i₂, _, es₂, rfl, -, hrest₂⟩ := Exec.first hrest₁ hdone
    rw [Program.ret_bind, next_still (by simp)] at hrest₂
    cases hstat : (scanning swap f.path).answer () .stat i₂ w with
    | error e =>
      rw [hstat] at hrest₂
      obtain ⟨rfl, -, rfl⟩ := hrest₂.stopped rfl
      refine ⟨{ f with lookup := none, stat := .error e }, rfl, rfl, rfl, ?_, ?_⟩ <;> rfl
    | ok stat =>
      rw [hstat] at hrest₂
      dsimp only at hrest₂
      by_cases hsame : (w.inventory.get? f.path).any (f.unchanged stat)
      · rw [if_pos hsame] at hrest₂
        let f' : Found libraryId := { f with lookup := none, stat := .ok stat }
        have hexamine : examine f' w.inventory = (w.inventory, .ok .unchanged) := by
          simp [examine, f', hsame]
        obtain ⟨rfl, -, rfl⟩ := hrest₂.stopped rfl
        exact ⟨f', rfl, rfl, rfl, by rw [hexamine]; rfl, by rw [hexamine]⟩
      · rw [if_neg hsame] at hrest₂
        obtain ⟨i₃, _, es₃, rfl, -, hrest₃⟩ := Exec.first hrest₂ hdone
        rw [Program.ret_bind, next_still (by simp)] at hrest₃
        cases hprobe : (scanning swap f.path).answer () .probe i₃ w with
        | error e =>
          rw [hprobe] at hrest₃
          by_cases hskip : e = .probe
          · subst hskip
            let f' : Found libraryId := { f with lookup := none, stat := .ok stat, probe := .ok none }
            have hexamine : examine f' w.inventory = (w.inventory, .ok .unprobed) := by
              simp [examine, f', hsame]
            obtain ⟨rfl, -, rfl⟩ := hrest₃.stopped rfl
            exact ⟨f', rfl, rfl, rfl, by rw [hexamine]; rfl, by rw [hexamine]⟩
          · have hstopped : q = .raise e ∧ w' = w := by
              cases e with
              | probe => exact absurd rfl hskip
              | _ => exact ⟨(hrest₃.stopped rfl).1, (hrest₃.stopped rfl).2.2⟩
            let f' : Found libraryId := { f with lookup := none, stat := .ok stat, probe := .error e }
            have hexamine : examine f' w.inventory = (w.inventory, .error e) := by
              simp [examine, f', hsame]
            obtain ⟨rfl, rfl⟩ := hstopped
            exact ⟨f', rfl, rfl, rfl, by rw [hexamine]; rfl, by rw [hexamine]⟩
        | ok probe =>
          rw [hprobe] at hrest₃
          obtain ⟨i₄, _, es₄, rfl, -, hrest₄⟩ := Exec.first hrest₃ hdone
          rw [Program.ret_bind] at hrest₄
          let f' : Found libraryId := { f with
            lookup := none
            stat := .ok stat
            probe := .ok (some probe)
            fileId := i₄.fileId
            now := i₄.now
            write := i₄.write }
          refine ⟨f', rfl, rfl, rfl, ?_⟩
          rcases hstored : store w.inventory (f.upsert stat probe) i₄.fileId i₄.now i₄.write with
            ⟨after, result⟩
          have hanswer : (scanning swap f.path).answer () (.upsert (f.upsert stat probe)) i₄ w =
              result := congrArg Prod.snd hstored
          have hnext : ((scanning swap f.path).next () (.upsert (f.upsert stat probe)) i₄
              w).inventory = after := congrArg Prod.fst hstored
          rw [hanswer] at hrest₄
          cases result with
          | error e =>
            have hexamine : examine f' w.inventory = (after, .error e) := by
              simp only [examine, f', hsame]
              rw [hstored]
              rfl
            obtain ⟨rfl, -, rfl⟩ := hrest₄.stopped rfl
            exact ⟨by rw [hexamine]; rfl, by rw [hexamine, hnext]⟩
          | ok u =>
            have hexamine : examine f' w.inventory = (after, .ok
                (if (w.inventory.get? f.path).isSome then .updated else .added)) := by
              simp only [examine, f', hsame]
              rw [hstored]
              rfl
            obtain ⟨rfl, -, rfl⟩ := hrest₄.stopped rfl
            exact ⟨by rw [hexamine]; rfl, by rw [hexamine, hnext]⟩

end Scan

section Overtaking

-- The row asks for a transcode of the old file, while the path holds the encode.
def Undone (swap : Swap) (path : Chars) (w : World) : Prop :=
  swap.file w.stage = some swap.encode ∧ ∃ r, w.inventory.get? path = some r ∧
    r.transcodeStatus = .needsTranscode ∧ r.videoCodec = some swap.original.videoCodec

def Lands (write : Write) : Prop := ∀ e, write ≠ .lost e

-- The file was probed before the swap, and its row is written after the completion.
def Overtaken (swap : Swap) (es : List (CallRecord ScanCall World ScanInput)) : Prop :=
  swap.original.videoCodec = "h264" ∧ swap.targetCodec ≠ "h264" ∧ ∃ e ∈ es, ∃ e' ∈ es,
    e.op = .probe ∧ e.pre.stage = .encoding ∧ (∃ u, e'.op = .upsert u) ∧
      e'.pre.stage = .complete ∧ Lands e'.input.write

variable {swap : Swap} {onS3 : String → Bool} {path : Chars} {inv : Inventory} {w : World}

theorem initialStatus_needsTranscode {c : String} :
    (initialStatus (some c)).1 = .needsTranscode ↔ c = "h264" := by
  unfold initialStatus
  split <;> simp_all

theorem Completed.not_undone (h : Completed swap path w.inventory) : ¬ Undone swap path w := by
  obtain ⟨r, hget, hstatus, -⟩ := h
  rintro ⟨-, r', hget', hneeds, -⟩
  cases hget.symm.trans hget'
  rw [hstatus] at hneeds
  cases hneeds

-- An upsert with another codec reopens the row; one with the target's codec leaves it.
theorem Completed.onto {u : Upsert} {codec : String} (h : Completed swap path inv)
    (hcodec : u.videoCodec = some codec) (now : Instant) :
    ∃ r, inv.get? path = some r ∧ (u.onto now r).videoCodec = some codec ∧
      ((u.onto now r).transcodeStatus = .needsTranscode ↔
        codec ≠ swap.targetCodec ∧ codec = "h264") := by
  obtain ⟨r, hget, hstatus, htarget⟩ := h
  refine ⟨r, hget, hcodec, ?_⟩
  by_cases hsame : codec = swap.targetCodec
  · have hkept : (u.onto now r).transcodeStatus = .complete := by
      simp [Upsert.onto, hcodec, htarget, hsame, hstatus]
    rw [hkept]
    simp [hsame]
  · have hjudged : (u.onto now r).transcodeStatus = (initialStatus (some codec)).1 := by
      simp [Upsert.onto, hcodec, htarget, hsame]
    rw [hjudged, initialStatus_needsTranscode]
    simp [hsame]

theorem store_lost (inv : Inventory) (u : Upsert) (id : String) (now : Instant) {write : Write}
    (h : ¬ Lands write) : (store inv u id now write).1 = inv := by
  unfold Lands at h
  push Not at h
  obtain ⟨e, rfl⟩ := h
  unfold store
  split <;> rfl

theorem store_lands {u : Upsert} {r : MediaFile} (hpath : u.filePath = path)
    (hget : inv.get? path = some r) (id : String) (now : Instant) {write : Write}
    (h : Lands write) : (store inv u id now write).1.get? path = some (u.onto now r) := by
  obtain ⟨after, hupsert, hafter⟩ := Inventory.upsert_known id now hpath hget
  unfold store
  rw [hupsert]
  cases write with
  | done => exact hafter
  | lost e => exact absurd rfl (h e)
  | unsure e => exact hafter

theorem overtaken_iff {e₁ e₂ : CallRecord ScanCall World ScanInput} {i₃ i₄ : ScanInput}
    {u : Upsert} {w₁ w₂ w' : World} (h₁ : e₁.op = .lookup) (h₂ : e₂.op = .stat) :
    Overtaken swap [e₁, e₂, ⟨.probe, i₃, w₁, w₁⟩, ⟨.upsert u, i₄, w₂, w'⟩] ↔
      swap.original.videoCodec = "h264" ∧ swap.targetCodec ≠ "h264" ∧ w₁.stage = .encoding ∧
        w₂.stage = .complete ∧ Lands i₄.write := by
  simp [Overtaken, h₁, h₂]

-- What an upsert that lands after the completion makes of the row.
theorem late_upsert {libraryId : String} {f : Found libraryId} {stat : Stat} {probe : ProbeResult}
    {i : ScanInput} {w₁ : World} (hpath : (f.upsert stat probe).filePath = path)
    (hcodec : (f.upsert stat probe).videoCodec = some probe.videoCodec)
    (hfile : swap.file w₁.stage = some probe) (hcompleted : Completed swap path w.inventory)
    (hstage : w.stage = .complete) (hlands : Lands i.write) :
    Undone swap path { w with
        inventory := (store w.inventory (f.upsert stat probe) i.fileId i.now i.write).1 } ↔
      swap.original.videoCodec = "h264" ∧ swap.targetCodec ≠ "h264" ∧ w₁.stage = .encoding := by
  obtain ⟨r, hget, hafter, hneeds⟩ := hcompleted.onto hcodec i.now
  have hrow := store_lands hpath hget i.fileId i.now hlands
  have hundone : Undone swap path { w with
        inventory := (store w.inventory (f.upsert stat probe) i.fileId i.now i.write).1 } ↔
      (probe.videoCodec ≠ swap.targetCodec ∧ probe.videoCodec = "h264") ∧
        probe.videoCodec = swap.original.videoCodec := by
    simp [Undone, hrow, hafter, hneeds, hstage, Swap.file]
  rw [hundone]
  cases hbefore : w₁.stage with
  | encoding =>
    rw [hbefore] at hfile
    cases hfile
    constructor
    · rintro ⟨⟨hother, hold⟩, -⟩
      exact ⟨hold, fun htarget => hother (hold.trans htarget.symm), rfl⟩
    · rintro ⟨hold, hother, -⟩
      exact ⟨⟨fun hsame => hother (hsame.symm.trans hold), hold⟩, rfl⟩
  | displaced =>
    rw [hbefore] at hfile
    cases hfile
  | swapped =>
    rw [hbefore] at hfile
    cases hfile
    simp [swap.confirmed]
  | complete =>
    rw [hbefore] at hfile
    cases hfile
    simp [swap.confirmed]

theorem Sound.upsert {u : Upsert} {i : ScanInput}
    (h : Sound swap onS3 path w) (hpath : u.filePath = path)
    (hearly : ¬ (w.stage = .complete ∧ Lands i.write)) :
    Sound swap onS3 path
      { w with inventory := (store w.inventory u i.fileId i.now i.write).1 } := by
  by_cases hlands : Lands i.write
  · have hstage : w.stage ≠ .complete := fun hstage => hearly ⟨hstage, hlands⟩
    obtain ⟨r, hget, hjob, hlibrary⟩ := h.2 hstage
    exact ⟨fun hcomplete => absurd hcomplete hstage,
      fun _ => ⟨_, store_lands hpath hget i.fileId i.now hlands, hjob, hlibrary⟩⟩
  · rw [store_lost _ _ _ _ hlands]
    exact h

theorem scan_keeps_completion_iff {swap : Swap} {onS3 : String → Bool} {t : CharTables}
    {libraryId mediaType : String} {f : Entry} {inv : Inventory}
    {es : List (CallRecord ScanCall World ScanInput)} {q : Scanning Examined} {w w' : World}
    (hlinked : Linked swap onS3 f.path inv)
    (hscan : Exec (scanning swap f.path) () (Advances swap onS3)
      (scanFile (f.found t libraryId mediaType)) ⟨inv, .encoding⟩ es q w)
    (hdone : q.outcome.isSome) (hrest : Advances swap onS3 w w') (hend : w'.stage = .complete) :
    ¬ Undone swap f.path w' ↔ ¬ Overtaken swap es := by
  have hsound : Sound swap onS3 f.path ⟨inv, .encoding⟩ := ⟨nofun, fun _ => hlinked⟩
  rcases scanFile_cases hscan hdone with ⟨hquiet, hwrites⟩ | hupserted
  · have hkept := ((hsound.advances hquiet).advances hrest).1 hend
    refine iff_of_true hkept.not_undone ?_
    rintro ⟨-, -, e, -, e', he', -, -, ⟨u, hu⟩, -⟩
    exact hwrites e' he' u hu
  · obtain ⟨e₁, e₂, i₃, i₄, stat, probe, w₁, w₂, rfl, h₁, h₂, hfile, hr₁, hr₂, rfl⟩ := hupserted
    have hsound₂ := (hsound.advances hr₁).advances hr₂
    rw [overtaken_iff h₁ h₂]
    by_cases hlate : w₂.stage = .complete ∧ Lands i₄.write
    · obtain ⟨hstage, hlands⟩ := hlate
      rw [advances_complete hrest hstage]
      refine not_congr ((late_upsert rfl rfl hfile (hsound₂.1 hstage) hstage hlands).trans ?_)
      simp [hstage, hlands]
    · have hkept := ((hsound₂.upsert rfl hlate).advances hrest).1 hend
      refine iff_of_true hkept.not_undone ?_
      rintro ⟨-, -, -, hboth⟩
      exact hlate hboth

end Overtaking

section Sample

def sampleSwap : Swap where
  jobId := "j"
  targetCodec := "hevc"
  targetHeight := none
  original := ⟨"h264", 1920, 1080, none, 60, 700⟩
  encode := ⟨"hevc", 1920, 1080, none, 60, 300⟩
  confirmed := rfl

def sampleEntry : Entry where
  dir := ['/']
  name := ['a']
  isFile := true
  isSymlink := false
  stat := .ok ⟨"2", 700⟩
  probe := .ok sampleSwap.original
  fileId := "g"
  now := 1

-- The file was touched after the scan that found it.
def sampleInventory : Inventory where
  files := Table.empty.insert { queuedFile with
    filePath := ['/', 'a']
    fileSize := some 700
    fileModifiedAt := some "1" }
  ids := by decide

def beforeSwap : World := ⟨sampleInventory, .encoding⟩

def afterReport : World := ⟨sampleSwap.completed (fun _ => false) sampleInventory 2, .complete⟩

theorem sample_advances : Advances sampleSwap (fun _ => false) beforeSwap afterReport :=
  ((Relation.ReflTransGen.single (.displace _)).tail (.place _)).tail (.report _ 2)

def sampleUpsert : Upsert :=
  (sampleEntry.found asciiTables "l" "movies").upsert ⟨"2", 700⟩ sampleSwap.original

def overwritten : World :=
  { afterReport with inventory := (store afterReport.inventory sampleUpsert "g" 3 .done).1 }

def overtakingCalls : List (CallRecord ScanCall World ScanInput) :=
  [⟨.lookup, {}, beforeSwap, beforeSwap⟩, ⟨.stat, { mtime := "2" }, beforeSwap, beforeSwap⟩,
    ⟨.probe, {}, beforeSwap, beforeSwap⟩,
    ⟨.upsert sampleUpsert, { fileId := "g", now := 3 }, afterReport, overwritten⟩]

abbrev SampleScan (es : List (CallRecord ScanCall World ScanInput)) (q : Scanning Examined)
    (w : World) : Prop :=
  Exec (scanning sampleSwap sampleEntry.path) () (Advances sampleSwap fun _ => false)
    (scanFile (sampleEntry.found asciiTables "l" "movies")) beforeSwap es q w

theorem overtaking_scan : SampleScan overtakingCalls (.ret .updated) overwritten := by
  have hstart : SampleScan [] (scanFile (sampleEntry.found asciiTables "l" "movies")) beforeSwap :=
    .refl _ _
  have hlookup := Exec.call {} hstart Relation.ReflTransGen.refl rfl
  have hstat := Exec.call { mtime := "2" } hlookup Relation.ReflTransGen.refl rfl
  have hprobe := Exec.call {} hstat Relation.ReflTransGen.refl rfl
  exact Exec.call { fileId := "g", now := 3 } hprobe sample_advances rfl

theorem sample_linked :
    Linked sampleSwap (fun _ => false) sampleEntry.path sampleInventory :=
  ⟨_, rfl, rfl, rfl⟩

theorem scan_keeps_completion_iff_overtaking : Undone sampleSwap sampleEntry.path overwritten := by
  by_contra h
  have hkept := (scan_keeps_completion_iff sample_linked overtaking_scan rfl .refl rfl).mp h
  exact hkept ((overtaken_iff rfl rfl).mpr ⟨rfl, by decide, rfl, rfl, nofun⟩)

theorem not_scan_keeps_completion :
    ¬∀ (swap : Swap) (onS3 : String → Bool) (t : CharTables) (libraryId mediaType : String)
      (f : Entry) (inv : Inventory) (es : List (CallRecord ScanCall World ScanInput))
      (q : Scanning Examined) (w w' : World), Linked swap onS3 f.path inv →
      Exec (scanning swap f.path) () (Advances swap onS3) (scanFile (f.found t libraryId mediaType))
        ⟨inv, .encoding⟩ es q w → q.outcome.isSome → Advances swap onS3 w w' →
      w'.stage = .complete → ¬ Undone swap f.path w' := by
  intro h
  exact h _ _ _ _ _ _ _ _ _ _ _ sample_linked overtaking_scan rfl .refl rfl
    ⟨rfl, _, rfl, rfl, rfl⟩

end Sample

end TranscodeForge.Scanner
