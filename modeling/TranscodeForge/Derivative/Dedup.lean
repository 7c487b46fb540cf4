import TranscodeForge.Derivative.Upload
import TranscodeForge.Relational.Table

namespace TranscodeForge.Derivative

open Text Relational

structure RegisterBody where
  derivativeKey : List Char
  outputSize : Int
  achievedVmaf : Option Rat := none
  resolvedCrf : Option Int := none
  backendUsed : Option String := none
deriving DecidableEq, Repr

-- `registrant` is a history variable.
structure DerivativeRow where
  libraryId : String
  sourceKey : String
  sourcePath : String
  sourceResolution : Option String
  sourceAudioCodec : Option String
  targetResolution : String
  targetAudioCodec : String
  targetCodec : String
  targetVmaf : Option Rat
  achievedVmaf : Option Rat
  backend : String
  crf : Int
  preset : String
  derivativeKey : List Char
  outputSize : Int
  registrant : ClaimedJob
deriving DecidableEq, Repr

structure Registry where
  libraries : List String := []
  derivatives : Table (List Char) DerivativeRow DerivativeRow.derivativeKey := .empty

def noneIfEmpty (text : Option String) : Option String := text.filter (· != "")

def derivativeRow (job : ClaimedJob) (body : RegisterBody) (libraryId : String) :
    DerivativeRow where
  libraryId := libraryId
  sourceKey := job.sourcePath
  sourcePath := job.sourcePath
  sourceResolution := noneIfEmpty job.sourceResolution
  sourceAudioCodec := none
  targetResolution := targetResolutionFor job.targetHeight job.sourceResolution
  targetAudioCodec := "copy"
  targetCodec := job.targetCodec
  targetVmaf := job.targetVmaf
  achievedVmaf := body.achievedVmaf
  backend := orText (body.backendUsed.getD "") "cpu"
  crf := body.resolvedCrf.getD job.qualityValue
  preset := ""
  derivativeKey := body.derivativeKey
  outputSize := body.outputSize
  registrant := job

namespace Registry

variable (r : Registry)

def getLibrary (libraryId : Option String) : Option String :=
  (noneIfEmpty libraryId).filter r.libraries.contains

def lookupByKey (derivativeKey : List Char) : Option DerivativeRow :=
  r.derivatives.get? derivativeKey

-- A key that is taken keeps its row.
def registerDerivative (job : ClaimedJob) (body : RegisterBody) : Except Nat Registry :=
  match r.getLibrary job.libraryId with
  | none => .error 409
  | some libraryId =>
    .ok { r with derivatives := r.derivatives.insert (derivativeRow job body libraryId) }

def createLibrary (libraryId : String) : Registry :=
  { r with libraries := libraryId :: r.libraries }

-- ON DELETE CASCADE.
def deleteLibrary (libraryId : String) : Registry where
  libraries := r.libraries.filter (· != libraryId)
  derivatives := r.derivatives.delete fun row => row.libraryId = libraryId

end Registry

section Runs

variable (blake2b : List Char → List Char)

-- Whatever the requests and their order, a worker sends the keys that it computes.
inductive RegistryRun : Registry → Prop
  | start : RegistryRun {}
  | createLibrary {r : Registry} (libraryId : String) :
      RegistryRun r → RegistryRun (r.createLibrary libraryId)
  | deleteLibrary {r : Registry} (libraryId : String) :
      RegistryRun r → RegistryRun (r.deleteLibrary libraryId)
  | register {r r' : Registry} {scratchDir localOutput : String} (job : ClaimedJob)
      (body : RegisterBody) :
      RegistryRun r → fetch scratchDir job.sourcePath = some localOutput →
      body.derivativeKey = derivativeKeyFor blake2b job localOutput →
      r.registerDerivative job body = .ok r' → RegistryRun r'

-- The check of a job finds the row that another job registered, and the job is marked COMPLETE.
def CompletedBy (job registrant : ClaimedJob) : Prop :=
  ∃ r row, RegistryRun blake2b r ∧
    r.lookupByKey (derivativeKeyFor blake2b job job.sourcePath) = some row ∧
    row.registrant = registrant

end Runs

structure SameRendition (job job' : ClaimedJob) : Prop where
  library : job.libraryId = job'.libraryId
  source : job.sourcePath = job'.sourcePath
  codec : (goalFor job).targetCodec = (goalFor job').targetCodec
  resolution : (goalFor job).targetResolution = (goalFor job').targetResolution
  audio : (goalFor job).targetAudioCodec = (goalFor job').targetAudioCodec
  vmaf : job.targetVmaf = job'.targetVmaf

-- What the key tells of a job: of the VMAF target, six significant digits.
structure SameFields (job job' : ClaimedJob) : Prop where
  source : job.sourcePath = job'.sourcePath
  sourceResolution : (goalFor job).sourceResolution = (goalFor job').sourceResolution
  targetResolution : (goalFor job).targetResolution = (goalFor job').targetResolution
  codec : (goalFor job).targetCodec = (goalFor job').targetCodec
  vmaf : vmafPart job.targetVmaf = vmafPart job'.targetVmaf

-- The catalogue's resolutions read `WxH` and the codecs are names.
structure Plain (job : ClaimedJob) : Prop where
  resolution : '|' ∉ (job.sourceResolution.getD "").toList
  codec : '|' ∉ job.targetCodec.toList

-- A job whose output can be registered at all.
def Registers (job : ClaimedJob) : Prop :=
  noneIfEmpty job.libraryId ≠ none ∧ pathName job.sourcePath ≠ ""

section Fields

variable {blake2b : List Char → List Char} {job job' : ClaimedJob}

theorem subject_eq (goal : Goal) : goal.subject =
    ((((goal.sourcePath.toList ++ '|' :: goal.sourceResolution.toList) ++
      '|' :: goal.sourceAudioCodec.toList) ++ '|' :: goal.targetResolution.toList) ++
      '|' :: goal.targetAudioCodec.toList) ++ '|' :: goal.targetCodec.toList := by
  simp [Goal.subject]

theorem not_mem_toString (n : Int) : '|' ∉ (toString n).toList := by
  have hdigits : ∀ m : Nat, '|' ∉ (Nat.repr m).toList := by
    intro m hmem
    rw [Nat.repr, String.toList_ofList] at hmem
    exact absurd (isDigit_toDigits _ hmem) (by decide)
  cases n with
  | ofNat m => exact hdigits m
  | negSucc m =>
    change '|' ∉ ("-" ++ Nat.repr (m + 1)).toList
    rw [String.toList_append]
    intro hmem
    rcases List.mem_append.mp hmem with hmem | hmem
    · exact absurd hmem (by decide)
    · exact hdigits (m + 1) hmem

theorem Plain.targetResolution (h : Plain job) :
    '|' ∉ (goalFor job).targetResolution.toList := by
  have hresolution := h.resolution
  simp only [goalFor, targetResolutionFor]
  cases job.targetHeight with
  | none => exact hresolution
  | some height =>
    dsimp only
    split
    · exact hresolution
    · rw [String.toList_append]
      intro hmem
      rcases List.mem_append.mp hmem with hmem | hmem
      · exact not_mem_toString height hmem
      · exact absurd hmem (by decide)

theorem Plain.targetCodec (h : Plain job) : '|' ∉ (goalFor job).targetCodec.toList := by
  simp only [goalFor, orText]
  split
  · decide
  · exact h.codec

theorem sameFields_of_hashInput (h : Plain job) (h' : Plain job')
    (heq : (goalFor job).hashInput = (goalFor job').hashInput) : SameFields job job' := by
  obtain ⟨hsubject, hvmaf⟩ := hashInput_inj.mp heq
  rw [subject_eq, subject_eq] at hsubject
  have hcodec := split_last h.targetCodec h'.targetCodec hsubject
  have hcopy : '|' ∉ "copy".toList := by decide
  have hempty : '|' ∉ "".toList := by decide
  have haudio := split_last hcopy hcopy hcodec.1
  have htarget := split_last h.targetResolution h'.targetResolution haudio.1
  have hsourceAudio := split_last hempty hempty htarget.1
  have hsource := split_last h.resolution h'.resolution hsourceAudio.1
  exact ⟨String.toList_inj.mp hsource.1, String.toList_inj.mp hsource.2,
    String.toList_inj.mp htarget.2, String.toList_inj.mp hcodec.2, hvmaf⟩

theorem SameFields.hashInput (h : SameFields job job') :
    (goalFor job).hashInput = (goalFor job').hashInput := by
  have hsource : (goalFor job).sourcePath = (goalFor job').sourcePath := h.source
  have haudio : (goalFor job).sourceAudioCodec = (goalFor job').sourceAudioCodec := rfl
  have htargetAudio : (goalFor job).targetAudioCodec = (goalFor job').targetAudioCodec := rfl
  rw [hashInput_inj]
  refine ⟨?_, h.vmaf⟩
  simp only [Goal.subject, hsource, haudio, htargetAudio, h.sourceResolution, h.targetResolution,
    h.codec]

theorem derivativeKeyFor_fetch {scratchDir localOutput : String}
    (hfetch : fetch scratchDir job.sourcePath = some localOutput) :
    derivativeKeyFor blake2b job localOutput = derivativeKeyFor blake2b job job.sourcePath := by
  rw [derivativeKeyFor, derivativeKeyFor, computeDerivativeKey, computeDerivativeKey,
    extension_fetch hfetch]

theorem derivativeKeyFor_inj (hinjective : Function.Injective blake2b)
    (hhex : ∀ text, '_' ∉ blake2b text) (h : Plain job) (h' : Plain job') :
    derivativeKeyFor blake2b job job.sourcePath = derivativeKeyFor blake2b job' job'.sourcePath ↔
      SameFields job job' := by
  unfold derivativeKeyFor computeDerivativeKey
  constructor
  · intro heq
    have hhash := (split_first (hhex _) (hhex _) heq).1
    exact sameFields_of_hashInput h h' (hinjective hhash)
  · intro hsame
    rw [hsame.hashInput, hsame.codec, hsame.source]

end Fields

section Registered

variable {blake2b : List Char → List Char} {r r' : Registry}

-- A row stands under the key of the job that registered it.
def Described (blake2b : List Char → List Char) (r : Registry) : Prop :=
  ∀ row ∈ r.derivatives, row.derivativeKey =
      derivativeKeyFor blake2b row.registrant row.registrant.sourcePath ∧
    Registers row.registrant

theorem getLibrary_mem {libraryId : Option String} {found : String}
    (h : r.getLibrary libraryId = some found) : noneIfEmpty libraryId = some found := by
  rw [Registry.getLibrary, Option.filter_eq_some_iff] at h
  exact h.1

theorem pathName_of_fetch {scratchDir source localOutput : String}
    (h : fetch scratchDir source = some localOutput) : pathName source ≠ "" := by
  unfold fetch at h
  split at h
  · cases h
  · next hname => exact hname

theorem run_described (h : RegistryRun blake2b r) : Described blake2b r := by
  induction h with
  | start => exact fun row hrow => absurd hrow (Table.not_mem_empty row)
  | createLibrary _ _ ih => exact ih
  | deleteLibrary _ _ ih =>
    intro row hrow
    exact ih row (Table.mem_delete.mp hrow).1
  | @register r r' scratchDir localOutput job body _ hfetch hkey hregister ih =>
    unfold Registry.registerDerivative at hregister
    split at hregister
    · cases hregister
    · next libraryId hlibrary =>
      rw [Except.ok.injEq] at hregister
      subst hregister
      intro row hrow
      cases htaken : r.derivatives.get? body.derivativeKey with
      | some taken =>
        have hsame := Table.insert_of_taken (r := derivativeRow job body libraryId) htaken
        rw [hsame] at hrow
        exact ih row hrow
      | none =>
        rcases (Table.mem_insert_of_free (r := derivativeRow job body libraryId) htaken).mp hrow with
          hrow | rfl
        · exact ih row hrow
        · refine ⟨hkey.trans (derivativeKeyFor_fetch hfetch), ?_, pathName_of_fetch hfetch⟩
          have hfound : noneIfEmpty job.libraryId = some libraryId := getLibrary_mem hlibrary
          exact fun hnone => Option.some_ne_none _ (hfound.symm.trans hnone)

-- One job registers in a fresh registry of its library.
theorem registers_first (blake2b : List Char → List Char) {job : ClaimedJob}
    (h : Registers job) :
    ∃ r row, RegistryRun blake2b r ∧
      r.lookupByKey (derivativeKeyFor blake2b job job.sourcePath) = some row ∧
      row.registrant = job := by
  obtain ⟨hlibrary, hname⟩ := h
  obtain ⟨libraryId, hlibraryId⟩ := Option.ne_none_iff_exists'.mp hlibrary
  have hfetch : fetch "" job.sourcePath = some (joinPath "" (pathName job.sourcePath)) := by
    rw [fetch, if_neg hname]
  let body : RegisterBody :=
    { derivativeKey := derivativeKeyFor blake2b job (joinPath "" (pathName job.sourcePath))
      outputSize := 0 }
  let row := derivativeRow job body libraryId
  let opened : Registry := ({} : Registry).createLibrary libraryId
  have hopened : opened.registerDerivative job body =
      .ok { opened with derivatives := opened.derivatives.insert row } := by
    have hfound : opened.getLibrary job.libraryId = some libraryId := by
      simp [Registry.getLibrary, hlibraryId, opened, Registry.createLibrary]
    rw [Registry.registerDerivative, hfound]
  refine ⟨_, row, (RegistryRun.start.createLibrary libraryId).register job body hfetch rfl hopened,
    ?_, rfl⟩
  have hkey : row.derivativeKey = derivativeKeyFor blake2b job job.sourcePath :=
    derivativeKeyFor_fetch hfetch
  rw [Registry.lookupByKey, Table.get?_insert_of_free rfl, if_pos hkey]

theorem completedBy_iff (hinjective : Function.Injective blake2b)
    (hhex : ∀ text, '_' ∉ blake2b text) {job registrant : ClaimedJob} (h : Plain job)
    (h' : Plain registrant) :
    CompletedBy blake2b job registrant ↔ Registers registrant ∧ SameFields job registrant := by
  constructor
  · rintro ⟨r, row, hrun, hlookup, rfl⟩
    obtain ⟨hkey, hregisters⟩ := run_described hrun row (Table.get?_mem hlookup)
    have hkeys := (Table.get?_key hlookup).symm.trans hkey
    exact ⟨hregisters, (derivativeKeyFor_inj hinjective hhex h h').mp hkeys⟩
  · rintro ⟨hregisters, hsame⟩
    obtain ⟨r, row, hrun, hlookup, hregistrant⟩ := registers_first blake2b hregisters
    have hkeys := (derivativeKeyFor_inj hinjective hhex h h').mpr hsame
    exact ⟨r, row, hrun, hkeys ▸ hlookup, hregistrant⟩

theorem dedup_same_rendition (hinjective : Function.Injective blake2b)
    (hhex : ∀ text, '_' ∉ blake2b text) {job registrant : ClaimedJob} (h : Plain job)
    (h' : Plain registrant) :
    (CompletedBy blake2b job registrant → SameRendition job registrant) ↔
      (Registers registrant → SameFields job registrant →
        job.libraryId = registrant.libraryId ∧ job.targetVmaf = registrant.targetVmaf) := by
  rw [completedBy_iff hinjective hhex h h']
  constructor
  · intro hsound hregisters hsame
    have hrendition := hsound ⟨hregisters, hsame⟩
    exact ⟨hrendition.library, hrendition.vmaf⟩
  · rintro hcond ⟨hregisters, hsame⟩
    obtain ⟨hlibrary, hvmaf⟩ := hcond hregisters hsame
    exact ⟨hlibrary, hsame.source, hsame.codec, hsame.targetResolution, rfl, hvmaf⟩

end Registered

section Sample

def registeredJob : ClaimedJob := { keptJob with libraryId := some "library" }

theorem plain_registeredJob : Plain registeredJob := ⟨by decide +kernel, by decide +kernel⟩

theorem dedup_same_rendition_repeated :
    (CompletedBy sampleBlake2b registeredJob registeredJob →
        SameRendition registeredJob registeredJob) ↔
      (Registers registeredJob → SameFields registeredJob registeredJob →
        registeredJob.libraryId = registeredJob.libraryId ∧
          registeredJob.targetVmaf = registeredJob.targetVmaf) :=
  dedup_same_rendition sampleBlake2b_injective not_mem_sampleBlake2b plain_registeredJob
    plain_registeredJob

def otherLibraryJob : ClaimedJob := { keptJob with libraryId := some "other", s3Bucket := "other" }

-- An object of one name in the bucket of another library.
theorem not_dedup_same_rendition :
    ¬ ∀ (blake2b : List Char → List Char) (job registrant : ClaimedJob),
      Function.Injective blake2b → (∀ text, '_' ∉ blake2b text) → Plain job → Plain registrant →
      CompletedBy blake2b job registrant → SameRendition job registrant := by
  intro h
  have hregisters : Registers registeredJob := ⟨by decide +kernel, by decide +kernel⟩
  have hsame : SameFields otherLibraryJob registeredJob := ⟨rfl, rfl, rfl, rfl, rfl⟩
  have hplain : Plain otherLibraryJob := ⟨by decide +kernel, by decide +kernel⟩
  have hcompleted : CompletedBy sampleBlake2b otherLibraryJob registeredJob :=
    (completedBy_iff sampleBlake2b_injective not_mem_sampleBlake2b hplain plain_registeredJob).mpr
      ⟨hregisters, hsame⟩
  have hrendition := h sampleBlake2b otherLibraryJob registeredJob sampleBlake2b_injective
    not_mem_sampleBlake2b hplain plain_registeredJob hcompleted
  exact absurd hrendition.library (by decide)

end Sample

end TranscodeForge.Derivative
