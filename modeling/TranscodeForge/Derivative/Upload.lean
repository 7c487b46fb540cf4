import TranscodeForge.Derivative.Key

namespace TranscodeForge.Derivative

open Text Filesystem

section Paths

theorem not_mem_splitOn {sep : Char} {text part : List Char} (h : part ∈ text.splitOn sep) :
    sep ∉ part := by
  induction text generalizing part with
  | nil =>
    rw [List.splitOn_nil, List.mem_singleton] at h
    simp [h]
  | cons c rest ih =>
    rw [List.splitOn_cons_eq_if_modifyHead] at h
    split at h
    · rcases List.mem_cons.mp h with rfl | h
      · simp
      · exact ih h
    · next hc =>
      obtain ⟨first, others, hparts⟩ := List.exists_cons_of_ne_nil (List.splitOn_ne_nil sep rest)
      rw [hparts, List.modifyHead_cons] at h
      rw [hparts] at ih
      rcases List.mem_cons.mp h with rfl | h
      · intro hmem
        rcases List.mem_cons.mp hmem with rfl | hmem
        · simp at hc
        · exact ih List.mem_cons_self hmem
      · exact ih (List.mem_cons_of_mem _ h)

theorem mem_components {path part : String} (h : part ∈ components path) :
    part ≠ "" ∧ part ≠ "." ∧ '/' ∉ part.toList := by
  rw [components, List.mem_filter, List.mem_map] at h
  obtain ⟨⟨text, htext, rfl⟩, hproper⟩ := h
  simp only [bne_iff_ne, Bool.and_eq_true] at hproper
  refine ⟨hproper.1, hproper.2, ?_⟩
  rw [String.toList_ofList]
  exact not_mem_splitOn htext

theorem pathName_joinPath {directory name : String} (h : name ≠ "") (hdot : name ≠ ".")
    (hslash : '/' ∉ name.toList) : pathName (joinPath directory name) = name := by
  rw [pathName, joinPath, if_neg h, components]
  have hparts : (directory ++ "/" ++ name).toList = directory.toList ++ '/' :: name.toList := by
    simp
  rw [hparts, List.splitOn_append_cons_self, List.splitOn_eq_singleton hslash]
  simp [h, hdot]

theorem pathName_fetch {scratchDir source localOutput : String}
    (h : fetch scratchDir source = some localOutput) : pathName localOutput = pathName source := by
  unfold fetch at h
  split at h
  · cases h
  · next hname =>
    rw [Option.some.injEq] at h
    subst h
    unfold pathName at hname ⊢
    cases hlast : (components source).getLast? with
    | none => simp [hlast] at hname
    | some name =>
      obtain ⟨hne, hdot, hslash⟩ := mem_components (List.mem_of_getLast? hlast)
      exact pathName_joinPath hne hdot hslash

theorem extension_fetch {scratchDir source localOutput : String}
    (h : fetch scratchDir source = some localOutput) : extension localOutput = extension source := by
  rw [extension, extension, pathName_fetch h]

end Paths

variable {blake2b : List Char → List Char} {job : ClaimedJob}

theorem computeDerivativeKey_inj (hinjective : Function.Injective blake2b) {goal goal' : Goal}
    (hcodec : goal.targetCodec = goal'.targetCodec) (localOutput : String) :
    computeDerivativeKey blake2b goal localOutput = computeDerivativeKey blake2b goal' localOutput ↔
      goal.hashInput = goal'.hashInput := by
  unfold computeDerivativeKey
  rw [hcodec, List.append_left_inj]
  exact hinjective.eq_iff

theorem not_mem_vmafPart (vmaf : Option Rat) : '|' ∉ vmafPart vmaf := by
  cases vmaf with
  | none => simp [vmafPart]
  | some vmaf =>
    intro hmem
    have hgeneral := isGeneral_general vmaf '|' hmem
    exact absurd hgeneral (by decide)

def Goal.subject (goal : Goal) : List Char :=
  goal.sourcePath.toList ++ '|' :: (goal.sourceResolution.toList ++ '|' ::
    (goal.sourceAudioCodec.toList ++ '|' :: (goal.targetResolution.toList ++ '|' ::
      (goal.targetAudioCodec.toList ++ '|' :: goal.targetCodec.toList))))

theorem hashInput_eq (goal : Goal) :
    goal.hashInput = goal.subject ++ '|' :: vmafPart goal.targetVmaf := by
  simp [Goal.hashInput, Goal.subject]

theorem hashInput_inj {goal goal' : Goal} : goal.hashInput = goal'.hashInput ↔
    goal.subject = goal'.subject ∧ vmafPart goal.targetVmaf = vmafPart goal'.targetVmaf := by
  rw [hashInput_eq, hashInput_eq]
  constructor
  · exact split_last (not_mem_vmafPart _) (not_mem_vmafPart _)
  · rintro ⟨hsubject, hvmaf⟩
    rw [hsubject, hvmaf]

-- The two readings of a job differ in the resolution and the VMAF target alone.
theorem hashInput_uploadGoal : (uploadGoal job).hashInput = (goalFor job).hashInput ↔
    (uploadGoal job).targetResolution = (goalFor job).targetResolution ∧
      job.targetVmaf ≠ some 0 := by
  have hsubject : (uploadGoal job).subject = (goalFor job).subject ↔
      (uploadGoal job).targetResolution = (goalFor job).targetResolution := by
    rw [← String.toList_inj]
    simp [Goal.subject, uploadGoal, goalFor, orText]
  have hvmaf : vmafPart (uploadGoal job).targetVmaf = vmafPart (goalFor job).targetVmaf ↔
      job.targetVmaf ≠ some 0 := by
    simp only [uploadGoal, goalFor]
    by_cases hzero : job.targetVmaf = some 0
    · have htext : general 0 = ['0'] := by decide +kernel
      simp [hzero, vmafPart, htext]
    · simp [hzero]
  rw [hashInput_inj, hsubject, hvmaf]

theorem targetResolution_uploadGoal :
    (uploadGoal job).targetResolution = (goalFor job).targetResolution ↔
      ∀ height, job.targetHeight = some height → height ≠ 0 →
        toString height ++ "p" = job.sourceResolution.getD "" := by
  simp only [uploadGoal, goalFor, orText, if_true, targetResolutionFor]
  cases job.targetHeight with
  | none => simp
  | some height =>
    by_cases hzero : height = 0
    · simp [hzero]
    · simp only [hzero, if_false, Option.some.injEq, forall_eq', ne_eq, not_false_eq_true,
        forall_const]
      exact eq_comm

theorem upload_key_registered (hinjective : Function.Injective blake2b) (job : ClaimedJob)
    {scratchDir localOutput : String} (hfetch : fetch scratchDir job.sourcePath = some localOutput) :
    (uploadKey blake2b job localOutput = derivativeKeyFor blake2b job localOutput ∧
        uploadKey blake2b job localOutput = derivativeKeyFor blake2b job job.sourcePath) ↔
      (∀ height, job.targetHeight = some height → height ≠ 0 →
        toString height ++ "p" = job.sourceResolution.getD "") ∧ job.targetVmaf ≠ some 0 := by
  have hcheck : derivativeKeyFor blake2b job job.sourcePath =
      derivativeKeyFor blake2b job localOutput := by
    rw [derivativeKeyFor, derivativeKeyFor, computeDerivativeKey, computeDerivativeKey,
      extension_fetch hfetch]
  have hcodec : (uploadGoal job).targetCodec = (goalFor job).targetCodec := rfl
  rw [hcheck, and_self, uploadKey, derivativeKeyFor,
    computeDerivativeKey_inj hinjective hcodec localOutput, hashInput_uploadGoal,
    targetResolution_uploadGoal]

section Sample

-- A hash that no two texts share, with no underscore in it.
def escaped (text : List Char) : List Char :=
  text.flatMap fun c => if c = '_' then ['x', 'y'] else [c, 'z']

theorem escaped_injective : Function.Injective escaped := by
  intro text text' h
  induction text generalizing text' with
  | nil =>
    cases text' with
    | nil => rfl
    | cons c rest =>
      simp only [escaped, List.flatMap_nil, List.flatMap_cons] at h
      split at h <;> cases h
  | cons c rest ih =>
    cases text' with
    | nil =>
      simp only [escaped, List.flatMap_nil, List.flatMap_cons] at h
      split at h <;> cases h
    | cons c' rest' =>
      simp only [escaped, List.flatMap_cons] at h ih
      split at h <;> split at h
      · next hc hc' =>
        simp only [List.cons_append, List.nil_append, List.cons.injEq, true_and] at h
        rw [hc, hc', ih h]
      · simp at h
      · simp at h
      · simp only [List.cons_append, List.nil_append, List.cons.injEq, true_and] at h
        rw [h.1, ih h.2]

theorem escaped_second (text : List Char) :
    (escaped text)[1]? = none ∨ (escaped text)[1]? = some 'y' ∨ (escaped text)[1]? = some 'z' := by
  cases text with
  | nil => exact .inl rfl
  | cons c rest =>
    simp only [escaped, List.flatMap_cons]
    split
    · exact .inr (.inl rfl)
    · exact .inr (.inr rfl)

theorem not_mem_escaped (text : List Char) : '_' ∉ escaped text := by
  intro hmem
  obtain ⟨c, _, hc⟩ := List.mem_flatMap.mp hmem
  split at hc
  · exact absurd hc (by decide)
  · next hne =>
    rcases List.mem_cons.mp hc with heq | hc
    · exact hne heq.symm
    · exact absurd hc (by decide)

def digests : List (List Char × List Char) :=
  [("movies/film.mkv|1920x1080||1920x1080|copy|hevc|95".toList,
      "689a14a66c31fd05a273eb11d39c996a".toList),
    ("movies/film.mkv|3840x2160||1080p|copy|hevc|95".toList,
      "183b4fde350a03f40a816529d2da6c79".toList),
    ("movies/film.mkv|3840x2160||3840x2160|copy|hevc|95".toList,
      "219004bd565c7a9c2be4d8ded032b03e".toList)]

-- The digests of blake2b on the texts of the samples.
def sampleBlake2b (text : List Char) : List Char :=
  match digests.find? (·.1 = text) with
  | some entry => entry.2
  | none => escaped text

theorem sampleBlake2b_cases (text : List Char) :
    (text, sampleBlake2b text) ∈ digests ∨ sampleBlake2b text = escaped text := by
  unfold sampleBlake2b
  cases h : digests.find? (·.1 = text) with
  | none => exact .inr rfl
  | some entry =>
    have htext : entry.1 = text := by simpa using List.find?_some h
    exact .inl (htext ▸ List.mem_of_find?_eq_some h)

theorem sampleBlake2b_injective : Function.Injective sampleBlake2b := by
  have hdistinct : ∀ p ∈ digests, ∀ p' ∈ digests, p.2 = p'.2 → p.1 = p'.1 := by decide +kernel
  have hhex : ∀ p ∈ digests, p.2[1]? ≠ none ∧ p.2[1]? ≠ some 'y' ∧ p.2[1]? ≠ some 'z' := by
    decide +kernel
  have hapart : ∀ p ∈ digests, ∀ text, p.2 ≠ escaped text := by
    intro p hp text heq
    have hsecond := escaped_second text
    rw [← heq] at hsecond
    obtain ⟨hnone, hy, hz⟩ := hhex p hp
    rcases hsecond with h | h | h
    · exact hnone h
    · exact hy h
    · exact hz h
  intro text text' h
  rcases sampleBlake2b_cases text with hleft | hleft <;>
    rcases sampleBlake2b_cases text' with hright | hright
  · exact hdistinct _ hleft _ hright h
  · exact absurd (h.trans hright) (hapart _ hleft _)
  · exact absurd (h.symm.trans hleft) (hapart _ hright _)
  · exact escaped_injective (hleft.symm.trans (h.trans hright))

theorem not_mem_sampleBlake2b (text : List Char) : '_' ∉ sampleBlake2b text := by
  have hhex : ∀ p ∈ digests, '_' ∉ p.2 := by decide +kernel
  rcases sampleBlake2b_cases text with h | h
  · exact hhex _ h
  · rw [h]
    exact not_mem_escaped text

def keptJob : ClaimedJob where
  id := "job"
  sourcePath := "movies/film.mkv"
  sourceResolution := some "1920x1080"
  targetVmaf := some 95
  backendType := "s3"
  s3Bucket := "bucket"

theorem upload_key_registered_kept :
    (uploadKey sampleBlake2b keptJob "/scratch/film.mkv" =
          derivativeKeyFor sampleBlake2b keptJob "/scratch/film.mkv" ∧
        uploadKey sampleBlake2b keptJob "/scratch/film.mkv" =
          derivativeKeyFor sampleBlake2b keptJob keptJob.sourcePath) ↔
      (∀ height, keptJob.targetHeight = some height → height ≠ 0 →
        toString height ++ "p" = keptJob.sourceResolution.getD "") ∧ keptJob.targetVmaf ≠ some 0 :=
  have hfetch : fetch "/scratch" keptJob.sourcePath = some "/scratch/film.mkv" := by decide +kernel
  upload_key_registered sampleBlake2b_injective keptJob hfetch

def downscaledJob : ClaimedJob :=
  { keptJob with sourceResolution := some "3840x2160", targetHeight := some 1080 }

-- The upload goes under the key of the source resolution.
theorem not_upload_key_registered :
    ¬ ∀ (blake2b : List Char → List Char) (job : ClaimedJob) (scratchDir localOutput : String),
      Function.Injective blake2b → fetch scratchDir job.sourcePath = some localOutput →
      uploadKey blake2b job localOutput = derivativeKeyFor blake2b job localOutput := by
  intro h
  have hkeys := h sampleBlake2b downscaledJob "/scratch" "/scratch/film.mkv"
    sampleBlake2b_injective (by decide +kernel)
  have hdiffer : uploadKey sampleBlake2b downscaledJob "/scratch/film.mkv" ≠
      derivativeKeyFor sampleBlake2b downscaledJob "/scratch/film.mkv" := by decide +kernel
  exact hdiffer hkeys

end Sample

end TranscodeForge.Derivative
