import TranscodeForge.Worker.Streams
import Mathlib.Data.List.Dedup
import Mathlib.Data.List.NodupEquivFin

namespace TranscodeForge.StreamMap

open Streams

def selectorMaps : List String :=
  ["-map", "0:V:0", "-map", "0:a?", "-map", "0:s?", "-map", "0:t?"]

def mapArgs : Option StreamPlan → List String
  | none => selectorMaps
  | some plan => plan.inOrder.flatMap fun p => ["-map", "0:" ++ toString p.sourceIndex]

def IsPrimary (source : List StreamInfo) (s : StreamInfo) : Prop :=
  some s.index = primaryVideoIndex source

instance (source : List StreamInfo) (s : StreamInfo) : Decidable (IsPrimary source s) :=
  inferInstanceAs (Decidable (some s.index = primaryVideoIndex source))

def promised (source : List StreamInfo) (targetCodec : String) (s : StreamInfo) : InventoryKey :=
  { codecType := s.codecType
    codecName := if IsPrimary source s then targetCodec else s.codecName
    language := s.language
    attachedPic := s.attachedPic
    forced := s.forced }

-- The source streams which the plan does not name as dropped, by position.
def Planned (source : List StreamInfo) (plan : StreamPlan) : Type :=
  { i : Fin source.length //
    (source.get i).index ∉ plan.dropped.map DroppedStream.sourceIndex }

def Planned.stream {source : List StreamInfo} {plan : StreamPlan} (i : Planned source plan) :
    StreamInfo := source.get i.val

def Precedes (source : List StreamInfo) (i j : Fin source.length) : Prop :=
  (IsPrimary source (source.get i) ∧ i ≠ j) ∨ (¬ IsPrimary source (source.get j) ∧ i < j)

structure Placement (source : List StreamInfo) (plan : StreamPlan) (targetCodec : String)
    (produced : List StreamInfo) where
  place : Planned source plan → Fin produced.length
  injective : Function.Injective place
  key_eq : ∀ i, (produced.get (place i)).key = promised source targetCodec i.stream
  ordered : ∀ i j, Precedes source i.val j.val → place i < place j

def Listed (source : List StreamInfo) (dropSubStreams : List Int) (s : StreamInfo) : Prop :=
  ∃ n : Nat, (n : Int) ∈ dropSubStreams ∧
    (source.filter fun s => s.codecType == "subtitle")[n]? = some s

def Excused (source : List StreamInfo) (dropSubStreams : List Int) (s : StreamInfo)
    (reason : String) : Prop :=
  (reason = dropDataStream ∧ s.codecType = "data") ∨
    (reason = dropUnknownStream ∧ s.codecType ∉ carriedTypes) ∨
    (reason = dropUnmuxableSubtitle ∧ s.codecType = "subtitle" ∧ Listed source dropSubStreams s)

variable {source : List StreamInfo} {targetCodec : String} {dropSubStreams : List Int}

theorem eq_of_index (hnodup : (source.map StreamInfo.index).Nodup) {s s' : StreamInfo}
    (hs : s ∈ source) (hs' : s' ∈ source) (h : s.index = s'.index) : s = s' :=
  List.inj_on_of_nodup_map hnodup hs hs' h

theorem mem_unmuxable {k : Nat} (h : k ∈ unmuxable source dropSubStreams) :
    ∃ s ∈ source, s.index = k ∧ s.codecType = "subtitle" ∧ Listed source dropSubStreams s := by
  simp only [unmuxable, List.mem_filterMap] at h
  obtain ⟨n, hn, hk⟩ := h
  split at hk
  · next hnonneg =>
    obtain ⟨s, hs, rfl⟩ := Option.map_eq_some_iff.mp hk
    have hmem := List.mem_filter.mp (List.mem_of_getElem? hs)
    refine ⟨s, hmem.1, rfl, by simpa using hmem.2, n.toNat, ?_, hs⟩
    rwa [Int.toNat_of_nonneg hnonneg]
  · cases hk

theorem omission_excused (hnodup : (source.map StreamInfo.index).Nodup) {s : StreamInfo}
    (hs : s ∈ source) {reason : String}
    (h : omission (unmuxable source dropSubStreams) s = some reason) :
    Excused source dropSubStreams s reason := by
  unfold omission at h
  split at h
  · next hlisted =>
    obtain ⟨s', hs', hindex, hsubtitle, hplace⟩ := mem_unmuxable hlisted
    obtain rfl := eq_of_index hnodup hs' hs hindex
    exact .inr (.inr ⟨(Option.some.inj h).symm, hsubtitle, hplace⟩)
  · split at h
    · next hdata => exact .inl ⟨(Option.some.inj h).symm, hdata⟩
    · split at h
      · next hunknown => exact .inr (.inl ⟨(Option.some.inj h).symm, hunknown⟩)
      · cases h

theorem dropped_excused (hnodup : (source.map StreamInfo.index).Nodup) {d : DroppedStream}
    (hd : d ∈ (planStreams source targetCodec dropSubStreams).dropped) :
    ∃ s ∈ source, s.index = d.sourceIndex ∧ Excused source dropSubStreams s d.reason := by
  simp only [planStreams, List.mem_filterMap] at hd
  obtain ⟨s, hs, hd⟩ := hd
  split at hd
  · cases hd
  · obtain ⟨reason, hreason, rfl⟩ := Option.map_eq_some_iff.mp hd
    exact ⟨s, hs, rfl, omission_excused hnodup hs hreason⟩

theorem mem_dropped {s : StreamInfo} (hs : s ∈ source) (hprimary : ¬ IsPrimary source s)
    {reason : String} (h : omission (unmuxable source dropSubStreams) s = some reason) :
    s.index ∈ (planStreams source targetCodec dropSubStreams).dropped.map
      DroppedStream.sourceIndex := by
  refine List.mem_map.mpr ⟨⟨s.index, reason⟩, List.mem_filterMap.mpr ⟨s, hs, ?_⟩, rfl⟩
  simp only [IsPrimary] at hprimary
  rw [if_neg hprimary, h]
  rfl

theorem mem_carried (hnodup : (source.map StreamInfo.index).Nodup) {s : StreamInfo}
    (hs : s ∈ source)
    (hkept : s.index ∉ (planStreams source targetCodec dropSubStreams).dropped.map
      DroppedStream.sourceIndex) : s ∈ carried source dropSubStreams := by
  unfold carried
  by_cases hprimary : IsPrimary source s
  · refine List.mem_append_left _ (Option.mem_toList.mpr ?_)
    have hfound : (source.find? fun s => some s.index == primaryVideoIndex source).isSome := by
      rw [List.find?_isSome]
      exact ⟨s, hs, beq_iff_eq.mpr hprimary⟩
    obtain ⟨s', hfind⟩ := Option.isSome_iff_exists.mp hfound
    have hindex : some s'.index = primaryVideoIndex source := by
      simpa using List.find?_some hfind
    have hsame : s'.index = s.index := Option.some.inj (hindex.trans hprimary.symm)
    rw [← eq_of_index hnodup (List.mem_of_find?_eq_some hfind) hs hsame]
    exact hfind
  · refine List.mem_append_right _ (List.mem_filter.mpr ⟨hs, ?_⟩)
    cases homission : omission (unmuxable source dropSubStreams) s with
    | none =>
      simp only [IsPrimary] at hprimary
      simpa using hprimary
    | some reason => exact absurd (mem_dropped hs hprimary homission) hkept

theorem inOrder_eq : (planStreams source targetCodec dropSubStreams).inOrder =
    (planStreams source targetCodec dropSubStreams).kept := by
  have hsorted : (planStreams source targetCodec dropSubStreams).kept.Pairwise
      fun p q => p.ordinal ≤ q.ordinal := by
    refine List.pairwise_iff_getElem.mpr fun i j hi hj hij => ?_
    simpa [planStreams] using hij.le
  rw [StreamPlan.inOrder, hsorted.insertionSort_eq]

theorem inOrder_keys : (planStreams source targetCodec dropSubStreams).inOrder.map
    PlannedStream.key = (carried source dropSubStreams).map (promised source targetCodec) := by
  rw [inOrder_eq]
  refine List.ext_getElem (by simp [planStreams]) fun i hi hi' => ?_
  simp only [planStreams, PlannedStream.key, promised, IsPrimary, List.getElem_map,
    List.getElem_mapIdx]
  rfl

-- Position in the source is position in the plan, but for the primary stream.
theorem carried_ordered (hnodup : (source.map StreamInfo.index).Nodup) :
    (carried source dropSubStreams).Pairwise fun s s' =>
      ¬ IsPrimary source s' ∧ (IsPrimary source s ∨ source.idxOf s < source.idxOf s') := by
  have hdistinct : source.Nodup := hnodup.of_map _
  have hsource : source.Pairwise fun s s' => source.idxOf s < source.idxOf s' := by
    refine List.pairwise_iff_getElem.mpr fun i j hi hj hij => ?_
    rwa [hdistinct.idxOf_getElem i hi, hdistinct.idxOf_getElem j hj]
  unfold carried
  refine List.pairwise_append.mpr ⟨?_, ?_, ?_⟩
  · cases source.find? fun s => some s.index == primaryVideoIndex source <;> simp
  · have hrest : ∀ s ∈ source.filter fun s => some s.index != primaryVideoIndex source &&
        (omission (unmuxable source dropSubStreams) s).isNone, ¬ IsPrimary source s := by
      intro s hs
      have hs := (List.mem_filter.mp hs).2
      simp only [Bool.and_eq_true, bne_iff_ne] at hs
      exact hs.1
    refine (hsource.filter _).imp_of_mem fun {s s'} _ hs' hlt => ⟨hrest s' hs', .inr hlt⟩
  · intro s hs s' hs'
    have hs := List.find?_some (Option.mem_toList.mp hs)
    have hs' := (List.mem_filter.mp hs').2
    simp only [Bool.and_eq_true, bne_iff_ne] at hs'
    exact ⟨hs'.1, .inl (by simpa [IsPrimary] using hs)⟩

theorem idxOf_carried_lt (hnodup : (source.map StreamInfo.index).Nodup) {i j : Fin source.length}
    (hi : source.get i ∈ carried source dropSubStreams)
    (hj : source.get j ∈ carried source dropSubStreams) (h : Precedes source i j) :
    (carried source dropSubStreams).idxOf (source.get i) <
      (carried source dropSubStreams).idxOf (source.get j) := by
  have hdistinct : source.Nodup := hnodup.of_map _
  have hpos : ∀ k : Fin source.length, source.idxOf (source.get k) = k.val :=
    fun k => hdistinct.idxOf_getElem k.val k.isLt
  have hne : source.get i ≠ source.get j := by
    intro heq
    have hij : i = j := hdistinct.get_inj_iff.mp heq
    rcases h with ⟨_, hne⟩ | ⟨_, hlt⟩
    · exact hne hij
    · exact hlt.ne hij
  rcases Nat.lt_trichotomy ((carried source dropSubStreams).idxOf (source.get i))
    ((carried source dropSubStreams).idxOf (source.get j)) with hlt | heq | hgt
  · exact hlt
  · exact absurd ((List.idxOf_inj hi).mp heq) hne
  · have hback := List.pairwise_iff_getElem.mp (carried_ordered hnodup) _ _
      (List.idxOf_lt_length_of_mem hj) (List.idxOf_lt_length_of_mem hi) hgt
    simp only [List.getElem_idxOf] at hback
    obtain ⟨hnot, hback⟩ := hback
    rcases h with ⟨hprimary, _⟩ | ⟨hother, hlt⟩
    · exact absurd hprimary hnot
    · rcases hback with hprimary | hback
      · exact absurd hprimary hother
      · rw [hpos, hpos] at hback
        exact absurd hlt (by omega)

theorem placement_of_covered (hnodup : (source.map StreamInfo.index).Nodup)
    {produced : List StreamInfo}
    (h : checkStreamInventory (planStreams source targetCodec dropSubStreams) produced = .covered) :
    Nonempty (Placement source (planStreams source targetCodec dropSubStreams) targetCodec
      produced) := by
  rw [checkStreamInventory_covered_iff, inOrder_keys,
    List.sublist_iff_exists_orderEmbedding_getElem?_eq] at h
  obtain ⟨f, hf⟩ := h
  let position (i : Planned source (planStreams source targetCodec dropSubStreams)) : Nat :=
    (carried source dropSubStreams).idxOf i.stream
  have hmem : ∀ i : Planned source (planStreams source targetCodec dropSubStreams),
      i.stream ∈ carried source dropSubStreams :=
    fun i => mem_carried hnodup (List.get_mem _ _) i.property
  have hkey : ∀ i, (produced.map StreamInfo.key)[f (position i)]? =
      some (promised source targetCodec i.stream) := by
    intro i
    rw [← hf, List.getElem?_map, List.getElem?_idxOf (hmem i)]
    rfl
  have hlt : ∀ i, f (position i) < produced.length := by
    intro i
    have := (List.getElem?_eq_some_iff.mp (hkey i)).1
    simpa using this
  refine ⟨⟨fun i => ⟨f (position i), hlt i⟩, ?_, ?_, ?_⟩⟩
  · intro i j hij
    have hpos : position i = position j := f.injective (Fin.mk.inj hij)
    have hstream : source.get i.val = source.get j.val := (List.idxOf_inj (hmem i)).mp hpos
    exact Subtype.ext ((hnodup.of_map _).get_inj_iff.mp hstream)
  · intro i
    have := (List.getElem?_eq_some_iff.mp (hkey i)).2
    simpa using this
  · intro i j hij
    exact f.lt_iff_lt.mpr (idxOf_carried_lt hnodup (hmem i) (hmem j) hij)

section Completeness

theorem toList_find? {α : Type} {q : α → Bool} {l : List α}
    (h : l.Pairwise fun a b => q a = true → q b = false) : (l.find? q).toList = l.filter q := by
  induction l with
  | nil => rfl
  | cons a l ih =>
    obtain ⟨hhead, htail⟩ := List.pairwise_cons.mp h
    cases hq : q a with
    | false => simpa [hq] using ih htail
    | true =>
      have hnone : l.filter q = [] := List.filter_eq_nil_iff.mpr fun b hb => by simp [hhead b hb hq]
      simp [hq, hnone]

theorem primary_unique (hnodup : (source.map StreamInfo.index).Nodup) (k : Option Nat) :
    source.Pairwise fun s s' => (some s.index == k) = true → (some s'.index == k) = false := by
  have hdistinct : source.Pairwise fun s s' => s.index ≠ s'.index := List.pairwise_map.mp hnodup
  refine hdistinct.imp fun {s s'} hne hs => ?_
  rw [← beq_iff_eq.mp hs]
  simpa using hne.symm

theorem find_primary (hnodup : (source.map StreamInfo.index).Nodup) :
    (source.find? fun s => some s.index == primaryVideoIndex source) = primaryVideo source := by
  unfold primaryVideoIndex
  cases hprimary : primaryVideo source with
  | none => simp
  | some p =>
    have hp : p ∈ source := List.mem_of_find?_eq_some hprimary
    have hfound : (source.find? fun s => some s.index == some p.index).isSome := by
      rw [List.find?_isSome]
      exact ⟨p, hp, beq_iff_eq.mpr rfl⟩
    obtain ⟨s, hs⟩ := Option.isSome_iff_exists.mp hfound
    have hindex : s.index = p.index := by simpa using List.find?_some hs
    rw [Option.map_some, hs, eq_of_index hnodup (List.mem_of_find?_eq_some hs) hp hindex]

theorem kept_indexes : (planStreams source targetCodec dropSubStreams).kept.map
    PlannedStream.sourceIndex = (carried source dropSubStreams).map StreamInfo.index := by
  refine List.ext_getElem (by simp [planStreams]) fun i hi hi' => ?_
  simp [planStreams]

theorem kept_ordinals : (planStreams source targetCodec dropSubStreams).kept.map
    PlannedStream.ordinal = List.range (planStreams source targetCodec dropSubStreams).kept.length := by
  refine List.ext_getElem (by simp) fun i hi hi' => ?_
  simp [planStreams]

def omitted (source : List StreamInfo) (dropSubStreams : List Int) : List StreamInfo :=
  source.filter fun s => some s.index != primaryVideoIndex source &&
    (omission (unmuxable source dropSubStreams) s).isSome

theorem dropped_indexes : (planStreams source targetCodec dropSubStreams).dropped.map
    DroppedStream.sourceIndex = (omitted source dropSubStreams).map StreamInfo.index := by
  simp only [planStreams, omitted]
  generalize primaryVideoIndex source = k
  generalize unmuxable source dropSubStreams = listed
  induction source with
  | nil => rfl
  | cons s source ih =>
    by_cases hprimary : some s.index = k
    · simpa [hprimary] using ih
    · cases homission : omission listed s <;> simpa [hprimary, homission] using ih

-- Every stream is carried or omitted, and none is both.
theorem carried_omitted_perm (hnodup : (source.map StreamInfo.index).Nodup) :
    (carried source dropSubStreams ++ omitted source dropSubStreams).Perm source := by
  let isPrimary (s : StreamInfo) : Bool := some s.index == primaryVideoIndex source
  let isCarried (s : StreamInfo) : Bool := (omission (unmuxable source dropSubStreams) s).isNone
  have hcarried : carried source dropSubStreams = source.filter isPrimary ++
      (source.filter fun s => !isPrimary s).filter isCarried := by
    rw [carried, toList_find? (primary_unique hnodup _), List.filter_filter]
    simp only [isPrimary, isCarried, Bool.and_comm, bne]
  have homitted : omitted source dropSubStreams =
      (source.filter fun s => !isPrimary s).filter fun s => !isCarried s := by
    rw [omitted, List.filter_filter]
    simp only [isPrimary, isCarried, Bool.and_comm, bne, Option.not_isNone]
  rw [hcarried, homitted, List.append_assoc]
  exact ((List.filter_append_perm isCarried _).append_left _).trans
    (List.filter_append_perm isPrimary source)

theorem accounted_perm (hnodup : (source.map StreamInfo.index).Nodup) :
    (planStreams source targetCodec dropSubStreams).accountedIndexes.Perm
      (source.map StreamInfo.index) := by
  rw [StreamPlan.accountedIndexes, kept_indexes, dropped_indexes, ← List.map_append]
  exact (carried_omitted_perm hnodup).map StreamInfo.index

theorem covers_of_perm {plan : StreamPlan} (hnodup : (source.map StreamInfo.index).Nodup)
    (h : plan.accountedIndexes.Perm (source.map StreamInfo.index)) :
    checkPlanCoversSource source plan = .covered := by
  have hmissing : (source.filter fun s => s.index ∉ plan.accountedIndexes) = [] := by
    refine List.filter_eq_nil_iff.mpr fun s hs => ?_
    simpa using h.mem_iff.mpr (List.mem_map_of_mem hs)
  have hconfused : (plan.accountedIndexes.dedup.filter fun i =>
      1 < plan.accountedIndexes.count i || i ∉ source.map StreamInfo.index) = [] := by
    refine List.filter_eq_nil_iff.mpr fun i hi => ?_
    have hmem : i ∈ source.map StreamInfo.index := h.mem_iff.mp (List.mem_dedup.mp hi)
    have honce : plan.accountedIndexes.count i ≤ 1 :=
      List.nodup_iff_count_le_one.mp (h.nodup_iff.mpr hnodup) i
    simp only [Bool.or_eq_true, decide_eq_true_eq, not_or, not_not]
    exact ⟨by omega, hmem⟩
  rw [checkPlanCoversSource]
  simp only [hmissing, hconfused]
  rfl

theorem kept_order (hnodup : (source.map StreamInfo.index).Nodup) :
    ∃ others, (planStreams source targetCodec dropSubStreams).kept.map PlannedStream.sourceIndex =
      (primaryVideoIndex source).toList ++ others ∧ others.Sublist (source.map StreamInfo.index) ∧
      ∀ i ∈ others, some i ≠ primaryVideoIndex source := by
  have hothers : ∀ i ∈ (source.filter fun s => some s.index != primaryVideoIndex source &&
      (omission (unmuxable source dropSubStreams) s).isNone).map StreamInfo.index,
      some i ≠ primaryVideoIndex source := by
    intro i hi
    obtain ⟨s, hs, rfl⟩ := List.mem_map.mp hi
    have hs := (List.mem_filter.mp hs).2
    simp only [Bool.and_eq_true, bne_iff_ne] at hs
    exact hs.1
  refine ⟨_, ?_, List.filter_sublist.map StreamInfo.index, hothers⟩
  rw [kept_indexes, carried, find_primary hnodup, List.map_append]
  congr 1
  rw [primaryVideoIndex]
  cases primaryVideo source <;> rfl

structure Complete (source : List StreamInfo) (plan : StreamPlan) : Prop where
  once : ∀ s ∈ source, plan.accountedIndexes.count s.index = 1
  known : ∀ i ∈ plan.accountedIndexes, ∃ s ∈ source, s.index = i
  ordinals : plan.kept.map PlannedStream.ordinal = List.range plan.kept.length
  order : ∃ others, plan.kept.map PlannedStream.sourceIndex =
    (primaryVideoIndex source).toList ++ others ∧ others.Sublist (source.map StreamInfo.index) ∧
    ∀ i ∈ others, some i ≠ primaryVideoIndex source
  covers : checkPlanCoversSource source plan = .covered
  maps : mapArgs (some plan) = plan.kept.flatMap fun p => ["-map", "0:" ++ toString p.sourceIndex]

theorem planStreams_complete (source : List StreamInfo) (targetCodec : String)
    (dropSubStreams : List Int) (hnodup : (source.map StreamInfo.index).Nodup) :
    Complete source (planStreams source targetCodec dropSubStreams) := by
  have hperm : (planStreams source targetCodec dropSubStreams).accountedIndexes.Perm
      (source.map StreamInfo.index) := accounted_perm hnodup
  refine ⟨fun s hs => ?_, fun i hi => ?_, kept_ordinals, kept_order hnodup,
    covers_of_perm hnodup hperm, ?_⟩
  · rw [hperm.count_eq]
    exact List.count_eq_one_of_mem hnodup (List.mem_map_of_mem hs)
  · exact List.mem_map.mp (hperm.mem_iff.mp hi)
  · rw [mapArgs, inOrder_eq]

def coverArtFirst : List StreamInfo :=
  [⟨0, "video", "mjpeg", "", true, false⟩, ⟨1, "data", "bin_data", "", false, false⟩,
    ⟨4, "video", "h264", "", false, false⟩, ⟨2, "subtitle", "", "eng", false, false⟩,
    ⟨3, "audio", "aac", "eng", false, false⟩]

theorem planStreams_complete_coverArt :
    (planStreams coverArtFirst "hevc" [-1, 0, 0, 7]).kept.map PlannedStream.sourceIndex =
      [4, 0, 3] ∧ Complete coverArtFirst (planStreams coverArtFirst "hevc" [-1, 0, 0, 7]) :=
  ⟨by decide, planStreams_complete coverArtFirst "hevc" [-1, 0, 0, 7] (by decide)⟩

end Completeness

end TranscodeForge.StreamMap
