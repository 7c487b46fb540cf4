import TranscodeForge.Scanner.Scans
import TranscodeForge.Worker.Sidecars

namespace TranscodeForge.SidecarNames

open Storage Filesystem StartupScan

section Markers

variable {m n s t r : List Char} {c d : Char}

theorem prefix_of_not_mem (hc : c ∉ m) (h : m <+: s ++ c :: r) : m <+: s := by
  rcases List.prefix_or_prefix_of_prefix h (List.prefix_append s _) with hshort | ⟨rest, hrest⟩
  · exact hshort
  · rw [← hrest, List.prefix_append_right_inj] at h
    cases rest with
    | nil =>
      rw [← hrest, List.append_nil]
    | cons c' rest =>
      obtain ⟨rfl, -⟩ := List.cons_prefix_cons.mp h
      exact (hc (by simp [← hrest])).elim

theorem occurs_of_not_mem (hc : c ∉ n) (h : c :: m <:+: n ++ t) : c :: m <:+: t := by
  induction n with
  | nil => exact h
  | cons c' n ih =>
    rw [List.cons_append, List.infix_cons_iff] at h
    rcases h with hbegins | hoccurs
    · obtain ⟨rfl, -⟩ := List.cons_prefix_cons.mp hbegins
      exact (hc List.mem_cons_self).elim
    · exact ih (fun hmem => hc (List.mem_cons_of_mem _ hmem)) hoccurs

-- A marker that starts before an inserted one ends before it: each has its first character once.
theorem prefix_before (hm : c ∉ m) (h : c :: m <+: d :: (s ++ c :: r)) : c :: m <+: d :: s := by
  obtain ⟨rfl, hrest⟩ := List.cons_prefix_cons.mp h
  exact List.cons_prefix_cons.mpr ⟨rfl, prefix_of_not_mem hm hrest⟩

-- An inserted marker brings no other marker with it.
theorem not_infix_insert (hm : c ∉ m) (hn : c ∉ n) (hfront : ¬ c :: m <+: c :: n ++ t)
    (h : ¬ c :: m <:+: s ++ t) : ¬ c :: m <:+: s ++ (c :: n) ++ t := by
  induction s with
  | nil =>
    intro hoccurs
    rw [List.nil_append, List.cons_append, List.infix_cons_iff] at hoccurs
    rcases hoccurs with hbegins | hoccurs
    · exact hfront hbegins
    · exact h (occurs_of_not_mem hn hoccurs)
  | cons d s ih =>
    intro hoccurs
    rw [List.cons_append, List.infix_cons_iff, not_or] at h
    rw [List.cons_append, List.cons_append, List.infix_cons_iff] at hoccurs
    rcases hoccurs with hbegins | hoccurs
    · rw [List.append_assoc, List.cons_append] at hbegins
      have hbefore : c :: m <+: d :: s := prefix_before hm hbegins
      exact h.1 (hbefore.trans (List.cons_prefix_cons.mpr ⟨rfl, List.prefix_append s t⟩))
    · exact ih h.2 hoccurs

theorem not_prefix_of_take (k : Nat) (hm : k ≤ m.length) (hn : k ≤ n.length)
    (h : m.take k ≠ n.take k) : ¬ m <+: n ++ t := by
  intro hbegins
  have htake := List.prefix_iff_eq_take.mp (hbegins.take k)
  rw [List.length_take, Nat.min_eq_left hm, List.take_take, Nat.min_self,
    List.take_append_of_le_length hn] at htake
  exact h htake

theorem removeFirst_insert (hm : c ∉ m) (h : ¬ c :: m <:+: s ++ t) :
    removeFirst (c :: m) (s ++ (c :: m) ++ t) = s ++ t := by
  induction s with
  | nil => simp [removeFirst]
  | cons d s ih =>
    rw [List.cons_append, List.infix_cons_iff, not_or] at h
    rw [List.cons_append, List.cons_append, removeFirst, if_neg, ih h.2, List.cons_append]
    intro hbegins
    rw [List.append_assoc, List.cons_append] at hbegins
    have hbefore : c :: m <+: d :: s := prefix_before hm hbegins
    exact h.1 (hbefore.trans (List.cons_prefix_cons.mpr ⟨rfl, List.prefix_append s t⟩))

theorem removeSuffix_append {marker text : List Char} : removeSuffix marker (text ++ marker) = text := by
  simp [removeSuffix]

end Markers

section Names

def tmpSuffix : List Char := ".tf_tmp".toList

-- No marker of the pipeline stands in the name.
def Unmarked (name : String) : Prop := Scanner.isPipelineArtifact name.toList = false

instance (name : String) : Decidable (Unmarked name) := inferInstanceAs (Decidable (_ = _))

variable {name a b : String}

theorem Unmarked.spared (h : Unmarked name) :
    ¬ lockSuffix <:+: name.toList ∧ ¬ tmpSuffix <:+: name.toList ∧ ¬ bakSuffix <:+: name.toList := by
  have hnone := h
  simp only [Unmarked, Scanner.isPipelineArtifact, Scanner.pipelineArtifactMarkers, List.map_cons,
    List.map_nil, List.any_cons, List.any_nil, Bool.or_eq_false_iff, decide_eq_false_iff_not] at hnone
  exact ⟨hnone.1, hnone.2.1, hnone.2.2.1⟩

-- The name in the two parts that a backup and a temporary file put their marker between.
theorem name_parts (name : String) :
    (stemSuffix name).1.toList ++ (stemSuffix name).2.toList = name.toList := by
  rw [← String.toList_append, stemSuffix_append]

theorem lock_toList : (pipelineArtifacts name).lock.toList = name.toList ++ lockSuffix := by
  rw [pipelineArtifacts, String.toList_append]
  rfl

theorem tmp_toList : (pipelineArtifacts name).tmp.toList =
    (stemSuffix name).1.toList ++ tmpSuffix ++ (stemSuffix name).2.toList := by
  rw [pipelineArtifacts, String.toList_append, String.toList_append]
  rfl

theorem bak_toList : (pipelineArtifacts name).bak.toList =
    (stemSuffix name).1.toList ++ bakSuffix ++ (stemSuffix name).2.toList := by
  rw [pipelineArtifacts, String.toList_append, String.toList_append]
  rfl

theorem lock_spared (h : Unmarked name) : ¬ tmpSuffix <:+: (pipelineArtifacts name).lock.toList ∧
    ¬ bakSuffix <:+: (pipelineArtifacts name).lock.toList := by
  obtain ⟨-, htmp, hbak⟩ := h.spared
  rw [← List.append_nil name.toList] at htmp hbak
  rw [lock_toList, ← List.append_nil (name.toList ++ lockSuffix)]
  exact ⟨not_infix_insert (by decide) (by decide) (by decide) htmp,
    not_infix_insert (by decide) (by decide) (by decide) hbak⟩

theorem tmp_spared (h : Unmarked name) : ¬ lockSuffix <:+: (pipelineArtifacts name).tmp.toList ∧
    ¬ bakSuffix <:+: (pipelineArtifacts name).tmp.toList := by
  obtain ⟨hlock, -, hbak⟩ := h.spared
  rw [← name_parts] at hlock hbak
  rw [tmp_toList]
  exact ⟨not_infix_insert (by decide) (by decide) (not_prefix_of_take 5 (by decide) (by decide) (by decide)) hlock,
    not_infix_insert (by decide) (by decide) (not_prefix_of_take 5 (by decide) (by decide) (by decide)) hbak⟩

theorem bak_spared (h : Unmarked name) : ¬ lockSuffix <:+: (pipelineArtifacts name).bak.toList ∧
    ¬ tmpSuffix <:+: (pipelineArtifacts name).bak.toList := by
  obtain ⟨hlock, htmp, -⟩ := h.spared
  rw [← name_parts] at hlock htmp
  rw [bak_toList]
  exact ⟨not_infix_insert (by decide) (by decide) (not_prefix_of_take 5 (by decide) (by decide) (by decide)) hlock,
    not_infix_insert (by decide) (by decide) (not_prefix_of_take 5 (by decide) (by decide) (by decide)) htmp⟩

theorem lock_carries (name : String) : lockSuffix <:+: (pipelineArtifacts name).lock.toList := by
  rw [lock_toList]
  exact (List.suffix_append _ _).isInfix

theorem tmp_carries (name : String) : tmpSuffix <:+: (pipelineArtifacts name).tmp.toList := by
  rw [tmp_toList]
  exact List.infix_append _ _ _

theorem bak_carries (name : String) : bakSuffix <:+: (pipelineArtifacts name).bak.toList := by
  rw [bak_toList]
  exact List.infix_append _ _ _

theorem removeFirst_bak (h : Unmarked name) :
    removeFirst bakSuffix (pipelineArtifacts name).bak.toList = name.toList := by
  have hspared := h.spared.2.2
  rw [← name_parts] at hspared
  rw [bak_toList, ← name_parts name]
  exact removeFirst_insert (by decide) hspared

theorem removeFirst_tmp (h : Unmarked name) :
    removeFirst tmpSuffix (pipelineArtifacts name).tmp.toList = name.toList := by
  have hspared := h.spared.2.1
  rw [← name_parts] at hspared
  rw [tmp_toList, ← name_parts name]
  exact removeFirst_insert (by decide) hspared

theorem removeSuffix_lock (name : String) :
    removeSuffix lockSuffix (pipelineArtifacts name).lock.toList = name.toList := by
  rw [lock_toList, removeSuffix_append]

theorem eq_of_inverse {f : List Char → List Char} {x y : String} (ha : f x.toList = a.toList)
    (hb : f y.toList = b.toList) (h : x = y) : a = b := by
  subst h
  exact String.toList_inj.mp (ha.symm.trans hb)

theorem ne_of_carries {marker : List Char} {x y : String} (hx : marker <:+: x.toList)
    (hy : ¬ marker <:+: y.toList) : x ≠ y := by
  rintro rfl
  exact hy hx

end Names

def sidecarNames (name : String) : List String :=
  [(pipelineArtifacts name).lock, (pipelineArtifacts name).tmp, (pipelineArtifacts name).bak]

theorem isPipelineArtifact_of_carries {name : String} {marker : List Char}
    (hmarker : marker ∈ Scanner.pipelineArtifactMarkers) (h : marker <:+: name.toList) :
    Scanner.isPipelineArtifact name.toList = true :=
  List.any_eq_true.mpr ⟨marker, hmarker, decide_eq_true h⟩

theorem sidecar_recognised {name sidecar : String} (h : sidecar ∈ sidecarNames name) :
    Scanner.isPipelineArtifact sidecar.toList = true := by
  simp only [sidecarNames, List.mem_cons, List.not_mem_nil, or_false] at h
  rcases h with rfl | rfl | rfl
  · exact isPipelineArtifact_of_carries (by decide) (lock_carries name)
  · exact isPipelineArtifact_of_carries (by decide) (tmp_carries name)
  · exact isPipelineArtifact_of_carries (by decide) (bak_carries name)

theorem not_listed {t : Scanner.CharTables} {entries : List Scanner.Entry} {f : Scanner.Entry}
    (h : Scanner.isPipelineArtifact f.name = true) : f ∉ Scanner.listVideoFiles t entries := by
  intro hlisted
  rw [Scanner.listVideoFiles, List.mem_insertionSort, List.mem_filter] at hlisted
  simp [h] at hlisted

theorem Unmarked.ne_sidecar {name other sidecar : String} (h : Unmarked name)
    (hsidecar : sidecar ∈ sidecarNames other) : name ≠ sidecar := by
  rintro rfl
  rw [Unmarked, sidecar_recognised hsidecar] at h
  cases h

theorem kinds_ne {b : String} (a : String) (hb : Unmarked b) :
    (pipelineArtifacts a).lock ≠ (pipelineArtifacts b).tmp ∧
      (pipelineArtifacts a).lock ≠ (pipelineArtifacts b).bak ∧
      (pipelineArtifacts a).tmp ≠ (pipelineArtifacts b).bak :=
  ⟨ne_of_carries (lock_carries a) (tmp_spared hb).1, ne_of_carries (lock_carries a) (bak_spared hb).1,
    ne_of_carries (tmp_carries a) (bak_spared hb).2⟩

theorem sidecarNames_nodup {name : String} (h : Unmarked name) : (sidecarNames name).Nodup := by
  obtain ⟨hlt, hlb, htb⟩ := kinds_ne name h
  simp [sidecarNames, hlt, hlb, htb]

theorem sidecarNames_disjoint {a b : String} (ha : Unmarked a) (hb : Unmarked b) (hne : a ≠ b) :
    ∀ x ∈ sidecarNames a, ∀ y ∈ sidecarNames b, x ≠ y := by
  obtain ⟨hlt, hlb, htb⟩ := kinds_ne a hb
  obtain ⟨hlt', hlb', htb'⟩ := kinds_ne b ha
  have hlock : (pipelineArtifacts a).lock ≠ (pipelineArtifacts b).lock := fun h =>
    hne (eq_of_inverse (removeSuffix_lock a) (removeSuffix_lock b) h)
  have htmp : (pipelineArtifacts a).tmp ≠ (pipelineArtifacts b).tmp := fun h =>
    hne (eq_of_inverse (removeFirst_tmp ha) (removeFirst_tmp hb) h)
  have hbak : (pipelineArtifacts a).bak ≠ (pipelineArtifacts b).bak := fun h =>
    hne (eq_of_inverse (removeFirst_bak ha) (removeFirst_bak hb) h)
  simp only [sidecarNames, List.forall_mem_cons, List.not_mem_nil, false_implies, implies_true,
    and_true]
  exact ⟨⟨hlock, hlt, hlb⟩, ⟨hlt'.symm, htmp, htb⟩, ⟨hlb'.symm, htb'.symm, hbak⟩⟩

theorem names_nodup {a b : String} (ha : Unmarked a) (hb : Unmarked b) (hne : a ≠ b) :
    ([a, b] ++ sidecarNames a ++ sidecarNames b).Nodup := by
  refine List.nodup_append.mpr ⟨List.nodup_append.mpr ⟨by simpa using hne, sidecarNames_nodup ha, ?_⟩,
    sidecarNames_nodup hb, ?_⟩
  · intro x hx y hy
    rcases List.mem_pair.mp hx with rfl | rfl
    · exact ha.ne_sidecar hy
    · exact hb.ne_sidecar hy
  · intro x hx y hy
    rcases List.mem_append.mp hx with hx | hx
    · rcases List.mem_pair.mp hx with rfl | rfl
      · exact ha.ne_sidecar hy
      · exact hb.ne_sidecar hy
    · exact sidecarNames_disjoint ha hb hne x hx y hy

-- Of two unmarked names, all the names there are; the inverses of the scan; and the scanner's test.
theorem sidecars_invertible {a b : String} (ha : Unmarked a) (hb : Unmarked b) (hne : a ≠ b) :
    ([a, b] ++ sidecarNames a ++ sidecarNames b).Nodup ∧
    (∀ dir : List String, original (bakPath ⟨dir, a⟩) = ⟨dir, a⟩) ∧
    removeSuffix lockSuffix (pipelineArtifacts a).lock.toList = a.toList ∧
    ∀ sidecar ∈ sidecarNames a, Scanner.isPipelineArtifact sidecar.toList = true ∧
      ∀ (t : Scanner.CharTables) (entries : List Scanner.Entry) (f : Scanner.Entry),
        f.name = sidecar.toList → f ∉ Scanner.listVideoFiles t entries := by
  refine ⟨?_, fun dir => ?_, removeSuffix_lock a, fun sidecar hsidecar => ?_⟩
  · exact names_nodup ha hb hne
  · rw [original, unmarked, bakPath, removeFirst_bak ha, String.ofList_toList]
  · have hrecognised := sidecar_recognised hsidecar
    exact ⟨hrecognised, fun t entries f hname => not_listed (by rw [hname]; exact hrecognised)⟩

theorem sidecars_invertible_dots :
    (["a.b.mkv", ".mkv"] ++ sidecarNames "a.b.mkv" ++ sidecarNames ".mkv").Nodup ∧
    (∀ dir : List String, original (bakPath ⟨dir, "a.b.mkv"⟩) = ⟨dir, "a.b.mkv"⟩) ∧
    removeSuffix lockSuffix (pipelineArtifacts "a.b.mkv").lock.toList = "a.b.mkv".toList ∧
    ∀ sidecar ∈ sidecarNames "a.b.mkv", Scanner.isPipelineArtifact sidecar.toList = true ∧
      ∀ (t : Scanner.CharTables) (entries : List Scanner.Entry) (f : Scanner.Entry),
        f.name = sidecar.toList → f ∉ Scanner.listVideoFiles t entries :=
  sidecars_invertible (by decide) (by decide) (by decide)

end TranscodeForge.SidecarNames
