import TranscodeForge.Agent.ProcessJob
import TranscodeForge.Text.Url

namespace TranscodeForge.PathMap

open Text ProcessJob

-- `rstrip("/")`.
def trimmed (dir : Chars) : Chars := (dir.reverse.dropWhile (· == '/')).reverse

-- The path is the directory or lies under it, whatever slashes the directory ends with.
def Covers (dir path : Chars) : Prop := path = trimmed dir ∨ trimmed dir ++ ['/'] <+: path

instance (dir path : Chars) : Decidable (Covers dir path) := inferInstanceAs (Decidable (_ ∨ _))

-- Between what has been read of a path and the rest of it a component ends.
def Seam (read rest : Chars) : Prop := read.getLast? = some '/' ∨ rest = [] ∨ rest.head? = some '/'

instance (read rest : Chars) : Decidable (Seam read rest) := inferInstanceAs (Decidable (_ ∨ _ ∨ _))

section Boundaries

variable {dir path rest : Chars}

theorem trimmed_append (dir : Chars) : ∃ k, dir = trimmed dir ++ List.replicate k '/' := by
  have hslashes : ∀ c ∈ dir.reverse.takeWhile (· == '/'), c = '/' := by
    intro c hc
    simpa using List.mem_takeWhile_imp hc
  have hreplicate := List.eq_replicate_of_mem hslashes
  have hsplit := congrArg List.reverse
    (List.takeWhile_append_dropWhile (p := (· == '/')) (l := dir.reverse))
  rw [List.reverse_append, List.reverse_reverse, hreplicate, List.reverse_replicate] at hsplit
  exact ⟨_, hsplit.symm⟩

theorem getLast?_trimmed (dir : Chars) : (trimmed dir).getLast? ≠ some '/' := by
  intro hlast
  rw [trimmed, List.getLast?_reverse] at hlast
  have hhead := List.head?_dropWhile_not (fun c => c == '/') dir.reverse
  rw [hlast] at hhead
  simp at hhead

theorem trimmed_cases (dir : Chars) :
    trimmed dir = dir ∧ dir.getLast? ≠ some '/' ∨
      dir.getLast? = some '/' ∧ trimmed dir ++ ['/'] <+: dir := by
  obtain ⟨k, hdir⟩ := trimmed_append dir
  cases k with
  | zero =>
    rw [List.replicate_zero, List.append_nil] at hdir
    have hlast := getLast?_trimmed dir
    rw [← hdir] at hlast
    exact .inl ⟨hdir.symm, hlast⟩
  | succ k =>
    refine .inr ⟨?_, ?_⟩
    · rw [hdir, List.replicate_succ', ← List.append_assoc, List.getLast?_append]
      simp
    · exact ⟨List.replicate k '/', by rw [List.append_assoc]; exact hdir.symm⟩

theorem covers_append (dir rest : Chars) : Covers dir (dir ++ rest) ↔ Seam dir rest := by
  rcases trimmed_cases dir with ⟨htrim, hlast⟩ | ⟨hlast, hbegins⟩
  · rw [Covers, Seam, htrim, List.prefix_append_right_inj]
    cases rest with
    | nil => simp
    | cons c rest =>
      simp [hlast, eq_comm]
  · exact iff_of_true (.inr (hbegins.trans (List.prefix_append dir rest))) (.inl hlast)

end Boundaries

-- `path.replace(old, new, 1)`.
def replaceOnce (old new : Chars) : Chars → Chars
  | [] => if old = [] then new else []
  | c :: cs =>
    if old <+: c :: cs then new ++ (c :: cs).drop old.length else c :: replaceOnce old new cs

-- The entry that the loop stops at.
def matching (pathMap : List (String × String)) (path : String) : Option (String × String) :=
  pathMap.find? fun e => e.1.toList.isPrefixOf path.toList

section Matching

variable {pathMap : List (String × String)} {path : String} {e : String × String}

theorem matching_begins (h : matching pathMap path = some e) : e.1.toList <+: path.toList :=
  List.isPrefixOf_iff_prefix.mp (List.find?_some (p := fun e : String × String =>
    e.1.toList.isPrefixOf path.toList) h)

theorem translatePath_none (h : matching pathMap path = none) : translatePath path pathMap = path := by
  induction pathMap with
  | nil => rfl
  | cons e pathMap ih =>
    rw [matching, List.find?_cons] at h
    split at h
    · cases h
    · next hnot =>
      rw [translatePath, if_neg (Bool.eq_false_iff.mp hnot)]
      exact ih h

theorem translatePath_some (h : matching pathMap path = some e) : translatePath path pathMap =
    e.2 ++ String.ofList (path.toList.drop e.1.length) := by
  induction pathMap with
  | nil => cases h
  | cons e' pathMap ih =>
    rw [matching, List.find?_cons] at h
    split at h
    · next hbegins =>
      cases h
      rw [translatePath, if_pos hbegins]
    · next hnot =>
      rw [translatePath, if_neg (Bool.eq_false_iff.mp hnot)]
      exact ih h

theorem replaceOnce_of_begins {old new text : Chars} (h : old <+: text) :
    replaceOnce old new text = new ++ text.drop old.length := by
  cases text with
  | nil =>
    obtain rfl := List.prefix_nil.mp h
    simp [replaceOnce]
  | cons c cs => rw [replaceOnce, if_pos h]

theorem translatePath_replaces (h : matching pathMap path = some e) :
    (translatePath path pathMap).toList = replaceOnce e.1.toList e.2.toList path.toList := by
  rw [translatePath_some h, replaceOnce_of_begins (matching_begins h), String.toList_append,
    String.toList_ofList, String.length_toList]

end Matching

section Mapping

variable (pathMap : List (String × String)) (path : String)

def Covered : Prop := ∃ e ∈ pathMap, Covers e.1.toList path.toList

instance : Decidable (Covered pathMap path) :=
  inferInstanceAs (Decidable (∃ e ∈ pathMap, Covers e.1.toList path.toList))

-- Of the mapped directories that cover the path, none is longer.
def Unsurpassed (e : String × String) : Prop :=
  ∀ e' ∈ pathMap, Covers e'.1.toList path.toList →
    (trimmed e'.1.toList).length ≤ (trimmed e.1.toList).length

instance (e : String × String) : Decidable (Unsurpassed pathMap path e) :=
  inferInstanceAs (Decidable (∀ e' ∈ pathMap, _))

-- A path that is covered is moved from a longest directory that covers it to that one's local
-- root, under which it then lies; no other path is changed.
structure Respects : Prop where
  covered : Covered pathMap path → ∃ e, matching pathMap path = some e ∧
    Covers e.1.toList path.toList ∧ Unsurpassed pathMap path e ∧
    Covers e.2.toList (translatePath path pathMap).toList
  other : ¬ Covered pathMap path → translatePath path pathMap = path

-- What the entry that the loop stops at must be: a component ends where its two sides meet the
-- rest of the path, and it is a longest one; where none covers the path, it maps to itself.
def Aligned (e : String × String) : Prop :=
  let rest := path.toList.drop e.1.length
  (Covered pathMap path →
    Seam e.1.toList rest ∧ Seam e.2.toList rest ∧ Unsurpassed pathMap path e) ∧
  (¬ Covered pathMap path → e.1 = e.2)

def Clear : Prop :=
  match matching pathMap path with
  | none => ¬ Covered pathMap path
  | some e => Aligned pathMap path e

variable {pathMap path} {e : String × String}

theorem covers_matching (h : matching pathMap path = some e) : Covers e.1.toList path.toList ↔
    Seam e.1.toList (path.toList.drop e.1.length) := by
  obtain ⟨rest, hrest⟩ := matching_begins h
  rw [← hrest, ← String.length_toList, List.drop_left]
  exact covers_append _ _

theorem covers_translated (h : matching pathMap path = some e) :
    Covers e.2.toList (translatePath path pathMap).toList ↔
      Seam e.2.toList (path.toList.drop e.1.length) := by
  rw [translatePath_some h, String.toList_append, String.toList_ofList]
  exact covers_append _ _

theorem translatePath_eq_self (h : matching pathMap path = some e) :
    translatePath path pathMap = path ↔ e.1 = e.2 := by
  obtain ⟨rest, hrest⟩ := matching_begins h
  rw [translatePath_some h, ← String.toList_inj, String.toList_append, String.toList_ofList, ← hrest,
    ← String.length_toList, List.drop_left, List.append_left_inj, String.toList_inj, eq_comm]

theorem respects_matching (h : matching pathMap path = some e) :
    Respects pathMap path ↔ Aligned pathMap path e := by
  constructor
  · intro hrespects
    refine ⟨fun hcovered => ?_, fun hnot => (translatePath_eq_self h).mp (hrespects.other hnot)⟩
    obtain ⟨e', he', hcovers, hlongest, hunder⟩ := hrespects.covered hcovered
    obtain rfl : e = e' := Option.some.inj (h.symm.trans he')
    exact ⟨(covers_matching h).mp hcovers, (covers_translated h).mp hunder, hlongest⟩
  · rintro ⟨hcovered, hother⟩
    refine ⟨fun hc => ?_, fun hnot => (translatePath_eq_self h).mpr (hother hnot)⟩
    obtain ⟨hseam, hroot, hlongest⟩ := hcovered hc
    exact ⟨e, h, (covers_matching h).mpr hseam, hlongest, (covers_translated h).mpr hroot⟩

end Mapping

end TranscodeForge.PathMap
