import TranscodeForge.Scratch.Manager

namespace TranscodeForge.Scratch

open Interaction Storage SourcePath Text

section Names

variable {id id' : JobId} {name uuid : String}

-- `release` takes a directory with this name for one of the id.
def Matches (id : JobId) (name : String) : Prop :=
  ¬ ['*', '*'] <:+: (releasePattern id).toList ∧ fnmatch (releasePattern id) name = true

instance : Decidable (Matches id name) := inferInstanceAs (Decidable (_ ∧ _))

theorem JobId.eq_of_toList (h : id.text.toList = id'.text.toList) : id = id' := by
  obtain ⟨text, _⟩ := id
  obtain ⟨text', _⟩ := id'
  obtain rfl : text = text' := String.toList_inj.mp h
  rfl

def JobId.Plain (id : JobId) : Prop := ∀ c ∈ id.text.toList, Fnmatch.isPlain c = true

theorem not_infix_plain (hplain : id.Plain) : ¬ ['*', '*'] <:+: (releasePattern id).toList := by
  rintro ⟨front, back, heq⟩
  have hsuffix : "_*".toList = ['_', '*'] := by decide
  rw [releasePattern, String.toList_append, hsuffix] at heq
  have hstar : '*' ∉ id.text.toList := fun hmem => absurd (hplain _ hmem) (by decide)
  have hcount := congrArg (List.count '*') heq
  simp [List.count_append, List.count_eq_zero_of_not_mem hstar] at hcount
  omega

theorem matches_plain (hplain : id.Plain) :
    Matches id name ↔ id.text.toList ++ ['_'] <+: name.toList := by
  have hfront : ∀ a, Fnmatch.run (Fnmatch.parse id.text.toList) a = true ↔ a = id.text.toList := by
    intro a
    rw [Fnmatch.parse_plain hplain, Fnmatch.run_one]
  rw [Matches, and_iff_right (not_infix_plain hplain), releasePattern, fnmatch_append_star]
  constructor
  · rintro ⟨a, b, hname, ha⟩
    rw [hfront] at ha
    exact ⟨b, by simp [hname, ha]⟩
  · rintro ⟨b, hname⟩
    exact ⟨id.text.toList, b, by simp [← hname], (hfront _).mpr rfl⟩

-- Among plain ids, the one that begins another before an underscore takes the other's directories.
theorem matches_dirName (hplain : id.Plain) (huuid : '_' ∉ uuid.toList) :
    Matches id (dirName id' uuid) ↔ id' = id ∨ id.text.toList ++ ['_'] <+: id'.text.toList := by
  rw [matches_plain hplain]
  have hname : (dirName id' uuid).toList = id'.text.toList ++ '_' :: uuid.toList := by
    simp [dirName]
  rw [hname]
  constructor
  · rintro ⟨rest, hrest⟩
    rw [List.append_assoc, List.singleton_append, List.append_eq_append_iff] at hrest
    rcases hrest with ⟨front, hid, hback⟩ | ⟨front, hid, hback⟩
    · cases front with
      | nil =>
        exact .inl (JobId.eq_of_toList (by rw [hid, List.append_nil]))
      | cons c front =>
        obtain ⟨rfl, -⟩ := List.cons.inj hback
        exact .inr ⟨front, by simp [hid]⟩
    · cases front with
      | nil =>
        exact .inl (JobId.eq_of_toList (by rw [hid, List.append_nil]))
      | cons c front =>
        obtain ⟨rfl, hrest⟩ := List.cons.inj hback
        exact absurd (hrest ▸ List.mem_append_right front List.mem_cons_self) huuid
  · rintro (rfl | ⟨front, hid⟩)
    · exact ⟨uuid.toList, by simp⟩
    · exact ⟨front ++ '_' :: uuid.toList, by simp [← hid]⟩

end Names

section Release

variable {scratchRoot : List String} {t t' : Tree} {id : JobId} {n : Nat}

-- What others do meanwhile below the directories of the scratch root.
def SameDirs (scratchRoot : List String) (t t' : Tree) : Prop :=
  ∀ name, name ≠ ".." → t'.node ⟨scratchRoot, name⟩ = t.node ⟨scratchRoot, name⟩

def Removes (c : Call) (i : Input) : Prop :=
  match c with
  | .scandir | .rmtree _ => i.fault = false
  | _ => True

abbrev removing (scratchRoot : List String) : Contract Call Tree Input where
  rely := SameDirs scratchRoot
  assume c i _ := Removes c i
  guar _ _ _ _ := True

-- The directories that `gone` names are gone, and nothing else is.
def Without (scratchRoot : List String) (gone : String → Prop) [DecidablePred gone] (t t' : Tree) :
    Prop :=
  ∀ name, name ≠ ".." → t'.node ⟨scratchRoot, name⟩ =
    if gone name ∧ t.node ⟨scratchRoot, name⟩ = some .directory then none
    else t.node ⟨scratchRoot, name⟩

theorem SameDirs.without {gone : String → Prop} [DecidablePred gone] (h : SameDirs scratchRoot t t')
    (hgone : ∀ name, ¬ gone name) : Without scratchRoot gone t t' := by
  intro name hname
  rw [if_neg fun hboth => hgone name hboth.1]
  exact h name hname

theorem node_removeTree {dir name : String} {i : Input} (hi : i.fault = false) (hname : name ≠ "..") :
    (removeTree ⟨scratchRoot, dir⟩ i t).1.node ⟨scratchRoot, name⟩ =
      if name = dir ∧ t.node ⟨scratchRoot, name⟩ = some .directory then none
      else t.node ⟨scratchRoot, name⟩ := by
  have hunder : (Path.parts ⟨scratchRoot, dir⟩).isPrefixOf (Path.parts ⟨scratchRoot, name⟩) = true ↔
      name = dir := by
    rw [List.isPrefixOf_iff_prefix, Path.parts, Path.parts, List.prefix_append_right_inj]
    simp [eq_comm]
  unfold removeTree
  split
  · next hnone =>
    by_cases heq : name = dir
    · subst heq
      simp [hnone]
    · simp [heq]
  · next hfile =>
    by_cases heq : name = dir
    · subst heq
      simp [hfile]
    · simp [heq]
  · next hdir =>
    rw [hi, if_neg Bool.false_ne_true, FileTree.rmtree, FileTree.node_prune _ hname]
    by_cases heq : name = dir
    · subst heq
      simp [hunder.mpr rfl, hdir]
    · have houtside := mt hunder.mp heq
      rw [Bool.not_eq_true] at houtside
      simp [heq, houtside]

theorem each_remove_wp (names : List String) :
    (Program.each names (remove scratchRoot)).wp (handler scratchRoot) n (removing scratchRoot)
      (fun _ t' => Without scratchRoot (· ∈ names) t t') t := by
  induction names generalizing t with
  | nil => exact SameDirs.without (fun _ _ => rfl) fun _ => List.not_mem_nil
  | cons dir names ih =>
    intro t₁ hrely _ i hi
    refine ⟨trivial, Program.wp_mono ih fun _ t' hrest name hname => ?_⟩
    have hremoved : ((handler scratchRoot).next n (.rmtree ⟨scratchRoot, dir⟩) i t₁).node
          ⟨scratchRoot, name⟩ =
        if name = dir ∧ t.node ⟨scratchRoot, name⟩ = some .directory then none
        else t.node ⟨scratchRoot, name⟩ := by
      have hnode : ((handler scratchRoot).next n (.rmtree ⟨scratchRoot, dir⟩) i t₁).node
          ⟨scratchRoot, name⟩ = _ := node_removeTree hi hname
      rw [hnode, hrely name hname]
    rw [hrest name hname, hremoved]
    by_cases heq : name = dir
    · subst heq
      by_cases hdir : t.node ⟨scratchRoot, name⟩ = some .directory
      · simp [hdir]
      · simp [hdir]
    · simp [heq]

theorem release_wp (id : JobId) :
    (release scratchRoot id).wp (handler scratchRoot) n (removing scratchRoot)
      (fun _ t' => Without scratchRoot (Matches id) t t') t := by
  unfold release glob
  split
  · next hstars => exact SameDirs.without (fun _ _ => rfl) fun name hmatch => hmatch.1 hstars
  · next hstars =>
    intro t₁ hrely _ i hi
    refine ⟨trivial, ?_⟩
    have hi : i.fault = false := hi
    have hanswer : (handler scratchRoot).answer n .scandir i t₁ = t₁.children scratchRoot := by
      change (if i.fault then [] else t₁.children scratchRoot) = _
      rw [hi, if_neg Bool.false_ne_true]
    rw [hanswer]
    refine Program.wp_mono (each_remove_wp (t := t₁) _) fun _ t' hrest name hname => ?_
    rw [hrest name hname, hrely name hname]
    by_cases hdir : t.node ⟨scratchRoot, name⟩ = some .directory
    · have hlisted : name ∈ t₁.children scratchRoot := by
        rw [FileTree.mem_children hname, hrely name hname, hdir]
        rfl
      simp [hdir, hlisted, Matches, hstars]
    · simp [hdir]

-- What a release that comes to its end has deleted.
theorem release_deletes {es : List (CallRecord Call Tree Input)} {p : Manager Unit}
    (h : Exec (handler scratchRoot) n (SameDirs scratchRoot) (release scratchRoot id) t es p t')
    (hend : p.outcome.isSome) (hremoves : ∀ e ∈ es, Removes e.op e.input) :
    Without scratchRoot (Matches id) t t' := by
  obtain ⟨o, ho⟩ := Option.isSome_iff_exists.mp hend
  exact Exec.outcome_post (C := removing scratchRoot) h (release_wp id) hremoves ho

end Release

end TranscodeForge.Scratch
