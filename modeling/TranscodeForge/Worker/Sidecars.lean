import TranscodeForge.Worker.StartupScan

namespace TranscodeForge.StartupScan

open Interaction Storage SourcePath Filesystem

section Restoring

variable {C : Type} {lockText : C → LockText} {α β : Type} {workerId : String} {staleAfter : Nat}

-- What is left of the scan after it has found a backup.
def Restores (workerId : String) (staleAfter : Nat) : (a : Action) → (a.Answer → Scan α) → Prop
  | .isFile .backups bak, k => Pattern.fits bak.name .backups = true →
      ∃ stats, ∃ f : RecoveryStats → Scan α, k (.ok true) =
        ((withName bak (unmarked bak)).bind fun x =>
          recoverOriginal workerId staleAfter bak x stats).bind f
  | _, _ => True

def Elsewhere : Action → Prop
  | .isFile .backups _ => False
  | _ => True

theorem Looking.elsewhere {a : Action} (h : Looking a) : Elsewhere a := by
  cases a with
  | isFile pattern p =>
    cases pattern with
    | backups => exact h
    | locks => trivial
  | _ => trivial

theorem Elsewhere.restores {a : Action} (h : Elsewhere a) (k : a.Answer → Scan α) :
    Restores workerId staleAfter a k := by
  cases a with
  | isFile pattern p =>
    cases pattern with
    | backups => exact h.elim
    | locks => trivial
  | _ => trivial

theorem Restores.bind {a : Action} {k : a.Answer → Scan α} (h : Restores workerId staleAfter a k)
    (f : α → Scan β) : Restores workerId staleAfter a fun r => (k r).bind f := by
  cases a with
  | isFile pattern bak =>
    cases pattern with
    | backups =>
      intro hfits
      obtain ⟨stats, g, hk⟩ := h hfits
      exact ⟨stats, fun stats => (g stats).bind f, by
        simp only [hk, Program.bind_assoc]⟩
    | locks => trivial
  | _ => trivial

theorem Elsewhere.everywhere {p : Scan α} (hp : p.Calls Elsewhere) :
    p.Everywhere (Restores workerId staleAfter) :=
  hp.everywhere fun _ k h => h.restores k

theorem restores_bind {p : Scan α} {f : α → Scan β}
    (hp : p.Everywhere (Restores workerId staleAfter))
    (hf : ∀ a, (f a).Everywhere (Restores workerId staleAfter)) :
    (p.bind f).Everywhere (Restores workerId staleAfter) :=
  hp.bind hf fun _ _ h => h.bind f

theorem restores_through {γ : Type} {body : γ → RecoveryStats → Scan RecoveryStats} {bs : List γ}
    (h : ∀ b stats, (body b stats).Everywhere (Restores workerId staleAfter))
    (stats : RecoveryStats) : (through body bs stats).Everywhere (Restores workerId staleAfter) := by
  induction bs generalizing stats with
  | nil => trivial
  | cons b bs ih => exact restores_bind (h b stats) ih

theorem withName_elsewhere (p : Path) (name : List Char) : (withName p name).Calls Elsewhere := by
  unfold withName
  split <;> trivial

theorem recoverBackup_restores (bak : Path) (stats : RecoveryStats) :
    (recoverBackup workerId staleAfter bak stats).Everywhere (Restores workerId staleAfter) := by
  have hbody : ((withName bak (unmarked bak)).bind fun x =>
      recoverOriginal workerId staleAfter bak x stats).Calls Elsewhere :=
    (withName_elsewhere ..).bind fun x =>
      recoverOriginal_calls (fun _ => Looking.elsewhere) workerId staleAfter (fun _ _ => trivial)
        trivial stats
  refine ⟨fun hfits => ⟨stats, .ret, ?_⟩, fun present => Elsewhere.everywhere ?_⟩
  · have hret : ∀ p : Scan RecoveryStats, p.bind .ret = p := by
      intro p
      induction p with
      | ret a => rfl
      | raise e => rfl
      | call op k ih => exact congrArg (Program.call op) (funext ih)
    rw [hret]
    simp only [Except.mapError, Program.ofExcept, Program.ret_bind, hfits, Bool.and_self]
    rfl
  · rcases present with e | _ | _
    · trivial
    · trivial
    · cases hfits : Pattern.fits bak.name .backups with
      | false =>
        simp only [Except.mapError, Program.ofExcept, Program.ret_bind]
        trivial
      | true =>
        simp only [Except.mapError, Program.ofExcept, Program.ret_bind]
        exact hbody

theorem recoverUnder_restores (root : List String) (stats : RecoveryStats) :
    (recoverUnder workerId staleAfter root stats).Everywhere (Restores workerId staleAfter) := by
  refine restores_bind (Elsewhere.everywhere ?_) fun present => ?_
  · exact ask_calls ⟨trivial, fun _ => trivial⟩
  split
  · refine restores_bind (Elsewhere.everywhere ?_) fun baks => ?_
    · exact ask_calls ⟨trivial, fun _ => trivial⟩
    refine restores_bind (restores_through recoverBackup_restores stats) fun stats => ?_
    refine restores_bind (Elsewhere.everywhere ?_) fun locks => ?_
    · exact ask_calls ⟨trivial, fun _ => trivial⟩
    exact restores_through (fun lock stats => Elsewhere.everywhere
      (removeStaleLock_calls (fun _ => Looking.elsewhere) workerId staleAfter (fun _ _ => trivial)
        (fun _ _ _ => trivial) stats)) stats
  · trivial

theorem recoverOrphanedBackups_restores (roots : List (List String)) :
    (recoverOrphanedBackups workerId staleAfter roots).Everywhere
      (Restores workerId staleAfter) :=
  restores_through recoverUnder_restores {}

end Restoring

section Marks

theorem removeFirst_perm {marker text : List Char} (hne : marker ≠ []) (h : marker <:+: text) :
    (marker ++ removeFirst marker text).Perm text := by
  induction text with
  | nil =>
    have hnil : marker = [] := List.eq_nil_of_infix_nil h
    exact (hne hnil).elim
  | cons c cs ih =>
    rw [removeFirst]
    split
    · next hprefix =>
      obtain ⟨rest, hrest⟩ := hprefix
      rw [← hrest, List.drop_left]
    · next hprefix =>
      have htail : marker <:+: cs := (List.infix_cons_iff.mp h).resolve_left hprefix
      exact List.perm_middle.trans ((ih htail).cons c)

theorem stemSuffix_append (name : String) : (stemSuffix name).1 ++ (stemSuffix name).2 = name := by
  unfold stemSuffix
  dsimp only
  split
  · exact String.append_empty
  · next hboth =>
    rw [not_or] at hboth
    apply String.toList_inj.mp
    rw [String.toList_append, String.toList_ofList, String.toList_ofList]
    generalize name.toList = text at hboth ⊢
    have hsplit := List.takeWhile_append_dropWhile (p := (· != '.')) (l := text.reverse)
    generalize text.reverse.takeWhile (· != '.') = tail at hboth hsplit ⊢
    cases hrest : text.reverse.dropWhile (· != '.') with
    | nil =>
      rw [hrest, List.append_nil] at hsplit
      have hlen := congrArg List.length hsplit
      rw [List.length_reverse] at hlen
      refine (hboth.2 ?_).elim
      rw [hlen, Nat.sub_eq_zero_of_le (Nat.le_succ _), List.take_zero]
    | cons c rest =>
      have hdot : c = '.' := by
        have hhead := List.head?_dropWhile_not (fun c => c != '.') text.reverse
        rw [hrest] at hhead
        simpa using hhead
      have htext : text = rest.reverse ++ '.' :: tail.reverse := by
        have hreverse := congrArg List.reverse hsplit
        rw [List.reverse_reverse, hrest, hdot] at hreverse
        rw [← hreverse]
        simp
      rw [htext]
      simp

def bs (p : Path) : Nat := p.name.toList.count 'b'

variable {bak : Path}

theorem bs_original (h : Pattern.fits bak.name .backups = true) : bs bak = bs (original bak) + 1 := by
  have hperm := removeFirst_perm (by decide : bakSuffix ≠ []) (of_decide_eq_true h)
  have hcount := hperm.count_eq 'b'
  rw [List.count_append] at hcount
  have hone : bakSuffix.count 'b' = 1 := by decide
  rw [bs, ← hcount, hone, bs, original, String.toList_ofList, unmarked, Nat.add_comm]

theorem bs_lockPath (x : Path) : bs (lockPath x) = bs x := by
  have hnone : ".tf_lock".toList.count 'b' = 0 := by decide
  simp only [bs, lockPath, pipelineArtifacts, String.toList_append, List.count_append, hnone,
    Nat.add_zero]

theorem bs_tmpPath (x : Path) : bs (tmpPath x) = bs x := by
  have hnone : ".tf_tmp".toList.count 'b' = 0 := by decide
  have hjoin := congrArg (fun name => name.toList.count 'b') (stemSuffix_append x.name)
  simp only [String.toList_append, List.count_append] at hjoin
  simp only [bs, tmpPath, pipelineArtifacts, String.toList_append, List.count_append, hnone,
    Nat.add_zero, hjoin]

theorem stranger (h : Pattern.fits bak.name .backups = true) (hbad : ¬Named bak) :
    bak ∉ sidecars (original bak) ∧ bak ≠ original bak := by
  have hb := bs_original h
  constructor
  · intro hmem
    simp only [sidecars, List.mem_cons, List.not_mem_nil, or_false] at hmem
    rcases hmem with hlock | htmp | hbak
    · have heq := bs_lockPath (original bak)
      rw [← hlock] at heq
      omega
    · have heq := bs_tmpPath (original bak)
      rw [← htmp] at heq
      omega
    · exact hbad hbak.symm
  · intro heq
    have hsame := congrArg bs heq
    omega

end Marks

section Breaking

variable {C : Type} {lockText : C → LockText} {workerId : String} {staleAfter : Nat} {bak x : Path}
  {stats : RecoveryStats} {s : ScanState C}

theorem timePasses_refl (s : ScanState C) : TimePasses s s := ⟨rfl, Nat.le_refl _⟩

variable (lockText) in
-- The program can come to a value and leave everything as it is.
def Comes {α : Type} (p : Scan α) (s : ScanState C) (a : α) : Prop :=
  ∃ es, Exec (handler lockText) () TimePasses p s es (.ret a) s

theorem Comes.bind {α β : Type} {p : Scan α} {f : α → Scan β} {a : α} {b : β}
    (hp : Comes lockText p s a) (hf : Comes lockText (f a) s b) : Comes lockText (p.bind f) s b := by
  obtain ⟨es, hp⟩ := hp
  obtain ⟨es', hf⟩ := hf
  exact ⟨es ++ es', hp.bind hf⟩

theorem comes_call {α : Type} {a : Action} {k : a.Answer → Scan α} {b : α} (h : Looking a) (i : Bool)
    (hk : Comes lockText (k ((handler lockText).answer () a i s)) s b) :
    Comes lockText (.call a k) s b := by
  obtain ⟨es, hk⟩ := hk
  have hstill : (handler lockText).next () a i s = s := looking_tree h i s
  have hcall : Exec (handler lockText) () TimePasses (.call a k) s _ _ _ :=
    (Exec.refl _ s).call i (timePasses_refl s) rfl
  rw [hstill] at hcall
  exact ⟨_, hcall.trans hk⟩

theorem comes_ret {α : Type} (a : α) : Comes lockText (.ret a : Scan α) s a := ⟨[], .refl _ _⟩

theorem comes_look (p : Path) :
    Comes lockText (ask (.call (.exists p) .ret)) s (s.tree.present p) :=
  comes_call trivial false (comes_ret _)

-- A lock that cannot be read is no obstacle.
theorem comes_unlocked (lock : Path) :
    Comes lockText (lockedElsewhere lock workerId staleAfter) s false := by
  have hunread : Comes lockText (readLock lock) s none :=
    comes_call (a := .readLock lock) trivial true (comes_ret none)
  refine (comes_look lock).bind ?_
  cases s.tree.present lock with
  | false => exact comes_ret _
  | true => exact hunread.bind (comes_ret _)

theorem comes_unfinished {lock : Path}
    (h : s.tree.present x = true → s.tree.present lock = true) :
    Comes lockText (looksFinished x lock) s false := by
  refine (comes_look x).bind ?_
  cases hpresent : s.tree.present x with
  | false => exact comes_ret _
  | true =>
    refine (comes_look lock).bind ?_
    rw [h hpresent]
    exact comes_ret _

theorem present_iff {t : FileTree C} {p : Path} (h : t.node p ≠ some .directory) :
    t.present p = true ↔ t.isFile p = true := by
  unfold FileTree.present FileTree.isFile
  cases hnode : t.node p with
  | none => simp
  | some node =>
    cases node with
    | file content => simp
    | directory => exact (h hnode).elim

theorem bak_ne_dots (h : Pattern.fits bak.name .backups = true) : bak.name ≠ ".." := by
  intro hname
  rw [hname] at h
  revert h
  decide

theorem replace_breaks {content : C} (hfits : Pattern.fits bak.name .backups = true)
    (hbad : ¬Named bak) (hfile : s.tree.node bak = some (.file content))
    (hdir : s.tree.node (original bak) ≠ some .directory) :
    ¬Own (.replace (original bak) bak (original bak)) s
      (exec lockText (.replace (original bak) bak (original bak)) false s).1 := by
  have hafter : (exec lockText (.replace (original bak) bak (original bak)) false s).1 =
      { s with tree := s.tree.move content bak (original bak) } := by
    rw [exec, if_neg Bool.false_ne_true, hfile]
    cases hnode : s.tree.node (original bak) with
    | none => rfl
    | some node =>
      cases node with
      | file c => rfl
      | directory => exact (hdir hnode).elim
  have hname : (original bak).name ≠ ".." := by
    intro hname
    exact hdir (by rw [FileTree.node, if_pos hname])
  obtain ⟨hstranger, hne⟩ := stranger hfits hbad
  intro hown
  obtain ⟨x, hx, hq⟩ := hown bak (by
    rw [hafter, FileTree.node_move bak (bak_ne_dots hfits) hname, if_neg (Ne.symm hne), if_pos rfl,
      hfile]
    exact (Option.some_ne_none _).symm)
  cases hx
  rcases hq with hmem | ⟨heq, _⟩
  · exact hstranger hmem
  · exact hne heq

theorem recoverOriginal_breaks (hfits : Pattern.fits bak.name .backups = true) (hbad : ¬Named bak)
    (hfile : s.tree.isFile bak = true) (hspared : ¬Spared s.tree bak) :
    ∃ es q s', Exec (handler lockText) () TimePasses
      (recoverOriginal workerId staleAfter bak (original bak) stats) s es q s' ∧
      ∃ e ∈ es, ¬Own e.op e.pre e.post := by
  have hdir : s.tree.node (original bak) ≠ some .directory := fun h => hspared (.inr (.inl h))
  have hlocked : s.tree.present (original bak) = true →
      s.tree.present (lockPath (original bak)) = true := by
    intro hpresent
    by_contra hunlocked
    exact hspared (.inr (.inr ⟨(present_iff hdir).mp hpresent, by simpa using hunlocked⟩))
  obtain ⟨content, hnode⟩ := FileTree.isFile_iff.mp hfile
  have hunlocked : Comes lockText (lockedElsewhere (lockPath (original bak)) workerId staleAfter)
      s false := comes_unlocked _
  have hunfinished : Comes lockText (looksFinished (original bak) (lockPath (original bak)))
      s false := comes_unfinished hlocked
  obtain ⟨es₁, h₁⟩ := hunlocked
  obtain ⟨es₂, h₂⟩ := hunfinished
  have hlook : Exec (handler lockText) () TimePasses
      ((restoreBackup (original bak) bak).bind (restored (original bak) stats)) s _ _ s :=
    (Exec.refl _ s).call false (timePasses_refl s) rfl
  have hrestore := hlook.call false (timePasses_refl s) rfl
  have hexec : Exec (handler lockText) () TimePasses
      (recoverOriginal workerId staleAfter bak (original bak) stats) s _ _ _ :=
    h₁.bind (h₂.bind hrestore)
  exact ⟨_, _, _, hexec, _, List.mem_append_right _ (List.mem_append_right _ (List.mem_append_right _
    List.mem_cons_self)), replace_breaks hfits hbad hnode hdir⟩

theorem breaks {roots : List (List String)} {s₀ : ScanState C} {es : List (CallRecord Action (ScanState C) Bool)}
    {k : Except OSError Bool → Scan RecoveryStats} {s₁ : ScanState C}
    (hexec : Exec (handler lockText) () TimePasses
      (recoverOrphanedBackups workerId staleAfter roots) s₀ es (.call (.isFile .backups bak) k) s₁)
    (hrely : TimePasses s₁ s) (hfile : s.tree.isFile bak = true)
    (hfits : Pattern.fits bak.name .backups = true) (hbad : ¬Named bak)
    (hspared : ¬Spared s.tree bak) :
    ∃ es q s', Exec (handler lockText) () TimePasses
      (recoverOrphanedBackups workerId staleAfter roots) s₀ es q s' ∧
      ∃ e ∈ es, ¬Own e.op e.pre e.post := by
  obtain ⟨stats, f, hk⟩ := (hexec.everywhere (recoverOrphanedBackups_restores roots)).1 hfits
  have hfound := hexec.call false hrely rfl
  have hanswer : (handler lockText).answer () (.isFile .backups bak) false s = .ok true := by
    simp [Handler.answer, handler, exec, hfile]
  have hname : withName bak (unmarked bak) = .ret (original bak) := by
    unfold withName
    rw [if_neg fun hinvalid => hspared (.inl hinvalid)]
    rfl
  rw [hanswer, hk, hname, Program.ret_bind] at hfound
  obtain ⟨es₂, q, s', hrest, e, he, hown⟩ := recoverOriginal_breaks (C := C) hfits hbad hfile hspared
  exact ⟨_, _, _, hfound.trans (hrest.bind_left f), e, List.mem_append_right _ he, hown⟩

end Breaking

-- Every reachable state in which the scan takes up a backup counts: the recovery touches nothing
-- else exactly when no misnamed one is ever taken up unspared.
theorem recovery_touches_own {C : Type} (lockText : C → LockText) (workerId : String)
    (staleAfter : Nat) (roots : List (List String)) (s : ScanState C) :
    (∀ es q s', Exec (handler lockText) () TimePasses
      (recoverOrphanedBackups workerId staleAfter roots) s es q s' →
        ∀ e ∈ es, Own e.op e.pre e.post) ↔
      ∀ es q s', Exec (handler lockText) () TimePasses
        (recoverOrphanedBackups workerId staleAfter roots) s es q s' →
          ∀ e ∈ es, Admitted e.op e.pre := by
  constructor
  · rintro hown es q s' hexec ⟨op, i, pre, post⟩ he bak rfl hfile hfits
    by_contra hnot
    rw [not_or] at hnot
    obtain ⟨es₁, k, s₁, hreached, hrely, -⟩ := hexec.reached _ he
    obtain ⟨es₂, q₂, s₂, hbroken, e₂, he₂, hstranger⟩ :=
      breaks hreached hrely hfile hfits hnot.1 hnot.2
    exact hstranger (hown es₂ q₂ s₂ hbroken e₂ he₂)
  · intro hadmitted es q s' hexec
    exact (hexec.adequate (recoverOrphanedBackups_safe workerId staleAfter roots s)
      (hadmitted es q s' hexec)).1

section Counterexample

def subtitle : Path := ⟨["media"], "movie.tf_bak.en.srt"⟩

def subtitled : ScanState LockText where
  tree := ⟨[⟨⟨[], "media"⟩, .directory⟩, ⟨subtitle, .file .invalid⟩], by decide⟩
  clock := 0

-- A subtitle of a file that was named after a backup is renamed to `movie.en.srt`.
theorem recovery_renames_subtitle :
    ∃ es q s', Exec (handler id) () TimePasses (recoverOrphanedBackups "w" 0 [["media"]])
      subtitled es q s' ∧ ∃ e ∈ es, ¬Own e.op e.pre e.post := by
  have hdir : Exec (handler id) () TimePasses (recoverOrphanedBackups "w" 0 [["media"]])
      subtitled _ _ _ := (Exec.refl _ _).call false (timePasses_refl _) rfl
  have hglob := hdir.call false (timePasses_refl _) rfl
  apply breaks hglob (timePasses_refl subtitled)
  · decide
  · decide
  · decide
  · decide

end Counterexample

end TranscodeForge.StartupScan
