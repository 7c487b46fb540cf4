import TranscodeForge.Scanner.Scans

namespace TranscodeForge.Scanner

open Relational Scheduler Text

section Rows

variable {libraryId : String} {inv inv' inv'' : Inventory} {path : Chars} {r r' : MediaFile}

-- The rows of the other libraries are the same.
def Isolated (libraryId : String) (inv inv' : Inventory) : Prop :=
  ∀ r : MediaFile, r.libraryId ≠ libraryId → (r ∈ inv'.files ↔ r ∈ inv.files)

def Owned (libraryId : String) (inv : Inventory) (path : Chars) : Prop :=
  ∃ r ∈ inv.files, r.filePath = path ∧ r.libraryId = libraryId

-- No other library has a row for the path.
def Free (libraryId : String) (inv : Inventory) (path : Chars) : Prop :=
  ∀ r ∈ inv.files, r.filePath = path → r.libraryId = libraryId

theorem Isolated.refl (libraryId : String) (inv : Inventory) : Isolated libraryId inv inv :=
  fun _ _ => Iff.rfl

theorem Isolated.trans (h : Isolated libraryId inv inv') (h' : Isolated libraryId inv' inv'') :
    Isolated libraryId inv inv'' :=
  fun r hr => (h' r hr).trans (h r hr)

theorem Isolated.free (h : Isolated libraryId inv inv') (hfree : Free libraryId inv path) :
    Free libraryId inv' path := by
  intro r hr hpath
  by_contra hforeign
  exact hforeign (hfree r ((h r hforeign).mp hr) hpath)

theorem get?_iff : inv.get? path = some r ↔ r ∈ inv.files ∧ r.filePath = path := Table.get?_eq_some

theorem eq_of_id (hr : r ∈ inv.files) (hr' : r' ∈ inv.files) (hid : r.id = r'.id) : r = r' :=
  List.inj_on_of_nodup_map inv.ids hr hr' hid

theorem eq_of_path (hr : r ∈ inv.files) (hr' : r' ∈ inv.files) (hpath : r.filePath = r'.filePath) :
    r = r' :=
  Table.eq_of_key hr hr' hpath

-- A path that another library holds is nobody else's.
theorem Owned.not_foreign (h : Owned libraryId inv path) (hr : r ∈ inv.files)
    (hpath : r.filePath = path) : r.libraryId = libraryId := by
  obtain ⟨r', hr', hpath', hlibrary⟩ := h
  rw [eq_of_path hr hr' (hpath.trans hpath'.symm)]
  exact hlibrary

theorem owned_of_get? (hfree : Free libraryId inv path) (h : inv.get? path = some r) :
    Owned libraryId inv path := by
  obtain ⟨hr, hpath⟩ := get?_iff.mp h
  exact ⟨r, hr, hpath, hfree r hr hpath⟩

end Rows

section Upserts

variable {inv inv' : Inventory} {u : Upsert} {id : String} {now : Instant} {path : Chars}

theorem get?_upsert (h : inv.upsert u id now = .ok inv') (path : Chars) :
    inv'.get? path = if u.filePath = path
      then some (((inv.get? path).map (u.onto now)).getD (u.row id now)) else inv.get? path := by
  unfold Inventory.upsert at h
  split at h
  · next r hget =>
    cases h
    have hupdated := Table.get?_update inv.files (fun r => r.filePath = u.filePath) (u.onto now)
      (u.onto_filePath now) path
    refine hupdated.trans ?_
    change ((inv.get? path).map _) = _
    split
    · next hpath =>
      rw [← hpath, hget]
      simp [(get?_iff.mp hget).2]
    · next hpath =>
      cases hother : inv.get? path with
      | none => rfl
      | some r' =>
        have hkey : r'.filePath = path := (get?_iff.mp hother).2
        simp [hkey, Ne.symm hpath]
  · next hget =>
    split at h
    · cases h
    · cases h
      have hinserted : (inv.files.insert (u.row id now)).get? path =
          if u.filePath = path then some (u.row id now) else inv.get? path :=
        Table.get?_insert_of_free (T := inv.files) (r := u.row id now) hget path
      refine Eq.trans hinserted ?_
      split
      · next hpath =>
        rw [← hpath, hget]
        rfl
      · rfl

theorem upsert_isolated (h : inv.upsert u id now = .ok inv')
    (hfree : Free u.libraryId inv u.filePath) : Isolated u.libraryId inv inv' := by
  intro r hforeign
  have hafter : r ∈ inv'.files ↔ inv'.get? r.filePath = some r := by simp [get?_iff]
  have hbefore : r ∈ inv.files ↔ inv.get? r.filePath = some r := by simp [get?_iff]
  rw [hafter, hbefore, get?_upsert h]
  split
  · next hpath =>
    refine iff_of_false ?_ ?_
    · intro hr
      cases hget : inv.get? r.filePath with
      | none =>
        rw [hget] at hr
        exact hforeign (congrArg MediaFile.libraryId (Option.some.inj hr)).symm
      | some r' =>
        rw [hget] at hr
        obtain ⟨hr', hpath'⟩ := get?_iff.mp hget
        have hmerged : u.onto now r' = r := Option.some.inj hr
        have hlibrary : (u.onto now r').libraryId = r.libraryId :=
          congrArg MediaFile.libraryId hmerged
        rw [Upsert.onto_libraryId] at hlibrary
        exact hforeign (hlibrary.symm.trans (hfree r' hr' (hpath'.trans hpath.symm)))
    · intro hr
      exact hforeign (hfree r (get?_iff.mp hr).1 hpath.symm)
  · exact Iff.rfl

theorem upsert_owned (h : inv.upsert u id now = .ok inv')
    (hfree : Free u.libraryId inv u.filePath) : Owned u.libraryId inv' u.filePath := by
  have hget := get?_upsert h u.filePath
  rw [if_pos rfl] at hget
  obtain ⟨hmem, hpath⟩ := get?_iff.mp hget
  refine ⟨_, hmem, hpath, ?_⟩
  cases hold : inv.get? u.filePath with
  | none => rfl
  | some r =>
    obtain ⟨hr, hkey⟩ := get?_iff.mp hold
    exact hfree r hr hkey

theorem upsert_keeps {libraryId : String} (h : inv.upsert u id now = .ok inv')
    (howned : Owned libraryId inv path) : Owned libraryId inv' path := by
  obtain ⟨r, hr, hpath, hlibrary⟩ := howned
  have hget := get?_upsert h path
  rw [get?_iff.mpr ⟨hr, hpath⟩] at hget
  by_cases hu : u.filePath = path
  · rw [if_pos hu] at hget
    obtain ⟨hmem, hkey⟩ := get?_iff.mp hget
    exact ⟨_, hmem, hkey, hlibrary⟩
  · rw [if_neg hu] at hget
    exact ⟨r, (get?_iff.mp hget).1, hpath, hlibrary⟩

end Upserts

section Files

variable {libraryId : String} {inv : Inventory} {path : Chars} {limit : Int}
variable {tally : Counts → Examined → Counts}

def Found.Probes (f : Found libraryId) : Prop := ∃ probe, f.probe = .ok (some probe)

theorem store_cases (inv : Inventory) (u : Upsert) (id : String) (now : Instant) (w : Write) :
    ((store inv u id now w).1 = inv ∧ ∃ e, (store inv u id now w).2 = .error e) ∨
      inv.upsert u id now = .ok (store inv u id now w).1 := by
  unfold store
  cases inv.upsert u id now with
  | error e => exact .inl ⟨rfl, e, rfl⟩
  | ok after =>
    cases w with
    | done => exact .inr rfl
    | lost e => exact .inl ⟨rfl, e, rfl⟩
    | unsure e => exact .inr rfl

-- What one file leaves behind: the rows as they were, or those of an upsert.
theorem examine_cases (f : Found libraryId) (inv : Inventory) :
    ((examine f inv).1 = inv ∧ ((∃ e, (examine f inv).2 = .error e) ∨ ¬f.Probes ∨
      (inv.get? f.path).isSome = true)) ∨
    f.Probes ∧ ∃ u id now, u.filePath = f.path ∧ u.libraryId = libraryId ∧
      inv.upsert u id now = .ok (examine f inv).1 := by
  unfold examine
  cases f.lookup with
  | some e => exact .inl ⟨rfl, .inl ⟨e, rfl⟩⟩
  | none =>
    cases f.stat with
    | error e => exact .inl ⟨rfl, .inl ⟨e, rfl⟩⟩
    | ok stat =>
      dsimp only
      split
      · next hunchanged =>
        refine .inl ⟨rfl, .inr (.inr ?_)⟩
        cases hget : inv.get? f.path with
        | none =>
          rw [hget] at hunchanged
          cases hunchanged
        | some r => rfl
      · cases hprobe : f.probe with
        | error e => exact .inl ⟨rfl, .inl ⟨e, rfl⟩⟩
        | ok result =>
          cases result with
          | none =>
            refine .inl ⟨rfl, .inr (.inl ?_)⟩
            rintro ⟨probe, h⟩
            cases hprobe.symm.trans h
          | some probe =>
            have hstored := store_cases inv (f.upsert stat probe) f.fileId f.now f.write
            dsimp only
            generalize store inv (f.upsert stat probe) f.fileId f.now f.write = stored at hstored ⊢
            obtain ⟨after, result⟩ := stored
            rcases hstored with ⟨hsame, e, herror⟩ | hupsert
            · dsimp only at hsame herror
              subst hsame herror
              exact .inl ⟨rfl, .inl ⟨e, rfl⟩⟩
            · refine .inr ⟨⟨probe, hprobe⟩, f.upsert stat probe, f.fileId, f.now,
                f.upsert_path stat probe, f.upsert_library stat probe, ?_⟩
              cases result with
              | ok done => exact hupsert
              | error e => exact hupsert

theorem examine_isolated (f : Found libraryId)
    (hfree : f.Probes → Free libraryId inv f.path) : Isolated libraryId inv (examine f inv).1 := by
  rcases examine_cases f inv with ⟨hsame, -⟩ | ⟨hprobes, u, id, now, hpath, rfl, hupsert⟩
  · rw [hsame]
    exact .refl libraryId inv
  · refine upsert_isolated hupsert ?_
    rw [hpath]
    exact hfree hprobes

theorem examine_keeps (f : Found libraryId) (h : Owned libraryId inv path) :
    Owned libraryId (examine f inv).1 path := by
  rcases examine_cases f inv with ⟨hsame, -⟩ | ⟨-, u, id, now, -, -, hupsert⟩
  · rw [hsame]
    exact h
  · exact upsert_keeps hupsert h

theorem examine_owned {f : Found libraryId} {examined : Examined}
    (hfree : f.Probes → Free libraryId inv f.path) (hprobes : f.Probes)
    (hok : (examine f inv).2 = .ok examined) : Owned libraryId (examine f inv).1 f.path := by
  rcases examine_cases f inv with ⟨hsame, ⟨e, herror⟩ | hnot | hsome⟩ |
    ⟨-, u, id, now, hpath, rfl, hupsert⟩
  · cases hok.symm.trans herror
  · exact absurd hprobes hnot
  · obtain ⟨r, hr⟩ := Option.isSome_iff_exists.mp hsome
    rw [hsame]
    exact owned_of_get? (hfree hprobes) hr
  · rw [← hpath]
    refine upsert_owned hupsert ?_
    rw [hpath]
    exact hfree hprobes

-- The files that a loop which has counted `found` of them gets to.
def upToLimit (limit : Int) (found : Nat) (files : List (Found libraryId)) : List (Found libraryId) :=
  if 0 < limit then files.take (limit - found).toNat else files

theorem upToLimit_cons {found : Nat} (f : Found libraryId) (files : List (Found libraryId))
    (h : ¬(0 < limit ∧ limit ≤ found)) :
    upToLimit limit found (f :: files) = f :: upToLimit limit (found + 1) files := by
  unfold upToLimit
  split
  · next hpos =>
    obtain ⟨k, hk⟩ : ∃ k, (limit - found).toNat = k + 1 := ⟨(limit - found).toNat - 1, by omega⟩
    have hk' : (limit - ((found + 1 : Nat) : Int)).toNat = k := by omega
    rw [hk, hk', List.take_succ_cons]
  · rfl

theorem upToLimit_done {found : Nat} (files : List (Found libraryId))
    (h : 0 < limit ∧ limit ≤ found) : upToLimit limit found files = [] := by
  have hzero : (limit - found).toNat = 0 := by omega
  rw [upToLimit, if_pos h.1, hzero, List.take_zero]

@[simp] theorem upToLimit_nil (found : Nat) :
    upToLimit limit found ([] : List (Found libraryId)) = [] := by
  unfold upToLimit
  split
  · exact List.take_nil
  · rfl

theorem upToLimit_append (found : Nat) (xs ys : List (Found libraryId)) :
    upToLimit limit found (xs ++ ys) =
      upToLimit limit found xs ++ upToLimit limit (found + (upToLimit limit found xs).length) ys := by
  unfold upToLimit
  split
  · rw [List.take_append, List.length_take]
    congr 2
    omega
  · rfl

-- What a run over some files leaves.
structure Catalogued (libraryId : String) (files : List (Found libraryId)) (found : Nat)
    (inv : Inventory) (out : Inventory × Except Error Counts) : Prop where
  isolated : Isolated libraryId inv out.1
  keeps : ∀ path, Owned libraryId inv path → Owned libraryId out.1 path
  owned : ∀ n, out.2 = .ok n → ∀ f ∈ files, f.Probes → Owned libraryId out.1 f.path
  counted : ∀ n, out.2 = .ok n → n.found = found + files.length

theorem Catalogued.error {files : List (Found libraryId)} {found : Nat} {after : Inventory}
    {e : Error} (hisolated : Isolated libraryId inv after)
    (hkeeps : ∀ path, Owned libraryId inv path → Owned libraryId after path) :
    Catalogued libraryId files found inv (after, .error e) :=
  ⟨hisolated, hkeeps, nofun, nofun⟩

theorem Catalogued.nil (libraryId : String) (n : Counts) (inv : Inventory) :
    Catalogued libraryId [] n.found inv (inv, .ok n) := by
  refine ⟨.refl libraryId inv, fun _ h => h, fun _ _ _ h => absurd h List.not_mem_nil, ?_⟩
  intro n' h
  cases h
  rfl

theorem Catalogued.append {xs ys : List (Found libraryId)} {found : Nat} {after : Inventory}
    {n : Counts} {out : Inventory × Except Error Counts}
    (hxs : Catalogued libraryId xs found inv (after, .ok n))
    (hys : Catalogued libraryId ys n.found after out) :
    Catalogued libraryId (xs ++ ys) found inv out := by
  refine ⟨hxs.isolated.trans hys.isolated, fun path h => hys.keeps path (hxs.keeps path h), ?_, ?_⟩
  · intro m hm f hf hprobes
    rcases List.mem_append.mp hf with hf | hf
    · exact hys.keeps f.path (hxs.owned n rfl f hf hprobes)
    · exact hys.owned m hm f hf hprobes
  · intro m hm
    rw [hys.counted m hm, hxs.counted n rfl, List.length_append, Nat.add_assoc]

theorem scanFiles_catalogued (htally : ∀ n examined, (tally n examined).found = n.found)
    {files : List (Found libraryId)} {n : Counts} {inv : Inventory}
    (hfree : ∀ f ∈ upToLimit limit n.found files, f.Probes → Free libraryId inv f.path) :
    Catalogued libraryId (upToLimit limit n.found files) n.found inv
      (scanFiles limit tally files n inv) := by
  induction files generalizing n inv with
  | nil =>
    rw [upToLimit_nil]
    exact .nil libraryId n inv
  | cons f files ih =>
    unfold scanFiles
    split
    · next hlimit =>
      rw [upToLimit_done _ hlimit]
      exact .nil libraryId n inv
    · next hlimit =>
      rw [upToLimit_cons f files hlimit] at hfree ⊢
      have hisolated := examine_isolated f (hfree f List.mem_cons_self)
      have hkeeps (path : Chars) (h : Owned libraryId inv path) := examine_keeps f h
      have howned (examined : Examined) (hprobes : f.Probes)
          (hok : (examine f inv).2 = .ok examined) :=
        examine_owned (hfree f List.mem_cons_self) hprobes hok
      generalize examine f inv = step at hisolated hkeeps howned ⊢
      obtain ⟨after, result⟩ := step
      cases result with
      | error e => exact .error hisolated hkeeps
      | ok examined =>
        dsimp only
        generalize hn : tally { n with found := n.found + 1 } examined = n'
        have hfound : n'.found = n.found + 1 := by rw [← hn, htally]
        cases progressError f examined n' with
        | some e => exact .error hisolated hkeeps
        | none =>
          have hfirst : Catalogued libraryId [f] n.found inv (after, .ok n') := by
            refine ⟨hisolated, hkeeps, ?_, ?_⟩
            · intro m _ g hg hprobes
              rw [List.mem_singleton] at hg
              subst hg
              exact howned examined hprobes rfl
            · intro m hm
              cases hm
              exact hfound
          rw [← hfound] at hfree ⊢
          exact hfirst.append (ih fun g hg hprobes =>
            hisolated.free (hfree g (List.mem_cons_of_mem f hg) hprobes))

end Files

section Prune

variable {libraryId : String} {inv : Inventory} {path : Chars}

theorem goneAmong_mem {answers : PruneAnswers} {known gone : List (Chars × String)}
    (h : goneAmong answers known = .ok gone) : ∀ k ∈ gone, k ∈ known := by
  induction known generalizing gone with
  | nil =>
    cases h
    simp
  | cons k known ih =>
    unfold goneAmong at h
    split at h
    · cases h
    · next isGone _ =>
      cases hrest : goneAmong answers known with
      | error e =>
        rw [hrest] at h
        cases h
      | ok rest =>
        rw [hrest] at h
        cases h
        intro k' hk'
        cases isGone with
        | false => exact List.mem_cons_of_mem k (ih hrest k' hk')
        | true =>
          rcases List.mem_cons.mp hk' with rfl | hk'
          · exact List.mem_cons_self
          · exact List.mem_cons_of_mem k (ih hrest k' hk')

theorem mem_deleteByIds {ids : List String} {r : MediaFile} :
    r ∈ (inv.deleteByIds ids).files ↔ r ∈ inv.files ∧ r.id ∉ ids := by
  have hmem : r ∈ (inv.deleteByIds ids).files ↔ r ∈ inv.files ∧ decide (r.id ∈ ids) = false :=
    Table.mem_delete
  simpa using hmem

-- Only rows of the library itself go, and none of a file that the walk met.
theorem pruneAbsent_cases (libraryId : String) (walked : List Chars) (answers : PruneAnswers)
    (inv : Inventory) : (pruneAbsent libraryId walked answers inv).1 = inv ∨
      ∃ ids, (pruneAbsent libraryId walked answers inv).1 = inv.deleteByIds ids ∧
        ∀ id ∈ ids, ∃ r ∈ inv.files, r.id = id ∧ r.libraryId = libraryId ∧ r.filePath ∉ walked := by
  unfold pruneAbsent
  split
  · exact .inl rfl
  · dsimp only
    split
    · exact .inl rfl
    · next gone hgone =>
      split
      · exact .inl rfl
      · have hids : ∀ id ∈ gone.map Prod.snd, ∃ r ∈ inv.files, r.id = id ∧
            r.libraryId = libraryId ∧ r.filePath ∉ walked := by
          intro id hid
          obtain ⟨k, hk, rfl⟩ := List.mem_map.mp hid
          obtain ⟨hknown, habsent⟩ := List.mem_filter.mp (goneAmong_mem hgone k hk)
          obtain ⟨r, hr, rfl⟩ := List.mem_map.mp hknown
          obtain ⟨hmem, hlibrary⟩ := Table.mem_select.mp hr
          exact ⟨r, hmem, rfl, of_decide_eq_true hlibrary, of_decide_eq_true habsent⟩
        cases answers.write with
        | done => exact .inr ⟨_, rfl, hids⟩
        | lost e => exact .inl rfl
        | unsure e => exact .inr ⟨_, rfl, hids⟩

theorem pruneAbsent_isolated (libraryId : String) (walked : List Chars) (answers : PruneAnswers)
    (inv : Inventory) : Isolated libraryId inv (pruneAbsent libraryId walked answers inv).1 := by
  rcases pruneAbsent_cases libraryId walked answers inv with hsame | ⟨ids, hdeleted, hids⟩
  · rw [hsame]
    exact .refl libraryId inv
  · intro r hforeign
    rw [hdeleted, mem_deleteByIds]
    refine and_iff_left_of_imp fun hr hid => ?_
    obtain ⟨r', hr', hsame, hlibrary, -⟩ := hids r.id hid
    rw [eq_of_id hr' hr hsame] at hlibrary
    exact hforeign hlibrary

theorem pruneAbsent_keeps {walked : List Chars} (answers : PruneAnswers) (hwalked : path ∈ walked)
    (h : Owned libraryId inv path) :
    Owned libraryId (pruneAbsent libraryId walked answers inv).1 path := by
  rcases pruneAbsent_cases libraryId walked answers inv with hsame | ⟨ids, hdeleted, hids⟩
  · rw [hsame]
    exact h
  · obtain ⟨r, hr, hpath, hlibrary⟩ := h
    rw [hdeleted]
    refine ⟨r, mem_deleteByIds.mpr ⟨hr, fun hid => ?_⟩, hpath, hlibrary⟩
    obtain ⟨r', hr', hsame, -, habsent⟩ := hids r.id hid
    rw [eq_of_id hr' hr hsame, hpath] at habsent
    exact habsent hwalked

end Prune

section Scans

variable {t : CharTables} {libraryId : String} {inv : Inventory} {limit : Int}

-- What a whole scan leaves; the files are those it gets to.
structure Scanned (libraryId : String) (files : List (Found libraryId)) (inv : Inventory)
    (out : Inventory × Ended) : Prop where
  isolated : Isolated libraryId inv out.1
  owned : ∀ n, out.2 = .complete n → ∀ f ∈ files, f.Probes → Owned libraryId out.1 f.path

theorem closing_scanned {files : List (Found libraryId)} {out : Inventory × Except Error Counts}
    (closed : Option Error) (hisolated : Isolated libraryId inv out.1)
    (howned : ∀ n, out.2 = .ok n → ∀ f ∈ files, f.Probes → Owned libraryId out.1 f.path) :
    Scanned libraryId files inv (closing closed out) := by
  obtain ⟨after, result⟩ := out
  cases result with
  | error e => exact ⟨hisolated, nofun⟩
  | ok n =>
    cases closed with
    | some e => exact ⟨hisolated, nofun⟩
    | none => exact ⟨hisolated, fun _ _ => howned n rfl⟩

theorem tallyFile_found (n : Counts) (examined : Examined) :
    (tallyFile n examined).found = n.found := by
  cases examined <;> rfl

theorem tallyObject_found (n : Counts) (examined : Examined) :
    (tallyObject n examined).found = n.found := by
  cases examined <;> rfl

-- The video files that the listing of a library names.
def treeFiles (t : CharTables) (libraryId mediaType : String) (tree : Tree) :
    List (Found libraryId) :=
  match tree.walk with
  | .ok entries => (listVideoFiles t entries).map (·.found t libraryId mediaType)
  | .error _ => []

def pageFiles (t : CharTables) (libraryId : String) :
    Except Error (Option (List S3Object)) → List (Found libraryId)
  | .ok (some objects) => (objects.filter (isCandidate t)).map (·.found libraryId)
  | .ok none | .error _ => []

theorem scanLibrary_scanned {mediaType : String} {tree : Tree}
    (hfree : ∀ f ∈ upToLimit limit 0 (treeFiles t libraryId mediaType tree),
      f.Probes → Free libraryId inv f.path) :
    Scanned libraryId (upToLimit limit 0 (treeFiles t libraryId mediaType tree)) inv
      (scanLibrary t libraryId mediaType tree limit inv) := by
  unfold scanLibrary
  split
  · exact ⟨.refl libraryId inv, nofun⟩
  · exact ⟨.refl libraryId inv, nofun⟩
  · exact ⟨.refl libraryId inv, nofun⟩
  · unfold treeFiles at hfree ⊢
    generalize tree.walk = walk at hfree ⊢
    cases walk with
    | error e => exact ⟨.refl libraryId inv, nofun⟩
    | ok entries =>
      dsimp only at hfree ⊢
      generalize listVideoFiles t entries = files at hfree ⊢
      have hscan : Catalogued libraryId _ 0 inv
          (scanFiles limit tallyFile (files.map (·.found t libraryId mediaType)) {} inv) :=
        scanFiles_catalogued (n := {}) tallyFile_found hfree
      generalize scanFiles limit tallyFile _ {} inv = out at hscan ⊢
      obtain ⟨after, result⟩ := out
      cases result with
      | error e => exact ⟨hscan.isolated, nofun⟩
      | ok n =>
        dsimp only
        split
        · next hprune =>
          obtain ⟨rfl, -⟩ := hprune
          refine closing_scanned tree.closed
            (hscan.isolated.trans (pruneAbsent_isolated libraryId _ tree.prune after)) ?_
          intro m _ f hf hprobes
          refine pruneAbsent_keeps tree.prune ?_ (hscan.owned n rfl f hf hprobes)
          obtain ⟨entry, hentry, rfl⟩ := List.mem_map.mp hf
          exact List.mem_map_of_mem hentry
        · exact closing_scanned tree.closed hscan.isolated hscan.owned

theorem scanPages_catalogued {pages : List (Except Error (Option (List S3Object)))} {n : Counts}
    {inv : Inventory}
    (hfree : ∀ f ∈ upToLimit limit n.found (pages.flatMap (pageFiles t libraryId)),
      f.Probes → Free libraryId inv f.path) :
    Catalogued libraryId (upToLimit limit n.found (pages.flatMap (pageFiles t libraryId)))
      n.found inv (scanPages t libraryId limit pages n inv) := by
  induction pages generalizing n inv with
  | nil =>
    rw [List.flatMap_nil, upToLimit_nil]
    exact .nil libraryId n inv
  | cons page pages ih =>
    rw [List.flatMap_cons, upToLimit_append] at hfree ⊢
    match page with
    | .error e => exact .error (.refl libraryId inv) fun _ h => h
    | .ok none =>
      have hnone : pageFiles t libraryId (.ok none) = [] := rfl
      rw [hnone, upToLimit_nil, List.nil_append, List.length_nil, Nat.add_zero] at hfree ⊢
      exact ih hfree
    | .ok (some objects) =>
      have hpage : Catalogued libraryId (upToLimit limit n.found (pageFiles t libraryId
          (.ok (some objects)))) n.found inv _ :=
        scanFiles_catalogued tallyObject_found fun f hf =>
          hfree f (List.mem_append_left _ hf)
      have hpageFiles : pageFiles t libraryId (.ok (some objects)) =
          (objects.filter (isCandidate t)).map (·.found libraryId) := rfl
      rw [scanPages, ← hpageFiles]
      generalize scanFiles limit tallyObject _ n inv = out at hpage ⊢
      obtain ⟨after, result⟩ := out
      cases result with
      | error e => exact .error hpage.isolated hpage.keeps
      | ok n' =>
        rw [← hpage.counted n' rfl] at hfree ⊢
        exact hpage.append (ih fun f hf hprobes =>
          hpage.isolated.free (hfree f (List.mem_append_right _ hf) hprobes))

theorem scanS3Library_scanned {bucket : Bucket}
    (hfree : ∀ f ∈ upToLimit limit 0 (bucket.pages.flatMap (pageFiles t libraryId)),
      f.Probes → Free libraryId inv f.path) :
    Scanned libraryId (upToLimit limit 0 (bucket.pages.flatMap (pageFiles t libraryId))) inv
      (scanS3Library t libraryId bucket limit inv) := by
  unfold scanS3Library
  split
  · exact ⟨.refl libraryId inv, nofun⟩
  · exact ⟨.refl libraryId inv, nofun⟩
  · have hscan : Catalogued libraryId _ 0 inv (scanPages t libraryId limit bucket.pages {} inv) :=
      scanPages_catalogued (n := {}) hfree
    generalize scanPages t libraryId limit bucket.pages {} inv = out at hscan ⊢
    obtain ⟨after, result⟩ := out
    cases result with
    | error e => exact ⟨hscan.isolated, nofun⟩
    | ok n =>
      dsimp only
      cases bucket.commit with
      | some e => exact ⟨hscan.isolated, nofun⟩
      | none => exact closing_scanned bucket.closed hscan.isolated hscan.owned

-- The video files that a scan gets to, unless something ends it early.
def reached (t : CharTables) (libraryId : String) (request : ScanRequest) :
    List (Found libraryId) :=
  match request.library with
  | none => []
  | some library =>
    upToLimit request.limit 0 <|
      match library.backend with
      | .filesystem path => treeFiles t libraryId library.mediaType (request.tree path)
      | .s3 bucket keyPrefix =>
        (request.bucket bucket keyPrefix).pages.flatMap (pageFiles t libraryId)

theorem runScan_scanned {request : ScanRequest}
    (hfree : ∀ f ∈ reached t libraryId request, f.Probes → Free libraryId inv f.path) :
    Scanned libraryId (reached t libraryId request) inv (runScan t libraryId request inv) := by
  obtain ⟨library, limit, tree, bucket⟩ := request
  cases library with
  | none => exact ⟨.refl libraryId inv, nofun⟩
  | some library =>
    obtain ⟨mediaType, backend⟩ := library
    cases backend with
    | filesystem path => exact scanLibrary_scanned hfree
    | s3 name keyPrefix => exact scanS3Library_scanned hfree

end Scans

section Sequences

variable (t : CharTables) (libraryId : String)

-- Scan after scan of one library, each of which may end early.
def Kept : List ScanRequest → Inventory → Prop
  | [], _ => True
  | request :: requests, inv =>
    Scanned libraryId (reached t libraryId request) inv (runScan t libraryId request inv) ∧
      Kept requests (runScan t libraryId request inv).1

def Completes : List ScanRequest → Inventory → Prop
  | [], _ => True
  | request :: requests, inv =>
    (∃ n, (runScan t libraryId request inv).2 = .complete n) ∧
      Completes requests (runScan t libraryId request inv).1

-- No file that probes is one that another library has a row for.
def Apart (requests : List ScanRequest) (inv : Inventory) : Prop :=
  ∀ request ∈ requests, ∀ f ∈ reached t libraryId request, f.Probes → Free libraryId inv f.path

variable {t libraryId} {requests : List ScanRequest} {inv : Inventory}

theorem Isolated.symm {inv' : Inventory} (h : Isolated libraryId inv inv') :
    Isolated libraryId inv' inv :=
  fun r hr => (h r hr).symm

theorem kept_of_apart (h : Apart t libraryId requests inv) : Kept t libraryId requests inv := by
  induction requests generalizing inv with
  | nil => trivial
  | cons request requests ih =>
    have hscan := runScan_scanned (h request List.mem_cons_self)
    refine ⟨hscan, ih fun later hlater f hf hprobes => ?_⟩
    exact hscan.isolated.free (h later (List.mem_cons_of_mem request hlater) f hf hprobes)

theorem apart_of_kept (hcomplete : Completes t libraryId requests inv)
    (h : Kept t libraryId requests inv) : Apart t libraryId requests inv := by
  induction requests generalizing inv with
  | nil => exact fun _ hmem => absurd hmem List.not_mem_nil
  | cons request requests ih =>
    obtain ⟨⟨n, hn⟩, hcompletes⟩ := hcomplete
    obtain ⟨hscan, hrest⟩ := h
    intro r hr f hf hprobes
    rcases List.mem_cons.mp hr with rfl | hr
    · have howned := hscan.owned n hn f hf hprobes
      exact hscan.isolated.symm.free fun _ => howned.not_foreign
    · exact hscan.isolated.symm.free (ih hcompletes hrest r hr f hf hprobes)

end Sequences

theorem scans_isolate (t : CharTables) (libraryId : String) (requests : List ScanRequest)
    (inv : Inventory) :
    (Apart t libraryId requests inv → Kept t libraryId requests inv) ∧
      (Completes t libraryId requests inv →
        (Kept t libraryId requests inv ↔ Apart t libraryId requests inv)) :=
  ⟨kept_of_apart, fun hcomplete => ⟨apart_of_kept hcomplete, kept_of_apart⟩⟩

section Collision

def asciiTables : CharTables where
  isSpace := Char.isWhitespace
  digit c := if c.isDigit then some (c.toNat - '0'.toNat) else none
  lower := lower

def archivedRow : MediaFile where
  id := "f1"
  libraryId := "archive"
  filePath := "film.mkv".toList
  filename := "film.mkv".toList
  videoCodec := some "h264"
  transcodeStatus := .needsTranscode
  fileModifiedAt := some "2026-01-01T00:00:00+00:00"
  scannedAt := 0
  updatedAt := 0

def archiveInventory : Inventory where
  files := ⟨[archivedRow], by decide⟩
  ids := by decide

-- Another bucket has an object of the same key.
def mastersScan : ScanRequest where
  library := some ⟨"movies", .s3 "masters".toList []⟩
  tree _ :=
    { isDir := .ok false
      walk := .ok []
      prune := { stat := fun _ => .ok (), exists_ := fun _ => false } }
  bucket _ _ :=
    { pages := [.ok (some [{
        key := "film.mkv".toList
        size := some 7
        lastModified := some "2026-02-01T00:00:00+00:00"
        presigned := .ok ⟨"hevc", 1920, 1080, none, 60, 7⟩
        headBytes := .error .other
        fileId := "f2"
        now := 1 }])] }

theorem scan_overwrites_foreign : ¬Kept asciiTables "masters" [mastersScan] archiveInventory := by
  rintro ⟨⟨hisolated, -⟩, -⟩
  have hkept := (hisolated archivedRow (by decide)).mpr List.mem_cons_self
  have hchanged :
      archivedRow ∉ (runScan asciiTables "masters" mastersScan archiveInventory).1.files.rows := by
    decide +kernel
  exact hchanged hkept

end Collision

end TranscodeForge.Scanner
