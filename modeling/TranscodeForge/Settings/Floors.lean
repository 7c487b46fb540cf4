import TranscodeForge.Interaction.Marking
import TranscodeForge.Settings.Tuning

namespace TranscodeForge.Tuning

open Interaction Relational

variable {α : Type} (env : Env α)

def IsRead : Op → Prop
  | .selectValue _ => True
  | .selectAll => True
  | _ => False

def WritesFloor : Op → Prop
  | .upsert key _ => key ∈ floorKeys
  | .delete key => key ∈ floorKeys
  | _ => False

def effectiveText (s : AppSettings) (key : String) : String :=
  ((s.get? key).map Setting.value).getD (env.settings key)

-- The text a key has once the values are written.
def prospectiveText (values : List (String × Option String)) (s : AppSettings) (key : String) : String :=
  match values.lookup key with
  | some value => (given value).getD (env.settings key)
  | none => effectiveText env s key

section Texts

variable {env} {s : AppSettings} {values rest : List (String × Option String)} {key : String}
  {value : Option String} {t : Nat}

theorem mem_of_lookup {β : Type} {entries : List (String × β)} {b : β}
    (h : entries.lookup key = some b) : (key, b) ∈ entries := by
  obtain ⟨before, after, rfl, -⟩ := List.lookup_eq_some_iff.mp h
  exact List.mem_append_right _ List.mem_cons_self

theorem lookup_eq_none : values.lookup key = none ↔ ¬ touches values key := by
  induction values with
  | nil => simp [touches]
  | cons entry values ih =>
    obtain ⟨key', value⟩ := entry
    by_cases hkey : key = key'
    · simp [touches, hkey]
    · have hkey' : (key == key') = false := by simpa using hkey
      rw [List.lookup_cons, hkey', ih]
      simp [touches, hkey]

theorem prospectiveText_of_touches (s s' : AppSettings) (h : touches values key) :
    prospectiveText env values s key = prospectiveText env values s' key := by
  unfold prospectiveText
  cases hlookup : values.lookup key with
  | none => exact absurd h (lookup_eq_none.mp hlookup)
  | some value => rfl

theorem prospectiveText_of_not_touches (h : ¬ touches values key) :
    prospectiveText env values s key = effectiveText env s key := by
  unfold prospectiveText
  rw [lookup_eq_none.mpr h]

def writeOp (entry : String × Option String) : Op :=
  match given entry.2 with
  | none => .delete entry.1
  | some text => .upsert entry.1 text

theorem effectiveText_write (entry : String × Option String) (s : AppSettings) (key : String) :
    effectiveText env (exec t (writeOp entry) () s).1 key =
      if entry.1 = key then (given entry.2).getD (env.settings key) else effectiveText env s key := by
  unfold writeOp effectiveText
  cases hgiven : given entry.2 with
  | none =>
    change (((s.delete fun row => row.key == entry.1).get? key).map Setting.value).getD _ = _
    rw [Table.get?_delete]
    cases hrow : s.get? key with
    | none => by_cases hkey : entry.1 = key <;> simp [hkey]
    | some row =>
      have hrowKey : row.key = key := Table.get?_key hrow
      rw [Option.filter_some, hrowKey]
      by_cases hkey : entry.1 = key
      · simp [hkey]
      · simp [hkey, Ne.symm hkey]
  | some text =>
    change (((s.upsert ⟨entry.1, text⟩ (fun row => { row with value := text }) fun _ => rfl).get? key).map
      Setting.value).getD _ = _
    rw [Table.get?_upsert]
    by_cases hkey : entry.1 = key
    · cases hrow : s.get? key <;> simp [hkey]
    · simp [hkey]

theorem prospectiveText_write {entry : String × Option String} (hfresh : ¬ touches rest entry.1)
    (s : AppSettings) (key : String) :
    prospectiveText env rest (exec t (writeOp entry) () s).1 key =
      prospectiveText env (entry :: rest) s key := by
  obtain ⟨key', value⟩ := entry
  by_cases hkey : key' = key
  · subst hkey
    rw [prospectiveText_of_not_touches hfresh, effectiveText_write, if_pos rfl]
    simp [prospectiveText]
  · have hkey' : (key == key') = false := by simpa using Ne.symm hkey
    have hlookup : ((key', value) :: rest).lookup key = rest.lookup key := by
      rw [List.lookup_cons, hkey']
    unfold prospectiveText
    rw [hlookup, effectiveText_write, if_neg hkey]

theorem mean_mem : "vmaf_safety_mean" ∈ floorKeys := List.mem_cons_self

theorem perc5_mem : "vmaf_safety_perc5" ∈ floorKeys := List.mem_cons_of_mem _ List.mem_cons_self

theorem floorKeys_cases (h : key ∈ floorKeys) : key = "vmaf_safety_mean" ∨ key = "vmaf_safety_perc5" := by
  simpa [floorKeys] using h

theorem writesFloor_writeOp {entry : String × Option String} :
    WritesFloor (writeOp entry) ↔ entry.1 ∈ floorKeys := by
  unfold writeOp
  cases given entry.2 <;> rfl

theorem toFloat_reads (text : String) : (toFloat env text).Calls IsRead := by
  unfold toFloat
  split <;> trivial

theorem toFloat_num {x : Number α} {text : String} (h : env.float text = some x) :
    toFloat env text = .ret x := by
  rw [toFloat, h]

theorem exec_of_isRead {op : Op} (h : IsRead op) (i : Unit) (s : AppSettings) : (exec t op i s).1 = s := by
  cases op with
  | selectValue key => rfl
  | upsert key value => exact h.elim
  | delete key => exact h.elim
  | selectAll => rfl

section SameFloors

variable {s' : AppSettings}

def SameFloors (env : Env α) (s s' : AppSettings) : Prop :=
  ∀ key ∈ floorKeys, effectiveText env s' key = effectiveText env s key

theorem SameFloors.refl (s : AppSettings) : SameFloors env s s := fun _ _ => rfl

theorem sameFloors_write {entry : String × Option String} (h : entry.1 ∉ floorKeys) (t : Nat)
    (s : AppSettings) : SameFloors env s (exec t (writeOp entry) () s).1 := by
  intro key hkey
  rw [effectiveText_write, if_neg]
  rintro rfl
  exact h hkey

theorem SameFloors.prospectiveText (h : SameFloors env s s') (values : List (String × Option String))
    {key : String} (hkey : key ∈ floorKeys) :
    Tuning.prospectiveText env values s' key = Tuning.prospectiveText env values s key := by
  unfold Tuning.prospectiveText
  split
  · rfl
  · exact h key hkey

end SameFloors

end Texts

variable [LinearOrder α]

def Ordered (mean perc5 : String) : Prop :=
  ∃ m p, env.float mean = some (.num m) ∧ env.float perc5 = some (.num p) ∧ p ≤ m

def Coherent (s : AppSettings) : Prop :=
  Ordered env (effectiveText env s "vmaf_safety_mean") (effectiveText env s "vmaf_safety_perc5")

def CoherentAfter (values : List (String × Option String)) (s : AppSettings) : Prop :=
  Ordered env (prospectiveText env values s "vmaf_safety_mean")
    (prospectiveText env values s "vmaf_safety_perc5")

-- An update that has made its check, and what it has still to write.
inductive Past (body : TuningUpdate) : List (String × Option String) → Route α (Reply α) → Prop
  | warning {q : Route α (Option (Number α × Number α))} : validate env body.values = .ok () →
      (warn env body.values).Leads q → Past body body.values (q.bind (applying env body.values))
  | writing {rest : List (String × Option String)} (warning : Option (Number α × Number α)) :
      validate env body.values = .ok () → rest <:+ body.values → Past body rest (applying env rest warning)

def Pending (rest : List (String × Option String)) : Prop := ∃ key ∈ floorKeys, touches rest key

-- Between its two floors.
def Halfway (body : TuningUpdate) (p : Route α (Reply α)) : Prop :=
  ∃ rest, Past env body rest p ∧ Pending rest ∧
    ∃ key ∈ floorKeys, touches body.values key ∧ ¬ touches rest key

-- With a floor to write, and one that it has read or written.
def Exposed (body : TuningUpdate) (p : Route α (Reply α)) : Prop :=
  ∃ rest, Past env body rest p ∧ Pending rest ∧ ∃ key ∈ floorKeys, ¬ touches rest key

abbrev TuningThread (α : Type) := Thread Request Op Op.Answer (TuningError α) (Reply α)

abbrev TuningConfig (α : Type) := Config Nat Request Op Op.Answer AppSettings (TuningError α) (Reply α)

def HalfwayThread (th : TuningThread α) : Prop :=
  ∃ body, th.request = .update body ∧ Halfway env body th.rest

def ExposedThread (th : TuningThread α) : Prop :=
  (∃ body, th.request = .update body ∧ Exposed env body th.rest) ∨
    th.request = .claim ∧ th.rest ≠ claimFloors env ∧ th.rest.outcome = none

-- No floor is written while another request goes by one that it has read or written, and no claim
-- reads a floor while an update is between its two.
def Apart (d : TuningConfig α) (t : Nat) (op : Op) : Prop :=
  (WritesFloor op → ∀ t' th, t' ≠ t → d.threads t' = some th → ¬ ExposedThread env th) ∧
    ((∃ th, d.threads t = some th ∧ th.request = .claim) →
      ∀ t' th, d.threads t' = some th → ¬ HalfwayThread env th)

section Validated

variable {env} {s : AppSettings} {values : List (String × Option String)} {key text : String}
  {entry : String × Option String} {t : Nat}

theorem validateVmaf_ok {x : String} (h : validateVmaf env text = .ok x) :
    x = text ∧ ∃ score, env.float text = some (.num score) := by
  unfold validateVmaf at h
  split at h
  · cases h
  · next score hscore =>
    split at h
    · next hrange =>
      cases h
      cases score with
      | nan => simp [Number.le] at hrange
      | num score => exact ⟨rfl, score, hscore⟩
    · cases h

theorem validator_ok {validator : String → Except (Detail α) String} {x : String}
    (hlookup : (tunableKeys env).lookup key = some validator) (h : validator text = .ok x) :
    x = text ∧ (key ∈ floorKeys → ∃ score, env.float text = some (.num score)) := by
  have hmem := mem_of_lookup hlookup
  simp only [tunableKeys, List.mem_cons, Prod.mk.injEq, List.not_mem_nil, or_false] at hmem
  have hcodec : validator = validateCodec → x = text := by
    rintro rfl
    unfold validateCodec at h
    split at h <;> cases h
    rfl
  have hquality : validator = validateQuality env → x = text := by
    rintro rfl
    unfold validateQuality at h
    split at h
    · cases h
    · split at h <;> cases h
      rfl
  rcases hmem with ⟨rfl, hv⟩ | ⟨rfl, hv⟩ | ⟨rfl, hv⟩ | ⟨rfl, hv⟩ | ⟨rfl, hv⟩ | ⟨rfl, hv⟩ | ⟨rfl, hv⟩
  · exact ⟨hcodec hv, by simp [floorKeys]⟩
  · obtain ⟨hx, hscore⟩ := validateVmaf_ok (hv ▸ h)
    exact ⟨hx, fun _ => hscore⟩
  · obtain ⟨hx, hscore⟩ := validateVmaf_ok (hv ▸ h)
    exact ⟨hx, fun _ => hscore⟩
  · obtain ⟨hx, hscore⟩ := validateVmaf_ok (hv ▸ h)
    exact ⟨hx, fun _ => hscore⟩
  · exact ⟨hquality hv, by simp [floorKeys]⟩
  · exact ⟨hquality hv, by simp [floorKeys]⟩
  · exact ⟨hquality hv, by simp [floorKeys]⟩

theorem validate_entry (h : validate env values = .ok ()) (hmem : entry ∈ values) :
    ∃ validator, (tunableKeys env).lookup entry.1 = some validator ∧
      ∀ text, given entry.2 = some text → validator text = .ok text := by
  induction values with
  | nil => cases hmem
  | cons first values ih =>
    obtain ⟨key, value⟩ := first
    simp only [validate] at h
    split at h
    · cases h
    · next validator hlookup =>
      have hrest : validate env values = .ok () := by
        split at h
        · exact h
        · split at h
          · cases h
          · exact h
      rcases List.mem_cons.mp hmem with rfl | hmem
      · refine ⟨validator, hlookup, fun text htext => ?_⟩
        have htext' : given value = some text := htext
        rw [htext'] at h
        cases hvalidator : validator text with
        | error detail => simp [hvalidator] at h
        | ok x => rw [(validator_ok hlookup hvalidator).1]
      · exact ih hrest hmem

theorem write_eq (h : validate env values = .ok ()) (hmem : entry ∈ values) :
    write env entry = .call (writeOp entry) fun _ => .ret () := by
  obtain ⟨validator, hlookup, hvalidator⟩ := validate_entry h hmem
  unfold write writeOp
  cases hgiven : given entry.2 with
  | none => rfl
  | some text =>
    simp only [setOverride, hlookup, hvalidator text hgiven]
    rfl

def Valid (env : Env α) (s : AppSettings) : Prop :=
  ∀ key ∈ floorKeys, ∃ x, env.float (effectiveText env s key) = some (.num x)

theorem valid_of_coherent (h : Coherent env s) : Valid env s := by
  obtain ⟨m, p, hmean, hperc5, -⟩ := h
  intro key hkey
  rcases floorKeys_cases hkey with rfl | rfl
  · exact ⟨m, hmean⟩
  · exact ⟨p, hperc5⟩

theorem float_getD_given (hdefault : Valid env .empty) (h : validate env values = .ok ())
    (hmem : entry ∈ values) (hkey : entry.1 ∈ floorKeys) :
    ∃ x, env.float ((given entry.2).getD (env.settings entry.1)) = some (.num x) := by
  cases hgiven : given entry.2 with
  | none => exact hdefault entry.1 hkey
  | some text =>
    obtain ⟨validator, hlookup, hvalidator⟩ := validate_entry h hmem
    exact (validator_ok hlookup (hvalidator text hgiven)).2 hkey

theorem valid_prospective (hdefault : Valid env .empty) (hs : Valid env s)
    (h : validate env values = .ok ()) (hkey : key ∈ floorKeys) :
    ∃ x, env.float (prospectiveText env values s key) = some (.num x) := by
  unfold prospectiveText
  cases hlookup : values.lookup key with
  | none => exact hs key hkey
  | some value =>
    exact float_getD_given hdefault h (mem_of_lookup hlookup) hkey

theorem valid_write (hdefault : Valid env .empty) (hs : Valid env s)
    (h : validate env values = .ok ()) (hmem : entry ∈ values) :
    Valid env (exec t (writeOp entry) () s).1 := by
  intro key hkey
  rw [effectiveText_write]
  split
  · next hentry =>
    subst hentry
    exact float_getD_given hdefault h hmem hkey
  · exact hs key hkey

end Validated

section Checked

variable {env} {s : AppSettings} {values : List (String × Option String)} {key : String}
  {mean perc5 : String}

theorem prospective_of_touches (s : AppSettings) (h : touches values key) :
    prospective env values key = toFloat env (prospectiveText env values s key) := by
  unfold prospective prospectiveText
  cases hlookup : values.lookup key with
  | none => exact absurd h (lookup_eq_none.mp hlookup)
  | some value => rfl

theorem effective_eq (h : tunable env key = true) :
    effective env key = .call (.selectValue key) fun row => .ret (row.getD (env.settings key)) := by
  rw [effective, if_pos h]
  rfl

theorem prospective_of_not_touches (htunable : tunable env key = true) (h : ¬ touches values key) :
    prospective env values key =
      .call (.selectValue key) fun row => toFloat env (row.getD (env.settings key)) := by
  unfold prospective
  rw [lookup_eq_none.mpr h]
  simp only [Program.bind_eq, effective_eq htunable, Program.call_bind, Program.ret_bind]

theorem floorKeys_tunable (hkey : key ∈ floorKeys) : tunable env key = true := by
  rcases floorKeys_cases hkey with rfl | rfl <;> rfl

-- The comparison, once both floors are read.
def judge (mean perc5 : Number α) : Route α Unit :=
  if mean.lt perc5 then .raise (.badRequest (.perc5AboveMean perc5 mean)) else .ret ()

theorem judge_cases {m p : α} (hmean : env.float mean = some (.num m))
    (hperc5 : env.float perc5 = some (.num p)) :
    (∃ e, judge (Number.num m) (.num p) = .raise e) ∨
      judge (Number.num m) (.num p) = .ret () ∧ Ordered env mean perc5 := by
  unfold judge
  split
  · exact .inl ⟨_, rfl⟩
  · next h =>
    simp only [Number.lt, decide_eq_true_eq, not_lt] at h
    exact .inr ⟨rfl, m, p, hmean, hperc5, h⟩

theorem checkFloors_untouched (hmean : ¬ touches values "vmaf_safety_mean")
    (hperc5 : ¬ touches values "vmaf_safety_perc5") : checkFloors env values = .ret () := by
  simp [checkFloors, floorKeys, hmean, hperc5]

theorem checkFloors_touched (h : touches values "vmaf_safety_mean" ∨ touches values "vmaf_safety_perc5") :
    checkFloors env values = (prospective env values "vmaf_safety_mean").bind fun mean =>
      (prospective env values "vmaf_safety_perc5").bind fun perc5 => judge mean perc5 := by
  have htouched : floorKeys.any (touches values) = true := by simpa [floorKeys] using h
  rw [checkFloors, if_pos htouched]
  rfl

theorem judge_coherent {m p : α}
    (hm : env.float (prospectiveText env values s "vmaf_safety_mean") = some (.num m))
    (hp : env.float (prospectiveText env values s "vmaf_safety_perc5") = some (.num p)) :
    (∃ e, judge (Number.num m) (.num p) = .raise e) ∨
      judge (Number.num m) (.num p) = .ret () ∧ CoherentAfter env values s :=
  judge_cases hm hp

theorem read_eq (h : ¬ touches values key) :
    ((s.get? key).map Setting.value).getD (env.settings key) = prospectiveText env values s key := by
  rw [prospectiveText_of_not_touches h, effectiveText]

-- The check reads the floor that is not set, if one is and the other is not.
theorem checkFloors_cases (hdefault : Valid env .empty) (h : validate env values = .ok ()) :
    (∃ e, checkFloors env values = .raise e) ∨
    (checkFloors env values = .ret () ∧ ∀ s, Pending values → CoherentAfter env values s) ∨
    ∃ key k, checkFloors env values = .call (.selectValue key) k ∧
      ∀ s, Valid env s → (∃ e, k ((s.get? key).map Setting.value) = .raise e) ∨
        k ((s.get? key).map Setting.value) = .ret () ∧ CoherentAfter env values s := by
  have hmeanTunable : tunable env "vmaf_safety_mean" = true := floorKeys_tunable mean_mem
  have hperc5Tunable : tunable env "vmaf_safety_perc5" = true := floorKeys_tunable perc5_mem
  by_cases hmean : touches values "vmaf_safety_mean" = true
  · obtain ⟨m, hm⟩ := valid_prospective hdefault hdefault h mean_mem
    rw [checkFloors_touched (.inl hmean), prospective_of_touches .empty hmean, toFloat_num hm,
      Program.ret_bind]
    by_cases hperc5 : touches values "vmaf_safety_perc5" = true
    · obtain ⟨p, hp⟩ := valid_prospective hdefault hdefault h perc5_mem
      rw [prospective_of_touches .empty hperc5, toFloat_num hp, Program.ret_bind]
      rcases judge_coherent hm hp with hraise | ⟨hret, hcoherent⟩
      · exact .inl hraise
      · refine .inr (.inl ⟨hret, fun s _ => ?_⟩)
        rw [CoherentAfter, prospectiveText_of_touches s .empty hmean,
          prospectiveText_of_touches s .empty hperc5]
        exact hcoherent
    · rw [prospective_of_not_touches hperc5Tunable hperc5]
      refine .inr (.inr ⟨_, _, rfl, fun s hs => ?_⟩)
      obtain ⟨p, hp⟩ := valid_prospective hdefault hs h perc5_mem
      rw [prospectiveText_of_touches .empty s hmean] at hm
      simp only [read_eq hperc5, toFloat_num hp, Program.ret_bind]
      exact judge_coherent hm hp
  · by_cases hperc5 : touches values "vmaf_safety_perc5" = true
    · obtain ⟨p, hp⟩ := valid_prospective hdefault hdefault h perc5_mem
      rw [checkFloors_touched (.inr hperc5), prospective_of_touches .empty hperc5, toFloat_num hp,
        prospective_of_not_touches hmeanTunable hmean]
      refine .inr (.inr ⟨_, _, rfl, fun s hs => ?_⟩)
      obtain ⟨m, hm⟩ := valid_prospective hdefault hs h mean_mem
      rw [prospectiveText_of_touches .empty s hperc5] at hp
      simp only [read_eq hmean, toFloat_num hm, Program.ret_bind]
      exact judge_coherent hm hp
    · rw [checkFloors_untouched hmean hperc5]
      refine .inr (.inl ⟨rfl, fun s hpending => ?_⟩)
      obtain ⟨key, hkey, htouched⟩ := hpending
      rcases floorKeys_cases hkey with rfl | rfl
      · exact absurd htouched hmean
      · exact absurd htouched hperc5

end Checked

end TranscodeForge.Tuning
