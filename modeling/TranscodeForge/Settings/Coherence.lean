import TranscodeForge.Interaction.Sequence
import TranscodeForge.Settings.Floors
import Mathlib.Algebra.Order.Ring.Rat

namespace TranscodeForge.Tuning

open Interaction Relational

variable {α : Type} [LinearOrder α] {env : Env α}

section Reads

variable {key : String} {values : List (String × Option String)}

theorem effective_reads (key : String) : (effective env key).Calls IsRead := by
  unfold effective
  split
  · exact ⟨trivial, fun _ => trivial⟩
  · trivial

theorem prospective_reads (key : String) : (prospective env values key).Calls IsRead := by
  unfold prospective
  split
  · exact toFloat_reads _
  · exact (effective_reads key).bind toFloat_reads

theorem warn_reads : (warn env values).Calls IsRead := by
  unfold warn
  split
  · exact (prospective_reads _).bind fun _ => (prospective_reads _).bind fun _ => trivial
  · trivial

theorem allEffective_reads (keys : List String) : (allEffective env keys).Calls IsRead := by
  induction keys with
  | nil => trivial
  | cons key keys ih => exact (effective_reads key).bind fun _ => ih.bind fun _ => trivial

theorem respond_reads (warning : Option (Number α × Number α)) :
    (respond env warning).Calls IsRead :=
  (allEffective_reads _).bind fun _ =>
    Program.Calls.bind (p := allOverrides) ⟨trivial, fun _ => trivial⟩ fun _ => trivial

end Reads

section Updates

variable {body : TuningUpdate} {rest : List (String × Option String)} {op : Op}
  {k : op.Answer → Route α (Reply α)} {p : Route α (Reply α)} {s : AppSettings}

def passed (env : Env α) (body : TuningUpdate) : Route α (Reply α) :=
  (warn env body.values).bind (applying env body.values)

theorem updateTuning_cases (hdefault : Valid env .empty) (body : TuningUpdate) :
    (∃ e, updateTuning env body = .raise e) ∨
    (Past env body body.values (updateTuning env body) ∧
      ∀ s, Pending body.values → CoherentAfter env body.values s) ∨
    ∃ key k, updateTuning env body = .call (.selectValue key) k ∧
      ∀ s, Valid env s → (∃ e, k ((s.get? key).map Setting.value) = .raise e) ∨
        Past env body body.values (k ((s.get? key).map Setting.value)) ∧
          CoherentAfter env body.values s := by
  have hbody : updateTuning env body = (Program.ofExcept (validate env body.values)).bind fun _ =>
      (checkFloors env body.values).bind fun _ => passed env body := rfl
  rw [hbody]
  cases hvalidate : validate env body.values with
  | error e => exact .inl ⟨e, rfl⟩
  | ok u =>
    have hpast : Past env body body.values (passed env body) := .warning hvalidate .refl
    change (∃ e, (checkFloors env body.values).bind (fun _ => passed env body) = .raise e) ∨ _ ∨ _
    rcases checkFloors_cases hdefault hvalidate with ⟨e, hraise⟩ | ⟨hret, hafter⟩ | ⟨key, k, hcall, hk⟩
    · exact .inl ⟨e, by rw [hraise]; rfl⟩
    · refine .inr (.inl ⟨?_, hafter⟩)
      change Past env body body.values ((checkFloors env body.values).bind fun _ => passed env body)
      rw [hret]
      exact hpast
    · refine .inr (.inr ⟨key, fun row => (k row).bind fun _ => passed env body, ?_, fun s hs => ?_⟩)
      · change (checkFloors env body.values).bind (fun _ => passed env body) = _
        rw [hcall]
        rfl
      · rcases hk s hs with ⟨e, hraise⟩ | ⟨hret, hafter⟩
        · exact .inl ⟨e, by simp only [hraise, Program.raise_bind]⟩
        · refine .inr ⟨?_, hafter⟩
          simp only [hret, Program.ret_bind]
          exact hpast

theorem applying_cons {entry : String × Option String} (hvalidate : validate env body.values = .ok ())
    (hmem : entry ∈ body.values) (warning : Option (Number α × Number α)) :
    applying env (entry :: rest) warning = .call (writeOp entry) fun _ => applying env rest warning := by
  unfold applying
  rw [Program.each, write_eq hvalidate hmem]
  rfl

-- What an update that has made its check does next.
theorem Past.step (h : Past env body rest (.call op k)) :
    (IsRead op ∧ ((∀ a, Past env body rest (k a)) ∨ rest = [] ∧ ∀ a, (k a).Calls IsRead)) ∨
    ∃ entry rest', rest = entry :: rest' ∧ op = writeOp entry ∧ entry ∈ body.values ∧
      ¬ touches rest' entry.1 ∧ validate env body.values = .ok () ∧ ∀ a, Past env body rest' (k a) := by
  have hwriting : ∀ {rest : List (String × Option String)} {warning : Option (Number α × Number α)},
      validate env body.values = .ok () → rest <:+ body.values →
      applying env rest warning = .call op k →
      (IsRead op ∧ ((∀ a, Past env body rest (k a)) ∨ rest = [] ∧ ∀ a, (k a).Calls IsRead)) ∨
      ∃ entry rest', rest = entry :: rest' ∧ op = writeOp entry ∧ entry ∈ body.values ∧
        ¬ touches rest' entry.1 ∧ validate env body.values = .ok () ∧ ∀ a, Past env body rest' (k a) := by
    intro rest warning hvalidate hsuffix heq
    cases rest with
    | nil =>
      have hreads : (Program.call op k).Calls IsRead := heq ▸ respond_reads warning
      exact .inl ⟨hreads.1, .inr ⟨rfl, hreads.2⟩⟩
    | cons entry rest =>
      have hmem : entry ∈ body.values := hsuffix.mem List.mem_cons_self
      have hunique := body.unique.sublist (hsuffix.sublist.map Prod.fst)
      have hfresh : ¬ touches rest entry.1 = true := by
        rw [List.map_cons, List.nodup_cons] at hunique
        simpa [touches] using hunique.1
      rw [applying_cons hvalidate hmem] at heq
      cases heq
      exact .inr ⟨entry, rest, rfl, rfl, hmem, hfresh, hvalidate,
        fun _ => .writing warning hvalidate ((List.suffix_cons _ _).trans hsuffix)⟩
  generalize hcall : Program.call op k = p at h
  cases h with
  | @warning q hvalidate hleads =>
    cases q with
    | ret w => exact hwriting hvalidate (List.suffix_refl _) hcall.symm
    | raise e => cases hcall
    | call op' k' =>
      cases hcall
      have hreads := hleads.calls warn_reads
      exact .inl ⟨hreads.1, .inl fun a => .warning hvalidate (hleads.next a)⟩
  | writing w hvalidate hsuffix => exact hwriting hvalidate hsuffix hcall.symm

theorem Past.outcome_none (h : Past env body rest p) (hne : rest ≠ []) (hpart : rest ≠ body.values) :
    p.outcome = none := by
  cases h with
  | warning => exact absurd rfl hpart
  | writing w hvalidate hsuffix =>
    obtain ⟨entry, rest, rfl⟩ := List.exists_cons_of_ne_nil hne
    rw [applying_cons hvalidate (hsuffix.mem List.mem_cons_self)]
    rfl

-- How far an update has come.
inductive Stage (env : Env α) (s : AppSettings) (body : TuningUpdate) (p : Route α (Reply α)) : Prop
  | arrived : p = updateTuning env body → Stage env s body p
  | past {rest : List (String × Option String)} : Past env body rest p →
      (Pending rest → CoherentAfter env rest s) → Stage env s body p
  | done : p.Calls IsRead → Stage env s body p

theorem coherentAfter_write {entry : String × Option String} (hfresh : ¬ touches rest entry.1)
    (t : Nat) (s : AppSettings) : CoherentAfter env rest (exec t (writeOp entry) () s).1 ↔
      CoherentAfter env (entry :: rest) s := by
  unfold CoherentAfter
  rw [prospectiveText_write hfresh, prospectiveText_write hfresh]

theorem coherentAfter_untouched (h : ¬ Pending rest) : CoherentAfter env rest s ↔ Coherent env s := by
  have huntouched : ∀ key ∈ floorKeys, ¬ touches rest key := fun key hkey htouches =>
    h ⟨key, hkey, htouches⟩
  unfold CoherentAfter Coherent
  rw [prospectiveText_of_not_touches (huntouched _ mean_mem),
    prospectiveText_of_not_touches (huntouched _ perc5_mem)]

theorem coherentAfter_covered {s' : AppSettings} (h : ∀ key ∈ floorKeys, touches rest key) :
    CoherentAfter env rest s ↔ CoherentAfter env rest s' := by
  unfold CoherentAfter
  rw [prospectiveText_of_touches s s' (h _ mean_mem), prospectiveText_of_touches s s' (h _ perc5_mem)]

-- A call of an update reads, or writes what it sets next.
theorem Stage.step (hdefault : Valid env .empty) (hvalid : Valid env s)
    (h : Stage env s body (.call op k)) (t : Nat) :
    (IsRead op ∧ Stage env s body (k (exec t op () s).2)) ∨
    ∃ entry rest, op = writeOp entry ∧ entry ∈ body.values ∧ ¬ touches rest entry.1 ∧
      validate env body.values = .ok () ∧ Past env body rest (k (exec t op () s).2) ∧
      (entry.1 ∈ floorKeys ∨ Pending rest → CoherentAfter env rest (exec t op () s).1) := by
  have hpassed : ∀ {rest : List (String × Option String)}, Past env body rest (.call op k) →
      (Pending rest → CoherentAfter env rest s) →
      (IsRead op ∧ Stage env s body (k (exec t op () s).2)) ∨
      ∃ entry rest, op = writeOp entry ∧ entry ∈ body.values ∧ ¬ touches rest entry.1 ∧
        validate env body.values = .ok () ∧ Past env body rest (k (exec t op () s).2) ∧
        (entry.1 ∈ floorKeys ∨ Pending rest → CoherentAfter env rest (exec t op () s).1) := by
    intro rest hpast hafter
    rcases hpast.step with ⟨hread, hrest | ⟨-, hreads⟩⟩ |
      ⟨entry, rest', rfl, rfl, hmem, hfresh, hvalidate, hrest⟩
    · exact .inl ⟨hread, .past (hrest _) hafter⟩
    · exact .inl ⟨hread, .done (hreads _)⟩
    · refine .inr ⟨entry, rest', rfl, hmem, hfresh, hvalidate, hrest _, fun hfloor => ?_⟩
      rw [coherentAfter_write hfresh]
      apply hafter
      rcases hfloor with hfloor | ⟨key, hkey, htouches⟩
      · exact ⟨entry.1, hfloor, by simp [touches]⟩
      · refine ⟨key, hkey, ?_⟩
        simp only [touches, List.map_cons, List.mem_cons, decide_eq_true_eq] at htouches ⊢
        exact .inr htouches
  cases h with
  | arrived hp =>
    rcases updateTuning_cases hdefault body with ⟨e, hraise⟩ | ⟨hpast, hafter⟩ | ⟨key, k', hcall, hk⟩
    · rw [hraise] at hp
      cases hp
    · exact hpassed (hp ▸ hpast) (hafter s)
    · rw [hcall] at hp
      cases hp
      refine .inl ⟨trivial, ?_⟩
      rcases hk s hvalid with ⟨e, hraise⟩ | ⟨hpast, hafter⟩
      · refine .done ?_
        change (k' ((s.get? key).map Setting.value)).Calls IsRead
        rw [hraise]
        trivial
      · exact .past hpast fun _ => hafter
  | past hpast hafter => exact hpassed hpast hafter
  | done hreads => exact .inl ⟨hreads.1, .done (hreads.2 _)⟩

theorem Halfway.step (h : Halfway env body (.call op k)) (hfloor : ¬ WritesFloor op) (a : op.Answer) :
    Halfway env body (k a) := by
  obtain ⟨rest, hpast, hpending, key, hkey, hbody, hwritten⟩ := h
  rcases hpast.step with ⟨-, hrest | ⟨rfl, -⟩⟩ | ⟨entry, rest', rfl, rfl, -, -, -, hrest⟩
  · exact ⟨rest, hrest a, hpending, key, hkey, hbody, hwritten⟩
  · obtain ⟨key', -, htouches⟩ := hpending
    simp [touches] at htouches
  · rw [writesFloor_writeOp] at hfloor
    refine ⟨rest', hrest a, ?_, key, hkey, hbody, fun htouches => hwritten ?_⟩
    · obtain ⟨key', hkey', htouches⟩ := hpending
      refine ⟨key', hkey', ?_⟩
      have hne : key' ≠ entry.1 := by
        rintro rfl
        exact hfloor hkey'
      simpa [touches, hne] using htouches
    · simp only [touches, List.map_cons, List.mem_cons, decide_eq_true_eq] at htouches ⊢
      exact .inr htouches

theorem Halfway.outcome_none (h : Halfway env body p) : p.outcome = none := by
  obtain ⟨rest, hpast, hpending, key, hkey, hbody, hwritten⟩ := h
  refine hpast.outcome_none ?_ ?_
  · rintro rfl
    obtain ⟨key', -, htouches⟩ := hpending
    simp [touches] at htouches
  · rintro rfl
    exact hwritten hbody

-- The update with what it has written is between its two floors, or done with them.
theorem Past.written {entry : String × Option String} (h : Past env body rest p)
    (hmem : entry ∈ body.values) (hfresh : ¬ touches rest entry.1) (hfloor : entry.1 ∈ floorKeys)
    (hafter : CoherentAfter env rest s) : Coherent env s ∨ Halfway env body p := by
  by_cases hpending : Pending rest
  · have htouches : touches body.values entry.1 = true := by
      simpa [touches] using ⟨entry.2, hmem⟩
    exact .inr ⟨rest, h, hpending, entry.1, hfloor, htouches, hfresh⟩
  · exact .inl ((coherentAfter_untouched hpending).mp hafter)

end Updates

section SameFloors

variable {s s' : AppSettings}

theorem SameFloors.coherent (h : SameFloors env s s') (hs : Coherent env s) : Coherent env s' := by
  unfold Coherent
  rw [h _ mean_mem, h _ perc5_mem]
  exact hs

theorem SameFloors.stage (h : SameFloors env s s') {body : TuningUpdate} {p : Route α (Reply α)}
    (hstage : Stage env s body p) : Stage env s' body p := by
  cases hstage with
  | arrived hp => exact .arrived hp
  | past hpast hafter =>
    refine .past hpast fun hpending => ?_
    unfold CoherentAfter
    rw [h.prospectiveText _ mean_mem, h.prospectiveText _ perc5_mem]
    exact hafter hpending
  | done hreads => exact .done hreads

end SameFloors

-- An update that is not exposed has all its floors still to write.
theorem Stage.unexposed {s s' : AppSettings} {body : TuningUpdate} {p : Route α (Reply α)}
    (h : Stage env s body p) (hexposed : ¬ Exposed env body p) : Stage env s' body p := by
  cases h with
  | arrived hp => exact .arrived hp
  | @past rest hpast hafter =>
    refine .past hpast fun hpending => ?_
    have hcovered : ∀ key ∈ floorKeys, touches rest key := by
      intro key hkey
      by_contra huntouched
      exact hexposed ⟨rest, hpast, hpending, key, hkey, huntouched⟩
    exact (coherentAfter_covered hcovered).mp (hafter hpending)
  | done hreads => exact .done hreads

section Claims

variable {s s' : AppSettings} {op : Op} {k : op.Answer → Route α (Reply α)} {p : Route α (Reply α)}

def meanFloor (env : Env α) (perc5 : Number α) : Route α (Reply α) :=
  .call (.selectValue "vmaf_safety_mean") fun row =>
    (toFloat env (row.getD (env.settings "vmaf_safety_mean"))).bind fun mean => .ret (.floors mean perc5)

theorem claimFloors_eq : claimFloors env = .call (.selectValue "vmaf_safety_perc5") fun row =>
    (toFloat env (row.getD (env.settings "vmaf_safety_perc5"))).bind (meanFloor env) := rfl

def Handed (p : Route α (Reply α)) : Prop :=
  ∀ mean perc5, p = .ret (.floors mean perc5) → ∃ m q, mean = .num m ∧ perc5 = .num q ∧ q ≤ m

inductive ClaimStage (env : Env α) (s : AppSettings) (p : Route α (Reply α)) : Prop
  | arrived : p = claimFloors env → ClaimStage env s p
  | between {x : α} : p = meanFloor env (.num x) →
      env.float (effectiveText env s "vmaf_safety_perc5") = some (.num x) → Coherent env s →
      ClaimStage env s p
  | done : p.outcome.isSome → Handed p → ClaimStage env s p

theorem SameFloors.claimStage (h : SameFloors env s s') (hstage : ClaimStage env s p) :
    ClaimStage env s' p := by
  cases hstage with
  | arrived hp => exact .arrived hp
  | between hp hperc5 hcoherent =>
    refine .between hp ?_ (h.coherent hcoherent)
    rw [h _ perc5_mem]
    exact hperc5
  | done hdone hhanded => exact .done hdone hhanded

-- A claim that is not exposed has not read a floor, or has read both.
theorem ClaimStage.unexposed (h : ClaimStage env s p)
    (hexposed : ¬ (p ≠ claimFloors env ∧ p.outcome = none)) : ClaimStage env s' p := by
  cases h with
  | arrived hp => exact .arrived hp
  | between hp =>
    refine absurd ⟨?_, ?_⟩ hexposed
    · rw [hp, claimFloors_eq]
      intro heq
      injection heq with hop
      injection hop with hkey
      exact absurd hkey (by decide)
    · rw [hp]
      rfl
  | done hdone hhanded => exact .done hdone hhanded

theorem ClaimStage.step (hvalid : Valid env s) (h : ClaimStage env s (.call op k))
    (hcoherent : Coherent env s) (t : Nat) :
    IsRead op ∧ ClaimStage env s (k (exec t op () s).2) := by
  cases h with
  | arrived hp =>
    rw [claimFloors_eq] at hp
    cases hp
    obtain ⟨x, hx⟩ := hvalid _ perc5_mem
    refine ⟨trivial, .between (x := x) ?_ hx hcoherent⟩
    change (toFloat env (effectiveText env s "vmaf_safety_perc5")).bind (meanFloor env) = _
    rw [toFloat_num hx]
    rfl
  | @between x hp hperc5 =>
    cases hp
    obtain ⟨m, q, hmean, hperc5', hle⟩ := hcoherent
    have hret : (toFloat env (effectiveText env s "vmaf_safety_mean")).bind
        (fun mean => .ret (Reply.floors mean (.num x))) = .ret (.floors (.num m) (.num x)) := by
      rw [toFloat_num hmean]
      rfl
    refine ⟨trivial, ?_⟩
    change ClaimStage env s ((toFloat env (effectiveText env s "vmaf_safety_mean")).bind
      fun mean => .ret (Reply.floors mean (.num x)))
    rw [hret]
    refine .done rfl fun mean perc5 heq => ?_
    cases heq
    rw [hperc5] at hperc5'
    cases hperc5'
    exact ⟨m, x, rfl, rfl, hle⟩
  | done hdone => cases hdone

end Claims

section Runs

variable {d : TuningConfig α} {t : Nat}

structure Inv (env : Env α) (d : TuningConfig α) : Prop where
  valid : Valid env d.state
  coherent : Coherent env d.state ∨ ∃ t th, d.threads t = some th ∧ HalfwayThread env th
  updates : ∀ t body p, d.threads t = some ⟨.update body, p⟩ → Stage env d.state body p
  claims : ∀ t p, d.threads t = some ⟨.claim, p⟩ → ClaimStage env d.state p

theorem halfwayThread_update {body : TuningUpdate} {p : Route α (Reply α)} :
    HalfwayThread env ⟨.update body, p⟩ ↔ Halfway env body p := by
  constructor
  · rintro ⟨body', hbody, hhalfway⟩
    cases hbody
    exact hhalfway
  · exact fun hhalfway => ⟨body, rfl, hhalfway⟩

-- A step of one thread that leaves the floors as they are.
theorem Inv.quiet (h : Inv env d) {s' : AppSettings} {th : TuningThread α}
    (hsame : SameFloors env d.state s') (hvalid : Valid env s')
    (hupdate : ∀ body, th.request = .update body → Stage env s' body th.rest)
    (hclaim : th.request = .claim → ClaimStage env s' th.rest)
    (hhalfway : ∀ old, d.threads t = some old → HalfwayThread env old → HalfwayThread env th) :
    Inv env (d.setThread s' t (some th)) := by
  refine ⟨hvalid, ?_, fun t' body p hthread => ?_, fun t' p hthread => ?_⟩
  · rcases h.coherent with hcoherent | ⟨t', old, hold, hold'⟩
    · exact .inl (hsame.coherent hcoherent)
    · by_cases htt : t' = t
      · subst htt
        exact .inr ⟨t', th, d.threads_self _ _ _, hhalfway old hold hold'⟩
      · exact .inr ⟨t', old, (d.threads_of_ne _ _ htt).trans hold, hold'⟩
  · by_cases htt : t' = t
    · subst htt
      have hth : th = ⟨.update body, p⟩ :=
        Option.some.inj ((d.threads_self _ _ _).symm.trans hthread)
      subst hth
      exact hupdate body rfl
    · exact hsame.stage (h.updates t' body p ((d.threads_of_ne _ _ htt).symm.trans hthread))
  · by_cases htt : t' = t
    · subst htt
      have hth : th = ⟨.claim, p⟩ := Option.some.inj ((d.threads_self _ _ _).symm.trans hthread)
      subst hth
      exact hclaim rfl
    · exact hsame.claimStage (h.claims t' p ((d.threads_of_ne _ _ htt).symm.trans hthread))

-- A write of a floor, while no other thread is exposed.
theorem Inv.floor (h : Inv env d) {s' : AppSettings} {body : TuningUpdate} {p : Route α (Reply α)}
    (hvalid : Valid env s')
    (halone : ∀ t' th, t' ≠ t → d.threads t' = some th → ¬ ExposedThread env th)
    (hstage : Stage env s' body p) (hcoherent : Coherent env s' ∨ Halfway env body p) :
    Inv env (d.setThread s' t (some ⟨.update body, p⟩)) := by
  refine ⟨hvalid, ?_, fun t' body' p' hthread => ?_, fun t' p' hthread => ?_⟩
  · rcases hcoherent with hcoherent | hhalfway
    · exact .inl hcoherent
    · exact .inr ⟨t, _, d.threads_self _ _ _, halfwayThread_update.mpr hhalfway⟩
  · by_cases htt : t' = t
    · subst htt
      cases Option.some.inj ((d.threads_self _ _ _).symm.trans hthread)
      exact hstage
    · have hold : d.threads t' = some ⟨.update body', p'⟩ :=
        (d.threads_of_ne _ _ htt).symm.trans hthread
      exact (h.updates t' body' p' hold).unexposed fun hexposed =>
        halone t' _ htt hold (.inl ⟨body', rfl, hexposed⟩)
  · by_cases htt : t' = t
    · subst htt
      cases Option.some.inj ((d.threads_self _ _ _).symm.trans hthread)
    · have hold : d.threads t' = some ⟨.claim, p'⟩ := (d.threads_of_ne _ _ htt).symm.trans hthread
      exact (h.claims t' p' hold).unexposed fun hexposed =>
        halone t' _ htt hold (.inr ⟨rfl, hexposed⟩)

theorem inv_start (h : Inv env d) (hfree : d.threads t = none) (r : Request) :
    Inv env (d.setThread d.state t (some ⟨r, (service env).body t r⟩)) := by
  refine h.quiet (.refl _) h.valid ?_ ?_ ?_
  · rintro body hrequest
    cases hrequest
    exact .arrived rfl
  · intro hrequest
    cases hrequest
    exact .arrived rfl
  · intro old hold
    rw [hfree] at hold
    cases hold

theorem inv_retire (h : Inv env d) {th : TuningThread α} (hthread : d.threads t = some th)
    (hdone : th.rest.outcome.isSome) : Inv env (d.setThread d.state t none) := by
  have hkept : ∀ t' th', (d.setThread d.state t none).threads t' = some th' →
      d.threads t' = some th' := by
    intro t' th' hth'
    by_cases htt : t' = t
    · subst htt
      cases (d.threads_self _ _ _).symm.trans hth'
    · exact (d.threads_of_ne _ _ htt).symm.trans hth'
  refine ⟨h.valid, ?_, fun t' body p hth' => h.updates t' body p (hkept _ _ hth'),
    fun t' p hth' => h.claims t' p (hkept _ _ hth')⟩
  rcases h.coherent with hcoherent | ⟨t', old, hold, hhalfway⟩
  · exact .inl hcoherent
  · refine .inr ⟨t', old, ?_, hhalfway⟩
    have hne : t' ≠ t := by
      rintro rfl
      obtain rfl := Option.some.inj (hold.symm.trans hthread)
      obtain ⟨body, -, hhalf⟩ := hhalfway
      rw [hhalf.outcome_none] at hdone
      cases hdone
    exact (d.threads_of_ne _ _ hne).trans hold

theorem inv_call (hdefault : Valid env .empty) (h : Inv env d) {r : Request} {op : Op}
    {k : op.Answer → Route α (Reply α)} (hthread : d.threads t = some ⟨r, .call op k⟩)
    (hadmits : Apart env d t op) :
    Inv env (d.setThread (exec t op () d.state).1 t (some ⟨r, k (exec t op () d.state).2⟩)) := by
  cases r with
  | update body =>
    have hkeeps : ¬ WritesFloor op → ∀ old, d.threads t = some old → HalfwayThread env old →
        HalfwayThread env ⟨.update body, k (exec t op () d.state).2⟩ := by
      intro hfloor old hold hhalfway
      obtain rfl := Option.some.inj (hthread.symm.trans hold)
      exact halfwayThread_update.mpr ((halfwayThread_update.mp hhalfway).step hfloor _)
    rcases (h.updates t body _ hthread).step hdefault h.valid t with ⟨hread, hstage⟩ |
      ⟨entry, rest, rfl, hmem, hfresh, hvalidate, hpast, hafter⟩
    · have hsame : (exec t op () d.state).1 = d.state := exec_of_isRead hread () d.state
      rw [hsame]
      have hfloor : ¬ WritesFloor op := by
        intro hfloor
        cases op <;> first | exact hfloor | exact hread
      refine h.quiet (.refl _) h.valid ?_ ?_ (hkeeps hfloor)
      · rintro body' hrequest
        cases hrequest
        exact hstage
      · intro hrequest
        cases hrequest
    · have hvalid := valid_write (t := t) hdefault h.valid hvalidate hmem
      have hstage : Stage env (exec t (writeOp entry) () d.state).1 body
          (k (exec t (writeOp entry) () d.state).2) :=
        .past hpast fun hpending => hafter (.inr hpending)
      by_cases hfloor : entry.1 ∈ floorKeys
      · exact h.floor hvalid (hadmits.1 (writesFloor_writeOp.mpr hfloor)) hstage
          (hpast.written hmem hfresh hfloor (hafter (.inl hfloor)))
      · refine h.quiet (sameFloors_write hfloor t d.state) hvalid ?_ ?_
          (hkeeps (mt writesFloor_writeOp.mp hfloor))
        · rintro body' hrequest
          cases hrequest
          exact hstage
        · intro hrequest
          cases hrequest
  | claim =>
    have hcoherent : Coherent env d.state := by
      rcases h.coherent with hcoherent | ⟨t', th, hth, hhalfway⟩
      · exact hcoherent
      · exact absurd hhalfway (hadmits.2 ⟨_, hthread, rfl⟩ t' th hth)
    obtain ⟨hread, hstage⟩ := (h.claims t _ hthread).step h.valid hcoherent t
    rw [exec_of_isRead hread () d.state]
    refine h.quiet (.refl _) h.valid ?_ ?_ ?_
    · intro body hrequest
      cases hrequest
    · exact fun _ => hstage
    · intro old hold hhalfway
      obtain rfl := Option.some.inj (hthread.symm.trans hold)
      obtain ⟨body, hrequest, -⟩ := hhalfway
      cases hrequest

theorem run_inv (hdefault : Coherent env .empty) {s : AppSettings} (hs : Coherent env s)
    (h : GuardedRun (service env) (Apart env) (.initial s) d) : Inv env d := by
  refine h.invariant ?_ ?_ ?_ ?_ ?_
  · exact ⟨valid_of_coherent hs, .inl hs, fun t body p hth => (by cases hth),
      fun t p hth => (by cases hth)⟩
  · intro d t r s' hd hfree hs'
    cases hs'
    exact inv_start hd hfree r
  · intro d t r op k i hd hthread hadmits
    exact inv_call (valid_of_coherent hdefault) hd hthread hadmits
  · intro d t th hd hthread hdone
    exact inv_retire hd hthread hdone
  · intro d k hd
    exact k.elim

end Runs

section Refused

variable {δ β γ : Type}

-- Whatever it is answered, the program does not answer 400.
def NeverRefuses : Route δ β → Prop
  | .ret _ => True
  | .raise e => e = .valueError
  | .call _ k => ∀ r, NeverRefuses (k r)

theorem NeverRefuses.bind {p : Route δ β} {f : β → Route δ γ} (hp : NeverRefuses p)
    (hf : ∀ a, NeverRefuses (f a)) : NeverRefuses (p.bind f) := by
  induction p with
  | ret a => exact hf a
  | raise e => exact hp
  | call op k ih => exact fun r => ih r (hp r)

theorem exec_neverRefuses {H : Handler Nat Op Op.Answer AppSettings Unit} {t : Nat}
    {rely : AppSettings → AppSettings → Prop} {p q : Route δ β} {s s' : AppSettings}
    {es : List (CallRecord Op AppSettings Unit)} (h : Exec H t rely p s es q s')
    (hp : NeverRefuses p) : NeverRefuses q := by
  induction h with
  | refl => exact hp
  | call i _ _ _ ih => exact ih _

theorem effective_neverRefuses (key : String) : NeverRefuses (effective env key) := by
  unfold effective
  split
  · exact fun _ => trivial
  · rfl

theorem allEffective_neverRefuses (keys : List String) : NeverRefuses (allEffective env keys) := by
  induction keys with
  | nil => trivial
  | cons key keys ih => exact (effective_neverRefuses key).bind fun _ => ih.bind fun _ => trivial

theorem respond_neverRefuses (warning : Option (Number α × Number α)) :
    NeverRefuses (respond env warning) :=
  (allEffective_neverRefuses _).bind fun _ => NeverRefuses.bind (p := allOverrides) (fun _ => trivial)
    fun _ => trivial

theorem write_neverRefuses (entry : String × Option String) : NeverRefuses (write env entry) := by
  unfold write setOverride
  split
  · exact fun _ => trivial
  · split
    · rfl
    · split
      · rfl
      · exact fun _ => trivial

theorem applying_neverRefuses (values : List (String × Option String))
    (warning : Option (Number α × Number α)) : NeverRefuses (applying env values warning) := by
  refine NeverRefuses.bind ?_ fun _ => respond_neverRefuses warning
  induction values with
  | nil => trivial
  | cons entry values ih => exact (write_neverRefuses entry).bind fun _ => ih

theorem checking_reads (body : TuningUpdate) :
    ((Program.ofExcept (validate env body.values)).bind fun _ =>
      (checkFloors env body.values).bind fun _ => warn env body.values).Calls IsRead := by
  refine (Program.Calls.ofExcept _).bind fun _ => Program.Calls.bind ?_ fun _ => warn_reads
  unfold checkFloors
  split
  · refine (prospective_reads _).bind fun _ => (prospective_reads _).bind fun _ => ?_
    split <;> trivial
  · trivial

-- A request answered 400 has only read.
theorem refused_reads {body : TuningUpdate} {t : Nat} {s s' : AppSettings}
    {es : List (CallRecord Op AppSettings Unit)} {detail : Detail α}
    (h : Exec (service env).handler t (fun _ _ => True) (updateTuning env body) s es
      (.raise (.badRequest detail)) s') : ∀ e ∈ es, IsRead e.op := by
  have hbody : updateTuning env body = ((Program.ofExcept (validate env body.values)).bind fun _ =>
      (checkFloors env body.values).bind fun _ => warn env body.values).bind
        (applying env body.values) := by
    rw [Program.bind_assoc]
    simp only [Program.bind_assoc]
    rfl
  intro e he
  by_contra hwrite
  rw [hbody] at h
  obtain ⟨w, s₁, es₁, es₂, -, hrest, -, -⟩ := h.past (A := fun op => ¬ IsRead op)
    ((checking_reads body).mono fun op hop => not_not.mpr hop) ⟨e, he, hwrite⟩
  have hnever := exec_neverRefuses hrest (applying_neverRefuses body.values w)
  cases hnever

end Refused

section Samples

def sampleEnv : Env Rat where
  float text := ([("91.5", 183 / 2), ("86.0", 86), ("90", 90), ("88", 88), ("93.0", 93)].lookup text).map
    Number.num
  int _ := none
  lowest := 0
  highest := 100
  settings key := ([("vmaf_safety_mean", "91.5"), ("vmaf_safety_perc5", "86.0"),
    ("target_vmaf", "93.0")].lookup key).getD ""

theorem sampleEnv_coherent : Coherent sampleEnv .empty :=
  ⟨183 / 2, 86, by decide +kernel, by decide +kernel, by decide +kernel⟩

theorem apart_of_claims {d : TuningConfig Rat} {t : Nat} {op : Op} (hread : ¬ WritesFloor op)
    (h : ∀ t' th, d.threads t' = some th → th.request = .claim) : Apart sampleEnv d t op := by
  refine ⟨fun hfloor => absurd hfloor hread, fun _ t' th hth => ?_⟩
  rintro ⟨body, hrequest, -⟩
  rw [h t' th hth] at hrequest
  cases hrequest

theorem claims_setThread {d : TuningConfig Rat} {s : AppSettings} {t : Nat} {p : Route Rat (Reply Rat)}
    (h : ∀ t' th, d.threads t' = some th → th.request = .claim) :
    ∀ t' th, (d.setThread s t (some ⟨.claim, p⟩)).threads t' = some th → th.request = .claim := by
  intro t' th hth
  by_cases htt : t' = t
  · subst htt
    cases (d.threads_self _ _ _).symm.trans hth
    rfl
  · exact h t' th ((d.threads_of_ne _ _ htt).symm.trans hth)

def claiming (p : Route Rat (Reply Rat)) : TuningConfig Rat :=
  (Config.initial .empty : TuningConfig Rat).setThread .empty 0 (some ⟨.claim, p⟩)

theorem claiming_claims (p : Route Rat (Reply Rat)) :
    ∀ t th, (claiming p).threads t = some th → th.request = .claim :=
  claims_setThread fun t th hth => by cases hth

theorem claiming_setThread (p q : Route Rat (Reply Rat)) :
    (claiming p).setThread .empty 0 (some ⟨.claim, q⟩) = claiming q := by
  simp [claiming, Config.setThread]

-- What a claim on its own reads next.
theorem claiming_reads {key : String} {p : Route Rat (Reply Rat)} {x : Rat}
    {f : Number Rat → Route Rat (Reply Rat)}
    (h : GuardedRun (service sampleEnv) (Apart sampleEnv) (.initial .empty) (claiming p))
    (hp : p = .call (.selectValue key) fun row => (toFloat sampleEnv (row.getD (sampleEnv.settings key))).bind f)
    (hx : sampleEnv.float (sampleEnv.settings key) = some (.num x)) :
    GuardedRun (service sampleEnv) (Apart sampleEnv) (.initial .empty) (claiming (f (.num x))) := by
  subst hp
  have hthread : (claiming (.call (.selectValue key) fun row =>
      (toFloat sampleEnv (row.getD (sampleEnv.settings key))).bind f)).threads 0 = some ⟨.claim, _⟩ :=
    Config.threads_self _ _ _ _
  have hcall : GuardedRun (service sampleEnv) (Apart sampleEnv) (.initial .empty)
      ((claiming _).setThread .empty 0 (some ⟨.claim, (toFloat sampleEnv (sampleEnv.settings key)).bind f⟩)) :=
    h.call () hthread rfl (apart_of_claims id (claiming_claims _))
  have hanswer : (toFloat sampleEnv (sampleEnv.settings key)).bind f = f (.num x) := by
    rw [toFloat_num hx]
    rfl
  rw [← hanswer]
  rw [claiming_setThread] at hcall
  exact hcall

abbrev TuningMove := Move Nat Request Empty Unit

def playTuning (moves : List TuningMove) :
    Option (List (ThreadCall Nat Request Op AppSettings Unit) × TuningConfig Rat) :=
  (Config.initial .empty : TuningConfig Rat).playAll (service sampleEnv) moves

def raisePerc5 : TuningUpdate := ⟨[("vmaf_safety_perc5", some "90")], by decide⟩

def lowerMean : TuningUpdate := ⟨[("vmaf_safety_mean", some "88")], by decide⟩

def lowerBoth : TuningUpdate :=
  ⟨[("vmaf_safety_perc5", some "86.0"), ("vmaf_safety_mean", some "88")], by decide⟩

-- Both check before either writes.
def crossing : List TuningMove :=
  [.start 0 (.update raisePerc5), .start 1 (.update lowerMean), .call 0 (), .call 1 ()] ++
    List.replicate 9 (.call 0 ()) ++ List.replicate 10 (.call 1 ()) ++ [.retire 0, .retire 1]

-- One update after the other, the second between the two reads of a claim.
def straddling : List TuningMove :=
  [.start 0 (.update raisePerc5)] ++ List.replicate 10 (.call 0 ()) ++
    [.retire 0, .start 2 .claim, .call 2 (), .start 1 (.update lowerBoth)] ++
    List.replicate 11 (.call 1 ()) ++ [.retire 1, .call 2 ()]

abbrev Played := List (ThreadCall Nat Request Op AppSettings Unit) × TuningConfig Rat

theorem playTuning_run {moves : List TuningMove} {p : Played} (h : playTuning moves = some p) :
    Run (service sampleEnv) (.initial .empty) p.1 p.2 :=
  Run.playAll .refl h

theorem playTuning_retired {p : Played} (h : playTuning crossing = some p)
    (hdone : ∀ t < 2, (p.2.threads t).isNone) (t : Nat) : p.2.threads t = none := by
  by_cases ht : t < 2
  · exact Option.isNone_iff_eq_none.mp (hdone t ht)
  · refine Config.playAll_none (d := p.2) h rfl fun m hm hstarts => ht ?_
    have hall : ∀ m ∈ crossing, ∀ t ∈ m.starts, t < 2 := by decide +kernel
    exact hall m hm t hstarts

def handed (d : TuningConfig Rat) (t : Nat) : Option (Number Rat × Number Rat) :=
  (d.threads t).bind fun th =>
    match th.rest with
    | .ret (.floors mean perc5) => some (mean, perc5)
    | _ => none

theorem crossing_plays : (playTuning crossing).isSome := by decide +kernel

theorem straddling_plays : (playTuning straddling).isSome := by decide +kernel

end Samples

end TranscodeForge.Tuning
