import Mathlib.Algebra.Order.Ring.Rat
import Mathlib.Tactic.Linarith
import TranscodeForge.Interaction.History

namespace TranscodeForge.Login

open Interaction

def loginMaxFailures : Nat := 5

def loginWindowSeconds : Rat := 60

structure LoginRequest where
  client : Option String
  password : String
deriving DecidableEq

def LoginRequest.address (r : LoginRequest) : String := r.client.getD "unknown"

-- An address without an entry in `login_attempts` reads as the empty list.
structure App where
  loginAttempts : String → List Rat
  clock : Rat
  passwordHash : Option String

def App.setAttempts (s : App) (ip : String) (recent : List Rat) : App :=
  { s with loginAttempts := Function.update s.loginAttempts ip recent }

def recentFailures (s : App) (ip : String) : List Rat :=
  (s.loginAttempts ip).filter fun t => s.clock - t < loginWindowSeconds

def refuses (s : App) (ip : String) : Bool :=
  decide (loginMaxFailures ≤ (recentFailures s ip).length)

-- `checkpw` gives nothing where bcrypt raises.
abbrev Checkpw := String → String → Option Bool

def verifyPassword (checkpw : Checkpw) (plain hashed : String) : Bool :=
  (checkpw plain hashed).getD false

def matchesStored (checkpw : Checkpw) (password : String) : Option String → Bool
  | none => false
  | some hashed => verifyPassword checkpw password hashed

-- What runs between two awaits is one call.
inductive Op where
  | throttle (ip : String)
  | selectPasswordHash
  | judge (ip password : String) (row : Option String) (now : Rat) (recent : List Rat)
deriving DecidableEq

abbrev Op.Answer : Op → Type
  | .throttle _ => Option (Rat × List Rat)
  | .selectPasswordHash => Except String (Option String)
  | .judge _ _ _ _ _ => Bool

inductive LoginError where
  | tooManyAttempts
  | invalidCredentials
  | database (message : String)
deriving DecidableEq

abbrev Route := Program Op Op.Answer LoginError

def judging (r : LoginRequest) (now : Rat) (recent : List Rat) (row : Option String) : Route Unit :=
  .call (.judge r.address r.password row now recent) fun authenticated =>
    if authenticated then .ret () else .raise .invalidCredentials

def authenticating (r : LoginRequest) (now : Rat) (recent : List Rat) : Route Unit :=
  .call .selectPasswordHash fun
    | .error message => .raise (.database message)
    | .ok row => judging r now recent row

def login (r : LoginRequest) : Route Unit :=
  .call (.throttle r.address) fun
    | none => .raise .tooManyAttempts
    | some (now, recent) => authenticating r now recent

inductive Change where
  | wait (until' : Rat)
  | setPassword (hash : Option String)
  | cancel (t : Nat)

variable (checkpw : Checkpw)

def exec (_ : Nat) : (op : Op) → Option String → App → App × op.Answer
  | .throttle ip, _, s =>
    if refuses s ip then (s.setAttempts ip (recentFailures s ip), none)
    else (s, some (s.clock, recentFailures s ip))
  | .selectPasswordHash, none, s => (s, .ok s.passwordHash)
  | .selectPasswordHash, some message, s => (s, .error message)
  | .judge ip password row now recent, _, s =>
    if matchesStored checkpw password row then (s.setAttempts ip [], true)
    else (s.setAttempts ip (recent ++ [now]), false)

def service : System Nat LoginRequest Change Op Op.Answer App (Option String) LoginError Unit where
  handler := ⟨exec checkpw, fun _ _ _ => true⟩
  body _ r := login r
  start _ _ s := some s
  disturb
    | .wait until', s => { s with clock := max s.clock until' }
    | .setPassword hash, s => { s with passwordHash := hash }
    | .cancel _, s => s
  kills
    | .cancel t, t' => t == t'
    | _, _ => false

abbrev LoginCall := ThreadCall Nat LoginRequest Op App (Option String)

def Reads (ip : String) (e : LoginCall) : Bool := e.op == .throttle ip

def Fails (ip : String) (e : LoginCall) : Bool :=
  match e.op with
  | .judge ip' password row _ _ => ip' == ip && !matchesStored checkpw password row
  | _ => false

def Succeeds (ip : String) (e : LoginCall) : Bool :=
  match e.op with
  | .judge ip' password row _ _ => ip' == ip && matchesStored checkpw password row
  | _ => false

-- A wrong password checked for a request that came in the window.
def WrongIn (w : Rat) (ip : String) (e : LoginCall) : Bool :=
  match e.op with
  | .judge ip' password (some hashed) now _ =>
    ip' == ip && !verifyPassword checkpw password hashed && decide (w ≤ now) &&
      decide (now < w + loginWindowSeconds)
  | _ => false

def ArrivesIn (w : Rat) (ip : String) (e : LoginCall) : Bool :=
  Reads ip e && decide (w ≤ e.pre.clock) && decide (e.pre.clock < w + loginWindowSeconds)

def Throttled (w : Rat) (ip : String) (es : List LoginCall) : Prop :=
  es.countP (WrongIn checkpw w ip) ≤ loginMaxFailures ∧
    ∀ xs e ys, es = xs ++ e :: ys → ArrivesIn w ip e →
      loginMaxFailures ≤ xs.countP (WrongIn checkpw w ip) → refuses e.pre ip

def OwnRead (t : Nat) (ip : String) (e : LoginCall) : Prop := e.thread = t ∧ Reads ip e

-- No failure of the address is recorded between another one's reading of the list and its record.
def Unraced (ip : String) (es : List LoginCall) : Prop :=
  ∀ xs e ys, es = xs ++ e :: ys → Fails checkpw ip e →
    ClearSince (OwnRead e.thread ip) (Fails checkpw ip ·) xs

section Stages

-- How far a request has come, and what is known of the list it holds once it has read one.
inductive Stage (r : LoginRequest) (Holds : Rat → List Rat → Prop) : Route Unit → Prop
  | arrived {p : Route Unit} : p = login r → Stage r Holds p
  | reading {p : Route Unit} {now : Rat} {recent : List Rat} :
      p = authenticating r now recent → Holds now recent → Stage r Holds p
  | judging {p : Route Unit} {now : Rat} {recent : List Rat} {row : Option String} :
      p = Login.judging r now recent row → Holds now recent → Stage r Holds p
  | ended {p : Route Unit} : p.outcome.isSome → Stage r Holds p

variable {r : LoginRequest} {Holds Holds' : Rat → List Rat → Prop} {p : Route Unit}

theorem Stage.mono (h : Stage r Holds p) (himp : ∀ now recent, Holds now recent →
    Holds' now recent) : Stage r Holds' p := by
  cases h with
  | arrived hp => exact .arrived hp
  | reading hp hholds => exact .reading hp (himp _ _ hholds)
  | judging hp hholds => exact .judging hp (himp _ _ hholds)
  | ended hp => exact .ended hp

end Stages

section Counting

variable {checkpw} {w : Rat} {ip : String} {es : List LoginCall} {e : LoginCall}

-- The wrong passwords since the last success.
def wrongSince (checkpw : Checkpw) (w : Rat) (ip : String) (es : List LoginCall) : Nat :=
  es.foldl (fun n e =>
    if Succeeds checkpw ip e then 0 else if WrongIn checkpw w ip e then n + 1 else n) 0

theorem wrongSince_append : wrongSince checkpw w ip (es ++ [e]) =
    if Succeeds checkpw ip e then 0
    else if WrongIn checkpw w ip e then wrongSince checkpw w ip es + 1
    else wrongSince checkpw w ip es := by
  simp [wrongSince]

theorem countP_le_wrongSince {es₁ : List LoginCall} (hnone : ∀ e ∈ es, ¬ Succeeds checkpw ip e) :
    es.countP (WrongIn checkpw w ip) ≤ wrongSince checkpw w ip (es₁ ++ es) := by
  induction es using List.reverseRecOn with
  | nil => simp
  | append_singleton es e ih =>
    have hlast : ¬ Succeeds checkpw ip e := hnone e (by simp)
    have hfirst := ih fun e he => hnone e (by simp [he])
    rw [← List.append_assoc, wrongSince_append, if_neg hlast, List.countP_append]
    by_cases hwrong : WrongIn checkpw w ip e
    · simpa [hwrong] using hfirst
    · simpa [hwrong] using hfirst

theorem Unraced.prefix {es' : List LoginCall} (h : Unraced checkpw ip (es ++ es')) :
    Unraced checkpw ip es := by
  intro xs e ys heq
  exact h xs e (ys ++ es') (by simp [heq])

theorem Unraced.last (h : Unraced checkpw ip (es ++ [e])) (he : Fails checkpw ip e) :
    ClearSince (OwnRead e.thread ip) (Fails checkpw ip ·) es :=
  h es e [] rfl he

theorem wrongIn_fails (h : WrongIn checkpw w ip e) : Fails checkpw ip e := by
  unfold WrongIn at h
  split at h
  · next hop =>
    simp only [Bool.and_eq_true, decide_eq_true_eq] at h
    simpa [Fails, hop, matchesStored] using h.1.1
  · cases h

-- Pruning keeps what lies in a window that is not over.
theorem countP_recent {s : App} (hw : s.clock < w + loginWindowSeconds) :
    (recentFailures s ip).countP (w ≤ ·) = (s.loginAttempts ip).countP (w ≤ ·) := by
  rw [recentFailures, List.countP_filter]
  refine List.countP_congr fun t _ => ?_
  simp only [Bool.and_eq_true, decide_eq_true_eq, and_iff_left_iff_imp]
  intro ht
  linarith

end Counting

section Invariant

variable {checkpw} {w : Rat} {ip : String}

structure Counted (checkpw : Checkpw) (w : Rat) (ip : String) (es : List LoginCall) (s : App) :
    Prop where
  listed : s.clock < w + loginWindowSeconds →
    wrongSince checkpw w ip es ≤ (s.loginAttempts ip).countP (w ≤ ·)
  bounded : wrongSince checkpw w ip es ≤ loginMaxFailures
  refused : ∀ xs e ys, es = xs ++ e :: ys → ArrivesIn w ip e →
    loginMaxFailures ≤ wrongSince checkpw w ip xs → refuses e.pre ip

-- The list a request holds is up to date until another failure is recorded.
structure Held (checkpw : Checkpw) (w : Rat) (ip : String) (es : List LoginCall) (s : App)
    (t : Nat) (r : LoginRequest) (now : Rat) (recent : List Rat) : Prop where
  few : recent.length < loginMaxFailures
  past : now ≤ s.clock
  listed : r.address = ip →
    ClearSince (OwnRead t ip) (Fails checkpw ip ·) es →
    now < w + loginWindowSeconds → wrongSince checkpw w ip es ≤ recent.countP (w ≤ ·)

variable {es : List LoginCall} {s s' : App} {e : LoginCall} {t : Nat} {r : LoginRequest}
  {now : Rat} {recent : List Rat}

theorem Counted.passes (h : Counted checkpw w ip es s) (hclock : s.clock ≤ s'.clock)
    (hattempts : s'.loginAttempts = s.loginAttempts) : Counted checkpw w ip es s' := by
  refine ⟨fun hw => ?_, h.bounded, h.refused⟩
  rw [hattempts]
  exact h.listed (lt_of_le_of_lt hclock hw)

theorem Held.passes (h : Held checkpw w ip es s t r now recent) (hclock : s.clock ≤ s'.clock) :
    Held checkpw w ip es s' t r now recent :=
  ⟨h.few, h.past.trans hclock, h.listed⟩

theorem Counted.refused_append (h : Counted checkpw w ip es s)
    (he : ArrivesIn w ip e → loginMaxFailures ≤ wrongSince checkpw w ip es → refuses e.pre ip) :
    ∀ xs f ys, es ++ [e] = xs ++ f :: ys → ArrivesIn w ip f →
      loginMaxFailures ≤ wrongSince checkpw w ip xs → refuses f.pre ip := by
  intro xs f ys heq
  rcases eq_append_singleton_cases heq with ⟨-, rfl, rfl⟩ | ⟨zs, -, rfl⟩
  · exact he
  · exact h.refused xs f zs rfl

theorem wrongSince_le (he : ¬ Fails checkpw ip e) :
    wrongSince checkpw w ip (es ++ [e]) ≤ wrongSince checkpw w ip es := by
  have hwrong : ¬ WrongIn checkpw w ip e := fun h => he (wrongIn_fails h)
  rw [wrongSince_append, if_neg hwrong]
  split
  · exact Nat.zero_le _
  · exact le_rfl

theorem Held.append (h : Held checkpw w ip es s t r now recent)
    (hother : ¬ OwnRead t ip e) (hclock : s.clock ≤ s'.clock) :
    Held checkpw w ip (es ++ [e]) s' t r now recent := by
  refine ⟨h.few, h.past.trans hclock, fun hr hclear hnow => ?_⟩
  obtain ⟨hes, he⟩ := hclear.of_append hother
  exact (wrongSince_le he).trans (h.listed hr hes hnow)

-- A call that neither records nor reads.
theorem Counted.append (h : Counted checkpw w ip es s) (hfails : ¬ Fails checkpw ip e)
    (hreads : ¬ Reads ip e) (hclock : s'.clock = s.clock)
    (hattempts : s'.loginAttempts ip = s.loginAttempts ip) :
    Counted checkpw w ip (es ++ [e]) s' := by
  refine ⟨fun hw => ?_, (wrongSince_le hfails).trans h.bounded, ?_⟩
  · rw [hattempts]
    exact (wrongSince_le hfails).trans (h.listed (hclock ▸ hw))
  · refine h.refused_append fun harrives => absurd ?_ hreads
    simp only [ArrivesIn, Bool.and_eq_true] at harrives
    exact harrives.1.1

theorem counted_throttle {i : Option String} {ip' : String} (h : Counted checkpw w ip es s)
    (hs' : s' = (exec checkpw t (.throttle ip') i s).1) :
    Counted checkpw w ip (es ++ [⟨⟨.throttle ip', i, s, s'⟩, t, r⟩]) s' := by
  have hkept : s'.clock = s.clock ∧ (s.clock < w + loginWindowSeconds →
      (s'.loginAttempts ip).countP (w ≤ ·) = (s.loginAttempts ip).countP (w ≤ ·)) := by
    subst hs'
    simp only [exec]
    split
    · refine ⟨rfl, fun hw => ?_⟩
      by_cases hip : ip = ip'
      · subst hip
        simpa [App.setAttempts] using countP_recent hw
      · simp [App.setAttempts, Function.update_of_ne hip]
    · exact ⟨rfl, fun _ => rfl⟩
  have hfails : ¬ Fails checkpw ip (⟨⟨.throttle ip', i, s, s'⟩, t, r⟩ : LoginCall) := by
    simp [Fails]
  refine ⟨fun hw => ?_, (wrongSince_le hfails).trans h.bounded, ?_⟩
  · rw [hkept.1] at hw
    rw [hkept.2 hw]
    exact (wrongSince_le hfails).trans (h.listed hw)
  · refine h.refused_append fun harrives hmany => ?_
    simp only [ArrivesIn, Bool.and_eq_true, decide_eq_true_eq] at harrives
    have hlisted := h.listed harrives.2
    rw [← countP_recent harrives.2] at hlisted
    have hlength : (recentFailures s ip).countP (w ≤ ·) ≤ (recentFailures s ip).length :=
      List.countP_le_length
    change decide (loginMaxFailures ≤ (recentFailures s ip).length) = true
    exact decide_eq_true (by omega)

theorem held_throttle (h : Counted checkpw w ip es s) (hadmits : ¬ refuses s r.address)
    {i : Option String} :
    Held checkpw w ip (es ++ [⟨⟨.throttle r.address, i, s, s⟩, t, r⟩]) s t r s.clock
      (recentFailures s r.address) := by
  refine ⟨?_, le_rfl, ?_⟩
  · simpa [refuses] using hadmits
  · rintro rfl - hw
    rw [countP_recent hw]
    exact (wrongSince_le (by simp [Fails])).trans (h.listed hw)

theorem wrongSince_judge_le {password : String} {row : Option String}
    (he : e.op = .judge ip password row now recent) :
    wrongSince checkpw w ip (es ++ [e]) ≤
      wrongSince checkpw w ip es + if w ≤ now ∧ now < w + loginWindowSeconds then 1 else 0 := by
  rw [wrongSince_append]
  split
  · exact Nat.zero_le _
  · split
    · next hwrong =>
      rw [if_pos]
      unfold WrongIn at hwrong
      rw [he] at hwrong
      cases row with
      | none => cases hwrong
      | some hashed =>
        simp only [Bool.and_eq_true, decide_eq_true_eq] at hwrong
        exact ⟨hwrong.1.2, hwrong.2⟩
    · exact Nat.le_add_right _ _

theorem counted_failure {password : String} {row : Option String}
    (h : Counted checkpw w ip es s) (hheld : Held checkpw w ip es s t r now recent)
    (hr : r.address = ip) (hclear : ClearSince (OwnRead t ip) (Fails checkpw ip ·) es)
    (he : e.op = .judge ip password row now recent)
    (hs' : s' = s.setAttempts ip (recent ++ [now])) : Counted checkpw w ip (es ++ [e]) s' := by
  have hstep : wrongSince checkpw w ip (es ++ [e]) ≤
      wrongSince checkpw w ip es + if w ≤ now ∧ now < w + loginWindowSeconds then 1 else 0 :=
    wrongSince_judge_le he
  have hcount : recent.countP (w ≤ ·) ≤ recent.length := List.countP_le_length
  have hfew := hheld.few
  have hlist : (s'.loginAttempts ip).countP (w ≤ ·) =
      recent.countP (w ≤ ·) + if w ≤ now then 1 else 0 := by
    simp [hs', App.setAttempts, List.countP_append, List.countP_singleton]
  refine ⟨fun hw => ?_, ?_, h.refused_append fun harrives => ?_⟩
  · rw [hs'] at hw
    have hnow : now < w + loginWindowSeconds := lt_of_le_of_lt hheld.past hw
    have hlisted := hheld.listed hr hclear hnow
    simp only [hnow, and_true] at hstep
    omega
  · by_cases hnow : now < w + loginWindowSeconds
    · have hlisted := hheld.listed hr hclear hnow
      split at hstep <;> omega
    · simp only [hnow, and_false, if_false, add_zero] at hstep
      exact hstep.trans h.bounded
  · simp [ArrivesIn, Reads, he] at harrives

theorem counted_judge {i : Option String} {row : Option String}
    (h : Counted checkpw w ip es s) (hheld : Held checkpw w ip es s t r now recent)
    (hs' : s' = (exec checkpw t (.judge r.address r.password row now recent) i s).1)
    (hunraced : Unraced checkpw ip
      (es ++ [⟨⟨.judge r.address r.password row now recent, i, s, s'⟩, t, r⟩])) :
    Counted checkpw w ip (es ++ [⟨⟨.judge r.address r.password row now recent, i, s, s'⟩, t, r⟩])
      s' := by
  by_cases hip : r.address = ip
  · subst hip
    cases hok : matchesStored checkpw r.password row with
    | true =>
      have hzero : wrongSince checkpw w r.address
          (es ++ [⟨⟨.judge r.address r.password row now recent, i, s, s'⟩, t, r⟩]) = 0 := by
        rw [wrongSince_append, if_pos]
        simp [Succeeds, hok]
      refine ⟨fun _ => ?_, ?_, h.refused_append fun harrives => ?_⟩
      · rw [hzero]
        exact Nat.zero_le _
      · rw [hzero]
        exact Nat.zero_le _
      · simp [ArrivesIn, Reads] at harrives
    | false =>
      refine counted_failure h hheld rfl (hunraced.last (by simp [Fails, hok])) rfl ?_
      rw [hs', exec, hok]
      rfl
  · refine h.append (by simp [Fails, hip]) (by simp [Reads]) ?_ ?_ <;> subst hs' <;>
      simp only [exec] <;> split <;> simp [App.setAttempts, Ne.symm hip]

end Invariant

section Runs

variable {checkpw} {w : Rat} {ip : String} {es : List LoginCall} {s s₀ : App}
  {d : Config Nat LoginRequest Op Op.Answer App LoginError Unit}

theorem step_counted {t : Nat} {r : LoginRequest} {op : Op} {k : op.Answer → Route Unit}
    {i : Option String} (h : Counted checkpw w ip es s)
    (hstage : Stage r (Held checkpw w ip es s t r) (.call op k))
    (hunraced : Unraced checkpw ip (es ++ [⟨⟨op, i, s, (exec checkpw t op i s).1⟩, t, r⟩])) :
    Counted checkpw w ip (es ++ [⟨⟨op, i, s, (exec checkpw t op i s).1⟩, t, r⟩])
        (exec checkpw t op i s).1 ∧
      Stage r (Held checkpw w ip (es ++ [⟨⟨op, i, s, (exec checkpw t op i s).1⟩, t, r⟩])
        (exec checkpw t op i s).1 t r) (k (exec checkpw t op i s).2) := by
  cases hstage with
  | arrived hp =>
    cases hp
    refine ⟨counted_throttle h rfl, ?_⟩
    simp only [exec]
    split
    · exact .ended rfl
    · next hadmits => exact .reading rfl (held_throttle h hadmits)
  | reading hp hheld =>
    cases hp
    rename_i now recent
    cases i with
    | none =>
      refine ⟨h.append (by simp [Fails]) (by simp [Reads]) rfl rfl, .judging rfl ?_⟩
      exact hheld.append (by simp [OwnRead, Reads]) le_rfl
    | some message => exact ⟨h.append (by simp [Fails]) (by simp [Reads]) rfl rfl, .ended rfl⟩
  | judging hp hheld =>
    cases hp
    refine ⟨counted_judge h hheld rfl hunraced, .ended ?_⟩
    dsimp only
    split <;> rfl
  | ended hp => cases hp

theorem step_clock (t : Nat) (op : Op) (i : Option String) (s : App) :
    (exec checkpw t op i s).1.clock = s.clock := by
  cases op with
  | throttle ip =>
    simp only [exec]
    split <;> rfl
  | selectPasswordHash => cases i <;> rfl
  | judge ip password row now recent =>
    simp only [exec]
    split <;> rfl

theorem run_counted (h : Run (service checkpw) (.initial s₀) es d)
    (hunraced : Unraced checkpw ip es) : Counted checkpw w ip es d.state := by
  have hjoint := h.jointly
    (Q := fun es s => Unraced checkpw ip es → Counted checkpw w ip es s)
    (T := fun es s t r p => Unraced checkpw ip es → Stage r (Held checkpw w ip es s t r) p)
    ?init ?start ?call ?disturb
  · exact hjoint.1 hunraced
  case init =>
    refine fun _ => ⟨fun _ => Nat.zero_le _, Nat.zero_le _, fun xs e ys heq => ?_⟩
    cases xs <;> cases heq
  case start =>
    rintro es s t r s' hQ hs
    cases hs
    exact ⟨hQ, fun _ => .arrived rfl, fun _ _ _ hT => hT⟩
  case call =>
    intro es s t r op k i hQ hT _
    refine ⟨fun hes => ?_, fun hes => ?_, fun t' r' p htt hT' hes => ?_⟩
    · exact (step_counted (hQ hes.prefix) (hT hes.prefix) hes).1
    · exact (step_counted (hQ hes.prefix) (hT hes.prefix) hes).2
    · refine (hT' hes.prefix).mono fun now recent hheld => hheld.append ?_ ?_
      · exact fun hown => htt hown.1.symm
      · exact (step_clock t op i s).ge
  case disturb =>
    intro es s k hQ
    have hclock : s.clock ≤ ((service checkpw).disturb k s).clock := by
      cases k with
      | wait until' => exact le_max_left _ _
      | setPassword hash => exact le_rfl
      | cancel t => exact le_rfl
    refine ⟨fun hes => (hQ hes).passes hclock ?_, fun t r p hT hes => ?_⟩
    · cases k <;> rfl
    · exact (hT hes).mono fun now recent hheld => hheld.passes hclock

theorem login_throttled (es₁ es₂ : List LoginCall)
    (h : Run (service checkpw) (.initial s₀) (es₁ ++ es₂) d)
    (hunraced : Unraced checkpw ip (es₁ ++ es₂)) (hnone : ∀ e ∈ es₂, ¬ Succeeds checkpw ip e)
    (w : Rat) : Throttled checkpw w ip es₂ := by
  have hcounted : Counted checkpw w ip (es₁ ++ es₂) d.state := run_counted h hunraced
  refine ⟨(countP_le_wrongSince hnone).trans hcounted.bounded, ?_⟩
  rintro xs e ys rfl harrives hmany
  have hsince : xs.countP (WrongIn checkpw w ip) ≤ wrongSince checkpw w ip (es₁ ++ xs) :=
    countP_le_wrongSince fun e he => hnone e (by simp [he])
  exact hcounted.refused (es₁ ++ xs) e ys (by simp) harrives (hmany.trans hsince)

end Runs

section Samples

def sampleCheckpw : Checkpw := fun plain hashed => some (plain == hashed)

def sampleApp : App := ⟨fun _ => [], 0, some "right"⟩

def wrongGuess : LoginRequest := ⟨some "10.0.0.1", "wrong"⟩

abbrev Moves := List (Move Nat LoginRequest Change (Option String))

def play (moves : Moves) :
    Option (List LoginCall × Config Nat LoginRequest Op Op.Answer App LoginError Unit) :=
  (Config.initial sampleApp).playAll (service sampleCheckpw) moves

def oneByOne : Moves :=
  (List.range 5).flatMap (fun t => [.start t wrongGuess, .call t none, .call t none, .call t none]) ++
    [.start 5 wrongGuess, .call 5 none]

def atOnce : Moves :=
  (List.range 6).flatMap (fun t => [.start t wrongGuess, .call t none]) ++
    (List.range 6).flatMap fun t => [.call t none, .call t none]

def unraced (checkpw : Checkpw) (ip : String) (es : List LoginCall) : Bool :=
  everySplit (fun before e => !Fails checkpw ip e ||
    clearSince (fun g => g.thread == e.thread && Reads ip g) (Fails checkpw ip) before) [] es

theorem unraced_sound {checkpw : Checkpw} {ip : String} {es : List LoginCall}
    (h : unraced checkpw ip es = true) : Unraced checkpw ip es := by
  intro xs e ys heq hfails
  have hcheck := everySplit_sound h xs e ys heq
  rw [hfails] at hcheck
  refine clearSince_sound (fun g hg => ?_) (fun g hg => by simp [hg]) hcheck
  simpa [OwnRead] using hg

def guessing (moves : Moves) (h : (play moves).isSome) : List LoginCall := ((play moves).get h).1

theorem guessing_run {moves : Moves} (h : (play moves).isSome) :
    Run (service sampleCheckpw) (.initial sampleApp) (guessing moves h) ((play moves).get h).2 :=
  Run.playAll .refl (Option.some_get h).symm

theorem login_throttled_oneByOne :
    Throttled sampleCheckpw 0 "10.0.0.1" (guessing oneByOne (by decide +kernel)) :=
  login_throttled [] _ (guessing_run _) (unraced_sound (by decide +kernel))
    (by decide +kernel) 0

-- Six requests read the list before one of them records its failure.
theorem login_races : ∃ es d, Run (service sampleCheckpw) (.initial sampleApp) es d ∧
    (∀ e ∈ es, ¬ Succeeds sampleCheckpw "10.0.0.1" e) ∧
      ¬ Throttled sampleCheckpw 0 "10.0.0.1" es := by
  refine ⟨_, _, guessing_run (by decide +kernel : (play atOnce).isSome), by decide +kernel, ?_⟩
  rintro ⟨hmany, -⟩
  exact absurd hmany (by decide +kernel)

end Samples

end TranscodeForge.Login
