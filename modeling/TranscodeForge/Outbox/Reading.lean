import TranscodeForge.Outbox.Delivery
import TranscodeForge.Text.General
import TranscodeForge.Text.Json
import Mathlib.Data.List.Sort

namespace TranscodeForge.OutboxReading

open Text Storage
open Outbox (ErrorClass isJson withSuffix entryName poisonAttempts poisonCooldownS)

structure OutboxEntry where
  seq : Int
  jobId : String
  kind : String
  payload : List (Json × Json)
  attempts : Int
  path : String
  lastAttemptAt : Float64
deriving Repr

def numberPart (name : String) : String := String.ofList (name.toList.takeWhile (· != '-'))

section Conversions

def isHashable : Json → Bool
  | .array _ | .object _ => false
  | _ => true

def keyed (k v : Json) : Except Raised (Json × Json) :=
  if isHashable k then .ok (k, v) else .error .type

-- An element of a sequence that a dict is made of.
def dictItem : Json → Except Raised (Json × Json)
  | .array [k, v] => keyed k v
  | .object [(k, _), (k', _)] => .ok (.string k, .string k')
  | .string s =>
    match s.toList with
    | [c, c'] => .ok (.string (String.singleton c), .string (String.singleton c'))
    | _ => .error .value
  | .array _ | .object _ => .error .value
  | _ => .error .type

-- `dict(v)`, as its assignments.
def dict : Json → Except Raised (List (Json × Json))
  | .object fields => .ok (fields.map fun field => (.string field.1, field.2))
  | .array items => items.mapM dictItem
  | .string s => if s = "" then .ok [] else .error .value
  | _ => .error .type

-- To 53 significant bits.
def nearest (n : Int) : Rat :=
  let unit : Nat := 2 ^ (Nat.log 2 n.natAbs - 52)
  roundHalfEven (n / unit) * unit

-- The least magnitude that rounds to no finite float.
def floatLimit : Nat := 2 ^ 1024 - 2 ^ 970

variable (int : String → Option Int) (float : String → Option Float64)

-- `int(v)`.
def intOf : Json → Except Raised Int
  | .int n => .ok n
  | .bool b => .ok b.toInt
  | .float (.finite q) => .ok (if q < 0 then q.ceil else q.floor)
  | .float (.infinite _) => .error .overflow
  | .float .nan => .error .value
  | .string s => (int s).elim (.error .value) .ok
  | _ => .error .type

-- `float(v)`.
def floatOf : Json → Except Raised Float64
  | .float x => .ok x
  | .int n => if n.natAbs < floatLimit then .ok (.finite (nearest n)) else .error .overflow
  | .bool b => .ok (.finite b.toInt)
  | .string s => (float s).elim (.error .value) .ok
  | _ => .error .type

end Conversions

section Entries

-- `int`, `float` and `display` are Python's `int`, `float` and `str` of a text.
variable (int : String → Option Int) (float : String → Option Float64) (display : Json → String)

def required (fields : List (String × Json)) (key : String) : Except Raised Json :=
  (fields.lookup key).elim (.error .key) .ok

def attemptsField (fields : List (String × Json)) : Json :=
  (fields.lookup "attempts").getD (.int 0)

def lastAttemptField (fields : List (String × Json)) : Json :=
  (fields.lookup "last_attempt_at").getD (.float (.finite 0))

def readFields (path : String) (seq : Int) (fields : List (String × Json)) :
    Except Raised OutboxEntry := do
  let jobId ← required fields "job_id"
  let kind ← required fields "kind"
  let body ← required fields "payload"
  let payload ← dict body
  let attempts ← intOf int (attemptsField fields)
  let lastAttemptAt ← floatOf float (lastAttemptField fields)
  pure ⟨seq, str display jobId, str display kind, payload, attempts, path, lastAttemptAt⟩

-- Subscripting a body that is not an object is a TypeError.
def readBody (path : String) (seq : Int) : Json → Except Raised OutboxEntry
  | .object fields => readFields int float display path seq fields
  | _ => .error .type

def readEntry (path : String) (content : FileBytes) : Except Raised OutboxEntry := do
  let seq ← (int (numberPart path)).elim (.error .value) .ok
  let body ← readText content
  readBody int float display path seq body

def isCaught (e : Raised) : Bool := e.isValueError || e = .key || e = .os

abbrev Journal := Directory FileBytes

def Journal.read (d : Journal) (name : String) : FileBytes := (d.lookup name).join

-- The directory changes that the operating system refuses, by name.
variable (refused : String → Bool)

def quarantine (d : Journal) (path : String) : Journal :=
  if refused path then d else d.move path (withSuffix path ".corrupt")

def readEach (d : Journal) : List String → Except Raised (List OutboxEntry) × Journal
  | [] => (.ok [], d)
  | path :: rest =>
    match readEntry int float display path (d.read path) with
    | .ok entry =>
      let (out, d') := readEach d rest
      (out.map (entry :: ·), d')
    | .error e =>
      if isCaught e then readEach (quarantine refused d path) rest else (.error e, d)

def sortedNames (d : Journal) : List String := (d.names.filter isJson).insertionSort (· ≤ ·)

def entries (d : Journal) : Except Raised (List OutboxEntry) × Journal :=
  readEach int float display refused d (sortedNames d)

end Entries

section Draining

def cooling (now : Rat) : Float64 → Bool
  | .finite lastAttemptAt => now - lastAttemptAt < poisonCooldownS
  | .infinite positive => positive
  | .nan => false

def isParked (now : Rat) (entry : OutboxEntry) : Bool :=
  poisonAttempts ≤ entry.attempts && cooling now entry.lastAttemptAt

-- An integer that has a decimal text.
def isPrintable (n : Int) : Bool := n.natAbs < 10 ^ 4300

-- The instant at which an entry is looked at, and how the scheduler answers its report.
structure Circumstances where
  clock : OutboxEntry → Rat
  answer : OutboxEntry → Option ErrorClass

-- The entries whose report a drain pass sends; an exception ends the pass.
def attempted (refused : String → Bool) (c : Circumstances) :
    List OutboxEntry → List String → List OutboxEntry
  | [], _ => []
  | entry :: rest, blocked =>
    if entry.jobId ∈ blocked then attempted refused c rest blocked
    else if isParked (c.clock entry) entry then
      attempted refused c rest (entry.jobId :: blocked)
    else
      entry ::
        match c.answer entry with
        | none | some .terminal =>
          if refused entry.path then [] else attempted refused c rest blocked
        | some .auth | some .retryable =>
          if isPrintable (entry.attempts + 1) then
            attempted refused c rest (entry.jobId :: blocked)
          else []

def drained (int : String → Option Int) (float : String → Option Float64) (display : Json → String)
    (refused : String → Bool) (c : Circumstances) (d : Journal) : List OutboxEntry :=
  match (entries int float display refused d).1 with
  | .ok listed => attempted refused c listed []
  | .error _ => []

end Draining

section Claims

variable (int : String → Option Int) (float : String → Option Float64) (display : Json → String)

structure IsBody (fields : List (String × Json)) (entry : OutboxEntry) : Prop where
  jobId : ∃ v, fields.lookup "job_id" = some v ∧ entry.jobId = str display v
  kind : ∃ v, fields.lookup "kind" = some v ∧ entry.kind = str display v
  payload : ∃ v, fields.lookup "payload" = some v ∧ dict v = .ok entry.payload
  attempts : intOf int (attemptsField fields) = .ok entry.attempts
  lastAttemptAt : floatOf float (lastAttemptField fields) = .ok entry.lastAttemptAt

-- The file is a well-formed entry: a number before the dash, and a JSON object with the fields.
structure IsEntry (path : String) (content : FileBytes) (entry : OutboxEntry) : Prop where
  named : entry.path = path
  numbered : int (numberPart path) = some entry.seq
  body : ∃ fields, content = some (.value (.object fields)) ∧ IsBody int float display fields entry

-- The entries of the directory, in the order of their names.
def chain (d : Journal) : List OutboxEntry :=
  (sortedNames d).filterMap fun name => (readEntry int float display name (d.read name)).toOption

def IsHead (listed : List OutboxEntry) (entry : OutboxEntry) : Prop :=
  ∀ entry' ∈ listed, entry'.jobId = entry.jobId → entry.path ≤ entry'.path

-- What `append` and `bump_attempts` write.
structure IsWritten (fields : List (String × Json)) (jobId kind : String) : Prop where
  jobId : fields.lookup "job_id" = some (.string jobId)
  kind : fields.lookup "kind" = some (.string kind)
  payload : ∃ payload, fields.lookup "payload" = some (.object payload)
  attempts : ∃ n, fields.lookup "attempts" = some (.int n)
  lastAttemptAt : fields.lookup "last_attempt_at" = none ∨
    ∃ t, fields.lookup "last_attempt_at" = some (.float (.finite t))

def Written (d : Journal) (name : String) (seq : Nat) : Prop :=
  ∃ jobId kind fields, name = entryName seq jobId kind ∧
    d.read name = some (.value (.object fields)) ∧ IsWritten fields jobId kind

structure Isolated (d : Journal) : Prop where
  returns : ∀ refused, (entries int float display refused d).1.isOk = true
  lists : ∀ refused listed, (entries int float display refused d).1 = .ok listed →
    ∀ name seq, Written d name seq → ∃ entry ∈ listed, entry.path = name
  ordered : ∀ refused listed, (entries int float display refused d).1 = .ok listed →
    listed.Pairwise fun entry entry' => ∀ seq seq', Written d entry.path seq →
      Written d entry'.path seq' → seq ≤ seq'
  aside : ∀ refused, ∀ name ∈ d.names, isJson name = true →
    (∀ entry, ¬ IsEntry int float display name (d.read name) entry) → refused name = false →
    (entries int float display refused d).2.lookup name = none
  attempts : ∀ refused c, (∀ entry ∈ chain int float display d, refused entry.path = false) →
    ∀ entry ∈ chain int float display d, IsHead (chain int float display d) entry →
      isParked (c.clock entry) entry = false → entry ∈ drained int float display refused c d

-- The exceptions that reading the file meets are those that `entries` catches.
def Caught (path : String) (content : FileBytes) : Prop :=
  (int (numberPart path)).isSome = true →
    match content with
    | some .tooDeep => False
    | some (.value (.object fields)) =>
      ∀ jobId kind body, fields.lookup "job_id" = some jobId → fields.lookup "kind" = some kind →
        fields.lookup "payload" = some body →
          Quiet isCaught (dict body) ∧ ((dict body).isOk = true →
            Quiet isCaught (intOf int (attemptsField fields)) ∧
              ((intOf int (attemptsField fields)).isOk = true →
                Quiet isCaught (floatOf float (lastAttemptField fields))))
    | some (.value _) => False
    | _ => True

-- There is an instant at which the entry is not parked.
def Wakes (entry : OutboxEntry) : Prop :=
  entry.attempts < poisonAttempts ∨ entry.lastAttemptAt ≠ .infinite true

structure Harmless (d : Journal) : Prop where
  caught : ∀ name ∈ d.names, isJson name = true → Caught int float name (d.read name)
  numbered : ∀ name name' seq seq', Written d name seq → Written d name' seq' → seq < seq' →
    name < name'
  printable : ∀ before entry after, chain int float display d = before ++ entry :: after →
    isPrintable (entry.attempts + 1) = false →
    (∀ x ∈ before ++ [entry], x.jobId = entry.jobId → Wakes x) →
    ∀ head ∈ after, IsHead (chain int float display d) head → ¬ Wakes head

end Claims

section Reading

variable {int : String → Option Int} {float : String → Option Float64} {display : Json → String}
  {path : String} {content : FileBytes} {entry : OutboxEntry} {fields : List (String × Json)}

theorem required_ok {key : String} {v : Json} :
    required fields key = .ok v ↔ fields.lookup key = some v := by
  unfold required
  cases fields.lookup key <;> simp

theorem readFields_ok {seq : Int} :
    readFields int float display path seq fields = .ok entry ↔
      entry.path = path ∧ entry.seq = seq ∧ IsBody int float display fields entry := by
  simp only [readFields, bind, pure, bind_ok, required_ok, Except.pure, Except.ok.injEq]
  constructor
  · rintro ⟨jobId, hjob, kind, hkind, body, hbody, payload, hpayload, attempts, hattempts, last,
      hlast, rfl⟩
    exact ⟨rfl, rfl, ⟨jobId, hjob, rfl⟩, ⟨kind, hkind, rfl⟩, ⟨body, hbody, hpayload⟩, hattempts,
      hlast⟩
  · rintro ⟨rfl, rfl, ⟨jobId, hjob, hjob'⟩, ⟨kind, hkind, hkind'⟩, ⟨body, hbody, hpayload⟩,
      hattempts, hlast⟩
    exact ⟨jobId, hjob, kind, hkind, body, hbody, _, hpayload, _, hattempts, _, hlast,
      by rw [← hjob', ← hkind']⟩

theorem readEntry_ok :
    readEntry int float display path content = .ok entry ↔
      IsEntry int float display path content entry := by
  have hnumber : ∀ seq, (int (numberPart path)).elim (.error Raised.value) Except.ok = .ok seq ↔
      int (numberPart path) = some seq := by
    intro seq
    cases int (numberPart path) <;> simp
  simp only [readEntry, bind, bind_ok, hnumber]
  constructor
  · rintro ⟨seq, hseq, body, hbody, hread⟩
    cases body with
    | object fields =>
      obtain ⟨hpath, rfl, hfields⟩ := readFields_ok.mp hread
      refine ⟨hpath, hseq, fields, ?_, hfields⟩
      rcases content with _ | (_ | _ | _ | _ | v) <;> simp_all [readText, Loaded.loads]
    | _ => cases hread
  · rintro ⟨hpath, hseq, fields, rfl, hfields⟩
    exact ⟨_, hseq, _, rfl, readFields_ok.mpr ⟨hpath, rfl, hfields⟩⟩

theorem quiet_required (key : String) : Quiet isCaught (required fields key) := by
  unfold required
  cases fields.lookup key with
  | none => exact quiet_error.mpr rfl
  | some v => exact quiet_ok _ v

theorem isOk_iff {α : Type} {r : Except Raised α} : r.isOk = true ↔ ∃ a, r = .ok a := by
  cases r <;> simp [Except.isOk, Except.toBool]

theorem quiet_readFields {seq : Int} :
    Quiet isCaught (readFields int float display path seq fields) ↔
      ∀ jobId kind body, fields.lookup "job_id" = some jobId → fields.lookup "kind" = some kind →
        fields.lookup "payload" = some body →
          Quiet isCaught (dict body) ∧ ((dict body).isOk = true →
            Quiet isCaught (intOf int (attemptsField fields)) ∧
              ((intOf int (attemptsField fields)).isOk = true →
                Quiet isCaught (floatOf float (lastAttemptField fields)))) := by
  simp only [readFields, bind, pure, quiet_bind, quiet_required, required_ok, true_and, isOk_iff]
  constructor
  · intro h jobId kind body hjob hkind hbody
    obtain ⟨hdict, hrest⟩ := h jobId hjob kind hkind body hbody
    refine ⟨hdict, fun ⟨payload, hpayload⟩ => ?_⟩
    obtain ⟨hint, hlast⟩ := hrest payload hpayload
    refine ⟨hint, fun ⟨attempts, hattempts⟩ => ?_⟩
    exact (hlast attempts hattempts).1
  · intro h jobId hjob kind hkind body hbody
    obtain ⟨hdict, hrest⟩ := h jobId kind body hjob hkind hbody
    refine ⟨hdict, fun payload hpayload => ?_⟩
    obtain ⟨hint, hlast⟩ := hrest ⟨payload, hpayload⟩
    refine ⟨hint, fun attempts hattempts => ⟨hlast ⟨attempts, hattempts⟩, fun t _ => ?_⟩⟩
    exact quiet_ok _ _

theorem quiet_readEntry :
    Quiet isCaught (readEntry int float display path content) ↔ Caught int float path content := by
  simp only [readEntry, bind, quiet_bind, Caught]
  cases hseq : int (numberPart path) with
  | none => simp [quiet_error, isCaught, Raised.isValueError]
  | some seq =>
    simp only [Option.elim_some, quiet_ok, true_and, Except.ok.injEq, forall_eq', Option.isSome_some,
      forall_const]
    rcases content with _ | (_ | _ | _ | _ | v)
    · simp [readText, quiet_error, isCaught]
    · simp [readText, Loaded.loads, quiet_error, isCaught, Raised.isValueError]
    · simp [readText, Loaded.loads, quiet_error, isCaught, Raised.isValueError]
    · simp [readText, Loaded.loads, quiet_error, isCaught, Raised.isValueError]
    · simp [readText, Loaded.loads, quiet_error, isCaught, Raised.isValueError]
    · cases v with
      | object fields =>
        simp only [readText, Loaded.loads, quiet_ok, true_and, Except.ok.injEq, forall_eq', readBody]
        exact quiet_readFields
      | _ =>
        simp [readText, Loaded.loads, quiet_ok, quiet_error, readBody, isCaught,
          Raised.isValueError]

theorem numberPart_entryName (seq : Nat) (jobId kind : String) :
    numberPart (entryName seq jobId kind) = String.ofList (padded 10 seq) := by
  have hdash : ∀ c ∈ padded 10 seq, (c != '-') = true := by
    intro c hc
    have hdigit := isDigit_padded hc
    rw [bne_iff_ne]
    rintro rfl
    exact absurd hdigit (by decide)
  rw [numberPart, Outbox.toList_entryName, List.takeWhile_append_of_pos hdash]
  simp

theorem isEntry_of_written (float : String → Option Float64) (display : Json → String)
    {d : Journal} {name : String} {seq : Nat}
    (hint : int (String.ofList (padded 10 seq)) = some (seq : Int)) (h : Written d name seq) :
    ∃ entry, IsEntry int float display name (d.read name) entry ∧ entry.seq = seq := by
  obtain ⟨jobId, kind, fields, rfl, hread, hwritten⟩ := h
  obtain ⟨payload, hpayload⟩ := hwritten.payload
  obtain ⟨n, hn⟩ := hwritten.attempts
  have hlast : ∃ t, floatOf float (lastAttemptField fields) = .ok t := by
    rcases hwritten.lastAttemptAt with h | ⟨t, h⟩
    · exact ⟨.finite 0, by simp [lastAttemptField, h, floatOf]⟩
    · exact ⟨.finite t, by simp [lastAttemptField, h, floatOf]⟩
  obtain ⟨t, ht⟩ := hlast
  have hattempts : intOf int (attemptsField fields) = .ok n := by
    simp [attemptsField, hn, intOf]
  refine ⟨⟨seq, jobId, kind, payload.map fun field => (.string field.1, field.2), n,
    entryName seq jobId kind, t⟩, ⟨rfl, ?_, fields, hread, ?_⟩, rfl⟩
  · rw [numberPart_entryName]
    exact hint
  · exact ⟨⟨_, hwritten.jobId, rfl⟩, ⟨_, hwritten.kind, rfl⟩, ⟨_, hpayload, rfl⟩, hattempts, ht⟩

end Reading

section Listing

variable {int : String → Option Int} {float : String → Option Float64} {display : Json → String}
  {refused : String → Bool} {d : Journal} {paths : List String} {listed : List OutboxEntry}

theorem lookup_quarantine {path name : String} (hname : isJson name = true) (hne : path ≠ name) :
    (quarantine refused d path).lookup name = d.lookup name := by
  have hcorrupt : withSuffix path ".corrupt" ≠ name := by
    rintro rfl
    rw [Outbox.isJson_corrupt] at hname
    cases hname
  unfold quarantine
  split
  · rfl
  · cases hlook : d.lookup path with
    | none => simp [Directory.move, hlook]
    | some content => rw [Directory.lookup_move _ hlook, if_neg hcorrupt, if_neg hne]

theorem lookup_quarantine_self {path : String} (hpath : isJson path = true)
    (hrefused : refused path = false) : (quarantine refused d path).lookup path = none := by
  have hcorrupt : withSuffix path ".corrupt" ≠ path := by
    intro heq
    rw [← heq, Outbox.isJson_corrupt] at hpath
    cases hpath
  rw [quarantine, hrefused]
  cases hlook : d.lookup path with
  | none => simp [Directory.move, hlook]
  | some content => simp [Directory.lookup_move _ hlook, hcorrupt]

theorem read_quarantine {path name : String} (hname : isJson name = true) (hne : path ≠ name) :
    (quarantine refused d path).read name = d.read name := by
  rw [Journal.read, lookup_quarantine hname hne, Journal.read]

-- What is left in the directory after the names have been gone through.
theorem lookup_readEach {name : String} (hname : isJson name = true) (hother : name ∉ paths) :
    (readEach int float display refused d paths).2.lookup name = d.lookup name := by
  induction paths generalizing d with
  | nil => rfl
  | cons path rest ih =>
    have hne : path ≠ name := fun heq => hother (heq ▸ List.mem_cons_self)
    have hrest : name ∉ rest := fun hmem => hother (List.mem_cons_of_mem _ hmem)
    unfold readEach
    split
    · exact ih hrest
    · split
      · rw [ih hrest, lookup_quarantine hname hne]
      · rfl

theorem readEach_isOk (hjson : ∀ p ∈ paths, isJson p = true) (hnodup : paths.Nodup) :
    (readEach int float display refused d paths).1.isOk = true ↔
      ∀ p ∈ paths, Quiet isCaught (readEntry int float display p (d.read p)) := by
  induction paths generalizing d with
  | nil => simp [readEach, Except.isOk, Except.toBool]
  | cons path rest ih =>
    obtain ⟨hpath, hrest⟩ := List.forall_mem_cons.mp hjson
    obtain ⟨hfresh, hdistinct⟩ := List.nodup_cons.mp hnodup
    rw [List.forall_mem_cons, readEach]
    cases hread : readEntry int float display path (d.read path) with
    | ok entry =>
      rw [← ih hrest hdistinct]
      simp only [quiet_ok, true_and]
      cases (readEach int float display refused d rest).1 <;>
        simp [Except.map, Except.isOk, Except.toBool]
    | error e =>
      rw [quiet_error]
      by_cases hcaught : isCaught e = true
      · simp only [hcaught, if_true, true_and]
        rw [ih hrest hdistinct]
        have hsame : ∀ p ∈ rest, (quarantine refused d path).read p = d.read p := fun p hp =>
          read_quarantine (hrest p hp) fun heq => hfresh (heq ▸ hp)
        exact forall₂_congr fun p hp => by rw [hsame p hp]
      · simp [hcaught, Except.isOk, Except.toBool]

theorem readEach_ok (hjson : ∀ p ∈ paths, isJson p = true) (hnodup : paths.Nodup)
    (h : (readEach int float display refused d paths).1 = .ok listed) :
    listed = paths.filterMap fun p => (readEntry int float display p (d.read p)).toOption := by
  induction paths generalizing d listed with
  | nil =>
    cases h
    rfl
  | cons path rest ih =>
    obtain ⟨hpath, hrest⟩ := List.forall_mem_cons.mp hjson
    obtain ⟨hfresh, hdistinct⟩ := List.nodup_cons.mp hnodup
    rw [readEach] at h
    cases hread : readEntry int float display path (d.read path) with
    | ok entry =>
      simp only [hread] at h
      cases hout : (readEach int float display refused d rest).1 with
      | error e =>
        rw [hout] at h
        cases h
      | ok out =>
        rw [hout] at h
        cases h
        rw [List.filterMap_cons_some (b := entry) (by simp [hread, Except.toOption]),
          ih hrest hdistinct hout]
    | error e =>
      simp only [hread] at h
      split at h
      · rw [List.filterMap_cons_none (by simp [hread, Except.toOption]), ih hrest hdistinct h]
        refine List.filterMap_congr fun p hp => ?_
        have hne : path ≠ p := fun heq => hfresh (heq ▸ hp)
        rw [read_quarantine (hrest p hp) hne]
      · cases h

theorem readEach_aside {name : String} (hjson : ∀ p ∈ paths, isJson p = true)
    (hnodup : paths.Nodup) (hok : (readEach int float display refused d paths).1.isOk = true)
    (hname : name ∈ paths) (hrefused : refused name = false)
    (hbad : ∀ entry, readEntry int float display name (d.read name) ≠ .ok entry) :
    (readEach int float display refused d paths).2.lookup name = none := by
  induction paths generalizing d with
  | nil => cases hname
  | cons path rest ih =>
    obtain ⟨hpath, hrest⟩ := List.forall_mem_cons.mp hjson
    obtain ⟨hfresh, hdistinct⟩ := List.nodup_cons.mp hnodup
    rw [readEach] at hok ⊢
    cases hread : readEntry int float display path (d.read path) with
    | ok entry =>
      simp only [hread] at hok ⊢
      have hne : name ≠ path := by
        rintro rfl
        exact hbad entry hread
      have hmem : name ∈ rest := (List.mem_cons.mp hname).resolve_left hne
      refine ih hrest hdistinct ?_ hmem hbad
      cases hout : (readEach int float display refused d rest).1 with
      | ok out => rfl
      | error e =>
        rw [hout] at hok
        cases hok
    | error e =>
      simp only [hread] at hok ⊢
      split at hok
      case isFalse => cases hok
      case isTrue hcaught =>
        rw [if_pos hcaught]
        rcases List.mem_cons.mp hname with rfl | hmem
        · rw [lookup_readEach hpath hfresh, lookup_quarantine_self hpath hrefused]
        · have hne : path ≠ name := fun heq => hfresh (heq ▸ hmem)
          refine ih hrest hdistinct hok hmem ?_
          rw [read_quarantine (hrest name hmem) hne]
          exact hbad

theorem mem_sortedNames {name : String} :
    name ∈ sortedNames d ↔ name ∈ d.names ∧ isJson name = true := by
  simp [sortedNames]

theorem sortedNames_sorted : (sortedNames d).Pairwise (· < ·) := by
  have hle : (sortedNames d).Pairwise (· ≤ ·) := List.pairwise_insertionSort _ _
  have hnodup : (sortedNames d).Nodup :=
    ((List.perm_insertionSort _ _).nodup_iff).mpr ((Directory.nodup_names d).filter _)
  exact (hle.and hnodup).imp fun ⟨h, hne⟩ => lt_of_le_of_ne h hne

theorem entries_isOk : (entries int float display refused d).1.isOk = true ↔
    ∀ name ∈ d.names, isJson name = true → Caught int float name (d.read name) := by
  rw [entries, readEach_isOk (fun p hp => (mem_sortedNames.mp hp).2)
    (sortedNames_sorted.imp fun h => ne_of_lt h)]
  simp only [quiet_readEntry, mem_sortedNames, and_imp]

theorem entries_ok (h : (entries int float display refused d).1 = .ok listed) :
    listed = chain int float display d :=
  readEach_ok (fun _ hp => (mem_sortedNames.mp hp).2) (sortedNames_sorted.imp fun h => ne_of_lt h) h

theorem entries_aside {name : String} (hok : (entries int float display refused d).1.isOk = true)
    (hname : name ∈ d.names) (hjson : isJson name = true) (hrefused : refused name = false)
    (hbad : ∀ entry, ¬ IsEntry int float display name (d.read name) entry) :
    (entries int float display refused d).2.lookup name = none := by
  refine readEach_aside (fun p hp => (mem_sortedNames.mp hp).2)
    (sortedNames_sorted.imp fun h => ne_of_lt h) hok (mem_sortedNames.mpr ⟨hname, hjson⟩) hrefused ?_
  intro entry hread
  exact hbad entry (readEntry_ok.mp hread)

theorem toOption_eq_some {α : Type} {r : Except Raised α} {a : α} :
    r.toOption = some a ↔ r = .ok a := by
  cases r <;> simp [Except.toOption]

theorem mem_chain {entry : OutboxEntry} : entry ∈ chain int float display d ↔
    ∃ name ∈ d.names, isJson name = true ∧
      IsEntry int float display name (d.read name) entry := by
  simp only [chain, List.mem_filterMap, mem_sortedNames, toOption_eq_some, readEntry_ok, and_assoc]

theorem chain_sorted :
    (chain int float display d).Pairwise fun entry entry' => entry.path < entry'.path := by
  refine sortedNames_sorted.filterMap _ fun name name' hlt entry h entry' h' => ?_
  rw [toOption_eq_some, readEntry_ok] at h h'
  rw [h.named, h'.named]
  exact hlt

-- What the journal wrote is listed.
theorem mem_chain_of_written (float : String → Option Float64) (display : Json → String)
    {name : String} {seq : Nat}
    (hint : int (String.ofList (padded 10 seq)) = some (seq : Int)) (h : Written d name seq) :
    ∃ entry, IsEntry int float display name (d.read name) entry ∧ entry.seq = seq ∧
      entry ∈ chain int float display d := by
  obtain ⟨entry, hentry, hseq⟩ := isEntry_of_written float display hint h
  obtain ⟨jobId, kind, fields, rfl, hread, -⟩ := h
  refine ⟨entry, hentry, hseq, mem_chain.mpr ⟨_, ?_, Outbox.isJson_entryName .., hentry⟩⟩
  rw [Directory.mem_names]
  cases hlook : d.lookup (entryName seq jobId kind) with
  | none =>
    rw [Journal.read, hlook] at hread
    cases hread
  | some content => exact ⟨content, rfl⟩

end Listing

section Passes

variable {refused : String → Bool} {c : Circumstances} {listed : List OutboxEntry}

theorem wakes_of_unparked {now : Rat} {entry : OutboxEntry} (h : isParked now entry = false) :
    Wakes entry := by
  rw [isParked, Bool.and_eq_false_iff, decide_eq_false_iff_not, not_le] at h
  rcases h with h | h
  · exact .inl h
  · refine .inr fun heq => ?_
    rw [heq] at h
    cases h

def wakingAt (entry : OutboxEntry) : Rat :=
  match entry.lastAttemptAt with
  | .finite lastAttemptAt => lastAttemptAt + poisonCooldownS
  | _ => 0

theorem unparked_of_wakes {entry : OutboxEntry} (h : Wakes entry) :
    isParked (wakingAt entry) entry = false := by
  rw [isParked, Bool.and_eq_false_iff, decide_eq_false_iff_not, not_le]
  rcases h with h | h
  · exact .inl h
  · refine .inr ?_
    unfold wakingAt
    cases hlast : entry.lastAttemptAt with
    | finite t => simp [cooling]
    | infinite positive =>
      rw [hlast] at h
      cases positive with
      | true => exact absurd rfl h
      | false => rfl
    | nan => rfl

-- The entries of `before` have been looked at, and the jobs of `blocked` are jobs of theirs.
theorem head_attempted (hsorted : listed.Pairwise fun x y => x.path < y.path)
    (hprintable : ∀ before entry after, listed = before ++ entry :: after →
      isPrintable (entry.attempts + 1) = false →
      (∀ x ∈ before ++ [entry], x.jobId = entry.jobId → Wakes x) →
      ∀ head ∈ after, IsHead listed head → ¬ Wakes head)
    (hrefused : ∀ x ∈ listed, refused x.path = false) {head : OutboxEntry}
    (hhead : IsHead listed head) (hawake : isParked (c.clock head) head = false)
    {before rest : List OutboxEntry} {blocked : List String} (hlisted : listed = before ++ rest)
    (hblocked : ∀ j ∈ blocked, ∃ x ∈ before, x.jobId = j)
    (hopen : ∀ x ∈ before, x.jobId ∉ blocked → Wakes x) (hmem : head ∈ rest) :
    head ∈ attempted refused c rest blocked := by
  induction rest generalizing before blocked with
  | nil => cases hmem
  | cons entry rest ih =>
    have hnext : listed = (before ++ [entry]) ++ rest := by simp [hlisted]
    have hstep : ∀ blocked' : List String, (∀ j ∈ blocked', j ∈ blocked ∨ j = entry.jobId) →
        ∀ j ∈ blocked', ∃ x ∈ before ++ [entry], x.jobId = j := by
      intro blocked' hsub j hj
      rcases hsub j hj with hold | rfl
      · obtain ⟨x, hx, hjob⟩ := hblocked j hold
        exact ⟨x, List.mem_append_left _ hx, hjob⟩
      · exact ⟨entry, by simp, rfl⟩
    -- A job that is blocked has an entry before this one, so its head is not this one.
    have hfree : head = entry → entry.jobId ∉ blocked := by
      rintro rfl hmem
      obtain ⟨x, hx, hjob⟩ := hblocked _ hmem
      have hle := hhead x (by simp [hlisted, hx]) hjob
      rw [hlisted, List.pairwise_append] at hsorted
      exact absurd (hsorted.2.2 x hx head (by simp)) (not_lt_of_ge hle)
    rw [attempted]
    by_cases hskip : entry.jobId ∈ blocked
    · rw [if_pos hskip]
      have hlater : head ∈ rest :=
        (List.mem_cons.mp hmem).resolve_left fun heq => hfree heq hskip
      refine ih hnext (hstep blocked fun j hj => .inl hj) ?_ hlater
      intro x hx hout
      rcases List.mem_append.mp hx with hx | hx
      · exact hopen x hx hout
      · rw [List.mem_singleton.mp hx] at hout
        exact absurd hskip hout
    · rw [if_neg hskip]
      by_cases hparked : isParked (c.clock entry) entry = true
      · rw [if_pos hparked]
        have hlater : head ∈ rest := by
          refine (List.mem_cons.mp hmem).resolve_left ?_
          rintro rfl
          rw [hparked] at hawake
          cases hawake
        refine ih hnext (hstep _ fun j hj => (List.mem_cons.mp hj).symm) ?_ hlater
        intro x hx hout
        rw [List.mem_cons, not_or] at hout
        rcases List.mem_append.mp hx with hx | hx
        · exact hopen x hx hout.2
        · rw [List.mem_singleton.mp hx] at hout
          exact absurd rfl hout.1
      · rw [if_neg hparked]
        have hwakes : Wakes entry := wakes_of_unparked (by simpa using hparked)
        rcases List.mem_cons.mp hmem with rfl | hlater
        · exact List.mem_cons_self
        · refine List.mem_cons_of_mem _ ?_
          have hentry : refused entry.path = false := hrefused entry (by simp [hlisted])
          have hgone : ∀ x ∈ before ++ [entry], x.jobId ∉ blocked → Wakes x := by
            intro x hx hout
            rcases List.mem_append.mp hx with hx | hx
            · exact hopen x hx hout
            · rw [List.mem_singleton.mp hx]
              exact hwakes
          have hdelivered : head ∈ attempted refused c rest blocked :=
            ih hnext (hstep blocked fun j hj => .inl hj) hgone hlater
          have hbumped : head ∈ (if isPrintable (entry.attempts + 1) = true then
              attempted refused c rest (entry.jobId :: blocked) else []) := by
            by_cases hprint : isPrintable (entry.attempts + 1) = true
            · rw [if_pos hprint]
              refine ih hnext (hstep _ fun j hj => (List.mem_cons.mp hj).symm) ?_ hlater
              intro x hx hout
              exact hgone x hx fun hin => hout (List.mem_cons_of_mem _ hin)
            · exfalso
              refine hprintable before entry rest hlisted (by simpa using hprint) ?_ head hlater
                hhead (wakes_of_unparked hawake)
              intro x hx hjob
              exact hgone x hx (hjob ▸ hskip)
          cases c.answer entry with
          | none => simpa [hentry] using hdelivered
          | some cls =>
            cases cls with
            | terminal => simpa [hentry] using hdelivered
            | auth => exact hbumped
            | retryable => exact hbumped

-- A pass ends at an entry whose next number of attempts has no text.
theorem attempted_stops {before after : List OutboxEntry} {entry : OutboxEntry}
    {blocked : List String} (hfree : entry.jobId ∉ blocked)
    (hopen : ∀ x ∈ before ++ [entry], x.jobId = entry.jobId → isParked (c.clock x) x = false)
    (hbefore : ∀ x ∈ before, c.answer x = none) (hanswer : c.answer entry = some .retryable)
    (hprint : isPrintable (entry.attempts + 1) = false) :
    ∀ x ∈ attempted refused c (before ++ entry :: after) blocked, x ∈ before ++ [entry] := by
  induction before generalizing blocked with
  | nil =>
    have hawake := hopen entry (by simp) rfl
    simp [attempted, hfree, hawake, hanswer, hprint]
  | cons y before ih =>
    have hlater : ∀ x ∈ before ++ [entry], x.jobId = entry.jobId →
        isParked (c.clock x) x = false := fun x hx => hopen x (List.mem_cons_of_mem _ hx)
    have hanswers : ∀ x ∈ before, c.answer x = none :=
      fun x hx => hbefore x (List.mem_cons_of_mem _ hx)
    intro x hx
    rw [List.cons_append, attempted] at hx
    rw [List.cons_append, List.mem_cons]
    split at hx
    · exact .inr (ih hfree hlater hanswers x hx)
    · split at hx
      · next hparked =>
        have hother : entry.jobId ∉ y.jobId :: blocked := by
          rw [List.mem_cons, not_or]
          refine ⟨fun heq => ?_, hfree⟩
          rw [hopen y (by simp) heq.symm] at hparked
          cases hparked
        exact .inr (ih hother hlater hanswers x hx)
      · rcases List.mem_cons.mp hx with rfl | hx
        · exact .inl rfl
        · rw [hbefore y (by simp)] at hx
          dsimp only at hx
          split at hx
          · cases hx
          · exact .inr (ih hfree hlater hanswers x hx)

end Passes

section Settling

variable {int : String → Option Int} {float : String → Option Float64} {display : Json → String}
  {d : Journal}

-- Numbers of up to ten digits sort as their names do.
theorem numbered_of_lt (h : ∀ name seq, Written d name seq → seq < 10 ^ 10) {name name' : String}
    {seq seq' : Nat} (hwritten : Written d name seq) (hwritten' : Written d name' seq')
    (hlt : seq < seq') : name < name' := by
  have hsmall := h name' seq' hwritten'
  obtain ⟨jobId, kind, fields, rfl, -⟩ := hwritten
  obtain ⟨jobId', kind', fields', rfl, -⟩ := hwritten'
  exact Outbox.entryName_lt hlt hsmall jobId kind jobId' kind'

theorem isolated_of_harmless (hint : ∀ n : Nat, int (String.ofList (padded 10 n)) = some (n : Int))
    (h : Harmless int float display d) : Isolated int float display d := by
  have hok : ∀ refused, (entries int float display refused d).1.isOk = true :=
    fun refused => entries_isOk.mpr h.caught
  refine ⟨hok, ?_, ?_, ?_, ?_⟩
  · intro refused listed hlisted name seq hwritten
    obtain ⟨entry, hentry, -, hmem⟩ := mem_chain_of_written float display (hint seq) hwritten
    exact ⟨entry, by rw [entries_ok hlisted]; exact hmem, hentry.named⟩
  · intro refused listed hlisted
    rw [entries_ok hlisted]
    refine chain_sorted.imp fun {entry entry'} hlt seq seq' hwritten hwritten' => ?_
    by_contra hnot
    exact lt_asymm hlt (h.numbered _ _ _ _ hwritten' hwritten (by omega))
  · intro refused name hname hjson hbad hrefused
    exact entries_aside (hok refused) hname hjson hrefused hbad
  · intro refused c hrefused entry hentry hhead hawake
    obtain ⟨listed, hlisted⟩ := isOk_iff.mp (hok refused)
    have hchain := entries_ok hlisted
    subst hchain
    have hwhole : chain int float display d = [] ++ chain int float display d := rfl
    rw [drained, hlisted]
    exact head_attempted chain_sorted h.printable hrefused hhead hawake hwhole
      (fun j hj => by cases hj) (fun x hx => by cases hx) hentry

theorem rel_of_path_lt {R : OutboxEntry → OutboxEntry → Prop} {listed : List OutboxEntry}
    (hR : listed.Pairwise R) (hsorted : listed.Pairwise fun x y => x.path < y.path)
    {x y : OutboxEntry} (hx : x ∈ listed) (hy : y ∈ listed) (hlt : x.path < y.path) : R x y := by
  obtain ⟨before, after, rfl⟩ := List.append_of_mem hx
  rw [List.pairwise_append, List.pairwise_cons] at hR hsorted
  rcases List.mem_append.mp hy with hy | hy
  · exact absurd (hsorted.2.2 y hy x (by simp)) (lt_asymm hlt)
  · rcases List.mem_cons.mp hy with rfl | hy
    · exact absurd hlt (lt_irrefl _)
    · exact hR.2.1.1 y hy

theorem harmless_of_isolated (hint : ∀ n : Nat, int (String.ofList (padded 10 n)) = some (n : Int))
    (h : Isolated int float display d) : Harmless int float display d := by
  obtain ⟨listed, hlisted⟩ := isOk_iff.mp (h.returns fun _ => false)
  have hchain := entries_ok hlisted
  subst hchain
  refine ⟨entries_isOk.mp (h.returns fun _ => false), ?_, ?_⟩
  · intro name name' seq seq' hwritten hwritten' hlt
    obtain ⟨entry, hentry, hseq, hmem⟩ := mem_chain_of_written float display (hint seq) hwritten
    obtain ⟨entry', hentry', hseq', hmem'⟩ :=
      mem_chain_of_written float display (hint seq') hwritten'
    rcases lt_trichotomy name name' with hname | rfl | hname
    · exact hname
    · have hsame := hentry.numbered.symm.trans hentry'.numbered
      rw [hseq, hseq', Option.some_inj] at hsame
      omega
    · exfalso
      have hpath : entry'.path < entry.path := by rwa [hentry.named, hentry'.named]
      have hle := rel_of_path_lt (h.ordered _ _ hlisted) chain_sorted hmem' hmem hpath seq' seq
        (hentry'.named ▸ hwritten') (hentry.named ▸ hwritten)
      omega
  · intro before entry after hsplit hprint hwakes head hhead hishead hwake
    obtain ⟨c, hclock, hanswer⟩ : ∃ c : Circumstances, c.clock = wakingAt ∧
        ∀ x, c.answer x = if x.path = entry.path then some .retryable else none :=
      ⟨⟨wakingAt, fun x => if x.path = entry.path then some .retryable else none⟩, rfl, fun _ => rfl⟩
    have hmem : head ∈ chain int float display d := by simp [hsplit, hhead]
    have hawake : ∀ x, Wakes x → isParked (c.clock x) x = false := by
      intro x hx
      rw [hclock]
      exact unparked_of_wakes hx
    have hsent := h.attempts (fun _ => false) c (fun _ _ => rfl) head hmem hishead (hawake head hwake)
    have hsorted : (chain int float display d).Pairwise fun x y => x.path < y.path := chain_sorted
    rw [drained, hlisted] at hsent
    dsimp only at hsent
    rw [hsplit] at hsent hsorted
    rw [List.pairwise_append, List.pairwise_cons] at hsorted
    obtain ⟨-, ⟨hnext, -⟩, hbefore⟩ := hsorted
    have hanswers : ∀ x ∈ before, c.answer x = none := by
      intro x hx
      rw [hanswer, if_neg (ne_of_lt (hbefore x hx entry (by simp)))]
    have hretry : c.answer entry = some .retryable := by rw [hanswer, if_pos rfl]
    have hdone := attempted_stops (by simp) (fun x hx hjob => hawake x (hwakes x hx hjob)) hanswers
      hretry hprint head hsent
    rcases List.mem_append.mp hdone with hin | hin
    · exact lt_irrefl _ (hbefore head hin head (by simp [hhead]))
    · rw [List.mem_singleton.mp hin] at hhead
      exact lt_irrefl _ (hnext entry hhead)

theorem outbox_isolated_iff
    (hint : ∀ n : Nat, int (String.ofList (padded 10 n)) = some (n : Int)) :
    Isolated int float display d ↔ Harmless int float display d :=
  ⟨harmless_of_isolated hint, isolated_of_harmless hint⟩

end Settling

section Sample

def sampleInt (text : String) : Option Int := (Text.int text.toList).map Int.ofNat

theorem sampleInt_padded (n : Nat) : sampleInt (String.ofList (padded 10 n)) = some (n : Int) := by
  simp [sampleInt, int_padded]

def sampleBody : Json :=
  .object [("job_id", .string "a"), ("kind", .string "complete"), ("payload", .object []),
    ("attempts", .int 0)]

def journalOf (files : List (String × Loaded)) : Journal :=
  files.foldl (fun d file => d.put file.1 (some file.2)) Relational.Table.empty

-- A report, and a file that is not JSON.
def tornJournal : Journal :=
  journalOf [("0000000001-a-complete.json", .value sampleBody), ("0000000002-b-failed.json", .malformed)]

theorem tornJournal_files (name : String) (loaded : Loaded)
    (h : tornJournal.read name = some loaded) :
    name = "0000000001-a-complete.json" ∧ loaded = .value sampleBody ∨
      name = "0000000002-b-failed.json" ∧ loaded = .malformed := by
  simp only [tornJournal, journalOf, List.foldl_cons, List.foldl_nil, Journal.read,
    Directory.lookup_put] at h
  split at h
  · next hname => exact .inr ⟨hname.symm, (Option.some.inj h).symm⟩
  · split at h
    · next hname => exact .inl ⟨hname.symm, (Option.some.inj h).symm⟩
    · cases h

theorem tornJournal_harmless :
    Harmless sampleInt (fun _ => none) (fun _ => "") tornJournal := by
  have hsplit : (chain sampleInt (fun _ => none) (fun _ => "") tornJournal).length = 1 := by
    decide +kernel
  refine ⟨?_, fun name name' seq seq' => numbered_of_lt ?_, ?_⟩
  · intro name _ _ _
    cases hread : tornJournal.read name with
    | none => trivial
    | some loaded =>
      rcases tornJournal_files name loaded hread with ⟨-, rfl⟩ | ⟨-, rfl⟩
      · intro jobId kind body _ _ hbody
        cases hbody
        exact ⟨quiet_ok _ _, fun _ => ⟨quiet_ok _ _, fun _ => quiet_ok _ _⟩⟩
      · trivial
  · rintro name seq ⟨jobId, kind, fields, hname, hread, -⟩
    have hnumber : sampleInt (numberPart name) = some (seq : Int) := by
      rw [hname, numberPart_entryName, sampleInt_padded]
    rcases tornJournal_files name _ hread with ⟨rfl, -⟩ | ⟨-, hcontent⟩
    · have hone : sampleInt (numberPart "0000000001-a-complete.json") = some 1 := by decide +kernel
      rw [hone, Option.some_inj] at hnumber
      omega
    · cases hcontent
  · intro before entry after heq _ _ head hhead
    rw [heq] at hsplit
    cases after with
    | nil => cases hhead
    | cons x after =>
      simp only [List.length_append, List.length_cons] at hsplit
      omega

theorem outbox_isolated_torn : Isolated sampleInt (fun _ => none) (fun _ => "") tornJournal :=
  (outbox_isolated_iff sampleInt_padded).mpr tornJournal_harmless

-- A file that holds an empty JSON array.
def arrayJournal : Journal := journalOf [("0000000001-a-complete.json", .value (.array []))]

theorem not_outbox_isolated :
    ¬Isolated sampleInt (fun _ => none) (fun _ => "") arrayJournal := by
  intro h
  have hraised : (entries sampleInt (fun _ => none) (fun _ => "") (fun _ => false)
      arrayJournal).1.isOk = false := by decide +kernel
  have hok := h.returns fun _ => false
  rw [hraised] at hok
  cases hok

end Sample

end TranscodeForge.OutboxReading
