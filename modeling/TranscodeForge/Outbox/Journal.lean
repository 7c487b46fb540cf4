import TranscodeForge.Storage.Directory
import TranscodeForge.Text.Decimal
import TranscodeForge.Interaction.Logic
import TranscodeForge.Worker.Filesystem

namespace TranscodeForge.Outbox

open Interaction Storage SourcePath Filesystem Text

def milestoneKinds : List String := ["register_derivative", "complete", "skipped", "failed"]

-- A JSON object, its values as JSON text.
abbrev Payload := List (String × String)

-- `report` is a history variable: it tells the reports apart and no program reads it.
structure Body where
  jobId : String
  kind : String
  payload : Payload
  attempts : Int
  lastAttemptAt : Rat
  report : Nat
deriving DecidableEq, Repr

inductive Content where
  | body (b : Body)
  | unreadable
deriving DecidableEq, Repr

structure OutboxEntry where
  seq : Nat
  body : Body
  path : String
deriving DecidableEq, Repr

structure Mark where
  report : Nat
  jobId : String
deriving DecidableEq, Repr

def Body.mark (b : Body) : Mark := ⟨b.report, b.jobId⟩

-- The files of the outbox and, from `nextReport` on, history variables: the reports that are in
-- the journal, those whose `append` returned, and those the scheduler acknowledged or refused.
structure Disk where
  files : Directory Content
  nextReport : Nat
  journaled : List Mark
  returned : List Nat
  settled : List Nat

def withSuffix (name suffix : String) : String := (stemSuffix name).1 ++ suffix

def isJson (name : String) : Bool := decide (".json".toList <:+ name.toList)

def entryName (seq : Nat) (jobId kind : String) : String :=
  String.ofList (padded 10 seq) ++ ("-" ++ jobId ++ "-" ++ kind ++ ".json")

def numberOf (name : String) : Option Nat := int (name.toList.takeWhile (· != '-'))

inductive Reply where
  | status (code : Nat)
  | error
deriving DecidableEq, Repr

inductive ErrorClass where
  | retryable
  | auth
  | terminal
deriving DecidableEq, Repr

def isSuccess (code : Nat) : Bool := 200 ≤ code && code < 300

-- `none` is a call that raised nothing.
def classifyError : Reply → Option ErrorClass
  | .error => some .retryable
  | .status code =>
    if isSuccess code then none
    else if code = 401 then some .auth
    else if 400 ≤ code ∧ code < 500 then some .terminal
    else some .retryable

def settles (reply : Reply) : Bool :=
  classifyError reply = none || classifyError reply = some .terminal

inductive Site where
  | nextSeq
  | append
  | entries
  | delete
  | bumpAttempts
  | drain
  | deliver
deriving DecidableEq, Repr

inductive Action where
  | glob
  | readText (name : String)
  | writeText (name : String) (body : Body)
  | replace (src dst : String)
  | unlink (name : String)
  | now
  | enroll
  | returned (report : Nat)
  | send (report : Option Nat) (jobId kind : String) (payload : Payload)
  | heartbeats
deriving DecidableEq

abbrev Action.Answer : Action → Type
  | .glob => List String
  | .readText _ => Except OSError Content
  | .writeText _ _ | .replace _ _ | .unlink _ => Except OSError Unit
  | .now => Rat
  | .enroll | .heartbeats => Nat
  | .returned _ => Unit
  | .send _ _ _ _ => Reply

structure Call where
  site : Site
  action : Action
deriving DecidableEq

abbrev Call.Answer (c : Call) : Type := c.action.Answer

structure Input where
  fault : Bool := false
  torn : Bool := false
  reply : Reply := .status 200
  now : Rat := 0
  heartbeats : Nat := 0

-- `glob` answers a directory it cannot list with no names at all.
def exec (_ : Unit) : (c : Call) → Input → Disk → Disk × c.Answer
  | ⟨_, .glob⟩, i, d => (d, if i.fault then [] else d.files.names.filter isJson)
  | ⟨_, .readText name⟩, i, d =>
    (d, if i.fault then .error .other
      else match d.files.lookup name with
        | some content => .ok content
        | none => .error .notFound)
  | ⟨_, .writeText name body⟩, i, d =>
    if i.fault then
      (if i.torn then { d with files := d.files.put name .unreadable } else d, .error .other)
    else ({ d with files := d.files.put name (.body body) }, .ok ())
  | ⟨site, .replace src dst⟩, i, d =>
    if i.fault then (d, .error .other)
    else match d.files.lookup src with
      | none => (d, .error .notFound)
      | some content =>
        let journaled := match site, content with
          | .append, .body b => d.journaled ++ [b.mark]
          | _, _ => d.journaled
        ({ d with files := d.files.move src dst, journaled := journaled }, .ok ())
  | ⟨_, .unlink name⟩, i, d =>
    if i.fault then (d, .error .other)
    else if (d.files.lookup name).isSome then ({ d with files := d.files.remove name }, .ok ())
    else (d, .error .notFound)
  | ⟨_, .now⟩, i, d => (d, i.now)
  | ⟨_, .enroll⟩, _, d => ({ d with nextReport := d.nextReport + 1 }, d.nextReport)
  | ⟨_, .returned report⟩, _, d => ({ d with returned := d.returned ++ [report] }, ())
  | ⟨_, .send report _ _ _⟩, i, d =>
    (if settles i.reply then { d with settled := d.settled ++ report.toList } else d, i.reply)
  | ⟨_, .heartbeats⟩, i, d => (d, i.heartbeats)

def handler : Handler Unit Call Call.Answer Disk Input where
  exec := exec

abbrev Courier := Program Call Call.Answer Failure

def act (site : Site) (action : Action) : Courier action.Answer := .call ⟨site, action⟩ .ret

def orRaise {α : Type} (p : Courier (Except OSError α)) : Courier α :=
  p.bind fun r => .ofExcept (r.mapError .os)

def nextSeq : Courier Nat := do
  let names ← act .nextSeq .glob
  pure ((names.filterMap numberOf).foldl max 0 + 1)

-- tmp + `os.replace`.
def place (path : String) (body : Body) : Courier Unit := do
  orRaise (act .append (.writeText (withSuffix path ".tmp") body))
  orRaise (act .append (.replace (withSuffix path ".tmp") path))

def append (jobId kind : String) (payload : Payload) : Courier OutboxEntry := do
  if kind ∈ milestoneKinds then do
    let seq ← nextSeq
    let report ← act .append .enroll
    let path := entryName seq jobId kind
    let body : Body := ⟨jobId, kind, payload, 0, 0, report⟩
    place path body
    act .append (.returned report)
    pure ⟨seq, body, path⟩
  else .raise (.value ("Unknown milestone kind: '" ++ kind ++ "'"))

def quarantine (path : String) : Courier (Option OutboxEntry) := do
  let _ ← act .entries (.replace path (withSuffix path ".corrupt"))
  pure none

def readEntry (path : String) : Courier (Option OutboxEntry) := do
  match numberOf path with
  | none => quarantine path
  | some seq =>
    match ← act .entries (.readText path) with
    | .ok (.body b) => pure (some ⟨seq, b, path⟩)
    | _ => quarantine path

def readEach : List String → Courier (List OutboxEntry)
  | [] => pure []
  | path :: rest => do
    let entry ← readEntry path
    let out ← readEach rest
    pure (entry.toList ++ out)

def entries : Courier (List OutboxEntry) := do
  let names ← act .entries .glob
  readEach (names.insertionSort (· ≤ ·))

def delete (entry : OutboxEntry) : Courier Unit := do
  match ← act .delete (.unlink entry.path) with
  | .ok () | .error .notFound => pure ()
  | .error e => .raise (.os e)

def bumpAttempts (entry : OutboxEntry) : Courier Unit := do
  let now ← act .bumpAttempts .now
  let body := { entry.body with attempts := entry.body.attempts + 1, lastAttemptAt := now }
  match ← act .bumpAttempts (.writeText (withSuffix entry.path ".tmp") body) with
  | .error _ => pure ()
  | .ok () => do
    let _ ← act .bumpAttempts (.replace (withSuffix entry.path ".tmp") entry.path)
    pure ()

section Names

theorem toList_entryName (seq : Nat) (jobId kind : String) : (entryName seq jobId kind).toList =
    padded 10 seq ++ ('-' :: (jobId ++ "-" ++ kind).toList ++ ".json".toList) := by
  simp [entryName]

theorem numberOf_entryName (seq : Nat) (jobId kind : String) :
    numberOf (entryName seq jobId kind) = some seq := by
  have hdash : ∀ c ∈ padded 10 seq, (c != '-') = true := by
    intro c hc
    have hdigit := isDigit_padded hc
    rw [bne_iff_ne]
    rintro rfl
    exact absurd hdigit (by decide)
  rw [numberOf, toList_entryName, List.takeWhile_append_of_pos hdash]
  simp [int_padded]

theorem isJson_entryName (seq : Nat) (jobId kind : String) :
    isJson (entryName seq jobId kind) = true := by
  rw [isJson, decide_eq_true_eq, toList_entryName]
  exact ⟨padded 10 seq ++ '-' :: (jobId ++ "-" ++ kind).toList, by simp⟩

theorem isJson_withSuffix {name suffix : String} (hne : suffix.toList ≠ [])
    (h : suffix.toList.getLast? ≠ some 'n') : isJson (withSuffix name suffix) = false := by
  rw [isJson, decide_eq_false_iff_not, withSuffix, String.toList_append]
  rintro ⟨front, heq⟩
  have hlast := congrArg List.getLast? heq
  rw [List.getLast?_append_of_ne_nil _ hne, List.getLast?_append_of_ne_nil _ (by decide)] at hlast
  exact h hlast.symm

theorem isJson_tmp (name : String) : isJson (withSuffix name ".tmp") = false :=
  isJson_withSuffix (by decide) (by decide)

theorem isJson_corrupt (name : String) : isJson (withSuffix name ".corrupt") = false :=
  isJson_withSuffix (by decide) (by decide)

-- As long as the numbers have ten digits, their order is the order of the file names.
theorem entryName_lt {m n : Nat} (h : m < n) (hn : n < 10 ^ 10) (jobId kind jobId' kind' : String) :
    entryName m jobId kind < entryName n jobId' kind' := by
  rw [String.lt_iff_toList_lt, toList_entryName, toList_entryName]
  apply append_lt_append
  · rw [length_padded (by decide) (by omega), length_padded (by decide) hn]
  · exact padded_lt (by decide) h hn

theorem le_foldl_max {numbers : List Nat} {n start : Nat} (h : n ∈ numbers ∨ n ≤ start) :
    n ≤ numbers.foldl max start := by
  induction numbers generalizing start with
  | nil => simpa using h
  | cons m numbers ih =>
    apply ih
    rcases h with h | h
    · rcases List.mem_cons.mp h with rfl | h
      · exact .inr (le_max_right _ _)
      · exact .inl h
    · exact .inr (le_trans h (le_max_left _ _))

-- A number one above the largest in the directory names no file of it.
theorem entryName_fresh {names : List String} {seq : Nat} (jobId kind : String)
    (hseq : (names.filterMap numberOf).foldl max 0 < seq) : entryName seq jobId kind ∉ names := by
  intro hmem
  have hnumber : seq ∈ names.filterMap numberOf :=
    List.mem_filterMap.mpr ⟨_, hmem, numberOf_entryName seq jobId kind⟩
  have hle : seq ≤ (names.filterMap numberOf).foldl max 0 := le_foldl_max (.inl hnumber)
  omega

end Names

end TranscodeForge.Outbox
