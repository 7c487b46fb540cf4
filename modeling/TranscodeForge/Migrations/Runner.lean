import TranscodeForge.Database.Session
import TranscodeForge.Interaction.Logic
import TranscodeForge.Migrations.Schema

namespace TranscodeForge.Migrations

open Database Interaction

variable {σ : Type}

inductive Call (σ : Type) where
  | createVersions
  | selectJobs
  | selectVersions
  | insertVersion (version : Nat) (name : String)
  | executescript (script : List (Statement σ))
  | start
  | execute (statement : Statement σ)
  | selectTokens
  | updateToken (token : String)
  | commit
  | rollback

inductive Fault where
  | failed
  | cancelled
deriving DecidableEq, Repr

abbrev Call.Payload : Call σ → Type
  | .selectJobs => Bool
  | .selectVersions => List Nat
  | .selectTokens => List String
  | _ => Unit

abbrev Call.Answer (op : Call σ) : Type := Except Fault op.Payload

-- How a call ends; one that is interrupted has taken effect, and a script may stop after some
-- of its statements, the BEGIN being the first.
inductive Delivery where
  | done
  | failed
  | stopped (after : Nat)
  | interrupted
deriving DecidableEq, Repr

namespace Delivery

variable {α : Type} (i : Delivery)

def takesEffect : Bool := i = .done || i = .interrupted

def answer (a : α) : Except Fault α := if i = .done then .ok a else .error .cancelled

def ask (a : Option α) : Except Fault α :=
  match a with
  | some a => if i.takesEffect then i.answer a else .error .failed
  | none => .error .failed

end Delivery

section Calls

variable (S : Schema σ) (legacy : Bool)

-- In legacy mode the first change of rows opens a transaction.
def change (f : Statement σ) (i : Delivery) (s : Session (Db σ)) :
    Session (Db σ) × Except Fault Unit :=
  if i.takesEffect then
    let s := if legacy then s.begin else s
    match f s.working with
    | some x => (s.write x, i.answer ())
    | none => (s, .error .failed)
  else (s, .error .failed)

def runScript : List (Statement σ) → Session (Db σ) → Session (Db σ) × Bool
  | [], s => (s, true)
  | f :: fs, s =>
    match f s.working with
    | some x => runScript fs (s.write x)
    | none => (s, false)

-- A transaction that is pending is committed before the script runs; the script here is the
-- BEGIN and the text of a migration.
def executescript (script : List (Statement σ)) (i : Delivery) (s : Session (Db σ)) :
    Session (Db σ) × Except Fault Unit :=
  match i with
  | .failed => (s, .error .failed)
  | .stopped 0 => (s.commit, .error .failed)
  | .stopped (n + 1) => ((runScript (script.take n) s.commit.begin).1, .error .failed)
  | .done | .interrupted =>
    let (s, complete) := runScript script s.commit.begin
    (s, if complete then i.answer () else .error .failed)

def transfer (next : Session (Db σ)) (i : Delivery) (s : Session (Db σ)) :
    Session (Db σ) × Except Fault Unit :=
  if i.takesEffect then (next, i.answer ()) else (s, .error .failed)

def exec : (op : Call σ) → Delivery → Session (Db σ) → Session (Db σ) × op.Answer
  | .createVersions, i, s => transfer (s.write s.working.created) i s
  | .selectJobs, i, s => (s, i.ask (some (S.hasJobs s.working.body)))
  | .selectVersions, i, s => (s, i.ask (s.working.versions.map (·.map Prod.fst)))
  | .insertVersion version name, i, s => change legacy (·.record version name) i s
  | .executescript script, i, s => executescript script i s
  | .start, i, s => transfer s.begin i s
  | .execute statement, i, s => change false statement i s
  | .selectTokens, i, s => (s, i.ask (S.unhashedTokens s.working.body))
  | .updateToken token, i, s => change legacy (setHash S token) i s
  | .commit, i, s => transfer s.commit i s
  | .rollback, i, s => transfer s.rollback i s

def handler : Handler Unit (Call σ) Call.Answer (Session (Db σ)) Delivery where
  exec := fun _ => exec S legacy

end Calls

abbrev Runner (σ α : Type) := Program (Call σ) Call.Answer Fault α

def send (op : Call σ) : Runner σ op.Payload := .call op .ofExcept

section Programs

variable (S : Schema σ)

def backfillTokenHashes : Runner σ Unit := do
  let tokens ← send .selectTokens
  Program.each tokens fun token => send (.updateToken token)

def backfillFor (m : Migration) : Runner σ Unit :=
  if m.name = "token_hash" then backfillTokenHashes else .ret ()

def recordApplied (m : Migration) : Runner σ Unit := send (.insertVersion m.version m.name)

def rollingBack (body : Runner σ Unit) : Runner σ Unit :=
  body.rescue fun e => (send .rollback).bind fun _ => .raise e

-- One turn of the loop over the migrations.
def sqliteTurn (fresh : Bool) (applied : List Nat) (m : Migration) : Runner σ Unit :=
  if m.version ∈ applied then .ret ()
  else if !fresh && m.version = 1 then recordApplied m
  else if m.pgOnly then recordApplied m
  else rollingBack do
    send (.executescript (S.script m.sql))
    backfillFor m
    recordApplied m
    send .commit

def applySqlite (ms : List Migration) : Runner σ Unit := do
  send .createVersions
  send .commit
  let jobs ← send .selectJobs
  let applied ← send .selectVersions
  Program.each ms (sqliteTurn S (!jobs) applied)
  send .commit

-- `async with conn.transaction()`.
def transaction (body : Runner σ Unit) : Runner σ Unit := do
  send .start
  rollingBack body
  send .commit

def postgresTurn (fresh : Bool) (applied : List Nat) (m : Migration) : Runner σ Unit :=
  if m.version ∈ applied then .ret ()
  else if !fresh && m.version = 1 then recordApplied m
  else transaction do
    Program.each (S.script m.sql) fun statement => send (.execute statement)
    backfillFor m
    recordApplied m

def applyPostgres (ms : List Migration) : Runner σ Unit := do
  send .createVersions
  let jobs ← send .selectJobs
  let applied ← send .selectVersions
  Program.each ms (postgresTurn S (!jobs) applied)

end Programs

-- Which migrations are recorded without being run.
def sqliteStamps (fresh : Bool) (m : Migration) : Bool := !fresh && m.version = 1 || m.pgOnly

def postgresStamps (fresh : Bool) (m : Migration) : Bool := !fresh && m.version = 1

end TranscodeForge.Migrations
