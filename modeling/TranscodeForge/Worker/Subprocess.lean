import TranscodeForge.Async.Task
import TranscodeForge.Async.Timeout
import Mathlib.Data.Rat.Init

namespace TranscodeForge.Subprocess

open Async

inductive Exn (E : Type) where
  | cancelled
  | timeout
  | other (e : E)
deriving DecidableEq, Repr

-- Where a turn of the block's code takes it: to its next await, or out of the block.
inductive Course (Q E α : Type) where
  | awaits (q : Q)
  | leaves (o : Except (Exn E) α)

-- The `extend` calls that a turn makes come before it ends.
structure Turn (Q E α : Type) where
  calls : List (Option Nat) := []
  course : Course Q E α

-- The code of the block: where it waits, what its awaits give back, what it leaves with.
structure Block (Q D E α : Type) where
  enter : Nat → Turn Q E α
  resume : Q → Except (Exn E) D → Nat → Turn Q E α

-- `returncode` says that the process object knows of the exit.
structure Child where
  exited : Bool := false
  returncode : Bool := false
  terminated : Bool := false
  killed : Bool := false
deriving DecidableEq, Repr

-- `grace` and `reap` await the child's exit in `terminate_process_tree`, before the kill and after
-- it; they keep what the block was left with.
inductive Await (Q E α : Type) where
  | block (q : Q)
  | grace (o : Except (Exn E) α)
  | reap (o : Except (Exn E) α)

-- The windows, in ticks of the loop's clock.
structure Limits where
  timeout : Nat
  grace : Nat
deriving DecidableEq, Repr

-- `called` is a history variable: when `extend` was called last, or the block entered, and the
-- window that was asked for.
structure World (Q E α : Type) where
  now : Nat
  child : Child
  deadline : Timeout
  graceTimer : Timeout
  requests : Nat
  task : Task (Await Q E α) (Exn E) α
  called : Nat × Nat

inductive Event (D E : Type) where
  | tick
  | childExits
  | childReaped
  | settles (o : Except (Exn E) Unit)
  | deadlineFires
  | graceFires
  | cancel
  | wake (d : D)
  | extend (seconds : Option Nat)

variable {Q D E α : Type} [DecidableEq E] (limits : Limits)

namespace World

def extend (w : World Q E α) (seconds : Option Nat) : World Q E α :=
  let window := seconds.getD limits.timeout
  { w with deadline := w.deadline.reschedule (w.now + window), called := (w.now, window) }

def suspend (w : World Q E α) (q : Await Q E α) : World Q E α :=
  { w with task := .arrive .cancelled (.suspended q) false }

def finish (w : World Q E α) (o : Except (Exn E) α) : World Q E α :=
  { w with task := .arrive .cancelled (.done o) false }

def termTree (w : World Q E α) : World Q E α := { w with child := { w.child with terminated := true } }

def killTree (w : World Q E α) : World Q E α := { w with child := { w.child with killed := true } }

-- `terminate_process_tree` up to its first await, the wait with a timeout.
def terminate (w : World Q E α) (o : Except (Exn E) α) : World Q E α :=
  { w.termTree with graceTimer := .enter (w.now + limits.grace) w.requests }.suspend (.grace o)

-- The block is left: its deadline's `__aexit__`, and the `finally` after it.
def leave (w : World Q E α) (o : Except (Exn E) α) : World Q E α :=
  let (deadline, requests, o) := w.deadline.exit .cancelled .timeout w.requests o
  let w := { w with deadline := deadline, requests := requests }
  if w.child.returncode then w.finish o else w.terminate limits o

def turn (w : World Q E α) (t : Turn Q E α) : World Q E α :=
  let w := t.calls.foldl (extend limits) w
  match t.course with
  | .awaits q => w.suspend (.block q)
  | .leaves o => w.leave limits o

-- The wait ends: the child's exit, the timeout, or a cancellation.
def graceEnds (w : World Q E α) (o : Except (Exn E) α) (signal : Except (Exn E) Unit) : World Q E α :=
  let (timer, requests, waited) := w.graceTimer.exit .cancelled .timeout w.requests signal
  let w := { w with graceTimer := timer, requests := requests }
  match waited with
  | .ok () => w.finish o
  | .error .timeout => if w.child.returncode then w.killTree.finish o else w.killTree.suspend (.reap o)
  | .error .cancelled => w.killTree.finish (.error .cancelled)
  | .error e => w.finish (.error e)

def reapEnds (w : World Q E α) (o : Except (Exn E) α) : Except (Exn E) Unit → World Q E α
  | .ok () => w.finish o
  | .error e => w.finish (.error e)

def requestCancel (w : World Q E α) : World Q E α :=
  { w with task := w.task.cancel .cancelled, requests := w.requests + 1 }

def isSuspended (w : World Q E α) : Bool :=
  match w.task.phase with
  | .suspended _ => true
  | .done _ => false

-- What the task waits for is settled; the child's exit only once it is known.
def settle (w : World Q E α) (o : Except (Exn E) Unit) : Option (World Q E α) :=
  match w.task.phase, o with
  | .suspended (.block _), o => (w.task.resolve o).map fun task => { w with task := task }
  | .suspended _, .ok () =>
    if w.child.returncode then (w.task.resolve (.ok ())).map fun task => { w with task := task }
    else none
  | _, _ => none

variable (b : Block Q D E α)

def resume (w : World Q E α) (d : D) : Await Q E α → Except (Exn E) Unit → World Q E α
  | .block q, signal => w.turn limits (b.resume q (signal.map fun _ => d) w.now)
  | .grace o, signal => w.graceEnds o signal
  | .reap o, signal => w.reapEnds o signal

-- `managed_subprocess` once the child is spawned.
def start (now requests : Nat) (child : Child) : World Q E α :=
  { now := now
    child := child
    deadline := .enter (now + limits.timeout) requests
    graceTimer := ⟨.exited, 0, 0⟩
    requests := requests
    task := ⟨.done (.error .cancelled), none, false⟩
    called := (now, limits.timeout) : World Q E α }.turn limits (b.enter now)

def step (w : World Q E α) : Event D E → Option (World Q E α)
  | .tick => some { w with now := w.now + 1 }
  | .childExits => some { w with child := { w.child with exited := true } }
  | .childReaped =>
    if w.child.exited then some { w with child := { w.child with returncode := true } } else none
  | .settles o => w.settle o
  | .deadlineFires =>
    (w.deadline.expire w.now).map fun deadline => { w.requestCancel with deadline := deadline }
  | .graceFires =>
    (w.graceTimer.expire w.now).map fun timer => { w.requestCancel with graceTimer := timer }
  | .cancel => if w.isSuspended then some w.requestCancel else none
  | .wake d => (w.task.signal .cancelled).map fun x => w.resume limits b d x.1 x.2
  | .extend seconds => some (w.extend limits seconds)

end World

-- A run each of whose events is allowed where it comes.
inductive Run (limits : Limits) (b : Block Q D E α) (allows : Event D E → World Q E α → Prop) :
    World Q E α → Prop
  | start (now requests : Nat) (exited returncode : Bool) : (returncode = true → exited = true) →
      Run limits b allows (.start limits b now requests ⟨exited, returncode, false, false⟩)
  | step {w w' : World Q E α} (e : Event D E) : Run limits b allows w → allows e w →
      w.step limits b e = some w' → Run limits b allows w'

-- A line without its ends, and what the parsers read in it.
structure Line where
  text : String
  noise : Bool := false
  progress : Option Rat := none
  speed : Option Rat := none

namespace RunEncode

def errorLinesBuffer : Nat := 10

inductive Answer where
  | line (l : Line)
  | eof
  | returned

-- `value` is the `ValueError` of a line that is too long.
inductive Failure where
  | value
  | other (message : String)
deriving DecidableEq

structure Locals where
  errorLines : List String := []
  lastCallback : Nat := 0

inductive Waits where
  | readline (s : Locals)
  | callback (s : Locals) (now : Nat) (progress : Rat) (speed : Option Rat)
  | exit

inductive Result where
  | stderrMissing
  | ended
deriving DecidableEq

-- The head of the loop.
def loop (s : Locals) : Turn Waits Failure Result := ⟨[none], .awaits (.readline s)⟩

def noteLine (s : Locals) (l : Line) : Locals :=
  if l.noise then s
  else
    let lines := s.errorLines ++ [l.text]
    { s with errorLines := if errorLinesBuffer < lines.length then lines.drop 1 else lines }

def onLine (hasCallback : Bool) (interval : Nat) (s : Locals) (l : Line) (now : Nat) :
    Turn Waits Failure Result :=
  if l.text = "" then loop s
  else
    let s := noteLine s l
    match l.progress with
    | none => loop s
    | some progress =>
      if hasCallback && interval + s.lastCallback ≤ now then
        ⟨[], .awaits (.callback s now progress l.speed)⟩
      else loop s

def raises (e : Exn Failure) : Turn Waits Failure Result := ⟨[], .leaves (.error e)⟩

-- The block of `run_encode`.
def block (hasStderr hasCallback : Bool) (interval : Nat) : Block Waits Answer Failure Result where
  enter _ := if hasStderr then loop {} else ⟨[], .leaves (.ok .stderrMissing)⟩
  resume
    | .readline s, .ok (.line l), now => onLine hasCallback interval s l now
    | .readline _, .ok _, _ => ⟨[], .awaits .exit⟩
    | .readline s, .error (.other .value), _ => loop s
    | .callback s now _ _, .ok _, _ => loop { s with lastCallback := now }
    | .exit, .ok _, _ => ⟨[], .leaves (.ok .ended)⟩
    | _, .error e, _ => raises e

end RunEncode

end TranscodeForge.Subprocess
