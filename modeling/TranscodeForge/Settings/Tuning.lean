import TranscodeForge.Interaction.Guarded
import TranscodeForge.Relational.Table
import Mathlib.Order.Lattice

namespace TranscodeForge.Tuning

open Interaction Relational

-- A Python float: not a number, or one of the ordered others.
inductive Number (α : Type) where
  | nan
  | num (x : α)
deriving DecidableEq, Repr

namespace Number

variable {α : Type} [LinearOrder α]

def lt : Number α → Number α → Bool
  | num x, num y => decide (x < y)
  | _, _ => false

def le : Number α → Number α → Bool
  | num x, num y => decide (x ≤ y)
  | _, _ => false

end Number

-- `float` and `int` of a text, `none` where they raise, and the environment's settings as text.
structure Env (α : Type) where
  float : String → Option (Number α)
  int : String → Option Int
  lowest : α
  highest : α
  settings : String → String

def targetCodecs : List String := ["hevc", "av1"]

inductive Detail (α : Type) where
  | notEditable (key : String)
  | invalidCodec (value : String)
  | notANumber (value : String)
  | scoreOutOfRange (score : Number α)
  | notAnInteger (value : String)
  | presetOutOfRange (quality : Int)
  | perc5AboveMean (perc5 mean : Number α)
deriving DecidableEq

inductive TuningError (α : Type) where
  | badRequest (detail : Detail α)
  | valueError
deriving DecidableEq

section Validators

variable {α : Type} [LinearOrder α] (env : Env α)

def validateCodec (value : String) : Except (Detail α) String :=
  if value ∈ targetCodecs then .ok value else .error (.invalidCodec value)

def validateVmaf (value : String) : Except (Detail α) String :=
  match env.float value with
  | none => .error (.notANumber value)
  | some score =>
    if (Number.num env.lowest).le score && score.le (.num env.highest) then .ok value
    else .error (.scoreOutOfRange score)

def validateQuality (value : String) : Except (Detail α) String :=
  match env.int value with
  | none => .error (.notAnInteger value)
  | some quality =>
    if 1 ≤ quality ∧ quality ≤ 51 then .ok value else .error (.presetOutOfRange quality)

def tunableKeys : List (String × (String → Except (Detail α) String)) :=
  [("default_codec", validateCodec), ("target_vmaf", validateVmaf env),
    ("vmaf_safety_mean", validateVmaf env), ("vmaf_safety_perc5", validateVmaf env),
    ("quality_movies", validateQuality env), ("quality_tv", validateQuality env),
    ("quality_anime", validateQuality env)]

def tunable (key : String) : Bool := (tunableKeys env).any fun entry => entry.1 == key

end Validators

structure Setting where
  key : String
  value : String
deriving DecidableEq

abbrev AppSettings := Table String Setting Setting.key

-- A statement and the commit after it.
inductive Op where
  | selectValue (key : String)
  | upsert (key value : String)
  | delete (key : String)
  | selectAll
deriving DecidableEq

abbrev Op.Answer : Op → Type
  | .selectValue _ => Option String
  | .upsert _ _ => Unit
  | .delete _ => Unit
  | .selectAll => List (String × String)

def exec (_ : Nat) : (op : Op) → Unit → AppSettings → AppSettings × op.Answer
  | .selectValue key, _, s => (s, (s.get? key).map Setting.value)
  | .upsert key value, _, s =>
    (s.upsert ⟨key, value⟩ (fun row => { row with value := value }) fun _ => rfl, ())
  | .delete key, _, s => (s.delete fun row => row.key == key, ())
  | .selectAll, _, s => (s, s.rows.map fun row => (row.key, row.value))

-- A JSON object: no key twice.
structure TuningUpdate where
  values : List (String × Option String)
  unique : (values.map Prod.fst).Nodup

structure Tuned (α : Type) where
  data : List (String × String)
  overrides : List (String × String)
  -- The target and the mean floor above it.
  warning : Option (Number α × Number α)
deriving DecidableEq

inductive Reply (α : Type) where
  | tuned (response : Tuned α)
  | floors (mean perc5 : Number α)
deriving DecidableEq

abbrev Route (α β : Type) := Program Op Op.Answer (TuningError α) β

section Routes

variable {α : Type} [LinearOrder α] (env : Env α)

def getOverride (key : String) : Route α (Option String) := Program.perform (Op.selectValue key)

def setOverride (key value : String) : Route α Unit :=
  match (tunableKeys env).lookup key with
  | none => .raise .valueError
  | some validator =>
    match validator value with
    | .error _ => .raise .valueError
    | .ok validated => Program.perform (Op.upsert key validated)

def clearOverride (key : String) : Route α Unit := Program.perform (Op.delete key)

def effective (key : String) : Route α String :=
  if tunable env key then do
    let override ← getOverride key
    pure (override.getD (env.settings key))
  else .raise .valueError

def allEffective : List String → Route α (List (String × String))
  | [] => pure []
  | key :: keys => do
    let value ← effective env key
    let rest ← allEffective keys
    pure ((key, value) :: rest)

def allOverrides : Route α (List (String × String)) := Program.perform Op.selectAll

def toFloat (text : String) : Route α (Number α) :=
  match env.float text with
  | none => .raise .valueError
  | some x => .ret x

-- The text of a value that is neither `None` nor empty.
def given (value : Option String) : Option String := value.filter fun text => text ≠ ""

def validate : List (String × Option String) → Except (TuningError α) Unit
  | [] => .ok ()
  | (key, value) :: values =>
    match (tunableKeys env).lookup key with
    | none => .error (.badRequest (.notEditable key))
    | some validator =>
      match given value with
      | none => validate values
      | some text =>
        match validator text with
        | .error detail => .error (.badRequest detail)
        | .ok _ => validate values

-- `float(getattr(settings, key))` is read off the setting's text.
def prospective (values : List (String × Option String)) (key : String) : Route α (Number α) :=
  match values.lookup key with
  | some value => toFloat env ((given value).getD (env.settings key))
  | none => do
    let text ← effective env key
    toFloat env text

def touches (values : List (String × Option String)) (key : String) : Bool :=
  key ∈ values.map Prod.fst

def floorKeys : List String := ["vmaf_safety_mean", "vmaf_safety_perc5"]

def checkFloors (values : List (String × Option String)) : Route α Unit :=
  if floorKeys.any (touches values) then do
    let mean ← prospective env values "vmaf_safety_mean"
    let perc5 ← prospective env values "vmaf_safety_perc5"
    if mean.lt perc5 then .raise (.badRequest (.perc5AboveMean perc5 mean)) else pure ()
  else pure ()

def warn (values : List (String × Option String)) : Route α (Option (Number α × Number α)) :=
  if touches values "target_vmaf" || touches values "vmaf_safety_mean" then do
    let mean ← prospective env values "vmaf_safety_mean"
    let target ← prospective env values "target_vmaf"
    pure (if target.lt mean then some (target, mean) else none)
  else pure none

def write (entry : String × Option String) : Route α Unit :=
  match given entry.2 with
  | none => clearOverride entry.1
  | some text => setOverride env entry.1 text

def respond (warning : Option (Number α × Number α)) : Route α (Reply α) := do
  let data ← allEffective env ((tunableKeys env).map Prod.fst)
  let overrides ← allOverrides
  pure (.tuned ⟨data, overrides, warning⟩)

def applying (values : List (String × Option String)) (warning : Option (Number α × Number α)) :
    Route α (Reply α) :=
  (Program.each values (write env)).bind fun _ => respond env warning

def updateTuning (body : TuningUpdate) : Route α (Reply α) := do
  Program.ofExcept (validate env body.values)
  checkFloors env body.values
  let warning ← warn env body.values
  applying env body.values warning

-- The end of `claim_job`, once a job is taken.
def claimFloors : Route α (Reply α) := do
  let perc5 ← effective env "vmaf_safety_perc5"
  let perc5 ← toFloat env perc5
  let mean ← effective env "vmaf_safety_mean"
  let mean ← toFloat env mean
  pure (.floors mean perc5)

inductive Request where
  | update (body : TuningUpdate)
  | claim

def service : System Nat Request Empty Op Op.Answer AppSettings Unit (TuningError α) (Reply α) where
  handler := ⟨exec, fun _ _ _ => true⟩
  body
    | _, .update body => updateTuning env body
    | _, .claim => claimFloors env
  start _ _ s := some s
  disturb := Empty.elim
  kills := fun k _ => k.elim

end Routes

end TranscodeForge.Tuning
