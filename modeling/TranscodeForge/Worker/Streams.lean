import Mathlib.Data.List.Sort
import Mathlib.Data.Multiset.AddSub

namespace TranscodeForge.Streams

structure StreamInfo where
  index : Nat
  codecType : String
  codecName : String
  language : String
  attachedPic : Bool
  forced : Bool
deriving DecidableEq, Repr

structure PlannedStream where
  sourceIndex : Nat
  ordinal : Nat
  codecType : String
  codecName : String
  language : String
  attachedPic : Bool
  forced : Bool
deriving DecidableEq, Repr

structure DroppedStream where
  sourceIndex : Nat
  reason : String
deriving DecidableEq, Repr

structure StreamPlan where
  kept : List PlannedStream
  dropped : List DroppedStream
deriving DecidableEq, Repr

def StreamPlan.accountedIndexes (plan : StreamPlan) : List Nat :=
  plan.kept.map PlannedStream.sourceIndex ++ plan.dropped.map DroppedStream.sourceIndex

def dropDataStream : String := "data stream, not carried into the output"

def dropUnknownStream : String := "stream of unknown type"

def dropUnmuxableSubtitle : String := "subtitle with no identifiable codec"

def carriedTypes : List String := ["video", "audio", "subtitle", "attachment"]

def primaryVideo (inventory : List StreamInfo) : Option StreamInfo :=
  inventory.find? fun s => s.codecType == "video" && !s.attachedPic

def primaryVideoIndex (inventory : List StreamInfo) : Option Nat :=
  (primaryVideo inventory).map StreamInfo.index

def unmuxable (inventory : List StreamInfo) (dropSubStreams : List Int) : List Nat :=
  let subtitles := inventory.filter fun s => s.codecType == "subtitle"
  dropSubStreams.filterMap fun n =>
    if 0 ≤ n then subtitles[n.toNat]?.map StreamInfo.index else none

def omission (unmuxable : List Nat) (s : StreamInfo) : Option String :=
  if s.index ∈ unmuxable then some dropUnmuxableSubtitle
  else if s.codecType = "data" then some dropDataStream
  else if s.codecType ∉ carriedTypes then some dropUnknownStream
  else none

def carried (inventory : List StreamInfo) (dropSubStreams : List Int) : List StreamInfo :=
  let primaryIndex := primaryVideoIndex inventory
  (inventory.find? fun s => some s.index == primaryIndex).toList ++
    inventory.filter fun s => some s.index != primaryIndex &&
      (omission (unmuxable inventory dropSubStreams) s).isNone

def planStreams (inventory : List StreamInfo) (targetCodec : String)
    (dropSubStreams : List Int) : StreamPlan where
  kept := (carried inventory dropSubStreams).mapIdx fun ordinal s =>
    { sourceIndex := s.index
      ordinal := ordinal
      codecType := s.codecType
      codecName := if some s.index = primaryVideoIndex inventory then targetCodec else s.codecName
      language := s.language
      attachedPic := s.attachedPic
      forced := s.forced }
  dropped := inventory.filterMap fun s =>
    if some s.index = primaryVideoIndex inventory then none
    else (omission (unmuxable inventory dropSubStreams) s).map fun reason => ⟨s.index, reason⟩

def languageSuffix (language : String) : String :=
  if language = "" then "" else " [" ++ language ++ "]"

def pictureSuffix (attachedPic : Bool) : String :=
  if attachedPic then " (attached picture)" else ""

def describe (s : StreamInfo) : String :=
  "#" ++ toString s.index ++ " " ++ s.codecType ++ " " ++ s.codecName ++
    languageSuffix s.language ++ pictureSuffix s.attachedPic

def describePlanned (p : PlannedStream) : String :=
  "#" ++ toString p.sourceIndex ++ " " ++ p.codecType ++ " " ++ p.codecName ++
    languageSuffix p.language ++ pictureSuffix p.attachedPic ++
    " at output position " ++ toString p.ordinal

structure InventoryKey where
  codecType : String
  codecName : String
  language : String
  attachedPic : Bool
  forced : Bool
deriving DecidableEq, Repr

def StreamInfo.key (s : StreamInfo) : InventoryKey :=
  ⟨s.codecType, s.codecName, s.language, s.attachedPic, s.forced⟩

def PlannedStream.key (p : PlannedStream) : InventoryKey :=
  ⟨p.codecType, p.codecName, p.language, p.attachedPic, p.forced⟩

-- `any` over the shared iterator consumes the produced keys up to and including the match.
def coversInOrder : List InventoryKey → List InventoryKey → Bool
  | [], _ => true
  | _ :: _, [] => false
  | key :: promised, candidate :: produced =>
    if candidate = key then coversInOrder promised produced
    else coversInOrder (key :: promised) produced

def StreamPlan.inOrder (plan : StreamPlan) : List PlannedStream :=
  plan.kept.insertionSort fun p q => p.ordinal ≤ q.ordinal

def lostStreams : List PlannedStream → List InventoryKey → List String
  | [], _ => []
  | p :: planned, remaining =>
    if p.key ∈ remaining then lostStreams planned (remaining.erase p.key)
    else describePlanned p :: lostStreams planned remaining

inductive StreamVerdict
  | covered
  | streamLoss (step detail : String) (missing : List String)
  | malformed (confused : List Nat)
deriving DecidableEq, Repr

def checkPlanCoversSource (inventory : List StreamInfo) (plan : StreamPlan) : StreamVerdict :=
  let accounted := plan.accountedIndexes
  let missing := inventory.filter fun s => s.index ∉ accounted
  let confused := accounted.dedup.filter fun i =>
    1 < accounted.count i || i ∉ inventory.map StreamInfo.index
  if missing ≠ [] then
    .streamLoss "TRANSCODE" "the encode would leave source streams behind" (missing.map describe)
  else if confused ≠ [] then .malformed (confused.insertionSort (· ≤ ·))
  else .covered

def checkStreamInventory (plan : StreamPlan) (actual : List StreamInfo) : StreamVerdict :=
  let promised := plan.inOrder.map PlannedStream.key
  let produced := actual.map StreamInfo.key
  if coversInOrder promised produced then .covered
  else
    let lost := lostStreams plan.inOrder produced
    .streamLoss "COMPARE" "the output does not carry every planned stream"
      (if lost = [] then
        ["the output holds all " ++ toString promised.length ++
          " planned streams but not in the planned order"]
      else lost)

theorem coversInOrder_iff (promised produced : List InventoryKey) :
    coversInOrder promised produced = true ↔ promised.Sublist produced := by
  induction produced generalizing promised with
  | nil => cases promised <;> simp [coversInOrder]
  | cons candidate produced ih =>
    cases promised with
    | nil => simp [coversInOrder]
    | cons key promised =>
      simp only [coversInOrder]
      split
      · next h =>
        subst h
        rw [ih, List.cons_sublist_cons]
      · next h =>
        rw [ih]
        exact ⟨fun hsub => hsub.cons _, fun hsub => (List.sublist_cons_iff.mp hsub).resolve_right
          (by rintro ⟨r, hr, _⟩; exact h (List.cons.inj hr).1.symm)⟩

theorem checkStreamInventory_covered_iff (plan : StreamPlan) (actual : List StreamInfo) :
    checkStreamInventory plan actual = .covered ↔
      (plan.inOrder.map PlannedStream.key).Sublist (actual.map StreamInfo.key) := by
  rw [← coversInOrder_iff, checkStreamInventory]
  split <;> simp_all

section Lost

variable {planned : List PlannedStream} {remaining : List InventoryKey}

-- The planned streams that `lostStreams` names.
def unmatched : List PlannedStream → List InventoryKey → List PlannedStream
  | [], _ => []
  | p :: planned, remaining =>
    if p.key ∈ remaining then unmatched planned (remaining.erase p.key)
    else p :: unmatched planned remaining

theorem lostStreams_eq : lostStreams planned remaining =
    (unmatched planned remaining).map describePlanned := by
  induction planned generalizing remaining with
  | nil => rfl
  | cons p planned ih =>
    by_cases hthere : p.key ∈ remaining
    · simp [lostStreams, unmatched, hthere, ih]
    · simp [lostStreams, unmatched, hthere, ih]

theorem unmatched_sublist : (unmatched planned remaining).Sublist planned := by
  induction planned generalizing remaining with
  | nil => exact .slnil
  | cons p planned ih =>
    by_cases hthere : p.key ∈ remaining
    · simpa [unmatched, hthere] using ih.cons p
    · simpa [unmatched, hthere] using ih.cons_cons p

theorem unmatched_diff : (unmatched planned remaining).map PlannedStream.key =
    (planned.map PlannedStream.key).diff remaining := by
  induction planned generalizing remaining with
  | nil => simp [unmatched]
  | cons p planned ih =>
    rw [List.map_cons, List.cons_diff]
    by_cases hthere : p.key ∈ remaining
    · simpa [unmatched, hthere] using ih
    · simpa [unmatched, hthere] using ih

theorem unmatched_keys : (((unmatched planned remaining).map PlannedStream.key : List InventoryKey) :
    Multiset InventoryKey) = ↑(planned.map PlannedStream.key) - ↑remaining := by
  rw [Multiset.coe_sub, unmatched_diff]

theorem inOrder_perm (plan : StreamPlan) : plan.inOrder.Perm plan.kept :=
  List.perm_insertionSort _ _

theorem inOrder_sorted (plan : StreamPlan) :
    plan.inOrder.Pairwise fun p q => p.ordinal ≤ q.ordinal := by
  have htotal : Std.Total fun p q : PlannedStream => p.ordinal ≤ q.ordinal :=
    ⟨fun p q => Nat.le_total p.ordinal q.ordinal⟩
  have htrans : IsTrans PlannedStream fun p q => p.ordinal ≤ q.ordinal :=
    ⟨fun _ _ _ => Nat.le_trans⟩
  exact List.pairwise_insertionSort _ _

end Lost

def orderMessage (n : Nat) : String :=
  "the output holds all " ++ toString n ++ " planned streams but not in the planned order"

-- Accepted iff the planned keys are a subsequence of the produced ones; otherwise what is reported
-- is the multiset difference, or the order when there is none.
theorem checkStreamInventory_exact (plan : StreamPlan) (actual : List StreamInfo) :
    let promised := plan.inOrder.map PlannedStream.key
    let produced := actual.map StreamInfo.key
    plan.inOrder.Perm plan.kept ∧ plan.inOrder.Pairwise (fun p q => p.ordinal ≤ q.ordinal) ∧
    (checkStreamInventory plan actual = .covered ↔ promised.Sublist produced) ∧
    (¬ promised.Sublist produced → ∃ (lost : List PlannedStream) (missing : List String),
      checkStreamInventory plan actual =
        .streamLoss "COMPARE" "the output does not carry every planned stream" missing ∧
      lost.Sublist plan.inOrder ∧
      (lost.map PlannedStream.key : Multiset InventoryKey) = ↑promised - ↑produced ∧
      ((promised : Multiset InventoryKey) - ↑produced ≠ 0 → missing = lost.map describePlanned) ∧
      ((promised : Multiset InventoryKey) - ↑produced = 0 →
        missing = [orderMessage promised.length]) ∧
      missing ≠ []) := by
  intro promised produced
  refine ⟨inOrder_perm plan, inOrder_sorted plan, checkStreamInventory_covered_iff plan actual,
    fun hnot => ?_⟩
  have hrefused : coversInOrder promised produced = false := by
    rw [Bool.eq_false_iff]
    exact mt (coversInOrder_iff promised produced).mp hnot
  let lost := unmatched plan.inOrder produced
  have hkeys : (lost.map PlannedStream.key : Multiset InventoryKey) = ↑promised - ↑produced :=
    unmatched_keys
  have hempty : (promised : Multiset InventoryKey) - ↑produced = 0 ↔ lost = [] := by
    rw [← hkeys]
    simp
  have hverdict : checkStreamInventory plan actual =
      .streamLoss "COMPARE" "the output does not carry every planned stream"
        (if lost = [] then [orderMessage promised.length] else lost.map describePlanned) := by
    have hlost : lostStreams plan.inOrder produced = lost.map describePlanned := lostStreams_eq
    simp only [checkStreamInventory]
    rw [if_neg (by simpa using hrefused), hlost]
    simp only [List.map_eq_nil_iff]
    rfl
  refine ⟨lost, _, hverdict, unmatched_sublist, hkeys, fun hsome => ?_, fun hnone => ?_, ?_⟩
  · rw [if_neg (mt hempty.mpr hsome)]
  · rw [if_pos (hempty.mp hnone)]
  · split
    · simp
    · next hsome => simpa using hsome

end TranscodeForge.Streams
