import Diamnet.Bucket.Bucket

/-! The bucket list (`BucketList.cpp`, `FutureBucket.cpp`, `BucketManagerImpl::assumeState`).

Eleven levels, each with a bucket that is being filled (`curr`), one that was (`snap`), and
the merge that will give the next `curr` of the level. A merge runs in the background: its
result is fixed when it starts, and is taken at any time until the level needs it. -/
namespace Diamnet.Buckets

variable {K E : Type} [LinearOrder K]

/-! ### Levels and ledgers -/

def kNumLevels : Nat := 11

def levelSize (level : Nat) : Nat := 1 <<< (2 * (level + 1))

def levelHalf (level : Nat) : Nat := levelSize level >>> 1

def mask (v m : Nat) : Nat := v - (v &&& (m - 1))

def levelShouldSpill (ledger level : Nat) : Bool :=
  if level = kNumLevels - 1 then false
  else ledger = mask ledger (levelHalf level) || ledger = mask ledger (levelSize level)

def keepDeadEntries (level : Nat) : Bool := level < kNumLevels - 1

/-- Whether the level will itself be snapshotted when the merge that started at the last
spill of the level before it is due. -/
def shouldMergeWithEmptyCurr (ledger level : Nat) : Bool :=
  if level ≠ 0 then
    let mergeStartLedger := mask ledger (levelHalf (level - 1))
    let nextChangeLedger := mergeStartLedger + levelHalf (level - 1)
    levelShouldSpill nextChangeLedger level
  else false

/-! ### Merges in the background -/

structure MergeInputs (K E : Type) [LinearOrder K] where
  curr : Bucket K E
  snap : Bucket K E
  shadows : List (Bucket K E)

/-- A merge that is running has its result already, and may have failed. -/
inductive FutureBucket (K E : Type) [LinearOrder K] where
  | clear
  | liveInputs (inputs : MergeInputs K E) (future : Except MergeError (Bucket K E))
  | liveOutput (output : Bucket K E)
  | hashInputs (inputs : MergeInputs K E)
  | hashOutput (output : Bucket K E)

namespace FutureBucket

def isLive : FutureBucket K E → Bool
  | .liveInputs _ _ => true
  | .liveOutput _ => true
  | _ => false

def isMerging : FutureBucket K E → Bool
  | .liveInputs _ _ => true
  | _ => false

def mergeOf (maxProtocolVersion level : Nat) (inputs : MergeInputs K E) : Except MergeError (Bucket K E) :=
  Bucket.merge maxProtocolVersion inputs.curr inputs.snap inputs.shadows (keepDeadEntries level)

def startMerge (maxProtocolVersion level : Nat) (inputs : MergeInputs K E) : FutureBucket K E :=
  .liveInputs inputs (mergeOf maxProtocolVersion level inputs)

def new (maxProtocolVersion level : Nat) (inputs : MergeInputs K E) : Except MergeError (FutureBucket K E) :=
  if FIRST_PROTOCOL_SHADOWS_REMOVED ≤ inputs.snap.version ∧ inputs.shadows ≠ [] then throw .invalidFutureBucket
  else pure (startMerge maxProtocolVersion level inputs)

def resolve : FutureBucket K E → Except MergeError (Bucket K E)
  | .liveOutput output => pure output
  | .liveInputs _ future => future
  | _ => throw .assertion

def makeLive (maxProtocolVersion level : Nat) : FutureBucket K E → Except MergeError (FutureBucket K E)
  | .hashOutput output => pure (.liveOutput output)
  | .hashInputs inputs => pure (startMerge maxProtocolVersion level inputs)
  | _ => throw .assertion

end FutureBucket

structure BucketLevel (K E : Type) [LinearOrder K] where
  curr : Bucket K E
  snap : Bucket K E
  next : FutureBucket K E

namespace BucketLevel

def new : BucketLevel K E := ⟨.empty, .empty, .clear⟩

def buckets (level : BucketLevel K E) : List (Bucket K E) := [level.curr, level.snap]

def setCurr (level : BucketLevel K E) (b : Bucket K E) : BucketLevel K E :=
  { level with next := .clear, curr := b }

def commit (level : BucketLevel K E) : Except MergeError (BucketLevel K E) :=
  if level.next.isLive then do return level.setCurr (← level.next.resolve) else pure level

def takeSnap (level : BucketLevel K E) : BucketLevel K E := { level with snap := level.curr, curr := .empty }

/-- What a merge of the level takes in at this ledger. -/
def inputs (level : BucketLevel K E) (i currLedger : Nat) (snap : Bucket K E) (shadows : List (Bucket K E)) :
    MergeInputs K E where
  curr := if shouldMergeWithEmptyCurr currLedger i then .empty else level.curr
  snap := snap
  shadows := if FIRST_PROTOCOL_SHADOWS_REMOVED ≤ snap.version then [] else shadows

/-- Start the merge for the next `curr` of the level `i`. -/
def prepare (level : BucketLevel K E) (i currLedger currLedgerProtocol : Nat) (snap : Bucket K E)
    (shadows : List (Bucket K E)) : Except MergeError (BucketLevel K E) :=
  if level.next.isMerging then throw .assertion
  else do
    let next ← FutureBucket.new currLedgerProtocol i (level.inputs i currLedger snap shadows)
    return { level with next }

def resolveIfReady (level : BucketLevel K E) (ready : Bool) : Except MergeError (BucketLevel K E) :=
  if level.next.isMerging && ready then do
    let output ← level.next.resolve
    return { level with next := .liveOutput output }
  else pure level

end BucketLevel

/-! ### The list -/

abbrev Levels (K E : Type) [LinearOrder K] := List (BucketLevel K E)

def BucketList.new : Levels K E := List.replicate kNumLevels .new

/-- All buckets in the order in which they are read. -/
def Levels.flat (levels : Levels K E) : List (Bucket K E) := levels.flatMap (·.buckets)

/-- The loop from the oldest level down. `younger` holds the levels below `level`, the nearest
first; the shadows of a merge are all that is below the two levels it is between. -/
def spill (currLedger currLedgerProtocol : Nat) : (younger : Levels K E) → (level : BucketLevel K E) →
    (older : Levels K E) → Except MergeError (BucketLevel K E × Levels K E)
  | [], level, older => pure (level, older)
  | prev :: younger, level, older =>
    if levelShouldSpill currLedger younger.length then do
      let prev := prev.takeSnap
      let level ← level.commit
      let level ← level.prepare (younger.length + 1) currLedger currLedgerProtocol prev.snap
        (Levels.flat younger.reverse)
      spill currLedger currLedgerProtocol younger prev (level :: older)
    else spill currLedger currLedgerProtocol younger prev (level :: older)

def spillLevels (currLedger currLedgerProtocol : Nat) (levels : Levels K E) :
    Except MergeError (BucketLevel K E × Levels K E) :=
  match levels.reverse with
  | [] => throw .assertion
  | level :: younger => spill currLedger currLedgerProtocol younger level []

/-- Take the results of the merges that are ready, from the level `i` on. -/
def resolveAnyReadyFutures (ready : Nat → Bool) : Nat → Levels K E → Except MergeError (Levels K E)
  | _, [] => pure []
  | i, level :: rest => do
    let level ← level.resolveIfReady (ready i)
    let rest ← resolveAnyReadyFutures ready (i + 1) rest
    return level :: rest

/-- The youngest level takes in the batch of the ledger. -/
def addFresh (currLedger currLedgerProtocol : Nat) (batch : Batch K E) (level : BucketLevel K E) :
    Except MergeError (BucketLevel K E) := do
  let fresh ← Bucket.fresh currLedgerProtocol batch
  let level ← level.prepare 0 currLedger currLedgerProtocol fresh []
  level.commit

/-- What a ledger brings: its protocol, its entries, and which merges are found ready then. -/
structure Close (K E : Type) where
  protocol : Nat
  batch : Batch K E
  ready : Nat → Bool

def addBatch (currLedger : Nat) (c : Close K E) (levels : Levels K E) : Except MergeError (Levels K E) :=
  if currLedger = 0 then throw .assertion
  else do
    let (level, older) ← spillLevels currLedger c.protocol levels
    let level ← addFresh currLedger c.protocol c.batch level
    resolveAnyReadyFutures c.ready 0 (level :: older)

/-- Ledgers closed one after the other, after ledger `n`. -/
def closeLedgers : Nat → List (Close K E) → Levels K E → Except MergeError (Levels K E)
  | _, [], levels => pure levels
  | n, c :: rest, levels => do
    let levels ← addBatch (n + 1) c levels
    closeLedgers (n + 1) rest levels

/-! ### Restart -/

/-- The pending merges of a list whose buckets and recorded merges were set, from the level
`i` on, `prev` being the level before it. -/
def restartMerges (maxProtocolVersion ledger : Nat) : Nat → Option (BucketLevel K E) → Levels K E →
    Except MergeError (Levels K E)
  | _, _, [] => pure []
  | i, prev, level :: rest =>
    match level.next, prev with
    | .hashInputs inputs, _ => do
      let next ← FutureBucket.makeLive maxProtocolVersion i (.hashInputs inputs)
      return { level with next } :: (← restartMerges maxProtocolVersion ledger (i + 1) (some level) rest)
    | .hashOutput output, _ => do
      let next ← FutureBucket.makeLive maxProtocolVersion i (.hashOutput output)
      return { level with next } :: (← restartMerges maxProtocolVersion ledger (i + 1) (some level) rest)
    | .clear, some prev =>
      -- a level that was never reached: nor were those after it
      if prev.snap.isEmpty then pure (level :: rest)
      else if prev.snap.version < FIRST_PROTOCOL_SHADOWS_REMOVED then throw .clearFutureWithOldSnap
      else do
        let mergeStartLedger := mask ledger (levelHalf (i - 1))
        let level ← level.prepare i mergeStartLedger prev.snap.version prev.snap []
        return level :: (← restartMerges maxProtocolVersion ledger (i + 1) (some level) rest)
    | _, _ => do return level :: (← restartMerges maxProtocolVersion ledger (i + 1) (some level) rest)

/-- What a history archive state holds of a level. -/
structure HistoryStateBucket (K E : Type) [LinearOrder K] where
  curr : Bucket K E
  next : FutureBucket K E
  snap : Bucket K E

def assumeState (maxProtocolVersion currentLedger : Nat) (currentBuckets : List (HistoryStateBucket K E)) :
    Except MergeError (Levels K E) :=
  restartMerges maxProtocolVersion currentLedger 0 none
    (currentBuckets.map fun has => { curr := has.curr, snap := has.snap, next := has.next })

end Diamnet.Buckets
