import Diamnet.Transactions.TransactionFrame

/-! Transaction sets (`TxSetFrame.cpp`).

A set is checked, or rid of what is invalid, account by account and then fee source by fee
source. The order in which a hash map is gone through, and that of transactions of one account
with the same sequence number, are not determined by the source: `arrange` stands for any. The
result of a check is remembered together with the last closed ledger it was made for. -/
namespace Diamnet.Herder
open Ledger Transactions

/-- A transaction in memory. Sets find their transactions by address. -/
structure TransactionPtr where
  address : Nat
  tx : TransactionFrameBase

namespace TransactionPtr

def getSourceID (ptr : TransactionPtr) : AccountID := ptr.tx.getSourceID

def getFeeSourceID (ptr : TransactionPtr) : AccountID := ptr.tx.getFeeSourceID

def getSeqNum (ptr : TransactionPtr) : Int := ptr.tx.getSeqNum

def getNumOperations (ptr : TransactionPtr) : Nat := ptr.tx.getNumOperations

def getFeeBid (ptr : TransactionPtr) : Int := ptr.tx.getFeeBid

end TransactionPtr

/-- The last closed ledger, as the hash of its header and the state. -/
structure LastClosedLedger where
  hash : Hash
  ltx : LedgerTxn

/-- What a node computes with. -/
structure Environment where
  network : Network
  /-- The order that the implementation happens to work in. -/
  arrange : List TransactionPtr → List TransactionPtr
  arrange_perm : ∀ txs, (arrange txs).Perm txs

structure TxSetFrame where
  previousLedgerHash : Hash
  transactions : List TransactionPtr
  /-- The last closed ledger of the last check, and its result. -/
  valid : Option (Hash × Bool) := none

/-- The two bounds on when the next ledger may close, from the last close time on. -/
structure CloseTimeOffsets where
  lower : UInt64
  upper : UInt64
deriving DecidableEq

variable (env : Environment)

/-! ### Queues -/

def getFullHash (ptr : TransactionPtr) : Hash := ptr.tx.getFullHash env.network

/-- The transactions of an account, by sequence number. -/
def accountTxQueue (txs : List TransactionPtr) (id : AccountID) : List TransactionPtr :=
  ((env.arrange txs).filter fun ptr => ptr.getSourceID = id).insertionSort fun a b => a.getSeqNum ≤ b.getSeqNum

def accountIDs (txs : List TransactionPtr) : List AccountID := ((env.arrange txs).map (·.getSourceID)).dedup

def buildAccountTxQueues (txs : List TransactionPtr) : List (List TransactionPtr) :=
  (accountIDs env txs).map (accountTxQueue env txs)

namespace TxSetFrame

def sortForHash (set : TxSetFrame) : TxSetFrame :=
  { set with
    transactions := set.transactions.insertionSort fun a b => getFullHash env a ≤ getFullHash env b
    valid := none }

def sizeTx (set : TxSetFrame) : Nat := set.transactions.length

def sizeOp (set : TxSetFrame) : Nat := (set.transactions.map (·.getNumOperations)).sum

def size (set : TxSetFrame) (lh : LedgerHeader) : Nat := if lh.ledgerVersion ≥ 11 then set.sizeOp else set.sizeTx

def removeTx (set : TxSetFrame) (ptr : TransactionPtr) : TxSetFrame :=
  { set with transactions := set.transactions.eraseP (·.address = ptr.address), valid := none }

end TxSetFrame

/-! ### Checking and trimming -/

/-- What ends a check early. -/
inductive CheckStop where
  | invalid
  | fault (fault : Fault)
deriving DecidableEq

/-- The bids of each fee source with that of a transaction added. The sum saturates. -/
def addFee (accountFeeMap : AccountID → Int) (ptr : TransactionPtr) : AccountID → Int :=
  Function.update accountFeeMap ptr.getFeeSourceID
    (if INT64_MAX - accountFeeMap ptr.getFeeSourceID < ptr.getFeeBid then INT64_MAX
      else accountFeeMap ptr.getFeeSourceID + ptr.getFeeBid)

/-- The state of `checkOrTrim`. -/
structure Trim where
  set : TxSetFrame
  trimmed : List TransactionPtr := []
  accountFeeMap : AccountID → Int := fun _ => 0

namespace Trim

def remove (s : Trim) (ptr : TransactionPtr) : Trim :=
  { s with set := s.set.removeTx ptr, trimmed := s.trimmed ++ [ptr] }

def charge (s : Trim) (ptr : TransactionPtr) : Trim := { s with accountFeeMap := addFee s.accountFeeMap ptr }

end Trim

variable (lcl : LastClosedLedger) (offsets : CloseTimeOffsets) (justCheck : Bool)

/-- The first pass over a queue; the transactions that stay in it are returned. -/
def checkQueue (lastSeq : Int) : List TransactionPtr → Trim → Except CheckStop (List TransactionPtr × Trim)
  | [], s => pure ([], s)
  | ptr :: rest, s =>
    match ptr.tx.checkValid env.network lcl.ltx lastSeq offsets.lower offsets.upper with
    | .error (.fault f) => throw (.fault f)
    | .error (.result _) => if justCheck then throw .invalid else checkQueue lastSeq rest (s.remove ptr)
    | .ok () => do
      let (queue, s) ← checkQueue ptr.getSeqNum rest (s.charge ptr)
      return (ptr :: queue, s)

def checkQueues : List (List TransactionPtr) → Trim → Except CheckStop (List (List TransactionPtr) × Trim)
  | [], s => pure ([], s)
  | queue :: rest, s => do
    let (queue, s) ← checkQueue env lcl offsets justCheck 0 queue s
    let (rest, s) ← checkQueues rest s
    return (queue :: rest, s)

/-- `getAvailableBalance` of an account that has to be there. -/
def feeSourceBalance (id : AccountID) : Except CheckStop Int :=
  match lcl.ltx.accounts.lookup id with
  | none => throw (.fault (.runtimeError "LedgerTxnEntry not active"))
  | some acc =>
    match AccountEntry.getAvailableBalance lcl.ltx.header acc with
    | .ok available => pure available
    | .error f => throw (.fault f)

/-- The second pass over a queue: all is removed from the first fee that cannot be paid. -/
def checkFees : List TransactionPtr → Trim → Except CheckStop Trim
  | [], s => pure s
  | ptr :: rest, s => do
    let available ← feeSourceBalance lcl ptr.getFeeSourceID
    if available < s.accountFeeMap ptr.getFeeSourceID then
      if justCheck then throw .invalid else pure ((ptr :: rest).foldl Trim.remove s)
    else checkFees rest s

def checkOrTrim (set : TxSetFrame) : Except CheckStop Trim := do
  let (queues, s) ← checkQueues env lcl offsets justCheck (buildAccountTxQueues env set.transactions) { set }
  queues.foldlM (fun s queue => checkFees lcl justCheck queue s) s

namespace TxSetFrame

/-- The set without what is invalid, and what was removed. -/
def trimInvalid (set : TxSetFrame) : Except CheckStop (TxSetFrame × List TransactionPtr) := do
  let s ← checkOrTrim env lcl offsets false (set.sortForHash env)
  return (s.set, s.trimmed)

def isSorted (set : TxSetFrame) : Bool :=
  decide (set.transactions.IsChain fun a b => ¬getFullHash env b < getFullHash env a)

def verdict (set : TxSetFrame) : Except Fault Bool :=
  if lcl.hash ≠ set.previousLedgerHash then pure false
  else if set.size lcl.ltx.header > lcl.ltx.header.maxTxSetSize then pure false
  else if !set.isSorted env then pure false
  else
    match checkOrTrim env lcl offsets true set with
    | .ok _ => pure true
    | .error .invalid => pure false
    | .error (.fault f) => throw f

/-- The result that is remembered for the last closed ledger. -/
def remembered (set : TxSetFrame) : Option Bool :=
  match set.valid with
  | some (hash, valid) => if hash = lcl.hash then some valid else none
  | none => none

def checkValid (set : TxSetFrame) : Except Fault (Bool × TxSetFrame) :=
  match set.remembered lcl with
  | some valid => pure (valid, set)
  | none => do
    let valid ← set.verdict env lcl offsets
    return (valid, { set with valid := some (lcl.hash, valid) })

end TxSetFrame

/-! ### Surge pricing -/

def lessThanXored (l r x : Hash) : Bool := l ^^^ x < r ^^^ x

/-- The order of the queues by the bid for an operation of their first transaction. -/
def surgeCompare (seed : Hash) : List TransactionPtr → List TransactionPtr → Bool
  | [], queue => !queue.isEmpty
  | _, [] => false
  | top1 :: _, top2 :: _ =>
    let v1 := top1.getFeeBid * top2.getNumOperations
    let v2 := top2.getFeeBid * top1.getNumOperations
    if v1 < v2 then true
    else if v1 > v2 then false
    else lessThanXored (getFullHash env top1) (getFullHash env top2) seed

def popTop (seed : Hash) (queue : List TransactionPtr) :
    List (List TransactionPtr) → List TransactionPtr × List (List TransactionPtr)
  | [] => (queue, [])
  | next :: rest =>
    if surgeCompare env seed queue next then
      let (top, others) := popTop seed next rest
      (top, queue :: others)
    else
      let (top, others) := popTop seed queue rest
      (top, next :: others)

/-- What a transaction takes of the room in the set. -/
def opsCount (maxIsOps : Bool) (ptr : TransactionPtr) : Nat := if maxIsOps then ptr.getNumOperations else MAX_OPS_PER_TX

/-- The loop of `surgePricingFilter`; each turn takes a transaction or drops a queue. -/
def surgeLoop (seed : Hash) (maxIsOps : Bool) : Nat → Nat → List (List TransactionPtr) → List TransactionPtr
  | 0, _, _ => []
  | _ + 1, _, [] => []
  | n + 1, opsLeft, queue :: queues =>
    if opsLeft = 0 then []
    else
      match popTop env seed queue queues with
      | ([], others) => surgeLoop seed maxIsOps n opsLeft others
      | (ptr :: rest, others) =>
        if opsCount maxIsOps ptr ≤ opsLeft then
          ptr :: surgeLoop seed maxIsOps n (opsLeft - opsCount maxIsOps ptr) (if rest.isEmpty then others else rest :: others)
        else surgeLoop seed maxIsOps n opsLeft others

/-- `getLastMaxTxSetSizeOps`, in unsigned 32-bit arithmetic. -/
def getLastMaxTxSetSizeOps (lh : LedgerHeader) : Nat :=
  if lh.ledgerVersion ≥ 11 then lh.maxTxSetSize else lh.maxTxSetSize * MAX_OPS_PER_TX % 2 ^ 32

namespace TxSetFrame

def surgePricingFilter (seed : Hash) (set : TxSetFrame) : TxSetFrame :=
  let maxIsOps := decide (lcl.ltx.header.ledgerVersion ≥ 11)
  let opsLeft := getLastMaxTxSetSizeOps lcl.ltx.header
  let curSizeOps := if maxIsOps then set.sizeOp else set.sizeTx * MAX_OPS_PER_TX
  if curSizeOps > opsLeft then
    sortForHash env { set with
      transactions := surgeLoop env seed maxIsOps set.sizeTx opsLeft (buildAccountTxQueues env set.transactions) }
  else set

end TxSetFrame

/-! ### The set that a node proposes -/

/-- What ends the choice of a set. -/
inductive TriggerError where
  /-- "wanting to emit an invalid txSet" -/
  | invalidTxSet
  | fault (fault : Fault)
deriving DecidableEq

/-- What `triggerNextLedger` makes of the set of all transactions that it has, and what it bans. -/
def triggerNextLedger (seed : Hash) (proposedSet : TxSetFrame) :
    Except TriggerError (TxSetFrame × List TransactionPtr) :=
  match proposedSet.trimInvalid env lcl offsets with
  | .error (.fault f) => throw (.fault f)
  | .error .invalid => throw .invalidTxSet
  | .ok (trimmedSet, removed) =>
    match (trimmedSet.surgePricingFilter env lcl seed).checkValid env lcl offsets with
    | .error f => throw (.fault f)
    | .ok (valid, set) => if !valid then throw .invalidTxSet else pure (set, removed)

end Diamnet.Herder
