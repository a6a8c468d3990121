import Diamnet.Herder.TxSetFrame
import Diamnet.Util.Order

/-! The queue of pending transactions (`TransactionQueue.cpp`).

The queue keeps for each account the transactions of which it is the source, and the sum of the
bids of those of which it is the fee source. A state is made for an account when it is needed
and erased when it is empty. Signed 64-bit arithmetic that overflows wraps around. The counters
of operations are exact. Times of insertion are left out. -/
namespace Diamnet.Herder
open Ledger Transactions

structure AccountState where
  totalFees : Int := 0
  queueSizeOps : Int := 0
  age : Nat := 0
  transactions : List TransactionFrameBase := []

structure TransactionQueue where
  accountStates : Table AccountID AccountState := ∅
  /-- The hashes banned since the last shift, and since those before it. -/
  bannedTransactions : List (List Hash)
  ledgerVersion : Nat
  queueSizeOps : Int := 0
  /-- A counter for each age below the depth. -/
  sizeByAge : Nat → Int := fun _ => 0

/-- How deep the queue is, how long bans last, and how many ledgers' operations there is room for. -/
structure QueueConfig where
  pendingDepth : Nat
  banDepth : Nat
  poolLedgerMultiplier : Nat
  pendingDepth_pos : 0 < pendingDepth
  banDepth_pos : 0 < banDepth

inductive AddResult where
  | pending
  | duplicate
  | error (code : TransactionResultCode) (feeCharged : Option Int := none)
  | tryAgainLater
deriving DecidableEq

/-- Addition as signed 64-bit machine arithmetic does it. -/
def wrap64 (x : Int) : Int := Int.bmod x (2 ^ 64)

def FEE_MULTIPLIER : Int := 10

/-- `none` if the transaction can be replaced, else the fee that would do. -/
def canReplaceByFee (tx oldTx : TransactionFrameBase) : Except Fault (Option Int) :=
  let newFee := tx.getFeeBid
  let newNumOps : Int := max 1 tx.getNumOperations
  let oldFee := oldTx.getFeeBid
  let oldNumOps : Int := max 1 oldTx.getNumOperations
  -- `bigMultiply` asserts that its arguments are not negative
  if newFee < 0 ∨ oldFee < 0 then throw .assertion
  else
    let minFeeN := oldFee * newNumOps * FEE_MULTIPLIER
    if newFee * oldNumOps ≥ minFeeN then pure none
    else pure (some (min ((minFeeN + oldNumOps - 1) / oldNumOps) INT64_MAX))

/-- The position of a sequence number, which may be right after the last. -/
def findBySeq (seq : Int) (transactions : List TransactionFrameBase) : Except Fault (Option Nat) :=
  match transactions.head?, transactions.getLast? with
  | some first, some last =>
    if seq < first.getSeqNum ∨ seq > wrap64 (last.getSeqNum + 1) then pure none
    else if seq - first.getSeqNum > transactions.length then throw .assertion
    else
      let iter := (seq - first.getSeqNum).toNat
      if (transactions[iter]?).all (·.getSeqNum = seq) then pure (some iter) else throw .assertion
  | _, _ => throw .assertion

def isFeeBump : TransactionFrameBase → Bool
  | .tx _ => false
  | .feeBump _ => true

/-- Whether the envelopes are of one type and have one hash, or the new one is wrapped in the old. -/
def isDuplicateTx (network : Network) : (oldTx newTx : TransactionFrameBase) → Bool
  | .tx old, .tx new => old.envelopeType = new.envelopeType && network.fullHash old = network.fullHash new
  | .feeBump old, .feeBump new => network.feeBumpFullHash old = network.feeBumpFullHash new
  | .feeBump old, .tx new => network.fullHash old.innerTx = network.fullHash new
  | .tx _, .feeBump _ => false

/-- The position of a transaction, if it is there; else the one given. -/
def findTx (network : Network) (tx : TransactionFrameBase) (transactions : List TransactionFrameBase) (txIter : Nat) :
    Except Fault Nat := do
  match ← findBySeq tx.getSeqNum transactions with
  | none => pure txIter
  | some iter =>
    if (transactions[iter]?).any (fun found => found.getFullHash network = tx.getFullHash network) then pure iter
    else pure txIter

namespace TransactionQueue

def new (config : QueueConfig) (ledgerVersion : Nat) : TransactionQueue where
  bannedTransactions := List.replicate config.banDepth []
  ledgerVersion := ledgerVersion

def isBanned (q : TransactionQueue) (hash : Hash) : Bool := q.bannedTransactions.any (·.contains hash)

def banHash (q : TransactionQueue) (hash : Hash) : TransactionQueue :=
  { q with bannedTransactions := q.bannedTransactions.modifyHead (hash :: ·) }

/-- The state of an account, made if there is none, is changed. -/
def modifyState (q : TransactionQueue) (id : AccountID) (f : AccountState → AccountState) : TransactionQueue :=
  { q with accountStates := q.accountStates.insert id (f ((q.accountStates.lookup id).getD {})) }

def incSize (config : QueueConfig) (age : Nat) (n : Int) (q : TransactionQueue) : Except Fault TransactionQueue :=
  if age < config.pendingDepth then
    pure { q with sizeByAge := Function.update q.sizeByAge age (q.sizeByAge age + n) }
  else throw .assertion

def releaseFeeMaybeEraseAccountState (q : TransactionQueue) (tx : TransactionFrameBase) : Except Fault TransactionQueue :=
  match q.accountStates.lookup tx.getFeeSourceID with
  | none => throw .assertion
  | some state =>
    if state.totalFees < tx.getFeeBid then throw .assertion
    else
      let state := { state with totalFees := state.totalFees - tx.getFeeBid }
      pure { q with
        accountStates :=
          if state.transactions.isEmpty && state.totalFees = 0 then q.accountStates.erase tx.getFeeSourceID
          else q.accountStates.insert tx.getFeeSourceID state }

/-- Take the operations of a transaction out of both counters. -/
def discountOps (q : TransactionQueue) (id : AccountID) (tx : TransactionFrameBase) : TransactionQueue :=
  let q := q.modifyState id fun state => { state with queueSizeOps := state.queueSizeOps - tx.getNumOperations }
  { q with queueSizeOps := q.queueSizeOps - tx.getNumOperations }

/-- Erase a range of transactions, and the state if nothing is left. -/
def eraseTransactions (q : TransactionQueue) (id : AccountID) (first last : Nat) : Except Fault TransactionQueue :=
  match q.accountStates.lookup id with
  | none => throw .assertion
  | some state =>
    let transactions := state.transactions.take first ++ state.transactions.drop last
    if transactions.isEmpty then
      if state.totalFees = 0 then pure { q with accountStates := q.accountStates.erase id }
      else pure { q with accountStates := q.accountStates.insert id { state with transactions := [], age := 0 } }
    else pure { q with accountStates := q.accountStates.insert id { state with transactions } }

/-- Drop a range of the transactions of an account that has some. -/
def dropTransactions (q : TransactionQueue) (id : AccountID) (first last : Nat) : Except Fault TransactionQueue :=
  match q.accountStates.lookup id with
  | none => throw .assertion
  | some state => do
    let q ← ((state.transactions.take last).drop first).foldlM
      (fun q tx => (q.discountOps id tx).releaseFeeMaybeEraseAccountState tx) q
    q.eraseTransactions id first last

variable (network : Network) (config : QueueConfig)

/-! ### Applied and banned transactions -/

/-- The highest sequence number applied for an account. -/
def highestSeq (appliedTxs : List TransactionFrameBase) (id : AccountID) : Int :=
  ((appliedTxs.filter (·.getSourceID = id)).map (·.getSeqNum)).foldl max 0

def removeAppliedOf (q : TransactionQueue) (id : AccountID) (seq : Int) : Except Fault TransactionQueue :=
  match q.accountStates.lookup id with
  | none => pure q
  | some state =>
    if state.transactions.head?.any (·.getSeqNum ≤ seq) then do
      let found ← findBySeq seq state.transactions
      let size := state.transactions.length
      let txIter := min (found.elim size (· + 1)) size
      let q ← q.incSize config state.age (-size)
      let q := q.modifyState id fun state => { state with age := 0 }
      let q ← q.incSize config 0 (size - txIter)
      q.dropTransactions id 0 txIter
    else pure q

def removeApplied (q : TransactionQueue) (appliedTxs : List TransactionFrameBase) : Except Fault TransactionQueue :=
  (ascending (appliedTxs.map (·.getSourceID))).foldlM
    (fun q id => q.removeAppliedOf config id (highestSeq appliedTxs id)) q

def firstBanned (transactions banTxs : List TransactionFrameBase) : Except Fault Nat :=
  banTxs.foldlM (fun txIter tx =>
    if (transactions[txIter]?).all (tx.getSeqNum < ·.getSeqNum) then findTx network tx transactions txIter
    else pure txIter) transactions.length

/-- Ban the transactions of an account from the first banned one on. -/
def banOf (q : TransactionQueue) (id : AccountID) (banTxs : List TransactionFrameBase) : Except Fault TransactionQueue :=
  match q.accountStates.lookup id with
  | none => pure q
  | some state =>
    if state.transactions.isEmpty then pure q
    else do
      let txIter ← firstBanned network state.transactions banTxs
      let size := state.transactions.length
      let q := (state.transactions.drop txIter).foldl (fun q tx => q.banHash (tx.getFullHash network)) q
      let q ← q.incSize config state.age (-(size - txIter))
      q.dropTransactions id txIter size

def ban (q : TransactionQueue) (banTxs : List TransactionFrameBase) : Except Fault TransactionQueue :=
  let q := banTxs.foldl (fun q tx => q.banHash (tx.getFullHash network)) q
  (ascending (banTxs.map (·.getSourceID))).foldlM
    (fun q id => q.banOf network config id (banTxs.filter (·.getSourceID = id))) q

/-! ### Adding -/

def maxQueueSizeOps (lh : LedgerHeader) : Int := getLastMaxTxSetSizeOps lh * config.poolLedgerMultiplier

/-- What refuses a transaction, or stops the node. -/
inductive Refusal where
  | result (res : AddResult)
  | fault (fault : Fault)
deriving DecidableEq

/-- How a transaction would go into the queue. -/
structure Admission where
  /-- The position of the transaction that it replaces. -/
  oldTx : Option Nat := none
  netFee : Int
  netOps : Int
  seqNum : Int := 0

def orFault {α : Type} : Except Fault α → Except Refusal α
  | .ok a => .ok a
  | .error f => .error (.fault f)

/-- A transaction that is no fee bump goes after the last. -/
def assessTx (transactions : List TransactionFrameBase) (tx : TransactionFrameBase) (admission : Admission) :
    Except Refusal Admission := do
  let iter ← orFault (findBySeq tx.getSeqNum transactions)
  if (iter.bind (transactions[·]?)).any (isDuplicateTx network · tx) then throw (.result .duplicate)
  else pure { admission with seqNum := (transactions.getLast?.map (·.getSeqNum)).getD 0 }

/-- A fee bump goes after the last or replaces another. -/
def assessFeeBump (transactions : List TransactionFrameBase) (tx : TransactionFrameBase) (admission : Admission) :
    Except Refusal Admission := do
  match ← orFault (findBySeq tx.getSeqNum transactions) with
  | none => throw (.result (.error .txBadSeq))
  | some iter =>
    match transactions[iter]? with
    | none => pure { admission with seqNum := wrap64 (tx.getSeqNum - 1) }
    | some oldTx =>
      if isDuplicateTx network oldTx tx then throw (.result .duplicate)
      else
        match ← orFault (canReplaceByFee tx oldTx) with
        | some minFee => throw (.result (.error .txInsufficientFee minFee))
        | none =>
          pure {
            oldTx := some iter
            netFee :=
              if oldTx.getFeeSourceID = tx.getFeeSourceID then admission.netFee - oldTx.getFeeBid else admission.netFee
            netOps := admission.netOps - oldTx.getNumOperations
            seqNum := wrap64 (tx.getSeqNum - 1) }

def assess (q : TransactionQueue) (tx : TransactionFrameBase) : Except Refusal Admission :=
  let admission : Admission := { netFee := tx.getFeeBid, netOps := tx.getNumOperations }
  if q.isBanned (tx.getFullHash network) then throw (.result .tryAgainLater)
  else
    match q.accountStates.lookup tx.getSourceID with
    | none => pure admission
    | some state =>
      if state.transactions.isEmpty then pure admission
      else if isFeeBump tx then assessFeeBump network state.transactions tx admission
      else assessTx network state.transactions tx admission

/-- The part of `canAdd` that looks at the ledger. -/
def affordable (q : TransactionQueue) (ltx : LedgerTxn) (upperBoundCloseTimeOffset : UInt64) (tx : TransactionFrameBase)
    (admission : Admission) : Except Refusal Unit :=
  match tx.checkValid network ltx admission.seqNum 0 upperBoundCloseTimeOffset with
  | .error (.fault f) => throw (.fault f)
  | .error (.result code) => throw (.result (.error code))
  | .ok () =>
    match ltx.accounts.lookup tx.getFeeSourceID with
    | none => throw (.fault (.runtimeError "LedgerTxnEntry not active"))
    | some feeSource => do
      let totalFees := ((q.accountStates.lookup tx.getFeeSourceID).map (·.totalFees)).getD 0
      let available ← orFault (AccountEntry.getAvailableBalance ltx.header feeSource)
      if wrap64 (available - admission.netFee) < totalFees then throw (.result (.error .txInsufficientBalance)) else pure ()

/-- The new transaction in place of an old one, or after the last. -/
def place (q : TransactionQueue) (tx : TransactionFrameBase) (oldTx : Option Nat) : Except Fault TransactionQueue :=
  let id := tx.getSourceID
  let state := (q.accountStates.lookup id).getD {}
  match oldTx.bind fun iter => (state.transactions[iter]?).map fun old => (iter, old) with
  | some (iter, old) => do
    let q ← q.releaseFeeMaybeEraseAccountState old
    let q := q.discountOps id old
    return q.modifyState id fun state => { state with transactions := state.transactions.set iter tx }
  | none =>
    incSize config state.age 1
      (q.modifyState id fun state => { state with transactions := state.transactions ++ [tx] })

def add (q : TransactionQueue) (tx : TransactionFrameBase) (oldTx : Option Nat) : Except Fault TransactionQueue := do
  let q ← q.place config tx oldTx
  let q := q.modifyState tx.getSourceID fun state =>
    { state with queueSizeOps := state.queueSizeOps + tx.getNumOperations }
  let q := { q with queueSizeOps := q.queueSizeOps + tx.getNumOperations }
  return q.modifyState tx.getFeeSourceID fun state => { state with totalFees := state.totalFees + tx.getFeeBid }

def tryAdd (q : TransactionQueue) (ltx : LedgerTxn) (upperBoundCloseTimeOffset : UInt64) (tx : TransactionFrameBase) :
    Except Fault (AddResult × TransactionQueue) :=
  match q.assess network tx with
  | .error (.fault f) => throw f
  | .error (.result res) => pure (res, q)
  | .ok admission =>
    if admission.netOps + q.queueSizeOps > maxQueueSizeOps config ltx.header then do
      let q ← q.ban network config [tx]
      return (.tryAgainLater, q)
    else
      match q.affordable network ltx upperBoundCloseTimeOffset tx admission with
      | .error (.fault f) => throw f
      | .error (.result res) => pure (res, q)
      | .ok () => do
        let q ← q.add config tx admission.oldTx
        return (.pending, q)

/-! ### Ages and versions -/

/-- One account grows older, and its transactions are banned if it is too old. -/
def shiftAccount (s : TransactionQueue × (Nat → Int)) (id : AccountID) :
    Except Fault (TransactionQueue × (Nat → Int)) :=
  match s.1.accountStates.lookup id with
  | none => pure s
  | some state =>
    let age := if state.transactions.isEmpty then state.age else state.age + 1
    if config.pendingDepth = age then do
      let q := s.1.modifyState id fun state => { state with age }
      let q ← state.transactions.foldlM
        (fun q toBan => do
          let q ← q.releaseFeeMaybeEraseAccountState toBan
          return q.banHash (toBan.getFullHash network)) q
      match q.accountStates.lookup id with
      | none => throw .assertion
      | some state =>
        let q := { q with queueSizeOps := q.queueSizeOps - state.queueSizeOps }
        if state.totalFees = 0 then return ({ q with accountStates := q.accountStates.erase id }, s.2)
        else
          -- the loop comes back to this account, which has nothing to count now
          return (q.modifyState id fun state => { state with queueSizeOps := 0, transactions := [], age := 0 }, s.2)
    else if age < config.pendingDepth then
      pure (s.1.modifyState id fun state => { state with age },
        Function.update s.2 age (s.2 age + state.transactions.length))
    else throw .assertion

/-- `arrange` gives the order in which the hash map is gone through. -/
def shift (q : TransactionQueue) (arrange : List AccountID → List AccountID) : Except Fault TransactionQueue := do
  let q := { q with bannedTransactions := [] :: q.bannedTransactions.dropLast }
  let (q, sizes) ← (arrange q.accountStates.keys).foldlM (shiftAccount network config) (q, fun _ => 0)
  return { q with sizeByAge := sizes }

def convertForV13 : TransactionFrameBase → TransactionFrameBase
  | .tx frame => .tx { frame with envelopeType := .tx }
  | .feeBump frame => .feeBump frame

/-- Version 13 has new envelopes. The transactions replaced are returned. -/
def maybeVersionUpgraded (q : TransactionQueue) (ledgerVersion : Nat) :
    TransactionQueue × List (TransactionFrameBase × TransactionFrameBase) :=
  if q.ledgerVersion < 13 ∧ ledgerVersion ≥ 13 then
    ({ q with
        bannedTransactions := q.bannedTransactions.map fun _ => []
        accountStates := q.accountStates.map fun state =>
          { state with transactions := state.transactions.map convertForV13 }
        ledgerVersion },
      q.accountStates.entries.flatMap fun e => e.2.transactions.map fun tx => (tx, convertForV13 tx))
  else ({ q with ledgerVersion }, [])

end TransactionQueue
end Diamnet.Herder
