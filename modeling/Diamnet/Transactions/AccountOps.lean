import Diamnet.Transactions.PathPayment

/-! Operations on accounts (`CreateAccountOpFrame.cpp`, `MergeOpFrame.cpp`,
`SetOptionsOpFrame.cpp`, `ManageDataOpFrame.cpp`, `BumpSequenceOpFrame.cpp`,
`InflationOpFrame.cpp`). -/
namespace Diamnet.Transactions
open Ledger

/-! ### CREATE_ACCOUNT -/

structure CreateAccountOp where
  destination : AccountID
  startingBalance : Int
deriving DecidableEq

namespace CreateAccountOp

def doCheckValid (op : CreateAccountOp) (source : AccountID) (ledgerVersion : Nat) : Except ResultCode Unit :=
  if op.startingBalance < (if ledgerVersion ≥ 14 then 0 else 1) then throw .malformed
  else if op.destination = source then throw .malformed
  else pure ()

def newAccount (op : CreateAccountOp) (lh : LedgerHeader) : AccountEntry :=
  { balance := op.startingBalance, seqNum := getStartingSequenceNumber lh }

def payStartingBalance (op : CreateAccountOp) (source : AccountID) : LedgerM Unit := do
  let available ← availableAccountBalance source
  expect (op.startingBalance ≤ available) .underfunded
  let ok ← addAccountBalance source (-op.startingBalance)
  assert (ok = true)

def doApplyBeforeV14 (op : CreateAccountOp) (source : AccountID) : LedgerM Unit := do
  let lh ← getHeader
  let minBalance ← checked (getMinBalanceOf lh 0 0 0)
  expect (minBalance ≤ op.startingBalance) .lowReserve
  op.payStartingBalance source
  createAccount op.destination (op.newAccount lh)

/-- The account is created before its sponsor is charged for it, since accounts are changed by their key. -/
def doApplyFromV14 (op : CreateAccountOp) (source : AccountID) : LedgerM Unit := do
  let lh ← getHeader
  createAccount op.destination (op.newAccount lh)
  let (res, sponsoringID) ← createEntryWithPossibleSponsorship (.account (op.newAccount lh)) op.destination
  demandSponsorship res .lowReserve "Unexpected result from createEntryWithPossibleSponsorship"
  changeAccount op.destination fun acc => pure { acc with sponsoringID := sponsoringID }
  op.payStartingBalance source

def doApply (op : CreateAccountOp) (source : AccountID) : LedgerM Unit := do
  let existing ← findAccount op.destination
  expect (existing = none) .alreadyExist
  let lh ← getHeader
  if lh.ledgerVersion < 14 then op.doApplyBeforeV14 source else op.doApplyFromV14 source

end CreateAccountOp

/-! ### ACCOUNT_MERGE -/

structure MergeOp where
  destination : AccountID
deriving DecidableEq

namespace MergeOp

def doCheckValid (op : MergeOp) (source : AccountID) : Except ResultCode Unit :=
  if source = op.destination then throw .malformed else pure ()

/-- Recreating the account would make its sequence number jump backwards. -/
def isSeqnumTooFar (lh : LedgerHeader) (acc : AccountEntry) : Bool :=
  acc.seqNum ≥ getStartingSequenceNumber lh

/-- Remove the last signer until there are none; the source and the destination are held. -/
def removeSigners (source destination : AccountID) : Nat → LedgerM Unit
  | 0 => pure ()
  | n + 1 => do
    removeSignerWithPossibleSponsorship n source [destination]
    removeSigners source destination n

/-- From version 14, an account that sponsors others stays, and its signers go one by one. -/
def releaseSponsorships (op : MergeOp) (source : AccountID) : LedgerM Unit := do
  let counter ← findSponsorshipCounter source
  expect (counter = none) .isSponsor
  let acc ← loadAccount source
  expect (getNumSponsoring acc = 0) .isSponsor
  removeSigners source op.destination acc.signers.length

def doApply (op : MergeOp) (source : AccountID) : LedgerM Int := do
  let lh ← getHeader
  let otherAccount ← findAccount op.destination
  expect (otherAccount.isSome = true) .noAccount
  let acc ← loadInactiveAccount source [op.destination]
  expect (¬AccountEntry.isImmutableAuth acc) .immutableSet
  expect (acc.numSubEntries.toNat = acc.signers.length) .hasSubEntries
  expect (lh.ledgerVersion ≥ 10 → ¬isSeqnumTooFar lh acc) .seqnumTooFar
  if lh.ledgerVersion ≥ 14 then op.releaseSponsorships source else pure ()
  let ok ← addAccountBalance op.destination acc.balance
  expect (ok = true) .destFull
  let acc' ← loadAccount source
  removeEntryWithPossibleSponsorship (.account acc') source [op.destination]
  eraseAccount source
  pure acc.balance

end MergeOp

/-! ### SET_OPTIONS -/

structure SetOptionsOp where
  inflationDest : Option AccountID := none
  clearFlags : Option UInt32 := none
  setFlags : Option UInt32 := none
  masterWeight : Option Nat := none
  lowThreshold : Option Nat := none
  medThreshold : Option Nat := none
  highThreshold : Option Nat := none
  homeDomain : Option (List UInt8) := none
  signer : Option Signer := none
deriving DecidableEq

/-- `isString32Valid`: ASCII without control characters. -/
def isString32Valid (str : List UInt8) : Bool := str.all fun c => 32 ≤ c && c < 127

def allAccountFlags : UInt32 := AUTH_REQUIRED_FLAG ||| AUTH_REVOCABLE_FLAG ||| AUTH_IMMUTABLE_FLAG

/-- The index of the first signer not before the key, and whether it is the key's. -/
def findSignerByKey (signers : List Signer) (key : SignerKey) : Nat × Bool :=
  let n := signers.findIdx fun x => !SignerKey.lt x.key key
  (n, signers[n]?.any fun x => x.key = key)

namespace SetOptionsOp

def unknownFlags (flags : Option UInt32) : Bool := flags.any fun f => f &&& ~~~allAccountFlags ≠ 0

def outOfRange (weight : Option Nat) : Bool := weight.any fun w => w > 255

def badSigner (source : AccountID) (ledgerVersion : Nat) (signer : Signer) : Bool :=
  signer.key = .ed25519 source || (signer.weight > 255 && ledgerVersion > 9)

def doCheckValid (op : SetOptionsOp) (source : AccountID) (ledgerVersion : Nat) : Except ResultCode Unit :=
  if unknownFlags op.setFlags || unknownFlags op.clearFlags then throw .unknownFlag
  else if op.setFlags.any fun s => op.clearFlags.any fun c => s &&& c ≠ 0 then throw .badFlags
  else if outOfRange op.masterWeight || outOfRange op.lowThreshold || outOfRange op.medThreshold ||
      outOfRange op.highThreshold then throw .thresholdOutOfRange
  else if op.signer.any (badSigner source ledgerVersion) then throw .badSigner
  else if op.homeDomain.any fun d => !isString32Valid d then throw .invalidHomeDomain
  else pure ()

/-- The authorization flags of an immutable account stay. -/
def cantChange (flags : Option UInt32) (acc : AccountEntry) : Bool :=
  flags.any (fun f => f &&& allAccountFlags ≠ 0) && AccountEntry.isImmutableAuth acc

def setThresholds (op : SetOptionsOp) (t : Thresholds) : Thresholds :=
  { masterWeight := (op.masterWeight.map (· % 256)).getD t.masterWeight
    low := (op.lowThreshold.map (· % 256)).getD t.low
    med := (op.medThreshold.map (· % 256)).getD t.med
    high := (op.highThreshold.map (· % 256)).getD t.high }

/-- The account with a signer inserted at `n`, which nobody sponsors. -/
def insertSigner (n : Nat) (signer : Signer) (acc : AccountEntry) : AccountEntry :=
  { acc with
    signers := acc.signers.insertIdx n signer
    extV2 := acc.extV2.map fun extV2 =>
      { extV2 with signerSponsoringIDs := extV2.signerSponsoringIDs.insertIdx n none } }

def addOrChangeSigner (source : AccountID) (signer : Signer) : LedgerM Unit := do
  let acc ← loadAccount source
  let (n, found) := findSignerByKey acc.signers signer.key
  if found then
    storeAccount source { acc with signers := acc.signers.modify n fun x => { x with weight := signer.weight } }
  else do
    expect (acc.signers.length ≠ MAX_SIGNERS) .tooManySigners
    storeAccount source (insertSigner n signer acc)
    let res ← createSignerWithPossibleSponsorship n source
    demandSponsorship res .lowReserve "Unexpected result from createSignerWithPossibleSponsorship"

def deleteSigner (source : AccountID) (key : SignerKey) : LedgerM Unit := do
  let acc ← loadAccount source
  let (n, found) := findSignerByKey acc.signers key
  if found then removeSignerWithPossibleSponsorship n source [] else pure ()

def updateSigner (source : AccountID) (signer : Option Signer) : LedgerM Unit :=
  match signer with
  | none => pure ()
  | some signer => if signer.weight ≠ 0 then addOrChangeSigner source signer else deleteSigner source signer.key

def doApply (op : SetOptionsOp) (source : AccountID) : LedgerM Unit := do
  let acc ← loadAccount source
  let ltx ← get
  expect (∀ dest ∈ op.inflationDest, dest = source ∨ (ltx.accounts.lookup dest).isSome = true) .invalidInflation
  expect (¬cantChange op.clearFlags acc) .cantChange
  let cleared := { acc with
    inflationDest := op.inflationDest <|> acc.inflationDest
    flags := acc.flags &&& ~~~op.clearFlags.getD 0 }
  expect (¬cantChange op.setFlags cleared) .cantChange
  storeAccount source { cleared with
    flags := cleared.flags ||| op.setFlags.getD 0
    homeDomain := op.homeDomain.getD acc.homeDomain
    thresholds := op.setThresholds acc.thresholds }
  updateSigner source op.signer

end SetOptionsOp

/-! ### MANAGE_DATA -/

structure ManageDataOp where
  dataName : List UInt8
  dataValue : Option (List UInt8)
deriving DecidableEq

namespace ManageDataOp

def doCheckValid (op : ManageDataOp) : Except ResultCode Unit :=
  if op.dataName.length < 1 ∨ isString32Valid op.dataName = false then throw .invalidName else pure ()

def createData (op : ManageDataOp) (source : AccountID) (dataValue : List UInt8) : LedgerM Unit := do
  let (res, sponsoringID) ← createEntryWithPossibleSponsorship (.data { dataValue }) source
  demandSponsorship res .lowReserve "Unexpected result from createEntryWithPossibleSponsorship"
  storeData source op.dataName { dataValue, sponsoringID }

def doApply (op : ManageDataOp) (source : AccountID) : LedgerM Unit := do
  match op.dataValue, ← findData source op.dataName with
  | some dataValue, none => op.createData source dataValue
  | some dataValue, some entry => storeData source op.dataName { entry with dataValue := dataValue }
  | none, none => fail .nameNotFound
  | none, some entry => do
    removeEntryWithPossibleSponsorship (.data entry) source []
    eraseData source op.dataName

end ManageDataOp

/-! ### BUMP_SEQUENCE -/

structure BumpSequenceOp where
  bumpTo : Int
deriving DecidableEq

namespace BumpSequenceOp

def isVersionSupported (ledgerVersion : Nat) : Bool := ledgerVersion ≥ 10

def doCheckValid (op : BumpSequenceOp) : Except ResultCode Unit :=
  if op.bumpTo < 0 then throw .badSeq else pure ()

def doApply (op : BumpSequenceOp) (source : AccountID) : LedgerM Unit :=
  changeAccount source fun acc => pure { acc with seqNum := max acc.seqNum op.bumpTo }

end BumpSequenceOp

/-! ### INFLATION -/

def INFLATION_FREQUENCY : Nat := 60 * 60 * 24 * 7

def INFLATION_RATE_TRILLIONTHS : Int := 190721000

def TRILLION : Int := 1000000000000

def INFLATION_WIN_MIN_PERCENT : Int := 500000000

def INFLATION_NUM_WINNERS : Nat := 2000

def INFLATION_START_TIME : Nat := 1404172800

def MIN_VOTES_TO_INCLUDE : Int := 1000000000

structure InflationWinner where
  accountID : AccountID
  votes : Int
deriving DecidableEq

namespace InflationOp

def isVersionSupported (ledgerVersion : Nat) : Bool := ledgerVersion < 12

def votes (accounts : Table AccountID AccountEntry) (id : AccountID) : Int :=
  accounts.total fun _ acc =>
    if acc.inflationDest = some id ∧ acc.balance ≥ MIN_VOTES_TO_INCLUDE then acc.balance else 0

/-- `queryInflationWinners`: the accounts with the most votes. -/
def queryInflationWinners (accounts : Table AccountID AccountEntry) (maxWinners : Nat) (minVotes : Int) :
    List InflationWinner :=
  let candidates := (accounts.entries.filterMap fun e => e.2.inflationDest).dedup
  let tally := candidates.map fun id => InflationWinner.mk id (votes accounts id)
  let eligible := tally.filter fun w => w.votes > 0 ∧ w.votes ≥ minVotes
  (eligible.mergeSort fun a b => b.votes < a.votes || (a.votes = b.votes && b.accountID ≤ a.accountID)).take maxWinners

/-- What a winner is given: from version 10, no more than it can hold. -/
def doleFor (lh : LedgerHeader) (winner : Option AccountEntry) (share : Int) : Except Fault Int :=
  match winner with
  | some acc => if lh.ledgerVersion ≥ 10 then do
      let most ← AccountEntry.getMaxAmountReceive lh acc
      pure (min most share)
    else pure share
  | none => pure share

def payWinner (amountToDole totalVotes : Int) (w : InflationWinner) : LedgerM Int := do
  let lh ← getHeader
  let winner ← findAccount w.accountID
  let share ← checked (bigDivide amountToDole w.votes totalVotes .roundDown)
  let toDole ← if share = 0 then pure 0 else checked (doleFor lh winner share)
  if toDole = 0 ∨ winner = none then pure 0
  else do
    let ok ← addAccountBalance w.accountID toDole
    check (ok = true) "inflation overflowed destination balance"
    pure toDole

def payWinners (amountToDole totalVotes : Int) : List InflationWinner → Int → LedgerM Int
  | [], left => pure left
  | w :: rest, left => do
    let paid ← payWinner amountToDole totalVotes w
    let left' ← checked (int64 (left - paid))
    payWinners amountToDole totalVotes rest left'

def modifyHeader (f : LedgerHeader → LedgerHeader) : LedgerM Unit :=
  modify fun ltx => { ltx with header := f ltx.header }

def doApply : LedgerM Unit := do
  let lh ← getHeader
  expect (INFLATION_START_TIME + lh.inflationSeq * INFLATION_FREQUENCY ≤ lh.closeTime) .notTime
  let totalVotes := lh.totalCoins
  let minBalance ← checked (bigDivide totalVotes INFLATION_WIN_MIN_PERCENT TRILLION .roundDown)
  let ltx ← get
  let winners := queryInflationWinners ltx.accounts INFLATION_NUM_WINNERS minBalance
  let inflationAmount ← checked (bigDivide lh.totalCoins INFLATION_RATE_TRILLIONTHS TRILLION .roundDown)
  let amountToDole ← checked (int64 (inflationAmount + lh.feePool))
  modifyHeader fun h => { h with feePool := 0, inflationSeq := (h.inflationSeq + 1) % 2 ^ 32 }
  let leftAfterDole ← payWinners amountToDole totalVotes winners amountToDole
  let totalCoins ← checked (int64 (lh.totalCoins + inflationAmount))
  modifyHeader fun h => { h with feePool := h.feePool + leftAfterDole, totalCoins := totalCoins }

end InflationOp

end Diamnet.Transactions
