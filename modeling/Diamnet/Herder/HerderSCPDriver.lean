import Diamnet.Herder.TxSetFrame

/-! The validation of values (`HerderSCPDriver.cpp`, `Upgrades.cpp`, `PendingEnvelopes.cpp`).

A value names a transaction set by its hash. The frame of the set is shared by all values that
name it, with the result that it remembers. Logs and metrics are left out. -/
namespace Diamnet.Herder
open Ledger Transactions

/-! ### Values and upgrades -/

structure LedgerCloseValueSignature where
  nodeID : Nat
  signature : List UInt8
deriving DecidableEq

inductive DiamnetValueType where
  | basic
  | signed
deriving DecidableEq

structure DiamnetValue where
  txSetHash : Hash
  closeTime : UInt64
  upgrades : List (List UInt8)
  /-- Of values of type `signed`. -/
  lcValueSignature : Option LedgerCloseValueSignature
deriving DecidableEq

def DiamnetValue.type (b : DiamnetValue) : DiamnetValueType := if b.lcValueSignature.isSome then .signed else .basic

inductive LedgerUpgrade where
  | version (newLedgerVersion : Nat)
  | baseFee (newBaseFee : Nat)
  | maxTxSetSize (newMaxTxSetSize : Nat)
  | baseReserve (newBaseReserve : Nat)
deriving DecidableEq

def LedgerUpgrade.type : LedgerUpgrade → Nat
  | .version _ => 1
  | .baseFee _ => 2
  | .maxTxSetSize _ => 3
  | .baseReserve _ => 4

/-- `Upgrades::UpgradeParameters`. -/
structure UpgradeParameters where
  upgradeTime : Nat := 0
  protocolVersion : Option Nat := none
  baseFee : Option Nat := none
  maxTxSize : Option Nat := none
  baseReserve : Option Nat := none
deriving DecidableEq

/-- What a node consults, apart from its last closed ledger and its transaction sets. -/
structure HerderSCPDriver where
  timeNow : UInt64
  /-- The index and the close time of the consensus that is tracked. -/
  trackingSCP : Option (UInt32 × UInt64)
  /-- Over the hash of the set and the close time. -/
  verifySig : LedgerCloseValueSignature → Hash → UInt64 → Bool
  valueFromOpaque : List UInt8 → Option DiamnetValue
  upgradeFromOpaque : List UInt8 → Option LedgerUpgrade
  /-- `LEDGER_PROTOCOL_VERSION`. -/
  maxLedgerVersion : Nat
  params : UpgradeParameters := {}

namespace Upgrades

def isValidForApply (header : LedgerHeader) (maxLedgerVersion : Nat) : LedgerUpgrade → Bool
  | .version newVersion => newVersion ≤ maxLedgerVersion && newVersion > header.ledgerVersion
  | .baseFee newBaseFee => newBaseFee ≠ 0
  | .maxTxSetSize _ => true
  | .baseReserve newBaseReserve => newBaseReserve ≠ 0

def timeForUpgrade (params : UpgradeParameters) (time : Nat) : Bool := params.upgradeTime ≤ time

def isValidForNomination (params : UpgradeParameters) (header : LedgerHeader) (upgrade : LedgerUpgrade) : Bool :=
  timeForUpgrade params header.closeTime &&
    match upgrade with
    | .version newLedgerVersion => params.protocolVersion = some newLedgerVersion
    | .baseFee newBaseFee => params.baseFee = some newBaseFee
    | .maxTxSetSize newMaxTxSetSize => params.maxTxSize = some newMaxTxSetSize
    | .baseReserve newBaseReserve => params.baseReserve = some newBaseReserve

def isValid (driver : HerderSCPDriver) (header : LedgerHeader) (nomination : Bool) (opaqueUpgrade : List UInt8) :
    Option Nat :=
  match driver.upgradeFromOpaque opaqueUpgrade with
  | none => none
  | some upgrade =>
    if isValidForApply header driver.maxLedgerVersion upgrade &&
        (!nomination || isValidForNomination driver.params header upgrade) then
      some upgrade.type
    else none

end Upgrades

inductive ValidationLevel where
  | invalidValue
  | maybeValidValue
  | fullyValidatedValue
deriving DecidableEq

def FIRST_PROTOCOL_WITH_TXSET_CLOSETIME_AFFINITY : Nat := 14

def MAX_TIME_SLIP_SECONDS : UInt64 := 60

/-- The frames of the transaction sets in memory, by the hashes of their contents. -/
abbrev KnownTxSets := Table Hash TxSetFrame

def KnownTxSets.putTxSet (known : KnownTxSets) (hash : Hash) (txset : TxSetFrame) : KnownTxSets :=
  match known.lookup hash with
  | some _ => known
  | none => known.insert hash txset

namespace HerderSCPDriver

def checkCloseTime (driver : HerderSCPDriver) (lastCloseTime : UInt64) (b : DiamnetValue) : Bool :=
  if b.closeTime ≤ lastCloseTime then false
  else if b.closeTime > driver.timeNow + MAX_TIME_SLIP_SECONDS then false
  else true

def curProtocolPreservesTxSetCloseTimeAffinity (lcl : LedgerHeader) : Bool :=
  lcl.ledgerVersion ≥ FIRST_PROTOCOL_WITH_TXSET_CLOSETIME_AFFINITY

def compositeValueType (lcl : LedgerHeader) : DiamnetValueType :=
  if curProtocolPreservesTxSetCloseTimeAffinity lcl then .signed else .basic

/-- A value for another slot than the one after the last closed ledger. -/
def validateForOtherSlot (driver : HerderSCPDriver) (lcl : LedgerHeader) (slotIndex : UInt64) (b : DiamnetValue) :
    ValidationLevel :=
  let lastCloseTime := UInt64.ofNat lcl.closeTime
  let badCloseTime :=
    if slotIndex.toNat = lcl.ledgerSeq then b.closeTime ≠ lastCloseTime
    else if slotIndex.toNat < lcl.ledgerSeq then b.closeTime ≥ lastCloseTime
    else !driver.checkCloseTime lastCloseTime b
  if badCloseTime then .invalidValue
  else
    match driver.trackingSCP with
    | none => .maybeValidValue
    | some (consensusIndex, consensusCloseTime) =>
      let nextConsensusLedgerIndex := consensusIndex + 1
      if nextConsensusLedgerIndex.toNat > slotIndex.toNat then .maybeValidValue
      else if nextConsensusLedgerIndex.toNat < slotIndex.toNat then .invalidValue
      else if !driver.checkCloseTime consensusCloseTime b then .invalidValue
      else .maybeValidValue

/-- All that is checked before the transaction set; `none` if it is to be checked. -/
def validateBeforeTxSet (driver : HerderSCPDriver) (lcl : LedgerHeader) (slotIndex : UInt64) (b : DiamnetValue)
    (nomination : Bool) : Option ValidationLevel :=
  if !b.lcValueSignature.all (fun sig => driver.verifySig sig b.txSetHash b.closeTime) then some .invalidValue
  else if slotIndex.toNat ≠ (lcl.ledgerSeq + 1) % 2 ^ 32 then some (driver.validateForOtherSlot lcl slotIndex b)
  else if !driver.checkCloseTime (UInt64.ofNat lcl.closeTime) b then some .invalidValue
  else
    let expectSignedValue := nomination || compositeValueType lcl = .signed
    if !expectSignedValue && b.type ≠ .basic then some .invalidValue
    else if expectSignedValue && b.type ≠ .signed then some .invalidValue
    else none

def closeTimeOffset (lcl : LedgerHeader) (b : DiamnetValue) : UInt64 :=
  if curProtocolPreservesTxSetCloseTimeAffinity lcl then b.closeTime - UInt64.ofNat lcl.closeTime else 0

variable (env : Environment) (lcl : LastClosedLedger)

def validateValueHelper (driver : HerderSCPDriver) (slotIndex : UInt64) (b : DiamnetValue) (nomination : Bool)
    (known : KnownTxSets) : Except Fault (ValidationLevel × KnownTxSets) :=
  match driver.validateBeforeTxSet lcl.ltx.header slotIndex b nomination with
  | some res => pure (res, known)
  | none =>
    match known.lookup b.txSetHash with
    | none => pure (.invalidValue, known)
    | some txSet => do
      let offset := closeTimeOffset lcl.ltx.header b
      let (valid, txSet) ← txSet.checkValid env lcl ⟨offset, offset⟩
      return (if valid then .fullyValidatedValue else .invalidValue, known.insert b.txSetHash txSet)

def upgradesValid (driver : HerderSCPDriver) (header : LedgerHeader) (nomination : Bool) :
    (lastUpgradeType : Option Nat) → List (List UInt8) → Bool
  | _, [] => true
  | lastUpgradeType, upgrade :: rest =>
    match Upgrades.isValid driver header nomination upgrade with
    | none => false
    | some thisUpgradeType =>
      lastUpgradeType.all (· < thisUpgradeType) && upgradesValid driver header nomination (some thisUpgradeType) rest

def validateValue (driver : HerderSCPDriver) (slotIndex : UInt64) (value : List UInt8) (nomination : Bool)
    (known : KnownTxSets) : Except Fault (ValidationLevel × KnownTxSets) :=
  match driver.valueFromOpaque value with
  | none => pure (.invalidValue, known)
  | some b => do
    let (res, known) ← driver.validateValueHelper env lcl slotIndex b nomination known
    return (if driver.upgradesValid lcl.ltx.header nomination none b.upgrades then res else .invalidValue, known)

end HerderSCPDriver
end Diamnet.Herder
