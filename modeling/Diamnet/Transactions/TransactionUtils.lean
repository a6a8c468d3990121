import Diamnet.Transactions.Exchange

/-! Balances and liabilities (`TransactionUtils.cpp`, `TrustLineWrapper.cpp`).

What the source does through an entry's handle is done here on the entry, and then on the
ledger by the entry's key. -/
namespace Diamnet.Transactions
open Ledger

def int64 (x : Int) : Except Fault Int := if INT64_MIN ≤ x ∧ x ≤ INT64_MAX then pure x else throw .overflow

@[simp] theorem meets_int64 {x : Int} {Q : Int → Prop} {E : Fault → Prop} :
    Meets (int64 x) Q E ↔ (INT64_MIN ≤ x ∧ x ≤ INT64_MAX → Q x) ∧ (¬(INT64_MIN ≤ x ∧ x ≤ INT64_MAX) → E .overflow) := by
  unfold int64
  by_cases h : INT64_MIN ≤ x ∧ x ≤ INT64_MAX <;> simp [h]

theorem int64_eq_ok {x y : Int} : int64 x = .ok y ↔ y = x ∧ INT64_MIN ≤ x ∧ x ≤ INT64_MAX := by
  unfold int64
  split
  · next h => exact ⟨fun hy => ⟨(Except.ok.inj hy).symm, h⟩, fun hy => congrArg Except.ok hy.1.symm⟩
  · next h => exact ⟨fun hy => (nomatch hy), fun hy => absurd hy.2 h⟩

/-- `addBalance`: the balance with `delta` added, if it stays within zero and `maxBalance`. -/
def addBalance (balance delta maxBalance : Int) : Except Fault (Option Int) :=
  if balance ≥ 0 ∧ maxBalance ≥ 0 then
    pure (if delta = 0 then some balance
      else if delta < -balance then none
      else if maxBalance - balance < delta then none
      else some (balance + delta))
  else throw .assertion

theorem addBalance_fits {balance delta maxBalance : Int} (hbalance : 0 ≤ balance) (hlow : 0 ≤ balance + delta)
    (hhigh : balance + delta ≤ maxBalance) : addBalance balance delta maxBalance = .ok (some (balance + delta)) := by
  rw [addBalance, if_pos ⟨hbalance, hlow.trans hhigh⟩]
  congr 1
  grind

/-! ### Accounts -/

def getMinBalanceOf (lh : LedgerHeader) (numSubentries numSponsoring numSponsored : UInt32) : Except Fault Int :=
  if lh.ledgerVersion < 14 ∧ (numSponsored ≠ 0 ∨ numSponsoring ≠ 0) then
    throw (.runtimeError "unexpected sponsorship state")
  -- unsigned 32-bit arithmetic
  else if lh.ledgerVersion ≤ 8 then pure (((2 + numSubentries.toNat) * lh.baseReserve % 2 ^ 32 : Nat) : Int)
  else
    let effEntries : Int := 2 + numSubentries.toNat + numSponsoring.toNat - numSponsored.toNat
    if effEntries < 0 then throw (.runtimeError "unexpected account state")
    else int64 (effEntries * lh.baseReserve)

def getNumSponsored (acc : AccountEntry) : UInt32 := acc.extV2.elim 0 (·.numSponsored)

def getNumSponsoring (acc : AccountEntry) : UInt32 := acc.extV2.elim 0 (·.numSponsoring)

def getMinBalance (lh : LedgerHeader) (acc : AccountEntry) : Except Fault Int :=
  if lh.ledgerVersion ≥ 14 then
    getMinBalanceOf lh acc.numSubEntries (getNumSponsoring acc) (getNumSponsored acc)
  else getMinBalanceOf lh acc.numSubEntries 0 0

def getLiabilities (lh : LedgerHeader) (liabilities : Liabilities) : Except Fault Liabilities :=
  if lh.ledgerVersion < 10 then throw (.runtimeError "Liabilities accessed before version 10")
  else pure liabilities

namespace AccountEntry

/-- Whether a balance changed by `delta` to `newBalance` respects the reserve and the liabilities. -/
def balanceAllowed (lh : LedgerHeader) (acc : AccountEntry) (delta newBalance : Int) : Except Fault Bool :=
  if lh.ledgerVersion ≥ 10 then do
    let minBalance ← getMinBalance lh acc
    let liabilities ← getLiabilities lh acc.liabilities
    let most ← int64 (INT64_MAX - liabilities.buying)
    pure (!(decide (delta < 0) && decide (newBalance - minBalance < liabilities.selling)) &&
      !decide (newBalance > most))
  else pure true

def addBalance (lh : LedgerHeader) (acc : AccountEntry) (delta : Int) : Except Fault (Option AccountEntry) :=
  if delta = 0 then pure (some acc)
  else do
    match ← Transactions.addBalance acc.balance delta INT64_MAX with
    | none => pure none
    | some newBalance => do
      let allowed ← balanceAllowed lh acc delta newBalance
      pure (if allowed then some { acc with balance := newBalance } else none)

def addBuyingLiabilities (lh : LedgerHeader) (acc : AccountEntry) (delta : Int) :
    Except Fault (Option AccountEntry) := do
  let liabilities ← getLiabilities lh acc.liabilities
  if delta = 0 then pure (some acc)
  else do
    let maxLiabilities ← int64 (INT64_MAX - acc.balance)
    let buying? ← Transactions.addBalance liabilities.buying delta maxLiabilities
    pure (buying?.map fun buying => { acc with liabilities := { liabilities with buying := buying } })

def addSellingLiabilities (lh : LedgerHeader) (acc : AccountEntry) (delta : Int) :
    Except Fault (Option AccountEntry) := do
  let liabilities ← getLiabilities lh acc.liabilities
  if delta = 0 then pure (some acc)
  else do
    let minBalance ← getMinBalance lh acc
    let maxLiabilities ← int64 (acc.balance - minBalance)
    if maxLiabilities < 0 then pure none
    else do
      let selling? ← Transactions.addBalance liabilities.selling delta maxLiabilities
      pure (selling?.map fun selling => { acc with liabilities := { liabilities with selling := selling } })

def getAvailableBalance (lh : LedgerHeader) (acc : AccountEntry) : Except Fault Int := do
  let minBalance ← getMinBalance lh acc
  let avail ← int64 (acc.balance - minBalance)
  if lh.ledgerVersion ≥ 10 then int64 (avail - acc.liabilities.selling) else pure avail

def getMaxAmountReceive (lh : LedgerHeader) (acc : AccountEntry) : Except Fault Int :=
  if lh.ledgerVersion ≥ 10 then do
    let taken ← int64 (acc.balance + acc.liabilities.buying)
    int64 (INT64_MAX - taken)
  else pure INT64_MAX

def isAuthRequired (acc : AccountEntry) : Bool := acc.flags &&& AUTH_REQUIRED_FLAG ≠ 0

def isImmutableAuth (acc : AccountEntry) : Bool := acc.flags &&& AUTH_IMMUTABLE_FLAG ≠ 0

end AccountEntry

/-! ### Trust lines -/

namespace TrustLineEntry

def isAuthorized (tl : TrustLineEntry) : Bool := tl.flags &&& AUTHORIZED_FLAG ≠ 0

def isAuthorizedToMaintainLiabilities (tl : TrustLineEntry) : Bool :=
  isAuthorized tl || tl.flags &&& AUTHORIZED_TO_MAINTAIN_LIABILITIES_FLAG ≠ 0

def checkAuthorization (lh : LedgerHeader) (tl : TrustLineEntry) : Except Fault Bool :=
  if lh.ledgerVersion < 10 then pure (isAuthorized tl)
  else if isAuthorizedToMaintainLiabilities tl then pure true
  else throw (.runtimeError "Invalid authorization")

/-- Whether a new balance respects the liabilities. -/
def balanceAllowed (lh : LedgerHeader) (tl : TrustLineEntry) (newBalance : Int) : Except Fault Bool :=
  if lh.ledgerVersion ≥ 10 then do
    let liabilities ← getLiabilities lh tl.liabilities
    let most ← int64 (tl.limit - liabilities.buying)
    pure (!decide (newBalance < liabilities.selling) && !decide (newBalance > most))
  else pure true

def addBalance (lh : LedgerHeader) (tl : TrustLineEntry) (delta : Int) : Except Fault (Option TrustLineEntry) :=
  if delta = 0 then pure (some tl)
  else do
    if ← checkAuthorization lh tl then
      match ← Transactions.addBalance tl.balance delta tl.limit with
      | none => pure none
      | some newBalance => do
        let allowed ← balanceAllowed lh tl newBalance
        pure (if allowed then some { tl with balance := newBalance } else none)
    else pure none

def addBuyingLiabilities (lh : LedgerHeader) (tl : TrustLineEntry) (delta : Int) :
    Except Fault (Option TrustLineEntry) := do
  let liabilities ← getLiabilities lh tl.liabilities
  if delta = 0 then pure (some tl)
  else if ← checkAuthorization lh tl then do
    let maxLiabilities ← int64 (tl.limit - tl.balance)
    let buying? ← Transactions.addBalance liabilities.buying delta maxLiabilities
    pure (buying?.map fun buying => { tl with liabilities := { liabilities with buying := buying } })
  else pure none

def addSellingLiabilities (lh : LedgerHeader) (tl : TrustLineEntry) (delta : Int) :
    Except Fault (Option TrustLineEntry) := do
  let liabilities ← getLiabilities lh tl.liabilities
  if delta = 0 then pure (some tl)
  else if ← checkAuthorization lh tl then do
    let selling? ← Transactions.addBalance liabilities.selling delta tl.balance
    pure (selling?.map fun selling => { tl with liabilities := { liabilities with selling := selling } })
  else pure none

def getAvailableBalance (lh : LedgerHeader) (tl : TrustLineEntry) : Except Fault Int := do
  let _ ← checkAuthorization lh tl
  if lh.ledgerVersion ≥ 10 then int64 (tl.balance - tl.liabilities.selling) else pure tl.balance

def getMaxAmountReceive (lh : LedgerHeader) (tl : TrustLineEntry) : Except Fault Int := do
  if ← checkAuthorization lh tl then do
    let amount ← int64 (tl.limit - tl.balance)
    if lh.ledgerVersion ≥ 10 then int64 (amount - tl.liabilities.buying) else pure amount
  else pure 0

def getMinimumLimit (lh : LedgerHeader) (tl : TrustLineEntry) : Except Fault Int :=
  if lh.ledgerVersion ≥ 10 then int64 (tl.balance + tl.liabilities.buying) else pure tl.balance

end TrustLineEntry

def trustLineFlagIsValid (flag : UInt32) (ledgerVersion : Nat) : Bool :=
  if ledgerVersion < 13 then flag &&& ~~~MASK_TRUSTLINE_FLAGS = 0
  else
    let invalidAuthCombo := AUTHORIZED_FLAG ||| AUTHORIZED_TO_MAINTAIN_LIABILITIES_FLAG
    flag &&& ~~~MASK_TRUSTLINE_FLAGS_V13 = 0 ∧ flag &&& invalidAuthCombo ≠ invalidAuthCombo

/-! ### On the ledger -/

/-- Change the account's entry, unless the change is refused. -/
def updateAccount (id : AccountID) (change : LedgerHeader → AccountEntry → Except Fault (Option AccountEntry)) :
    LedgerM Bool := do
  let lh ← getHeader
  let acc ← loadAccount id
  match ← checked (change lh acc) with
  | some acc' => do
    storeAccount id acc'
    pure true
  | none => pure false

def addAccountBalance (id : AccountID) (delta : Int) : LedgerM Bool :=
  updateAccount id fun lh acc => AccountEntry.addBalance lh acc delta

/-- An account's line of trust in an asset other than the native one. The issuer has one without an
entry, on which any amount is available and movements have no effect. -/
inductive TrustLineWrapper where
  | inactive
  | nonIssuer (accountID : AccountID) (asset : Asset)
  | issuer (accountID : AccountID) (asset : Asset)
deriving DecidableEq

def loadTrustLine (id : AccountID) (asset : Asset) : LedgerM TrustLineWrapper := do
  check (asset ≠ .native) "trustline for native asset"
  if getIssuer asset = some id then pure (.issuer id asset)
  else do
    match ← findTrustLine id asset with
    | some _ => pure (.nonIssuer id asset)
    | none => pure .inactive

def loadTrustLineIfNotNative (id : AccountID) (asset : Asset) : LedgerM TrustLineWrapper :=
  if asset = .native then pure .inactive else loadTrustLine id asset

namespace TrustLineWrapper

def entry (id : AccountID) (asset : Asset) : LedgerM TrustLineEntry := do
  match ← findTrustLine id asset with
  | some tl => pure tl
  | none => raise "LedgerTxnEntry not active"

/-- Change the line's entry, unless the change is refused. -/
def update (line : TrustLineWrapper)
    (change : LedgerHeader → TrustLineEntry → Except Fault (Option TrustLineEntry)) : LedgerM Bool :=
  match line with
  | .inactive => raise "TrustLineWrapper not active"
  | .issuer _ _ => pure true
  | .nonIssuer id asset => do
    let lh ← getHeader
    let tl ← entry id asset
    match ← checked (change lh tl) with
    | some tl' => do
      storeTrustLine id asset tl'
      pure true
    | none => pure false

/-- Read the line's entry; the issuer's line reads as `ofIssuer`. -/
def read {α : Type} (line : TrustLineWrapper) (ofIssuer : α)
    (value : LedgerHeader → TrustLineEntry → Except Fault α) : LedgerM α :=
  match line with
  | .inactive => raise "TrustLineWrapper not active"
  | .issuer _ _ => pure ofIssuer
  | .nonIssuer id asset => do
    let lh ← getHeader
    let tl ← entry id asset
    checked (value lh tl)

def isActive (line : TrustLineWrapper) : Bool := line ≠ .inactive

def addBalance (line : TrustLineWrapper) (delta : Int) : LedgerM Bool :=
  line.update fun lh tl => TrustLineEntry.addBalance lh tl delta

def addBuyingLiabilities (line : TrustLineWrapper) (delta : Int) : LedgerM Bool :=
  line.update fun lh tl => TrustLineEntry.addBuyingLiabilities lh tl delta

def addSellingLiabilities (line : TrustLineWrapper) (delta : Int) : LedgerM Bool :=
  line.update fun lh tl => TrustLineEntry.addSellingLiabilities lh tl delta

def isAuthorized (line : TrustLineWrapper) : LedgerM Bool :=
  line.read true fun _ tl => pure (TrustLineEntry.isAuthorized tl)

def isAuthorizedToMaintainLiabilities (line : TrustLineWrapper) : LedgerM Bool :=
  line.read true fun _ tl => pure (TrustLineEntry.isAuthorizedToMaintainLiabilities tl)

def getAvailableBalance (line : TrustLineWrapper) : LedgerM Int :=
  line.read INT64_MAX TrustLineEntry.getAvailableBalance

def getMaxAmountReceive (line : TrustLineWrapper) : LedgerM Int :=
  line.read INT64_MAX TrustLineEntry.getMaxAmountReceive

end TrustLineWrapper

/-- Add to the seller's liabilities in an asset, which must work. -/
def addLiabilities (sellerID : AccountID) (asset : Asset)
    (ofAccount : LedgerHeader → AccountEntry → Except Fault (Option AccountEntry))
    (ofLine : LedgerHeader → TrustLineEntry → Except Fault (Option TrustLineEntry)) (what : String) :
    LedgerM Unit :=
  if asset = .native then do
    let account ← findAccount sellerID
    check (account.isSome = true) "account does not exist"
    must (updateAccount sellerID ofAccount) what
  else do
    let trust ← loadTrustLine sellerID asset
    check (trust.isActive = true) "trustline does not exist"
    must (trust.update ofLine) what

def addBuyingLiabilities (sellerID : AccountID) (asset : Asset) (delta : Int) : LedgerM Unit :=
  addLiabilities sellerID asset (fun lh acc => AccountEntry.addBuyingLiabilities lh acc delta)
    (fun lh tl => TrustLineEntry.addBuyingLiabilities lh tl delta) "could not add buying liabilities"

def addSellingLiabilities (sellerID : AccountID) (asset : Asset) (delta : Int) : LedgerM Unit :=
  addLiabilities sellerID asset (fun lh acc => AccountEntry.addSellingLiabilities lh acc delta)
    (fun lh tl => TrustLineEntry.addSellingLiabilities lh tl delta) "could not add selling liabilities"

/-- The liabilities of an offer, added to its seller's or taken off them. -/
def acquireOrReleaseLiabilities (sellerID : AccountID) (offer : OfferEntry) (isAcquire : Bool) : LedgerM Unit := do
  check (offer.buying ≠ offer.selling) "buying and selling same asset"
  let lh ← getHeader
  let buying ← checked (getOfferBuyingLiabilities lh offer)
  addBuyingLiabilities sellerID offer.buying (if isAcquire then buying else -buying)
  let selling ← checked (getOfferSellingLiabilities lh offer)
  addSellingLiabilities sellerID offer.selling (if isAcquire then selling else -selling)

def acquireLiabilities (sellerID : AccountID) (offer : OfferEntry) : LedgerM Unit :=
  acquireOrReleaseLiabilities sellerID offer true

def releaseLiabilities (sellerID : AccountID) (offer : OfferEntry) : LedgerM Unit :=
  acquireOrReleaseLiabilities sellerID offer false

def generateID : LedgerM Int := do
  let ltx ← get
  let idPool := (ltx.header.idPool + 1) % 2 ^ 64
  set { ltx with header := { ltx.header with idPool := idPool } }
  pure (BitVec.ofNat 64 idPool).toInt

def getStartingSequenceNumber (lh : LedgerHeader) : Int := (BitVec.ofNat 64 (lh.ledgerSeq * 2 ^ 32)).toInt

end Diamnet.Transactions
