import Diamnet.Transactions.AccountOps

/-! Operations on trust lines (`ChangeTrustOpFrame.cpp`, `AllowTrustOpFrame.cpp`). -/
namespace Diamnet.Transactions
open Ledger

/-! ### CHANGE_TRUST -/

structure ChangeTrustOp where
  line : Asset
  limit : Int
deriving DecidableEq

namespace ChangeTrustOp

def doCheckValid (op : ChangeTrustOp) (ledgerVersion : Nat) : Except ResultCode Unit :=
  if op.limit < 0 then throw .malformed
  else if !isAssetValid op.line then throw .malformed
  else if ledgerVersion > 9 ∧ op.line = .native then throw .malformed
  else pure ()

def changeLine (op : ChangeTrustOp) (source issuerID : AccountID) (tl : TrustLineEntry) : LedgerM Unit := do
  let lh ← getHeader
  let minimum ← checked (TrustLineEntry.getMinimumLimit lh tl)
  expect (minimum ≤ op.limit) .invalidLimit
  if op.limit = 0 then do
    removeEntryWithPossibleSponsorship (.trustLine tl) source []
    eraseTrustLine source op.line
  else do
    let issuer ← findAccount issuerID
    expect (issuer.isSome = true) .noIssuer
    storeTrustLine source op.line { tl with limit := op.limit }

/-- The line of trust as the issuer's flags make it. -/
def newLine (op : ChangeTrustOp) (issuer : AccountEntry) : TrustLineEntry :=
  { balance := 0, limit := op.limit, flags := if AccountEntry.isAuthRequired issuer then 0 else AUTHORIZED_FLAG }

def createLine (op : ChangeTrustOp) (source issuerID : AccountID) : LedgerM Unit := do
  expect (op.limit ≠ 0) .invalidLimit
  match ← findAccount issuerID with
  | none => fail .noIssuer
  | some issuer => do
    let (res, sponsoringID) ← createEntryWithPossibleSponsorship (.trustLine (op.newLine issuer)) source
    demandSponsorship res .lowReserve "Unexpected result from createEntryWithPossibleSponsorship"
    storeTrustLine source op.line { op.newLine issuer with sponsoringID := sponsoringID }

/-- From version 3. The native asset, which has no issuer, is refused from version 10 only. -/
def doApply (op : ChangeTrustOp) (source : AccountID) : LedgerM Unit :=
  match getIssuer op.line with
  | none => raise "union: alphaNum12 accessed when not selected"
  | some issuerID => do
    expect (issuerID ≠ source) .selfNotAllowed
    match ← findTrustLine source op.line with
    | some tl => op.changeLine source issuerID tl
    | none => op.createLine source issuerID

end ChangeTrustOp

/-! ### ALLOW_TRUST -/

/-- The code of an asset of the source. -/
inductive AssetCode where
  | native
  | assetCode4 (code : Vector UInt8 4)
  | assetCode12 (code : Vector UInt8 12)
deriving DecidableEq

structure AllowTrustOp where
  trustor : AccountID
  asset : AssetCode
  authorize : UInt32
deriving DecidableEq

namespace AllowTrustOp

def assetOf (op : AllowTrustOp) (source : AccountID) : Asset :=
  match op.asset with
  | .native => .native
  | .assetCode4 code => .alphaNum4 code source
  | .assetCode12 code => .alphaNum12 code source

def doCheckValid (op : AllowTrustOp) (source : AccountID) (ledgerVersion : Nat) : Except ResultCode Unit :=
  if op.asset = .native then throw .malformed
  else if !trustLineFlagIsValid op.authorize ledgerVersion then throw .malformed
  else if !isAssetValid (op.assetOf source) then throw .malformed
  else pure ()

def removeTrustorOffer (key : OfferKey) (offer : OfferEntry) : LedgerM Unit := do
  releaseLiabilities key.sellerID offer
  removeOffer key offer

def offersByAccountAndAsset (offers : Table OfferKey OfferEntry) (id : AccountID) (asset : Asset) :
    List (OfferKey × OfferEntry) :=
  (offers.entries.map fun e => (e.1, e.2)).filter fun e =>
    e.1.sellerID = id ∧ (e.2.buying = asset ∨ e.2.selling = asset)

def removeOffers (id : AccountID) (asset : Asset) : LedgerM Unit := do
  let ltx ← get
  (offersByAccountAndAsset ltx.offers id asset).forM fun e => removeTrustorOffer e.1 e.2

def setAuthorized (trustor : AccountID) (asset : Asset) (authorized : UInt32) : LedgerM Unit := do
  let lh ← getHeader
  check (trustLineFlagIsValid authorized lh.ledgerVersion = true) "trying to set invalid trust line flag"
  let tl ← TrustLineWrapper.entry trustor asset
  storeTrustLine trustor asset { tl with flags := authorized }

/-- Whether the trustor loses what it needs for its offers. -/
def shouldRemoveOffers (op : AllowTrustOp) (tl : TrustLineEntry) : Bool :=
  TrustLineEntry.isAuthorizedToMaintainLiabilities tl && op.authorize = 0

def doApply (op : AllowTrustOp) (source : AccountID) : LedgerM Unit := do
  expect (op.trustor ≠ source) .selfNotAllowed
  let acc ← loadAccount source
  expect (acc.flags &&& AUTH_REQUIRED_FLAG ≠ 0) .trustNotRequired
  let authNotRevocable := acc.flags &&& AUTH_REVOCABLE_FLAG = 0
  expect (¬(authNotRevocable ∧ op.authorize = 0)) .cantRevoke
  let asset := op.assetOf source
  match ← findTrustLine op.trustor asset with
  | none => fail .noTrustLine
  | some tl => do
    expect (¬(authNotRevocable ∧ TrustLineEntry.isAuthorized tl = true ∧
      op.authorize &&& AUTHORIZED_TO_MAINTAIN_LIABILITIES_FLAG ≠ 0)) .cantRevoke
    let lh ← getHeader
    if lh.ledgerVersion ≥ 10 ∧ op.shouldRemoveOffers tl then removeOffers op.trustor asset else pure ()
    setAuthorized op.trustor asset op.authorize

end AllowTrustOp

end Diamnet.Transactions
