import Diamnet.Transactions.OfferExchange

/-! Offers made and changed (`ManageOfferOpFrameBase.cpp`, `ManageSellOfferOpFrame.cpp`,
`ManageBuyOfferOpFrame.cpp`, `CreatePassiveSellOfferOpFrame.cpp`).

The operation sells sheep for wheat: it crosses the offers that sell wheat for sheep, and
what it could not trade is left on the book. -/
namespace Diamnet.Transactions
open Ledger

/-- What bounds the operation: the sheep it sells or the wheat it buys. -/
inductive OfferAmount where
  | sell (amount : Int)
  | buy (buyAmount : Int)
deriving DecidableEq

structure ManageOfferOp where
  sheep : Asset
  wheat : Asset
  offerID : Int
  /-- Of sheep in terms of wheat. -/
  price : Price
  amount : OfferAmount
  setPassiveOnCreate : Bool := false
deriving DecidableEq

def getInversePrice (price : Price) : Price := ⟨price.d, price.n⟩

def manageSellOffer (selling buying : Asset) (amount : Int) (price : Price) (offerID : Int) : ManageOfferOp :=
  ⟨selling, buying, offerID, price, .sell amount, false⟩

def createPassiveSellOffer (selling buying : Asset) (amount : Int) (price : Price) : ManageOfferOp :=
  ⟨selling, buying, 0, price, .sell amount, true⟩

def manageBuyOffer (selling buying : Asset) (buyAmount : Int) (price : Price) (offerID : Int) : ManageOfferOp :=
  ⟨selling, buying, offerID, getInversePrice price, .buy buyAmount, false⟩

def MAX_OFFERS_TO_CROSS : Int := 1000

def Price.ge (a b : Price) : Bool := a.n * b.d ≥ a.d * b.n

def Price.gt (a b : Price) : Bool := a.n * b.d > a.d * b.n

inductive ManageOfferEffect where
  | created
  | updated
  | deleted
deriving DecidableEq

structure ManageOfferSuccessResult where
  offersClaimed : List ClaimOfferAtom
  effect : ManageOfferEffect
deriving DecidableEq

namespace ManageOfferOp

/-! ### What the two kinds of amount differ in -/

def isAmountValid (op : ManageOfferOp) : Bool :=
  match op.amount with
  | .sell amount => amount ≥ 0
  | .buy buyAmount => buyAmount ≥ 0

def isDeleteOffer (op : ManageOfferOp) : Bool :=
  match op.amount with
  | .sell amount => amount = 0
  | .buy buyAmount => buyAmount = 0

/-- What the whole operation would exchange with a buyer without limits. -/
def exchangeAll (op : ManageOfferOp) : Except Fault ExchangeResultV10 :=
  match op.amount with
  | .sell amount =>
    exchangeV10WithoutPriceErrorThresholds op.price amount INT64_MAX INT64_MAX INT64_MAX .normal
  | .buy buyAmount =>
    exchangeV10WithoutPriceErrorThresholds op.price INT64_MAX INT64_MAX INT64_MAX buyAmount .normal

def getOfferBuyingLiabilities (op : ManageOfferOp) : Except Fault Int := do
  let res ← op.exchangeAll
  pure res.numSheepSend

def getOfferSellingLiabilities (op : ManageOfferOp) : Except Fault Int := do
  let res ← op.exchangeAll
  pure res.numWheatReceived

/-- `applyOperationSpecificLimits`: the limits on sheep sent and wheat received. -/
def applyOperationSpecificLimits (op : ManageOfferOp) (maxSheepSend sheepSent maxWheatReceive wheatReceived : Int) :
    Int × Int :=
  match op.amount with
  | .sell amount => (min (amount - sheepSent) maxSheepSend, maxWheatReceive)
  | .buy buyAmount => (maxSheepSend, min (buyAmount - wheatReceived) maxWheatReceive)

def getExchangeParametersBeforeV10 (op : ManageOfferOp) (maxSheepSend maxWheatReceive : Int) :
    Except Fault (Int × Int) :=
  match op.amount with
  | .sell amount => do
    let maxSheepBasedOnWheat ← bigDivide? maxWheatReceive op.price.d op.price.n .roundDown
    pure (min maxSheepSend (min (maxSheepBasedOnWheat.getD INT64_MAX) amount), maxWheatReceive)
  | .buy _ => throw (.runtimeError "ManageBuyOffer used before protocol version 10")

def isVersionSupported (op : ManageOfferOp) (ledgerVersion : Nat) : Bool :=
  match op.amount with
  | .sell _ => true
  | .buy _ => ledgerVersion ≥ 11

def doCheckValid (op : ManageOfferOp) (ledgerVersion : Nat) : Except ResultCode Unit :=
  if !isAssetValid op.sheep || !isAssetValid op.wheat then throw .malformed
  else if op.sheep = op.wheat then throw .malformed
  else if !op.isAmountValid || op.price.d ≤ 0 || op.price.n ≤ 0 then throw .malformed
  else if op.offerID = 0 ∧ op.isDeleteOffer ∧ ledgerVersion ≥ 11 then throw .malformed
  else if op.offerID = 0 ∧ op.isDeleteOffer ∧ ledgerVersion ≥ 3 then throw .notFound
  else if ledgerVersion ≥ 15 ∧ op.offerID < 0 then throw .malformed
  else pure ()

/-! ### Before the exchange -/

/-- The asset's issuer exists, which is asked before version 13. -/
def checkIssuer (asset : Asset) (code : ResultCode) : LedgerM Unit := do
  let lh ← getHeader
  let ltx ← get
  expect (lh.ledgerVersion < 13 → ∀ issuer ∈ getIssuer asset, (ltx.accounts.lookup issuer).isSome = true) code

def checkSelling (source : AccountID) (sheep : Asset) : LedgerM Unit :=
  if sheep = .native then pure ()
  else do
    let line ← loadTrustLine source sheep
    checkIssuer sheep .sellNoIssuer
    expect (line.isActive = true) .sellNoTrust
    let balance ← line.read INT64_MAX fun _ tl => pure tl.balance
    expect (balance ≠ 0) .underfunded
    let authorized ← line.isAuthorized
    expect (authorized = true) .sellNotAuthorized

def checkBuying (source : AccountID) (wheat : Asset) : LedgerM Unit :=
  if wheat = .native then pure ()
  else do
    let line ← loadTrustLine source wheat
    checkIssuer wheat .buyNoIssuer
    expect (line.isActive = true) .buyNoTrust
    let authorized ← line.isAuthorized
    expect (authorized = true) .buyNotAuthorized

def checkOfferValid (op : ManageOfferOp) (source : AccountID) : LedgerM Unit :=
  if op.isDeleteOffer then pure ()
  else do
    checkSelling source op.sheep
    checkBuying source op.wheat

def buildOffer (op : ManageOfferOp) (amount : Int) (flags : UInt32) (sponsoringID : Option AccountID) : OfferEntry :=
  { selling := op.sheep, buying := op.wheat, amount, price := op.price, flags, sponsoringID }

/-- What is known of the offer before the exchange. -/
structure Start where
  creatingNewOffer : Bool
  passive : Bool
  flags : UInt32
  sponsoringID : Option AccountID
deriving DecidableEq

def takeOffer (op : ManageOfferOp) (source : AccountID) : LedgerM Start := do
  match ← findOffer ⟨source, op.offerID⟩ with
  | none => fail .notFound
  | some offer => do
    let lh ← getHeader
    if lh.ledgerVersion ≥ 10 then releaseLiabilities source offer else pure ()
    eraseOffer ⟨source, op.offerID⟩
    pure ⟨false, offer.flags &&& PASSIVE_FLAG ≠ 0, offer.flags, offer.sponsoringID⟩

/-- From version 14, a new offer counts as a sub-entry before the exchange. -/
def startOffer (op : ManageOfferOp) (source : AccountID) : LedgerM Start := do
  let flags := if op.setPassiveOnCreate then PASSIVE_FLAG else 0
  let lh ← getHeader
  if lh.ledgerVersion ≥ 14 then do
    let (res, sponsoringID) ← createEntryWithPossibleSponsorship (.offer (op.buildOffer 0 0 none)) source
    demandSponsorship res .lowReserve "Unexpected result from createEntryWithPossibleSponsorship"
    pure ⟨true, op.setPassiveOnCreate, flags, sponsoringID⟩
  else pure ⟨true, op.setPassiveOnCreate, flags, none⟩

/-- Count a new offer as a sub-entry of an account that has the reserve for it, before version 14. -/
def countNewOffer (op : ManageOfferOp) (source : AccountID) (amount : Int) : LedgerM Unit := do
  let lh ← getHeader
  let acc ← loadAccount source
  let le := LedgerEntry.offer (op.buildOffer amount 0 none)
  let res ← checked (canCreateEntryWithoutSponsorship lh le acc)
  demandSponsorship res .lowReserve "Unexpected result from createEntryWithPossibleSponsorship"
  storeAccount source (createEntryWithoutSponsorship le acc)

def exchangeParameters (op : ManageOfferOp) (source : AccountID) (sheepLine wheatLine : TrustLineWrapper)
    (maxSheepSend maxWheatReceive : Int) : LedgerM (Int × Int) := do
  let availableLimit ← if op.wheat = .native then maxAccountReceive source else wheatLine.getMaxAmountReceive
  let buying ← checked op.getOfferBuyingLiabilities
  expect (buying ≤ availableLimit) .lineFull
  let availableBalance ← if op.sheep = .native then availableAccountBalance source
    else sheepLine.getAvailableBalance
  let selling ← checked op.getOfferSellingLiabilities
  expect (selling ≤ availableBalance) .underfunded
  pure (op.applyOperationSpecificLimits maxSheepSend 0 maxWheatReceive 0)

/-- The reserve for a new offer is reserved while the limits are computed, before version 14. -/
def reservesNewOffer (op : ManageOfferOp) (ledgerVersion : Nat) (creatingNewOffer : Bool) : Bool :=
  ledgerVersion < 14 && creatingNewOffer &&
    (ledgerVersion ≥ 10 || (op.sheep = .native && ledgerVersion > 8))

/-- The limits on sheep sent and wheat received; what it changes is rolled back. -/
def computeOfferExchangeParameters (op : ManageOfferOp) (source : AccountID) (creatingNewOffer : Bool) :
    LedgerM (Int × Int) := do
  let lh ← getHeader
  if op.reservesNewOffer lh.ledgerVersion creatingNewOffer then op.countNewOffer source 0 else pure ()
  let sheepLine ← loadTrustLineIfNotNative source op.sheep
  let wheatLine ← loadTrustLineIfNotNative source op.wheat
  let maxWheatReceive ← canBuyAtMost source op.wheat wheatLine
  let maxSheepSend ← canSellAtMost source op.sheep sheepLine
  if lh.ledgerVersion ≥ 10 then
    op.exchangeParameters source sheepLine wheatLine maxSheepSend maxWheatReceive
  else checked (op.getExchangeParametersBeforeV10 maxSheepSend maxWheatReceive)

/-! ### The exchange -/

/-- Offers that are too dear are not crossed, and the source's own end the operation. -/
def offerFilter (op : ManageOfferOp) (source : AccountID) (passive : Bool) (key : OfferKey) (offer : OfferEntry) :
    OfferFilterResult :=
  let maxWheatPrice : Price := ⟨op.price.d, op.price.n⟩
  if (passive && Price.ge offer.price maxWheatPrice) || Price.gt offer.price maxWheatPrice then .eStop none
  else if key.sellerID = source then .eStop (some .crossSelf)
  else .eKeep

def payExchange (op : ManageOfferOp) (source : AccountID) (sheepSent wheatReceived : Int) : LedgerM Unit :=
  if wheatReceived > 0 then do
    let wheatLine ← loadTrustLineIfNotNative source op.wheat
    let claimed ← addHolding source op.wheat wheatLine wheatReceived
    check (claimed = true) "offer claimed over limit"
    let sheepLine ← loadTrustLineIfNotNative source op.sheep
    let sold ← addHolding source op.sheep sheepLine (-sheepSent)
    check (sold = true) "offer sold more than balance"
  else pure ()

/-- Whether the operation still has sheep to sell. -/
def sheepStays (r : ConvertResult) : LedgerM Bool :=
  match r with
  | .eOK => pure false
  | .ePartial => pure true
  | .eFilterStop none => pure true
  | .eFilterStop (some code) => fail code
  | .eCrossedTooMany => fail .opExceededWorkLimit

/-- The amount left on the book after the exchange. -/
def amountLeft (op : ManageOfferOp) (source : AccountID) (stays : Bool) (maxSheepSend sheepSent wheatReceived : Int) :
    LedgerM Int := do
  let lh ← getHeader
  if lh.ledgerVersion ≥ 10 then
    if stays then do
      let sheepLine ← loadTrustLineIfNotNative source op.sheep
      let wheatLine ← loadTrustLineIfNotNative source op.wheat
      let sheepSendLimit ← canSellAtMost source op.sheep sheepLine
      let wheatReceiveLimit ← canBuyAtMost source op.wheat wheatLine
      let limits := op.applyOperationSpecificLimits sheepSendLimit sheepSent wheatReceiveLimit wheatReceived
      checked (adjustOffer op.price limits.1 limits.2)
    else pure 0
  else pure (maxSheepSend - sheepSent)

/-- Cross the book; the offers claimed and the amount left. -/
def exchange (asDouble : Price → ℚ) (op : ManageOfferOp) (source : AccountID) (start : Start) :
    LedgerM (List ClaimOfferAtom × Int) := do
  let (maxSheepSend, maxWheatReceive) ←
    nested (op.computeOfferExchangeParameters source start.creatingNewOffer) (fun _ => false)
  expect (maxWheatReceive ≠ 0) .lineFull
  let lh ← getHeader
  let maxOffersToCross := if lh.ledgerVersion ≥ FIRST_PROTOCOL_SUPPORTING_OPERATION_LIMITS
    then MAX_OFFERS_TO_CROSS else INT64_MAX
  let (r, c) ← convertWithOffers asDouble .normal (op.offerFilter source start.passive) op.sheep op.wheat
    maxOffersToCross maxSheepSend maxWheatReceive
  let stays ← sheepStays r
  op.payExchange source c.sheepSend c.wheatReceived
  let amount ← op.amountLeft source stays maxSheepSend c.sheepSend c.wheatReceived
  pure (c.offerTrail, amount)

/-! ### After the exchange -/

/-- The number of the offer that is put on the book. -/
def offerNumber (op : ManageOfferOp) (start : Start) : LedgerM Int :=
  if start.creatingNewOffer then generateID else pure op.offerID

def placeOffer (op : ManageOfferOp) (source : AccountID) (start : Start) (amount : Int) :
    LedgerM ManageOfferEffect := do
  let lh ← getHeader
  if start.creatingNewOffer ∧ lh.ledgerVersion < 14 then op.countNewOffer source amount else pure ()
  let offerID ← op.offerNumber start
  let newOffer := op.buildOffer amount start.flags start.sponsoringID
  createOffer ⟨source, offerID⟩ newOffer
  if lh.ledgerVersion ≥ 10 then acquireLiabilities source newOffer else pure ()
  pure (if start.creatingNewOffer then .created else .updated)

def dropOffer (op : ManageOfferOp) (source : AccountID) (start : Start) : LedgerM ManageOfferEffect := do
  let lh ← getHeader
  if start.creatingNewOffer = false ∨ lh.ledgerVersion ≥ 14 then
    removeEntryWithPossibleSponsorship (.offer (op.buildOffer 0 0 start.sponsoringID)) source []
  else pure ()
  pure .deleted

def doApply (asDouble : Price → ℚ) (op : ManageOfferOp) (source : AccountID) : LedgerM ManageOfferSuccessResult := do
  op.checkOfferValid source
  let start ← if op.offerID ≠ 0 then op.takeOffer source else op.startOffer source
  let (offersClaimed, amount) ← if op.isDeleteOffer then pure ([], 0) else op.exchange asDouble source start
  let effect ← if amount > 0 then op.placeOffer source start amount else op.dropOffer source start
  pure ⟨offersClaimed, effect⟩

end ManageOfferOp

end Diamnet.Transactions
