import Diamnet.Transactions.ManageOffer

/-! Payments through the order books (`PathPaymentOpFrameBase.cpp`,
`PathPaymentStrictReceiveOpFrame.cpp`, `PathPaymentStrictSendOpFrame.cpp`, `PaymentOpFrame.cpp`).

With a strict amount received, the destination is credited first and the path is walked from
its end; with a strict amount sent, the source is debited first and the path is walked from
its start. Ledgers before version 8 are not modelled. -/
namespace Diamnet.Transactions
open Ledger

/-- What one of the two path payments is about. -/
structure PathPaymentOp where
  sendAsset : Asset
  /-- `sendMax` or `sendAmount`. -/
  sendAmount : Int
  destination : AccountID
  destAsset : Asset
  /-- `destAmount` or `destMin`. -/
  destAmount : Int
  path : List Asset
deriving DecidableEq

structure SimplePaymentResult where
  destination : AccountID
  asset : Asset
  amount : Int
deriving DecidableEq

structure PathPaymentResult where
  offers : List ClaimOfferAtom
  last : SimplePaymentResult
deriving DecidableEq

namespace PathPaymentOp

/-- The same for both: amounts are positive and assets valid. -/
def doCheckValid (op : PathPaymentOp) : Except ResultCode Unit :=
  if op.destAmount ≤ 0 ∨ op.sendAmount ≤ 0 then throw .malformed
  else if !isAssetValid op.sendAsset || !isAssetValid op.destAsset then throw .malformed
  else if !op.path.all isAssetValid then throw .malformed
  else pure ()

def shouldBypassIssuerCheck (op : PathPaymentOp) : Bool :=
  op.destAsset ≠ .native && op.path.isEmpty && op.sendAsset = op.destAsset &&
    getIssuer op.destAsset = some op.destination

def checkIssuer (asset : Asset) : LedgerM Unit := ManageOfferOp.checkIssuer asset .noIssuer

/-! ### The two ends -/

def updateSourceBalance (op : PathPaymentOp) (source : AccountID) (amount : Int) (bypassIssuerCheck : Bool) :
    LedgerM Unit :=
  if op.sendAsset = .native then do
    let account ← findAccount source
    expect (account.isSome = true) .malformed
    let available ← availableAccountBalance source
    expect (amount ≤ available) .underfunded
    let ok ← addAccountBalance source (-amount)
    assert (ok = true)
  else do
    if bypassIssuerCheck then pure () else checkIssuer op.sendAsset
    let line ← loadTrustLine source op.sendAsset
    expect (line.isActive = true) .srcNoTrust
    let authorized ← line.isAuthorized
    expect (authorized = true) .srcNotAuthorized
    let ok ← line.addBalance (-amount)
    expect (ok = true) .underfunded

def updateDestBalance (op : PathPaymentOp) (amount : Int) (bypassIssuerCheck : Bool) : LedgerM Unit :=
  if op.destAsset = .native then do
    let lh ← getHeader
    let ok ← addAccountBalance op.destination amount
    expect (ok = true) (if lh.ledgerVersion ≥ 11 then .lineFull else .malformed)
  else do
    if bypassIssuerCheck then pure () else checkIssuer op.destAsset
    let line ← loadTrustLine op.destination op.destAsset
    expect (line.isActive = true) .noTrust
    let authorized ← line.isAuthorized
    expect (authorized = true) .notAuthorized
    let ok ← line.addBalance amount
    expect (ok = true) .lineFull

def checkDestination (op : PathPaymentOp) (bypassIssuerCheck : Bool) : LedgerM Unit := do
  let destination ← findAccount op.destination
  expect (bypassIssuerCheck = true ∨ destination.isSome = true) .noDestination

/-! ### One hop -/

def offerFilter (source : AccountID) (key : OfferKey) (_ : OfferEntry) : OfferFilterResult :=
  if key.sellerID = source then .eStop (some .offerCrossSelf) else .eKeep

/-- Whether a conversion that ended well moved the amount it had to. -/
def checkTransfer (round : RoundingType) (maxSend amountSend maxRecv amountRecv : Int) : Bool :=
  if round = .pathPaymentStrictSend then maxSend = amountSend else maxRecv = amountRecv

def convert (asDouble : Price → ℚ) (source : AccountID) (round : RoundingType) (maxOffersToCross : Int)
    (sendAsset : Asset) (maxSend : Int) (recvAsset : Asset) (maxRecv : Int) : LedgerM Conversion := do
  let (r, c) ← convertWithOffers asDouble round (offerFilter source) sendAsset recvAsset maxOffersToCross maxSend maxRecv
  check (c.sheepSend ≥ 0 ∧ c.wheatReceived ≥ 0) "amount transferred out of bounds"
  match r with
  | .eFilterStop code => fail (code.getD .offerCrossSelf)
  | .ePartial => fail .tooFewOffers
  | .eCrossedTooMany => fail .opExceededWorkLimit
  | .eOK => do
    expect (checkTransfer round maxSend c.sheepSend maxRecv c.wheatReceived = true) .tooFewOffers
    pure c

def maxOffersToCross (ledgerVersion : Nat) (offers : List ClaimOfferAtom) : Int :=
  if ledgerVersion ≥ FIRST_PROTOCOL_SUPPORTING_OPERATION_LIMITS then MAX_OFFERS_TO_CROSS - offers.length
  else INT64_MAX

/-! ### A strict amount received -/

/-- From the end of the path: `recvAsset` is what the next hop has to receive, `maxAmountRecv` of it. -/
def receiveHops (asDouble : Price → ℚ) (source : AccountID) :
    List Asset → Asset → Int → List ClaimOfferAtom → LedgerM (Int × List ClaimOfferAtom)
  | [], _, maxAmountRecv, offers => pure (maxAmountRecv, offers)
  | sendAsset :: rest, recvAsset, maxAmountRecv, offers =>
    if recvAsset = sendAsset then receiveHops asDouble source rest recvAsset maxAmountRecv offers
    else do
      checkIssuer sendAsset
      let lh ← getHeader
      let c ← convert asDouble source .pathPaymentStrictReceive (maxOffersToCross lh.ledgerVersion offers)
        sendAsset INT64_MAX recvAsset maxAmountRecv
      receiveHops asDouble source rest sendAsset c.sheepSend (c.offerTrail ++ offers)

def doApplyStrictReceive (asDouble : Price → ℚ) (op : PathPaymentOp) (source : AccountID) :
    LedgerM PathPaymentResult := do
  let bypassIssuerCheck := op.shouldBypassIssuerCheck
  op.checkDestination bypassIssuerCheck
  op.updateDestBalance op.destAmount bypassIssuerCheck
  let (maxAmountRecv, offers) ← receiveHops asDouble source (op.path.reverse ++ [op.sendAsset]) op.destAsset
    op.destAmount []
  expect (maxAmountRecv ≤ op.sendAmount) .overSendmax
  op.updateSourceBalance source maxAmountRecv bypassIssuerCheck
  pure ⟨offers, op.destination, op.destAsset, op.destAmount⟩

/-! ### A strict amount sent -/

/-- From the start of the path: `sendAsset` is what the next hop has to send, `maxAmountSend` of it. -/
def sendHops (asDouble : Price → ℚ) (source : AccountID) :
    List Asset → Asset → Int → List ClaimOfferAtom → LedgerM (Int × List ClaimOfferAtom)
  | [], _, maxAmountSend, offers => pure (maxAmountSend, offers)
  | recvAsset :: rest, sendAsset, maxAmountSend, offers =>
    if recvAsset = sendAsset then sendHops asDouble source rest sendAsset maxAmountSend offers
    else do
      checkIssuer recvAsset
      let c ← convert asDouble source .pathPaymentStrictSend (MAX_OFFERS_TO_CROSS - offers.length)
        sendAsset maxAmountSend recvAsset INT64_MAX
      sendHops asDouble source rest recvAsset c.wheatReceived (offers ++ c.offerTrail)

def doApplyStrictSend (asDouble : Price → ℚ) (op : PathPaymentOp) (source : AccountID) :
    LedgerM PathPaymentResult := do
  let bypassIssuerCheck := op.shouldBypassIssuerCheck
  op.checkDestination bypassIssuerCheck
  op.updateSourceBalance source op.sendAmount bypassIssuerCheck
  let (maxAmountSend, offers) ← sendHops asDouble source (op.path ++ [op.destAsset]) op.sendAsset op.sendAmount []
  expect (op.destAmount ≤ maxAmountSend) .underDestmin
  op.updateDestBalance maxAmountSend bypassIssuerCheck
  pure ⟨offers, op.destination, op.destAsset, maxAmountSend⟩

end PathPaymentOp

/-! ### Payments -/

structure PaymentOp where
  destination : AccountID
  asset : Asset
  amount : Int
deriving DecidableEq

namespace PaymentOp

def doCheckValid (op : PaymentOp) : Except ResultCode Unit :=
  if op.amount ≤ 0 then throw .malformed
  else if !isAssetValid op.asset then throw .malformed
  else pure ()

def asPathPayment (op : PaymentOp) : PathPaymentOp :=
  ⟨op.asset, op.amount, op.destination, op.asset, op.amount, []⟩

/-- The codes a payment takes over from its path payment; any other is unexpected. -/
def translateCode (code : ResultCode) : Failure :=
  if code ∈ [.underfunded, .srcNotAuthorized, .srcNoTrust, .noDestination, .noTrust, .notAuthorized, .lineFull,
      .noIssuer] then .result code
  else .fault (.runtimeError "Unexpected error code from pathPaymentStrictReceive")

/-- The action with the codes it fails with translated. -/
def withCodes {α : Type} (translate : ResultCode → Failure) (x : LedgerM α) : LedgerM α := fun ltx =>
  match x ltx with
  | .error (.result code) => .error (translate code)
  | r => r

def validated (x : Except ResultCode Unit) : LedgerM Unit :=
  match x with
  | .ok _ => pure ()
  | .error code => fail code

def doApply (asDouble : Price → ℚ) (op : PaymentOp) (source : AccountID) : LedgerM Unit :=
  if op.destination = source ∧ op.asset = .native then pure ()
  else withCodes translateCode do
    validated op.asPathPayment.doCheckValid
    let _ ← op.asPathPayment.doApplyStrictReceive asDouble source
    pure ()

end PaymentOp

end Diamnet.Transactions
