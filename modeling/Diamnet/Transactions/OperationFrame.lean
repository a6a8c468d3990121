import Diamnet.Transactions.SponsorshipOps

/-! Operations (`OperationFrame.cpp`).

An operation is applied if its arguments are valid at the ledger's version and its source
account exists. Before version 10 its signatures are checked here too. -/
namespace Diamnet.Transactions
open Ledger

inductive OperationBody where
  | createAccount (op : CreateAccountOp)
  | payment (op : PaymentOp)
  | pathPaymentStrictReceive (op : PathPaymentOp)
  | manageSellOffer (selling buying : Asset) (amount : Int) (price : Price) (offerID : Int)
  | createPassiveSellOffer (selling buying : Asset) (amount : Int) (price : Price)
  | setOptions (op : SetOptionsOp)
  | changeTrust (op : ChangeTrustOp)
  | allowTrust (op : AllowTrustOp)
  | accountMerge (op : MergeOp)
  | inflation
  | manageData (op : ManageDataOp)
  | bumpSequence (op : BumpSequenceOp)
  | manageBuyOffer (selling buying : Asset) (buyAmount : Int) (price : Price) (offerID : Int)
  | pathPaymentStrictSend (op : PathPaymentOp)
  | createClaimableBalance (op : CreateClaimableBalanceOp)
  | claimClaimableBalance (op : ClaimClaimableBalanceOp)
  | beginSponsoringFutureReserves (op : BeginSponsoringOp)
  | endSponsoringFutureReserves
  | revokeSponsorship (op : RevokeSponsorshipOp)

namespace OperationBody

def isVersionSupported (body : OperationBody) (ledgerVersion : Nat) : Bool :=
  match body with
  | .inflation => InflationOp.isVersionSupported ledgerVersion
  | .bumpSequence _ => BumpSequenceOp.isVersionSupported ledgerVersion
  | .manageBuyOffer selling buying buyAmount price offerID =>
    (Transactions.manageBuyOffer selling buying buyAmount price offerID).isVersionSupported ledgerVersion
  | .pathPaymentStrictSend _ => ledgerVersion ≥ 12
  | .createClaimableBalance _ => CreateClaimableBalanceOp.isVersionSupported ledgerVersion
  | .claimClaimableBalance _ => ClaimClaimableBalanceOp.isVersionSupported ledgerVersion
  | .beginSponsoringFutureReserves _ => BeginSponsoringOp.isVersionSupported ledgerVersion
  | .endSponsoringFutureReserves => EndSponsoringOp.isVersionSupported ledgerVersion
  | .revokeSponsorship _ => RevokeSponsorshipOp.isVersionSupported ledgerVersion
  | _ => true

def doCheckValid (body : OperationBody) (source : AccountID) (ledgerVersion : Nat) : Except ResultCode Unit :=
  match body with
  | .createAccount op => op.doCheckValid source ledgerVersion
  | .payment op => op.doCheckValid
  | .pathPaymentStrictReceive op => op.doCheckValid
  | .manageSellOffer selling buying amount price offerID =>
    (Transactions.manageSellOffer selling buying amount price offerID).doCheckValid ledgerVersion
  | .createPassiveSellOffer selling buying amount price =>
    (Transactions.createPassiveSellOffer selling buying amount price).doCheckValid ledgerVersion
  | .setOptions op => op.doCheckValid source ledgerVersion
  | .changeTrust op => op.doCheckValid ledgerVersion
  | .allowTrust op => op.doCheckValid source ledgerVersion
  | .accountMerge op => op.doCheckValid source
  | .inflation => pure ()
  | .manageData op => op.doCheckValid
  | .bumpSequence op => op.doCheckValid
  | .manageBuyOffer selling buying buyAmount price offerID =>
    (Transactions.manageBuyOffer selling buying buyAmount price offerID).doCheckValid ledgerVersion
  | .pathPaymentStrictSend op => op.doCheckValid
  | .createClaimableBalance op => op.doCheckValid
  | .claimClaimableBalance _ => pure ()
  | .beginSponsoringFutureReserves op => op.doCheckValid source
  | .endSponsoringFutureReserves => pure ()
  | .revokeSponsorship op => op.doCheckValid ledgerVersion

/-- What a successful operation reports. -/
inductive Success where
  | done
  | offer (result : ManageOfferSuccessResult)
  | payment (result : PathPaymentResult)
  | merged (sourceAccountBalance : Int)
  | balanceID (id : Hash)
deriving DecidableEq

def doApply (asDouble : Price → ℚ) (body : OperationBody) (source : AccountID) : LedgerM Success :=
  match body with
  | .createAccount op => do op.doApply source; pure .done
  | .payment op => do op.doApply asDouble source; pure .done
  | .pathPaymentStrictReceive op => do
    let res ← op.doApplyStrictReceive asDouble source
    pure (.payment res)
  | .manageSellOffer selling buying amount price offerID => do
    let res ← (Transactions.manageSellOffer selling buying amount price offerID).doApply asDouble source
    pure (.offer res)
  | .createPassiveSellOffer selling buying amount price => do
    let res ← (Transactions.createPassiveSellOffer selling buying amount price).doApply asDouble source
    pure (.offer res)
  | .setOptions op => do op.doApply source; pure .done
  | .changeTrust op => do op.doApply source; pure .done
  | .allowTrust op => do op.doApply source; pure .done
  | .accountMerge op => do
    let balance ← op.doApply source
    pure (.merged balance)
  | .inflation => do InflationOp.doApply; pure .done
  | .manageData op => do op.doApply source; pure .done
  | .bumpSequence op => do op.doApply source; pure .done
  | .manageBuyOffer selling buying buyAmount price offerID => do
    let res ← (Transactions.manageBuyOffer selling buying buyAmount price offerID).doApply asDouble source
    pure (.offer res)
  | .pathPaymentStrictSend op => do
    let res ← op.doApplyStrictSend asDouble source
    pure (.payment res)
  | .createClaimableBalance op => do
    let id ← op.doApply source
    pure (.balanceID id)
  | .claimClaimableBalance op => do op.doApply source; pure .done
  | .beginSponsoringFutureReserves op => do op.doApply source; pure .done
  | .endSponsoringFutureReserves => do EndSponsoringOp.doApply source; pure .done
  | .revokeSponsorship op => do op.doApply source; pure .done

end OperationBody

structure OperationFrame where
  /-- The source of the operation, its transaction's if it names none. -/
  source : AccountID
  body : OperationBody

namespace OperationFrame

/-- `checkValid` while applying. `signed` tells whether the signatures suffice for an account. -/
def checkValid (signed : AccountID → AccountEntry → Bool) (op : OperationFrame) : LedgerM Unit := do
  let lh ← getHeader
  expect (op.body.isVersionSupported lh.ledgerVersion = true) .opNotSupported
  match ← findAccount op.source with
  | none => fail .opNoAccount
  | some acc => do
    expect (lh.ledgerVersion < 10 → signed op.source acc = true) .opBadAuth
    PaymentOp.validated (op.body.doCheckValid op.source lh.ledgerVersion)

def apply (asDouble : Price → ℚ) (signed : AccountID → AccountEntry → Bool) (op : OperationFrame) :
    LedgerM OperationBody.Success := do
  op.checkValid signed
  op.body.doApply asDouble op.source

end OperationFrame

end Diamnet.Transactions
