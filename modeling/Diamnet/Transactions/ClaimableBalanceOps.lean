import Diamnet.Transactions.TrustOps

/-! Claimable balances (`CreateClaimableBalanceOpFrame.cpp`, `ClaimClaimableBalanceOpFrame.cpp`). -/
namespace Diamnet.Transactions
open Ledger

/-! ### Predicates -/

/-- The absolute time of a relative one, capped. The difference is one of signed numbers. -/
def relativeToAbsolute (closeTime : Nat) (relative : Int64) : Except Fault Int64 :=
  if relative < 0 then throw .overflow
  else if closeTime > (Int64.maxValue - relative).toUInt64.toNat then pure Int64.maxValue
  else pure (Int64.ofNat (closeTime + relative.toUInt64.toNat))

def updatePredicatesForApply (closeTime : Nat) : ClaimPredicate → Except Fault ClaimPredicate
  | .and (a :: b :: rest) => do
    let a ← updatePredicatesForApply closeTime a
    let b ← updatePredicatesForApply closeTime b
    pure (.and (a :: b :: rest))
  | .or (a :: b :: rest) => do
    let a ← updatePredicatesForApply closeTime a
    let b ← updatePredicatesForApply closeTime b
    pure (.or (a :: b :: rest))
  | .and _ | .or _ => throw (.runtimeError "vector::_M_range_check")
  | .not (some pred) => do
    let pred ← updatePredicatesForApply closeTime pred
    pure (.not (some pred))
  | .not none => throw .nullPointer
  | .beforeRelativeTime relBefore => do
    let absBefore ← relativeToAbsolute closeTime relBefore
    pure (.beforeAbsoluteTime absBefore)
  | .beforeAbsoluteTime absBefore => pure (.beforeAbsoluteTime absBefore)
  | .unconditional => pure .unconditional

/-- `validatePredicate` on creation: well formed and at most four deep. -/
def wellFormedPredicate (depth : Nat) : ClaimPredicate → Bool
  | .unconditional => depth ≤ 4
  | .and [a, b] => depth ≤ 4 && wellFormedPredicate (depth + 1) a && wellFormedPredicate (depth + 1) b
  | .or [a, b] => depth ≤ 4 && wellFormedPredicate (depth + 1) a && wellFormedPredicate (depth + 1) b
  | .not (some pred) => depth ≤ 4 && wellFormedPredicate (depth + 1) pred
  | .beforeAbsoluteTime absBefore => depth ≤ 4 && absBefore ≥ 0
  | .beforeRelativeTime relBefore => depth ≤ 4 && relBefore ≥ 0
  | _ => false

/-- `validatePredicate` on a claim: whether the predicate holds now. -/
def holdsAt (closeTime : Nat) : ClaimPredicate → Except Fault Bool
  | .unconditional => pure true
  | .and (a :: b :: _) => do
    if ← holdsAt closeTime a then holdsAt closeTime b else pure false
  | .or (a :: b :: _) => do
    if ← holdsAt closeTime a then pure true else holdsAt closeTime b
  | .and _ | .or _ => throw (.runtimeError "vector::_M_range_check")
  | .not (some pred) => do
    let res ← holdsAt closeTime pred
    pure !res
  | .not none => throw .nullPointer
  -- compared as an unsigned number
  | .beforeAbsoluteTime absBefore => pure (closeTime < absBefore.toUInt64.toNat)
  | .beforeRelativeTime _ => throw (.runtimeError "Invalid ClaimPredicate")

/-! ### CREATE_CLAIMABLE_BALANCE -/

structure CreateClaimableBalanceOp where
  asset : Asset
  amount : Int
  claimants : List Claimant
  /-- The bound of the XDR type. -/
  claimants_le : claimants.length ≤ MAX_CLAIMANTS
  /-- The hash of the transaction's source and sequence number and of the operation's index. -/
  balanceID : Hash

namespace CreateClaimableBalanceOp

def isVersionSupported (ledgerVersion : Nat) : Bool := ledgerVersion ≥ 14

def doCheckValid (op : CreateClaimableBalanceOp) : Except ResultCode Unit :=
  if !isAssetValid op.asset || op.amount ≤ 0 || op.claimants.isEmpty then throw .malformed
  else if ¬(op.claimants.map (·.destination)).Nodup then throw .malformed
  else if !op.claimants.all (fun c => wellFormedPredicate 1 c.predicate) then throw .malformed
  else pure ()

def takeAmount (op : CreateClaimableBalanceOp) (source : AccountID) : LedgerM Unit :=
  if op.asset = .native then do
    let available ← availableAccountBalance source
    expect (op.amount ≤ available) .underfunded
    let amountOk ← addAccountBalance source (-op.amount)
    assert (amountOk = true)
  else do
    let trustline ← loadTrustLine source op.asset
    expect (trustline.isActive = true) .noTrust
    let authorized ← trustline.isAuthorized
    expect (authorized = true) .notAuthorized
    let ok ← trustline.addBalance (-op.amount)
    expect (ok = true) .underfunded

/-- The claimants of the entry, with their predicates as they are kept. -/
def updateClaimants (closeTime : Nat) :
    (claimants : List Claimant) → Except Fault { updated : List Claimant // updated.length = claimants.length }
  | [] => pure ⟨[], rfl⟩
  | c :: rest => do
    let predicate ← updatePredicatesForApply closeTime c.predicate
    let ⟨updated, hlength⟩ ← updateClaimants closeTime rest
    pure ⟨{ c with predicate } :: updated, by rw [List.length_cons, List.length_cons, hlength]⟩

def newEntry (op : CreateClaimableBalanceOp) (closeTime : Nat) : Except Fault ClaimableBalanceEntry := do
  let ⟨claimants, hlength⟩ ← updateClaimants closeTime op.claimants
  pure { claimants, claimants_le := hlength.trans_le op.claimants_le, asset := op.asset, amount := op.amount }

/-- What a claimable balance, which has no owner, makes of a result of sponsorship. -/
def demandEntrySponsorship (res : SponsorshipResult) : LedgerM Unit :=
  match res with
  | .success => pure ()
  | .lowReserve => fail .lowReserve
  | .tooManySponsoring => fail .opTooManySponsoring
  | _ => raise "Unexpected result from canEstablishEntrySponsorship"

def doApply (op : CreateClaimableBalanceOp) (source : AccountID) : LedgerM Hash := do
  let lh ← getHeader
  let _ ← loadAccount source
  op.takeAmount source
  let entry ← checked (op.newEntry lh.closeTime)
  let (res, sponsoringID) ← createEntryWithPossibleSponsorship (.claimableBalance entry) source
  demandEntrySponsorship res
  createClaimableBalance op.balanceID { entry with sponsoringID }
  pure op.balanceID

end CreateClaimableBalanceOp

/-! ### CLAIM_CLAIMABLE_BALANCE -/

structure ClaimClaimableBalanceOp where
  balanceID : Hash
deriving DecidableEq

namespace ClaimClaimableBalanceOp

def isVersionSupported (ledgerVersion : Nat) : Bool := ledgerVersion ≥ 14

/-- The predicate of the source's claim, if it has one. -/
def canClaim (source : AccountID) (closeTime : Nat) (claimants : List Claimant) : Except Fault Bool :=
  match claimants.find? fun c => c.destination = source with
  | none => pure false
  | some claimant => holdsAt closeTime claimant.predicate

def giveAmount (source : AccountID) (asset : Asset) (amount : Int) : LedgerM Unit :=
  if asset = .native then do
    let ok ← addAccountBalance source amount
    expect (ok = true) .lineFull
  else do
    let trustline ← loadTrustLine source asset
    expect (trustline.isActive = true) .noTrust
    let authorized ← trustline.isAuthorized
    expect (authorized = true) .notAuthorized
    let ok ← trustline.addBalance amount
    expect (ok = true) .lineFull

def doApply (op : ClaimClaimableBalanceOp) (source : AccountID) : LedgerM Unit := do
  match ← findClaimableBalance op.balanceID with
  | none => fail .doesNotExist
  | some entry => do
    let lh ← getHeader
    let claimable ← checked (canClaim source lh.closeTime entry.claimants)
    expect (claimable = true) .cannotClaim
    giveAmount source entry.asset entry.amount
    removeEntryWithPossibleSponsorship (.claimableBalance entry) source []
    eraseClaimableBalance op.balanceID

end ClaimClaimableBalanceOp

end Diamnet.Transactions
