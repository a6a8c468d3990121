import Diamnet.Transactions.ClaimableBalanceOps

/-! Operations on sponsorships (`BeginSponsoringFutureReservesOpFrame.cpp`,
`EndSponsoringFutureReservesOpFrame.cpp`, `RevokeSponsorshipOpFrame.cpp`).

Which accounts sponsor the future reserves of which is kept in entries that live only within
a transaction: one for each sponsored account, and for each sponsoring account a counter. -/
namespace Diamnet.Transactions
open Ledger

/-! ### BEGIN_SPONSORING_FUTURE_RESERVES and END_SPONSORING_FUTURE_RESERVES -/

structure BeginSponsoringOp where
  sponsoredID : AccountID
deriving DecidableEq

namespace BeginSponsoringOp

def isVersionSupported (ledgerVersion : Nat) : Bool := ledgerVersion ≥ 14

def doCheckValid (op : BeginSponsoringOp) (source : AccountID) : Except ResultCode Unit :=
  if op.sponsoredID = source then throw .malformed else pure ()

def createSponsorship (sponsoredID sponsoringID : AccountID) : LedgerM Unit := do
  let old ← findSponsorship sponsoredID
  check (old = none) "Key already exists"
  modify fun ltx => { ltx with sponsorships := ltx.sponsorships.insert sponsoredID sponsoringID }

/-- One more account sponsored: the counter goes up, or is created at one. -/
def countSponsorship (sponsoringID : AccountID) : LedgerM Unit := do
  let counter ← findSponsorshipCounter sponsoringID
  modify fun ltx => { ltx with
    sponsorshipCounters := ltx.sponsorshipCounters.insert sponsoringID (counter.elim 1 (· + 1)) }

def doApply (op : BeginSponsoringOp) (source : AccountID) : LedgerM Unit := do
  let already ← findSponsorship op.sponsoredID
  expect (already = none) .alreadySponsored
  let sponsor ← findSponsorship source
  expect (sponsor = none) .recursive
  let counter ← findSponsorshipCounter op.sponsoredID
  expect (counter = none) .recursive
  createSponsorship op.sponsoredID source
  countSponsorship source

end BeginSponsoringOp

namespace EndSponsoringOp

def isVersionSupported (ledgerVersion : Nat) : Bool := ledgerVersion ≥ 14

/-- One account less sponsored: the counter goes down, and goes away at zero. -/
def uncountSponsorship (sponsoringID : AccountID) : LedgerM Unit := do
  match ← findSponsorshipCounter sponsoringID with
  | none => raise "no sponsorship counter"
  | some n => do
    check (n ≠ 0) "bad sponsorship counter"
    modify fun ltx => { ltx with
      sponsorshipCounters := if n = 1 then ltx.sponsorshipCounters.erase sponsoringID
        else ltx.sponsorshipCounters.insert sponsoringID (n - 1) }

def doApply (source : AccountID) : LedgerM Unit := do
  match ← findSponsorship source with
  | none => fail .notSponsored
  | some sponsoringID => do
    uncountSponsorship sponsoringID
    modify fun ltx => { ltx with sponsorships := ltx.sponsorships.erase source }

end EndSponsoringOp

/-! ### REVOKE_SPONSORSHIP -/

inductive RevokeSponsorshipOp where
  | ledgerEntry (ledgerKey : LedgerKey)
  | signer (accountID : AccountID) (signerKey : SignerKey)
deriving DecidableEq

def findEntry : LedgerKey → LedgerM (Option LedgerEntry)
  | .account id => do
    let acc ← findAccount id
    pure (acc.map .account)
  | .trustLine id asset => do
    let tl ← findTrustLine id asset
    pure (tl.map .trustLine)
  | .offer sellerID offerID => do
    let offer ← findOffer ⟨sellerID, offerID⟩
    pure (offer.map .offer)
  | .data id name => do
    let entry ← findData id name
    pure (entry.map .data)
  | .claimableBalance balanceID => do
    let entry ← findClaimableBalance balanceID
    pure (entry.map .claimableBalance)

/-- The table with the entry at `k` changed, if there is one. -/
def modifyAt {κ ν : Type} [DecidableEq κ] (m : Table κ ν) (k : κ) (f : ν → ν) : Table κ ν :=
  match m.lookup k with
  | some v => m.insert k (f v)
  | none => m

def setSponsor (key : LedgerKey) (sponsor : Option AccountID) : LedgerM Unit :=
  modify fun ltx => match key with
    | .account id => { ltx with accounts := modifyAt ltx.accounts id fun e => { e with sponsoringID := sponsor } }
    | .trustLine id asset =>
      { ltx with trustLines := modifyAt ltx.trustLines (id, asset) fun e => { e with sponsoringID := sponsor } }
    | .offer sellerID offerID =>
      { ltx with offers := modifyAt ltx.offers ⟨sellerID, offerID⟩ fun e => { e with sponsoringID := sponsor } }
    | .data id name => { ltx with data := modifyAt ltx.data (id, name) fun e => { e with sponsoringID := sponsor } }
    | .claimableBalance balanceID =>
      { ltx with
        claimableBalances := modifyAt ltx.claimableBalances balanceID fun e => { e with sponsoringID := sponsor } }

namespace RevokeSponsorshipOp

def isVersionSupported (ledgerVersion : Nat) : Bool := ledgerVersion ≥ 14

def keyIsValid : LedgerKey → Bool
  | .account _ | .claimableBalance _ => true
  | .trustLine id asset => isAssetValid asset && asset ≠ .native && getIssuer asset ≠ some id
  | .offer _ offerID => offerID > 0
  | .data _ name => 1 ≤ name.length && isString32Valid name

def doCheckValid (op : RevokeSponsorshipOp) (ledgerVersion : Nat) : Except ResultCode Unit :=
  match op with
  | .ledgerEntry key => if ledgerVersion > 14 ∧ keyIsValid key = false then throw .doesNotExist else pure ()
  | .signer _ _ => pure ()

/-- The owner of an entry; of a claimable balance, its sponsor. -/
def getAccountID (key : LedgerKey) (le : LedgerEntry) : LedgerM AccountID :=
  match key with
  | .account id | .trustLine id _ | .data id _ => pure id
  | .offer sellerID _ => pure sellerID
  | .claimableBalance _ =>
    match le.sponsoringID with
    | some id => pure id
    | none => raise "LedgerEntry extension not set"

def processSponsorshipResult (res : SponsorshipResult) : LedgerM Unit :=
  match res with
  | .success => pure ()
  | .lowReserve => fail .lowReserve
  | .tooManySponsoring => fail .opTooManySponsoring
  | _ => raise "unexpected sponsorship result"

/-- The account that will sponsor what the source lets go, if not the owner. -/
def newSponsor (source owner : AccountID) : LedgerM (Option AccountID) := do
  let sponsorship ← findSponsorship source
  pure (sponsorship.filter fun sponsoringID => sponsoringID ≠ owner)

def heldAccount : LedgerKey → List AccountID
  | .account id => [id]
  | _ => []

/-- The sponsor passes from one account to another. -/
def transferEntry (key : LedgerKey) (le : LedgerEntry) (oldID newID : AccountID) : LedgerM Unit := do
  let lh ← getHeader
  let oldSponsoringAcc ← loadInactiveAccount oldID (heldAccount key)
  let newSponsoringAcc ← loadInactiveAccount newID (oldID :: heldAccount key)
  let res ← checked (canTransferEntrySponsorship lh le oldID oldSponsoringAcc newSponsoringAcc)
  processSponsorshipResult res
  setSponsor key (some newID)
  changeAccount newID fun acc => pure (addNumSponsoring (computeMultiplier le) acc)
  changeAccount oldID (subNumSponsoring (computeMultiplier le))

def removeEntry (key : LedgerKey) (le : LedgerEntry) (oldID owner : AccountID) : LedgerM Unit := do
  let lh ← getHeader
  let oldSponsoringAcc ← loadInactiveAccount oldID (heldAccount key)
  check (owner ≠ oldID) "Key is active"
  let sponsoredAcc ← loadAccount owner
  let res ← checked (canRemoveEntrySponsorship lh le oldID oldSponsoringAcc (some sponsoredAcc))
  processSponsorshipResult res
  setSponsor key none
  changeAccount owner (subNumSponsored (computeMultiplier le))
  changeAccount oldID (subNumSponsoring (computeMultiplier le))

def establishEntry (key : LedgerKey) (le : LedgerEntry) (newID owner : AccountID) : LedgerM Unit := do
  let lh ← getHeader
  let sponsoringAcc ← loadInactiveAccount newID (heldAccount key)
  check (owner ≠ newID) "Key is active"
  let sponsoredAcc ← loadAccount owner
  let res ← checked (canEstablishEntrySponsorship lh le sponsoringAcc (some sponsoredAcc))
  processSponsorshipResult res
  setSponsor key (some newID)
  changeAccount owner fun acc => pure (addNumSponsored (computeMultiplier le) acc)
  changeAccount newID fun acc => pure (addNumSponsoring (computeMultiplier le) acc)

def updateLedgerEntrySponsorship (key : LedgerKey) (source : AccountID) : LedgerM Unit := do
  match ← findEntry key with
  | none => fail .doesNotExist
  | some le => do
    let owner ← getAccountID key le
    -- the sponsor lets go of the entry, or the owner if there is none
    expect (le.sponsoringID.getD owner = source) .notSponsor
    let new ← newSponsor source owner
    expect (new ≠ none ∨ isClaimableBalance le = false) .onlyTransferable
    match le.sponsoringID, new with
    | some oldID, some newID => transferEntry key le oldID newID
    | some oldID, none => removeEntry key le oldID owner
    | none, some newID => establishEntry key le newID owner
    | none, none => pure ()

/-- `signerSponsoringIDs` at the index, which must be there. -/
def sponsorOfSigner (acc : AccountEntry) (n : Nat) : LedgerM (Option AccountID) :=
  match acc.extV2 with
  | none => pure none
  | some extV2 => do
    check (n < extV2.signerSponsoringIDs.length) "bad signer sponsorships"
    pure (extV2.signerSponsoringIDs.getD n none)

def transferSigner (id : AccountID) (acc : AccountEntry) (n : Nat) (oldID newID : AccountID) : LedgerM Unit := do
  let lh ← getHeader
  let oldSponsoringAcc ← loadInactiveAccount oldID [id]
  let newSponsoringAcc ← loadInactiveAccount newID [id, oldID]
  let res ← checked (canTransferSignerSponsorship lh n oldID oldSponsoringAcc newSponsoringAcc acc)
  processSponsorshipResult res
  storeAccount id (setSignerSponsoringID n (some newID) acc)
  changeAccount newID fun acc => pure (addNumSponsoring 1 acc)
  changeAccount oldID (subNumSponsoring 1)

def removeSigner (id : AccountID) (acc : AccountEntry) (n : Nat) (oldID : AccountID) : LedgerM Unit := do
  let lh ← getHeader
  let oldSponsoringAcc ← loadInactiveAccount oldID [id]
  let res ← checked (canRemoveSignerSponsorship lh n oldID oldSponsoringAcc acc)
  processSponsorshipResult res
  let acc' ← checked (subNumSponsored 1 (setSignerSponsoringID n none acc))
  storeAccount id acc'
  changeAccount oldID (subNumSponsoring 1)

def establishSigner (id : AccountID) (acc : AccountEntry) (n : Nat) (newID : AccountID) : LedgerM Unit := do
  let lh ← getHeader
  let sponsoringAcc ← loadInactiveAccount newID [id]
  let res ← checked (canEstablishSignerSponsorship lh n newID sponsoringAcc acc)
  processSponsorshipResult res
  storeAccount id (addNumSponsored 1 (setSignerSponsoringID n (some newID) acc))
  changeAccount newID fun acc => pure (addNumSponsoring 1 acc)

def updateSignerSponsorship (id : AccountID) (signerKey : SignerKey) (source : AccountID) : LedgerM Unit := do
  match ← findAccount id with
  | none => fail .doesNotExist
  | some acc => do
    let (n, found) := findSignerByKey acc.signers signerKey
    expect (found = true) .doesNotExist
    let old ← sponsorOfSigner acc n
    expect (old.getD id = source) .notSponsor
    let new ← newSponsor source id
    match old, new with
    | some oldID, some newID => transferSigner id acc n oldID newID
    | some oldID, none => removeSigner id acc n oldID
    | none, some newID => establishSigner id acc n newID
    | none, none => pure ()

def doApply (op : RevokeSponsorshipOp) (source : AccountID) : LedgerM Unit :=
  match op with
  | .ledgerEntry key => updateLedgerEntrySponsorship key source
  | .signer id signerKey => updateSignerSponsorship id signerKey source

end RevokeSponsorshipOp

end Diamnet.Transactions
