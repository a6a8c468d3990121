import Diamnet.Transactions.TransactionUtils

/-! Sponsorship of reserves (`SponsorshipUtils.cpp`).

An entry or a signer costs reserve to its owner, or to a sponsor. The functions named
`can…` tell whether the accounts allow a change, the others make it. Counters are unsigned
32-bit; a signer is given by its index. -/
namespace Diamnet.Transactions
open Ledger AccountEntry

inductive SponsorshipResult where
  | success
  | lowReserve
  | tooManySubentries
  | tooManySponsoring
  | tooManySponsored
deriving DecidableEq

def ACCOUNT_SUBENTRY_LIMIT : UInt32 := 1000

def FIRST_PROTOCOL_SUPPORTING_OPERATION_LIMITS : Nat := 11

def prepareAccountEntryExtensionV2 (acc : AccountEntry) : AccountEntryExtensionV2 :=
  acc.extV2.getD { signerSponsoringIDs := List.replicate acc.signers.length none }

def getAccountEntryExtensionV2 (acc : AccountEntry) : Except Fault AccountEntryExtensionV2 :=
  match acc.extV2 with
  | some extV2 => pure extV2
  | none => throw (.runtimeError "expected AccountEntry extension V2")

def computeMultiplier : LedgerEntry → UInt32
  | .account _ => 2
  | .claimableBalance entry => UInt32.ofNat entry.claimants.length
  | _ => 1

def isSubentry : LedgerEntry → Bool
  | .account _ | .claimableBalance _ => false
  | .trustLine _ | .offer _ | .data _ => true

def isAccount : LedgerEntry → Bool
  | .account _ => true
  | _ => false

def isClaimableBalance : LedgerEntry → Bool
  | .claimableBalance _ => true
  | _ => false

/-! ### What the accounts allow -/

section
variable (lh : LedgerHeader)

def sponsorshipSupported : Except Fault Unit :=
  if lh.ledgerVersion < 14 then throw (.runtimeError "sponsorship before version 14") else pure ()

def canEstablishSponsorshipHelper (sponsoringAcc : AccountEntry) (sponsoredAcc : Option AccountEntry)
    (mult : UInt32) : Except Fault SponsorshipResult := do
  let reserve : Int := mult.toNat * lh.baseReserve
  let available ← getAvailableBalance lh sponsoringAcc
  pure (if available < reserve then .lowReserve
    else if UINT32_MAX - mult.toNat < (getNumSponsoring sponsoringAcc).toNat then .tooManySponsoring
    else if sponsoredAcc.any fun acc => UINT32_MAX - mult.toNat < (getNumSponsored acc).toNat then
      .tooManySponsored
    else .success)

def canRemoveSponsorshipHelper (sponsoringAcc : AccountEntry) (sponsoredAcc : Option AccountEntry)
    (mult : UInt32) : Except Fault SponsorshipResult :=
  if getNumSponsoring sponsoringAcc < mult then throw (.runtimeError "insufficient numSponsoring")
  else
    match sponsoredAcc with
    | none => pure .success
    | some acc =>
      if getNumSponsored acc < mult then throw (.runtimeError "insufficient numSponsored")
      else do
        let reserve : Int := mult.toNat * lh.baseReserve
        let available ← getAvailableBalance lh acc
        pure (if available < reserve then .lowReserve else .success)

def canTransferSponsorshipHelper (oldSponsoringAcc newSponsoringAcc : AccountEntry) (mult : UInt32) :
    Except Fault SponsorshipResult := do
  let removeRes ← canRemoveSponsorshipHelper lh oldSponsoringAcc none mult
  if removeRes ≠ .success then pure removeRes
  else canEstablishSponsorshipHelper lh newSponsoringAcc none mult

def canEstablishEntrySponsorship (le : LedgerEntry) (sponsoringAcc : AccountEntry)
    (sponsoredAcc : Option AccountEntry) : Except Fault SponsorshipResult := do
  sponsorshipSupported lh
  if le.sponsoringID.isSome then throw (.runtimeError "sponsoring sponsored entry")
  else canEstablishSponsorshipHelper lh sponsoringAcc sponsoredAcc (computeMultiplier le)

def accountIsSponsor (sponsor : Option AccountID) (sponsoringID : AccountID) : Except Fault Unit :=
  if sponsor = some sponsoringID then pure () else throw (.runtimeError "sponsorship doesn't match")

def canRemoveEntrySponsorship (le : LedgerEntry) (sponsoringID : AccountID) (sponsoringAcc : AccountEntry)
    (sponsoredAcc : Option AccountEntry) : Except Fault SponsorshipResult := do
  sponsorshipSupported lh
  if le.sponsoringID.isNone then throw (.runtimeError "removing sponsorship on unsponsored entry")
  else do
    accountIsSponsor le.sponsoringID sponsoringID
    canRemoveSponsorshipHelper lh sponsoringAcc sponsoredAcc (computeMultiplier le)

def canTransferEntrySponsorship (le : LedgerEntry) (oldSponsoringID : AccountID)
    (oldSponsoringAcc newSponsoringAcc : AccountEntry) : Except Fault SponsorshipResult := do
  sponsorshipSupported lh
  if le.sponsoringID.isNone then throw (.runtimeError "transferring sponsorship on unsponsored entry")
  else do
    accountIsSponsor le.sponsoringID oldSponsoringID
    canTransferSponsorshipHelper lh oldSponsoringAcc newSponsoringAcc (computeMultiplier le)

inductive IsSignerSponsoredResult where
  | doesNotExist
  | notSponsored
  | sponsored
deriving DecidableEq

def signerSponsoringID (acc : AccountEntry) (n : Nat) : Except Fault (Option AccountID) :=
  match acc.extV2 with
  | none => pure none
  | some extV2 =>
    if h : n < extV2.signerSponsoringIDs.length then pure (extV2.signerSponsoringIDs.get ⟨n, h⟩)
    else throw (.runtimeError "vector::_M_range_check")

def isSignerSponsored (n : Nat) (sponsoringID : AccountID) (sponsoredAcc : AccountEntry) :
    Except Fault IsSignerSponsoredResult :=
  if sponsoredAcc.signers.length ≤ n then pure .doesNotExist
  else do
    match ← signerSponsoringID sponsoredAcc n with
    | none => pure .notSponsored
    | some sponsor => do
      accountIsSponsor (some sponsor) sponsoringID
      pure .sponsored

/-- The signer is sponsored, or not, as it has to be. -/
def signerSponsorship (n : Nat) (sponsoringID : AccountID) (sponsoredAcc : AccountEntry)
    (expected : IsSignerSponsoredResult) : Except Fault Unit := do
  sponsorshipSupported lh
  let found ← isSignerSponsored n sponsoringID sponsoredAcc
  if found = expected then pure () else throw (.runtimeError "bad signer sponsorship")

def canEstablishSignerSponsorship (n : Nat) (sponsoringID : AccountID)
    (sponsoringAcc sponsoredAcc : AccountEntry) : Except Fault SponsorshipResult := do
  signerSponsorship lh n sponsoringID sponsoredAcc .notSponsored
  canEstablishSponsorshipHelper lh sponsoringAcc (some sponsoredAcc) 1

def canRemoveSignerSponsorship (n : Nat) (sponsoringID : AccountID)
    (sponsoringAcc sponsoredAcc : AccountEntry) : Except Fault SponsorshipResult := do
  signerSponsorship lh n sponsoringID sponsoredAcc .sponsored
  canRemoveSponsorshipHelper lh sponsoringAcc (some sponsoredAcc) 1

def canTransferSignerSponsorship (n : Nat) (oldSponsoringID : AccountID)
    (oldSponsoringAcc newSponsoringAcc sponsoredAcc : AccountEntry) : Except Fault SponsorshipResult := do
  signerSponsorship lh n oldSponsoringID sponsoredAcc .sponsored
  canTransferSponsorshipHelper lh oldSponsoringAcc newSponsoringAcc 1

def tooManySubentries (acc : AccountEntry) : Bool :=
  FIRST_PROTOCOL_SUPPORTING_OPERATION_LIMITS ≤ lh.ledgerVersion ∧ ACCOUNT_SUBENTRY_LIMIT ≤ acc.numSubEntries

def canCreateEntryWithoutSponsorship (le : LedgerEntry) (acc : AccountEntry) : Except Fault SponsorshipResult :=
  match le with
  | .account entry => do
    let minBalance ← getMinBalance lh acc
    pure (if entry.balance < minBalance then .lowReserve else .success)
  | _ =>
    if tooManySubentries lh acc then pure .tooManySubentries
    else do
      let mult := computeMultiplier le
      let low ← if lh.ledgerVersion < 9 then do
          let available ← getAvailableBalance lh { acc with numSubEntries := acc.numSubEntries + mult }
          pure (decide (available < 0))
        else do
          let reserve : Int := mult.toNat * lh.baseReserve
          let available ← getAvailableBalance lh acc
          pure (decide (available < reserve))
      pure (if low then .lowReserve else .success)

def canCreateEntryWithSponsorship (le : LedgerEntry) (sponsoringAcc : AccountEntry)
    (sponsoredAcc : Option AccountEntry) : Except Fault SponsorshipResult := do
  sponsorshipSupported lh
  if isSubentry le && sponsoredAcc.any fun acc => ACCOUNT_SUBENTRY_LIMIT ≤ acc.numSubEntries then
    pure .tooManySubentries
  else canEstablishEntrySponsorship lh le sponsoringAcc sponsoredAcc

def canRemoveEntryWithoutSponsorship (le : LedgerEntry) (acc : AccountEntry) : Except Fault Unit :=
  if ¬isAccount le ∧ acc.numSubEntries < computeMultiplier le then throw (.runtimeError "invalid account state")
  else pure ()

/-- The account entry that is removed is that of the account. -/
def isEntryOf (le : LedgerEntry) (sponsoredAcc : Option AccountEntry) : Bool :=
  match le with
  | .account entry => sponsoredAcc = some entry
  | _ => true

def canRemoveEntryWithSponsorship (le : LedgerEntry) (sponsoringAcc : AccountEntry)
    (sponsoredAcc : Option AccountEntry) : Except Fault Unit := do
  sponsorshipSupported lh
  let mult := computeMultiplier le
  if getNumSponsoring sponsoringAcc < mult then throw (.runtimeError "invalid sponsoring account state")
  else if ¬isEntryOf le sponsoredAcc then throw (.runtimeError "invalid sponsored account")
  else if sponsoredAcc.any fun acc =>
      (!isAccount le && decide (acc.numSubEntries < mult)) || decide (getNumSponsored acc < mult) then
    throw (.runtimeError "invalid sponsored account state")
  else pure ()

def canCreateSignerWithoutSponsorship (acc : AccountEntry) : Except Fault SponsorshipResult :=
  if tooManySubentries lh acc then pure .tooManySubentries
  else do
    let available ← getAvailableBalance lh acc
    pure (if available < lh.baseReserve then .lowReserve else .success)

def canCreateSignerWithSponsorship (n : Nat) (sponsoringID : AccountID)
    (sponsoringAcc sponsoredAcc : AccountEntry) : Except Fault SponsorshipResult := do
  sponsorshipSupported lh
  if ACCOUNT_SUBENTRY_LIMIT ≤ sponsoredAcc.numSubEntries then pure .tooManySubentries
  else canEstablishSignerSponsorship lh n sponsoringID sponsoringAcc sponsoredAcc

def canRemoveSignerWithoutSponsorship (acc : AccountEntry) : Except Fault Unit :=
  if acc.numSubEntries < 1 then throw (.runtimeError "invalid account state") else pure ()

def canRemoveSignerWithSponsorship (sponsoringAcc sponsoredAcc : AccountEntry) : Except Fault Unit := do
  sponsorshipSupported lh
  if getNumSponsoring sponsoringAcc < 1 then throw (.runtimeError "invalid sponsoring account state")
  else if sponsoredAcc.numSubEntries < 1 ∨ getNumSponsored sponsoredAcc < 1 then
    throw (.runtimeError "invalid sponsored account state")
  else pure ()

end

/-! ### Changes of the accounts' counters -/

/-- `mult` more reserves are sponsored by the account. -/
def addNumSponsoring (mult : UInt32) (acc : AccountEntry) : AccountEntry :=
  let extV2 := prepareAccountEntryExtensionV2 acc
  { acc with extV2 := some { extV2 with numSponsoring := extV2.numSponsoring + mult } }

def subNumSponsoring (mult : UInt32) (acc : AccountEntry) : Except Fault AccountEntry := do
  let extV2 ← getAccountEntryExtensionV2 acc
  pure { acc with extV2 := some { extV2 with numSponsoring := extV2.numSponsoring - mult } }

/-- `mult` more reserves of the account are sponsored. -/
def addNumSponsored (mult : UInt32) (acc : AccountEntry) : AccountEntry :=
  let extV2 := prepareAccountEntryExtensionV2 acc
  { acc with extV2 := some { extV2 with numSponsored := extV2.numSponsored + mult } }

def subNumSponsored (mult : UInt32) (acc : AccountEntry) : Except Fault AccountEntry := do
  let extV2 ← getAccountEntryExtensionV2 acc
  pure { acc with extV2 := some { extV2 with numSponsored := extV2.numSponsored - mult } }

def setSignerSponsoringID (n : Nat) (sponsor : Option AccountID) (acc : AccountEntry) : AccountEntry :=
  let extV2 := prepareAccountEntryExtensionV2 acc
  { acc with extV2 := some { extV2 with signerSponsoringIDs := extV2.signerSponsoringIDs.set n sponsor } }

def createEntryWithoutSponsorship (le : LedgerEntry) (acc : AccountEntry) : AccountEntry :=
  if isSubentry le then { acc with numSubEntries := acc.numSubEntries + 1 } else acc

def removeEntryWithoutSponsorship (le : LedgerEntry) (acc : AccountEntry) : AccountEntry :=
  if isAccount le then acc else { acc with numSubEntries := acc.numSubEntries - 1 }

def createSignerWithoutSponsorship (acc : AccountEntry) : AccountEntry :=
  { acc with numSubEntries := acc.numSubEntries + 1 }

def removeSignerWithoutSponsorship (n : Nat) (acc : AccountEntry) : AccountEntry :=
  { acc with
    numSubEntries := acc.numSubEntries - 1
    extV2 := acc.extV2.map fun extV2 =>
      { extV2 with signerSponsoringIDs := extV2.signerSponsoringIDs.eraseIdx n }
    signers := acc.signers.eraseIdx n }

/-! ### On the ledger -/

def changeAccount (id : AccountID) (change : AccountEntry → Except Fault AccountEntry) : LedgerM Unit := do
  let acc ← loadAccount id
  let acc' ← checked (change acc)
  storeAccount id acc'

/-- The sponsored account, if the entry is one that has it. -/
def findSponsoredAccount (sponsoredID : Option AccountID) : LedgerM (Option AccountEntry) :=
  match sponsoredID with
  | some id => do
    let acc ← loadAccount id
    pure (some acc)
  | none => pure none

/-- Change the sponsored account, if there is one. -/
def changeSponsored (sponsoredID : Option AccountID) (change : AccountEntry → Except Fault AccountEntry) :
    LedgerM Unit :=
  match sponsoredID with
  | some id => changeAccount id change
  | none => pure ()

/-- Create an entry that `sponsoringID` sponsors, if the accounts allow it. -/
def createEntryWithSponsorship (le : LedgerEntry) (sponsoringID : AccountID) (sponsoredID : Option AccountID) :
    LedgerM SponsorshipResult := do
  let lh ← getHeader
  let sponsoringAcc ← loadAccount sponsoringID
  let sponsoredAcc ← findSponsoredAccount sponsoredID
  match ← checked (canCreateEntryWithSponsorship lh le sponsoringAcc sponsoredAcc) with
  | .success => do
    changeSponsored sponsoredID fun acc =>
      pure (addNumSponsored (computeMultiplier le) (createEntryWithoutSponsorship le acc))
    changeAccount sponsoringID fun acc => pure (addNumSponsoring (computeMultiplier le) acc)
    pure .success
  | res => pure res

/-- `createEntryWithPossibleSponsorship`, with the account `accID` held. If it succeeds, the entry's
sponsor is the second value. The account of an account entry is `accID`. -/
def createEntryWithPossibleSponsorship (le : LedgerEntry) (accID : AccountID) :
    LedgerM (SponsorshipResult × Option AccountID) := do
  let sponsoredID := if isClaimableBalance le then none else some accID
  match ← findSponsorship accID with
  | some sponsoringID => do
    check (sponsoringID ≠ accID) "Key is active"
    let res ← createEntryWithSponsorship le sponsoringID sponsoredID
    pure (res, some sponsoringID)
  | none =>
    if isClaimableBalance le then do
      let res ← createEntryWithSponsorship le accID none
      pure (res, some accID)
    else do
      let lh ← getHeader
      let acc ← loadAccount accID
      match ← checked (canCreateEntryWithoutSponsorship lh le acc) with
      | .success => do
        storeAccount accID (createEntryWithoutSponsorship le acc)
        pure (.success, none)
      | res => pure (res, none)

def removeEntryWithSponsorship (le : LedgerEntry) (sponsoringID : AccountID) (sponsoredID : Option AccountID) :
    LedgerM Unit := do
  let lh ← getHeader
  let sponsoringAcc ← loadAccount sponsoringID
  let sponsoredAcc ← findSponsoredAccount sponsoredID
  checked (canRemoveEntryWithSponsorship lh le sponsoringAcc sponsoredAcc)
  changeSponsored sponsoredID fun acc =>
    subNumSponsored (computeMultiplier le) (removeEntryWithoutSponsorship le acc)
  changeAccount sponsoringID (subNumSponsoring (computeMultiplier le))

/-- `removeEntryWithPossibleSponsorship`, with the accounts `accID` and `active` held. -/
def removeEntryWithPossibleSponsorship (le : LedgerEntry) (accID : AccountID) (active : List AccountID) :
    LedgerM Unit :=
  match le.sponsoringID with
  | some sponsoringID =>
    if sponsoringID = accID then do
      check (isClaimableBalance le = true) "sponsoringID == sourceAccount for non-CLAIMABLE_BALANCE entry"
      removeEntryWithSponsorship le accID none
    else do
      check (sponsoringID ∉ active) "Key is active"
      removeEntryWithSponsorship le sponsoringID (if isClaimableBalance le then none else some accID)
  | none => do
    let acc ← loadAccount accID
    checked (canRemoveEntryWithoutSponsorship le acc)
    storeAccount accID (removeEntryWithoutSponsorship le acc)

/-- `createSignerWithPossibleSponsorship` for the signer at `n` of the account `accID`, which is held. -/
def createSignerWithPossibleSponsorship (n : Nat) (accID : AccountID) : LedgerM SponsorshipResult := do
  let lh ← getHeader
  let acc ← loadAccount accID
  match ← findSponsorship accID with
  | some sponsoringID => do
    check (sponsoringID ≠ accID) "Key is active"
    let sponsoringAcc ← loadAccount sponsoringID
    match ← checked (canCreateSignerWithSponsorship lh n sponsoringID sponsoringAcc acc) with
    | .success => do
      storeAccount accID
        (addNumSponsored 1 (setSignerSponsoringID n (some sponsoringID) (createSignerWithoutSponsorship acc)))
      storeAccount sponsoringID (addNumSponsoring 1 sponsoringAcc)
      pure .success
    | res => pure res
  | none => do
    match ← checked (canCreateSignerWithoutSponsorship lh acc) with
    | .success => do
      storeAccount accID (createSignerWithoutSponsorship acc)
      pure .success
    | res => pure res

/-- `removeSignerWithPossibleSponsorship` for the signer at `n` of the account `accID`, with it and the
accounts `active` held. -/
def removeSignerWithPossibleSponsorship (n : Nat) (accID : AccountID) (active : List AccountID) :
    LedgerM Unit := do
  let lh ← getHeader
  let acc ← loadAccount accID
  match ← checked (signerSponsoringID acc n) with
  | some sponsoringID => do
    check (sponsoringID ∉ accID :: active) "Key is active"
    let sponsoringAcc ← loadAccount sponsoringID
    checked (canRemoveSignerWithSponsorship lh sponsoringAcc acc)
    let acc' ← checked (subNumSponsored 1 (setSignerSponsoringID n none acc))
    storeAccount accID (removeSignerWithoutSponsorship n acc')
    changeAccount sponsoringID (subNumSponsoring 1)
  | none => do
    checked (canRemoveSignerWithoutSponsorship acc)
    storeAccount accID (removeSignerWithoutSponsorship n acc)

/-- What an operation makes of the result: failures have their codes, `unexpected` is thrown. -/
def demandSponsorship (res : SponsorshipResult) (low : ResultCode) (unexpected : String) : LedgerM Unit :=
  match res with
  | .success => pure ()
  | .lowReserve => fail low
  | .tooManySubentries => fail .opTooManySubentries
  | .tooManySponsoring => fail .opTooManySponsoring
  | .tooManySponsored => raise unexpected

end Diamnet.Transactions
