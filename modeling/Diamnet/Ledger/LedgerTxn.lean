import Diamnet.Ledger.Entries
import Diamnet.Util.Action

/-! The ledger an operation sees (`LedgerTxn.cpp`).

A `LedgerTxn` is the header and the entries visible at the innermost level, by type
and key. An operation is an action on it that stops with the result code it fails with
or with a fault; what a stopped action had changed is rolled back with the level it
changed it in, so it leaves no ledger. An entry handle is the entry's key: an entry is
loaded where the source first loads it and stored where the source changes it. -/
namespace Diamnet.Ledger

structure LedgerTxn where
  header : LedgerHeader
  accounts : Table AccountID AccountEntry := ∅
  trustLines : Table (AccountID × Asset) TrustLineEntry := ∅
  offers : Table OfferKey OfferEntry := ∅
  data : Table (AccountID × List UInt8) DataEntry := ∅
  claimableBalances : Table Hash ClaimableBalanceEntry := ∅
  /-- Who sponsors the future reserves of the account. -/
  sponsorships : Table AccountID AccountID := ∅
  /-- How many accounts' future reserves the account sponsors. -/
  sponsorshipCounters : Table AccountID Nat := ∅

/-! ### How an operation stops -/

/-- What ends a transaction rather than the operation. -/
inductive Fault where
  /-- An exception. -/
  | runtimeError (what : String)
  /-- A failed `assert`. -/
  | assertion
  /-- Signed 64-bit arithmetic that overflows. -/
  | overflow
  | nullPointer
  /-- The model's bound on the offers crossed. -/
  | fuel
deriving DecidableEq

/-- The codes operations fail with, those of `OperationResultCode` first. The others
are named without the operation's prefix. -/
inductive ResultCode where
  | opBadAuth
  | opNoAccount
  | opNotSupported
  | opTooManySubentries
  | opExceededWorkLimit
  | opTooManySponsoring
  | malformed
  | underfunded
  | lowReserve
  | alreadyExist
  | srcNoTrust
  | srcNotAuthorized
  | noDestination
  | noTrust
  | notAuthorized
  | lineFull
  | noIssuer
  | tooFewOffers
  | offerCrossSelf
  | overSendmax
  | underDestmin
  | sellNoTrust
  | buyNoTrust
  | sellNotAuthorized
  | buyNotAuthorized
  | crossSelf
  | sellNoIssuer
  | buyNoIssuer
  | notFound
  | tooManySigners
  | badFlags
  | invalidInflation
  | cantChange
  | unknownFlag
  | thresholdOutOfRange
  | badSigner
  | invalidHomeDomain
  | invalidLimit
  | selfNotAllowed
  | noTrustLine
  | trustNotRequired
  | cantRevoke
  | noAccount
  | immutableSet
  | hasSubEntries
  | seqnumTooFar
  | destFull
  | isSponsor
  | notTime
  | notSupportedYet
  | nameNotFound
  | invalidName
  | badSeq
  | doesNotExist
  | cannotClaim
  | alreadySponsored
  | recursive
  | notSponsored
  | notSponsor
  | onlyTransferable
deriving DecidableEq

inductive Failure where
  | result (code : ResultCode)
  | fault (fault : Fault)
deriving DecidableEq

abbrev LedgerM := Action LedgerTxn Failure

def fail {α : Type} (code : ResultCode) : LedgerM α := throw (.result code)

def raise {α : Type} (what : String) : LedgerM α := throw (.fault (.runtimeError what))

/-- Go on with the value of a computation that may fault. -/
def checked {α : Type} : Except Fault α → LedgerM α
  | .ok a => pure a
  | .error f => throw (.fault f)

def expect (c : Prop) [Decidable c] (code : ResultCode) : LedgerM Unit := require c (.result code)

def check (c : Prop) [Decidable c] (what : String) : LedgerM Unit := require c (.fault (.runtimeError what))

def assert (c : Prop) [Decidable c] : LedgerM Unit := require c (.fault .assertion)

/-- An exception is thrown if the change is refused. -/
def must (change : LedgerM Bool) (what : String) : LedgerM Unit := do
  let done ← change
  check (done = true) what

/-! ### Entries -/

def getHeader : LedgerM LedgerHeader := do
  let ltx ← get
  pure ltx.header

def findAccount (id : AccountID) : LedgerM (Option AccountEntry) := do
  let ltx ← get
  pure (ltx.accounts.lookup id)

/-- `loadAccount`, with the entry used: an absent entry cannot be. -/
def loadAccount (id : AccountID) : LedgerM AccountEntry := do
  match ← findAccount id with
  | some acc => pure acc
  | none => raise "LedgerTxnEntry not active"

/-- `loadAccount` while the accounts `active` are held. -/
def loadInactiveAccount (id : AccountID) (active : List AccountID) : LedgerM AccountEntry := do
  check (id ∉ active) "Key is active"
  loadAccount id

def storeAccount (id : AccountID) (acc : AccountEntry) : LedgerM Unit :=
  modify fun ltx => { ltx with accounts := ltx.accounts.insert id acc }

def eraseAccount (id : AccountID) : LedgerM Unit :=
  modify fun ltx => { ltx with accounts := ltx.accounts.erase id }

def createAccount (id : AccountID) (acc : AccountEntry) : LedgerM Unit := do
  let old ← findAccount id
  check (old = none) "Key already exists"
  storeAccount id acc

def findTrustLine (id : AccountID) (asset : Asset) : LedgerM (Option TrustLineEntry) := do
  let ltx ← get
  pure (ltx.trustLines.lookup (id, asset))

def storeTrustLine (id : AccountID) (asset : Asset) (line : TrustLineEntry) : LedgerM Unit :=
  modify fun ltx => { ltx with trustLines := ltx.trustLines.insert (id, asset) line }

def eraseTrustLine (id : AccountID) (asset : Asset) : LedgerM Unit :=
  modify fun ltx => { ltx with trustLines := ltx.trustLines.erase (id, asset) }

def findOffer (key : OfferKey) : LedgerM (Option OfferEntry) := do
  let ltx ← get
  pure (ltx.offers.lookup key)

def storeOffer (key : OfferKey) (offer : OfferEntry) : LedgerM Unit :=
  modify fun ltx => { ltx with offers := ltx.offers.insert key offer }

def eraseOffer (key : OfferKey) : LedgerM Unit :=
  modify fun ltx => { ltx with offers := ltx.offers.erase key }

def createOffer (key : OfferKey) (offer : OfferEntry) : LedgerM Unit := do
  let old ← findOffer key
  check (old = none) "Key already exists"
  storeOffer key offer

def findData (id : AccountID) (name : List UInt8) : LedgerM (Option DataEntry) := do
  let ltx ← get
  pure (ltx.data.lookup (id, name))

def storeData (id : AccountID) (name : List UInt8) (entry : DataEntry) : LedgerM Unit :=
  modify fun ltx => { ltx with data := ltx.data.insert (id, name) entry }

def eraseData (id : AccountID) (name : List UInt8) : LedgerM Unit :=
  modify fun ltx => { ltx with data := ltx.data.erase (id, name) }

def findClaimableBalance (balanceID : Hash) : LedgerM (Option ClaimableBalanceEntry) := do
  let ltx ← get
  pure (ltx.claimableBalances.lookup balanceID)

def storeClaimableBalance (balanceID : Hash) (entry : ClaimableBalanceEntry) : LedgerM Unit :=
  modify fun ltx => { ltx with claimableBalances := ltx.claimableBalances.insert balanceID entry }

def eraseClaimableBalance (balanceID : Hash) : LedgerM Unit :=
  modify fun ltx => { ltx with claimableBalances := ltx.claimableBalances.erase balanceID }

def createClaimableBalance (balanceID : Hash) (entry : ClaimableBalanceEntry) : LedgerM Unit := do
  let old ← findClaimableBalance balanceID
  check (old.isNone = true) "Key already exists"
  storeClaimableBalance balanceID entry

def findSponsorship (sponsoredID : AccountID) : LedgerM (Option AccountID) := do
  let ltx ← get
  pure (ltx.sponsorships.lookup sponsoredID)

def findSponsorshipCounter (sponsoringID : AccountID) : LedgerM (Option Nat) := do
  let ltx ← get
  pure (ltx.sponsorshipCounters.lookup sponsoringID)

/-! ### What the actions owe -/

section
variable {α : Type} {s : LedgerTxn} {E : Failure → Prop}

@[simp] theorem runs_fail {code : ResultCode} {Q : α → LedgerTxn → Prop} :
    Runs (fail code) s Q E ↔ E (.result code) := Iff.rfl

variable {what : String}

@[simp] theorem runs_raise {Q : α → LedgerTxn → Prop} :
    Runs (raise what) s Q E ↔ E (.fault (.runtimeError what)) := Iff.rfl

@[simp] theorem runs_checked {x : Except Fault α} {Q : α → LedgerTxn → Prop} :
    Runs (checked x) s Q E ↔ Meets x (fun a => Q a s) (fun f => E (.fault f)) := by
  cases x <;> rfl

variable {Q : Unit → LedgerTxn → Prop}

@[simp] theorem runs_expect {c : Prop} [Decidable c] {code : ResultCode} :
    Runs (expect c code) s Q E ↔ (c → Q () s) ∧ (¬c → E (.result code)) := Runs.require_iff

@[simp] theorem runs_check {c : Prop} [Decidable c] :
    Runs (check c what) s Q E ↔ (c → Q () s) ∧ (¬c → E (.fault (.runtimeError what))) := Runs.require_iff

@[simp] theorem runs_must {change : LedgerM Bool} :
    Runs (must change what) s Q E ↔
      Runs change s (fun done s' => if done then Q () s' else E (.fault (.runtimeError what))) E := by
  rw [must, Runs.bind_iff]
  constructor
  · intro h
    refine h.mono ?_ fun _ h => h
    rintro (_ | _) s' h <;> simpa using h
  · intro h
    refine h.mono ?_ fun _ h => h
    rintro (_ | _) s' h <;> simpa using h

@[simp] theorem runs_getHeader {Q : LedgerHeader → LedgerTxn → Prop} :
    Runs getHeader s Q E ↔ Q s.header s := Iff.rfl

variable {id : AccountID}

@[simp] theorem runs_findAccount {Q : Option AccountEntry → LedgerTxn → Prop} :
    Runs (findAccount id) s Q E ↔ Q (s.accounts.lookup id) s := Iff.rfl

@[simp] theorem runs_loadAccount {Q : AccountEntry → LedgerTxn → Prop} :
    Runs (loadAccount id) s Q E ↔ (∀ acc, s.accounts.lookup id = some acc → Q acc s) ∧
      (s.accounts.lookup id = none → E (.fault (.runtimeError "LedgerTxnEntry not active"))) := by
  rw [loadAccount, Runs.bind_iff, runs_findAccount]
  cases s.accounts.lookup id <;> simp

@[simp] theorem runs_storeAccount {acc : AccountEntry} :
    Runs (storeAccount id acc) s Q E ↔ Q () { s with accounts := s.accounts.insert id acc } := Iff.rfl

@[simp] theorem runs_findTrustLine {asset : Asset} {Q : Option TrustLineEntry → LedgerTxn → Prop} :
    Runs (findTrustLine id asset) s Q E ↔ Q (s.trustLines.lookup (id, asset)) s := Iff.rfl

@[simp] theorem runs_storeOffer {key : OfferKey} {offer : OfferEntry} :
    Runs (storeOffer key offer) s Q E ↔ Q () { s with offers := s.offers.insert key offer } := Iff.rfl

@[simp] theorem runs_eraseOffer {key : OfferKey} :
    Runs (eraseOffer key) s Q E ↔ Q () { s with offers := s.offers.erase key } := Iff.rfl

@[simp] theorem runs_findSponsorship {Q : Option AccountID → LedgerTxn → Prop} :
    Runs (findSponsorship id) s Q E ↔ Q (s.sponsorships.lookup id) s := Iff.rfl

@[simp] theorem runs_findSponsorshipCounter {Q : Option Nat → LedgerTxn → Prop} :
    Runs (findSponsorshipCounter id) s Q E ↔ Q (s.sponsorshipCounters.lookup id) s := Iff.rfl

end

end Diamnet.Ledger
