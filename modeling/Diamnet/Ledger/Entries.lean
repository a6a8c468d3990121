import Diamnet.Util.Table

/-! Ledger entries (`DiamNet-ledger-entries.x`, `DiamNet-ledger.x`).

An entry here is what its key does not already say: an account's identifier, a trust
line's account and asset, an offer's seller and number are its key. `sponsoringID` is
the sponsor in the entry's extension; the two ways of having none are one. -/
namespace Diamnet.Ledger

/-- An account's public key. Keys are only ever compared. -/
abbrev AccountID := Nat

abbrev Hash := Nat

def INT64_MAX : Int := 9223372036854775807

def INT64_MIN : Int := -9223372036854775808

def UINT32_MAX : Nat := 4294967295

/-! ### Assets and prices -/

inductive Asset where
  | native
  | alphaNum4 (assetCode : Vector UInt8 4) (issuer : AccountID)
  | alphaNum12 (assetCode : Vector UInt8 12) (issuer : AccountID)
deriving DecidableEq

def getIssuer : Asset → Option AccountID
  | .native => none
  | .alphaNum4 _ issuer => some issuer
  | .alphaNum12 _ issuer => some issuer

def isalnum (b : UInt8) : Bool := (48 ≤ b && b ≤ 57) || (65 ≤ b && b ≤ 90) || (97 ≤ b && b ≤ 122)

/-- The characters of an asset code: alphanumeric, and then zeros only. -/
def codeLength : List UInt8 → Option Nat
  | [] => some 0
  | b :: rest =>
    if b = 0 then if rest.all (· = 0) then some 0 else none
    else if isalnum b then (codeLength rest).map (· + 1) else none

def isAssetValid : Asset → Bool
  | .native => true
  | .alphaNum4 code _ => (codeLength code.toList).any (0 < ·)
  | .alphaNum12 code _ => (codeLength code.toList).any (4 < ·)

/-- A price in fractional representation, each part an `int32`. -/
structure Price where
  n : Int
  d : Int
deriving DecidableEq

/-! ### Accounts -/

structure Liabilities where
  buying : Int := 0
  selling : Int := 0
deriving DecidableEq

inductive SignerKey where
  | ed25519 (key : AccountID)
  | preAuthTx (hash : Hash)
  | hashX (hash : Hash)
deriving DecidableEq

/-- The order of the XDR union: by type, then by key. -/
def SignerKey.lt : SignerKey → SignerKey → Bool
  | .ed25519 a, .ed25519 b => a < b
  | .ed25519 _, _ => true
  | .preAuthTx _, .ed25519 _ => false
  | .preAuthTx a, .preAuthTx b => a < b
  | .preAuthTx _, .hashX _ => true
  | .hashX a, .hashX b => a < b
  | .hashX _, _ => false

structure Signer where
  key : SignerKey
  weight : Nat
deriving DecidableEq

def MAX_SIGNERS : Nat := 20

def AUTH_REQUIRED_FLAG : UInt32 := 1

def AUTH_REVOCABLE_FLAG : UInt32 := 2

def AUTH_IMMUTABLE_FLAG : UInt32 := 4

structure AccountEntryExtensionV2 where
  numSponsored : UInt32 := 0
  numSponsoring : UInt32 := 0
  signerSponsoringIDs : List (Option AccountID) := []
deriving DecidableEq

/-- Thresholds are unsigned bytes. -/
structure Thresholds where
  masterWeight : Nat := 1
  low : Nat := 0
  med : Nat := 0
  high : Nat := 0
deriving DecidableEq

structure AccountEntry where
  /-- In stroops. -/
  balance : Int
  seqNum : Int
  /-- The number of sub-entries drives the reserve. -/
  numSubEntries : UInt32 := 0
  inflationDest : Option AccountID := none
  flags : UInt32 := 0
  homeDomain : List UInt8 := []
  thresholds : Thresholds := {}
  signers : List Signer := []
  /-- In extension V1, zero without it. -/
  liabilities : Liabilities := {}
  extV2 : Option AccountEntryExtensionV2 := none
  sponsoringID : Option AccountID := none
deriving DecidableEq

/-! ### Trust lines, offers, data and claimable balances -/

def AUTHORIZED_FLAG : UInt32 := 1

def AUTHORIZED_TO_MAINTAIN_LIABILITIES_FLAG : UInt32 := 2

def MASK_TRUSTLINE_FLAGS : UInt32 := 1

def MASK_TRUSTLINE_FLAGS_V13 : UInt32 := 3

structure TrustLineEntry where
  balance : Int
  /-- The balance cannot be above this. -/
  limit : Int
  flags : UInt32 := 0
  liabilities : Liabilities := {}
  sponsoringID : Option AccountID := none
deriving DecidableEq

def PASSIVE_FLAG : UInt32 := 1

structure OfferKey where
  sellerID : AccountID
  offerID : Int
deriving DecidableEq

structure OfferEntry where
  selling : Asset
  buying : Asset
  /-- The amount of `selling`. -/
  amount : Int
  /-- The price of `selling` in terms of `buying`. -/
  price : Price
  flags : UInt32 := 0
  sponsoringID : Option AccountID := none
deriving DecidableEq

structure DataEntry where
  dataValue : List UInt8
  sponsoringID : Option AccountID := none
deriving DecidableEq

inductive ClaimPredicate where
  | unconditional
  | and (andPredicates : List ClaimPredicate)
  | or (orPredicates : List ClaimPredicate)
  | not (notPredicate : Option ClaimPredicate)
  /-- True while the close time is below. -/
  | beforeAbsoluteTime (absBefore : Int64)
  /-- Seconds since the close time of the ledger that created the balance. -/
  | beforeRelativeTime (relBefore : Int64)

structure Claimant where
  destination : AccountID
  predicate : ClaimPredicate

def MAX_CLAIMANTS : Nat := 10

structure ClaimableBalanceEntry where
  claimants : List Claimant
  /-- The bound of the XDR type. -/
  claimants_le : claimants.length ≤ MAX_CLAIMANTS
  asset : Asset
  amount : Int
  sponsoringID : Option AccountID := none

inductive LedgerEntry where
  | account (entry : AccountEntry)
  | trustLine (entry : TrustLineEntry)
  | offer (entry : OfferEntry)
  | data (entry : DataEntry)
  | claimableBalance (entry : ClaimableBalanceEntry)

def LedgerEntry.sponsoringID : LedgerEntry → Option AccountID
  | .account e => e.sponsoringID
  | .trustLine e => e.sponsoringID
  | .offer e => e.sponsoringID
  | .data e => e.sponsoringID
  | .claimableBalance e => e.sponsoringID

inductive LedgerKey where
  | account (accountID : AccountID)
  | trustLine (accountID : AccountID) (asset : Asset)
  | offer (sellerID : AccountID) (offerID : Int)
  | data (accountID : AccountID) (dataName : List UInt8)
  | claimableBalance (balanceID : Hash)
deriving DecidableEq

/-! ### The header -/

structure LedgerHeader where
  /-- The protocol version. -/
  ledgerVersion : Nat
  ledgerSeq : Nat
  /-- Of the value consensus agreed to. -/
  closeTime : Nat
  /-- Stroops in existence. -/
  totalCoins : Int
  /-- Fees burned since the last inflation run. -/
  feePool : Int
  inflationSeq : Nat
  /-- The last used global identifier. -/
  idPool : Nat
  /-- In stroops. -/
  baseReserve : Nat
  /-- For each operation, in stroops. -/
  baseFee : Nat
  /-- In operations, before version 11 in transactions. -/
  maxTxSetSize : Nat
deriving DecidableEq

end Diamnet.Ledger
