import Diamnet.Ledger.LedgerTxn
import Diamnet.Util.Overlay
import Mathlib.Data.Rat.Defs

/-! Nested ledger transactions (`LedgerTxn.cpp`, `LedgerTxnEntry.cpp`).

A `LedgerTxn` keeps the entries it has recorded over those of its parent, which is another one or
the root. While it has a child it cannot be used, so what is used is always the innermost of a
stack of levels. A level also keeps which entries have a handle, the offers it has recorded that
have none, in order (`mMultiOrderBook`), and for some asset pairs a descriptor up to which every
offer of the parent is recorded (`mWorstBestOffer`).

The database is the root's, by key; its caches are transparent. Failed allocations, metrics and
prefetching are left out. An exception inside `commitChild` aborts the program. -/
namespace Diamnet.Nested
open Ledger

/-! ### Keys and entries -/

inductive GeneralizedLedgerKey where
  | ledgerKey (key : LedgerKey)
  | sponsorship (sponsoredID : AccountID)
  | sponsorshipCounter (sponsoringID : AccountID)
deriving DecidableEq

abbrev LedgerEntryData : LedgerKey → Type
  | .account _ => AccountEntry
  | .trustLine _ _ => TrustLineEntry
  | .offer _ _ => OfferEntry
  | .data _ _ => DataEntry
  | .claimableBalance _ => ClaimableBalanceEntry

/-- A `LedgerEntry` of a key. -/
structure EntryOf (key : LedgerKey) where
  lastModifiedLedgerSeq : Nat
  data : LedgerEntryData key

abbrev GeneralizedLedgerEntry : GeneralizedLedgerKey → Type
  | .ledgerKey key => EntryOf key
  -- who sponsors
  | .sponsorship _ => AccountID
  -- how many it sponsors
  | .sponsorshipCounter _ => Int

abbrev EntryMap := Overlay GeneralizedLedgerEntry

abbrev View := ∀ k, Option (GeneralizedLedgerEntry k)

/-- Only ledger entries have a sequence number to update. -/
def updateLastModified (ledgerSeq : Nat) : ∀ k, GeneralizedLedgerEntry k → GeneralizedLedgerEntry k
  | .ledgerKey key, e => { (e : EntryOf key) with lastModifiedLedgerSeq := ledgerSeq }
  | .sponsorship _, e => e
  | .sponsorshipCounter _, e => e

/-! ### Offers -/

structure AssetPair where
  buying : Asset
  selling : Asset
deriving DecidableEq

structure OfferDescriptor where
  price : Price
  offerID : Int
deriving DecidableEq

/-- An offer as the order book lists it. -/
structure Listing where
  assets : AssetPair
  descriptor : OfferDescriptor
  key : OfferKey
deriving DecidableEq

def offerKey (key : OfferKey) : GeneralizedLedgerKey := .ledgerKey (.offer key.sellerID key.offerID)

abbrev OfferOf (key : OfferKey) := EntryOf (.offer key.sellerID key.offerID)

def listingOfOffer (key : OfferKey) (e : OfferOf key) : Listing :=
  let oe : OfferEntry := e.data
  ⟨⟨oe.buying, oe.selling⟩, ⟨oe.price, key.offerID⟩, key⟩

def listing : ∀ k, GeneralizedLedgerEntry k → Option Listing
  | .ledgerKey (.offer sellerID offerID), e => some (listingOfOffer ⟨sellerID, offerID⟩ e)
  | _, _ => none

abbrev OrderBook := List (OfferDescriptor × OfferKey)

section
variable (asDouble : Price → ℚ)

/-- Prices are compared as the `double` quotient of their parts. -/
def isBetterOffer (lhs rhs : OfferDescriptor) : Bool :=
  if asDouble lhs.price < asDouble rhs.price then true
  else if asDouble lhs.price = asDouble rhs.price then lhs.offerID < rhs.offerID
  else false

namespace OrderBook

/-- A `multimap` inserts behind what is equivalent. -/
def insert (book : OrderBook) (descriptor : OfferDescriptor) (key : OfferKey) : OrderBook :=
  book.takeWhile (fun x => !isBetterOffer asDouble descriptor x.1) ++
    (descriptor, key) :: book.dropWhile fun x => !isBetterOffer asDouble descriptor x.1

/-- Erase what `find` finds: the first that is equivalent. -/
def erase (book : OrderBook) (descriptor : OfferDescriptor) : OrderBook :=
  book.eraseP fun x => !isBetterOffer asDouble x.1 descriptor && !isBetterOffer asDouble descriptor x.1

def upperBound (book : OrderBook) (worseThan : OfferDescriptor) : OrderBook :=
  book.dropWhile fun x => !isBetterOffer asDouble worseThan x.1

end OrderBook

abbrev MultiOrderBook := Table AssetPair OrderBook

/-- Take the old listing off the books and put the new one on them. -/
def MultiOrderBook.relist (books : MultiOrderBook) (old new : Option Listing) : MultiOrderBook :=
  let books := match old with
    | none => books
    | some x => match books.lookup x.assets with
      | none => books
      | some book => AList.insert x.assets (OrderBook.erase asDouble book x.descriptor) books
  match new with
  | none => books
  | some x =>
    AList.insert x.assets (OrderBook.insert asDouble ((books.lookup x.assets).getD []) x.descriptor x.key) books

end

/-! ### Levels -/

inductive LedgerTxnConsistency where
  | exact
  | extraDeletes
deriving DecidableEq

def joinConsistencyLevels : LedgerTxnConsistency → LedgerTxnConsistency → LedgerTxnConsistency
  | .exact, c => c
  | .extraDeletes, _ => .extraDeletes

/-- A handle on an entry: one through which it may be changed, or not. -/
inductive Handle where
  | entry
  | constEntry
deriving DecidableEq

/-- `LedgerTxn::Impl`. -/
structure Level where
  mHeader : LedgerHeader
  mShouldUpdateLastModified : Bool
  mEntry : EntryMap := ∅
  mActive : Table GeneralizedLedgerKey Handle := ∅
  mActiveHeader : Bool := false
  mIsSealed : Bool := false
  mConsistency : LedgerTxnConsistency := .exact
  mMultiOrderBook : MultiOrderBook := ∅
  mWorstBestOffer : Table AssetPair (Option OfferDescriptor) := ∅

namespace Level

def throwIfSealed (l : Level) : Except Fault Unit :=
  if l.mIsSealed then throw (.runtimeError "LedgerTxn is sealed") else pure ()

def throwIfNotExactConsistency (l : Level) : Except Fault Unit :=
  if l.mConsistency = .exact then pure () else throw (.runtimeError "LedgerTxn consistency level is not exact")

section
variable (asDouble : Price → ℚ)

/-- The last of the three `updateEntry`. An offer without a handle is on the books. -/
def updateEntryErasing (l : Level) (k : GeneralizedLedgerKey) (e : Option (GeneralizedLedgerEntry k))
    (effectiveActive eraseIfNull : Bool) : Level :=
  { l with
    mEntry := if eraseIfNull then l.mEntry.erase k else l.mEntry.insert k e
    mMultiOrderBook := l.mMultiOrderBook.relist asDouble ((l.mEntry.lookup k).join.bind (listing k))
      (if effectiveActive then none else e.bind (listing k)) }

variable (parent : View)

def updateEntryActive (l : Level) (k : GeneralizedLedgerKey) (e : Option (GeneralizedLedgerEntry k))
    (effectiveActive : Bool) : Level :=
  l.updateEntryErasing asDouble k e effectiveActive (e.isNone && (parent k).isNone)

def updateEntry (l : Level) (k : GeneralizedLedgerKey) (e : Option (GeneralizedLedgerEntry k)) : Level :=
  l.updateEntryActive asDouble parent k e (l.mActive.lookup k).isSome

/-- A key that was loaded without record may not be recorded. -/
def updateEntryIfRecorded (l : Level) (k : GeneralizedLedgerKey) (effectiveActive : Bool) : Level :=
  match l.mEntry.lookup k with
  | none => l
  | some e => l.updateEntryActive asDouble parent k e effectiveActive

def getNewestVersion (l : Level) (k : GeneralizedLedgerKey) : Option (GeneralizedLedgerEntry k) :=
  l.mEntry.onto parent k

/-! ### Entries and their handles -/

def create (l : Level) (k : GeneralizedLedgerKey) (entry : GeneralizedLedgerEntry k) : Except Fault Level := do
  l.throwIfSealed
  if (l.getNewestVersion parent k).isSome then throw (.runtimeError "Key already exists")
  else
    let l := { l with mActive := l.mActive.insert k .entry }
    pure (l.updateEntry asDouble parent k (some entry))

def createOrUpdateWithoutLoading (l : Level) (k : GeneralizedLedgerKey) (entry : GeneralizedLedgerEntry k) :
    Except Fault Level := do
  l.throwIfSealed
  if (l.mActive.lookup k).isSome then throw (.runtimeError "Key is already active")
  else pure (l.updateEntry asDouble parent k (some entry))

def deactivate (l : Level) (k : GeneralizedLedgerKey) : Except Fault Level :=
  if (l.mActive.lookup k).isNone then throw (.runtimeError "Key is not active")
  else
    let l := l.updateEntryIfRecorded asDouble parent k false
    pure { l with mActive := l.mActive.erase k }

def erase (l : Level) (k : GeneralizedLedgerKey) : Except Fault Level := do
  l.throwIfSealed
  if (l.getNewestVersion parent k).isNone then throw (.runtimeError "Key does not exist")
  else
    let l := l.updateEntryActive asDouble parent k none false
    pure { l with mActive := l.mActive.erase k }

/-- The key may not exist; its deletion is recorded in any case. -/
def eraseWithoutLoading (l : Level) (k : GeneralizedLedgerKey) : Except Fault Level := do
  l.throwIfSealed
  let l := l.updateEntryErasing asDouble k none false false
  pure { l with mActive := l.mActive.erase k, mConsistency := .extraDeletes }

def load (l : Level) (k : GeneralizedLedgerKey) : Except Fault (Option (GeneralizedLedgerEntry k) × Level) := do
  l.throwIfSealed
  if (l.mActive.lookup k).isSome then throw (.runtimeError "Key is active")
  else match l.getNewestVersion parent k with
    | none => pure (none, l)
    | some newest =>
      let l := { l with mActive := l.mActive.insert k .entry }
      pure (some newest, l.updateEntry asDouble parent k (some newest))

def loadWithoutRecord (l : Level) (k : GeneralizedLedgerKey) :
    Except Fault (Option (GeneralizedLedgerEntry k) × Level) := do
  l.throwIfSealed
  if (l.mActive.lookup k).isSome then throw (.runtimeError "Key is active")
  else match l.getNewestVersion parent k with
    | none => pure (none, l)
    | some newest =>
      let l := { l with mActive := l.mActive.insert k .constEntry }
      pure (some newest, l.updateEntryIfRecorded asDouble parent k true)

/-- Change the entry through its handle, which refers to what is recorded. -/
def modify (l : Level) (k : GeneralizedLedgerKey) (entry : GeneralizedLedgerEntry k) : Except Fault Level :=
  if l.mActive.lookup k = some .entry then pure { l with mEntry := l.mEntry.insert k (some entry) }
  else throw (.runtimeError "LedgerTxnEntry not active")

/-! ### The header -/

def loadHeader (l : Level) : Except Fault Level := do
  l.throwIfSealed
  if l.mActiveHeader then throw (.runtimeError "LedgerTxnHeader is active")
  else pure { l with mActiveHeader := true }

def modifyHeader (l : Level) (header : LedgerHeader) : Except Fault Level :=
  if l.mActiveHeader then pure { l with mHeader := header } else throw (.runtimeError "LedgerTxnHeader not active")

def deactivateHeader (l : Level) : Except Fault Level :=
  if l.mActiveHeader then pure { l with mActiveHeader := false }
  else throw (.runtimeError "LedgerTxnHeader is not active")

/-! ### Children -/

def addChild (l : Level) : Except Fault Level := do
  l.throwIfSealed
  let l := l.mActive.keys.foldl (fun l k => l.updateEntryIfRecorded asDouble parent k false) l
  pure { l with mActive := ∅, mActiveHeader := false }

def maybeUpdateLastModified (l : Level) : EntryMap :=
  if l.mShouldUpdateLastModified then l.mEntry.mapValues (updateLastModified l.mHeader.ledgerSeq) else l.mEntry

/-- What `maybeUpdateLastModifiedThenInvokeThenSeal` leaves; a sealed level stays as it is. -/
def sealed (l : Level) : Level :=
  if l.mIsSealed then l
  else { l with
    mEntry := l.maybeUpdateLastModified
    mMultiOrderBook := ∅
    mActive := ∅
    mActiveHeader := false
    mIsSealed := true }

def isWorseThan (lhs rhs : Option OfferDescriptor) : Bool :=
  match rhs with
  | none => false
  | some rhs => match lhs with
    | none => true
    | some lhs => isBetterOffer asDouble rhs lhs

def updateWorstBestOffer (l : Level) (assets : AssetPair) (offerDesc : Option OfferDescriptor) : Level :=
  match l.mWorstBestOffer.lookup assets with
  | none => { l with mWorstBestOffer := l.mWorstBestOffer.insert assets offerDesc }
  | some worst =>
    if isWorseThan asDouble offerDesc worst then
      { l with mWorstBestOffer := l.mWorstBestOffer.insert assets offerDesc }
    else l

def commitChild (l : Level) (child : Level) : Level :=
  let l := { l with mConsistency := joinConsistencyLevels l.mConsistency child.mConsistency }
  let l := child.mEntry.entries.foldl (fun l e => l.updateEntry asDouble parent e.1 e.2) l
  let l := child.mWorstBestOffer.entries.foldl (fun l e => l.updateWorstBestOffer asDouble e.1 e.2) l
  { l with mHeader := child.mHeader }

end

end Level

/-! ### The root -/

structure Root where
  mHeader : LedgerHeader
  database : AList EntryOf

namespace Root

def getNewestVersion (root : Root) : View
  | .ledgerKey key => root.database.lookup key
  | .sponsorship _ => none
  | .sponsorshipCounter _ => none

/-- Write or delete a row. Deleting one that is not there is an error, unless deletions may be extra. -/
def applyEntry (consistency : LedgerTxnConsistency) (database : AList EntryOf) :
    (Sigma fun k => Option (GeneralizedLedgerEntry k)) → Except Fault (AList EntryOf)
  | ⟨.ledgerKey key, some e⟩ => pure (database.insert key e)
  | ⟨.ledgerKey key, none⟩ =>
    if (database.lookup key).isNone ∧ consistency = .exact then throw (.runtimeError "Could not update data in SQL")
    else pure (database.erase key)
  | ⟨.sponsorship _, _⟩ => pure database
  | ⟨.sponsorshipCounter _, _⟩ => pure database

def commitChild (root : Root) (child : Level) : Except Fault Root := do
  let database ← child.mEntry.entries.foldlM (applyEntry child.mConsistency) root.database
  pure { mHeader := child.mHeader, database := database }

/-- The offers of a pair that are worse than a bound. -/
def offersOf (asDouble : Price → ℚ) (root : Root) (assets : AssetPair) (worseThan : Option OfferDescriptor) :
    List (Sigma OfferOf) :=
  root.database.entries.filterMap fun
    | ⟨.offer sellerID offerID, e⟩ =>
      let x := listingOfOffer ⟨sellerID, offerID⟩ e
      if x.assets = assets ∧ worseThan.all (fun d => isBetterOffer asDouble d x.descriptor) = true then
        some ⟨⟨sellerID, offerID⟩, e⟩
      else none
    | _ => none

end Root

/-! ### The stack -/

/-- The levels over a root, the innermost first. -/
structure Stack where
  root : Root
  levels : List Level := []

/-- What is visible at the innermost of the levels. -/
def getNewestVersion (root : Root) : List Level → View
  | [] => root.getNewestVersion
  | l :: rest => l.mEntry.onto (getNewestVersion root rest)

def Stack.view (s : Stack) : View := getNewestVersion s.root s.levels

end Diamnet.Nested
