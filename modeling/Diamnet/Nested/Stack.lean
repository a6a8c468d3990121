import Diamnet.Nested.Levels

/-! Calls on a stack of ledger transactions.

Best offers go down the stack: a level looks at its own books, and asks its parent for offers that
it has not recorded. What a level changed is told as lists of entries (`getAllEntries`), with what
they were before (`getDelta`) or as changes (`getChanges`); each of the three seals the level. -/
namespace Diamnet.Nested
open Ledger

section
variable (asDouble : Price → ℚ)

/-! ### Best offers -/

def descriptorOf (offer : Sigma OfferOf) : OfferDescriptor := (listingOfOffer offer.1 offer.2).descriptor

/-- The best offer the level has on its books, or the best that is worse than a bound. -/
def Level.selfBest (l : Level) (assets : AssetPair) (worseThan : Option OfferDescriptor) :
    Except Fault (Option (Sigma OfferOf)) :=
  let offers := (l.mMultiOrderBook.lookup assets).getD []
  let offers := worseThan.elim offers (OrderBook.upperBound asDouble offers)
  match offers with
  | [] => pure none
  | (_, key) :: _ => match l.mEntry.lookup (offerKey key) with
    | some (some e) => pure (some ⟨key, e⟩)
    | _ => throw (.runtimeError "invalid order book state")

/-- Skip the parent's offers that the level has recorded. No offer of the parent comes up twice, so
one turn more than there are recorded entries is enough. -/
def Level.skipRecorded (l : Level) (selfBest : Option (Sigma OfferOf))
    (next : OfferDescriptor → Except Fault (Option (Sigma OfferOf))) :
    Nat → Option (Sigma OfferOf) → Except Fault (Option (Sigma OfferOf))
  | 0, _ => throw .fuel
  | _ + 1, none => pure selfBest
  | fuel + 1, some parentBest =>
    if selfBest.all (fun best => isBetterOffer asDouble (descriptorOf parentBest) (descriptorOf best)) = true then
      if (l.mEntry.lookup (offerKey parentBest.1)).isNone then pure (some parentBest)
      else do
        let parentBest ← next (descriptorOf parentBest)
        skipRecorded l selfBest next fuel parentBest
    else pure selfBest

def Root.getBestOffer (root : Root) (assets : AssetPair) (worseThan : Option OfferDescriptor) : Option (Sigma OfferOf) :=
  best? (fun a b => isBetterOffer asDouble (descriptorOf a) (descriptorOf b)) (root.offersOf asDouble assets worseThan)

def getBestOffer (root : Root) : List Level → AssetPair → Option OfferDescriptor → Except Fault (Option (Sigma OfferOf))
  | [], assets, worseThan => pure (root.getBestOffer asDouble assets worseThan)
  | l :: rest, assets, worseThan =>
    if l.mActive.keys ≠ [] then throw (.runtimeError "active entries when getting best offer")
    else do
      let selfBest ← l.selfBest asDouble assets worseThan
      let parentBest ← match worseThan, l.mWorstBestOffer.lookup assets with
        | some bound, _ => getBestOffer root rest assets (some bound)
        -- every offer of the parent is recorded
        | none, some none => pure none
        | none, some (some worst) => getBestOffer root rest assets (some worst)
        | none, none => getBestOffer root rest assets none
      l.skipRecorded asDouble selfBest (fun d => getBestOffer root rest assets (some d)) (l.mEntry.entries.length + 1)
        parentBest

/-- Load the best offer and remember that there is no better one in the parent that is not recorded. -/
def loadBestOffer (root : Root) (rest : List Level) (l : Level) (assets : AssetPair) :
    Except Fault (Option (Sigma OfferOf) × Level) := do
  l.throwIfSealed
  match ← getBestOffer asDouble root (l :: rest) assets none with
  | none => pure (none, l.updateWorstBestOffer asDouble assets none)
  | some le =>
    let (e, l) ← l.load asDouble (getNewestVersion root rest) (offerKey le.1)
    pure (e.map fun e => ⟨le.1, e⟩, l.updateWorstBestOffer asDouble assets (some (descriptorOf le)))

/-! ### Calls -/

/-- What only concerns the innermost level. -/
inductive LevelCall where
  | create (k : GeneralizedLedgerKey) (entry : GeneralizedLedgerEntry k)
  | createOrUpdateWithoutLoading (k : GeneralizedLedgerKey) (entry : GeneralizedLedgerEntry k)
  | load (k : GeneralizedLedgerKey)
  | loadWithoutRecord (k : GeneralizedLedgerKey)
  | modify (k : GeneralizedLedgerKey) (entry : GeneralizedLedgerEntry k)
  | deactivate (k : GeneralizedLedgerKey)
  | erase (k : GeneralizedLedgerKey)
  | eraseWithoutLoading (k : GeneralizedLedgerKey)
  | loadHeader
  | modifyHeader (header : LedgerHeader)
  | deactivateHeader
  | getBestOffer (assets : AssetPair) (worseThan : Option OfferDescriptor)
  | loadBestOffer (assets : AssetPair)

inductive Call where
  | onLevel (call : LevelCall)
  /-- A new level, which updates sequence numbers or not. -/
  | openChild (shouldUpdateLastModified : Bool)
  | commit
  | rollback

inductive Result where
  | done
  | entry (k : GeneralizedLedgerKey) (e : Option (GeneralizedLedgerEntry k))
  | offer (offer : Option (Sigma OfferOf))

def Level.call (root : Root) (rest : List Level) (l : Level) : LevelCall → Except Fault (Result × Level)
  | .create k e => do return (.done, ← l.create asDouble (Nested.getNewestVersion root rest) k e)
  | .createOrUpdateWithoutLoading k e => do
    return (.done, ← l.createOrUpdateWithoutLoading asDouble (Nested.getNewestVersion root rest) k e)
  | .load k => do
    let (e, l) ← l.load asDouble (Nested.getNewestVersion root rest) k
    pure (.entry k e, l)
  | .loadWithoutRecord k => do
    let (e, l) ← l.loadWithoutRecord asDouble (Nested.getNewestVersion root rest) k
    pure (.entry k e, l)
  | .modify k e => do return (.done, ← l.modify k e)
  | .deactivate k => do return (.done, ← l.deactivate asDouble (Nested.getNewestVersion root rest) k)
  | .erase k => do return (.done, ← l.erase asDouble (Nested.getNewestVersion root rest) k)
  | .eraseWithoutLoading k => do return (.done, ← l.eraseWithoutLoading asDouble k)
  | .loadHeader => do return (.done, ← l.loadHeader)
  | .modifyHeader header => do return (.done, ← l.modifyHeader header)
  | .deactivateHeader => do return (.done, ← l.deactivateHeader)
  | .getBestOffer assets worseThan => do return (.offer (← getBestOffer asDouble root (l :: rest) assets worseThan), l)
  | .loadBestOffer assets => do
    let (offer, l) ← Nested.loadBestOffer asDouble root rest l assets
    pure (.offer offer, l)

def Stack.openChild (s : Stack) (shouldUpdateLastModified : Bool) : Except Fault Stack :=
  match s.levels with
  | [] => pure { s with levels := [{ mHeader := s.root.mHeader, mShouldUpdateLastModified := shouldUpdateLastModified }] }
  | l :: rest => do
    let l ← l.addChild asDouble (getNewestVersion s.root rest)
    pure { s with
      levels := { mHeader := l.mHeader, mShouldUpdateLastModified := shouldUpdateLastModified } :: l :: rest }

def Stack.commit (s : Stack) : Except Fault Stack :=
  match s.levels with
  | [] => throw (.runtimeError "LedgerTxnEntry was handled")
  | [l] => do
    let root ← s.root.commitChild l.sealed
    pure { root := root, levels := [] }
  | l :: parent :: rest =>
    pure { s with levels := parent.commitChild asDouble (getNewestVersion s.root rest) l.sealed :: rest }

def Stack.rollback (s : Stack) : Except Fault Stack :=
  match s.levels with
  | [] => throw (.runtimeError "LedgerTxnEntry was handled")
  | _ :: rest => pure { s with levels := rest }

def Stack.call (s : Stack) (call : LevelCall) : Except Fault (Result × Stack) :=
  match s.levels with
  | [] => throw (.runtimeError "LedgerTxnEntry was handled")
  | l :: rest => do
    let (result, l) ← l.call asDouble s.root rest call
    pure (result, { s with levels := l :: rest })

def Stack.step (s : Stack) : Call → Except Fault (Result × Stack)
  | .onLevel call => s.call asDouble call
  | .openChild shouldUpdateLastModified => do return (.done, ← s.openChild asDouble shouldUpdateLastModified)
  | .commit => do return (.done, ← s.commit asDouble)
  | .rollback => do return (.done, ← s.rollback)

/-- Calls one after another, none of which throws. -/
def Stack.run (s : Stack) : List Call → Except Fault (List Result × Stack)
  | [] => pure ([], s)
  | call :: calls => do
    let (result, s) ← s.step asDouble call
    let (results, s) ← s.run calls
    pure (result :: results, s)

end

/-! ### What a level changed -/

structure AllEntries where
  initEntries : List (Sigma EntryOf)
  liveEntries : List (Sigma EntryOf)
  deadEntries : List LedgerKey

inductive LedgerEntryChange where
  | state (e : Sigma EntryOf)
  | updated (e : Sigma EntryOf)
  | removed (key : LedgerKey)
  | created (e : Sigma EntryOf)

structure LedgerTxnDelta where
  entry : List (Sigma fun k => Option (GeneralizedLedgerEntry k) × Option (GeneralizedLedgerEntry k))
  header : LedgerHeader × LedgerHeader

/-- An entry, and what it was. -/
abbrev Recorded := Sigma fun key : LedgerKey => Option (EntryOf key) × Option (EntryOf key)

def classify (entries : List Recorded) : AllEntries where
  initEntries := entries.filterMap fun
    | ⟨key, some e, none⟩ => some ⟨key, e⟩
    | _ => none
  liveEntries := entries.filterMap fun
    | ⟨key, some e, some _⟩ => some ⟨key, e⟩
    | _ => none
  deadEntries := entries.filterMap fun
    | ⟨key, none, _⟩ => some key
    | _ => none

namespace Level

/-- The entries that were recorded, with those of the parent. Sponsorships are no ledger entries. -/
def recorded (l : Level) (parent : View) : List Recorded :=
  l.mEntry.entries.filterMap fun
    | ⟨.ledgerKey key, e⟩ => some ⟨key, e, parent (.ledgerKey key)⟩
    | _ => none

def getAllEntries (l : Level) (parent : View) : AllEntries × Level :=
  let l := l.sealed
  (classify (l.recorded parent), l)

def getDelta (l : Level) (parent : View) (parentHeader : LedgerHeader) : Except Fault (LedgerTxnDelta × Level) := do
  l.throwIfNotExactConsistency
  let l := l.sealed
  pure ({ entry := l.mEntry.entries.map fun e => ⟨e.1, e.2, parent e.1⟩, header := (l.mHeader, parentHeader) }, l)

/-- The changes of one entry. Nothing is recorded of an entry that was created and erased again. -/
def changesOf : Recorded → Except Fault (List LedgerEntryChange)
  | ⟨key, some e, some previous⟩ => pure [.state ⟨key, previous⟩, .updated ⟨key, e⟩]
  | ⟨key, none, some previous⟩ => pure [.state ⟨key, previous⟩, .removed key]
  | ⟨key, some e, none⟩ => pure [.created ⟨key, e⟩]
  | ⟨_, none, none⟩ => throw .assertion

def getChanges (l : Level) (parent : View) : Except Fault (List LedgerEntryChange × Level) := do
  l.throwIfNotExactConsistency
  let l := l.sealed
  let changes ← (l.recorded parent).mapM changesOf
  pure (changes.flatten, l)

end Level

end Diamnet.Nested
