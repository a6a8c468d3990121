import Diamnet.Transactions.OfferExchange
import Mathlib.Data.List.Sort

/-! Upgrades that touch liabilities (`Upgrades.cpp`).

When version 10 introduces liabilities and when the reserve goes up, `prepareLiabilities` erases
the offers whose account has excess liabilities in one of their assets, adjusts the others and
stores the liabilities of what remains. -/
namespace Diamnet.Herder
open Ledger Transactions

/-- Liabilities by asset; the sums that do not fit in 64 bits are `none`. -/
abbrev InitialLiabilities := Table Asset (Option Int)

/-- Add to the liabilities of an asset, unless the account issues it. -/
def addLiabilities (liabilities : InitialLiabilities) (accountID : AccountID) (asset : Asset) (delta : Int) :
    Except Fault InitialLiabilities :=
  let current := (liabilities.lookup asset).getD (some 0)
  if getIssuer asset = some accountID then pure (liabilities.insert asset current)
  else match current with
    | some sum => do
      let sum' ← addBalance sum delta INT64_MAX
      pure (liabilities.insert asset sum')
    | none => pure (liabilities.insert asset none)

def getAvailableBalanceExcludingLiabilities (accountID : AccountID) (asset : Asset) (balanceAboveReserve : Int) :
    LedgerM Int :=
  if asset = .native then pure balanceAboveReserve
  else if getIssuer asset = some accountID then pure INT64_MAX
  else do
    match ← findTrustLine accountID asset with
    | some tl => pure (if TrustLineEntry.isAuthorizedToMaintainLiabilities tl then tl.balance else 0)
    | none => pure 0

def getAvailableLimitExcludingLiabilities (accountID : AccountID) (asset : Asset) (balance : Int) : LedgerM Int :=
  if asset = .native then checked (int64 (INT64_MAX - balance))
  else if getIssuer asset = some accountID then pure INT64_MAX
  else do
    match ← findTrustLine accountID asset with
    | some tl =>
      if TrustLineEntry.isAuthorizedToMaintainLiabilities tl then checked (int64 (tl.limit - tl.balance)) else pure 0
    | none => pure 0

/-- Offers are deleted if the liabilities exceed 64 bits or what there is for them. -/
def shouldDeleteOffer (asset : Asset) (liabilities : InitialLiabilities) (getCap : LedgerM Int) : LedgerM Bool :=
  match liabilities.lookup asset with
  | none => raise "liabilities were not calculated"
  | some none => pure true
  | some (some sum) => do
    let cap ← getCap
    pure (decide (sum > cap))

inductive UpdateOfferResult where
  | unchanged
  | adjusted
  | adjustedToZero
  | erase
deriving DecidableEq

/-- Add the liabilities of a kept offer in one asset, which must fit. -/
def addKept (liabilities : Table Asset Liabilities) (sellerID : AccountID) (asset : Asset)
    (get : Liabilities → Int) (put : Liabilities → Int → Liabilities) (delta : Except Fault Int) (what : String) :
    LedgerM (Table Asset Liabilities) :=
  if getIssuer asset = some sellerID then pure liabilities
  else do
    let old := (liabilities.lookup asset).getD {}
    let amount ← checked delta
    match ← checked (addBalance (get old) amount INT64_MAX) with
    | some sum => pure (liabilities.insert asset (put old sum))
    | none => raise what

def addOfferLiabilities (lh : LedgerHeader) (sellerID : AccountID) (offer : OfferEntry)
    (liabilities : Table Asset Liabilities) : LedgerM (Table Asset Liabilities) := do
  let liabilities ← addKept liabilities sellerID offer.buying (·.buying) (fun l x => { l with buying := x })
    (getOfferBuyingLiabilities lh offer) "could not add buying liabilities"
  addKept liabilities sellerID offer.selling (·.selling) (fun l x => { l with selling := x })
    (getOfferSellingLiabilities lh offer) "could not add selling liabilities"

/-- What the liabilities of an account were before anything was erased, and what it has for them. -/
structure Before where
  balance : Int
  balanceAboveReserve : Int
  initialBuyingLiabilities : InitialLiabilities
  initialSellingLiabilities : InitialLiabilities

/-- Whether an offer is erased for excess liabilities. -/
def hasExcess (before : Before) (sellerID : AccountID) (offer : OfferEntry) : LedgerM Bool := do
  let excess ← shouldDeleteOffer offer.selling before.initialSellingLiabilities
    (getAvailableBalanceExcludingLiabilities sellerID offer.selling before.balanceAboveReserve)
  if excess then pure true
  else
    shouldDeleteOffer offer.buying before.initialBuyingLiabilities
      (getAvailableLimitExcludingLiabilities sellerID offer.buying before.balance)

/-- What becomes of an offer, and the liabilities with it if it is kept. -/
def updateOffer (before : Before) (key : OfferKey) (offer : OfferEntry) (liabilities : Table Asset Liabilities) :
    LedgerM (UpdateOfferResult × Table Asset Liabilities) := do
  let lh ← getHeader
  let excess ← hasExcess before key.sellerID offer
  if excess then pure (.erase, liabilities)
  else do
    let adjAmount ← checked (adjustOffer offer.price offer.amount INT64_MAX)
    if adjAmount = 0 then pure (.adjustedToZero, liabilities)
    else do
      let kept := { offer with amount := adjAmount }
      storeOffer key kept
      let liabilities' ← addOfferLiabilities lh key.sellerID kept liabilities
      pure (if adjAmount = offer.amount then .unchanged else .adjusted, liabilities')

/-- Update the offers of an account one after another. -/
def updateOffers (before : Before) :
    List (OfferKey × OfferEntry) → Table Asset Liabilities → LedgerM (Table Asset Liabilities)
  | [], liabilities => pure liabilities
  | (key, offer) :: rest, liabilities => do
    let (res, liabilities') ← updateOffer before key offer liabilities
    -- `eraseOfferWithPossibleSponsorship`
    if res = .adjustedToZero ∨ res = .erase then removeOffer key offer else pure ()
    updateOffers before rest liabilities'

/-- The sums of the liabilities of offers, before anything is erased. -/
def sumLiabilities (get : OfferEntry → Except Fault Int) (asset : OfferEntry → Asset) :
    List (OfferKey × OfferEntry) → InitialLiabilities → Except Fault InitialLiabilities
  | [], liabilities => pure liabilities
  | (key, offer) :: rest, liabilities => do
    let delta ← get offer
    let liabilities' ← addLiabilities liabilities key.sellerID (asset offer) delta
    sumLiabilities get asset rest liabilities'

def setAccountLiabilities (accountID : AccountID) (liab : Liabilities) : LedgerM Unit := do
  let acc ← loadAccount accountID
  let deltaSelling ← checked (int64 (liab.selling - acc.liabilities.selling))
  let deltaBuying ← checked (int64 (liab.buying - acc.liabilities.buying))
  must (updateAccount accountID fun lh acc => AccountEntry.addSellingLiabilities lh acc deltaSelling)
    "invalid selling liabilities during upgrade"
  must (updateAccount accountID fun lh acc => AccountEntry.addBuyingLiabilities lh acc deltaBuying)
    "invalid buying liabilities during upgrade"

def setLineLiabilities (accountID : AccountID) (asset : Asset) (liab : Liabilities) : LedgerM Unit := do
  let lh ← getHeader
  let trustEntry ← loadTrustLine accountID asset
  let stored ← trustEntry.read {} fun lh tl => getLiabilities lh tl.liabilities
  let deltaSelling ← checked (int64 (liab.selling - stored.selling))
  let deltaBuying ← checked (int64 (liab.buying - stored.buying))
  -- liabilities only grow when version 10 introduces them
  check (¬(lh.ledgerVersion > 10 ∧ (deltaSelling > 0 ∨ deltaBuying > 0))) "invalid liabilities delta"
  must (trustEntry.addSellingLiabilities deltaSelling) "invalid selling liabilities during upgrade"
  must (trustEntry.addBuyingLiabilities deltaBuying) "invalid buying liabilities during upgrade"

def setLiabilities (accountID : AccountID) (asset : Asset) (liab : Liabilities) : LedgerM Unit :=
  if asset = .native then setAccountLiabilities accountID liab else setLineLiabilities accountID asset liab

/-- Bring the offers and liabilities of one account into a valid state. -/
def prepareAccount (accountID : AccountID) (offers : List (OfferKey × OfferEntry)) (minBalance : Int) :
    LedgerM Unit := do
  let lh ← getHeader
  let initialBuying ← checked (sumLiabilities (getOfferBuyingLiabilities lh) (·.buying) offers ∅)
  let initialSelling ← checked (sumLiabilities (getOfferSellingLiabilities lh) (·.selling) offers ∅)
  let account ← findAccount accountID
  check (account.isSome = true) "account does not exist"
  let acc ← loadAccount accountID
  let balanceAboveReserve ← checked (int64 (acc.balance - minBalance))
  let liabilities ← updateOffers ⟨acc.balance, balanceAboveReserve, initialBuying, initialSelling⟩ offers ∅
  liabilities.entries.forM fun e => setLiabilities accountID e.1 e.2

def offersOf (offers : Table OfferKey OfferEntry) (accountID : AccountID) : List (OfferKey × OfferEntry) :=
  (offers.entries.map fun e => (e.1, e.2)).filter fun e => e.1.sellerID = accountID

def sellers (offers : Table OfferKey OfferEntry) : List AccountID :=
  (offers.keys.map (·.sellerID)).dedup.mergeSort

/-- The minimum balances before any sponsorship changes. -/
def getOfferAccountMinBalances : List AccountID → LedgerM (List (AccountID × Int))
  | [] => pure []
  | accountID :: rest => do
    let lh ← getHeader
    let account ← findAccount accountID
    check (account.isSome = true) "account does not exist"
    let acc ← loadAccount accountID
    let minBalance ← checked (getMinBalance lh acc)
    let balances ← getOfferAccountMinBalances rest
    pure ((accountID, minBalance) :: balances)

def prepareLiabilities : LedgerM Unit := do
  let ltx ← get
  let minBalances ← getOfferAccountMinBalances (sellers ltx.offers)
  minBalances.forM fun e => prepareAccount e.1 (offersOf ltx.offers e.1) e.2

def modifyHeader (f : LedgerHeader → LedgerHeader) : LedgerM Unit :=
  modify fun ltx => { ltx with header := f ltx.header }

def applyVersionUpgrade (newVersion : Nat) : LedgerM Unit := do
  let lh ← getHeader
  modifyHeader fun h => { h with ledgerVersion := newVersion }
  if newVersion ≥ 10 ∧ lh.ledgerVersion < 10 then prepareLiabilities else pure ()

def applyReserveUpgrade (newReserve : Nat) : LedgerM Unit := do
  let lh ← getHeader
  modifyHeader fun h => { h with baseReserve := newReserve }
  if lh.ledgerVersion ≥ 10 ∧ newReserve > lh.baseReserve then prepareLiabilities else pure ()

end Diamnet.Herder
