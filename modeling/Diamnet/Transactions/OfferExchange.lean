import Diamnet.Transactions.SponsorshipUtils
import Mathlib.Data.Rat.Defs

/-! Crossing offers (`OfferExchange.cpp`).

`convertWithOffers` takes the best offers that sell wheat for sheep one after another until
it has what it needs. The crossing of one offer depends on the protocol: from version 10 the
offer's liabilities are released before and what remains of it acquires its own after. -/
namespace Diamnet.Transactions
open Ledger

/-! ### Limits of a seller -/

def atLeastZero (x : LedgerM Int) : LedgerM Int := do
  let a ← x
  pure (max a 0)

def availableAccountBalance (id : AccountID) : LedgerM Int := do
  let lh ← getHeader
  let acc ← loadAccount id
  checked (AccountEntry.getAvailableBalance lh acc)

def maxAccountReceive (id : AccountID) : LedgerM Int := do
  let lh ← getHeader
  let acc ← loadAccount id
  checked (AccountEntry.getMaxAmountReceive lh acc)

def canSellAtMostBasedOnSheep (sheep : Asset) (sheepLine : TrustLineWrapper) (wheatPrice : Price) : LedgerM Int :=
  if sheep = .native then pure INT64_MAX
  else do
    let sellerMaxSheep ← if sheepLine.isActive then sheepLine.getMaxAmountReceive else pure 0
    let wheatAmount ← checked (bigDivide? sellerMaxSheep wheatPrice.d wheatPrice.n .roundDown)
    pure (wheatAmount.getD INT64_MAX)

def canSellAtMost (id : AccountID) (asset : Asset) (trustLine : TrustLineWrapper) : LedgerM Int :=
  if asset = .native then atLeastZero (availableAccountBalance id)
  else if trustLine.isActive then do
    if ← trustLine.isAuthorizedToMaintainLiabilities then atLeastZero trustLine.getAvailableBalance
    else pure 0
  else pure 0

def canBuyAtMost (id : AccountID) (asset : Asset) (trustLine : TrustLineWrapper) : LedgerM Int :=
  if asset = .native then atLeastZero (maxAccountReceive id)
  else if trustLine.isActive then atLeastZero trustLine.getMaxAmountReceive
  else pure 0

def offerLimits (id : AccountID) (amount : Int) (wheat : Asset) (wheatLine : TrustLineWrapper) (sheep : Asset)
    (sheepLine : TrustLineWrapper) : LedgerM (Int × Int) := do
  let sell ← canSellAtMost id wheat wheatLine
  let buy ← canBuyAtMost id sheep sheepLine
  pure (min amount sell, buy)

/-- `adjustOffer` of an offer entry: the amount it is left with. -/
def adjustedAmount (id : AccountID) (offer : OfferEntry) (wheatLine sheepLine : TrustLineWrapper) : LedgerM Int := do
  let (maxWheatSend, maxSheepReceive) ← offerLimits id offer.amount offer.selling wheatLine offer.buying sheepLine
  checked (adjustOffer offer.price maxWheatSend maxSheepReceive)

def addHolding (id : AccountID) (asset : Asset) (line : TrustLineWrapper) (delta : Int) : LedgerM Bool :=
  if asset = .native then addAccountBalance id delta else line.addBalance delta

/-! ### Crossing one offer -/

inductive CrossOfferResult where
  | eOfferPartial
  | eOfferTaken
  | eOfferCantConvert
deriving DecidableEq

/-- One crossed offer. -/
structure ClaimOfferAtom where
  sellerID : AccountID
  offerID : Int
  assetSold : Asset
  amountSold : Int
  assetBought : Asset
  amountBought : Int
deriving DecidableEq

structure Crossing where
  result : CrossOfferResult
  numWheatReceived : Int
  numSheepSend : Int
  wheatStays : Bool
deriving DecidableEq

/-- `performExchange`: the amounts exchanged and the offer's new amount. -/
def performExchange (id : AccountID) (offer : OfferEntry) (wheatLine sheepLine : TrustLineWrapper)
    (maxWheatReceived maxSheepSend : Int) : LedgerM (ExchangeResult × Int) := do
  let lh ← getHeader
  let basedOnSheep ← canSellAtMostBasedOnSheep offer.buying sheepLine offer.price
  let sellAtMost ← canSellAtMost id offer.selling wheatLine
  let numWheatReceived := min basedOnSheep (min sellAtMost offer.amount)
  assert (numWheatReceived ≥ 0)
  let res ← checked (if lh.ledgerVersion < 3 then
      exchangeV2 numWheatReceived offer.price maxWheatReceived maxSheepSend
    else exchangeV3 numWheatReceived offer.price maxWheatReceived maxSheepSend)
  match res.type with
  | .reducedToZero => pure (res, offer.amount)
  | .bogus => pure ({ res with numWheatReceived := 0, numSheepSend := 0 }, 0)
  | .normal =>
    pure (res, if offer.amount ≤ res.numWheatReceived then 0 else numWheatReceived - res.numWheatReceived)

def removeOffer (key : OfferKey) (offer : OfferEntry) : LedgerM Unit := do
  removeEntryWithPossibleSponsorship (.offer offer) key.sellerID []
  eraseOffer key

/-- Move `delta` of the asset unless it is zero; false if it does not fit. -/
def moveIfAny (id : AccountID) (asset : Asset) (delta : Int) : LedgerM Bool :=
  if delta = 0 then pure true
  else do
    let line ← loadTrustLineIfNotNative id asset
    addHolding id asset line delta

/-- `crossOffer`, before version 10. If it cannot convert, the caller drops what it changed. -/
def crossOffer (key : OfferKey) (offer : OfferEntry) (maxWheatReceived maxSheepSend : Int) : LedgerM Crossing := do
  assert (maxWheatReceived > 0)
  assert (maxSheepSend > 0)
  let accountB ← findAccount key.sellerID
  check (accountB.isSome = true) "invalid database state: offer must have matching account"
  let sheepLine ← loadTrustLineIfNotNative key.sellerID offer.buying
  let wheatLine ← loadTrustLineIfNotNative key.sellerID offer.selling
  let (res, newAmount) ← performExchange key.sellerID offer wheatLine sheepLine maxWheatReceived maxSheepSend
  if res.type = .reducedToZero then
    pure ⟨.eOfferCantConvert, res.numWheatReceived, res.numSheepSend, false⟩
  else do
    if newAmount = 0 then removeOffer key offer else storeOffer key { offer with amount := newAmount }
    if ← moveIfAny key.sellerID offer.buying res.numSheepSend then
      if ← moveIfAny key.sellerID offer.selling (-res.numWheatReceived) then
        pure ⟨if newAmount = 0 then .eOfferTaken else .eOfferPartial, res.numWheatReceived, res.numSheepSend, false⟩
      else pure ⟨.eOfferCantConvert, res.numWheatReceived, res.numSheepSend, false⟩
    else pure ⟨.eOfferCantConvert, res.numWheatReceived, res.numSheepSend, false⟩

/-- Move `delta` of the asset unless it is zero, which must work. -/
def mustMove (id : AccountID) (asset : Asset) (line : TrustLineWrapper) (delta : Int) (what : String) : LedgerM Unit :=
  if delta = 0 then pure () else must (addHolding id asset line delta) what

/-- What is left of the offer: nothing, or an amount that acquires its liabilities. -/
def settleOffer (key : OfferKey) (offer : OfferEntry) (amount : Int) : LedgerM CrossOfferResult :=
  if amount = 0 then do
    removeOffer key { offer with amount := 0 }
    pure .eOfferTaken
  else do
    storeOffer key { offer with amount := amount }
    acquireLiabilities key.sellerID { offer with amount := amount }
    pure .eOfferPartial

/-- The amount an offer is left with after a crossing. -/
def remainingAmount (key : OfferKey) (offer : OfferEntry) (wheatLine sheepLine : TrustLineWrapper)
    (res : ExchangeResultV10) : LedgerM Int :=
  if res.wheatStays then
    adjustedAmount key.sellerID { offer with amount := offer.amount - res.numWheatReceived } wheatLine sheepLine
  else pure 0

/-- What an offer exchanges with a buyer, once its liabilities are released and it is adjusted. -/
def exchangeWithOffer (key : OfferKey) (offer : OfferEntry) (wheatLine sheepLine : TrustLineWrapper)
    (maxWheatReceived maxSheepSend : Int) (round : RoundingType) : LedgerM ExchangeResultV10 := do
  let (maxWheatSend, maxSheepReceive) ←
    offerLimits key.sellerID offer.amount offer.selling wheatLine offer.buying sheepLine
  checked (exchangeV10 offer.price maxWheatSend maxWheatReceived maxSheepSend maxSheepReceive round)

def crossOfferV10 (key : OfferKey) (offer : OfferEntry) (maxWheatReceived maxSheepSend : Int)
    (round : RoundingType) : LedgerM Crossing := do
  assert (maxWheatReceived > 0)
  assert (maxSheepSend > 0)
  let accountB ← findAccount key.sellerID
  check (accountB.isSome = true) "invalid database state: offer must have matching account"
  releaseLiabilities key.sellerID offer
  let sheepLine ← loadTrustLineIfNotNative key.sellerID offer.buying
  let wheatLine ← loadTrustLineIfNotNative key.sellerID offer.selling
  let amount ← adjustedAmount key.sellerID offer wheatLine sheepLine
  let adjusted := { offer with amount := amount }
  let res ← exchangeWithOffer key adjusted wheatLine sheepLine maxWheatReceived maxSheepSend round
  mustMove key.sellerID offer.buying sheepLine res.numSheepSend "overflowed sheep balance"
  mustMove key.sellerID offer.selling wheatLine (-res.numWheatReceived) "overflowed wheat balance"
  let remaining ← remainingAmount key adjusted wheatLine sheepLine res
  let result ← settleOffer key adjusted remaining
  pure ⟨result, res.numWheatReceived, res.numSheepSend, res.wheatStays⟩

/-! ### The order book -/

/-- Prices are compared as the `double` quotient of their parts. -/
def isBetterOffer (asDouble : Price → ℚ) (lhs rhs : OfferKey × OfferEntry) : Bool :=
  asDouble lhs.2.price < asDouble rhs.2.price ||
    (asDouble lhs.2.price = asDouble rhs.2.price && lhs.1.offerID < rhs.1.offerID)

/-- The best offer that buys and sells the assets. -/
def bestOffer (asDouble : Price → ℚ) (offers : Table OfferKey OfferEntry) (buying selling : Asset) :
    Option (OfferKey × OfferEntry) :=
  best? (isBetterOffer asDouble)
    ((offers.entries.map fun e => (e.1, e.2)).filter fun e => e.2.buying = buying ∧ e.2.selling = selling)

def loadBestOffer (asDouble : Price → ℚ) (buying selling : Asset) : LedgerM (Option (OfferKey × OfferEntry)) := do
  let ltx ← get
  pure (bestOffer asDouble ltx.offers buying selling)

/-- Whether to go on crossing. A filter that stops may set the operation's result. -/
inductive OfferFilterResult where
  | eKeep
  | eStop (result : Option ResultCode)
deriving DecidableEq

inductive ConvertResult where
  | eOK
  | ePartial
  | eFilterStop (result : Option ResultCode)
  | eCrossedTooMany
deriving DecidableEq

/-- What was sent and received, and the offers crossed. -/
structure Conversion where
  sheepSend : Int := 0
  wheatReceived : Int := 0
  offerTrail : List ClaimOfferAtom := []
deriving DecidableEq

def Conversion.cross (c : Conversion) (key : OfferKey) (offer : OfferEntry) (x : Crossing) : Conversion :=
  { sheepSend := c.sheepSend + x.numSheepSend
    wheatReceived := c.wheatReceived + x.numWheatReceived
    offerTrail := c.offerTrail ++
      [⟨key.sellerID, key.offerID, offer.selling, x.numWheatReceived, offer.buying, x.numSheepSend⟩] }

section
variable (asDouble : Price → ℚ) (round : RoundingType) (filter : OfferKey → OfferEntry → OfferFilterResult)
  (sheep wheat : Asset) (maxOffersToCross : Int)

/-- One crossing of the protocol's version, and whether more is needed from its side. -/
def crossBestOffer (key : OfferKey) (offer : OfferEntry) (maxWheatReceive maxSheepSend : Int) : LedgerM Crossing := do
  let lh ← getHeader
  if lh.ledgerVersion ≥ 10 then crossOfferV10 key offer maxWheatReceive maxSheepSend round
  else crossOffer key offer maxWheatReceive maxSheepSend

/-- Run the action, and keep its changes only if `commit` of its value. -/
def nested {α : Type} (x : LedgerM α) (commit : α → Bool) : LedgerM α := do
  let ltx ← get
  let a ← x
  if commit a then pure a
  else do
    set ltx
    pure a

/-- The loop, with `maxSheepSend` and `maxWheatReceive` what is left of the limits. -/
def convertLoop : Nat → Int → Int → Conversion → LedgerM (ConvertResult × Conversion)
  | 0, _, _, _ => throw (.fault .fuel)
  | fuel + 1, maxSheepSend, maxWheatReceive, c => do
    match ← loadBestOffer asDouble sheep wheat with
    | none => do
      let lh ← getHeader
      pure (if lh.ledgerVersion < 10 then .eOK else .ePartial, c)
    | some (key, offer) =>
      match filter key offer with
      | .eStop result => pure (.eFilterStop result, c)
      | .eKeep =>
        -- the limit is compared as an unsigned number
        if (BitVec.ofInt 64 maxOffersToCross).toNat ≤ c.offerTrail.length then pure (.eCrossedTooMany, c)
        else do
          let x ← nested (crossBestOffer round key offer maxWheatReceive maxSheepSend)
            (fun x => x.result ≠ .eOfferCantConvert)
          assert (0 ≤ x.numSheepSend ∧ x.numSheepSend ≤ maxSheepSend)
          assert (0 ≤ x.numWheatReceived ∧ x.numWheatReceived ≤ maxWheatReceive)
          if x.result = .eOfferCantConvert then pure (.ePartial, c)
          else
            let c' := c.cross key offer x
            let sheepLeft := maxSheepSend - x.numSheepSend
            let wheatLeft := maxWheatReceive - x.numWheatReceived
            if ¬(!x.wheatStays ∧ wheatLeft > 0 ∧ sheepLeft > 0) then pure (.eOK, c')
            else if x.result = .eOfferPartial then pure (.ePartial, c')
            else convertLoop fuel sheepLeft wheatLeft c'

/-- The loop crosses each offer at most once, so one more step than there are offers is enough. -/
def convertWithOffers (maxSheepSend maxWheatReceive : Int) : LedgerM (ConvertResult × Conversion) :=
  if maxWheatReceive > 0 ∧ maxSheepSend > 0 then do
    let ltx ← get
    convertLoop asDouble round filter sheep wheat maxOffersToCross (ltx.offers.entries.length + 1) maxSheepSend
      maxWheatReceive {}
  else pure (.eOK, {})

end

end Diamnet.Transactions
