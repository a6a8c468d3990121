import Diamnet.Ledger.LedgerTxn

/-! What two offers exchange (`OfferExchange.cpp`, `numeric.cpp`).

An offer sells wheat for sheep; whoever crosses it sends sheep and receives wheat. The
functions here compute the amounts from the price and the limits of the two sides.
Products are at most 126 bits, so 128-bit arithmetic is exact; a quotient may not fit
in 64 bits. -/
namespace Diamnet.Transactions
open Ledger

/-! ### 128-bit arithmetic -/

inductive Rounding where
  | roundDown
  | roundUp
deriving DecidableEq

def bigMultiply (a b : Int) : Except Fault Int := if a ≥ 0 ∧ b ≥ 0 then pure (a * b) else throw .assertion

/-- `bigDivide` of a 128-bit dividend: nothing if the quotient does not fit. -/
def bigDivide128? (a B : Int) (rounding : Rounding) : Except Fault (Option Int) :=
  if B > 0 then
    let x := match rounding with
      | .roundDown => a / B
      | .roundUp => (a + B - 1) / B
    pure (if x ≤ INT64_MAX then some x else none)
  else throw .assertion

/-- `bigDivide`: A*B/C, or nothing if it does not fit. -/
def bigDivide? (A B C : Int) (rounding : Rounding) : Except Fault (Option Int) :=
  if A ≥ 0 ∧ B ≥ 0 then bigDivide128? (A * B) C rounding else throw .assertion

def orOverflow (x : Except Fault (Option Int)) : Except Fault Int := do
  match ← x with
  | some res => pure res
  | none => throw (.runtimeError "overflow while performing bigDivide")

def bigDivide128 (a B : Int) (rounding : Rounding) : Except Fault Int := orOverflow (bigDivide128? a B rounding)

def bigDivide (A B C : Int) (rounding : Rounding) : Except Fault Int := orOverflow (bigDivide? A B C rounding)

/-! ### Before version 10 -/

inductive ExchangeResultType where
  | normal
  | reducedToZero
  | bogus
deriving DecidableEq

structure ExchangeResult where
  numWheatReceived : Int
  numSheepSend : Int
  reduced : Bool
deriving DecidableEq

def ExchangeResult.type (r : ExchangeResult) : ExchangeResultType :=
  if r.numWheatReceived ≠ 0 ∧ r.numSheepSend ≠ 0 then .normal
  else if r.reduced then .reducedToZero else .bogus

def exchangeV2 (wheatReceived : Int) (price : Price) (maxWheatReceive maxSheepSend : Int) :
    Except Fault ExchangeResult := do
  let reduced := decide (wheatReceived > maxWheatReceive)
  let wheatReceived := min wheatReceived maxWheatReceive
  -- this guy can get X wheat to you. How many sheep does that get him?
  let numSheepSend := (← bigDivide? wheatReceived price.n price.d .roundDown).getD INT64_MAX
  let reduced := reduced || decide (numSheepSend > maxSheepSend)
  let numSheepSend := min numSheepSend maxSheepSend
  -- bias towards seller
  let numWheatReceived ← bigDivide numSheepSend price.d price.n .roundDown
  pure ⟨numWheatReceived, numSheepSend, reduced⟩

def exchangeV3 (wheatReceived : Int) (price : Price) (maxWheatReceive maxSheepSend : Int) :
    Except Fault ExchangeResult := do
  let reduced := decide (wheatReceived > maxWheatReceive)
  let numWheatReceived := min wheatReceived maxWheatReceive
  -- bias towards seller
  let sheep? ← bigDivide? numWheatReceived price.n price.d .roundUp
  let numSheepSend := sheep?.getD INT64_MAX
  let reduced := reduced || sheep?.isNone || decide (numSheepSend > maxSheepSend)
  let numSheepSend := min numSheepSend maxSheepSend
  let newWheatReceived := (← bigDivide? numSheepSend price.d price.n .roundDown).getD INT64_MAX
  pure ⟨min numWheatReceived newWheatReceived, numSheepSend, reduced⟩

/-! ### From version 10 -/

inductive RoundingType where
  | normal
  | pathPaymentStrictSend
  | pathPaymentStrictReceive
deriving DecidableEq

structure ExchangeResultV10 where
  numWheatReceived : Int
  numSheepSend : Int
  wheatStays : Bool
deriving DecidableEq

/-- Whether the relative error between the price and the effective price is at most 1%.
With `canFavorWheat` the error that favors the seller of wheat is unbounded. -/
def checkPriceErrorBound (price : Price) (wheatReceive sheepSend : Int) (canFavorWheat : Bool) :
    Except Fault Bool := do
  let lhs ← bigMultiply (100 * price.n) wheatReceive
  let rhs ← bigMultiply (100 * price.d) sheepSend
  if canFavorWheat && decide (rhs > lhs) then pure true
  else do
    let absDiff := if lhs > rhs then lhs - rhs else rhs - lhs
    let cap ← bigMultiply price.n wheatReceive
    pure (decide (absDiff ≤ cap))

def calculateOfferValue (priceN priceD maxSend maxReceive : Int) : Except Fault Int := do
  let sendValue ← bigMultiply maxSend priceN
  let receiveValue ← bigMultiply maxReceive priceD
  pure (min sendValue receiveValue)

/-- The amounts of wheat and sheep when the wheat offer is the larger one. -/
def exchangeWheatStays (price : Price) (sheepValue maxSheepSend maxSheepReceive : Int) (round : RoundingType) :
    Except Fault (Int × Int) :=
  if round = .pathPaymentStrictSend then do
    let wheatReceive ← bigDivide128 sheepValue price.n .roundDown
    pure (wheatReceive, min maxSheepSend maxSheepReceive)
  -- wheat is more valuable
  else if price.n > price.d ∨ round = .pathPaymentStrictReceive then do
    let wheatReceive ← bigDivide128 sheepValue price.n .roundDown
    let sheepSend ← bigDivide wheatReceive price.n price.d .roundUp
    pure (wheatReceive, sheepSend)
  -- sheep is more valuable
  else do
    let sheepSend ← bigDivide128 sheepValue price.d .roundDown
    let wheatReceive ← bigDivide sheepSend price.d price.n .roundDown
    pure (wheatReceive, sheepSend)

/-- The amounts of wheat and sheep when the sheep offer is at least as large. -/
def exchangeSheepStays (price : Price) (wheatValue : Int) : Except Fault (Int × Int) :=
  if price.n > price.d then do
    let wheatReceive ← bigDivide128 wheatValue price.n .roundDown
    let sheepSend ← bigDivide wheatReceive price.n price.d .roundDown
    pure (wheatReceive, sheepSend)
  else do
    let sheepSend ← bigDivide128 wheatValue price.d .roundDown
    let wheatReceive ← bigDivide sheepSend price.d price.n .roundUp
    pure (wheatReceive, sheepSend)

/-- Neither of the exceptions should ever be thrown. -/
def checkBounds (maxWheatSend maxWheatReceive maxSheepSend maxSheepReceive : Int) (wheatStays : Bool)
    (amounts : Int × Int) : Except Fault ExchangeResultV10 :=
  if amounts.1 < 0 ∨ amounts.1 > min maxWheatReceive maxWheatSend then
    throw (.runtimeError "wheatReceive out of bounds")
  else if amounts.2 < 0 ∨ amounts.2 > min maxSheepReceive maxSheepSend then
    throw (.runtimeError "sheepSend out of bounds")
  else pure ⟨amounts.1, amounts.2, wheatStays⟩

def exchangeV10WithoutPriceErrorThresholds (price : Price)
    (maxWheatSend maxWheatReceive maxSheepSend maxSheepReceive : Int) (round : RoundingType) :
    Except Fault ExchangeResultV10 := do
  let wheatValue ← calculateOfferValue price.n price.d maxWheatSend maxSheepReceive
  let sheepValue ← calculateOfferValue price.d price.n maxSheepSend maxWheatReceive
  let wheatStays := decide (wheatValue > sheepValue)
  let amounts ← if wheatStays then exchangeWheatStays price sheepValue maxSheepSend maxSheepReceive round
    else exchangeSheepStays price wheatValue
  checkBounds maxWheatSend maxWheatReceive maxSheepSend maxSheepReceive wheatStays amounts

/-- Both sides trade: who stays is favored, and the price is close enough. -/
def checkTrade (price : Price) (res : ExchangeResultV10) (round : RoundingType) :
    Except Fault ExchangeResultV10 := do
  let wheatReceiveValue ← bigMultiply res.numWheatReceived price.n
  let sheepSendValue ← bigMultiply res.numSheepSend price.d
  if res.wheatStays ∧ sheepSendValue < wheatReceiveValue then
    throw (.runtimeError "favored sheep when wheat stays")
  else if ¬res.wheatStays ∧ sheepSendValue > wheatReceiveValue then
    throw (.runtimeError "favored wheat when sheep stays")
  else if round = .normal then do
    let close ← checkPriceErrorBound price res.numWheatReceived res.numSheepSend false
    -- otherwise, no trade occurs
    pure (if close then res else ⟨0, 0, res.wheatStays⟩)
  else do
    let close ← checkPriceErrorBound price res.numWheatReceived res.numSheepSend true
    if close then pure res else throw (.runtimeError "exceeded price error bound")

def applyPriceErrorThresholds (price : Price) (res : ExchangeResultV10) (round : RoundingType) :
    Except Fault ExchangeResultV10 :=
  if res.numWheatReceived > 0 ∧ res.numSheepSend > 0 then checkTrade price res round
  else if round = .pathPaymentStrictSend then
    if res.numSheepSend = 0 then throw (.runtimeError "invalid amount of sheep sent") else pure res
  else pure ⟨0, 0, res.wheatStays⟩

def exchangeV10 (price : Price) (maxWheatSend maxWheatReceive maxSheepSend maxSheepReceive : Int)
    (round : RoundingType) : Except Fault ExchangeResultV10 := do
  let beforeThresholds ← exchangeV10WithoutPriceErrorThresholds price maxWheatSend maxWheatReceive
    maxSheepSend maxSheepReceive round
  applyPriceErrorThresholds price beforeThresholds round

/-- What is left of an offer that a buyer without limits could take. -/
def adjustOffer (price : Price) (maxWheatSend maxSheepReceive : Int) : Except Fault Int := do
  let res ← exchangeV10 price maxWheatSend INT64_MAX INT64_MAX maxSheepReceive .normal
  pure res.numWheatReceived

/-! ### The liabilities of an offer -/

/-- What an offer would exchange with a buyer without limits, were its seller's the amount only. -/
def exchangeAmount (price : Price) (amount : Int) : Except Fault ExchangeResultV10 :=
  exchangeV10WithoutPriceErrorThresholds price amount INT64_MAX INT64_MAX INT64_MAX .normal

def getOfferBuyingLiabilities (lh : LedgerHeader) (oe : OfferEntry) : Except Fault Int :=
  if lh.ledgerVersion < 10 then throw (.runtimeError "Offer liabilities calculated before version 10")
  else do
    let res ← exchangeAmount oe.price oe.amount
    pure res.numSheepSend

def getOfferSellingLiabilities (lh : LedgerHeader) (oe : OfferEntry) : Except Fault Int :=
  if lh.ledgerVersion < 10 then throw (.runtimeError "Offer liabilities calculated before version 10")
  else do
    let res ← exchangeAmount oe.price oe.amount
    pure res.numWheatReceived

end Diamnet.Transactions
