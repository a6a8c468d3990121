import Diamnet.Transactions.Exchange
import Mathlib.Tactic.Linarith

/-! What an offer gives and takes if only its own side limits the exchange.

With `W` of wheat to send and room for `S` of sheep, against a buyer without limits, the
exchange never faults: it gives `wheatFor` and takes `sheepFor`, both within the limits,
monotone in them, and the same again when `wheatFor` is all there is. The liabilities of an
offer and the amount `adjustOffer` leaves are such exchanges. -/
namespace Diamnet.Transactions
open Ledger

/-! ### Division rounded up -/

variable {a c : Int}

theorem ceil_le_iff {b : Int} (hc : 0 < c) : (a + c - 1) / c ≤ b ↔ a ≤ b * c := by
  rw [← Int.lt_add_one_iff, Int.ediv_lt_iff_lt_mul hc, Int.add_mul, Int.one_mul]
  omega

theorem le_ceil_mul (hc : 0 < c) : a ≤ (a + c - 1) / c * c := (ceil_le_iff hc).mp le_rfl

theorem ceil_nonneg (hc : 0 < c) (ha : 0 ≤ a) : 0 ≤ (a + c - 1) / c :=
  Int.ediv_nonneg (by omega) hc.le

/-! ### 128-bit arithmetic without faults -/

theorem bigMultiply_eq {b : Int} (ha : 0 ≤ a) (hb : 0 ≤ b) : bigMultiply a b = .ok (a * b) := by
  rw [bigMultiply, if_pos ⟨ha, hb⟩]
  rfl

variable {B : Int}

theorem bigDivide128_down (hB : 0 < B) (h : a / B ≤ INT64_MAX) : bigDivide128 a B .roundDown = .ok (a / B) := by
  simp only [bigDivide128, orOverflow, bigDivide128?, if_pos (show B > 0 from hB), if_pos h]
  rfl

theorem bigDivide_down {A C : Int} (hA : 0 ≤ A) (hB : 0 ≤ B) (hC : 0 < C) (h : A * B / C ≤ INT64_MAX) :
    bigDivide A B C .roundDown = .ok (A * B / C) := by
  simp only [bigDivide, orOverflow, bigDivide?, bigDivide128?, if_pos (show A ≥ 0 ∧ B ≥ 0 from ⟨hA, hB⟩),
    if_pos (show C > 0 from hC), if_pos h]
  rfl

theorem bigDivide_up {A C : Int} (hA : 0 ≤ A) (hB : 0 ≤ B) (hC : 0 < C) (h : (A * B + C - 1) / C ≤ INT64_MAX) :
    bigDivide A B C .roundUp = .ok ((A * B + C - 1) / C) := by
  simp only [bigDivide, orOverflow, bigDivide?, bigDivide128?, if_pos (show A ≥ 0 ∧ B ≥ 0 from ⟨hA, hB⟩),
    if_pos (show C > 0 from hC), if_pos h]
  rfl

theorem bigDivide_zero (A B : Int) (r : Rounding) : bigDivide A B 0 r = .error .assertion := by
  simp only [bigDivide, orOverflow, bigDivide?, bigDivide128?]
  split <;> rfl

/-! ### The exchange -/

theorem exchangeSheepStays_zero {p : Price} (hn : 0 ≤ p.n) (hd : 0 ≤ p.d) (hzero : p.n = 0 ∨ p.d = 0) :
    exchangeSheepStays p 0 = .error .assertion := by
  have hfits : ∀ B : Int, (0 : Int) / B ≤ INT64_MAX := by simp [INT64_MAX]
  unfold exchangeSheepStays
  split
  · next hgt =>
    have hd0 : p.d = 0 := by omega
    rw [bigDivide128_down (by omega) (hfits _), hd0, ok_bind, bigDivide_zero]
    rfl
  · next hle =>
    by_cases hd0 : p.d = 0
    · rw [hd0]
      rfl
    · have hn0 : p.n = 0 := by omega
      rw [bigDivide128_down (by omega) (hfits _), hn0, ok_bind, bigDivide_zero]
      rfl

/-- A price an offer can have. -/
structure ValidPrice (p : Price) : Prop where
  n_pos : 0 < p.n
  d_pos : 0 < p.d

/-- The value of what is offered: wheat to send or room for sheep, whichever is less. -/
def offerValue (p : Price) (W S : Int) : Int := min (W * p.n) (S * p.d)

def wheatFor (p : Price) (W S : Int) : Int :=
  if p.n > p.d then offerValue p W S / p.n else (offerValue p W S / p.d * p.d + p.n - 1) / p.n

def sheepFor (p : Price) (W S : Int) : Int :=
  if p.n > p.d then offerValue p W S / p.n * p.n / p.d else offerValue p W S / p.d

section
variable {p : Price} {W S : Int}

theorem offerValue_nonneg (hp : ValidPrice p) (hW : 0 ≤ W) (hS : 0 ≤ S) : 0 ≤ offerValue p W S :=
  le_min (mul_nonneg hW hp.n_pos.le) (mul_nonneg hS hp.d_pos.le)

theorem wheatFor_nonneg (hp : ValidPrice p) (hW : 0 ≤ W) (hS : 0 ≤ S) : 0 ≤ wheatFor p W S := by
  have hV := offerValue_nonneg hp hW hS
  unfold wheatFor
  split
  · exact Int.ediv_nonneg hV hp.n_pos.le
  · exact ceil_nonneg hp.n_pos (mul_nonneg (Int.ediv_nonneg hV hp.d_pos.le) hp.d_pos.le)

theorem sheepFor_nonneg (hp : ValidPrice p) (hW : 0 ≤ W) (hS : 0 ≤ S) : 0 ≤ sheepFor p W S := by
  have hV := offerValue_nonneg hp hW hS
  unfold sheepFor
  split
  · exact Int.ediv_nonneg (mul_nonneg (Int.ediv_nonneg hV hp.n_pos.le) hp.n_pos.le) hp.d_pos.le
  · exact Int.ediv_nonneg hV hp.d_pos.le

theorem wheatFor_le (hp : ValidPrice p) : wheatFor p W S ≤ W := by
  have hV : offerValue p W S ≤ W * p.n := min_le_left _ _
  unfold wheatFor
  split
  · exact Int.ediv_le_of_le_mul hp.n_pos hV
  · exact (ceil_le_iff hp.n_pos).mpr ((Int.ediv_mul_le _ hp.d_pos.ne').trans hV)

theorem sheepFor_le (hp : ValidPrice p) : sheepFor p W S ≤ S := by
  have hV : offerValue p W S ≤ S * p.d := min_le_right _ _
  unfold sheepFor
  split
  · exact Int.ediv_le_of_le_mul hp.d_pos ((Int.ediv_mul_le _ hp.n_pos.ne').trans hV)
  · exact Int.ediv_le_of_le_mul hp.d_pos hV

theorem sheepFor_mul_le (hp : ValidPrice p) : sheepFor p W S * p.d ≤ wheatFor p W S * p.n := by
  unfold sheepFor wheatFor
  split
  · exact Int.ediv_mul_le _ hp.d_pos.ne'
  · exact le_ceil_mul hp.n_pos

variable {S' W' : Int}

theorem offerValue_mono (hp : ValidPrice p) (hW : W ≤ W') (hS : S ≤ S') : offerValue p W S ≤ offerValue p W' S' :=
  min_le_min (mul_le_mul_of_nonneg_right hW hp.n_pos.le) (mul_le_mul_of_nonneg_right hS hp.d_pos.le)

theorem wheatFor_mono (hp : ValidPrice p) (hW : W ≤ W') (hS : S ≤ S') : wheatFor p W S ≤ wheatFor p W' S' := by
  have hV := offerValue_mono hp hW hS
  unfold wheatFor
  split
  · exact Int.ediv_le_ediv hp.n_pos hV
  · apply Int.ediv_le_ediv hp.n_pos
    have := mul_le_mul_of_nonneg_right (Int.ediv_le_ediv hp.d_pos hV) hp.d_pos.le
    omega

theorem sheepFor_mono (hp : ValidPrice p) (hW : W ≤ W') (hS : S ≤ S') : sheepFor p W S ≤ sheepFor p W' S' := by
  have hV := offerValue_mono hp hW hS
  unfold sheepFor
  split
  · exact Int.ediv_le_ediv hp.d_pos (mul_le_mul_of_nonneg_right (Int.ediv_le_ediv hp.n_pos hV) hp.n_pos.le)
  · exact Int.ediv_le_ediv hp.d_pos hV

theorem wheatFor_pos_iff (hp : ValidPrice p) (hW : 0 ≤ W) (hS : 0 ≤ S) : 0 < wheatFor p W S ↔ 0 < sheepFor p W S := by
  have hV := offerValue_nonneg hp hW hS
  constructor
  · intro h
    unfold wheatFor at h
    unfold sheepFor
    split at h
    · next hgt =>
      rw [if_pos hgt]
      have hle : 1 * p.d ≤ offerValue p W S / p.n * p.n := by
        have := mul_le_mul_of_nonneg_right (show 1 ≤ offerValue p W S / p.n from h) hp.n_pos.le
        omega
      exact (Int.le_ediv_iff_mul_le hp.d_pos).mpr hle
    · next hgt =>
      rw [if_neg hgt]
      by_contra hzero
      have : offerValue p W S / p.d = 0 := le_antisymm (not_lt.mp hzero) (Int.ediv_nonneg hV hp.d_pos.le)
      rw [this, zero_mul] at h
      have := (ceil_le_iff (a := 0) (b := 0) hp.n_pos).mpr (by simp)
      omega
  · intro h
    have hle := sheepFor_mul_le (W := W) (S := S) hp
    have : 0 < wheatFor p W S * p.n := lt_of_lt_of_le (mul_pos h hp.d_pos) hle
    exact pos_of_mul_pos_left this hp.n_pos.le

theorem exchange_again (hp : ValidPrice p) (hS : S ≤ S') :
    sheepFor p (wheatFor p W S) S' = sheepFor p W S ∧ wheatFor p (wheatFor p W S) S' = wheatFor p W S := by
  have hroom : S * p.d ≤ S' * p.d := mul_le_mul_of_nonneg_right hS hp.d_pos.le
  have hVS : offerValue p W S ≤ S * p.d := min_le_right _ _
  by_cases hgt : p.n > p.d
  · have hw : wheatFor p W S = offerValue p W S / p.n := if_pos hgt
    have hV' : offerValue p (wheatFor p W S) S' = wheatFor p W S * p.n := by
      apply min_eq_left
      rw [hw]
      exact ((Int.ediv_mul_le _ hp.n_pos.ne').trans hVS).trans hroom
    have hdiv : offerValue p (wheatFor p W S) S' / p.n = wheatFor p W S := by
      rw [hV', Int.mul_ediv_cancel _ hp.n_pos.ne']
    constructor
    · rw [sheepFor, if_pos hgt, hdiv, hw, sheepFor, if_pos hgt]
    · rw [wheatFor, if_pos hgt, hdiv]
  · have hw : wheatFor p W S = (offerValue p W S / p.d * p.d + p.n - 1) / p.n := if_neg hgt
    have hs : sheepFor p W S = offerValue p W S / p.d := if_neg hgt
    -- the wheat is worth the sheep and less than one more of it
    have hlow : sheepFor p W S * p.d ≤ offerValue p (wheatFor p W S) S' := by
      apply le_min (sheepFor_mul_le hp)
      rw [hs]
      exact ((Int.ediv_mul_le _ hp.d_pos.ne').trans hVS).trans hroom
    have hhigh : offerValue p (wheatFor p W S) S' < (sheepFor p W S + 1) * p.d := by
      have hmul : wheatFor p W S * p.n ≤ sheepFor p W S * p.d + p.n - 1 := by
        rw [hw, hs]
        exact Int.ediv_mul_le _ hp.n_pos.ne'
      have hle : offerValue p (wheatFor p W S) S' ≤ wheatFor p W S * p.n := min_le_left _ _
      rw [Int.add_mul]
      omega
    have hdiv : offerValue p (wheatFor p W S) S' / p.d = sheepFor p W S := by
      apply le_antisymm
      · exact Int.lt_add_one_iff.mp ((Int.ediv_lt_iff_lt_mul hp.d_pos).mpr hhigh)
      · exact (Int.le_ediv_iff_mul_le hp.d_pos).mpr hlow
    constructor
    · rw [sheepFor, if_neg hgt, hdiv]
    · rw [wheatFor, if_neg hgt, hdiv, hw, hs]

theorem exchangeSheepStays_eq (hp : ValidPrice p) (hW : 0 ≤ W) (hWm : W ≤ INT64_MAX) (hS : 0 ≤ S) (hSm : S ≤ INT64_MAX) :
    exchangeSheepStays p (offerValue p W S) = .ok (wheatFor p W S, sheepFor p W S) := by
  have hwm : wheatFor p W S ≤ INT64_MAX := (wheatFor_le hp).trans hWm
  have hsm : sheepFor p W S ≤ INT64_MAX := (sheepFor_le hp).trans hSm
  have hw := wheatFor_nonneg hp hW hS
  have hs := sheepFor_nonneg hp hW hS
  unfold exchangeSheepStays
  unfold wheatFor sheepFor at *
  split at hwm
  · next hgt =>
    simp only [if_pos hgt] at hw hs hsm ⊢
    rw [bigDivide128_down hp.n_pos hwm]
    rw [ok_bind, bigDivide_down hw hp.n_pos.le hp.d_pos hsm]
    rfl
  · next hgt =>
    simp only [if_neg hgt] at hw hs hsm ⊢
    rw [bigDivide128_down hp.d_pos hsm]
    rw [ok_bind, bigDivide_up hs hp.d_pos.le hp.n_pos hwm]
    rfl

/-- Without limits on the buyer's side the offer is taken as far as its own allow. -/
theorem exchange_unlimited (hp : ValidPrice p) (hW : 0 ≤ W) (hWm : W ≤ INT64_MAX) (hS : 0 ≤ S) (hSm : S ≤ INT64_MAX) :
    exchangeV10WithoutPriceErrorThresholds p W INT64_MAX INT64_MAX S .normal =
      .ok ⟨wheatFor p W S, sheepFor p W S, false⟩ := by
  have hmax : (0 : Int) ≤ INT64_MAX := by decide
  have hwheat : calculateOfferValue p.n p.d W S = .ok (offerValue p W S) := by
    simp only [calculateOfferValue, bigMultiply_eq hW hp.n_pos.le, bigMultiply_eq hS hp.d_pos.le]
    rfl
  have hsheep : calculateOfferValue p.d p.n INT64_MAX INT64_MAX =
      .ok (min (INT64_MAX * p.d) (INT64_MAX * p.n)) := by
    simp only [calculateOfferValue, bigMultiply_eq hmax hp.n_pos.le, bigMultiply_eq hmax hp.d_pos.le]
    rfl
  have hleaves : ¬offerValue p W S > min (INT64_MAX * p.d) (INT64_MAX * p.n) := by
    rw [not_lt, le_min_iff]
    exact ⟨(min_le_right _ _).trans (mul_le_mul_of_nonneg_right hSm hp.d_pos.le),
      (min_le_left _ _).trans (mul_le_mul_of_nonneg_right hWm hp.n_pos.le)⟩
  have hbounds : checkBounds W INT64_MAX INT64_MAX S false (wheatFor p W S, sheepFor p W S) =
      .ok ⟨wheatFor p W S, sheepFor p W S, false⟩ := by
    have hw := wheatFor_nonneg hp hW hS
    have hs := sheepFor_nonneg hp hW hS
    have hwW := wheatFor_le (W := W) (S := S) hp
    have hsS := sheepFor_le (W := W) (S := S) hp
    rw [checkBounds, if_neg (by dsimp only; omega), if_neg (by dsimp only; omega)]
    rfl
  simp only [exchangeV10WithoutPriceErrorThresholds, hwheat, hsheep, ok_bind, decide_eq_false hleaves,
    Bool.false_eq_true, if_false,
    exchangeSheepStays_eq hp hW hWm hS hSm, hbounds]

/-- The wheat that is exchanged if the price error is within bounds. -/
def adjustedFor (p : Price) (W S : Int) : Int :=
  if 100 * (wheatFor p W S * p.n - sheepFor p W S * p.d) ≤ wheatFor p W S * p.n then wheatFor p W S else 0

theorem adjustedFor_nonneg (hp : ValidPrice p) (hW : 0 ≤ W) (hS : 0 ≤ S) : 0 ≤ adjustedFor p W S := by
  have hw := wheatFor_nonneg hp hW hS
  unfold adjustedFor
  split <;> omega

theorem adjustedFor_eq_wheatFor (h : adjustedFor p W S ≠ 0) : adjustedFor p W S = wheatFor p W S := by
  unfold adjustedFor at h ⊢
  split at h
  · next hclose => rw [if_pos hclose]
  · exact absurd rfl h

theorem adjustedFor_le (hp : ValidPrice p) (hW : 0 ≤ W) : adjustedFor p W S ≤ W := by
  by_cases h : adjustedFor p W S = 0
  · rwa [h]
  · rw [adjustedFor_eq_wheatFor h]
    exact wheatFor_le hp

theorem adjustedFor_again (hp : ValidPrice p) (hS : 0 ≤ S) (hSS : S ≤ S') :
    adjustedFor p (adjustedFor p W S) S' = adjustedFor p W S := by
  by_cases h : adjustedFor p W S = 0
  · rw [h]
    exact le_antisymm (adjustedFor_le hp le_rfl) (adjustedFor_nonneg hp le_rfl (hS.trans hSS))
  · obtain ⟨hsheep, hwheat⟩ := exchange_again (W := W) hp hSS
    rw [adjustedFor_eq_wheatFor h, adjustedFor, hsheep, hwheat, ← adjustedFor, adjustedFor_eq_wheatFor h]

theorem checkPriceErrorBound_eq (hp : ValidPrice p) {w s : Int} (hw : 0 ≤ w) (hs : 0 ≤ s) (canFavorWheat : Bool) :
    checkPriceErrorBound p w s canFavorWheat =
      .ok (canFavorWheat && decide (w * p.n < s * p.d) || decide (|p.n * w - p.d * s| * 100 ≤ p.n * w)) := by
  have hn := hp.n_pos
  have hd := hp.d_pos
  have hl : 100 * p.n * w = 100 * (p.n * w) := by ring
  have hr : 100 * p.d * s = 100 * (p.d * s) := by ring
  have habs : (if 100 * (p.n * w) > 100 * (p.d * s) then 100 * (p.n * w) - 100 * (p.d * s)
      else 100 * (p.d * s) - 100 * (p.n * w)) = |p.n * w - p.d * s| * 100 := by
    split
    · rw [abs_of_nonneg (by omega)]
      omega
    · rw [abs_of_nonpos (by omega)]
      omega
  have hfavor : 100 * (p.d * s) > 100 * (p.n * w) ↔ w * p.n < s * p.d := by
    rw [mul_comm w, mul_comm s]
    omega
  simp only [checkPriceErrorBound, bigMultiply_eq (show 0 ≤ 100 * p.n by omega) hw,
    bigMultiply_eq (show 0 ≤ 100 * p.d by omega) hs, bigMultiply_eq hn.le hw, ok_bind, hl, hr, habs, hfavor]
  cases canFavorWheat && decide (w * p.n < s * p.d) <;> rfl

theorem checkPriceErrorBound_favored (hp : ValidPrice p) {w s : Int} (hw : 0 ≤ w) (hs : 0 ≤ s)
    (hfavor : s * p.d ≤ w * p.n) :
    checkPriceErrorBound p w s false = .ok (decide (100 * (w * p.n - s * p.d) ≤ w * p.n)) := by
  have hdiff : 0 ≤ p.n * w - p.d * s := by
    rw [mul_comm p.n, mul_comm p.d]
    omega
  rw [checkPriceErrorBound_eq hp hw hs, Bool.false_and, Bool.false_or, abs_of_nonneg hdiff, mul_comm p.n, mul_comm p.d,
    mul_comm _ (100 : Int)]

theorem adjustOffer_eq (hp : ValidPrice p) (hW : 0 ≤ W) (hWm : W ≤ INT64_MAX) (hS : 0 ≤ S) (hSm : S ≤ INT64_MAX) :
    adjustOffer p W S = .ok (adjustedFor p W S) := by
  have hw := wheatFor_nonneg hp hW hS
  have hs := sheepFor_nonneg hp hW hS
  have hfavor := sheepFor_mul_le (W := W) (S := S) hp
  have hpos := wheatFor_pos_iff hp hW hS
  simp only [adjustOffer, exchangeV10, exchange_unlimited hp hW hWm hS hSm, ok_bind]
  by_cases htrade : 0 < wheatFor p W S
  · have hboth : wheatFor p W S > 0 ∧ sheepFor p W S > 0 := ⟨htrade, hpos.mp htrade⟩
    simp only [applyPriceErrorThresholds, if_pos hboth, checkTrade, bigMultiply_eq hw hp.n_pos.le,
      bigMultiply_eq hs hp.d_pos.le, ok_bind, Bool.false_eq_true, false_and, not_false_eq_true, true_and, if_false,
      if_neg (not_lt.mpr hfavor), if_true, checkPriceErrorBound_favored hp hw hs hfavor, decide_eq_true_eq]
    unfold adjustedFor
    split <;> rfl
  · have hnone : ¬(wheatFor p W S > 0 ∧ sheepFor p W S > 0) := fun h => htrade h.1
    have hzero : wheatFor p W S = 0 := le_antisymm (not_lt.mp htrade) hw
    have hadj : adjustedFor p W S = 0 := by
      unfold adjustedFor
      split <;> simp [hzero]
    simp only [applyPriceErrorThresholds, if_neg hnone, reduceCtorEq, if_false, hadj]
    rfl

end

/-! ### The liabilities of an offer -/

/-- What an offer has to be for its liabilities to be defined. -/
structure ValidOffer (oe : OfferEntry) : Prop where
  price : ValidPrice oe.price
  amount_nonneg : 0 ≤ oe.amount
  amount_le : oe.amount ≤ INT64_MAX

/-- The amount an offer may sell, if it is defined. -/
def sellingLiability (oe : OfferEntry) : Int :=
  match exchangeAmount oe.price oe.amount with
  | .ok res => res.numWheatReceived
  | .error _ => 0

/-- The amount an offer may buy, if it is defined. -/
def buyingLiability (oe : OfferEntry) : Int :=
  match exchangeAmount oe.price oe.amount with
  | .ok res => res.numSheepSend
  | .error _ => 0

/-- The amount `adjustOffer` leaves an offer that only its amount limits. -/
def adjustedAmountOf (oe : OfferEntry) : Int := adjustedFor oe.price oe.amount INT64_MAX

namespace ValidOffer

variable {oe : OfferEntry}

theorem exchangeAmount_eq (h : ValidOffer oe) : exchangeAmount oe.price oe.amount =
    .ok ⟨wheatFor oe.price oe.amount INT64_MAX, sheepFor oe.price oe.amount INT64_MAX, false⟩ :=
  exchange_unlimited h.price h.amount_nonneg h.amount_le (by decide) le_rfl

theorem sellingLiability_eq (h : ValidOffer oe) : sellingLiability oe = wheatFor oe.price oe.amount INT64_MAX := by
  rw [sellingLiability, h.exchangeAmount_eq]

theorem buyingLiability_eq (h : ValidOffer oe) : buyingLiability oe = sheepFor oe.price oe.amount INT64_MAX := by
  rw [buyingLiability, h.exchangeAmount_eq]

variable {lh : LedgerHeader}

theorem getOfferSellingLiabilities_eq (h : ValidOffer oe) (hv : 10 ≤ lh.ledgerVersion) :
    getOfferSellingLiabilities lh oe = .ok (sellingLiability oe) := by
  rw [getOfferSellingLiabilities, if_neg (not_lt.mpr hv), h.exchangeAmount_eq, ok_bind, h.sellingLiability_eq]
  rfl

theorem getOfferBuyingLiabilities_eq (h : ValidOffer oe) (hv : 10 ≤ lh.ledgerVersion) :
    getOfferBuyingLiabilities lh oe = .ok (buyingLiability oe) := by
  rw [getOfferBuyingLiabilities, if_neg (not_lt.mpr hv), h.exchangeAmount_eq, ok_bind, h.buyingLiability_eq]
  rfl

theorem adjustOffer_eq (h : ValidOffer oe) :
    adjustOffer oe.price oe.amount INT64_MAX = .ok (adjustedAmountOf oe) :=
  Transactions.adjustOffer_eq h.price h.amount_nonneg h.amount_le (by decide) le_rfl

theorem sellingLiability_nonneg (h : ValidOffer oe) : 0 ≤ sellingLiability oe := by
  rw [h.sellingLiability_eq]
  exact wheatFor_nonneg h.price h.amount_nonneg (by decide)

theorem buyingLiability_nonneg (h : ValidOffer oe) : 0 ≤ buyingLiability oe := by
  rw [h.buyingLiability_eq]
  exact sheepFor_nonneg h.price h.amount_nonneg (by decide)

theorem adjustedAmountOf_nonneg (h : ValidOffer oe) : 0 ≤ adjustedAmountOf oe :=
  adjustedFor_nonneg h.price h.amount_nonneg (by decide)

theorem adjust (h : ValidOffer oe) : ValidOffer { oe with amount := adjustedAmountOf oe } where
  price := h.price
  amount_nonneg := h.adjustedAmountOf_nonneg
  amount_le := (adjustedFor_le h.price h.amount_nonneg).trans h.amount_le

theorem adjust_adjusted (h : ValidOffer oe) :
    adjustedAmountOf { oe with amount := adjustedAmountOf oe } = adjustedAmountOf oe :=
  adjustedFor_again h.price (by decide) le_rfl

theorem adjust_sellingLiability_le (h : ValidOffer oe) :
    sellingLiability { oe with amount := adjustedAmountOf oe } ≤ sellingLiability oe := by
  rw [h.adjust.sellingLiability_eq, h.sellingLiability_eq]
  exact wheatFor_mono h.price (adjustedFor_le h.price h.amount_nonneg) le_rfl

theorem adjust_buyingLiability_le (h : ValidOffer oe) :
    buyingLiability { oe with amount := adjustedAmountOf oe } ≤ buyingLiability oe := by
  rw [h.adjust.buyingLiability_eq, h.buyingLiability_eq]
  exact sheepFor_mono h.price (adjustedFor_le h.price h.amount_nonneg) le_rfl

theorem adjust_liabilities_pos (h : adjustedAmountOf oe ≠ 0) (hoe : ValidOffer oe) :
    0 < sellingLiability { oe with amount := adjustedAmountOf oe } ∧
      0 < buyingLiability { oe with amount := adjustedAmountOf oe } := by
  have hpos : 0 < wheatFor oe.price (adjustedAmountOf oe) INT64_MAX := by
    rw [adjustedAmountOf, adjustedFor_eq_wheatFor h, (exchange_again hoe.price le_rfl).2, ← adjustedFor_eq_wheatFor h]
    exact lt_of_le_of_ne hoe.adjustedAmountOf_nonneg (Ne.symm h)
  rw [hoe.adjust.sellingLiability_eq, hoe.adjust.buyingLiability_eq]
  exact ⟨hpos, (wheatFor_pos_iff hoe.price hoe.adjust.amount_nonneg (by decide)).mp hpos⟩

theorem of_exchangeAmount {res : ExchangeResultV10} (hle : oe.amount ≤ INT64_MAX)
    (h : exchangeAmount oe.price oe.amount = .ok res) : ValidOffer oe := by
  have hfactors : 0 ≤ oe.amount ∧ 0 ≤ oe.price.n ∧ 0 ≤ oe.price.d := by
    simp only [exchangeAmount, exchangeV10WithoutPriceErrorThresholds, calculateOfferValue, bigMultiply] at h
    split at h
    · next hsend =>
      split at h
      · next hreceive => exact ⟨hsend.1, hsend.2, hreceive.2⟩
      · cases h
    · cases h
  obtain ⟨ha, hn, hd⟩ := hfactors
  have hmax : (0 : Int) ≤ INT64_MAX := by decide
  have hvalue : ∀ x y : Int, 0 ≤ x → 0 ≤ y → ∀ n d : Int, 0 ≤ n → 0 ≤ d →
      calculateOfferValue n d x y = .ok (min (x * n) (y * d)) := by
    intro x y hx hy n d hn hd
    rw [calculateOfferValue, bigMultiply_eq hx hn, bigMultiply_eq hy hd]
    rfl
  -- with a zero in the price both offers are worth nothing, and the division by it fails
  have hzero : oe.price.n = 0 ∨ oe.price.d = 0 → False := by
    intro hzero
    have hnd : oe.amount * oe.price.n = 0 ∨ INT64_MAX * oe.price.d = 0 := by
      rcases hzero with hz | hz <;> simp [hz]
    have hw : min (oe.amount * oe.price.n) (INT64_MAX * oe.price.d) = 0 := by
      have := mul_nonneg ha hn
      have := mul_nonneg hmax hd
      omega
    have hs := le_min (mul_nonneg hmax hd) (mul_nonneg hmax hn)
    rw [exchangeAmount, exchangeV10WithoutPriceErrorThresholds, hvalue _ _ ha hmax _ _ hn hd,
      hvalue _ _ hmax hmax _ _ hd hn, ok_bind, ok_bind, hw, decide_eq_false (not_lt.mpr hs),
      exchangeSheepStays_zero hn hd hzero] at h
    cases h
  exact ⟨⟨lt_of_le_of_ne hn fun hz => hzero (.inl hz.symm), lt_of_le_of_ne hd fun hz => hzero (.inr hz.symm)⟩, ha, hle⟩

theorem getOfferSellingLiabilities_meets (hv : 10 ≤ lh.ledgerVersion) (hle : oe.amount ≤ INT64_MAX) :
    Meets (getOfferSellingLiabilities lh oe) (fun x => x = sellingLiability oe ∧ 0 ≤ x ∧ ValidOffer oe)
      (fun _ => ¬ValidOffer oe) := by
  by_cases h : ValidOffer oe
  · rw [h.getOfferSellingLiabilities_eq hv]
    exact ⟨rfl, h.sellingLiability_nonneg, h⟩
  · unfold getOfferSellingLiabilities
    rw [if_neg (not_lt.mpr hv)]
    cases hres : exchangeAmount oe.price oe.amount with
    | ok res => exact absurd (of_exchangeAmount hle hres) h
    | error e => exact h

theorem getOfferBuyingLiabilities_meets (hv : 10 ≤ lh.ledgerVersion) (hle : oe.amount ≤ INT64_MAX) :
    Meets (getOfferBuyingLiabilities lh oe) (fun x => x = buyingLiability oe ∧ 0 ≤ x ∧ ValidOffer oe)
      (fun _ => ¬ValidOffer oe) := by
  by_cases h : ValidOffer oe
  · rw [h.getOfferBuyingLiabilities_eq hv]
    exact ⟨rfl, h.buyingLiability_nonneg, h⟩
  · unfold getOfferBuyingLiabilities
    rw [if_neg (not_lt.mpr hv)]
    cases hres : exchangeAmount oe.price oe.amount with
    | ok res => exact absurd (of_exchangeAmount hle hres) h
    | error e => exact h

end ValidOffer

end Diamnet.Transactions
