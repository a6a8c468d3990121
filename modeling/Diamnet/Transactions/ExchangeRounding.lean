import Diamnet.Transactions.ExchangeBounds

/-! What two offers exchange within the limits of both sides, from version 10.

The value exchanged is at most the value of the smaller offer, so it is covered by each of the four
limits. Every branch of `exchangeV10WithoutPriceErrorThresholds` rounds that value to amounts: within
the limits, in favor of the offer that stays, and except for a strict send with both or neither
of the amounts zero. `exchangeV10_fair` says so for all limits and all ways to round. -/
namespace Diamnet.Transactions
open Ledger

/-- The amounts of an exchange, and what bounds them. -/
structure FairExchange (price : Price) (maxWheat maxSheep : Int) (round : RoundingType) (wheatStays : Bool)
    (wheat sheep : Int) : Prop where
  wheat_nonneg : 0 ≤ wheat
  wheat_le : wheat ≤ maxWheat
  sheep_nonneg : 0 ≤ sheep
  sheep_le : sheep ≤ maxSheep
  /-- The offer that stays is favored. -/
  favors : if wheatStays then sheep * price.d ≥ wheat * price.n else sheep * price.d ≤ wheat * price.n
  /-- Either both sides trade or neither. -/
  both : round ≠ .pathPaymentStrictSend → (wheat = 0 ↔ sheep = 0)

section
variable {p : Price} {value W S : Int}

/-! ### Amounts for a value

Rounded down, a value is at most what it was; and an amount is zero only if its value is
less than one of it. -/

theorem floor_mul_le_of {d other limit : Int} (hd : 0 < d) (hother : 0 < other) (h : value ≤ limit * other) :
    value / d * d / other ≤ limit :=
  Int.ediv_le_of_le_mul hother ((Int.ediv_mul_le value hd.ne').trans h)

theorem ceil_floor_le {d other limit : Int} (hd : 0 < d) (hother : 0 < other) (h : value ≤ limit * other) :
    (value / d * d + other - 1) / other ≤ limit :=
  (ceil_le_iff hother).mpr ((Int.ediv_mul_le value hd.ne').trans h)

theorem ceil_eq_zero_iff {a c : Int} (hc : 0 < c) (ha : 0 ≤ a) : (a + c - 1) / c = 0 ↔ a = 0 := by
  constructor
  · intro h
    have hle := le_ceil_mul (a := a) hc
    rw [h, Int.zero_mul] at hle
    omega
  · intro h
    exact Int.ediv_eq_zero_of_lt (by omega) (by omega)

/-- An amount of the cheaper good is worth at least one of the other, if it is not zero. -/
theorem floor_mul_eq_zero_iff {a c d : Int} (ha : 0 ≤ a) (hd : 0 < d) (hle : d ≤ c) : a * c / d = 0 ↔ a = 0 := by
  constructor
  · intro h
    have hlt : a * c < d := by
      have := (Int.ediv_lt_iff_lt_mul hd).mp (Int.lt_add_one_of_le h.le)
      omega
    by_contra hne
    have hone : 1 * c ≤ a * c := Int.mul_le_mul_of_nonneg_right (by omega) (by omega)
    omega
  · intro h
    rw [h, Int.zero_mul, Int.zero_ediv]

/-! ### The branches -/

theorem exchangeWheatStays_fair (hp : ValidPrice p) (hvalue : 0 ≤ value) (hW : value ≤ W * p.n) (hWm : W ≤ INT64_MAX)
    {maxSheepSend maxSheepReceive : Int} (hS : value ≤ min maxSheepSend maxSheepReceive * p.d)
    (hSm : min maxSheepSend maxSheepReceive ≤ INT64_MAX) (round : RoundingType) :
    ∃ wheat sheep, exchangeWheatStays p value maxSheepSend maxSheepReceive round = .ok (wheat, sheep) ∧
      FairExchange p W (min maxSheepSend maxSheepReceive) round true wheat sheep := by
  have hn := hp.n_pos
  have hd := hp.d_pos
  have hwheat : 0 ≤ value / p.n := Int.ediv_nonneg hvalue hn.le
  have hsheep : 0 ≤ value / p.d := Int.ediv_nonneg hvalue hd.le
  have hwheatDown := bigDivide128_down hn ((Int.ediv_le_of_le_mul hn hW).trans hWm)
  unfold exchangeWheatStays
  by_cases hsend : round = .pathPaymentStrictSend
  · refine ⟨value / p.n, min maxSheepSend maxSheepReceive, ?_, ?_⟩
    · rw [if_pos hsend, hwheatDown]
      rfl
    · refine ⟨hwheat, Int.ediv_le_of_le_mul hn hW, ?_, le_rfl, ?_, fun h => absurd hsend h⟩
      · exact nonneg_of_mul_nonneg_left (hvalue.trans hS) hd
      · exact (Int.ediv_mul_le value hn.ne').trans hS
  · rw [if_neg hsend]
    by_cases hmore : p.n > p.d ∨ round = .pathPaymentStrictReceive
    · have hle := ceil_floor_le hn hd hS
      refine ⟨value / p.n, (value / p.n * p.n + p.d - 1) / p.d, ?_, ?_⟩
      · rw [if_pos hmore, hwheatDown, ok_bind, bigDivide_up hwheat hn.le hd (hle.trans hSm)]
        rfl
      · have hworth : 0 ≤ value / p.n * p.n := mul_nonneg hwheat hn.le
        refine ⟨hwheat, Int.ediv_le_of_le_mul hn hW, ceil_nonneg hd hworth, hle, le_ceil_mul hd, fun _ => ?_⟩
        rw [ceil_eq_zero_iff hd hworth, Int.mul_eq_zero, or_iff_left hn.ne']
    · have hle := floor_mul_le_of hd hn hW
      refine ⟨value / p.d * p.d / p.n, value / p.d, ?_, ?_⟩
      · rw [if_neg hmore, bigDivide128_down hd ((Int.ediv_le_of_le_mul hd hS).trans hSm), ok_bind,
          bigDivide_down hsheep hd.le hn (hle.trans hWm)]
        rfl
      · have hworth : 0 ≤ value / p.d * p.d := mul_nonneg hsheep hd.le
        refine ⟨Int.ediv_nonneg hworth hn.le, hle, hsheep, Int.ediv_le_of_le_mul hd hS, Int.ediv_mul_le _ hn.ne', fun _ => ?_⟩
        exact floor_mul_eq_zero_iff hsheep hn (by omega)

theorem exchangeSheepStays_fair (hp : ValidPrice p) (hvalue : 0 ≤ value) (hW : value ≤ W * p.n) (hWm : W ≤ INT64_MAX)
    (hS : value ≤ S * p.d) (hSm : S ≤ INT64_MAX) (round : RoundingType) :
    ∃ wheat sheep, exchangeSheepStays p value = .ok (wheat, sheep) ∧ FairExchange p W S round false wheat sheep := by
  have hn := hp.n_pos
  have hd := hp.d_pos
  unfold exchangeSheepStays
  by_cases hmore : p.n > p.d
  · have hwheat : 0 ≤ value / p.n := Int.ediv_nonneg hvalue hn.le
    have hworth : 0 ≤ value / p.n * p.n := mul_nonneg hwheat hn.le
    have hle := floor_mul_le_of hn hd hS
    refine ⟨value / p.n, value / p.n * p.n / p.d, ?_, ?_⟩
    · rw [if_pos hmore, bigDivide128_down hn ((Int.ediv_le_of_le_mul hn hW).trans hWm), ok_bind,
        bigDivide_down hwheat hn.le hd (hle.trans hSm)]
      rfl
    · refine ⟨hwheat, Int.ediv_le_of_le_mul hn hW, Int.ediv_nonneg hworth hd.le, hle, Int.ediv_mul_le _ hd.ne', fun _ => ?_⟩
      exact (floor_mul_eq_zero_iff hwheat hd (by omega)).symm
  · have hsheep : 0 ≤ value / p.d := Int.ediv_nonneg hvalue hd.le
    have hworth : 0 ≤ value / p.d * p.d := mul_nonneg hsheep hd.le
    have hle := ceil_floor_le hd hn hW
    refine ⟨(value / p.d * p.d + p.n - 1) / p.n, value / p.d, ?_, ?_⟩
    · rw [if_neg hmore, bigDivide128_down hd ((Int.ediv_le_of_le_mul hd hS).trans hSm), ok_bind,
        bigDivide_up hsheep hd.le hn (hle.trans hWm)]
      rfl
    · refine ⟨ceil_nonneg hn hworth, hle, hsheep, Int.ediv_le_of_le_mul hd hS, le_ceil_mul hn, fun _ => ?_⟩
      rw [ceil_eq_zero_iff hn hworth, Int.mul_eq_zero, or_iff_left hd.ne']

theorem FairExchange.checkBounds {wheatStays : Bool} {round : RoundingType} {wheat sheep : Int}
    {maxWheatSend maxWheatReceive maxSheepSend maxSheepReceive : Int}
    (h : FairExchange p (min maxWheatSend maxWheatReceive) (min maxSheepSend maxSheepReceive) round wheatStays wheat sheep) :
    Transactions.checkBounds maxWheatSend maxWheatReceive maxSheepSend maxSheepReceive wheatStays (wheat, sheep) =
      .ok ⟨wheat, sheep, wheatStays⟩ := by
  obtain ⟨hwheat, hwheatLe, hsheep, hsheepLe, -, -⟩ := h
  rw [Transactions.checkBounds, if_neg (by dsimp only; omega), if_neg (by dsimp only; omega)]
  rfl

/-- The exchange of the smaller offer's value: the sheep offer's if it is smaller, else the wheat offer's. -/
theorem exchange_cases (hp : ValidPrice p) {maxWheatSend maxWheatReceive maxSheepSend maxSheepReceive : Int}
    (hwheatSend : 0 ≤ maxWheatSend ∧ maxWheatSend ≤ INT64_MAX) (hwheatReceive : 0 ≤ maxWheatReceive ∧ maxWheatReceive ≤ INT64_MAX)
    (hsheepSend : 0 ≤ maxSheepSend ∧ maxSheepSend ≤ INT64_MAX) (hsheepReceive : 0 ≤ maxSheepReceive ∧ maxSheepReceive ≤ INT64_MAX)
    (round : RoundingType) :
    ∃ wheatStays wheat sheep,
      exchangeV10WithoutPriceErrorThresholds p maxWheatSend maxWheatReceive maxSheepSend maxSheepReceive round =
        .ok ⟨wheat, sheep, wheatStays⟩ ∧
      FairExchange p (min maxWheatSend maxWheatReceive) (min maxSheepSend maxSheepReceive) round wheatStays wheat sheep ∧
      (if wheatStays then exchangeWheatStays p (min (maxSheepSend * p.d) (maxWheatReceive * p.n)) maxSheepSend maxSheepReceive round
        else exchangeSheepStays p (offerValue p maxWheatSend maxSheepReceive)) = .ok (wheat, sheep) := by
  have hn := hp.n_pos
  have hd := hp.d_pos
  have hwheatValue : calculateOfferValue p.n p.d maxWheatSend maxSheepReceive =
      .ok (min (maxWheatSend * p.n) (maxSheepReceive * p.d)) := by
    simp only [calculateOfferValue, bigMultiply_eq hwheatSend.1 hn.le, bigMultiply_eq hsheepReceive.1 hd.le]
    rfl
  have hsheepValue : calculateOfferValue p.d p.n maxSheepSend maxWheatReceive =
      .ok (min (maxSheepSend * p.d) (maxWheatReceive * p.n)) := by
    simp only [calculateOfferValue, bigMultiply_eq hsheepSend.1 hd.le, bigMultiply_eq hwheatReceive.1 hn.le]
    rfl
  have hwheatNonneg : 0 ≤ min (maxWheatSend * p.n) (maxSheepReceive * p.d) :=
    le_min (mul_nonneg hwheatSend.1 hn.le) (mul_nonneg hsheepReceive.1 hd.le)
  have hsheepNonneg : 0 ≤ min (maxSheepSend * p.d) (maxWheatReceive * p.n) :=
    le_min (mul_nonneg hsheepSend.1 hd.le) (mul_nonneg hwheatReceive.1 hn.le)
  -- the smaller value is covered by all four limits
  have hcovered (value : Int) (hwheat : value ≤ min (maxWheatSend * p.n) (maxSheepReceive * p.d))
      (hsheep : value ≤ min (maxSheepSend * p.d) (maxWheatReceive * p.n)) :
      value ≤ min maxWheatSend maxWheatReceive * p.n ∧ value ≤ min maxSheepSend maxSheepReceive * p.d := by
    rw [min_mul_of_nonneg _ _ hn.le, min_mul_of_nonneg _ _ hd.le]
    omega
  simp only [exchangeV10WithoutPriceErrorThresholds, hwheatValue, hsheepValue, ok_bind]
  by_cases hstays : min (maxWheatSend * p.n) (maxSheepReceive * p.d) >
      min (maxSheepSend * p.d) (maxWheatReceive * p.n)
  · obtain ⟨hW, hS⟩ := hcovered _ hstays.le le_rfl
    obtain ⟨wheat, sheep, hamounts, hfair⟩ :=
      exchangeWheatStays_fair hp hsheepNonneg hW (by omega) hS (by omega) round
    refine ⟨true, wheat, sheep, ?_, hfair, hamounts⟩
    rw [decide_eq_true hstays, if_pos rfl, hamounts]
    exact hfair.checkBounds
  · obtain ⟨hW, hS⟩ := hcovered _ le_rfl (not_lt.mp hstays)
    obtain ⟨wheat, sheep, hamounts, hfair⟩ :=
      exchangeSheepStays_fair hp hwheatNonneg hW (by omega) hS (by omega) round
    refine ⟨false, wheat, sheep, ?_, hfair, hamounts⟩
    rw [decide_eq_false hstays, if_neg Bool.false_ne_true, hamounts]
    exact hfair.checkBounds

end

/-- **Every exchange is fair**: it never faults, stays within the limits, favors the offer that stays,
and unless it is a strict send has both amounts zero or neither. -/
theorem exchangeV10_fair (price : Price) (hprice : ValidPrice price) (maxWheatSend maxWheatReceive maxSheepSend maxSheepReceive : Int)
    (hwheatSend : 0 ≤ maxWheatSend ∧ maxWheatSend ≤ INT64_MAX) (hwheatReceive : 0 ≤ maxWheatReceive ∧ maxWheatReceive ≤ INT64_MAX)
    (hsheepSend : 0 ≤ maxSheepSend ∧ maxSheepSend ≤ INT64_MAX) (hsheepReceive : 0 ≤ maxSheepReceive ∧ maxSheepReceive ≤ INT64_MAX)
    (round : RoundingType) :
    ∃ res, exchangeV10WithoutPriceErrorThresholds price maxWheatSend maxWheatReceive maxSheepSend maxSheepReceive round = .ok res ∧
      FairExchange price (min maxWheatSend maxWheatReceive) (min maxSheepSend maxSheepReceive) round res.wheatStays
        res.numWheatReceived res.numSheepSend := by
  obtain ⟨wheatStays, wheat, sheep, hres, hfair, -⟩ :=
    exchange_cases hprice hwheatSend hwheatReceive hsheepSend hsheepReceive round
  exact ⟨_, hres, hfair⟩

/-- Ten sheep at a price of 3/2 buy six wheat, and nine of them are sent. -/
theorem exchangeV10_fair_tenSheep :
    exchangeV10WithoutPriceErrorThresholds ⟨3, 2⟩ INT64_MAX INT64_MAX 10 INT64_MAX .normal = .ok ⟨6, 9, true⟩ ∧
    FairExchange ⟨3, 2⟩ INT64_MAX 10 .normal true 6 9 := by
  have heq : exchangeV10WithoutPriceErrorThresholds ⟨3, 2⟩ INT64_MAX INT64_MAX 10 INT64_MAX .normal =
      .ok ⟨6, 9, true⟩ := by decide +kernel
  obtain ⟨res, hres, hfair⟩ := exchangeV10_fair ⟨3, 2⟩ ⟨by decide, by decide⟩ INT64_MAX INT64_MAX 10 INT64_MAX
    (by decide) (by decide) (by decide) (by decide) .normal
  rw [heq, Except.ok.injEq] at hres
  subst hres
  exact ⟨heq, hfair⟩

end Diamnet.Transactions
