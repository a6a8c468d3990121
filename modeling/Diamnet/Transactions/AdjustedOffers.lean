import Diamnet.Transactions.BalanceEffects
import Diamnet.Transactions.ExchangeRounding
import Diamnet.Transactions.OfferExchange

/-! Adjusted offers.

`adjustOffer` leaves an offer what a buyer without limits could take of it. Such an amount is its own
adjustment, its liabilities fit what the seller has room for, and an exchange with it never throws
whatever the limits of the buyer are: if the sheep offer stays, the wheat offer is taken as it was
adjusted, so its price error is the one that was checked then; if the wheat offer stays, it is the
one that is favored. -/
namespace Diamnet.Transactions
open Ledger TrustLineEntry AccountEntry Runs TrustLineWrapper

/-! ### What a seller has room for -/

def sellableBy (id : AccountID) (asset : Asset) : LedgerM Int := do
  let line ← loadTrustLineIfNotNative id asset
  canSellAtMost id asset line

def buyableBy (id : AccountID) (asset : Asset) : LedgerM Int := do
  let line ← loadTrustLineIfNotNative id asset
  canBuyAtMost id asset line

/-- No entry stores a negative balance or negative liabilities. -/
structure Nonnegative (s : LedgerTxn) : Prop where
  accounts : ∀ id acc, s.accounts.lookup id = some acc →
    0 ≤ acc.balance ∧ 0 ≤ acc.liabilities.selling ∧ 0 ≤ acc.liabilities.buying
  trustLines : ∀ key tl, s.trustLines.lookup key = some tl → 0 ≤ tl.liabilities.selling ∧ 0 ≤ tl.liabilities.buying

/-- The action does not stop, and its value and the state it leaves meet `Q`. -/
def Succeeds {α : Type} (x : LedgerM α) (s : LedgerTxn) (Q : α → LedgerTxn → Prop) : Prop :=
  Runs x s Q fun _ => False

/-- The account's holdings of the asset: its own entry or its line of trust. The issuer needs neither. -/
def HoldingMeets (s : LedgerTxn) (id : AccountID) (asset : Asset) (ofAccount : AccountEntry → Prop)
    (ofLine : TrustLineEntry → Prop) : Prop :=
  if asset = .native then ∃ acc, s.accounts.lookup id = some acc ∧ ofAccount acc
  else getIssuer asset = some id ∨ ∃ tl, s.trustLines.lookup (id, asset) = some tl ∧ ofLine tl

/-- The holdings of the asset leave room to sell the amount. -/
def SellRoom (s : LedgerTxn) (id : AccountID) (asset : Asset) (amount : Int) : Prop :=
  HoldingMeets s id asset
    (fun acc => 0 ≤ acc.liabilities.selling ∧ Reserves s.header acc (acc.liabilities.selling + amount))
    (fun tl => isAuthorizedToMaintainLiabilities tl = true ∧ 0 ≤ tl.liabilities.selling ∧
      tl.liabilities.selling + amount ≤ tl.balance)

/-- The holdings of the asset leave room to buy the amount. -/
def BuyRoom (s : LedgerTxn) (id : AccountID) (asset : Asset) (amount : Int) : Prop :=
  HoldingMeets s id asset
    (fun acc => 0 ≤ acc.balance ∧ 0 ≤ acc.liabilities.buying ∧ acc.liabilities.buying + amount ≤ INT64_MAX - acc.balance)
    (fun tl => isAuthorizedToMaintainLiabilities tl = true ∧ 0 ≤ tl.liabilities.buying ∧
      tl.liabilities.buying + amount ≤ tl.limit - tl.balance ∧ tl.limit - tl.balance ≤ INT64_MAX)

section
variable {s s' : LedgerTxn} {id : AccountID} {asset : Asset} {amount limit : Int}

theorem AccountEntry.reserves_of_available {lh : LedgerHeader} {acc : AccountEntry} (hv : 10 ≤ lh.ledgerVersion)
    (hpos : 0 < amount) (h : Meets (getAvailableBalance lh acc) (amount ≤ max · 0) fun _ => False) :
    Reserves lh acc (acc.liabilities.selling + amount) := by
  unfold getAvailableBalance at h
  cases hmin : getMinBalance lh acc with
  | error e => rw [hmin] at h; exact h.elim
  | ok minBalance =>
    simp only [hmin, ok_bind, Meets.bind_iff, meets_int64, if_pos hv] at h
    have hrange := not_not.mp h.2
    have hfits := not_not.mp (h.1 hrange).2
    exact ⟨minBalance, hmin, hrange, by omega⟩

theorem AccountEntry.fits_of_receive {lh : LedgerHeader} {acc : AccountEntry} (hv : 10 ≤ lh.ledgerVersion)
    (h : Meets (getMaxAmountReceive lh acc) (amount ≤ max · 0) fun _ => False) :
    acc.liabilities.buying + amount ≤ INT64_MAX - acc.balance := by
  unfold getMaxAmountReceive at h
  simp only [if_pos hv, Meets.bind_iff, meets_int64] at h
  have hrange := not_not.mp h.2
  have hfits := not_not.mp (h.1 hrange).2
  omega

theorem TrustLineEntry.available_of {lh : LedgerHeader} {tl : TrustLineEntry} (hv : 10 ≤ lh.ledgerVersion)
    (hpos : 0 < amount) (h : Meets (getAvailableBalance lh tl) (amount ≤ max · 0) fun _ => False) :
    isAuthorizedToMaintainLiabilities tl = true ∧ tl.liabilities.selling + amount ≤ tl.balance := by
  unfold getAvailableBalance checkAuthorization at h
  rw [if_neg (not_lt.mpr hv), if_pos hv] at h
  by_cases hauth : isAuthorizedToMaintainLiabilities tl = true
  · rw [if_pos hauth, pure_bind, meets_int64] at h
    have hle := h.1 (not_not.mp h.2)
    exact ⟨hauth, by omega⟩
  · rw [if_neg hauth] at h
    exact h.elim

theorem TrustLineEntry.fits_of_receive {lh : LedgerHeader} {tl : TrustLineEntry} (hv : 10 ≤ lh.ledgerVersion)
    (hpos : 0 < amount) (h : Meets (getMaxAmountReceive lh tl) (amount ≤ max · 0) fun _ => False) :
    isAuthorizedToMaintainLiabilities tl = true ∧
      tl.liabilities.buying + amount ≤ tl.limit - tl.balance ∧ tl.limit - tl.balance ≤ INT64_MAX := by
  unfold getMaxAmountReceive checkAuthorization at h
  rw [if_neg (not_lt.mpr hv)] at h
  by_cases hauth : isAuthorizedToMaintainLiabilities tl = true
  · simp only [if_pos hauth, pure_bind, if_true, Meets.bind_iff, meets_int64, if_pos hv] at h
    have hrange := not_not.mp h.2
    have hfits := not_not.mp (h.1 hrange).2
    exact ⟨hauth, by omega, hrange.2⟩
  · rw [if_neg hauth] at h
    exact h.elim

/-- What can be read from the line of an account that is not the issuer: nothing without an entry. -/
theorem line_of_limit (hnative : asset ≠ .native) (hissuer : getIssuer asset ≠ some id)
    {limit : TrustLineWrapper → LedgerM Int} (value : LedgerHeader → TrustLineEntry → Except Fault Int)
    (hnone : limit .inactive = pure 0) (hpos : 0 < amount)
    (hvalue : ∀ tl, s.trustLines.lookup (id, asset) = some tl →
      Succeeds (limit (.nonIssuer id asset)) s (fun a _ => amount ≤ a) →
      Meets (value s.header tl) (amount ≤ max · 0) fun _ => False)
    (h : Succeeds (loadTrustLineIfNotNative id asset >>= limit) s fun a _ => amount ≤ a) :
    ∃ tl, s.trustLines.lookup (id, asset) = some tl ∧ Meets (value s.header tl) (amount ≤ max · 0) fun _ => False := by
  simp only [Succeeds, loadTrustLineIfNotNative, if_neg hnative, loadTrustLine, bind_iff, runs_check,
    if_neg hissuer, runs_findTrustLine] at h
  have h := h.1 hnative
  cases htl : s.trustLines.lookup (id, asset) with
  | none =>
    simp only [htl, pure_iff, hnone] at h
    exact absurd h (not_le.mpr hpos)
  | some tl =>
    simp only [htl, pure_iff] at h
    exact ⟨tl, rfl, hvalue tl htl h⟩

theorem sellRoom_of_sellable (hv : 10 ≤ s.header.ledgerVersion) (hs : Nonnegative s) (hpos : 0 < amount)
    (h : Succeeds (sellableBy id asset) s fun sell _ => amount ≤ sell) : SellRoom s id asset amount := by
  unfold SellRoom HoldingMeets
  split
  · next hnative =>
    simp only [Succeeds, sellableBy, canSellAtMost, loadTrustLineIfNotNative, if_pos hnative, bind_iff,
      pure_iff, atLeastZero, availableAccountBalance, runs_getHeader, runs_loadAccount, runs_checked] at h
    cases hacc : s.accounts.lookup id with
    | none => exact absurd hacc h.2
    | some acc =>
      exact ⟨acc, rfl, (hs.accounts id acc hacc).2.1, reserves_of_available hv hpos (h.1 acc hacc)⟩
  · next hnative =>
    refine or_iff_not_imp_left.mpr fun hissuer => ?_
    obtain ⟨tl, htl, hvalue⟩ := line_of_limit hnative hissuer getAvailableBalance
      (by simp [canSellAtMost, hnative, isActive]) hpos (fun tl htl hlimit => by
        simp only [Succeeds, canSellAtMost, if_neg hnative, isActive, ne_eq, reduceCtorEq,
          not_false_eq_true, decide_true, if_true, TrustLineWrapper.isAuthorizedToMaintainLiabilities,
          TrustLineWrapper.read, TrustLineWrapper.entry, bind_iff, runs_getHeader, runs_findTrustLine, htl,
          pure_iff, runs_checked, Meets.pure_iff] at hlimit
        split at hlimit
        · simpa only [atLeastZero, TrustLineWrapper.getAvailableBalance, TrustLineWrapper.read, TrustLineWrapper.entry,
            bind_iff, runs_getHeader, runs_findTrustLine, htl, pure_iff, runs_checked] using hlimit
        · exact absurd hlimit (not_le.mpr hpos)) h
    obtain ⟨hauth, hroom⟩ := available_of hv hpos hvalue
    exact ⟨tl, htl, hauth, (hs.trustLines _ tl htl).1, hroom⟩

theorem buyRoom_of_buyable (hv : 10 ≤ s.header.ledgerVersion) (hs : Nonnegative s) (hpos : 0 < amount)
    (h : Succeeds (buyableBy id asset) s fun buy _ => amount ≤ buy) : BuyRoom s id asset amount := by
  unfold BuyRoom HoldingMeets
  split
  · next hnative =>
    simp only [Succeeds, buyableBy, canBuyAtMost, loadTrustLineIfNotNative, if_pos hnative, bind_iff,
      pure_iff, atLeastZero, maxAccountReceive, runs_getHeader, runs_loadAccount, runs_checked] at h
    cases hacc : s.accounts.lookup id with
    | none => exact absurd hacc h.2
    | some acc =>
      obtain ⟨hbalance, -, hbuying⟩ := hs.accounts id acc hacc
      exact ⟨acc, rfl, hbalance, hbuying, fits_of_receive hv (h.1 acc hacc)⟩
  · next hnative =>
    refine or_iff_not_imp_left.mpr fun hissuer => ?_
    obtain ⟨tl, htl, hvalue⟩ := line_of_limit hnative hissuer getMaxAmountReceive
      (by simp [canBuyAtMost, hnative, isActive]) hpos (fun tl htl hlimit => by
        simpa only [Succeeds, canBuyAtMost, if_neg hnative, TrustLineWrapper.isActive, ne_eq, reduceCtorEq,
          not_false_eq_true, decide_true, if_true, atLeastZero, TrustLineWrapper.getMaxAmountReceive,
          TrustLineWrapper.read, TrustLineWrapper.entry, bind_iff, runs_getHeader, runs_findTrustLine, htl,
          pure_iff, runs_checked] using hlimit) h
    obtain ⟨hauth, hroom⟩ := fits_of_receive hv hpos hvalue
    exact ⟨tl, htl, hauth, (hs.trustLines _ tl htl).2, hroom⟩

/-! ### Acquiring the liabilities -/

/-- The states differ in the account's holdings of the asset only. -/
structure SameBut (id : AccountID) (asset : Asset) (s s' : LedgerTxn) : Prop where
  header : s'.header = s.header
  accounts : asset ≠ .native → s'.accounts = s.accounts
  trustLines : ∀ other, other ≠ asset → s'.trustLines.lookup (id, other) = s.trustLines.lookup (id, other)

theorem SameBut.holdingMeets (h : SameBut id asset s s') {other : Asset} (hne : other ≠ asset)
    {ofAccount : AccountEntry → Prop} {ofLine : TrustLineEntry → Prop}
    (hmeets : HoldingMeets s id other ofAccount ofLine) : HoldingMeets s' id other ofAccount ofLine := by
  unfold HoldingMeets at hmeets ⊢
  split at hmeets
  · next hnative =>
    rw [if_pos hnative, h.accounts fun hasset => hne (hnative.trans hasset.symm)]
    exact hmeets
  · next hnative =>
    rw [if_neg hnative, h.trustLines other hne]
    exact hmeets

theorem addLiabilities_succeeds {what : String} {ofAccount : LedgerHeader → AccountEntry → Except Fault (Option AccountEntry)}
    {ofLine : LedgerHeader → TrustLineEntry → Except Fault (Option TrustLineEntry)}
    (h : HoldingMeets s id asset (fun acc => ∃ acc', ofAccount s.header acc = .ok (some acc'))
      (fun tl => ∃ tl', ofLine s.header tl = .ok (some tl'))) :
    Succeeds (addLiabilities id asset ofAccount ofLine what) s fun _ s' => SameBut id asset s s' := by
  unfold HoldingMeets at h
  unfold Succeeds addLiabilities
  split at h
  · next hnative =>
    obtain ⟨acc, hacc, acc', hchange⟩ := h
    rw [if_pos hnative, bind_iff, runs_findAccount, bind_iff, runs_check]
    refine ⟨fun _ => ?_, fun hnone => hnone (by rw [hacc]; rfl)⟩
    simp only [runs_must, updateAccount, bind_iff, runs_getHeader, runs_loadAccount, hacc, runs_checked]
    refine ⟨fun _ h => ?_, fun h => by cases h⟩
    cases h
    rw [hchange]
    exact ⟨rfl, fun h => absurd hnative h, fun _ _ => rfl⟩
  · next hnative =>
    rw [if_neg hnative]
    simp only [loadTrustLine, bind_iff, runs_check]
    refine ⟨fun _ => ?_, fun h => h hnative⟩
    by_cases hissuer : getIssuer asset = some id
    · rw [if_pos hissuer]
      exact ⟨fun _ => ⟨rfl, fun _ => rfl, fun _ _ => rfl⟩, fun h => h rfl⟩
    · obtain ⟨tl, htl, tl', hchange⟩ := h.resolve_left hissuer
      simp only [if_neg hissuer, bind_iff, runs_findTrustLine, htl, pure_iff, runs_must,
        update, entry, runs_getHeader, runs_checked]
      refine ⟨fun _ => ?_, fun h => h rfl⟩
      rw [hchange]
      refine ⟨rfl, fun _ => rfl, fun other hother => ?_⟩
      exact AList.lookup_insert_ne (by simp [hother])

theorem HoldingMeets.mono {ofAccount ofAccount' : AccountEntry → Prop} {ofLine ofLine' : TrustLineEntry → Prop}
    (h : HoldingMeets s id asset ofAccount ofLine) (hacc : ∀ acc, ofAccount acc → ofAccount' acc)
    (hline : ∀ tl, ofLine tl → ofLine' tl) : HoldingMeets s id asset ofAccount' ofLine' := by
  unfold HoldingMeets at h ⊢
  split at h
  · next hnative =>
    obtain ⟨acc, hlookup, hmeets⟩ := h
    rw [if_pos hnative]
    exact ⟨acc, hlookup, hacc acc hmeets⟩
  · next hnative =>
    rw [if_neg hnative]
    refine h.imp_right fun hmeets => ?_
    obtain ⟨tl, hlookup, hmeets⟩ := hmeets
    exact ⟨tl, hlookup, hline tl hmeets⟩

theorem SellRoom.addSellingLiabilities (hv : 10 ≤ s.header.ledgerVersion) (hpos : 0 < amount)
    (h : SellRoom s id asset amount) :
    Succeeds (Transactions.addSellingLiabilities id asset amount) s fun _ s' => SameBut id asset s s' := by
  refine addLiabilities_succeeds (h.mono ?_ ?_)
  · intro acc hacc
    obtain ⟨hstored, hroom⟩ := hacc
    exact ⟨_, addSellingLiabilities_iff.mpr ⟨hv, rfl, fun _ => ⟨hstored, by omega, hroom⟩⟩⟩
  · intro tl htl
    obtain ⟨hauth, hstored, hroom⟩ := htl
    exact ⟨_, addSellingLiabilities_iff.mpr ⟨hv, rfl, fun _ => ⟨hauth, hstored, by omega, hroom⟩⟩⟩

theorem BuyRoom.addBuyingLiabilities (hv : 10 ≤ s.header.ledgerVersion) (hpos : 0 < amount)
    (h : BuyRoom s id asset amount) :
    Succeeds (Transactions.addBuyingLiabilities id asset amount) s fun _ s' => SameBut id asset s s' := by
  refine addLiabilities_succeeds (h.mono ?_ ?_)
  · intro acc hacc
    obtain ⟨hbalance, hstored, hroom⟩ := hacc
    exact ⟨_, addBuyingLiabilities_iff.mpr ⟨hv, rfl, fun _ => ⟨hstored, by omega, hroom, by omega⟩⟩⟩
  · intro tl htl
    obtain ⟨hauth, hstored, hroom, hlimit⟩ := htl
    exact ⟨_, addBuyingLiabilities_iff.mpr ⟨hv, rfl, fun _ => ⟨hauth, hstored, by omega, hroom, hlimit⟩⟩⟩

theorem acquireLiabilities_succeeds {oe : OfferEntry} {selling buying : Int} (hv : 10 ≤ s.header.ledgerVersion)
    (hne : oe.buying ≠ oe.selling) (hselling : getOfferSellingLiabilities s.header oe = .ok selling)
    (hbuying : getOfferBuyingLiabilities s.header oe = .ok buying) (hspos : 0 < selling) (hbpos : 0 < buying)
    (hsell : SellRoom s id oe.selling selling) (hbuy : BuyRoom s id oe.buying buying) :
    Succeeds (acquireLiabilities id oe) s fun _ _ => True := by
  simp only [Succeeds, acquireLiabilities, acquireOrReleaseLiabilities, bind_iff, runs_check, runs_getHeader,
    runs_checked, hbuying, hselling, if_true, Meets.ok_iff]
  refine ⟨fun _ => ?_, fun h => h hne⟩
  refine mono (hbuy.addBuyingLiabilities hv hbpos) (fun _ s₁ h => ?_) fun _ h => h
  have hsell₁ : SellRoom s₁ id oe.selling selling := by
    unfold SellRoom
    rw [h.header]
    exact h.holdingMeets hne.symm hsell
  refine mono (hsell₁.addSellingLiabilities (by rw [h.header]; exact hv) hspos) (fun _ _ _ => trivial) fun _ h => h

end

/-- **An adjusted offer fits its limits**: adjusting it again leaves it as it is, it sells all of its amount
and buys no more than there was room for, and its seller can acquire its liabilities. -/
theorem adjustOffer_fits (price : Price) (hprice : ValidPrice price) (maxWheatSend maxSheepReceive : Int)
    (hwheat : 0 ≤ maxWheatSend ∧ maxWheatSend ≤ INT64_MAX) (hsheep : 0 ≤ maxSheepReceive ∧ maxSheepReceive ≤ INT64_MAX) :
    ∃ m, adjustOffer price maxWheatSend maxSheepReceive = .ok m ∧ 0 ≤ m ∧ m ≤ maxWheatSend ∧
      adjustOffer price m maxSheepReceive = .ok m ∧
      (0 < m → ∀ oe : OfferEntry, oe.price = price → oe.amount = m →
        (∀ lh : LedgerHeader, 10 ≤ lh.ledgerVersion → getOfferSellingLiabilities lh oe = .ok m ∧
          ∃ buying, getOfferBuyingLiabilities lh oe = .ok buying ∧ buying ≤ maxSheepReceive) ∧
        (∀ (s : LedgerTxn) (id : AccountID), 10 ≤ s.header.ledgerVersion → Nonnegative s → oe.buying ≠ oe.selling →
          Succeeds (sellableBy id oe.selling) s (fun sell _ => maxWheatSend ≤ sell) →
          Succeeds (buyableBy id oe.buying) s (fun buy _ => maxSheepReceive ≤ buy) →
          Succeeds (acquireLiabilities id oe) s fun _ _ => True)) := by
  obtain ⟨hW, hWm⟩ := hwheat
  obtain ⟨hS, hSm⟩ := hsheep
  have hle := adjustedFor_le (S := maxSheepReceive) hprice hW
  have hnonneg := adjustedFor_nonneg hprice hW hS
  refine ⟨adjustedFor price maxWheatSend maxSheepReceive, adjustOffer_eq hprice hW hWm hS hSm, hnonneg, hle, ?_, ?_⟩
  · rw [adjustOffer_eq hprice hnonneg (hle.trans hWm) hS hSm, adjustedFor_again hprice hS le_rfl]
  intro hpos oe hoe hamount
  have hvalid : ValidOffer oe := ⟨hoe ▸ hprice, hamount ▸ hnonneg, hamount ▸ hle.trans hWm⟩
  have heq := adjustedFor_eq_wheatFor hpos.ne'
  -- the liabilities have no limit on the sheep, but the adjusted amount was within it
  obtain ⟨hsheepAgain, hwheatAgain⟩ := exchange_again (W := maxWheatSend) hprice hSm
  have hselling : sellingLiability oe = adjustedFor price maxWheatSend maxSheepReceive := by
    rw [hvalid.sellingLiability_eq, hoe, hamount, heq, hwheatAgain]
  have hbuying : buyingLiability oe = sheepFor price maxWheatSend maxSheepReceive := by
    rw [hvalid.buyingLiability_eq, hoe, hamount, heq, hsheepAgain]
  have hbuyingLe : buyingLiability oe ≤ maxSheepReceive := hbuying ▸ sheepFor_le hprice
  refine ⟨fun lh hv => ⟨?_, _, hvalid.getOfferBuyingLiabilities_eq hv, hbuyingLe⟩, ?_⟩
  · rw [hvalid.getOfferSellingLiabilities_eq hv, hselling]
  · intro s id hv hs hne hsell hbuy
    have hbuyingPos : 0 < buyingLiability oe := by
      rw [hbuying, ← wheatFor_pos_iff hprice hW hS, ← heq]
      exact hpos
    have hsellingPos : 0 < sellingLiability oe := hselling ▸ hpos
    refine acquireLiabilities_succeeds hv hne (hvalid.getOfferSellingLiabilities_eq hv)
      (hvalid.getOfferBuyingLiabilities_eq hv) hsellingPos hbuyingPos (sellRoom_of_sellable hv hs hsellingPos ?_)
      (buyRoom_of_buyable hv hs hbuyingPos ?_)
    · refine mono hsell (fun _ _ h => ?_) fun _ h => h
      rw [hselling]
      exact hle.trans h
    · exact mono hbuy (fun _ _ h => hbuyingLe.trans h) fun _ h => h

/-- An account with 60 coins to sell and room for a thousand of an asset. -/
def coinSeller : LedgerTxn where
  header := ⟨15, 5, 0, 1000, 0, 0, 7, 10, 100, 1000⟩
  accounts := AList.insert 1 { balance := 100, seqNum := 0, numSubEntries := 2 } ∅
  trustLines := AList.insert (1, .alphaNum4 #v[69, 85, 82, 0] 2) { balance := 0, limit := 1000, flags := 1 } ∅

def coinOffer : OfferEntry where
  selling := .native
  buying := .alphaNum4 #v[69, 85, 82, 0] 2
  amount := 60
  price := ⟨3, 2⟩

theorem adjustOffer_fits_coins : adjustOffer ⟨3, 2⟩ 60 1000 = .ok 60 ∧
    Succeeds (acquireLiabilities 1 coinOffer) coinSeller fun _ _ => True := by
  have hadjust : adjustOffer ⟨3, 2⟩ 60 1000 = .ok 60 := by decide +kernel
  obtain ⟨m, hm, -, -, -, hacquire⟩ := adjustOffer_fits ⟨3, 2⟩ ⟨by decide, by decide⟩ 60 1000 (by decide) (by decide)
  rw [hadjust, Except.ok.injEq] at hm
  subst hm
  refine ⟨hadjust, (hacquire (by decide) coinOffer rfl rfl).2 coinSeller 1 (by decide) ⟨?_, ?_⟩ (by decide) ?_ ?_⟩
  · decide +kernel
  · decide +kernel
  · unfold Succeeds Runs
    decide +kernel
  · unfold Succeeds Runs
    decide +kernel

/-! ### Exchanges with an adjusted offer -/

section
variable {p : Price}

/-- The price error is checked after the amounts are bounded: what stays is favored, so only a wheat offer
that is taken can lose by it. -/
theorem FairExchange.thresholds (hp : ValidPrice p) {maxWheat maxSheep wheat sheep : Int} {round : RoundingType}
    {wheatStays : Bool} (h : FairExchange p maxWheat maxSheep round wheatStays wheat sheep)
    (hclose : wheatStays = false → |p.n * wheat - p.d * sheep| * 100 ≤ p.n * wheat)
    (hsend : round = .pathPaymentStrictSend → 0 < sheep) :
    ∃ res, applyPriceErrorThresholds p ⟨wheat, sheep, wheatStays⟩ round = .ok res ∧
      (round = .normal → res.numWheatReceived = 0 ∧ res.numSheepSend = 0 ∨
        |p.n * res.numWheatReceived - p.d * res.numSheepSend| * 100 ≤ p.n * res.numWheatReceived) ∧
      (round ≠ .normal → res = ⟨wheat, sheep, wheatStays⟩ ∧ 99 * (p.n * wheat) ≤ 100 * (p.d * sheep)) := by
  obtain ⟨hwheat, -, hsheep, -, hfavors, hboth⟩ := h
  have hworth : 0 ≤ p.n * wheat := mul_nonneg hp.n_pos.le hwheat
  rw [mul_comm wheat, mul_comm sheep] at hfavors
  -- what the seller of wheat gets is close to the price or more
  have hnear : 99 * (p.n * wheat) ≤ 100 * (p.d * sheep) := by
    cases wheatStays with
    | true =>
      have hmore : p.d * sheep ≥ p.n * wheat := hfavors
      omega
    | false =>
      have hless : p.d * sheep ≤ p.n * wheat := hfavors
      have := hclose rfl
      rw [abs_of_nonneg (by omega)] at this
      omega
  unfold applyPriceErrorThresholds
  by_cases htrade : wheat > 0 ∧ sheep > 0
  · have hright : ¬(wheatStays = true ∧ sheep * p.d < wheat * p.n) ∧ ¬(¬wheatStays = true ∧ sheep * p.d > wheat * p.n) := by
      rw [mul_comm sheep, mul_comm wheat]
      cases wheatStays with
      | true => exact ⟨fun h => absurd hfavors (not_le.mpr h.2), fun h => h.1 rfl⟩
      | false => exact ⟨fun h => Bool.false_ne_true h.1, fun h => absurd hfavors (not_le.mpr h.2)⟩
    simp only [if_pos htrade, checkTrade, bigMultiply_eq hwheat hp.n_pos.le, bigMultiply_eq hsheep hp.d_pos.le, ok_bind,
      if_neg hright.1, if_neg hright.2, checkPriceErrorBound_eq hp hwheat hsheep]
    by_cases hround : round = .normal
    · rw [if_pos hround]
      refine ⟨_, rfl, fun _ => ?_, fun h => absurd hround h⟩
      by_cases hbound : |p.n * wheat - p.d * sheep| * 100 ≤ p.n * wheat
      · exact .inr (by simp [hbound])
      · exact .inl (by simp [hbound])
    · have hpass : (true && decide (wheat * p.n < sheep * p.d) || decide (|p.n * wheat - p.d * sheep| * 100 ≤ p.n * wheat)) =
          true := by
        rw [Bool.true_and, Bool.or_eq_true, decide_eq_true_eq, decide_eq_true_eq, mul_comm wheat, mul_comm sheep]
        by_cases hmore : p.n * wheat < p.d * sheep
        · exact .inl hmore
        · rw [abs_of_nonneg (by omega)]
          exact .inr (by omega)
      rw [if_neg hround, hpass]
      exact ⟨_, rfl, fun h => absurd h hround, fun _ => ⟨rfl, hnear⟩⟩
  · rw [if_neg htrade]
    by_cases hround : round = .pathPaymentStrictSend
    · rw [if_pos hround, if_neg (hsend hround).ne']
      refine ⟨_, rfl, fun h => ?_, fun _ => ⟨rfl, hnear⟩⟩
      rw [hround] at h
      cases h
    · have hzero : wheat = 0 ∧ sheep = 0 := by
        have := hboth hround
        omega
      rw [if_neg hround, hzero.1, hzero.2]
      exact ⟨_, rfl, fun _ => .inl ⟨rfl, rfl⟩, fun _ => ⟨rfl, by simp⟩⟩

theorem nonneg_of_adjustOffer {W S m : Int} (h : adjustOffer p W S = .ok m) : 0 ≤ W ∧ 0 ≤ S := by
  by_contra hneg
  have hfault : calculateOfferValue p.n p.d W S = .error .assertion := by
    unfold calculateOfferValue bigMultiply
    by_cases hW : W ≥ 0 ∧ p.n ≥ 0
    · rw [if_pos hW, if_neg (fun hS => hneg ⟨hW.1, hS.1⟩)]
      rfl
    · rw [if_neg hW]
      rfl
  rw [adjustOffer, exchangeV10, exchangeV10WithoutPriceErrorThresholds, hfault] at h
  cases h

theorem wheat_of_strictReceive {value maxSheepSend maxSheepReceive wheat sheep : Int} (hp : ValidPrice p)
    (hfits : value / p.n ≤ INT64_MAX)
    (h : exchangeWheatStays p value maxSheepSend maxSheepReceive .pathPaymentStrictReceive = .ok (wheat, sheep)) :
    wheat = value / p.n := by
  rw [exchangeWheatStays, if_neg (by decide), if_pos (.inr rfl), bigDivide128_down hp.n_pos hfits, ok_bind] at h
  obtain ⟨_, -, h⟩ := bind_eq_ok.mp h
  cases h
  rfl

theorem sheep_of_strictSend {value maxSheepSend maxSheepReceive wheat sheep : Int}
    (h : exchangeWheatStays p value maxSheepSend maxSheepReceive .pathPaymentStrictSend = .ok (wheat, sheep)) :
    sheep = min maxSheepSend maxSheepReceive := by
  obtain ⟨_, -, h⟩ := bind_eq_ok.mp h
  cases h
  rfl

end

/-- **Exchanges with an adjusted offer never throw**, whatever the buyer's limits and the way to round. -/
theorem exchangeV10_adjusted (price : Price) (hprice : ValidPrice price) (m maxSheepReceive : Int)
    (hm : m ≠ 0) (hadjusted : adjustOffer price m maxSheepReceive = .ok m)
    (hmax : m ≤ INT64_MAX ∧ maxSheepReceive ≤ INT64_MAX) (maxWheatReceive maxSheepSend : Int)
    (hwheatReceive : 1 ≤ maxWheatReceive ∧ maxWheatReceive ≤ INT64_MAX)
    (hsheepSend : 1 ≤ maxSheepSend ∧ maxSheepSend ≤ INT64_MAX) (round : RoundingType) :
    ∃ res, exchangeV10 price m maxWheatReceive maxSheepSend maxSheepReceive round = .ok res ∧
      (round = .normal → res.numWheatReceived = 0 ∧ res.numSheepSend = 0 ∨
        |price.n * res.numWheatReceived - price.d * res.numSheepSend| * 100 ≤ price.n * res.numWheatReceived) ∧
      (round ≠ .normal → 99 * (price.n * res.numWheatReceived) ≤ 100 * (price.d * res.numSheepSend)) ∧
      (round = .pathPaymentStrictReceive → res.wheatStays = true →
        maxSheepSend * price.d ≥ maxWheatReceive * price.n → res.numWheatReceived = maxWheatReceive) ∧
      (round = .pathPaymentStrictSend → 0 < res.numSheepSend) := by
  obtain ⟨hmNonneg, hS⟩ := nonneg_of_adjustOffer hadjusted
  rw [adjustOffer_eq hprice hmNonneg hmax.1 hS hmax.2, Except.ok.injEq] at hadjusted
  -- the wheat offer as a whole: what it was adjusted to, at a price that was close enough
  have hne : adjustedFor price m maxSheepReceive ≠ 0 := by
    rw [hadjusted]
    exact hm
  have hwhole : wheatFor price m maxSheepReceive = m := by rw [← adjustedFor_eq_wheatFor hne, hadjusted]
  have hsheepPos : 0 < sheepFor price m maxSheepReceive := by
    rw [← wheatFor_pos_iff hprice hmNonneg hS, hwhole]
    exact lt_of_le_of_ne hmNonneg (Ne.symm hm)
  have hroom : 0 < maxSheepReceive := hsheepPos.trans_le (sheepFor_le hprice)
  have hclose : |price.n * wheatFor price m maxSheepReceive - price.d * sheepFor price m maxSheepReceive| * 100 ≤
      price.n * wheatFor price m maxSheepReceive := by
    have hfavor := sheepFor_mul_le (W := m) (S := maxSheepReceive) hprice
    have hbound : 100 * (wheatFor price m maxSheepReceive * price.n - sheepFor price m maxSheepReceive * price.d) ≤
        wheatFor price m maxSheepReceive * price.n := by
      by_contra hfar
      exact hne (if_neg hfar)
    rw [mul_comm price.n, mul_comm price.d, abs_of_nonneg (by omega)]
    omega
  obtain ⟨wheatStays, wheat, sheep, hres, hfair, hamounts⟩ := exchange_cases hprice
    ⟨hmNonneg, hmax.1⟩ ⟨by omega, hwheatReceive.2⟩ ⟨by omega, hsheepSend.2⟩ ⟨hS, hmax.2⟩ round
  have htaken : wheatStays = false →
      wheat = wheatFor price m maxSheepReceive ∧ sheep = sheepFor price m maxSheepReceive := by
    intro hstays
    subst hstays
    rw [if_neg Bool.false_ne_true, exchangeSheepStays_eq hprice hmNonneg hmax.1 hS hmax.2] at hamounts
    cases hamounts
    exact ⟨rfl, rfl⟩
  have hsend : round = .pathPaymentStrictSend → 0 < sheep := by
    intro hround
    cases hstays : wheatStays with
    | false => rwa [(htaken hstays).2]
    | true =>
      rw [hstays, if_pos rfl, hround] at hamounts
      rw [sheep_of_strictSend hamounts]
      omega
  obtain ⟨res, happlied, hnormal, hpath⟩ := hfair.thresholds hprice
    (fun hstays => by rw [(htaken hstays).1, (htaken hstays).2]; exact hclose) hsend
  refine ⟨res, ?_, hnormal, ?_, ?_, ?_⟩
  · rw [exchangeV10, hres]
    exact happlied
  · intro hround
    obtain ⟨rfl, hnear⟩ := hpath hround
    exact hnear
  · intro hround hstays hmore
    obtain ⟨rfl, -⟩ := hpath (by rw [hround]; decide)
    obtain rfl : wheatStays = true := hstays
    rw [if_pos rfl, hround, min_eq_right hmore] at hamounts
    have hexact : maxWheatReceive * price.n / price.n = maxWheatReceive := Int.mul_ediv_cancel _ hprice.n_pos.ne'
    rw [wheat_of_strictReceive hprice (by rw [hexact]; exact hwheatReceive.2) hamounts, hexact]
  · intro hround
    obtain ⟨rfl, -⟩ := hpath (by rw [hround]; decide)
    exact hsend hround

/-- Two of the sixty coins, paid for exactly. -/
theorem exchangeV10_adjusted_two : ∃ res, exchangeV10 ⟨3, 2⟩ 60 2 100 1000 .pathPaymentStrictReceive = .ok res ∧
    res.wheatStays = true ∧ res.numWheatReceived = 2 := by
  obtain ⟨res, hres, -, -, hreceive, -⟩ := exchangeV10_adjusted ⟨3, 2⟩ ⟨by decide, by decide⟩ 60 1000 (by decide)
    (by decide +kernel) (by decide) 2 100 (by decide) (by decide) .pathPaymentStrictReceive
  have hrun : exchangeV10 ⟨3, 2⟩ 60 2 100 1000 .pathPaymentStrictReceive = .ok ⟨2, 3, true⟩ := by decide +kernel
  rw [hrun, Except.ok.injEq] at hres
  subst hres
  exact ⟨_, hrun, rfl, hreceive rfl rfl (by decide)⟩

end Diamnet.Transactions
