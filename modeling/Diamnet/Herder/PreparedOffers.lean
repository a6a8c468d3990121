import Diamnet.Herder.Upgrades
import Diamnet.Transactions.SponsorshipEffects

/-! Which offers an upgrade keeps.

What `prepareLiabilities` does to an offer depends on the ledger it starts from: an offer is erased
if its seller is overcommitted in one of its assets or if adjusting it leaves nothing. -/
namespace Diamnet.Herder
open Ledger Transactions List

/-! ### Overcommitted sellers -/

/-- The sum of `f` over the account's offers that concern the asset, unless the account issues it. -/
def sumOver (offers : Table OfferKey OfferEntry) (f : OfferEntry → Int) (concerns : OfferEntry → Asset)
    (id : AccountID) (asset : Asset) : Int :=
  if getIssuer asset = some id then 0
  else offers.total fun key offer => if key.sellerID = id ∧ concerns offer = asset then f offer else 0

def totalSelling (s : LedgerTxn) (id : AccountID) (asset : Asset) : Int :=
  sumOver s.offers sellingLiability (·.selling) id asset

def totalBuying (s : LedgerTxn) (id : AccountID) (asset : Asset) : Int :=
  sumOver s.offers buyingLiability (·.buying) id asset

/-- The minimum balance of an account, if it is defined. -/
def minBalanceOf (s : LedgerTxn) (id : AccountID) : Int :=
  (s.accounts.lookup id).elim 0 fun acc =>
    match getMinBalance s.header acc with
    | .ok minBalance => minBalance
    | .error _ => 0

def balanceOf (s : LedgerTxn) (id : AccountID) : Int := Table.at? s.accounts id (·.balance)

def availableBalance (s : LedgerTxn) (id : AccountID) (asset : Asset) : Int :=
  if asset = .native then balanceOf s id - minBalanceOf s id
  else if getIssuer asset = some id then INT64_MAX
  else (s.trustLines.lookup (id, asset)).elim 0 fun tl =>
    if TrustLineEntry.isAuthorizedToMaintainLiabilities tl then tl.balance else 0

def availableLimit (s : LedgerTxn) (id : AccountID) (asset : Asset) : Int :=
  if asset = .native then INT64_MAX - balanceOf s id
  else if getIssuer asset = some id then INT64_MAX
  else (s.trustLines.lookup (id, asset)).elim 0 fun tl =>
    if TrustLineEntry.isAuthorizedToMaintainLiabilities tl then tl.limit - tl.balance else 0

/-- Liabilities exceed 64 bits or what there is for them. -/
def exceeds (total available : Int) : Bool := total > INT64_MAX || total > available

def overcommitted (s : LedgerTxn) (id : AccountID) (offer : OfferEntry) : Bool :=
  exceeds (totalSelling s id offer.selling) (availableBalance s id offer.selling) ||
    exceeds (totalBuying s id offer.buying) (availableLimit s id offer.buying)

def keptOffer (s : LedgerTxn) (key : OfferKey) (offer : OfferEntry) : Option OfferEntry :=
  if overcommitted s key.sellerID offer ∨ adjustedAmountOf offer = 0 then none
  else some { offer with amount := adjustedAmountOf offer }

/-! ### The initial sums -/

def clip (x : Int) : Option Int := if x ≤ INT64_MAX then some x else none

def sumFor (id : AccountID) (f : OfferEntry → Int) (concerns : OfferEntry → Asset)
    (offers : List (OfferKey × OfferEntry)) (asset : Asset) : Int :=
  if getIssuer asset = some id then 0
  else (offers.map fun e => if concerns e.2 = asset then f e.2 else 0).sum

section
variable {id : AccountID} {f : OfferEntry → Int} {concerns : OfferEntry → Asset}

theorem sumFor_offersOf (offers : Table OfferKey OfferEntry) (asset : Asset) :
    sumFor id f concerns (offersOf offers id) asset = sumOver offers f concerns id asset := by
  unfold sumFor sumOver
  split
  · rfl
  · rw [Table.total, offersOf]
    generalize offers.entries = entries
    induction entries with
    | nil => rfl
    | cons e rest ih =>
      rw [map_cons, map_cons, sum_cons, ← ih]
      by_cases hid : e.1.sellerID = id
      · rw [filter_cons_of_pos (by simpa using hid), map_cons, sum_cons]
        simp only [hid, true_and]
      · rw [filter_cons_of_neg (by simpa using hid), if_neg (fun h => hid h.1), zero_add]

theorem sumFor_append (offers : List (OfferKey × OfferEntry)) (e : OfferKey × OfferEntry) (asset : Asset) :
    sumFor id f concerns (offers ++ [e]) asset = sumFor id f concerns offers asset +
      if getIssuer asset = some id then 0 else if concerns e.2 = asset then f e.2 else 0 := by
  unfold sumFor
  split <;> simp

theorem sumFor_nonneg {offers : List (OfferKey × OfferEntry)} (h : ∀ e ∈ offers, 0 ≤ f e.2) (asset : Asset) :
    0 ≤ sumFor id f concerns offers asset := by
  unfold sumFor
  split
  · exact le_rfl
  · apply sum_nonneg
    intro x hx
    obtain ⟨e, he, rfl⟩ := mem_map.mp hx
    split
    · exact h e he
    · exact le_rfl

/-- The sums of the offers so far, for the assets they concern. -/
def IsSum (id : AccountID) (f : OfferEntry → Int) (concerns : OfferEntry → Asset)
    (offers : List (OfferKey × OfferEntry)) (sums : InitialLiabilities) : Prop :=
  ∀ asset, sums.lookup asset =
    if ∃ e ∈ offers, concerns e.2 = asset then some (clip (sumFor id f concerns offers asset)) else none

theorem addLiabilities_meets {offers : List (OfferKey × OfferEntry)} {sums : InitialLiabilities}
    (hsums : IsSum id f concerns offers sums) (hoffers : ∀ e ∈ offers, 0 ≤ f e.2) {e : OfferKey × OfferEntry}
    (he : 0 ≤ f e.2) :
    Meets (addLiabilities sums id (concerns e.2) (f e.2)) (IsSum id f concerns (offers ++ [e])) (fun _ => False) := by
  have hcurrent : (sums.lookup (concerns e.2)).getD (some 0) = clip (sumFor id f concerns offers (concerns e.2)) := by
    rw [hsums]
    split
    · rfl
    · next hnone =>
      have hzero : sumFor id f concerns offers (concerns e.2) = 0 := by
        unfold sumFor
        split
        · rfl
        · apply sum_eq_zero
          intro x hx
          obtain ⟨e', he', rfl⟩ := mem_map.mp hx
          exact if_neg fun h => hnone ⟨e', he', h⟩
      rw [hzero]
      rfl
  have hinsert : IsSum id f concerns (offers ++ [e])
      (sums.insert (concerns e.2) (clip (sumFor id f concerns (offers ++ [e]) (concerns e.2)))) := by
    intro asset
    by_cases hasset : asset = concerns e.2
    · rw [hasset, AList.lookup_insert, if_pos ⟨e, by simp, rfl⟩]
    · have hconcern : (∃ e' ∈ offers ++ [e], concerns e'.2 = asset) ↔ ∃ e' ∈ offers, concerns e'.2 = asset := by
        simp [or_and_right, exists_or, Ne.symm hasset]
      simp only [AList.lookup_insert_ne hasset, hsums asset, sumFor_append, if_neg (Ne.symm hasset), ite_self, add_zero,
        hconcern]
  have hnonneg := @sumFor_nonneg id f concerns offers hoffers (concerns e.2)
  have happend := @sumFor_append id f concerns offers e (concerns e.2)
  unfold addLiabilities
  simp only [hcurrent]
  split
  · next hissuer =>
    rw [if_pos hissuer, add_zero] at happend
    rw [happend] at hinsert
    exact hinsert
  · next hissuer =>
    rw [if_neg hissuer, if_pos rfl] at happend
    rw [happend] at hinsert
    generalize sumFor id f concerns offers (concerns e.2) = total at hnonneg hinsert
    by_cases hfits : total ≤ INT64_MAX
    · rw [clip, if_pos hfits]
      simp only [addBalance]
      rw [if_pos ⟨hnonneg, by decide⟩]
      have hsum : (if f e.2 = 0 then some total else if f e.2 < -total then none
          else if INT64_MAX - total < f e.2 then none else some (total + f e.2)) = clip (total + f e.2) := by
        unfold clip
        grind
      rw [hsum]
      exact hinsert
    · rw [clip, if_neg hfits]
      rw [clip, if_neg (by omega)] at hinsert
      exact hinsert

theorem sumLiabilities_meets {get : OfferEntry → Except Fault Int} {offers : List (OfferKey × OfferEntry)}
    (hseller : ∀ e ∈ offers, e.1.sellerID = id)
    (hget : ∀ e ∈ offers, Meets (get e.2) (fun x => x = f e.2 ∧ 0 ≤ x ∧ ValidOffer e.2) fun _ => ¬ValidOffer e.2)
    {done : List (OfferKey × OfferEntry)} (hdone : ∀ e ∈ done, 0 ≤ f e.2) {sums : InitialLiabilities}
    (hsums : IsSum id f concerns done sums) :
    Meets (sumLiabilities get concerns offers sums)
      (fun sums' => (∀ e ∈ offers, ValidOffer e.2) ∧ IsSum id f concerns (done ++ offers) sums')
      (fun _ => ∃ e ∈ offers, ¬ValidOffer e.2) := by
  induction offers generalizing done sums with
  | nil => exact ⟨by simp, by simpa using hsums⟩
  | cons e rest ih =>
    obtain ⟨hseller, hsellers⟩ := forall_mem_cons.mp hseller
    obtain ⟨hget, hgets⟩ := forall_mem_cons.mp hget
    rw [sumLiabilities, Meets.bind_iff]
    refine hget.mono ?_ fun _ hinvalid => ⟨e, .head _, hinvalid⟩
    rintro _ ⟨rfl, hnonneg, hvalid⟩
    rw [hseller, Meets.bind_iff]
    refine (addLiabilities_meets hsums hdone hnonneg).mono ?_ fun _ h => h.elim
    intro sums' hsums'
    have hdone' : ∀ e' ∈ done ++ [e], 0 ≤ f e'.2 := by
      intro e' he'
      rcases mem_append.mp he' with h | h
      · exact hdone e' h
      · rwa [mem_singleton.mp h]
    refine (ih hsellers hgets hdone' hsums').mono ?_ ?_
    · rintro sums'' ⟨hvalids, hsums''⟩
      exact ⟨forall_mem_cons.mpr ⟨hvalid, hvalids⟩, by simpa using hsums''⟩
    · rintro _ ⟨e', he', hinvalid⟩
      exact ⟨e', .tail _ he', hinvalid⟩

end

/-! ### What an upgrade leaves as it is -/

/-- An account without its counters and liabilities. -/
def frame (acc : AccountEntry) : AccountEntry := { bare acc with liabilities := {} }

def frameLine (tl : TrustLineEntry) : TrustLineEntry := { tl with liabilities := {} }

/-- The ledgers have the same header, and the same accounts and trust lines but for liabilities and
counters. -/
structure Framed (s₀ s : LedgerTxn) : Prop where
  header : s.header = s₀.header
  accounts : ∀ id, (s.accounts.lookup id).map frame = (s₀.accounts.lookup id).map frame
  trustLines : ∀ key, (s.trustLines.lookup key).map frameLine = (s₀.trustLines.lookup key).map frameLine

namespace Framed

variable {s₀ s : LedgerTxn}

theorem refl (s : LedgerTxn) : Framed s s := ⟨rfl, fun _ => rfl, fun _ => rfl⟩

theorem trans {s₁ : LedgerTxn} (h : Framed s₀ s₁) (h' : Framed s₁ s) : Framed s₀ s :=
  ⟨h'.header.trans h.header, fun id => (h'.accounts id).trans (h.accounts id),
    fun key => (h'.trustLines key).trans (h.trustLines key)⟩

theorem exists_account (h : Framed s₀ s) {id : AccountID} {acc : AccountEntry} (hacc : s.accounts.lookup id = some acc) :
    ∃ acc₀, s₀.accounts.lookup id = some acc₀ ∧ frame acc = frame acc₀ := by
  have hframe := h.accounts id
  rw [hacc, Option.map_some] at hframe
  obtain ⟨acc₀, hacc₀, heq⟩ := Option.map_eq_some_iff.mp hframe.symm
  exact ⟨acc₀, hacc₀, heq.symm⟩

theorem exists_trustLine (h : Framed s₀ s) {key : AccountID × Asset} {tl : TrustLineEntry}
    (htl : s.trustLines.lookup key = some tl) :
    ∃ tl₀, s₀.trustLines.lookup key = some tl₀ ∧ frameLine tl = frameLine tl₀ := by
  have hframe := h.trustLines key
  rw [htl, Option.map_some] at hframe
  obtain ⟨tl₀, htl₀, heq⟩ := Option.map_eq_some_iff.mp hframe.symm
  exact ⟨tl₀, htl₀, heq.symm⟩

theorem trustLine_none (h : Framed s₀ s) {key : AccountID × Asset} (hnone : s.trustLines.lookup key = none) :
    s₀.trustLines.lookup key = none := by
  have hframe := h.trustLines key
  rw [hnone] at hframe
  exact Option.map_eq_none_iff.mp hframe.symm

end Framed

theorem balance_of_frame {acc acc' : AccountEntry} (h : frame acc' = frame acc) : acc'.balance = acc.balance :=
  show (frame acc').balance = (frame acc).balance by rw [h]

theorem line_of_frame {tl tl' : TrustLineEntry} (h : frameLine tl' = frameLine tl) :
    tl'.balance = tl.balance ∧ tl'.limit = tl.limit ∧ tl'.flags = tl.flags :=
  show (frameLine tl').balance = (frameLine tl).balance ∧ (frameLine tl').limit = (frameLine tl).limit ∧
    (frameLine tl').flags = (frameLine tl).flags by rw [h]; exact ⟨rfl, rfl, rfl⟩

theorem isAuthorized_of_flags {tl tl' : TrustLineEntry} (h : tl'.flags = tl.flags) :
    TrustLineEntry.isAuthorizedToMaintainLiabilities tl' = TrustLineEntry.isAuthorizedToMaintainLiabilities tl := by
  simp only [TrustLineEntry.isAuthorizedToMaintainLiabilities, TrustLineEntry.isAuthorized, h]

/-! ### Excess liabilities -/

/-- Balances are 64-bit, not negative and within the limits. -/
structure InRange (s : LedgerTxn) : Prop where
  accounts : ∀ id acc, s.accounts.lookup id = some acc → 0 ≤ acc.balance ∧ acc.balance ≤ INT64_MAX
  trustLines : ∀ id asset tl, asset ≠ .native → getIssuer asset ≠ some id → s.trustLines.lookup (id, asset) = some tl →
    0 ≤ tl.balance ∧ tl.balance ≤ tl.limit ∧ tl.limit ≤ INT64_MAX

theorem InRange.balanceOf {s : LedgerTxn} (h : InRange s) (id : AccountID) :
    0 ≤ balanceOf s id ∧ balanceOf s id ≤ INT64_MAX := by
  unfold Herder.balanceOf Table.at?
  cases hacc : s.accounts.lookup id with
  | none => decide
  | some acc => exact h.accounts id acc hacc

section
variable {s₀ s : LedgerTxn} (hframed : Framed s₀ s) (id : AccountID) (asset : Asset)
include hframed

theorem availableBalance_runs :
    Runs (getAvailableBalanceExcludingLiabilities id asset (balanceOf s₀ id - minBalanceOf s₀ id)) s
      (fun cap s' => s' = s ∧ cap = availableBalance s₀ id asset) (fun _ => False) := by
  unfold getAvailableBalanceExcludingLiabilities availableBalance
  split
  · exact ⟨rfl, rfl⟩
  · split
    · exact ⟨rfl, rfl⟩
    · simp only [Runs.bind_iff, runs_findTrustLine]
      cases htl : s.trustLines.lookup (id, asset) with
      | none =>
        rw [hframed.trustLine_none htl]
        exact ⟨rfl, rfl⟩
      | some tl =>
        obtain ⟨tl₀, htl₀, hline⟩ := hframed.exists_trustLine htl
        obtain ⟨hbalance, -, hflags⟩ := line_of_frame hline
        rw [htl₀, Option.elim_some, ← isAuthorized_of_flags hflags, ← hbalance]
        exact ⟨rfl, rfl⟩

theorem availableLimit_runs :
    Runs (getAvailableLimitExcludingLiabilities id asset (balanceOf s₀ id)) s
      (fun cap s' => s' = s ∧ cap = availableLimit s₀ id asset) (fun _ => ¬InRange s₀) := by
  unfold getAvailableLimitExcludingLiabilities availableLimit
  split
  · rw [runs_checked, meets_int64]
    refine ⟨fun _ => ⟨rfl, rfl⟩, fun hoverflow hrange => hoverflow ?_⟩
    have hbalance := hrange.balanceOf id
    simp only [INT64_MIN, INT64_MAX] at hbalance ⊢
    omega
  · next hnative =>
    split
    · exact ⟨rfl, rfl⟩
    · next hissuer =>
      simp only [Runs.bind_iff, runs_findTrustLine]
      cases htl : s.trustLines.lookup (id, asset) with
      | none =>
        rw [hframed.trustLine_none htl]
        exact ⟨rfl, rfl⟩
      | some tl =>
        obtain ⟨tl₀, htl₀, hline⟩ := hframed.exists_trustLine htl
        obtain ⟨hbalance, hlimit, hflags⟩ := line_of_frame hline
        rw [htl₀, Option.elim_some, ← isAuthorized_of_flags hflags, ← hbalance, ← hlimit]
        dsimp only
        split
        · rw [runs_checked, meets_int64]
          refine ⟨fun _ => ⟨rfl, rfl⟩, fun hoverflow hrange => hoverflow ?_⟩
          have htl₀ := hrange.trustLines _ _ _ hnative hissuer htl₀
          simp only [INT64_MIN, INT64_MAX] at htl₀ ⊢
          omega
        · exact ⟨rfl, rfl⟩

end

theorem shouldDeleteOffer_runs {s : LedgerTxn} {asset : Asset} {sums : InitialLiabilities} {total available : Int} {getCap : LedgerM Int}
    {E : Failure → Prop} (hsum : sums.lookup asset = some (clip total))
    (hcap : Runs getCap s (fun cap s' => s' = s ∧ cap = available) E) :
    Runs (shouldDeleteOffer asset sums getCap) s (fun excess s' => s' = s ∧ excess = exceeds total available) E := by
  unfold shouldDeleteOffer
  rw [hsum]
  by_cases hfits : total ≤ INT64_MAX
  · rw [clip, if_pos hfits]
    refine hcap.bind ?_
    rintro cap s' ⟨rfl, rfl⟩
    exact ⟨rfl, by simp [exceeds, not_lt.mpr hfits]⟩
  · rw [clip, if_neg hfits]
    exact ⟨rfl, by simp [exceeds, not_le.mp hfits]⟩

/-- What the update of an account's offers starts from. -/
structure IsBefore (s₀ : LedgerTxn) (id : AccountID) (before : Before) : Prop where
  balance : before.balance = balanceOf s₀ id
  balanceAboveReserve : before.balanceAboveReserve = balanceOf s₀ id - minBalanceOf s₀ id
  selling : IsSum id sellingLiability (·.selling) (offersOf s₀.offers id) before.initialSellingLiabilities
  buying : IsSum id buyingLiability (·.buying) (offersOf s₀.offers id) before.initialBuyingLiabilities

theorem hasExcess_runs {s₀ s : LedgerTxn} (hframed : Framed s₀ s) {id : AccountID} {before : Before}
    (hbefore : IsBefore s₀ id before) {key : OfferKey} {offer : OfferEntry}
    (hmem : (key, offer) ∈ offersOf s₀.offers id) :
    Runs (hasExcess before id offer) s (fun excess s' => s' = s ∧ excess = overcommitted s₀ id offer)
      (fun _ => ¬InRange s₀) := by
  have hselling := hbefore.selling offer.selling
  rw [if_pos ⟨_, hmem, rfl⟩, sumFor_offersOf] at hselling
  have hbuying := hbefore.buying offer.buying
  rw [if_pos ⟨_, hmem, rfl⟩, sumFor_offersOf] at hbuying
  have hbalance := (availableBalance_runs hframed id offer.selling).mono (fun _ _ h => h)
    (fun _ h => (h.elim : ¬InRange s₀))
  unfold hasExcess
  rw [hbefore.balance, hbefore.balanceAboveReserve]
  refine (shouldDeleteOffer_runs hselling hbalance).bind ?_
  rintro excess s' ⟨rfl, rfl⟩
  unfold overcommitted totalSelling totalBuying
  split
  · next hexcess =>
    rw [hexcess]
    exact ⟨rfl, rfl⟩
  · next hexcess =>
    rw [Bool.not_eq_true] at hexcess
    rw [hexcess, Bool.false_or]
    exact shouldDeleteOffer_runs hbuying (availableLimit_runs hframed id offer.buying)

/-! ### The liabilities of kept offers -/

/-- The table has the assets `mentioned`, with these liabilities. -/
structure Holds (liabilities : Table Asset Liabilities) (mentioned : Asset → Prop) (buying selling : Asset → Int) :
    Prop where
  mem : ∀ asset, asset ∈ liabilities ↔ mentioned asset
  amounts : ∀ asset, (liabilities.lookup asset).getD {} = ⟨buying asset, selling asset⟩

/-- What an offer adds to the liabilities in an asset. -/
def contribution (id : AccountID) (f : OfferEntry → Int) (concerns : OfferEntry → Asset) (offer : OfferEntry)
    (asset : Asset) : Int :=
  if getIssuer asset ≠ some id ∧ concerns offer = asset then f offer else 0

/-- The offer buys or sells the asset, and its seller does not issue it. -/
def Mentions (id : AccountID) (offer : OfferEntry) (asset : Asset) : Prop :=
  getIssuer asset ≠ some id ∧ (offer.buying = asset ∨ offer.selling = asset)

theorem addKept_runs {s : LedgerTxn} {liabilities : Table Asset Liabilities} {id : AccountID} {asset : Asset}
    {get : Liabilities → Int} {put : Liabilities → Int → Liabilities} {x : Int} {what : String}
    (hx : 0 ≤ x) (hold : 0 ≤ get ((liabilities.lookup asset).getD {}))
    (hfits : getIssuer asset ≠ some id → get ((liabilities.lookup asset).getD {}) + x ≤ INT64_MAX) :
    Runs (addKept liabilities id asset get put (.ok x) what) s
      (fun liabilities' s' => s' = s ∧ liabilities' = if getIssuer asset = some id then liabilities
        else liabilities.insert asset (put ((liabilities.lookup asset).getD {})
          (get ((liabilities.lookup asset).getD {}) + x)))
      (fun _ => False) := by
  unfold addKept
  split
  · exact ⟨rfl, rfl⟩
  · next hissuer =>
    have hsum := addBalance_fits hold (add_nonneg hold hx) (hfits hissuer)
    simp only [Runs.bind_iff, runs_checked, Meets.ok_iff, hsum]
    exact ⟨rfl, rfl⟩

section
variable {liabilities : Table Asset Liabilities} {mentioned : Asset → Prop} {buying selling : Asset → Int}
variable (hholds : Holds liabilities mentioned buying selling) (id : AccountID) (offer : OfferEntry)
include hholds

theorem Holds.addBuying :
    Holds (if getIssuer offer.buying = some id then liabilities
        else liabilities.insert offer.buying { (liabilities.lookup offer.buying).getD {} with
          buying := ((liabilities.lookup offer.buying).getD {}).buying + buyingLiability offer })
      (fun asset => mentioned asset ∨ getIssuer asset ≠ some id ∧ offer.buying = asset)
      (fun asset => buying asset + contribution id buyingLiability (·.buying) offer asset) selling := by
  constructor
  · intro asset
    have := hholds.mem asset
    split <;> grind [AList.mem_insert]
  · intro asset
    have hamounts := hholds.amounts asset
    unfold contribution
    by_cases hasset : offer.buying = asset
    · subst hasset
      split
      · next hissuer => simpa [hissuer] using hamounts
      · next hissuer => simp [hissuer, hamounts]
    · have hlookup : ∀ l, (liabilities.insert offer.buying l).lookup asset = liabilities.lookup asset :=
        fun l => AList.lookup_insert_ne (Ne.symm hasset)
      split <;> simp [hasset, hlookup, hamounts]

theorem Holds.addSelling :
    Holds (if getIssuer offer.selling = some id then liabilities
        else liabilities.insert offer.selling { (liabilities.lookup offer.selling).getD {} with
          selling := ((liabilities.lookup offer.selling).getD {}).selling + sellingLiability offer })
      (fun asset => mentioned asset ∨ getIssuer asset ≠ some id ∧ offer.selling = asset)
      buying (fun asset => selling asset + contribution id sellingLiability (·.selling) offer asset) := by
  constructor
  · intro asset
    have := hholds.mem asset
    split <;> grind [AList.mem_insert]
  · intro asset
    have hamounts := hholds.amounts asset
    unfold contribution
    by_cases hasset : offer.selling = asset
    · subst hasset
      split
      · next hissuer => simpa [hissuer] using hamounts
      · next hissuer => simp [hissuer, hamounts]
    · have hlookup : ∀ l, (liabilities.insert offer.selling l).lookup asset = liabilities.lookup asset :=
        fun l => AList.lookup_insert_ne (Ne.symm hasset)
      split <;> simp [hasset, hlookup, hamounts]

theorem addOfferLiabilities_runs {s : LedgerTxn} {lh : LedgerHeader} (hv : 10 ≤ lh.ledgerVersion)
    (hoffer : ValidOffer offer) (hbuying : ∀ asset, 0 ≤ buying asset) (hselling : ∀ asset, 0 ≤ selling asset)
    (hfitsBuying : getIssuer offer.buying ≠ some id → buying offer.buying + buyingLiability offer ≤ INT64_MAX)
    (hfitsSelling : getIssuer offer.selling ≠ some id → selling offer.selling + sellingLiability offer ≤ INT64_MAX) :
    Runs (addOfferLiabilities lh id offer liabilities) s
      (fun liabilities' s' => s' = s ∧ Holds liabilities' (fun asset => mentioned asset ∨ Mentions id offer asset)
        (fun asset => buying asset + contribution id buyingLiability (·.buying) offer asset)
        (fun asset => selling asset + contribution id sellingLiability (·.selling) offer asset))
      (fun _ => False) := by
  unfold addOfferLiabilities
  rw [hoffer.getOfferBuyingLiabilities_eq hv, hoffer.getOfferSellingLiabilities_eq hv]
  refine (addKept_runs hoffer.buyingLiability_nonneg ?_ ?_).bind ?_
  · rw [hholds.amounts]
    exact hbuying _
  · rw [hholds.amounts]
    exact hfitsBuying
  · rintro liabilities' s' ⟨rfl, rfl⟩
    have hbought := hholds.addBuying id offer
    refine (addKept_runs hoffer.sellingLiability_nonneg ?_ ?_).mono ?_ fun _ h => h
    · rw [hbought.amounts]
      exact hselling _
    · rw [hbought.amounts]
      exact hfitsSelling
    · rintro liabilities'' s'' ⟨rfl, rfl⟩
      have hsold := hbought.addSelling id offer
      refine ⟨rfl, fun asset => ?_, hsold.amounts⟩
      rw [hsold.mem, Mentions, or_assoc, ← and_or_left]

end

end Diamnet.Herder
