import Diamnet.Herder.PreparedLedger

/-! What upgrades of the reserve and of the version do to a ledger with offers. -/
namespace Diamnet.Herder
open Ledger Transactions Table AList

def Accounted (s : LedgerTxn) : Prop :=
  ∀ id asset, getIssuer asset ≠ some id →
    storedLiabilities s id asset = ⟨totalBuying s id asset, totalSelling s id asset⟩

def assetsOf (s : LedgerTxn) : List Asset :=
  .native :: (s.trustLines.keys.map Prod.snd ++ s.offers.entries.flatMap fun e => [e.2.selling, e.2.buying])

variable {id : AccountID} {asset : Asset}

theorem sumOver_eq_zero {offers : Table OfferKey OfferEntry} {f : OfferEntry → Int} {concerns : OfferEntry → Asset}
    (h : ∀ key offer, offers.lookup key = some offer → ¬(key.sellerID = id ∧ concerns offer = asset)) :
    sumOver offers f concerns id asset = 0 := by
  unfold sumOver
  split
  · rfl
  · exact total_eq_zero _ fun key offer hkey => if_neg (h key offer hkey)

variable {s : LedgerTxn}

theorem unmentioned_free (h : ¬(id ∈ mentioned s ∧ asset ∈ assetsOf s)) :
    storedLiabilities s id asset = ⟨totalBuying s id asset, totalSelling s id asset⟩ := by
  have hseller : ∀ key offer, s.offers.lookup key = some offer →
      key.sellerID ∈ mentioned s ∧ offer.selling ∈ assetsOf s ∧ offer.buying ∈ assetsOf s := by
    intro key offer hkey
    have hmem := mem_lookup_iff.mp hkey
    simp only [mentioned, assetsOf, List.mem_append, List.mem_flatMap, List.mem_cons]
    grind
  rw [totalBuying, totalSelling, sumOver_eq_zero, sumOver_eq_zero]
  · unfold storedLiabilities
    split
    · next hnative =>
      cases hacc : s.accounts.lookup id with
      | none => rfl
      | some acc =>
        have hkey := mem_keys_of_lookup hacc
        exact absurd ⟨by simp [mentioned, hkey], by simp [assetsOf, hnative]⟩ h
    · cases htl : s.trustLines.lookup (id, asset) with
      | none => rfl
      | some tl =>
        have hmem := mem_lookup_iff.mp htl
        have hasset := List.mem_map_of_mem (f := Prod.snd) (mem_keys_of_lookup htl)
        refine absurd ⟨?_, by simp [assetsOf, hasset]⟩ h
        simp only [mentioned, List.mem_append, List.mem_flatMap, List.mem_cons]
        grind
  · rintro key offer hkey ⟨rfl, rfl⟩
    exact h ⟨(hseller key offer hkey).1, (hseller key offer hkey).2.1⟩
  · rintro key offer hkey ⟨rfl, rfl⟩
    exact h ⟨(hseller key offer hkey).1, (hseller key offer hkey).2.2⟩

instance (s : LedgerTxn) : Decidable (Accounted s) :=
  decidable_of_iff (∀ id ∈ mentioned s, ∀ asset ∈ assetsOf s, getIssuer asset ≠ some id →
    storedLiabilities s id asset = ⟨totalBuying s id asset, totalSelling s id asset⟩)
    ⟨fun h id asset hissuer => by
      by_cases hmentioned : id ∈ mentioned s ∧ asset ∈ assetsOf s
      · exact h id hmentioned.1 asset hmentioned.2 hissuer
      · exact unmentioned_free hmentioned,
    fun h id _ asset _ => h id asset⟩

/-! ### The offers that remain -/

section
variable {s₀ s : LedgerTxn} {settled : List AccountID} (hprepared : Prepared s₀ s₀.offers.keys settled s)
include hprepared

theorem Prepared.offers_eq (key : OfferKey) :
    s.offers.lookup key = (s₀.offers.lookup key).bind (keptOffer s₀ key) := by
  rw [hprepared.stage.offers]
  cases hkey : s₀.offers.lookup key with
  | none => rfl
  | some offer => exact if_pos (mem_keys_of_lookup hkey)

theorem Prepared.sumOver_eq (f : OfferEntry → Int) (concerns : OfferEntry → Asset) (id : AccountID) (asset : Asset) :
    sumOver s.offers f concerns id asset = contributions id f concerns (keptOffers s₀ id) asset := by
  unfold sumOver contributions keptOffers keptOf contribution
  split
  · next hissuer => simp [hissuer]
  · next hissuer =>
    rw [total_bind s₀.offers s.offers (keptOffer s₀) _ hprepared.offers_eq, total, offersOf]
    generalize s₀.offers.entries = entries
    induction entries with
    | nil => rfl
    | cons e rest ih =>
      rw [List.map_cons, List.map_cons, List.sum_cons, ih]
      by_cases hid : e.1.sellerID = id
      · cases hkept : keptOffer s₀ e.1 e.2 <;> simp [hkept, hid, hissuer]
      · cases keptOffer s₀ e.1 e.2 <;> simp [hid]

end

/-- A seller's liabilities are those of its remaining offers in the assets of the offers it keeps, and
what they were in others. -/
theorem Prepared.stored_eq {s₀ : LedgerTxn} (hprepared : Prepared s₀ s₀.offers.keys (sellers s₀.offers) s)
    (hissuer : getIssuer asset ≠ some id) :
    (KeepsIn s₀ id asset →
      storedLiabilities s id asset = ⟨totalBuying s id asset, totalSelling s id asset⟩) ∧
    (¬KeepsIn s₀ id asset → storedLiabilities s id asset = storedLiabilities s₀ id asset ∧
      totalBuying s id asset = 0 ∧ totalSelling s id asset = 0) := by
  have hselling := hprepared.sumOver_eq sellingLiability (·.selling) id asset
  have hbuying := hprepared.sumOver_eq buyingLiability (·.buying) id asset
  constructor
  · intro hkeeps
    have hseller : id ∈ sellers s₀.offers := by
      obtain ⟨kept, hkept, -⟩ := hkeeps
      obtain ⟨key, offer, hkey, hseller, -⟩ := mem_keptOffers.mp hkept
      exact mem_sellers.mpr ⟨key, offer, hkey, hseller⟩
    rw [hprepared.stored id asset hseller hkeeps, totalBuying, totalSelling, hselling, hbuying]
    rfl
  · intro hkeeps
    refine ⟨hprepared.other id asset fun h => hkeeps h.2, ?_, ?_⟩
    · rw [totalBuying, hbuying]
      by_contra hne
      obtain ⟨kept, hkept, -, hasset⟩ := exists_of_contributions_ne hne
      exact hkeeps ⟨kept, hkept, hissuer, .inl hasset⟩
    · rw [totalSelling, hselling]
      by_contra hne
      obtain ⟨kept, hkept, -, hasset⟩ := exists_of_contributions_ne hne
      exact hkeeps ⟨kept, hkept, hissuer, .inr hasset⟩

/-! ### The reserve -/

def withReserve (s : LedgerTxn) (newReserve : Nat) : LedgerTxn :=
  { s with header := { s.header with baseReserve := newReserve } }

theorem applyReserveUpgrade_run {newReserve : Nat} (hv : 10 ≤ s.header.ledgerVersion)
    (hmore : s.header.baseReserve < newReserve) :
    (applyReserveUpgrade newReserve).run s = prepareLiabilities.run (withReserve s newReserve) := by
  have hprepare : s.header.ledgerVersion ≥ 10 ∧ newReserve > s.header.baseReserve := ⟨hv, hmore⟩
  show (if s.header.ledgerVersion ≥ 10 ∧ newReserve > s.header.baseReserve then prepareLiabilities
    else pure ()).run (withReserve s newReserve) = _
  rw [if_pos hprepare]

/-- After an upgrade of the reserve stored liabilities are those of the remaining offers if and only
if under the new reserve every account keeps an offer in each asset in which it is liable. -/
theorem applyReserveUpgrade_accounted_iff {s s' : LedgerTxn} {newReserve : Nat}
    (hv : 10 ≤ s.header.ledgerVersion)
    (hamounts : ∀ key offer, s.offers.lookup key = some offer → offer.amount ≤ INT64_MAX)
    (hmore : s.header.baseReserve < newReserve) (hrun : (applyReserveUpgrade newReserve).run s = .ok ((), s')) :
    Accounted s' ↔ ∀ id asset, getIssuer asset ≠ some id → storedLiabilities s id asset ≠ {} →
      KeepsIn (withReserve s newReserve) id asset := by
  rw [applyReserveUpgrade_run hv hmore] at hrun
  have hruns := @prepareLiabilities_runs (withReserve s newReserve) hv hamounts
  obtain ⟨hprepared, -⟩ := hruns.of_ok hrun
  constructor
  · intro h id asset hissuer hstored
    by_contra hnone
    obtain ⟨hold, hbuying, hselling⟩ := (hprepared.stored_eq hissuer).2 hnone
    have hnew := h id asset hissuer
    rw [hold, hbuying, hselling] at hnew
    exact hstored hnew
  · intro h id asset hissuer
    by_cases hoffer : KeepsIn (withReserve s newReserve) id asset
    · exact (hprepared.stored_eq hissuer).1 hoffer
    · obtain ⟨hold, hbuying, hselling⟩ := (hprepared.stored_eq hissuer).2 hoffer
      have hstored : storedLiabilities s id asset = {} := by
        by_contra hne
        exact hoffer (h id asset hissuer hne)
      rw [hold, hbuying, hselling]
      exact hstored

def dollar : Asset := .alphaNum4 #v[85, 83, 68, 0] 2

def halfOffer : OfferEntry := { selling := .native, buying := dollar, amount := 50, price := ⟨1, 1⟩ }

def seller : LedgerTxn where
  header := ⟨15, 5, 0, 1000, 0, 0, 7, 10, 100, 1000⟩
  accounts := insert 1 { balance := 100, seqNum := 0, numSubEntries := 2, liabilities := { selling := 50 } } ∅
  trustLines := insert (1, dollar) { balance := 0, limit := 1000, flags := 1, liabilities := { buying := 50 } } ∅
  offers := insert ⟨1, 7⟩ halfOffer ∅

theorem seller_totals (hissuer : getIssuer asset ≠ some id) :
    totalSelling seller id asset = (if 1 = id ∧ Asset.native = asset then 50 else 0) ∧
      totalBuying seller id asset = if 1 = id ∧ dollar = asset then 50 else 0 := by
  have hselling : sellingLiability halfOffer = 50 := by decide +kernel
  have hbuying : buyingLiability halfOffer = 50 := by decide +kernel
  have hassets : halfOffer.selling = .native ∧ halfOffer.buying = dollar := ⟨rfl, rfl⟩
  simp [totalSelling, totalBuying, sumOver, hissuer, total, seller, hselling, hbuying, hassets]

theorem seller_accounted : Accounted seller := by decide +kernel

theorem seller_offers {key : OfferKey} {offer : OfferEntry} (h : seller.offers.lookup key = some offer) :
    key = ⟨1, 7⟩ ∧ offer = halfOffer := by
  have hmem := mem_lookup_iff.mp h
  rw [show seller.offers.entries = [⟨⟨1, 7⟩, halfOffer⟩] from rfl, List.mem_singleton] at hmem
  cases hmem
  exact ⟨rfl, rfl⟩

/-- The offer is erased when the reserve doubles, and the account stays liable for it. -/
theorem seller_stays_liable : Accounted seller ∧
    ∃ s', (applyReserveUpgrade 20).run seller = .ok ((), s') ∧ ¬Accounted s' := by
  refine ⟨seller_accounted, ?_⟩
  obtain ⟨⟨⟨⟩, s'⟩, hrun, hne⟩ := Meets.exists_ok (r := (applyReserveUpgrade 20).run seller)
    (Q := fun p => storedLiabilities p.2 1 .native ≠ ⟨totalBuying p.2 1 .native, totalSelling p.2 1 .native⟩)
    (by decide +kernel)
  exact ⟨s', hrun, fun h => hne (h 1 .native (by simp [getIssuer]))⟩

theorem seller_keeps {asset : Asset} (hasset : dollar = asset ∨ .native = asset) :
    KeepsIn (withReserve seller 12) 1 asset := by
  have hkept : halfOffer ∈ keptOffers (withReserve seller 12) 1 := by decide +kernel
  refine ⟨halfOffer, hkept, ?_, hasset⟩
  obtain rfl | rfl := hasset <;> decide

/-- With a reserve that leaves the offer, liabilities are accounted. -/
theorem seller_keeps_offer : ∃ s', (applyReserveUpgrade 12).run seller = .ok ((), s') ∧ Accounted s' := by
  obtain ⟨⟨⟨⟩, s'⟩, hrun, -⟩ := Meets.exists_ok (r := (applyReserveUpgrade 12).run seller)
    (Q := fun _ => True) (by decide +kernel)
  have hamounts : ∀ key offer, seller.offers.lookup key = some offer → offer.amount ≤ INT64_MAX := by
    intro key offer h
    rw [(seller_offers h).2]
    decide
  refine ⟨s', hrun, (applyReserveUpgrade_accounted_iff (by decide) hamounts (by decide) hrun).mpr ?_⟩
  intro id asset hissuer hstored
  rw [seller_accounted id asset hissuer, (seller_totals hissuer).1, (seller_totals hissuer).2] at hstored
  by_cases hselling : 1 = id ∧ Asset.native = asset
  · exact hselling.1 ▸ seller_keeps (.inr hselling.2)
  · by_cases hbuying : 1 = id ∧ dollar = asset
    · exact hbuying.1 ▸ seller_keeps (.inl hbuying.2)
    · simp [hselling, hbuying] at hstored

/-! ### When an upgrade of the reserve returns -/

section
variable {s₀ : LedgerTxn} (hcounted : Counted s₀)
include hcounted

theorem reserved_le_counters (q : Quantity) : s₀.offers.total (reserved · · q) ≤ countersOf s₀ q := by
  by_cases hq : q.IsCount
  · rw [hcounted.counters q hq, entriesCounted]
    have haccounts := total_nonneg s₀.accounts fun id acc _ =>
      add_nonneg (counted_nonneg (.account acc) id acc.sponsoringID q) (signersCounted_nonneg id acc q)
    have hlines := total_nonneg s₀.trustLines fun key tl _ =>
      counted_nonneg (.trustLine tl) key.1 tl.sponsoringID q
    have hdata := total_nonneg s₀.data fun key entry _ => counted_nonneg (.data entry) key.1 entry.sponsoringID q
    have hbalances := total_nonneg s₀.claimableBalances fun _ entry _ =>
      counted_nonneg (.claimableBalance entry) 0 entry.sponsoringID q
    unfold reserved
    simp only [Pi.add_apply] at haccounts ⊢
    omega
  · rw [total_eq_zero]
    · exact countersOf_nonneg s₀ q
    · intro key offer _
      cases q <;> first | exact absurd trivial hq | (cases hs : offer.sponsoringID <;> simp [reserved, counted, hs, tallied])

theorem erased_le_counters (done : List OfferKey) (q : Quantity) : erased s₀ done q ≤ countersOf s₀ q := by
  refine le_trans ?_ (reserved_le_counters hcounted q)
  apply total_mono
  intro key offer _
  have hnonneg := reserved_nonneg key offer q
  split <;> omega

theorem seller_exists {key : OfferKey} {offer : OfferEntry} (h : s₀.offers.lookup key = some offer) :
    (s₀.accounts.lookup key.sellerID).isSome = true := by
  have hone : reserved key offer (.subEntries key.sellerID) = 1 := by
    cases hs : offer.sponsoringID <;> simp [reserved, counted, hs, tallied, isSubentry]
  have hle := le_total s₀.offers (fun k v _ => reserved_nonneg k v (.subEntries key.sellerID)) h
  have hcount := hle.trans (reserved_le_counters hcounted (.subEntries key.sellerID))
  rw [hone, countersOf_subEntries] at hcount
  obtain ⟨acc, hacc, -⟩ := exists_of_one_le_at? hcount
  rw [hacc, Option.isSome_some]

/-- An account is sponsored for no more reserves than it has, also after offers are erased. -/
theorem sponsored_le (done : List OfferKey) (id : AccountID) :
    countersOf s₀ (.sponsored id) - erased s₀ done (.sponsored id) ≤
      2 + (countersOf s₀ (.subEntries id) - erased s₀ done (.subEntries id)) := by
  have haccounts : s₀.accounts.total (fun id' acc =>
      (counted (.account acc) id' acc.sponsoringID + signersCounted id' acc) (.sponsored id)) ≤
      s₀.accounts.total (fun id' acc =>
        (counted (.account acc) id' acc.sponsoringID + signersCounted id' acc) (.subEntries id) +
          if id' = id then 2 else 0) := by
    apply total_mono
    intro id' acc hacc
    have hslots := hcounted.slots id' acc hacc
    simp only [Pi.add_apply, signersCounted]
    cases acc.sponsoringID <;>
      simp only [counted, isSubentry, isClaimableBalance, computeMultiplier, tallied, Pi.add_apply] <;> grind
  have hone : s₀.accounts.total (fun id' _ => if id' = id then 2 else 0) ≤ 2 := by
    rw [total_single, at?]
    cases s₀.accounts.lookup id <;> simp
  have hlines : s₀.trustLines.total (fun key tl => counted (.trustLine tl) key.1 tl.sponsoringID (.sponsored id)) ≤
      s₀.trustLines.total (fun key tl => counted (.trustLine tl) key.1 tl.sponsoringID (.subEntries id)) :=
    total_mono _ fun key tl _ => counted_sponsored_le rfl _ _ _
  have hdata : s₀.data.total (fun key entry => counted (.data entry) key.1 entry.sponsoringID (.sponsored id)) ≤
      s₀.data.total (fun key entry => counted (.data entry) key.1 entry.sponsoringID (.subEntries id)) :=
    total_mono _ fun key tl _ => counted_sponsored_le rfl _ _ _
  have hbalances : s₀.claimableBalances.total (fun _ entry =>
      counted (.claimableBalance entry) 0 entry.sponsoringID (.sponsored id)) ≤
      s₀.claimableBalances.total (fun _ entry =>
        counted (.claimableBalance entry) 0 entry.sponsoringID (.subEntries id)) := by
    apply total_mono
    intro _ entry _
    cases entry.sponsoringID <;> simp [counted, isSubentry, isClaimableBalance, tallied]
  have hoffers : s₀.offers.total (reserved · · (.sponsored id)) - erased s₀ done (.sponsored id) ≤
      s₀.offers.total (reserved · · (.subEntries id)) - erased s₀ done (.subEntries id) := by
    unfold erased
    rw [← total_sub, ← total_sub]
    apply total_mono
    intro key offer _
    have hreserved : reserved key offer (.sponsored id) ≤ reserved key offer (.subEntries id) :=
      counted_sponsored_le rfl _ _ _
    split <;> omega
  unfold reserved at hoffers
  rw [total_add] at haccounts
  rw [hcounted.counters (.sponsored id) trivial, hcounted.counters (.subEntries id) trivial, entriesCounted, entriesCounted]
  omega

theorem effective_nonneg (id : AccountID) : 0 ≤ effectiveAfter s₀ id := by
  have hsub := erased_le_counters hcounted (keysUpTo s₀ id) (.subEntries id)
  have hsponsoring := erased_le_counters hcounted (keysUpTo s₀ id) (.sponsoring id)
  unfold effectiveAfter effectiveEntries
  simp only [Pi.sub_apply]
  split
  · omega
  · have hsponsored := sponsored_le hcounted (keysUpTo s₀ id) id
    omega

end

/-- Balances respect liabilities and limits. -/
structure Respected (s : LedgerTxn) : Prop where
  accounts : ∀ id acc, s.accounts.lookup id = some acc →
    0 ≤ acc.balance ∧ acc.balance + acc.liabilities.buying ≤ INT64_MAX ∧ acc.liabilities.selling ≤ INT64_MAX
  trustLines : ∀ key tl, s.trustLines.lookup key = some tl → 0 ≤ tl.balance ∧
    tl.liabilities.selling ≤ tl.balance ∧ tl.balance + tl.liabilities.buying ≤ tl.limit ∧ tl.limit ≤ INT64_MAX

instance (s : LedgerTxn) : Decidable (Respected s) :=
  decidable_of_iff
    ((∀ id acc, s.accounts.lookup id = some acc →
      0 ≤ acc.balance ∧ acc.balance + acc.liabilities.buying ≤ INT64_MAX ∧ acc.liabilities.selling ≤ INT64_MAX) ∧
    ∀ key tl, s.trustLines.lookup key = some tl → 0 ≤ tl.balance ∧
      tl.liabilities.selling ≤ tl.balance ∧ tl.balance + tl.liabilities.buying ≤ tl.limit ∧ tl.limit ≤ INT64_MAX)
    ⟨fun h => ⟨h.1, h.2⟩, fun h => ⟨h.1, h.2⟩⟩

theorem sumOver_nonneg {offers : Table OfferKey OfferEntry} {f : OfferEntry → Int}
    (h : ∀ key offer, offers.lookup key = some offer → 0 ≤ f offer) (concerns : OfferEntry → Asset)
    (id : AccountID) (asset : Asset) : 0 ≤ sumOver offers f concerns id asset := by
  unfold sumOver
  split
  · exact le_rfl
  · apply total_nonneg
    intro key offer hkey
    split
    · exact h key offer hkey
    · exact le_rfl

theorem liabilities64_zero : Liabilities64 {} := by
  unfold Liabilities64
  decide

section
variable {s : LedgerTxn} (haccounted : Accounted s)
variable (hoffers : ∀ key offer, s.offers.lookup key = some offer → ValidOffer offer)
include haccounted hoffers

theorem Accounted.nonneg {id : AccountID} {asset : Asset} (hissuer : getIssuer asset ≠ some id) :
    0 ≤ (storedLiabilities s id asset).selling ∧ 0 ≤ (storedLiabilities s id asset).buying := by
  rw [haccounted id asset hissuer]
  exact ⟨sumOver_nonneg (fun key offer h => (hoffers key offer h).sellingLiability_nonneg) _ _ _,
    sumOver_nonneg (fun key offer h => (hoffers key offer h).buyingLiability_nonneg) _ _ _⟩

theorem Accounted.inRange (hrespected : Respected s) : InRange s where
  accounts id acc hacc := by
    obtain ⟨hbalance, hbuying, -⟩ := hrespected.accounts id acc hacc
    have hnonneg := (haccounted.nonneg hoffers (show getIssuer .native ≠ some id from nofun)).2
    rw [storedLiabilities_native hacc] at hnonneg
    exact ⟨hbalance, by omega⟩
  trustLines id asset tl hnative hissuer htl := by
    obtain ⟨hbalance, -, hbuying, hlimit⟩ := hrespected.trustLines _ tl htl
    have hnonneg := (haccounted.nonneg hoffers hissuer).2
    rw [storedLiabilities_line hnative htl] at hnonneg
    exact ⟨hbalance, by omega, hlimit⟩

theorem Accounted.stored64 (hrespected : Respected s) {id : AccountID} {asset : Asset}
    (hissuer : getIssuer asset ≠ some id) : Liabilities64 (storedLiabilities s id asset) := by
  obtain ⟨hselling, hbuying⟩ := haccounted.nonneg hoffers hissuer
  by_cases hnative : asset = .native
  · subst hnative
    cases hacc : s.accounts.lookup id with
    | none =>
      rw [storedLiabilities, if_pos rfl, hacc, Option.elim_none]
      exact liabilities64_zero
    | some acc =>
      have hrespects := hrespected.accounts id acc hacc
      rw [storedLiabilities_native hacc] at hselling hbuying ⊢
      exact ⟨⟨hselling, hrespects.2.2⟩, hbuying, by omega⟩
  · cases htl : s.trustLines.lookup (id, asset) with
    | none =>
      rw [storedLiabilities, if_neg hnative, htl, Option.elim_none]
      exact liabilities64_zero
    | some tl =>
      have hrespects := hrespected.trustLines _ tl htl
      rw [storedLiabilities_line hnative htl] at hselling hbuying ⊢
      exact ⟨⟨hselling, by omega⟩, hbuying, by omega⟩

end

/-- An upgrade of the reserve returns if and only if every seller's reserve is defined and every
seller that keeps offers in the native asset keeps its native selling liabilities or has them above
the reserve that is left. -/
theorem applyReserveUpgrade_returns_iff {s : LedgerTxn} {newReserve : Nat} (hv : 10 ≤ s.header.ledgerVersion)
    (haccounted : Accounted s) (hrespected : Respected s) (hcounted : Counted s)
    (hoffers : ∀ key offer, s.offers.lookup key = some offer → ValidOffer offer)
    (hsponsors : s.header.ledgerVersion < 14 → ∀ key offer, s.offers.lookup key = some offer → offer.sponsoringID = none)
    (hmore : s.header.baseReserve < newReserve) :
    (∃ s', (applyReserveUpgrade newReserve).run s = .ok ((), s')) ↔
      ∀ id ∈ sellers s.offers, ReserveFits (withReserve s newReserve) id ∧ NativeAllowed (withReserve s newReserve) id := by
  have hcounted₀ : Counted (withReserve s newReserve) := ⟨hcounted.1, hcounted.2, hcounted.3, hcounted.4, hcounted.5, hcounted.6⟩
  have hruns :=
    @prepareLiabilities_runs (withReserve s newReserve) hv fun key offer h => (hoffers key offer h).amount_le
  rw [applyReserveUpgrade_run hv hmore]
  constructor
  · rintro ⟨s', hrun⟩ id hid
    obtain ⟨-, -, -, hallowed⟩ := hruns.of_ok hrun
    exact ⟨(hallowed id hid).1, (hallowed id hid).2.native⟩
  · intro h
    cases hrun : prepareLiabilities.run (withReserve s newReserve) with
    | ok p => exact ⟨p.2, rfl⟩
    | error e =>
      refine absurd ?_ (hruns.of_error hrun)
      have hvalid : ∀ id, ∀ e ∈ offersOf s.offers id, ValidOffer e.2 := fun id e he => hoffers _ _ (mem_offersOf.mp he).1
      refine ⟨⟨?_, ?_, hoffers, fun key offer => seller_exists hcounted, effective_nonneg hcounted₀⟩,
        ⟨?_, erased_le_counters hcounted₀ _⟩, fun id hid => ⟨(h id hid).1, (h id hid).2, ?_⟩⟩
      · have hrange := haccounted.inRange hoffers hrespected
        exact ⟨hrange.accounts, hrange.trustLines⟩
      · exact fun id asset => haccounted.stored64 hoffers hrespected
      · intro key offer hkey sponsoringID hsponsor
        refine ⟨fun hself => hcounted.offers key offer hkey (hself ▸ hsponsor), ?_⟩
        by_contra hold
        rw [hsponsors (not_le.mp hold) key offer hkey] at hsponsor
        cases hsponsor
      · rintro asset - ⟨_, _, hissuer, _⟩ -
        have hstored : storedLiabilities (withReserve s newReserve) id asset =
            ⟨totalBuying s id asset, totalSelling s id asset⟩ := haccounted id asset hissuer
        rw [hstored]
        exact ⟨@keptSelling_le_total (withReserve s newReserve) id (hvalid id) asset,
          @keptBuying_le_total (withReserve s newReserve) id (hvalid id) asset⟩

theorem halfOffer_valid : ValidOffer halfOffer :=
  ⟨⟨by decide, by decide⟩, by decide, by decide⟩

/-- With a reserve that leaves its offer, `seller` does not stop the upgrade. -/
theorem seller_upgrades : ∃ s', (applyReserveUpgrade 12).run seller = .ok ((), s') := by
  refine (applyReserveUpgrade_returns_iff (by decide) seller_accounted (by decide +kernel) (by decide +kernel) ?_ ?_
    (by decide)).mpr ?_
  · intro key offer h
    rw [(seller_offers h).2]
    exact halfOffer_valid
  · intro hold
    exact absurd hold (by decide)
  · unfold ReserveFits NativeAllowed KeepsIn Mentions
    decide +kernel

/-- Account 1 sells coins for dollars and dollars for coins. -/
def twoSided : LedgerTxn where
  header := ⟨15, 5, 0, 1000, 0, 0, 8, 10, 100, 1000⟩
  accounts := insert 1
    { balance := 60, seqNum := 0, numSubEntries := 3, liabilities := { buying := 20, selling := 10 } } ∅
  trustLines := insert (1, dollar)
    { balance := 10, limit := 1000, flags := 1, liabilities := { buying := 20, selling := 10 } } ∅
  offers := insert ⟨1, 7⟩ { selling := .native, buying := dollar, amount := 10, price := ⟨2, 1⟩ }
    (insert ⟨1, 8⟩ { selling := dollar, buying := .native, amount := 10, price := ⟨2, 1⟩ } ∅)

/-- The account falls below the new reserve: the offer of coins is erased, the one for coins is kept,
and what it sells of coins cannot be lessened. -/
theorem twoSided_vetoes :
    (10 ≤ twoSided.header.ledgerVersion ∧ Accounted twoSided ∧ Respected twoSided ∧ Counted twoSided ∧
      (∀ id acc, twoSided.accounts.lookup id = some acc →
        minBalanceOf twoSided id + acc.liabilities.selling ≤ acc.balance) ∧
      ∀ key offer, twoSided.offers.lookup key = some offer → adjustedAmountOf offer = offer.amount) ∧
    (applyReserveUpgrade 20).run twoSided =
      .error (.fault (.runtimeError "invalid selling liabilities during upgrade")) := by
  refine ⟨by decide +kernel, ?_⟩
  apply Meets.eq_error
  decide +kernel

end Diamnet.Herder
