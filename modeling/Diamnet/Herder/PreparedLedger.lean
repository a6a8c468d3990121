import Diamnet.Herder.StoredLiabilities

/-! What `prepareLiabilities` makes of a ledger, and when it returns. -/
namespace Diamnet.Herder
open Ledger Transactions List Runs

/-! ### The reserve while offers are erased -/

/-- The reserves an account with these counters has to hold. -/
def effectiveEntries (lh : LedgerHeader) (counters : Effect) (id : AccountID) : Int :=
  2 + counters (.subEntries id) +
    if lh.ledgerVersion < 14 then 0 else counters (.sponsoring id) - counters (.sponsored id)

variable {s : LedgerTxn} {id : AccountID} {acc : AccountEntry}

theorem getMinBalance_eq (hv : 10 ≤ s.header.ledgerVersion) (hacc : s.accounts.lookup id = some acc) :
    getMinBalance s.header acc =
      if effectiveEntries s.header (countersOf s) id < 0 then throw (.runtimeError "unexpected account state")
      else int64 (effectiveEntries s.header (countersOf s) id * s.header.baseReserve) := by
  unfold getMinBalance getMinBalanceOf effectiveEntries
  rw [countersOf_subEntries, countersOf_sponsoring, countersOf_sponsored, Table.at?_of_lookup hacc,
    Table.at?_of_lookup hacc, Table.at?_of_lookup hacc]
  by_cases h14 : s.header.ledgerVersion < 14
  · simp only [ge_iff_le, not_le.mpr h14, if_false, h14, if_true, true_and, ne_eq, not_true_eq_false, or_self,
      not_le.mpr (show 8 < s.header.ledgerVersion by omega)]
    simp
  · simp only [ge_iff_le, not_lt.mp h14, if_true, h14, false_and, if_false,
      not_le.mpr (show 8 < s.header.ledgerVersion by omega), add_sub_assoc]

/-- The offers of the accounts up to `id`, which are processed first. -/
def keysUpTo (s₀ : LedgerTxn) (id : AccountID) : List OfferKey := s₀.offers.keys.filter (·.sellerID ≤ id)

/-- The reserves of an account when its liabilities are stored. -/
def effectiveAfter (s₀ : LedgerTxn) (id : AccountID) : Int :=
  effectiveEntries s₀.header (countersOf s₀ - erased s₀ (keysUpTo s₀ id)) id

/-! ### What is kept -/

def keptOffers (s₀ : LedgerTxn) (id : AccountID) : List OfferEntry := keptOf s₀ (offersOf s₀.offers id)

/-- The liabilities of the offers the account keeps. -/
def keptLiabilities (s₀ : LedgerTxn) (id : AccountID) (asset : Asset) : Liabilities where
  buying := contributions id buyingLiability (·.buying) (keptOffers s₀ id) asset
  selling := contributions id sellingLiability (·.selling) (keptOffers s₀ id) asset

/-- A kept offer of the account is in the asset, which the account does not issue. -/
def KeepsIn (s₀ : LedgerTxn) (id : AccountID) (asset : Asset) : Prop := ∃ kept ∈ keptOffers s₀ id, Mentions id kept asset

/-- The accounts `settled` and the offers in `done` are processed. -/
structure Prepared (s₀ : LedgerTxn) (done : List OfferKey) (settled : List AccountID) (s : LedgerTxn) : Prop where
  stage : Stage s₀ done s
  stored : ∀ id asset, id ∈ settled → KeepsIn s₀ id asset → storedLiabilities s id asset = keptLiabilities s₀ id asset
  other : ∀ id asset, ¬(id ∈ settled ∧ KeepsIn s₀ id asset) →
    storedLiabilities s id asset = storedLiabilities s₀ id asset

/-- If the account keeps offers in the native asset, what they sell is what it was or leaves the reserve. -/
def NativeAllowed (s₀ : LedgerTxn) (id : AccountID) : Prop :=
  KeepsIn s₀ id .native →
    (keptLiabilities s₀ id .native).selling = (storedLiabilities s₀ id .native).selling ∨
    (keptLiabilities s₀ id .native).selling + effectiveAfter s₀ id * s₀.header.baseReserve ≤ balanceOf s₀ id

/-- The liabilities of the kept offers are allowed. -/
structure Allowed (s₀ : LedgerTxn) (id : AccountID) : Prop where
  native : NativeAllowed s₀ id
  lines : ∀ asset, asset ≠ .native → KeepsIn s₀ id asset →
    Lessens s₀.header (storedLiabilities s₀ id asset) (keptLiabilities s₀ id asset)

/-- A ledger an upgrade may find: amounts are in range, offers are valid and their sellers exist. -/
structure Sane (s₀ : LedgerTxn) : Prop where
  range : InRange s₀
  stored : ∀ id asset, getIssuer asset ≠ some id → Liabilities64 (storedLiabilities s₀ id asset)
  offers : ∀ key offer, s₀.offers.lookup key = some offer → ValidOffer offer
  sellers : ∀ key offer, s₀.offers.lookup key = some offer → (s₀.accounts.lookup key.sellerID).isSome = true
  effective : ∀ id, 0 ≤ effectiveAfter s₀ id

/-! ### Kept offers are covered -/

section
variable {s₀ : LedgerTxn} {id : AccountID} {asset : Asset} {kept : OfferEntry}

theorem mem_keptOffers : kept ∈ keptOffers s₀ id ↔
    ∃ key offer, s₀.offers.lookup key = some offer ∧ key.sellerID = id ∧ keptOffer s₀ key offer = some kept := by
  unfold keptOffers keptOf
  rw [mem_filterMap]
  constructor
  · rintro ⟨e, he, hkept⟩
    obtain ⟨hlookup, hseller⟩ := mem_offersOf.mp he
    exact ⟨e.1, e.2, hlookup, hseller, hkept⟩
  · rintro ⟨key, offer, hlookup, hseller, hkept⟩
    exact ⟨(key, offer), mem_offersOf.mpr ⟨hlookup, hseller⟩, hkept⟩

theorem covered_of_kept (h : kept ∈ keptOffers s₀ id) :
    (totalSelling s₀ id kept.selling ≤ INT64_MAX ∧
      totalSelling s₀ id kept.selling ≤ availableBalance s₀ id kept.selling) ∧
    totalBuying s₀ id kept.buying ≤ INT64_MAX ∧
      totalBuying s₀ id kept.buying ≤ availableLimit s₀ id kept.buying := by
  obtain ⟨key, offer, -, rfl, hkept⟩ := mem_keptOffers.mp h
  obtain ⟨hover, -, rfl⟩ := keptOffer_eq_some.mp hkept
  simpa only [overcommitted, exceeds, Bool.or_eq_false_iff, decide_eq_false_iff_not, not_lt] using hover

theorem exists_of_contributions_ne {f : OfferEntry → Int} {concerns : OfferEntry → Asset} {offers : List OfferEntry}
    (h : contributions id f concerns offers asset ≠ 0) :
    ∃ offer ∈ offers, getIssuer asset ≠ some id ∧ concerns offer = asset := by
  by_contra hnone
  apply h
  apply sum_eq_zero
  intro x hx
  obtain ⟨offer, hoffer, rfl⟩ := mem_map.mp hx
  exact if_neg fun hconcerns => hnone ⟨offer, hoffer, hconcerns⟩

theorem contribution_le_contributions {f : OfferEntry → Int} {concerns : OfferEntry → Asset}
    {offers : List OfferEntry} (hnonneg : ∀ offer ∈ offers, 0 ≤ f offer) (h : kept ∈ offers) :
    contribution id f concerns kept asset ≤ contributions id f concerns offers asset := by
  apply single_le_sum _ _ (mem_map_of_mem h)
  intro x hx
  obtain ⟨offer, hoffer, rfl⟩ := mem_map.mp hx
  unfold contribution
  split
  · exact hnonneg offer hoffer
  · exact le_rfl

variable (hvalid : ∀ e ∈ offersOf s₀.offers id, ValidOffer e.2)
include hvalid

theorem keptOffers_valid (h : kept ∈ keptOffers s₀ id) :
    ValidOffer kept ∧ 0 < sellingLiability kept ∧ 0 < buyingLiability kept := by
  obtain ⟨key, offer, hlookup, hseller, hkept⟩ := mem_keptOffers.mp h
  obtain ⟨-, hamount, rfl⟩ := keptOffer_eq_some.mp hkept
  have hoffer := hvalid (key, offer) (mem_offersOf.mpr ⟨hlookup, hseller⟩)
  exact ⟨hoffer.adjust, ValidOffer.adjust_liabilities_pos hamount hoffer⟩

theorem keptSelling_le_total (asset : Asset) : (keptLiabilities s₀ id asset).selling ≤ totalSelling s₀ id asset := by
  rw [totalSelling, ← sumFor_offersOf]
  exact contributions_keptOf_le (fun e he => (hvalid e he).sellingLiability_nonneg)
    (fun e he => (hvalid e he).adjust_sellingLiability_le) (fun _ _ => rfl) asset

theorem keptBuying_le_total (asset : Asset) : (keptLiabilities s₀ id asset).buying ≤ totalBuying s₀ id asset := by
  rw [totalBuying, ← sumFor_offersOf]
  exact contributions_keptOf_le (fun e he => (hvalid e he).buyingLiability_nonneg)
    (fun e he => (hvalid e he).adjust_buyingLiability_le) (fun _ _ => rfl) asset

theorem keptSelling_nonneg (asset : Asset) : 0 ≤ (keptLiabilities s₀ id asset).selling :=
  contributions_nonneg (fun _ h => (keptOffers_valid hvalid h).2.1.le) asset

theorem keptBuying_nonneg (asset : Asset) : 0 ≤ (keptLiabilities s₀ id asset).buying :=
  contributions_nonneg (fun _ h => (keptOffers_valid hvalid h).2.2.le) asset

theorem keptSelling_covered (asset : Asset) : (keptLiabilities s₀ id asset).selling = 0 ∨
    (keptLiabilities s₀ id asset).selling ≤ INT64_MAX ∧
      (keptLiabilities s₀ id asset).selling ≤ availableBalance s₀ id asset := by
  by_cases hzero : (keptLiabilities s₀ id asset).selling = 0
  · exact .inl hzero
  · obtain ⟨kept, hkept, -, rfl⟩ := exists_of_contributions_ne hzero
    have hle := keptSelling_le_total hvalid kept.selling
    obtain ⟨hcovered, -⟩ := covered_of_kept hkept
    exact .inr ⟨hle.trans hcovered.1, hle.trans hcovered.2⟩

theorem keptBuying_covered (asset : Asset) : (keptLiabilities s₀ id asset).buying = 0 ∨
    (keptLiabilities s₀ id asset).buying ≤ INT64_MAX ∧
      (keptLiabilities s₀ id asset).buying ≤ availableLimit s₀ id asset := by
  by_cases hzero : (keptLiabilities s₀ id asset).buying = 0
  · exact .inl hzero
  · obtain ⟨kept, hkept, -, rfl⟩ := exists_of_contributions_ne hzero
    have hle := keptBuying_le_total hvalid kept.buying
    obtain ⟨-, hcovered⟩ := covered_of_kept hkept
    exact .inr ⟨hle.trans hcovered.1, hle.trans hcovered.2⟩

theorem keptLiabilities64 (asset : Asset) : Liabilities64 (keptLiabilities s₀ id asset) := by
  have hmax : (0 : Int) ≤ INT64_MAX := by decide
  refine ⟨⟨keptSelling_nonneg hvalid asset, ?_⟩, keptBuying_nonneg hvalid asset, ?_⟩
  · rcases keptSelling_covered hvalid asset with h | h
    · rwa [h]
    · exact h.1
  · rcases keptBuying_covered hvalid asset with h | h
    · rwa [h]
    · exact h.1

theorem keptLiabilities_pos (hkeeps : KeepsIn s₀ id asset) :
    0 < (keptLiabilities s₀ id asset).buying ∨ 0 < (keptLiabilities s₀ id asset).selling := by
  obtain ⟨kept, hkept, hissuer, hasset⟩ := hkeeps
  obtain ⟨-, hsells, hbuys⟩ := keptOffers_valid hvalid hkept
  rcases hasset with rfl | rfl
  · left
    have hle : contribution id buyingLiability (·.buying) kept kept.buying ≤ (keptLiabilities s₀ id kept.buying).buying :=
      contribution_le_contributions (fun _ h => (keptOffers_valid hvalid h).2.2.le) hkept
    rw [contribution, if_pos ⟨hissuer, rfl⟩] at hle
    omega
  · right
    have hle : contribution id sellingLiability (·.selling) kept kept.selling ≤
        (keptLiabilities s₀ id kept.selling).selling :=
      contribution_le_contributions (fun _ h => (keptOffers_valid hvalid h).2.1.le) hkept
    rw [contribution, if_pos ⟨hissuer, rfl⟩] at hle
    omega

theorem line_of_keepsIn (hkeeps : KeepsIn s₀ id asset) (hnative : asset ≠ .native) :
    ∃ tl, s₀.trustLines.lookup (id, asset) = some tl ∧ TrustLineEntry.isAuthorizedToMaintainLiabilities tl = true := by
  have hissuer : getIssuer asset ≠ some id := by
    obtain ⟨_, _, hissuer, _⟩ := hkeeps
    exact hissuer
  have hline : 0 < availableBalance s₀ id asset ∨ 0 < availableLimit s₀ id asset := by
    rcases keptLiabilities_pos hvalid hkeeps with hpos | hpos
    · have := keptBuying_covered hvalid asset
      exact .inr (by omega)
    · have := keptSelling_covered hvalid asset
      exact .inl (by omega)
  unfold availableBalance availableLimit at hline
  rw [if_neg hnative, if_neg hissuer, if_neg hnative, if_neg hissuer] at hline
  cases htl : s₀.trustLines.lookup (id, asset) with
  | none => simp [htl] at hline
  | some tl =>
    refine ⟨tl, rfl, ?_⟩
    by_contra hauth
    simp [htl, hauth] at hline

end

/-! ### Storing the liabilities of an account -/

variable {s₀ : LedgerTxn}

theorem Framed.balanceOf_eq (h : Framed s₀ s) (hacc : s.accounts.lookup id = some acc) :
    balanceOf s₀ id = acc.balance := by
  obtain ⟨acc₀, hacc₀, hframe⟩ := h.exists_account hacc
  rw [balanceOf, Table.at?_of_lookup hacc₀, balance_of_frame hframe]

theorem storedLiabilities_native (hacc : s.accounts.lookup id = some acc) :
    storedLiabilities s id .native = acc.liabilities := by
  rw [storedLiabilities, if_pos rfl, hacc, Option.elim_some]

theorem storedLiabilities_line {asset : Asset} {tl : TrustLineEntry} (hnative : asset ≠ .native)
    (htl : s.trustLines.lookup (id, asset) = some tl) : storedLiabilities s id asset = tl.liabilities := by
  rw [storedLiabilities, if_neg hnative, htl, Option.elim_some]

section
variable {s₀ s : LedgerTxn} {id : AccountID} {done : List OfferKey}
variable (hv : 10 ≤ s₀.header.ledgerVersion) (hstage : Stage s₀ done s)
variable (hdone : erased s₀ done = erased s₀ (keysUpTo s₀ id))
include hv hstage hdone

variable {acc : AccountEntry}

theorem Stage.getMinBalance_eq (hacc : s.accounts.lookup id = some acc) :
    getMinBalance s.header acc =
      if effectiveAfter s₀ id < 0 then throw (.runtimeError "unexpected account state")
      else int64 (effectiveAfter s₀ id * s₀.header.baseReserve) := by
  rw [Herder.getMinBalance_eq (hstage.framed.header ▸ hv) hacc, hstage.counters, hdone, hstage.framed.header]
  rfl

theorem Stage.le_of_reserves (hacc : s.accounts.lookup id = some acc) {selling : Int}
    (h : AccountEntry.Reserves s.header acc selling) :
    selling + effectiveAfter s₀ id * s₀.header.baseReserve ≤ balanceOf s₀ id := by
  obtain ⟨minBalance, hmin, -, hle⟩ := h
  rw [hstage.getMinBalance_eq hv hdone hacc] at hmin
  split at hmin
  · cases hmin
  · obtain ⟨rfl, -⟩ := int64_eq_ok.mp hmin
    rw [hstage.framed.balanceOf_eq hacc]
    omega

theorem Stage.reserves_of_le (hacc : s.accounts.lookup id = some acc) {selling : Int} (hrange : InRange s₀)
    (heffective : 0 ≤ effectiveAfter s₀ id) (hnonneg : 0 ≤ selling)
    (h : selling + effectiveAfter s₀ id * s₀.header.baseReserve ≤ balanceOf s₀ id) :
    AccountEntry.Reserves s.header acc selling := by
  have hbalance := hrange.balanceOf id
  have hreserve : 0 ≤ effectiveAfter s₀ id * s₀.header.baseReserve := mul_nonneg heffective (Int.natCast_nonneg _)
  have hmin : getMinBalance s.header acc = .ok (effectiveAfter s₀ id * s₀.header.baseReserve) := by
    rw [hstage.getMinBalance_eq hv hdone hacc, if_neg (not_lt.mpr heffective)]
    refine int64_eq_ok.mpr ⟨rfl, le_trans (by decide) hreserve, by omega⟩
  rw [hstage.framed.balanceOf_eq hacc] at h hbalance
  refine ⟨_, hmin, ⟨le_trans (by decide) (hnonneg.trans (by omega)), by omega⟩, by omega⟩

variable (hstored : ∀ asset, storedLiabilities s id asset = storedLiabilities s₀ id asset)
include hstored

theorem Stage.allowed_of_fitsAt (h : ∀ asset, KeepsIn s₀ id asset → FitsAt s id asset (keptLiabilities s₀ id asset)) :
    Allowed s₀ id where
  native hkeeps := by
    obtain ⟨acc, hacc, hfits⟩ := h .native hkeeps
    rw [← hstored, storedLiabilities_native hacc]
    exact hfits.imp_right (hstage.le_of_reserves hv hdone hacc)
  lines asset hnative hkeeps := by
    have hfits := h asset hkeeps
    rw [FitsAt, if_neg hnative] at hfits
    obtain ⟨tl, htl, hlessens⟩ := hfits
    rw [← hstored, storedLiabilities_line hnative htl, ← hstage.framed.header]
    exact hlessens

/-- If the liabilities of the kept offers are allowed, the entries can store them. -/
theorem Stage.readyAt_of_allowed (hsane : Sane s₀) (hacc : (s.accounts.lookup id).isSome = true) (h : Allowed s₀ id)
    {asset : Asset} (hkeeps : KeepsIn s₀ id asset) : ReadyAt s id asset (keptLiabilities s₀ id asset) := by
  have hvalid : ∀ e ∈ offersOf s₀.offers id, ValidOffer e.2 := fun e he => hsane.offers _ _ (mem_offersOf.mp he).1
  have hissuer : getIssuer asset ≠ some id := by
    obtain ⟨_, _, hissuer, _⟩ := hkeeps
    exact hissuer
  have hstored64 := hstored asset ▸ hsane.stored id asset hissuer
  unfold ReadyAt
  split
  · next hnative =>
    subst hnative
    obtain ⟨acc, hacc⟩ := Option.isSome_iff_exists.mp hacc
    have hbalance := hsane.range.balanceOf id
    rw [hstage.framed.balanceOf_eq hacc] at hbalance
    rw [storedLiabilities_native hacc] at hstored64
    refine ⟨acc, hacc, ?_, keptLiabilities64 hvalid _, hstored64, hbalance.1, ?_⟩
    · have hnative := h.native hkeeps
      rw [← hstored, storedLiabilities_native hacc] at hnative
      exact hnative.imp_right
        (hstage.reserves_of_le hv hdone hacc hsane.range (hsane.effective id) (keptSelling_nonneg hvalid _))
    · rcases keptBuying_covered hvalid .native with hzero | hcovered
      · omega
      · have hlimit := hcovered.2
        rw [availableLimit, if_pos rfl, hstage.framed.balanceOf_eq hacc] at hlimit
        exact hlimit
  · next hnative =>
    obtain ⟨tl₀, htl₀, hauth⟩ := line_of_keepsIn hvalid hkeeps hnative
    have hframe := hstage.framed.trustLines (id, asset)
    rw [htl₀, Option.map_some] at hframe
    obtain ⟨tl, htl, hline⟩ := Option.map_eq_some_iff.mp hframe
    obtain ⟨hbalance, hlimit, hflags⟩ := line_of_frame hline
    have hrange := hsane.range.trustLines _ _ _ hnative hissuer htl₀
    have hlessens := h.lines asset hnative hkeeps
    rw [← hstored, storedLiabilities_line hnative htl, ← hstage.framed.header] at hlessens
    rw [storedLiabilities_line hnative htl] at hstored64
    refine ⟨tl, htl, hlessens, keptLiabilities64 hvalid _, hstored64, ?_, ?_, ?_, by omega⟩
    · rw [isAuthorized_of_flags hflags, hauth]
    · rcases keptSelling_covered hvalid asset with hzero | hcovered
      · omega
      · have hle := hcovered.2
        rw [availableBalance, if_neg hnative, if_neg hissuer, htl₀, Option.elim_some, if_pos hauth] at hle
        omega
    · rcases keptBuying_covered hvalid asset with hzero | hcovered
      · omega
      · have hle := hcovered.2
        rw [availableLimit, if_neg hnative, if_neg hissuer, htl₀, Option.elim_some, if_pos hauth] at hle
        omega

end

/-! ### One account -/

theorem isKept_entries {liabilities : Table Asset Liabilities}
    (h : IsKept s₀ id (offersOf s₀.offers id) liabilities) :
    (∀ e ∈ liabilities.entries, KeepsIn s₀ id e.1 ∧ e.2 = keptLiabilities s₀ id e.1) ∧
    ∀ asset, KeepsIn s₀ id asset → ⟨asset, keptLiabilities s₀ id asset⟩ ∈ liabilities.entries := by
  have hamount : ∀ asset l, liabilities.lookup asset = some l → l = keptLiabilities s₀ id asset := by
    intro asset l hl
    have hamounts := h.amounts asset
    rwa [hl, Option.getD_some] at hamounts
  constructor
  · intro e he
    have hlookup := AList.mem_lookup_iff.mpr he
    exact ⟨(h.mem e.1).mp (AList.lookup_isSome.mp (by rw [hlookup]; rfl)), hamount _ _ hlookup⟩
  · intro asset hkeeps
    obtain ⟨l, hl⟩ := Option.isSome_iff_exists.mp (AList.lookup_isSome.mpr ((h.mem asset).mpr hkeeps))
    rw [← hamount asset l hl]
    exact AList.mem_lookup_iff.mp hl

theorem Untouched.storedLiabilities_eq {s' : LedgerTxn} (h : Untouched s s') (id : AccountID) (asset : Asset) :
    storedLiabilities s' id asset = storedLiabilities s id asset := by
  unfold storedLiabilities
  split
  · have hbare := congrArg (Option.map AccountEntry.liabilities) (h.accounts id)
    rw [Option.map_map, Option.map_map] at hbare
    cases hacc : s.accounts.lookup id <;> cases hacc' : s'.accounts.lookup id <;> simp_all [bare]
  · rw [h.trustLines]

theorem offersOf_nodup (offers : Table OfferKey OfferEntry) (id : AccountID) :
    ((offersOf offers id).map Prod.fst).Nodup := by
  have hkeys : (offers.entries.map fun e => (e.1, e.2)).map Prod.fst = offers.keys := by
    rw [map_map]
    rfl
  refine Nodup.sublist ?_ (AList.keys_nodup offers)
  rw [← hkeys]
  exact filter_sublist.map Prod.fst

variable {done done' : List OfferKey} {settled : List AccountID}

theorem Prepared.settle {s₁ s' : LedgerTxn} {liabilities : Table Asset Liabilities} (h : Prepared s₀ done settled s)
    (hid : id ∉ settled) (hstage : Stage s₀ done' s₁) (huntouched : Untouched s s₁)
    (hentries : ∀ e ∈ liabilities.entries, KeepsIn s₀ id e.1 ∧ e.2 = keptLiabilities s₀ id e.1)
    (hmem : ∀ asset, KeepsIn s₀ id asset → ⟨asset, keptLiabilities s₀ id asset⟩ ∈ liabilities.entries)
    (hsettled : Settled id liabilities.entries s₁ s') : Prepared s₀ done' (id :: settled) s' := by
  have hother : ∀ id' asset, ¬(id' = id ∧ asset ∈ liabilities.entries.keys) →
      storedLiabilities s' id' asset = storedLiabilities s id' asset := by
    intro id' asset h'
    rw [(hsettled.other id' asset h').storedLiabilities_eq, huntouched.storedLiabilities_eq]
  refine ⟨⟨hstage.framed.trans hsettled.framed, fun key => ?_, ?_⟩, ?_, ?_⟩
  · rw [hsettled.offers]
    exact hstage.offers key
  · rw [hsettled.counters]
    exact hstage.counters
  · intro id' asset hmem' hkeeps
    by_cases heq : id' = id
    · subst heq
      exact hsettled.stored _ (hmem asset hkeeps)
    · rw [hother id' asset fun h' => heq h'.1]
      exact h.stored id' asset ((mem_cons.mp hmem').resolve_left heq) hkeeps
  · intro id' asset hnot
    have hkey : ¬(id' = id ∧ asset ∈ liabilities.entries.keys) := by
      rintro ⟨rfl, hkeys⟩
      obtain ⟨e, he, rfl⟩ := mem_map.mp hkeys
      exact hnot ⟨.head _, (hentries e he).1⟩
    rw [hother id' asset hkey]
    exact h.other id' asset fun h' => hnot ⟨.tail _ h'.1, h'.2⟩

theorem prepareAccount_runs (hv : 10 ≤ s₀.header.ledgerVersion)
    (hfits : ∀ key offer, s₀.offers.lookup key = some offer → offer.amount ≤ INT64_MAX)
    (hprepared : Prepared s₀ done settled s) (hid : id ∉ settled) (hfresh : ∀ e ∈ offersOf s₀.offers id, e.1 ∉ done)
    (hdone : erased s₀ (((offersOf s₀.offers id).map Prod.fst).reverse ++ done) = erased s₀ (keysUpTo s₀ id))
    (hacc : (s₀.accounts.lookup id).isSome = true) (hmin : 0 ≤ minBalanceOf s₀ id ∧ minBalanceOf s₀ id ≤ INT64_MAX) :
    Runs (prepareAccount id (offersOf s₀.offers id) (minBalanceOf s₀ id)) s
      (fun _ s' => Prepared s₀ (((offersOf s₀.offers id).map Prod.fst).reverse ++ done) (id :: settled) s' ∧
        Allowed s₀ id ∧ ∀ e ∈ offersOf s₀.offers id, ValidOffer e.2)
      (fun _ => ¬(Sane s₀ ∧ Removable s₀ ∧ Allowed s₀ id)) := by
  have hseller : ∀ e ∈ offersOf s₀.offers id, e.1.sellerID = id := fun e he => (mem_offersOf.mp he).2
  have hinvalid : (∃ e ∈ offersOf s₀.offers id, ¬ValidOffer e.2) → ¬(Sane s₀ ∧ Removable s₀ ∧ Allowed s₀ id) := by
    rintro ⟨e, he, hinvalid⟩ ⟨hsane, -⟩
    exact hinvalid (hsane.offers _ _ (mem_offersOf.mp he).1)
  have hempty : ∀ f concerns, IsSum id f concerns [] ∅ := by
    intro f concerns asset
    simp
  have hframed := hprepared.stage.framed
  unfold prepareAccount
  rw [bind_iff, runs_getHeader, hframed.header, bind_iff, runs_checked]
  refine (sumLiabilities_meets hseller
    (fun e he => ValidOffer.getOfferBuyingLiabilities_meets hv (hfits _ _ (mem_offersOf.mp he).1)) (by simp)
    (hempty _ _)).mono ?_ fun _ => hinvalid
  rintro initialBuying ⟨hvalid, hbuying⟩
  rw [bind_iff, runs_checked]
  refine (sumLiabilities_meets hseller
    (fun e he => ValidOffer.getOfferSellingLiabilities_meets hv (hfits _ _ (mem_offersOf.mp he).1)) (by simp)
    (hempty _ _)).mono ?_ fun _ => hinvalid
  rintro initialSelling ⟨-, hselling⟩
  rw [nil_append] at hbuying hselling
  -- the account is there, with the balance it had
  obtain ⟨acc₀, hacc₀⟩ := Option.isSome_iff_exists.mp hacc
  have hframe := hframed.accounts id
  rw [hacc₀, Option.map_some] at hframe
  obtain ⟨acc, hacc, -⟩ := Option.map_eq_some_iff.mp hframe
  have hbalance := hframed.balanceOf_eq hacc
  simp only [bind_iff, runs_findAccount, runs_check, runs_loadAccount, hacc, Option.isSome_some, true_implies,
    Option.some.injEq, forall_eq', reduceCtorEq, false_implies, and_true, not_true_eq_false, runs_checked,
    ← hbalance]
  refine meets_int64.mpr ⟨fun _ => ?_, fun hoverflow h => hoverflow ?_⟩
  · have hbefore : IsBefore s₀ id
        ⟨balanceOf s₀ id, balanceOf s₀ id - minBalanceOf s₀ id, initialBuying, initialSelling⟩ :=
      ⟨rfl, rfl, hselling, hbuying⟩
    have hnone : IsKept s₀ id [] ∅ := ⟨by simp [keptOf], by simp [contributions, keptOf]⟩
    refine (updateOffers_runs hv hbefore hvalid (nil_append _).symm (offersOf_nodup _ _) hfresh hprepared.stage hnone).mono ?_
      fun _ hfails h => hfails ⟨h.1.range, h.2.1⟩
    rintro liabilities s₁ ⟨hkept, hstage, huntouched⟩
    obtain ⟨hentries, hmem⟩ := isKept_entries hkept
    have hstored : ∀ asset, storedLiabilities s₁ id asset = storedLiabilities s₀ id asset := by
      intro asset
      rw [huntouched.storedLiabilities_eq]
      exact hprepared.other id asset fun h => hid h.1
    refine (setAll_runs liabilities.nodupKeys ?_ (hstage.framed.header ▸ hv)).mono ?_ ?_
    · intro e he
      obtain ⟨_, _, hissuer, _⟩ := (hentries e he).1
      exact hissuer
    · rintro _ s' ⟨hfitsAt, hsettled⟩
      refine ⟨hprepared.settle hid hstage huntouched hentries hmem hsettled, ?_, hvalid⟩
      · refine hstage.allowed_of_fitsAt hv hdone hstored fun asset hkeeps => ?_
        exact hfitsAt ⟨asset, _⟩ (hmem asset hkeeps)
    · rintro _ hready ⟨hsane, -, hallowed⟩
      apply hready
      intro e he
      obtain ⟨hkeeps, hamount⟩ := hentries e he
      rw [hamount]
      refine hstage.readyAt_of_allowed hv hdone hstored hsane ?_ hallowed hkeeps
      have hbare := huntouched.accounts id
      rw [hacc, Option.map_some] at hbare
      obtain ⟨acc₁, hacc₁, -⟩ := Option.map_eq_some_iff.mp hbare
      rw [hacc₁]
      rfl
  · have := h.1.range.balanceOf id
    simp only [INT64_MIN, INT64_MAX] at *
    omega

/-! ### All accounts -/

def ReserveFits (s₀ : LedgerTxn) (id : AccountID) : Prop :=
  0 ≤ effectiveEntries s₀.header (countersOf s₀) id ∧
    effectiveEntries s₀.header (countersOf s₀) id * s₀.header.baseReserve ≤ INT64_MAX

theorem getMinBalance_meets (hv : 10 ≤ s₀.header.ledgerVersion) (hacc : s₀.accounts.lookup id = some acc) :
    Meets (getMinBalance s₀.header acc) (fun minBalance => ReserveFits s₀ id ∧ minBalance = minBalanceOf s₀ id ∧
        minBalance = effectiveEntries s₀.header (countersOf s₀) id * s₀.header.baseReserve)
      (fun _ => ¬ReserveFits s₀ id) := by
  unfold minBalanceOf ReserveFits
  rw [hacc, Option.elim_some, getMinBalance_eq hv hacc]
  split
  · next hneg => exact fun h => not_le.mpr hneg h.1
  · next hnonneg =>
    have hreserve : 0 ≤ effectiveEntries s₀.header (countersOf s₀) id * s₀.header.baseReserve :=
      mul_nonneg (not_lt.mp hnonneg) (Int.natCast_nonneg _)
    rw [meets_int64]
    constructor
    · intro hrange
      rw [int64_eq_ok.mpr ⟨rfl, hrange⟩]
      exact ⟨⟨not_lt.mp hnonneg, hrange.2⟩, rfl, rfl⟩
    · intro hoverflow h
      exact hoverflow ⟨le_trans (by decide) hreserve, h.2⟩

theorem getOfferAccountMinBalances_runs (hv : 10 ≤ s₀.header.ledgerVersion) (ids : List AccountID) :
    Runs (getOfferAccountMinBalances ids) s₀
      (fun balances s => s = s₀ ∧ balances = ids.map (fun id => (id, minBalanceOf s₀ id)) ∧
        ∀ id ∈ ids, (s₀.accounts.lookup id).isSome = true ∧ ReserveFits s₀ id)
      (fun _ => ¬∀ id ∈ ids, (s₀.accounts.lookup id).isSome = true ∧ ReserveFits s₀ id) := by
  induction ids with
  | nil => exact ⟨rfl, rfl, by simp⟩
  | cons id rest ih =>
    unfold getOfferAccountMinBalances
    simp only [bind_iff, runs_getHeader, runs_findAccount, runs_check, runs_loadAccount, runs_checked, pure_iff,
      forall_mem_cons, map_cons]
    refine ⟨fun hsome => ⟨fun acc hacc => ?_, fun hnone => by rw [hnone] at hsome; cases hsome⟩, fun hnone h => hnone h.1.1⟩
    refine (getMinBalance_meets hv hacc).mono ?_ fun _ hfails h => hfails h.1.2
    rintro minBalance ⟨hfits, rfl, -⟩
    refine ih.mono ?_ fun _ hfails h => hfails h.2
    rintro balances s ⟨rfl, rfl, hrest⟩
    exact ⟨rfl, rfl, ⟨hsome, hfits⟩, hrest⟩

theorem erased_congr (h : ∀ key offer, s₀.offers.lookup key = some offer → (key ∈ done ↔ key ∈ done')) :
    erased s₀ done = erased s₀ done' := by
  funext q
  exact le_antisymm (erased_mono (fun key offer hkey => (h key offer hkey).mp) q)
    (erased_mono (fun key offer hkey => (h key offer hkey).mpr) q)

theorem minBalanceOf_eq {s₀ : LedgerTxn} (hv : 10 ≤ s₀.header.ledgerVersion) {id : AccountID}
    (hacc : (s₀.accounts.lookup id).isSome = true) (hfits : ReserveFits s₀ id) :
    minBalanceOf s₀ id = effectiveEntries s₀.header (countersOf s₀) id * s₀.header.baseReserve := by
  obtain ⟨acc, hacc⟩ := Option.isSome_iff_exists.mp hacc
  have hmeets := getMinBalance_meets hv hacc
  cases hmin : getMinBalance s₀.header acc with
  | error f => exact absurd hfits (hmeets.of_error hmin)
  | ok minBalance =>
    obtain ⟨-, hof, heq⟩ := hmeets.of_ok hmin
    rw [← hof, heq]

theorem minBalanceOf_range (hv : 10 ≤ s₀.header.ledgerVersion) (hacc : (s₀.accounts.lookup id).isSome = true)
    (hfits : ReserveFits s₀ id) : 0 ≤ minBalanceOf s₀ id ∧ minBalanceOf s₀ id ≤ INT64_MAX := by
  rw [minBalanceOf_eq hv hacc hfits]
  exact ⟨mul_nonneg hfits.1 (Int.natCast_nonneg _), hfits.2⟩

theorem prepareAccounts_runs (hv : 10 ≤ s₀.header.ledgerVersion)
    (hfits : ∀ key offer, s₀.offers.lookup key = some offer → offer.amount ≤ INT64_MAX) {ids : List AccountID}
    (hids : ∀ id ∈ ids, (s₀.accounts.lookup id).isSome = true ∧ ReserveFits s₀ id) (hsorted : ids.Pairwise (· < ·))
    (hsettled : ∀ id ∈ ids, ∀ id' ∈ settled, id' < id)
    (hdone : ∀ key offer, s₀.offers.lookup key = some offer → (key ∈ done ↔ key.sellerID ∈ settled))
    (hall : ∀ key offer, s₀.offers.lookup key = some offer → key.sellerID ∈ settled ∨ key.sellerID ∈ ids)
    (hprepared : Prepared s₀ done settled s) :
    Runs ((ids.map fun id => (id, minBalanceOf s₀ id)).forM fun e => prepareAccount e.1 (offersOf s₀.offers e.1) e.2) s
      (fun _ s' => (∃ done', (∀ key offer, s₀.offers.lookup key = some offer → key ∈ done') ∧
          Prepared s₀ done' (ids.reverse ++ settled) s') ∧
        ∀ id ∈ ids, Allowed s₀ id ∧ ∀ e ∈ offersOf s₀.offers id, ValidOffer e.2)
      (fun _ => ¬(Sane s₀ ∧ Removable s₀ ∧ ∀ id ∈ ids, Allowed s₀ id)) := by
  induction ids generalizing settled done s with
  | nil =>
    refine ⟨⟨done, fun key offer hkey => (hdone key offer hkey).mpr ?_, hprepared⟩, by simp⟩
    exact (hall key offer hkey).resolve_right (by simp)
  | cons id rest ih =>
    obtain ⟨hid, hrest⟩ := forall_mem_cons.mp hids
    obtain ⟨hbelow, hbelows⟩ := forall_mem_cons.mp hsettled
    obtain ⟨hfirst, hsorted⟩ := pairwise_cons.mp hsorted
    have hnot : id ∉ settled := fun h => lt_irrefl id (hbelow id h)
    have hown : ∀ key offer, s₀.offers.lookup key = some offer →
        (key ∈ ((offersOf s₀.offers id).map Prod.fst).reverse ++ done ↔ key.sellerID ∈ id :: settled) := by
      intro key offer hkey
      rw [mem_append, mem_reverse, mem_cons, hdone key offer hkey]
      have hmem : key ∈ (offersOf s₀.offers id).map Prod.fst ↔ key.sellerID = id := by
        constructor
        · intro h
          obtain ⟨e, he, rfl⟩ := mem_map.mp h
          exact (mem_offersOf.mp he).2
        · intro h
          have hoffer : (key, offer) ∈ offersOf s₀.offers id := mem_offersOf.mpr ⟨hkey, h⟩
          exact mem_map_of_mem (f := Prod.fst) hoffer
      rw [hmem]
    have herased : erased s₀ (((offersOf s₀.offers id).map Prod.fst).reverse ++ done) = erased s₀ (keysUpTo s₀ id) := by
      apply erased_congr
      intro key offer hkey
      rw [hown key offer hkey, keysUpTo, mem_filter, decide_eq_true_eq, mem_cons]
      constructor
      · rintro (h | h)
        · exact ⟨Table.mem_keys_of_lookup hkey, h.le⟩
        · exact ⟨Table.mem_keys_of_lookup hkey, (hbelow _ h).le⟩
      · rintro ⟨-, hle⟩
        rcases hall key offer hkey with h | h
        · exact .inr h
        · rcases mem_cons.mp h with h | h
          · exact .inl h
          · exact absurd hle (not_le.mpr (hfirst _ h))
    have hfresh : ∀ e ∈ offersOf s₀.offers id, e.1 ∉ done := by
      intro e he hmem
      obtain ⟨hkey, hseller⟩ := mem_offersOf.mp he
      exact hnot (hseller ▸ (hdone _ _ hkey).mp hmem)
    show Runs (prepareAccount id (offersOf s₀.offers id) (minBalanceOf s₀ id) >>= fun _ =>
      (rest.map fun id => (id, minBalanceOf s₀ id)).forM fun e => prepareAccount e.1 (offersOf s₀.offers e.1) e.2) s _ _
    refine bind ((prepareAccount_runs hv hfits hprepared hnot hfresh herased hid.1
      (minBalanceOf_range hv hid.1 hid.2)).mono (fun _ _ h => h) ?_) ?_
    · exact fun _ hfails h => hfails ⟨h.1, h.2.1, h.2.2 id (.head _)⟩
    · rintro _ s₁ ⟨hprepared', hallowed, hvalid⟩
      refine (ih hrest hsorted ?_ hown ?_ hprepared').mono ?_ ?_
      · intro id' hid' id'' hid''
        rcases mem_cons.mp hid'' with rfl | h
        · exact hfirst id' hid'
        · exact hbelows id' hid' id'' h
      · intro key offer hkey
        rcases hall key offer hkey with h | h
        · exact .inl (.tail _ h)
        · rcases mem_cons.mp h with h | h
          · exact .inl (h ▸ (.head _))
          · exact .inr h
      · rintro _ s' ⟨⟨done', hdone', hprepared''⟩, hallowed'⟩
        refine ⟨⟨done', hdone', ?_⟩, forall_mem_cons.mpr ⟨⟨hallowed, hvalid⟩, hallowed'⟩⟩
        simpa using hprepared''
      · exact fun _ hfails h => hfails ⟨h.1, h.2.1, fun id' hid' => h.2.2 id' (.tail _ hid')⟩

theorem sellers_sorted (offers : Table OfferKey OfferEntry) : (sellers offers).Pairwise (· < ·) := by
  have hle : (sellers offers).Pairwise (· ≤ ·) := pairwise_mergeSort' (· ≤ ·) _
  have hnodup : (sellers offers).Nodup :=
    (mergeSort_perm _ _).nodup_iff.mpr (nodup_dedup _)
  exact hle.imp₂ (fun _ _ h h' => lt_of_le_of_ne h h') hnodup

theorem mem_sellers {offers : Table OfferKey OfferEntry} :
    id ∈ sellers offers ↔ ∃ key offer, offers.lookup key = some offer ∧ key.sellerID = id := by
  unfold sellers
  rw [(mergeSort_perm _ _).mem_iff, mem_dedup, mem_map]
  constructor
  · rintro ⟨key, hkey, hid⟩
    obtain ⟨offer, hoffer⟩ := Option.isSome_iff_exists.mp (AList.lookup_isSome.mpr (AList.mem_keys.mpr hkey))
    exact ⟨key, offer, hoffer, hid⟩
  · rintro ⟨key, offer, hoffer, hid⟩
    exact ⟨key, Table.mem_keys_of_lookup hoffer, hid⟩

theorem Prepared.congr {settled' : List AccountID} (h : Prepared s₀ done settled s)
    (hdone : ∀ key offer, s₀.offers.lookup key = some offer → (key ∈ done ↔ key ∈ done'))
    (hsettled : ∀ id, id ∈ settled ↔ id ∈ settled') : Prepared s₀ done' settled' s where
  stage := by
    refine ⟨h.stage.framed, fun key => ?_, ?_⟩
    · rw [h.stage.offers]
      cases hkey : s₀.offers.lookup key with
      | none => rfl
      | some offer => simp only [Option.bind_some, after, hdone key offer hkey]
    · rw [h.stage.counters, erased_congr hdone]
  stored id asset hid hkeeps := h.stored id asset ((hsettled id).mpr hid) hkeeps
  other id asset hnot := h.other id asset fun hid => hnot ⟨(hsettled id).mp hid.1, hid.2⟩

/-- What `prepareLiabilities` does if it returns, and that it returns if what the offers it keeps
need is allowed. -/
theorem prepareLiabilities_runs {s₀ : LedgerTxn} (hv : 10 ≤ s₀.header.ledgerVersion)
    (hfits : ∀ key offer, s₀.offers.lookup key = some offer → offer.amount ≤ INT64_MAX) :
    Runs prepareLiabilities s₀
      (fun _ s => Prepared s₀ s₀.offers.keys (sellers s₀.offers) s ∧
        (∀ key offer, s₀.offers.lookup key = some offer → ValidOffer offer) ∧
        (∀ q, erased s₀ s₀.offers.keys q ≤ countersOf s₀ q) ∧
        ∀ id ∈ sellers s₀.offers, ReserveFits s₀ id ∧ Allowed s₀ id)
      (fun _ => ¬(Sane s₀ ∧ Removable s₀ ∧ ∀ id ∈ sellers s₀.offers, ReserveFits s₀ id ∧ Allowed s₀ id)) := by
  unfold prepareLiabilities
  rw [bind_iff, get_iff]
  refine bind ((getOfferAccountMinBalances_runs hv _).mono (fun _ _ h => h) ?_) ?_
  · rintro _ hfails ⟨hsane, -, hallowed⟩
    apply hfails
    intro id hid
    obtain ⟨key, offer, hkey, rfl⟩ := mem_sellers.mp hid
    exact ⟨hsane.sellers key offer hkey, (hallowed _ hid).1⟩
  · rintro balances s ⟨rfl, rfl, hids⟩
    have hprepared : Prepared s [] [] s := by
      refine ⟨⟨Framed.refl s, fun key => ?_, ?_⟩, by simp, fun _ _ _ => rfl⟩
      · cases s.offers.lookup key <;> simp [after]
      · funext q
        simp [erased, Table.total]
    refine (prepareAccounts_runs hv hfits hids (sellers_sorted _) (by simp) (by simp) ?_ hprepared).mono ?_ ?_
    · intro key offer hkey
      exact .inr (mem_sellers.mpr ⟨key, offer, hkey, rfl⟩)
    · rintro _ s' ⟨⟨done, hdone, hprepared⟩, hallowed⟩
      have hprepared : Prepared s s.offers.keys (sellers s.offers) s' := by
        refine hprepared.congr (fun key offer hkey => ?_) (by simp)
        exact iff_of_true (hdone key offer hkey) (Table.mem_keys_of_lookup hkey)
      refine ⟨hprepared, fun key offer hkey => ?_, fun q => ?_, fun id hid => ⟨(hids id hid).2, (hallowed id hid).1⟩⟩
      · exact (hallowed _ (mem_sellers.mpr ⟨key, offer, hkey, rfl⟩)).2 (key, offer) (mem_offersOf.mpr ⟨hkey, rfl⟩)
      · have hnonneg := countersOf_nonneg s' q
        rw [hprepared.stage.counters, Pi.sub_apply] at hnonneg
        omega
    · exact fun _ hfails h => hfails ⟨h.1, h.2.1, fun id hid => (h.2.2 id hid).2⟩

end Diamnet.Herder
