import Diamnet.Herder.ReserveUpgrade

/-! The upgrade from a version without liabilities to one with them.

Before version 10 an offer binds nothing: an account may offer more than it has, and in assets it
could not receive. The upgrade keeps the offers an account can cover and stores what they need. It
has already set the version by then, and from version 11 on no trust line may get liabilities it
did not have. -/
namespace Diamnet.Herder
open Ledger Transactions

/-- A ledger of a version without liabilities and without sponsorships. -/
structure Unliable (s : LedgerTxn) : Prop where
  version : s.header.ledgerVersion < 10
  offers : ∀ key offer, s.offers.lookup key = some offer →
    ValidPrice offer.price ∧ 0 < offer.amount ∧ offer.amount ≤ INT64_MAX
  exist : ∀ key offer, s.offers.lookup key = some offer → (s.accounts.lookup key.sellerID).isSome = true
  accounts : ∀ id acc, s.accounts.lookup id = some acc →
    (0 ≤ acc.balance ∧ acc.balance ≤ INT64_MAX) ∧ acc.liabilities = {}
  trustLines : ∀ key tl, s.trustLines.lookup key = some tl →
    (0 ≤ tl.balance ∧ tl.balance ≤ tl.limit ∧ tl.limit ≤ INT64_MAX) ∧ tl.liabilities = {}
  uncounted : ∀ id acc, s.accounts.lookup id = some acc → getNumSponsoring acc = 0 ∧ getNumSponsored acc = 0
  unsponsored : ∀ key offer, s.offers.lookup key = some offer → offer.sponsoringID = none

/-- Offers, liabilities and balances agree. -/
structure Liable (s : LedgerTxn) : Prop where
  accounted : Accounted s
  adjusted : ∀ key offer, s.offers.lookup key = some offer →
    adjustOffer offer.price offer.amount INT64_MAX = .ok offer.amount
  reserves : ∀ id acc, s.accounts.lookup id = some acc → acc.liabilities.selling ≠ 0 →
    ∃ minBalance, getMinBalance s.header acc = .ok minBalance ∧ minBalance + acc.liabilities.selling ≤ acc.balance
  limits : ∀ key tl, key.2 ≠ .native → s.trustLines.lookup key = some tl →
    tl.balance + tl.liabilities.buying ≤ tl.limit

def withVersion (s : LedgerTxn) (newVersion : Nat) : LedgerTxn :=
  { s with header := { s.header with ledgerVersion := newVersion } }

/-- What a seller needs for the upgrade: its reserve is defined, its counter is enough for the
offers that are erased, and after version 10 it keeps offers only in coins and assets it issues. -/
structure Upgradable (s₀ : LedgerTxn) (id : AccountID) : Prop where
  reserve : ReserveFits s₀ id
  counter : erased s₀ s₀.offers.keys (.subEntries id) ≤ countersOf s₀ (.subEntries id)
  lines : 10 < s₀.header.ledgerVersion → ∀ asset, asset ≠ .native → ¬KeepsIn s₀ id asset

theorem applyVersionUpgrade_run {s : LedgerTxn} {newVersion : Nat} (hold : s.header.ledgerVersion < 10)
    (hnew : 10 ≤ newVersion) :
    (applyVersionUpgrade newVersion).run s = prepareLiabilities.run (withVersion s newVersion) := by
  have hprepare : newVersion ≥ 10 ∧ s.header.ledgerVersion < 10 := ⟨hnew, hold⟩
  show (if newVersion ≥ 10 ∧ s.header.ledgerVersion < 10 then prepareLiabilities
    else pure ()).run (withVersion s newVersion) = _
  rw [if_pos hprepare]

section
variable {s : LedgerTxn} (h : Unliable s) (newVersion : Nat)
include h

theorem Unliable.valid (key : OfferKey) (offer : OfferEntry) (hkey : s.offers.lookup key = some offer) :
    ValidOffer offer :=
  have hoffer := h.offers key offer hkey
  ⟨hoffer.1, hoffer.2.1.le, hoffer.2.2⟩

theorem Unliable.stored (id : AccountID) (asset : Asset) : storedLiabilities s id asset = {} := by
  unfold storedLiabilities
  split
  · cases hacc : s.accounts.lookup id with
    | none => rfl
    | some acc => exact (h.accounts id acc hacc).2
  · cases htl : s.trustLines.lookup (id, asset) with
    | none => rfl
    | some tl => exact (h.trustLines _ tl htl).2

theorem Unliable.reserved {key : OfferKey} {offer : OfferEntry} (hkey : s.offers.lookup key = some offer) :
    reserved key offer = tallied key.sellerID 1 0 0 := by
  rw [Herder.reserved, h.unsponsored key offer hkey]
  rfl

theorem Unliable.erased_eq_zero (done : List OfferKey) {q : Quantity} (hq : ∀ id, q ≠ .subEntries id) :
    erased (withVersion s newVersion) done q = 0 := by
  apply Table.total_eq_zero
  intro key offer hkey
  rw [h.reserved hkey]
  cases q <;> simp_all [tallied]

theorem Unliable.counters_eq_zero {q : Quantity} (hq : ∀ id, q ≠ .subEntries id) :
    countersOf (withVersion s newVersion) q = 0 := by
  apply Table.total_eq_zero
  intro id acc hacc
  have hcounters := h.uncounted id acc hacc
  cases q <;> simp_all [counters, tallied]

/-- The reserve is that of the sub-entries alone, and erasing offers does not raise it. -/
theorem Unliable.effectiveEntries_eq (lh : LedgerHeader) (done : List OfferKey) (id : AccountID) :
    effectiveEntries lh (countersOf (withVersion s newVersion) - erased (withVersion s newVersion) done) id =
      effectiveEntries lh (countersOf (withVersion s newVersion)) id -
        erased (withVersion s newVersion) done (.subEntries id) ∧
    effectiveEntries lh (countersOf (withVersion s newVersion)) id =
      2 + countersOf (withVersion s newVersion) (.subEntries id) := by
  have herased (q : Quantity) := @erased_eq_zero s h newVersion done q
  have hcounters (q : Quantity) := @counters_eq_zero s h newVersion q
  simp [effectiveEntries, herased, hcounters, add_sub_assoc]

theorem Unliable.erased_le {newVersion : Nat}
    (hcounter : ∀ id ∈ sellers s.offers, erased (withVersion s newVersion) s.offers.keys (.subEntries id) ≤
      countersOf (withVersion s newVersion) (.subEntries id)) (q : Quantity) :
    erased (withVersion s newVersion) s.offers.keys q ≤ countersOf (withVersion s newVersion) q := by
  by_cases hseller : ∃ id ∈ sellers s.offers, q = .subEntries id
  · obtain ⟨id, hid, rfl⟩ := hseller
    exact hcounter id hid
  · have hzero : erased (withVersion s newVersion) s.offers.keys q = 0 := by
      apply Table.total_eq_zero
      intro key offer hkey
      have hid : key.sellerID ∈ sellers s.offers := mem_sellers.mpr ⟨key, offer, hkey, rfl⟩
      rw [h.reserved hkey]
      cases q <;> simp_all [tallied]
      grind
    rw [hzero]
    exact countersOf_nonneg _ q

theorem Unliable.seller_exists {id : AccountID} (hid : id ∈ sellers s.offers) : (s.accounts.lookup id).isSome = true := by
  obtain ⟨key, offer, hkey, rfl⟩ := mem_sellers.mp hid
  exact h.exist key offer hkey

theorem Unliable.offersOf_valid (id : AccountID) (e : OfferKey × OfferEntry) (he : e ∈ offersOf s.offers id) :
    ValidOffer e.2 := h.valid _ _ (mem_offersOf.mp he).1

variable {newVersion}

theorem Unliable.not_lessens (hversion : 10 < newVersion) {id : AccountID} {asset : Asset}
    (hkeeps : KeepsIn (withVersion s newVersion) id asset) :
    ¬Lessens (withVersion s newVersion).header (storedLiabilities (withVersion s newVersion) id asset)
      (keptLiabilities (withVersion s newVersion) id asset) := by
  intro hlessens
  rw [show storedLiabilities (withVersion s newVersion) id asset = {} from h.stored id asset] at hlessens
  obtain ⟨hselling, hbuying⟩ := hlessens hversion
  rcases @keptLiabilities_pos (withVersion s newVersion) id asset (h.offersOf_valid id) hkeeps with hpos | hpos
  · exact absurd hpos (not_lt.mpr hbuying)
  · exact absurd hpos (not_lt.mpr hselling)

theorem Unliable.effective_nonneg (hupgradable : ∀ id ∈ sellers s.offers, Upgradable (withVersion s newVersion) id)
    (done : List OfferKey) (id : AccountID) :
    0 ≤ effectiveEntries (withVersion s newVersion).header
      (countersOf (withVersion s newVersion) - erased (withVersion s newVersion) done) id := by
  have hle := h.erased_le (fun id hid => (hupgradable id hid).counter) (.subEntries id)
  have hmono := @erased_mono (withVersion s newVersion) done s.offers.keys
    (fun _ _ hkey _ => Table.mem_keys_of_lookup hkey) (.subEntries id)
  rw [(h.effectiveEntries_eq newVersion _ done id).1, (h.effectiveEntries_eq newVersion _ done id).2]
  omega

theorem Unliable.sane (hupgradable : ∀ id ∈ sellers s.offers, Upgradable (withVersion s newVersion) id) :
    Sane (withVersion s newVersion) where
  range := ⟨fun id acc hacc => (h.accounts id acc hacc).1, fun id asset tl _ _ htl => (h.trustLines _ tl htl).1⟩
  stored id asset _ := by
    rw [show storedLiabilities (withVersion s newVersion) id asset = {} from h.stored id asset]
    exact liabilities64_zero
  offers := h.valid
  sellers := h.exist
  effective id := h.effective_nonneg hupgradable (keysUpTo (withVersion s newVersion) id) id

variable (hnew : 10 ≤ newVersion)
include hnew

/-- Coins are only kept on offer above the reserve, which erasing offers does not raise. -/
theorem Unliable.keptSelling_le {id : AccountID} (hid : id ∈ sellers s.offers)
    (hfits : ReserveFits (withVersion s newVersion) id) (done : List OfferKey) :
    (keptLiabilities (withVersion s newVersion) id .native).selling = 0 ∨
    (keptLiabilities (withVersion s newVersion) id .native).selling +
      effectiveEntries (withVersion s newVersion).header
        (countersOf (withVersion s newVersion) - erased (withVersion s newVersion) done) id *
        s.header.baseReserve ≤ balanceOf s id := by
  rcases @keptSelling_covered (withVersion s newVersion) id (h.offersOf_valid id) .native with hzero | ⟨-, hle⟩
  · exact .inl hzero
  · right
    have hmin := @minBalanceOf_eq (withVersion s newVersion) hnew id (h.seller_exists hid) hfits
    have hnonneg := mul_nonneg (erased_nonneg (withVersion s newVersion) done (.subEntries id))
      (Int.natCast_nonneg s.header.baseReserve)
    rw [availableBalance, if_pos rfl, hmin] at hle
    rw [(h.effectiveEntries_eq newVersion _ done id).1, sub_mul]
    have hbalance : balanceOf (withVersion s newVersion) id = balanceOf s id := rfl
    have hreserve : (withVersion s newVersion).header.baseReserve = s.header.baseReserve := rfl
    rw [hbalance, hreserve] at hle
    omega

theorem Unliable.liable {s' : LedgerTxn}
    (hprepared : Prepared (withVersion s newVersion) s.offers.keys (sellers s.offers) s')
    (hupgradable : ∀ id ∈ sellers s.offers, Upgradable (withVersion s newVersion) id) : Liable s' where
  accounted id asset hissuer := by
    obtain ⟨hoffer, hnone⟩ := Prepared.stored_eq hprepared hissuer
    by_cases hhas : KeepsIn (withVersion s newVersion) id asset
    · exact hoffer hhas
    · obtain ⟨hold, hbuying, hselling⟩ := hnone hhas
      rw [hold, hbuying, hselling]
      exact h.stored id asset
  adjusted key kept hkept := by
    rw [Prepared.offers_eq hprepared] at hkept
    obtain ⟨offer, hkey, hkept⟩ := Option.bind_eq_some_iff.mp hkept
    obtain ⟨-, -, rfl⟩ := keptOffer_eq_some.mp hkept
    have hvalid := h.valid key offer hkey
    rw [hvalid.adjust.adjustOffer_eq, hvalid.adjust_adjusted]
  reserves id acc hacc hselling := by
    rw [← storedLiabilities_native hacc] at hselling ⊢
    have hheader := hprepared.stage.framed.header
    have hbalance := hprepared.stage.framed.balanceOf_eq hacc
    by_cases hkeeps : id ∈ sellers s.offers ∧ KeepsIn (withVersion s newVersion) id .native
    · rw [hprepared.stored id .native hkeeps.1 hkeeps.2] at hselling ⊢
      have hle := (h.keptSelling_le hnew hkeeps.1 (hupgradable id hkeeps.1).reserve s.offers.keys).resolve_left hselling
      have hsells := @keptSelling_nonneg (withVersion s newVersion) id (h.offersOf_valid id) .native
      have heffective := h.effective_nonneg hupgradable s.offers.keys id
      have hmax := ((h.sane hupgradable).range.balanceOf id).2
      rw [hbalance] at hmax
      change balanceOf s id = acc.balance at hbalance
      have hreserve := mul_nonneg heffective (Int.natCast_nonneg s.header.baseReserve)
      refine ⟨_, ?_, by rw [← hbalance, add_comm]; exact hle⟩
      rw [getMinBalance_eq (hheader ▸ hnew) hacc, hprepared.stage.counters, hheader, if_neg (not_lt.mpr heffective)]
      exact int64_eq_ok.mpr ⟨rfl, le_trans (by decide) hreserve, by
        change _ * (s.header.baseReserve : Int) ≤ INT64_MAX
        omega⟩
    · rw [hprepared.other id .native hkeeps] at hselling
      exact absurd (congrArg Liabilities.selling (h.stored id .native)) hselling
  limits key tl hnative htl := by
    obtain ⟨tl₀, htl₀, hframe⟩ := hprepared.stage.framed.exists_trustLine htl
    obtain ⟨hbalance, hlimit, -⟩ := line_of_frame hframe
    have hrange := (h.trustLines key tl₀ htl₀).1
    rw [← storedLiabilities_line hnative htl, hbalance, hlimit]
    by_cases hkeeps : key.1 ∈ sellers s.offers ∧ KeepsIn (withVersion s newVersion) key.1 key.2
    · rw [hprepared.stored key.1 key.2 hkeeps.1 hkeeps.2]
      rcases @keptBuying_covered (withVersion s newVersion) key.1 (h.offersOf_valid key.1) key.2 with hzero | ⟨-, hle⟩
      · omega
      · obtain ⟨_, _, hissuer, _⟩ := hkeeps.2
        rw [availableLimit, if_neg hnative, if_neg hissuer, htl₀, Option.elim_some] at hle
        split at hle <;> omega
    · rw [hprepared.other key.1 key.2 hkeeps,
        show storedLiabilities (withVersion s newVersion) key.1 key.2 = {} from h.stored key.1 key.2]
      show tl₀.balance + 0 ≤ tl₀.limit
      omega

end

/-- An upgrade to a version with liabilities stores what the offers it leaves need if and only if
every seller is upgradable. -/
theorem applyVersionUpgrade_liable_iff {s : LedgerTxn} {newVersion : Nat} (h : Unliable s) (hnew : 10 ≤ newVersion) :
    (∃ s', (applyVersionUpgrade newVersion).run s = .ok ((), s') ∧ Liable s') ↔
      ∀ id ∈ sellers s.offers, Upgradable (withVersion s newVersion) id := by
  have hruns :=
    @prepareLiabilities_runs (withVersion s newVersion) hnew fun key offer hkey => (h.offers key offer hkey).2.2
  rw [applyVersionUpgrade_run h.version hnew]
  constructor
  · rintro ⟨s', hrun, -⟩ id hid
    obtain ⟨-, -, herased, hallowed⟩ := hruns.of_ok hrun
    obtain ⟨hfits, hallowed⟩ := hallowed id hid
    refine ⟨hfits, herased _, fun hversion asset hnative hkeeps => ?_⟩
    exact h.not_lessens hversion hkeeps (hallowed.lines asset hnative hkeeps)
  · intro hupgradable
    cases hrun : prepareLiabilities.run (withVersion s newVersion) with
    | ok p => exact ⟨p.2, rfl, h.liable hnew (hruns.of_ok hrun).1 hupgradable⟩
    | error e =>
      refine absurd ⟨h.sane hupgradable, ⟨?_, ?_⟩, ?_⟩ (hruns.of_error hrun)
      · intro key offer hkey sponsoringID hsponsor
        rw [h.unsponsored key offer hkey] at hsponsor
        cases hsponsor
      · exact h.erased_le fun id hid => (hupgradable id hid).counter
      · intro id hid
        have hseller := hupgradable id hid
        refine ⟨hseller.reserve, fun _ => ?_, fun asset hnative hkeeps hversion => ?_⟩
        · rw [show storedLiabilities (withVersion s newVersion) id .native = {} from h.stored id .native]
          exact h.keptSelling_le hnew hid hseller.reserve _
        · exact absurd hkeeps (hseller.lines hversion asset hnative)

/-- Account 1 sells coins for dollars, before liabilities. -/
def oldSeller : LedgerTxn where
  header := ⟨9, 5, 0, 1000, 0, 0, 7, 10, 100, 1000⟩
  accounts := AList.insert 1 { balance := 100, seqNum := 0, numSubEntries := 2 } ∅
  trustLines := AList.insert (1, dollar) { balance := 0, limit := 1000, flags := 1 } ∅
  offers := AList.insert ⟨1, 7⟩ halfOffer ∅

theorem oldSeller_unliable : Unliable oldSeller := by
  have hoffer : ∀ key offer, oldSeller.offers.lookup key = some offer → offer = halfOffer := by decide +kernel
  refine ⟨by decide, fun key offer hkey => ?_, by decide +kernel, by decide +kernel, by decide +kernel, by decide +kernel,
    by decide +kernel⟩
  rw [hoffer key offer hkey]
  exact ⟨halfOffer_valid.price, by decide, by decide⟩

/-- Version 10 stores what the offer needs. -/
theorem oldSeller_upgrades : ∃ s', (applyVersionUpgrade 10).run oldSeller = .ok ((), s') ∧ Liable s' := by
  have hsellers : ∀ id ∈ sellers oldSeller.offers, id = 1 := by decide +kernel
  refine (applyVersionUpgrade_liable_iff oldSeller_unliable le_rfl).mpr fun id hid => ?_
  obtain rfl := hsellers id hid
  refine ⟨?_, by decide +kernel, fun hversion => absurd hversion (by decide)⟩
  unfold ReserveFits
  decide +kernel

/-- Version 11 does not come about: the trust line may get no liabilities. -/
theorem oldSeller_vetoes : Unliable oldSeller ∧
    (applyVersionUpgrade 11).run oldSeller = .error (.fault (.runtimeError "invalid liabilities delta")) := by
  refine ⟨oldSeller_unliable, ?_⟩
  apply Meets.eq_error
  decide +kernel

end Diamnet.Herder
