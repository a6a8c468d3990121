import Diamnet.Herder.PreparedOffers

/-! How an upgrade brings one account into a valid state: its offers are updated one after another,
then its liabilities are stored. -/
namespace Diamnet.Herder
open Ledger Transactions List

/-! ### The ledger while offers are updated -/

/-- What became of an offer once those in `done` were updated. -/
def after (s₀ : LedgerTxn) (done : List OfferKey) (key : OfferKey) (offer : OfferEntry) : Option OfferEntry :=
  if key ∈ done then keptOffer s₀ key offer else some offer

def reserved (key : OfferKey) (offer : OfferEntry) : Effect := counted (.offer offer) key.sellerID offer.sponsoringID

/-- The reserves of the offers in `done` that are erased. -/
def erased (s₀ : LedgerTxn) (done : List OfferKey) : Effect := fun q =>
  s₀.offers.total fun key offer => if key ∈ done ∧ keptOffer s₀ key offer = none then reserved key offer q else 0

/-- The offers in `done` are updated. -/
structure Stage (s₀ : LedgerTxn) (done : List OfferKey) (s : LedgerTxn) : Prop where
  framed : Framed s₀ s
  offers : ∀ key, s.offers.lookup key = (s₀.offers.lookup key).bind (after s₀ done key)
  counters : countersOf s = countersOf s₀ - erased s₀ done

theorem reserved_nonneg (key : OfferKey) (offer : OfferEntry) (q : Quantity) : 0 ≤ reserved key offer q :=
  counted_nonneg _ _ _ q

section
variable {s₀ s : LedgerTxn} {done : List OfferKey} {key : OfferKey} {offer : OfferEntry}

theorem erased_cons (hkey : s₀.offers.lookup key = some offer) (hdone : key ∉ done) :
    erased s₀ (key :: done) =
      erased s₀ done + if keptOffer s₀ key offer = none then reserved key offer else 0 := by
  funext q
  have hsplit : ∀ k o, s₀.offers.lookup k = some o →
      (if k ∈ key :: done ∧ keptOffer s₀ k o = none then reserved k o q else 0) =
        (if k ∈ done ∧ keptOffer s₀ k o = none then reserved k o q else 0) +
        if k = key then (if keptOffer s₀ key o = none then reserved key o q else 0) else 0 := by
    intro k o _
    by_cases hk : k = key
    · subst hk
      simp [hdone]
    · simp [hk]
  rw [erased, Table.total_congr _ hsplit, Table.total_add, Table.total_single, Table.at?_of_lookup hkey]
  simp only [Pi.add_apply, erased]
  split <;> rfl

theorem erased_nonneg (s₀ : LedgerTxn) (done : List OfferKey) (q : Quantity) : 0 ≤ erased s₀ done q := by
  apply Table.total_nonneg
  intro k o _
  have := reserved_nonneg k o q
  split <;> omega

theorem erased_mono {done' : List OfferKey}
    (h : ∀ key offer, s₀.offers.lookup key = some offer → key ∈ done → key ∈ done') (q : Quantity) :
    erased s₀ done q ≤ erased s₀ done' q := by
  apply Table.total_mono
  intro k o hk
  have := reserved_nonneg k o q
  grind

end

/-! ### The counters are there to be decreased -/

variable {id : AccountID}

theorem exists_of_one_le_at? {accounts : Table AccountID AccountEntry} {f : AccountEntry → UInt32}
    (h : 1 ≤ Table.at? accounts id fun acc => ((f acc).toNat : Int)) :
    ∃ acc, accounts.lookup id = some acc ∧ 1 ≤ f acc := by
  unfold Table.at? at h
  cases hacc : accounts.lookup id with
  | none =>
    rw [hacc] at h
    cases h
  | some acc =>
    rw [hacc, Option.elim_some] at h
    exact ⟨acc, rfl, UInt32.le_iff_toNat_le.mpr (by exact_mod_cast h)⟩

variable {s : LedgerTxn} {key : OfferKey} {offer : OfferEntry}

theorem canUncount_of_counters
    (hsponsor : ∀ sponsoringID, offer.sponsoringID = some sponsoringID → sponsoringID ≠ key.sellerID ∧ 14 ≤ s.header.ledgerVersion)
    (hcounters : ∀ q, reserved key offer q ≤ countersOf s q) : CanUncount s (.offer offer) key.sellerID [] := by
  have hsub := hcounters (.subEntries key.sellerID)
  rw [countersOf_subEntries] at hsub
  unfold CanUncount
  cases hsponsoring : (LedgerEntry.offer offer).sponsoringID with
  | none =>
    apply exists_of_one_le_at?
    refine le_trans ?_ hsub
    rw [reserved, show offer.sponsoringID = none from hsponsoring]
    simp [counted, isSubentry, tallied]
  | some sponsoringID =>
    have hsome : offer.sponsoringID = some sponsoringID := hsponsoring
    obtain ⟨hne, hv⟩ := hsponsor sponsoringID hsome
    have hsponsored := hcounters (.sponsored key.sellerID)
    have hsponsors := hcounters (.sponsoring sponsoringID)
    rw [countersOf_sponsored] at hsponsored
    rw [countersOf_sponsoring] at hsponsors
    rw [reserved, hsome] at hsub hsponsored hsponsors
    simp only [counted, isSubentry, isClaimableBalance, computeMultiplier, tallied, Pi.add_apply, if_true,
      Bool.false_eq_true, if_false, if_neg hne, if_neg (Ne.symm hne), zero_add, add_zero]
      at hsub hsponsored hsponsors
    obtain ⟨acc, hacc, hcount⟩ := exists_of_one_le_at? hsub
    obtain ⟨acc', hacc', hcount'⟩ := exists_of_one_le_at? hsponsored
    obtain ⟨sponsoringAcc, hsponsoringAcc, hsponsoringCount⟩ := exists_of_one_le_at? hsponsors
    rw [hacc] at hacc'
    cases hacc'
    exact ⟨hne, by simp, hv, acc, sponsoringAcc, hacc, hsponsoringAcc, rfl, fun _ => hcount, hcount', hsponsoringCount⟩

/-! ### One offer -/

/-- The counters of the ledger are enough for the offers that are erased. -/
structure Removable (s₀ : LedgerTxn) : Prop where
  sponsors : ∀ key offer, s₀.offers.lookup key = some offer → ∀ sponsoringID, offer.sponsoringID = some sponsoringID →
    sponsoringID ≠ key.sellerID ∧ 14 ≤ s₀.header.ledgerVersion
  counters : ∀ q, erased s₀ s₀.offers.keys q ≤ countersOf s₀ q

/-- Balances and liabilities are as they were. -/
structure Untouched (s s' : LedgerTxn) : Prop where
  accounts : ∀ id, (s'.accounts.lookup id).map bare = (s.accounts.lookup id).map bare
  trustLines : s'.trustLines = s.trustLines

namespace Untouched

variable {s s' s'' : LedgerTxn}

theorem refl (s : LedgerTxn) : Untouched s s := ⟨fun _ => rfl, rfl⟩

theorem trans (h : Untouched s s') (h' : Untouched s' s'') : Untouched s s'' :=
  ⟨fun id => (h'.accounts id).trans (h.accounts id), h'.trustLines.trans h.trustLines⟩

theorem framed (h : Untouched s s') (hheader : s'.header = s.header) : Framed s s' where
  header := hheader
  accounts id := by
    have hbare := congrArg (Option.map fun acc : AccountEntry => { acc with liabilities := {} }) (h.accounts id)
    rw [Option.map_map, Option.map_map] at hbare
    exact hbare
  trustLines key := by rw [h.trustLines]

end Untouched

section
variable {s₀ s : LedgerTxn} {done : List OfferKey} {key : OfferKey} {offer : OfferEntry}
variable (hstage : Stage s₀ done s) (hkey : s₀.offers.lookup key = some offer) (hdone : key ∉ done)
include hstage hkey hdone

theorem Stage.offers_cons {s' : LedgerTxn} (hat : s'.offers.lookup key = keptOffer s₀ key offer)
    (hother : ∀ k, k ≠ key → s'.offers.lookup k = s.offers.lookup k) (k : OfferKey) :
    s'.offers.lookup k = (s₀.offers.lookup k).bind (after s₀ (key :: done) k) := by
  by_cases hk : k = key
  · subst hk
    rw [hat, hkey]
    simp [after]
  · rw [hother k hk, hstage.offers]
    congr 1
    funext o
    simp [after, hk]

theorem removeOffer_runs (hdrop : keptOffer s₀ key offer = none) :
    Runs (removeOffer key offer) s (fun _ s' => Stage s₀ (key :: done) s' ∧ Untouched s s')
      (fun _ => ¬Removable s₀) := by
  unfold removeOffer
  refine Runs.bind ((@removeSubentry_runs (.offer offer) rfl key.sellerID [] s).mono (fun _ _ h => h) ?_) ?_
  · intro _ hfails hremovable
    apply hfails
    apply canUncount_of_counters
    · intro sponsoringID hsponsoring
      rw [hstage.framed.header]
      exact hremovable.sponsors key offer hkey sponsoringID hsponsoring
    · intro q
      have hall := hremovable.counters q
      have hmono : erased s₀ (key :: done) q ≤ erased s₀ s₀.offers.keys q :=
        erased_mono (fun _ _ h _ => Table.mem_keys_of_lookup h) q
      rw [erased_cons hkey hdone, if_pos hdrop, Pi.add_apply] at hmono
      rw [hstage.counters, Pi.sub_apply]
      omega
  · rintro _ s₁ ⟨-, htally⟩
    rw [runs_eraseOffer]
    have huntouched : Untouched s s₁ := ⟨htally.accounts, htally.trustLines⟩
    have hframed := hstage.framed.trans (huntouched.framed htally.header)
    refine ⟨⟨⟨hframed.header, hframed.accounts, hframed.trustLines⟩, ?_, ?_⟩, huntouched.accounts, huntouched.trustLines⟩
    · apply hstage.offers_cons hkey hdone
      · rw [AList.lookup_erase, hdrop]
      · intro k hk
        show (s₁.offers.erase key).lookup k = _
        rw [AList.lookup_erase_ne hk, htally.offers]
    · show countersOf s₁ = _
      rw [htally.counters, hstage.counters, erased_cons hkey hdone, if_pos hdrop, reserved]
      simp only [LedgerEntry.sponsoringID]
      abel

theorem Stage.store {kept : OfferEntry} (hkept : keptOffer s₀ key offer = some kept) :
    Stage s₀ (key :: done) { s with offers := s.offers.insert key kept } where
  framed := ⟨hstage.framed.header, hstage.framed.accounts, hstage.framed.trustLines⟩
  offers := by
    apply hstage.offers_cons hkey hdone
    · rw [AList.lookup_insert, hkept]
    · intro k hk
      exact AList.lookup_insert_ne hk
  counters := by
    show countersOf s = _
    rw [hstage.counters, erased_cons hkey hdone, if_neg (by rw [hkept]; exact Option.some_ne_none _), add_zero]

end

variable {s₀ : LedgerTxn}

theorem updateOffer_runs (hframed : Framed s₀ s) (hv : 10 ≤ s₀.header.ledgerVersion) {before : Before}
    (hbefore : IsBefore s₀ id before) (hseller : key.sellerID = id) (hmem : (key, offer) ∈ offersOf s₀.offers id)
    (hoffer : ValidOffer offer) {liabilities : Table Asset Liabilities} {mentioned : Asset → Prop}
    {buying selling : Asset → Int} (hholds : Holds liabilities mentioned buying selling)
    (hbuying : ∀ asset, 0 ≤ buying asset) (hselling : ∀ asset, 0 ≤ selling asset)
    (hfits : ∀ kept, keptOffer s₀ key offer = some kept → (getIssuer kept.buying ≠ some id → buying kept.buying + buyingLiability kept ≤ INT64_MAX) ∧ (getIssuer kept.selling ≠ some id → selling kept.selling + sellingLiability kept ≤ INT64_MAX)) :
    Runs (updateOffer before key offer liabilities) s
      (fun r s' => match keptOffer s₀ key offer with
        | none => (r.1 = .adjustedToZero ∨ r.1 = .erase) ∧ r.2 = liabilities ∧ s' = s
        | some kept => ¬(r.1 = .adjustedToZero ∨ r.1 = .erase) ∧
          Holds r.2 (fun asset => mentioned asset ∨ Mentions id kept asset)
            (fun asset => buying asset + contribution id buyingLiability (·.buying) kept asset)
            (fun asset => selling asset + contribution id sellingLiability (·.selling) kept asset) ∧
          s' = { s with offers := s.offers.insert key kept })
      (fun _ => ¬InRange s₀) := by
  unfold updateOffer
  rw [Runs.bind_iff, runs_getHeader, hseller]
  refine (hasExcess_runs hframed hbefore hmem).bind ?_
  rintro excess s' ⟨rfl, rfl⟩
  unfold keptOffer at hfits ⊢
  rw [hseller] at hfits ⊢
  cases hover : overcommitted s₀ id offer with
  | true => exact ⟨.inr rfl, rfl, rfl⟩
  | false =>
    rw [hoffer.adjustOffer_eq]
    simp only [hover, Bool.false_eq_true, if_false, false_or, Runs.bind_iff, runs_checked, Meets.ok_iff] at hfits ⊢
    by_cases hzero : adjustedAmountOf offer = 0
    · simp only [if_pos hzero]
      exact ⟨.inl rfl, rfl, rfl⟩
    · simp only [if_neg hzero, Runs.bind_iff, runs_storeOffer] at hfits ⊢
      obtain ⟨hfitsBuying, hfitsSelling⟩ := hfits _ rfl
      rw [hframed.header]
      refine (addOfferLiabilities_runs hholds id _ hv hoffer.adjust hbuying hselling hfitsBuying hfitsSelling).mono ?_
        fun _ h => h.elim
      rintro liabilities' s' ⟨rfl, hholds'⟩
      refine ⟨?_, hholds', rfl⟩
      dsimp only
      split <;> simp

/-! ### All offers of an account -/

theorem keptOffer_eq_some {kept : OfferEntry} :
    keptOffer s₀ key offer = some kept ↔ overcommitted s₀ key.sellerID offer = false ∧ adjustedAmountOf offer ≠ 0 ∧
      kept = { offer with amount := adjustedAmountOf offer } := by
  unfold keptOffer
  grind

def keptOf (s₀ : LedgerTxn) (offers : List (OfferKey × OfferEntry)) : List OfferEntry :=
  offers.filterMap fun e => keptOffer s₀ e.1 e.2

/-- What offers add to the liabilities in an asset. -/
def contributions (id : AccountID) (f : OfferEntry → Int) (concerns : OfferEntry → Asset) (offers : List OfferEntry)
    (asset : Asset) : Int := (offers.map (contribution id f concerns · asset)).sum

/-- The table of the liabilities of the kept ones of a list of offers. -/
def IsKept (s₀ : LedgerTxn) (id : AccountID) (offers : List (OfferKey × OfferEntry))
    (liabilities : Table Asset Liabilities) : Prop :=
  Holds liabilities (fun asset => ∃ kept ∈ keptOf s₀ offers, Mentions id kept asset)
    (contributions id buyingLiability (·.buying) (keptOf s₀ offers))
    (contributions id sellingLiability (·.selling) (keptOf s₀ offers))

section
variable {s₀ : LedgerTxn} {id : AccountID} {f : OfferEntry → Int} {concerns : OfferEntry → Asset}

theorem sumFor_eq_contributions (offers : List (OfferKey × OfferEntry)) (asset : Asset) :
    sumFor id f concerns offers asset = contributions id f concerns (offers.map Prod.snd) asset := by
  unfold sumFor contributions contribution
  rw [map_map]
  split
  · next hissuer =>
    symm
    apply sum_eq_zero
    intro x hx
    obtain ⟨e, -, rfl⟩ := mem_map.mp hx
    simp [hissuer]
  · next hissuer =>
    congr 1
    apply map_congr_left
    intro e _
    simp [hissuer]

theorem contributions_nonneg {offers : List OfferEntry} (h : ∀ offer ∈ offers, 0 ≤ f offer) (asset : Asset) :
    0 ≤ contributions id f concerns offers asset := by
  apply sum_nonneg
  intro x hx
  obtain ⟨offer, hoffer, rfl⟩ := mem_map.mp hx
  unfold contribution
  split
  · exact h offer hoffer
  · exact le_rfl

theorem contributions_keptOf_le {offers : List (OfferKey × OfferEntry)} (hnonneg : ∀ e ∈ offers, 0 ≤ f e.2)
    (hadjust : ∀ e ∈ offers, f { e.2 with amount := adjustedAmountOf e.2 } ≤ f e.2)
    (hconcerns : ∀ (offer : OfferEntry) (x : Int), concerns { offer with amount := x } = concerns offer) (asset : Asset) :
    contributions id f concerns (keptOf s₀ offers) asset ≤ sumFor id f concerns offers asset := by
  rw [sumFor_eq_contributions]
  induction offers with
  | nil => exact le_rfl
  | cons e rest ih =>
    obtain ⟨hnonneg, hnonnegs⟩ := forall_mem_cons.mp hnonneg
    obtain ⟨hadjust, hadjusts⟩ := forall_mem_cons.mp hadjust
    have ih := ih hnonnegs hadjusts
    cases hkept : keptOffer s₀ e.1 e.2 with
    | none =>
      have hcontribution : 0 ≤ contribution id f concerns e.2 asset := by
        unfold contribution
        split <;> omega
      simp only [keptOf, contributions, filterMap_cons, hkept, map_cons, sum_cons] at ih ⊢
      omega
    | some kept =>
      obtain ⟨-, -, rfl⟩ := keptOffer_eq_some.mp hkept
      have hcontribution : contribution id f concerns { e.2 with amount := adjustedAmountOf e.2 } asset ≤
          contribution id f concerns e.2 asset := by
        unfold contribution
        rw [hconcerns]
        split <;> omega
      simp only [keptOf, contributions, filterMap_cons, hkept, map_cons, sum_cons] at ih ⊢
      exact add_le_add hcontribution ih

theorem sumFor_le_append {offers rest : List (OfferKey × OfferEntry)} (h : ∀ e ∈ rest, 0 ≤ f e.2) (asset : Asset) :
    sumFor id f concerns offers asset ≤ sumFor id f concerns (offers ++ rest) asset := by
  have hrest := @sumFor_nonneg id f concerns rest h asset
  rw [sumFor_eq_contributions] at hrest ⊢
  rw [sumFor_eq_contributions]
  simp only [contributions, map_append, sum_append] at hrest ⊢
  omega

theorem contributions_keptOf_fit {past rest : List (OfferKey × OfferEntry)} {e : OfferKey × OfferEntry}
    {kept : OfferEntry} {total : Int} (hnonneg : ∀ e' ∈ past ++ e :: rest, 0 ≤ f e'.2)
    (hadjust : ∀ e' ∈ past ++ e :: rest, f { e'.2 with amount := adjustedAmountOf e'.2 } ≤ f e'.2)
    (hconcerns : ∀ (offer : OfferEntry) (x : Int), concerns { offer with amount := x } = concerns offer)
    (hkept : keptOffer s₀ e.1 e.2 = some kept) (hissuer : getIssuer (concerns kept) ≠ some id)
    (htotal : sumFor id f concerns (past ++ e :: rest) (concerns kept) = total) (hfits : total ≤ INT64_MAX) :
    contributions id f concerns (keptOf s₀ past) (concerns kept) + f kept ≤ INT64_MAX := by
  have hsplit : past ++ e :: rest = (past ++ [e]) ++ rest := by simp
  rw [hsplit] at hnonneg hadjust htotal
  have hbelow : contributions id f concerns (keptOf s₀ (past ++ [e])) (concerns kept) ≤
      sumFor id f concerns (past ++ [e]) (concerns kept) :=
    contributions_keptOf_le (fun e' he' => hnonneg e' (mem_append_left _ he'))
      (fun e' he' => hadjust e' (mem_append_left _ he')) hconcerns _
  have hall := @sumFor_le_append id f concerns (past ++ [e]) rest
    (fun e' he' => hnonneg e' (mem_append_right _ he')) (concerns kept)
  have hstep : contributions id f concerns (keptOf s₀ (past ++ [e])) (concerns kept) =
      contributions id f concerns (keptOf s₀ past) (concerns kept) + f kept := by
    simp [contributions, keptOf, hkept, contribution, hissuer]
  omega

end

theorem mem_offersOf {offers : Table OfferKey OfferEntry} {e : OfferKey × OfferEntry} :
    e ∈ offersOf offers id ↔ offers.lookup e.1 = some e.2 ∧ e.1.sellerID = id := by
  unfold offersOf
  rw [mem_filter, mem_map, decide_eq_true_eq]
  constructor
  · rintro ⟨⟨entry, hentry, rfl⟩, hseller⟩
    exact ⟨AList.mem_lookup_iff.mpr hentry, hseller⟩
  · rintro ⟨hlookup, hseller⟩
    exact ⟨⟨⟨e.1, e.2⟩, AList.mem_lookup_iff.mp hlookup, rfl⟩, hseller⟩

theorem updateOffers_runs (hv : 10 ≤ s₀.header.ledgerVersion) {before : Before} (hbefore : IsBefore s₀ id before)
    (hvalid : ∀ e ∈ offersOf s₀.offers id, ValidOffer e.2) {past todo : List (OfferKey × OfferEntry)}
    (hall : offersOf s₀.offers id = past ++ todo) (hnodup : (todo.map Prod.fst).Nodup) {done : List OfferKey}
    (htodo : ∀ e ∈ todo, e.1 ∉ done) (hstage : Stage s₀ done s) {liabilities : Table Asset Liabilities}
    (hkept : IsKept s₀ id past liabilities) :
    Runs (updateOffers before todo liabilities) s
      (fun liabilities' s' => IsKept s₀ id (offersOf s₀.offers id) liabilities' ∧
        Stage s₀ ((todo.map Prod.fst).reverse ++ done) s' ∧ Untouched s s')
      (fun _ => ¬(InRange s₀ ∧ Removable s₀)) := by
  induction todo generalizing past done s liabilities with
  | nil =>
    rw [hall, append_nil]
    exact ⟨hkept, hstage, Untouched.refl s⟩
  | cons e rest ih =>
    have hmem : e ∈ offersOf s₀.offers id := by simp [hall]
    obtain ⟨hkey, hseller⟩ := mem_offersOf.mp hmem
    obtain ⟨hnot, htodo⟩ := forall_mem_cons.mp htodo
    rw [map_cons, nodup_cons] at hnodup
    have hrest : ∀ e' ∈ rest, e'.1 ∉ e.1 :: done := by
      intro e' he'
      rw [mem_cons, not_or]
      exact ⟨fun heq => hnodup.1 (heq ▸ mem_map_of_mem he'), htodo e' he'⟩
    have hall' : offersOf s₀.offers id = (past ++ [e]) ++ rest := by simp [hall]
    have hkeys : (map Prod.fst (e :: rest)).reverse ++ done = (rest.map Prod.fst).reverse ++ e.1 :: done := by simp
    -- the rest of the loop, once this offer is updated
    have hloop : ∀ liabilities' s₁, IsKept s₀ id (past ++ [e]) liabilities' → Stage s₀ (e.1 :: done) s₁ →
        Untouched s s₁ → Runs (updateOffers before rest liabilities') s₁
          (fun liabilities' s' => IsKept s₀ id (offersOf s₀.offers id) liabilities' ∧
            Stage s₀ ((map Prod.fst (e :: rest)).reverse ++ done) s' ∧ Untouched s s')
          (fun _ => ¬(InRange s₀ ∧ Removable s₀)) := by
      intro liabilities' s₁ hkept' hstage' huntouched
      rw [hkeys]
      refine (ih hall' hnodup.2 hrest hstage' hkept').mono ?_ fun _ h => h
      rintro liabilities'' s' ⟨hkept'', hstage'', huntouched'⟩
      exact ⟨hkept'', hstage'', huntouched.trans huntouched'⟩
    have hkeptValid : ∀ kept ∈ keptOf s₀ past, ValidOffer kept := by
      intro kept hmem
      obtain ⟨e', he', hkept'⟩ := mem_filterMap.mp hmem
      obtain ⟨-, -, rfl⟩ := keptOffer_eq_some.mp hkept'
      exact (hvalid e' (by rw [hall]; exact mem_append_left _ he')).adjust
    have hfits : ∀ kept, keptOffer s₀ e.1 e.2 = some kept →
        (getIssuer kept.buying ≠ some id → contributions id buyingLiability (·.buying) (keptOf s₀ past) kept.buying +
          buyingLiability kept ≤ INT64_MAX) ∧
        (getIssuer kept.selling ≠ some id → contributions id sellingLiability (·.selling) (keptOf s₀ past) kept.selling +
          sellingLiability kept ≤ INT64_MAX) := by
      intro kept hkept'
      obtain ⟨hover, -, hamount⟩ := keptOffer_eq_some.mp hkept'
      simp only [overcommitted, exceeds, hseller, Bool.or_eq_false_iff, decide_eq_false_iff_not, not_lt] at hover
      rw [hall] at hvalid
      constructor
      · intro hissuer
        apply contributions_keptOf_fit (fun e' he' => (hvalid e' he').buyingLiability_nonneg)
          (fun e' he' => (hvalid e' he').adjust_buyingLiability_le) (fun _ _ => rfl) hkept' hissuer rfl
        rw [← hall, sumFor_offersOf, hamount]
        exact hover.2.1
      · intro hissuer
        apply contributions_keptOf_fit (fun e' he' => (hvalid e' he').sellingLiability_nonneg)
          (fun e' he' => (hvalid e' he').adjust_sellingLiability_le) (fun _ _ => rfl) hkept' hissuer rfl
        rw [← hall, sumFor_offersOf, hamount]
        exact hover.1.1
    unfold updateOffers
    refine Runs.bind ((updateOffer_runs hstage.framed hv hbefore hseller hmem (hvalid e hmem) hkept
      (contributions_nonneg fun kept h => (hkeptValid kept h).buyingLiability_nonneg)
      (contributions_nonneg fun kept h => (hkeptValid kept h).sellingLiability_nonneg) hfits).mono (fun _ _ h => h)
      fun _ hrange h => hrange h.1) ?_
    rintro ⟨res, liabilities'⟩ s₁ hupdate
    dsimp only at hupdate ⊢
    cases hkeep : keptOffer s₀ e.1 e.2 with
    | none =>
      rw [hkeep] at hupdate
      obtain ⟨hres, rfl, rfl⟩ := hupdate
      rw [if_pos hres]
      refine Runs.bind ((removeOffer_runs hstage hkey hnot hkeep).mono (fun _ _ h => h) fun _ hcount h => hcount h.2) ?_
      rintro _ s₂ ⟨hstage', huntouched⟩
      refine hloop _ _ ?_ hstage' huntouched
      simpa [IsKept, keptOf, hkeep] using hkept
    | some kept =>
      rw [hkeep] at hupdate
      obtain ⟨hres, hholds, rfl⟩ := hupdate
      rw [if_neg hres]
      refine hloop _ _ ⟨fun asset => ?_, fun asset => ?_⟩ (hstage.store hkey hnot hkeep) ⟨fun _ => rfl, rfl⟩
      · rw [hholds.mem]
        simp [keptOf, hkeep, or_and_right, exists_or]
      · rw [hholds.amounts]
        simp [keptOf, hkeep, contributions]

end Diamnet.Herder
