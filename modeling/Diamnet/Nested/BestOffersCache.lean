import Diamnet.Nested.Stack
import Diamnet.Util.Ranked
import Mathlib.Data.Prod.Lex
import Mathlib.Algebra.Order.Ring.Rat

/-! The root's cache of best offers (`LedgerTxnRoot::Impl`).

For an asset pair the cache keeps the best offers as far as they were loaded, in batches, and
whether these are all. A query looks in what is cached and loads batches until it finds an offer.
The database is asked for the best offers that are worse than the last one cached; that it gives
them, sorted and as many as there are, is assumed (`LoadsBestOffers`). Which pairs the cache evicts
is random. Prefetching fills the cache of entries only. -/
namespace Diamnet.Nested
open Ledger

/-! ### The order of offers -/

section
variable (asDouble : Price → ℚ)

def offerRank (d : OfferDescriptor) : ℚ ×ₗ ℤ := toLex (asDouble d.price, d.offerID)

theorem isBetterOffer_eq (lhs rhs : OfferDescriptor) :
    isBetterOffer asDouble lhs rhs = decide (offerRank asDouble lhs < offerRank asDouble rhs) := by
  unfold isBetterOffer offerRank
  rw [Bool.eq_iff_iff, decide_eq_true_eq, Prod.Lex.toLex_lt_toLex]
  split
  · next hlt => simp [hlt]
  · next hlt =>
    split
    · next heq => simp [heq]
    · next hne => simp [hlt, hne]

/-! ### The database -/

/-- The table of offers. Its primary key is the offer's ID. -/
structure OfferTable where
  offers : List (Sigma OfferOf)
  unique : (offers.map fun offer => offer.1.offerID).Nodup

def assetsOf (offer : Sigma OfferOf) : AssetPair := (listingOfOffer offer.1 offer.2).assets

/-- The offers of a pair that are worse than the bound. -/
def OfferTable.matching (table : OfferTable) (assets : AssetPair) (worseThan : Option OfferDescriptor) :
    List (Sigma OfferOf) :=
  table.offers.filter fun offer =>
    decide (assetsOf offer = assets) && worseThan.all fun d => isBetterOffer asDouble d (descriptorOf offer)

def OfferTable.bestOffer (table : OfferTable) (assets : AssetPair) (worseThan : Option OfferDescriptor) :
    Option (Sigma OfferOf) :=
  best? (fun a b => isBetterOffer asDouble (descriptorOf a) (descriptorOf b)) (table.matching asDouble assets worseThan)

/-- How the database is asked for best offers, up to a number of them. -/
abbrev OfferQuery := OfferTable → AssetPair → Option OfferDescriptor → Nat → List (Sigma OfferOf)

/-- It gives the first of the sorted offers, as many as were asked for or as there are. -/
structure LoadsBestOffers (loadBestOffers : OfferQuery) : Prop where
  sorted : ∀ table assets worseThan n, ∃ rest,
    (loadBestOffers table assets worseThan n ++ rest).Perm (table.matching asDouble assets worseThan) ∧
    (loadBestOffers table assets worseThan n ++ rest).Pairwise fun a b =>
      isBetterOffer asDouble (descriptorOf b) (descriptorOf a) = false
  length : ∀ table assets worseThan n, (loadBestOffers table assets worseThan n).length =
    min n (table.matching asDouble assets worseThan).length

/-! ### The cache -/

def minBestOffersBatchSize : Nat := 5

def maxBestOffersBatchSize : Nat := 1024

structure BestOffersCacheEntry where
  bestOffers : List (Sigma OfferOf)
  allLoaded : Bool

/-- The cached offers from the first that is worse than the bound on. -/
def findIncludedOffer (offers : List (Sigma OfferOf)) (worseThan : Option OfferDescriptor) : List (Sigma OfferOf) :=
  match worseThan with
  | none => offers
  | some bound => offers.dropWhile fun offer => !isBetterOffer asDouble bound (descriptorOf offer)

variable (loadBestOffers : OfferQuery)

/-- Load the next batch; what was loaded is also returned. -/
def loadNextBestOffersIntoCache (table : OfferTable) (assets : AssetPair) (cached : BestOffersCacheEntry) :
    BestOffersCacheEntry × List (Sigma OfferOf) :=
  if cached.allLoaded then (cached, [])
  else
    let batchSize := min maxBestOffersBatchSize (max minBestOffersBatchSize cached.bestOffers.length)
    let loaded := match cached.bestOffers.getLast? with
      | none => loadBestOffers table assets none batchSize
      | some oe => loadBestOffers table assets (some (descriptorOf oe)) batchSize
    ({ bestOffers := cached.bestOffers ++ loaded, allLoaded := decide (loaded.length < batchSize) }, loaded)

/-- Load batches until there is an offer worse than the bound. -/
def searchBatches (table : OfferTable) (assets : AssetPair) (worseThan : Option OfferDescriptor) :
    Nat → BestOffersCacheEntry → List (Sigma OfferOf) → Except Fault (BestOffersCacheEntry × List (Sigma OfferOf))
  | fuel, cached, iter =>
    if iter.isEmpty && !cached.allLoaded then
      match fuel with
      | 0 => throw .fuel
      | fuel + 1 =>
        let next := loadNextBestOffersIntoCache loadBestOffers table assets cached
        searchBatches table assets worseThan fuel next.1 (findIncludedOffer asDouble next.2 worseThan)
    else pure (cached, iter)

/-- The root, as far as best offers go. -/
structure RootOffers where
  table : OfferTable
  mBestOffersCache : Table AssetPair BestOffersCacheEntry

def RootOffers.getFromBestOffersCache (r : RootOffers) (assets : AssetPair) : BestOffersCacheEntry :=
  (r.mBestOffersCache.lookup assets).getD ⟨[], false⟩

/-- Each turn of the loop but the last loads an offer. -/
def RootOffers.getBestOffer (r : RootOffers) (assets : AssetPair) (worseThan : Option OfferDescriptor) :
    Except Fault (Option (Sigma OfferOf) × RootOffers) := do
  let cached := r.getFromBestOffersCache assets
  let (cached, iter) ← searchBatches asDouble loadBestOffers r.table assets worseThan (r.table.offers.length + 1) cached
    (findIncludedOffer asDouble cached.bestOffers worseThan)
  let r := { r with mBestOffersCache := r.mBestOffersCache.insert assets cached }
  match iter with
  | [] => pure (none, r)
  | offer :: _ =>
    if worseThan.all (fun bound => isBetterOffer asDouble bound (descriptorOf offer)) = true then pure (some offer, r)
    else throw .assertion

/-- What happens to the root. -/
inductive RootCall where
  | getBestOffer (assets : AssetPair) (worseThan : Option OfferDescriptor)
  /-- A child is committed and leaves these offers. -/
  | commitChild (table : OfferTable)
  | rollbackChild
  | prefetch
  /-- The cache evicts a pair. -/
  | evict (assets : AssetPair)

def RootOffers.step (r : RootOffers) : RootCall → Except Fault (Option (Option (Sigma OfferOf)) × RootOffers)
  | .getBestOffer assets worseThan => do
    let (offer, r) ← r.getBestOffer asDouble loadBestOffers assets worseThan
    pure (some offer, r)
  | .commitChild table => pure (none, { table := table, mBestOffersCache := ∅ })
  | .rollbackChild => pure (none, r)
  | .prefetch => pure (none, r)
  | .evict assets => pure (none, { r with mBestOffersCache := r.mBestOffersCache.erase assets })

/-- The answers to the queries, and the root at the end. -/
def RootOffers.run (r : RootOffers) : List RootCall → Except Fault (List (Option (Sigma OfferOf)) × RootOffers)
  | [] => pure ([], r)
  | call :: calls => do
    let (answer, r) ← r.step asDouble loadBestOffers call
    let (answers, r) ← r.run calls
    pure (answer.toList ++ answers, r)

/-- The answer that is right: the best offer in the table. -/
def RootCall.answer (table : OfferTable) : RootCall → Option (Option (Sigma OfferOf))
  | .getBestOffer assets worseThan => some (table.bestOffer asDouble assets worseThan)
  | _ => none

def RootCall.tableAfter (table : OfferTable) : RootCall → OfferTable
  | .commitChild table => table
  | _ => table

def bestOffers (table : OfferTable) : List RootCall → List (Option (Sigma OfferOf))
  | [] => []
  | call :: calls => (call.answer asDouble table).toList ++ bestOffers (call.tableAfter table) calls

end

/-! ### Sorted offers -/

section
variable {asDouble : Price → ℚ}

variable (asDouble) in
abbrev rankOf (offer : Sigma OfferOf) : ℚ ×ₗ ℤ := offerRank asDouble (descriptorOf offer)

variable (asDouble) in
def boundOf (worseThan : Option OfferDescriptor) : WithBot (ℚ ×ₗ ℤ) := worseThan.map (offerRank asDouble)

theorem all_isBetterOffer (worseThan : Option OfferDescriptor) (offer : Sigma OfferOf) :
    (worseThan.all fun d => isBetterOffer asDouble d (descriptorOf offer)) =
      decide (boundOf asDouble worseThan < rankOf asDouble offer) := by
  cases worseThan with
  | none => exact (decide_eq_true (WithBot.bot_lt_coe _)).symm
  | some d =>
    rw [Option.all_some, isBetterOffer_eq, decide_eq_decide]
    exact WithBot.coe_lt_coe.symm

theorem findIncludedOffer_eq (offers : List (Sigma OfferOf)) (worseThan : Option OfferDescriptor) :
    findIncludedOffer asDouble offers worseThan = above (rankOf asDouble) (boundOf asDouble worseThan) offers := by
  cases worseThan with
  | none => exact (above_bot offers).symm
  | some d =>
    show offers.dropWhile _ = offers.dropWhile _
    congr 1
    funext offer
    rw [← all_isBetterOffer]
    rfl

def Ranked (asDouble : Price → ℚ) (table : OfferTable) (assets : AssetPair) (ranked : List (Sigma OfferOf)) : Prop :=
  (table.matching asDouble assets none).Perm ranked ∧ Ascending (rankOf asDouble) ranked

variable {table : OfferTable} {assets : AssetPair}

theorem matching_eq_filter (worseThan : Option OfferDescriptor) : table.matching asDouble assets worseThan =
    (table.matching asDouble assets none).filter fun offer =>
      decide (boundOf asDouble worseThan < rankOf asDouble offer) := by
  unfold OfferTable.matching
  rw [List.filter_filter]
  refine List.filter_congr fun offer _ => ?_
  rw [all_isBetterOffer, Option.all_none, Bool.and_true, Bool.and_comm]

theorem matching_ranks_nodup (worseThan : Option OfferDescriptor) :
    ((table.matching asDouble assets worseThan).map (rankOf asDouble)).Nodup := by
  refine List.Nodup.of_map (fun rank => (ofLex rank).2) ?_
  rw [List.map_map]
  exact (List.filter_sublist.map _).nodup table.unique

variable {ranked : List (Sigma OfferOf)}

theorem Ranked.unique {ranked' : List (Sigma OfferOf)} (h : Ranked asDouble table assets ranked)
    (h' : Ranked asDouble table assets ranked') : ranked = ranked' :=
  h.2.eq_of_perm h'.2 (h.1.symm.trans h'.1)

theorem Ranked.above_perm (h : Ranked asDouble table assets ranked) (worseThan : Option OfferDescriptor) :
    (table.matching asDouble assets worseThan).Perm (above (rankOf asDouble) (boundOf asDouble worseThan) ranked) := by
  rw [above_eq_filter h.2, matching_eq_filter]
  exact h.1.filter _

theorem Ranked.above_ascending (h : Ranked asDouble table assets ranked) (bound : WithBot (ℚ ×ₗ ℤ)) :
    Ascending (rankOf asDouble) (above (rankOf asDouble) bound ranked) :=
  List.Pairwise.sublist (List.dropWhile_sublist _) h.2

theorem Ranked.bestOffer_eq (h : Ranked asDouble table assets ranked) (worseThan : Option OfferDescriptor) :
    table.bestOffer asDouble assets worseThan =
      (above (rankOf asDouble) (boundOf asDouble worseThan) ranked).head? := by
  rw [← best?_eq_head? (h.above_perm worseThan) (h.above_ascending _)]
  unfold OfferTable.bestOffer
  congr 1
  funext a b
  exact isBetterOffer_eq asDouble _ _

section
variable {loadBestOffers : OfferQuery} (hload : LoadsBestOffers asDouble loadBestOffers)
include hload

theorem query_ascending (table : OfferTable) (assets : AssetPair) (worseThan : Option OfferDescriptor) (n : Nat) :
    ∃ rest, (loadBestOffers table assets worseThan n ++ rest).Perm (table.matching asDouble assets worseThan) ∧
      Ascending (rankOf asDouble) (loadBestOffers table assets worseThan n ++ rest) := by
  obtain ⟨rest, hperm, hsorted⟩ := hload.sorted table assets worseThan n
  refine ⟨rest, hperm, ascending_of_sorted (hsorted.imp fun hle => ?_) ?_⟩
  · rw [isBetterOffer_eq, decide_eq_false_iff_not, not_lt] at hle
    exact hle
  · exact (hperm.map _).nodup_iff.mpr (matching_ranks_nodup worseThan)

theorem exists_ranked (table : OfferTable) (assets : AssetPair) : ∃ ranked, Ranked asDouble table assets ranked := by
  obtain ⟨rest, hperm, hascending⟩ := query_ascending hload table assets none 0
  exact ⟨_, hperm.symm, hascending⟩

theorem Ranked.loadBestOffers_eq {ranked : List (Sigma OfferOf)} (h : Ranked asDouble table assets ranked)
    (worseThan : Option OfferDescriptor) (n : Nat) : loadBestOffers table assets worseThan n =
      (above (rankOf asDouble) (boundOf asDouble worseThan) ranked).take n := by
  obtain ⟨rest, hperm, hascending⟩ := query_ascending hload table assets worseThan n
  have heq := hascending.eq_of_perm (h.above_ascending _) (hperm.trans (h.above_perm worseThan))
  have hlength := hload.length table assets worseThan n
  rw [(h.above_perm worseThan).length_eq, ← heq, List.length_append] at hlength
  have hrest : rest.take (n - (loadBestOffers table assets worseThan n).length) = [] := by
    rw [List.take_eq_nil_iff, ← List.length_eq_zero_iff]
    omega
  rw [← heq, List.take_append, hrest, List.append_nil, List.take_of_length_le (by omega)]

/-! ### Batches -/

/-- What is cached is the beginning of the sorted offers, and all of them if it says so. -/
def Cached (ranked : List (Sigma OfferOf)) (cached : BestOffersCacheEntry) : Prop :=
  ∃ rest, ranked = cached.bestOffers ++ rest ∧ (cached.allLoaded = true → rest = [])

variable {ranked : List (Sigma OfferOf)} {cached : BestOffersCacheEntry}

theorem Cached.loadNext (hranked : Ranked asDouble table assets ranked) (h : Cached ranked cached)
    (hmore : cached.allLoaded = false) :
    let next := loadNextBestOffersIntoCache loadBestOffers table assets cached
    Cached ranked next.1 ∧ next.1.bestOffers = cached.bestOffers ++ next.2 ∧
      (next.1.allLoaded = false → cached.bestOffers.length < next.1.bestOffers.length) := by
  obtain ⟨rest, hrest, -⟩ := h
  have hquery (n : Nat) : (match cached.bestOffers.getLast? with
      | none => loadBestOffers table assets none n
      | some oe => loadBestOffers table assets (some (descriptorOf oe)) n) = rest.take n := by
    cases hlast : cached.bestOffers.getLast? with
    | none =>
      rw [List.getLast?_eq_none_iff] at hlast
      rw [hlast, List.nil_append] at hrest
      rw [hranked.loadBestOffers_eq hload, hrest]
      exact congrArg (List.take n) (above_bot rest)
    | some oe =>
      have hascending := hranked.2
      dsimp only
      rw [hranked.loadBestOffers_eq hload]
      rw [hrest] at hascending ⊢
      exact congrArg (List.take n) (above_getLast hascending hlast)
  unfold loadNextBestOffersIntoCache
  rw [hmore, if_neg Bool.false_ne_true]
  dsimp only
  rw [hquery]
  have hbatch : 0 < min maxBestOffersBatchSize (max minBestOffersBatchSize cached.bestOffers.length) := by
    unfold maxBestOffersBatchSize minBestOffersBatchSize
    omega
  generalize min maxBestOffersBatchSize (max minBestOffersBatchSize cached.bestOffers.length) = n at hbatch
  rw [List.length_take, List.length_append, List.length_take]
  refine ⟨⟨rest.drop n, ?_, ?_⟩, rfl, ?_⟩
  · rw [hrest, List.append_assoc, List.take_append_drop]
  · intro hall
    rw [decide_eq_true_eq] at hall
    exact List.drop_eq_nil_of_le (by omega)
  · intro hall
    rw [decide_eq_false_iff_not] at hall
    omega

omit hload in
theorem Cached.head?_above (h : Cached ranked cached) {bound : WithBot (ℚ ×ₗ ℤ)}
    (hstop : (above (rankOf asDouble) bound cached.bestOffers).isEmpty = false ∨ cached.allLoaded = true) :
    (above (rankOf asDouble) bound cached.bestOffers).head? = (above (rankOf asDouble) bound ranked).head? := by
  obtain ⟨rest, rfl, hall⟩ := h
  rw [above_append]
  split
  · next hnil =>
    cases hstop with
    | inl hfound =>
      rw [hnil] at hfound
      cases hfound
    | inr hloaded =>
      rw [hall hloaded, hnil]
      rfl
  · next hfound =>
    obtain ⟨offer, offers, hoffers⟩ := List.exists_cons_of_ne_nil hfound
    rw [hoffers]
    rfl

theorem Cached.searchBatches (hranked : Ranked asDouble table assets ranked) (h : Cached ranked cached)
    (worseThan : Option OfferDescriptor) {fuel : Nat}
    (hfuel : cached.allLoaded = false → ranked.length < fuel + cached.bestOffers.length) :
    ∃ cached' iter, Nested.searchBatches asDouble loadBestOffers table assets worseThan fuel cached
        (findIncludedOffer asDouble cached.bestOffers worseThan) = .ok (cached', iter) ∧
      Cached ranked cached' ∧
      iter.head? = (above (rankOf asDouble) (boundOf asDouble worseThan) ranked).head? := by
  rw [findIncludedOffer_eq]
  induction fuel generalizing cached with
  | zero =>
    unfold Nested.searchBatches
    cases hloaded : cached.allLoaded with
    | true =>
      rw [Bool.not_true, Bool.and_false, if_neg Bool.false_ne_true]
      exact ⟨_, _, rfl, h, h.head?_above (.inr hloaded)⟩
    | false =>
      -- all sorted offers would be cached, and more
      obtain ⟨rest, hrest, -⟩ := h
      have hlength := congrArg List.length hrest
      rw [List.length_append] at hlength
      have := hfuel hloaded
      omega
  | succ fuel ih =>
    unfold Nested.searchBatches
    split
    · next hmore =>
      rw [Bool.and_eq_true, List.isEmpty_iff, Bool.not_eq_true'] at hmore
      obtain ⟨hnone, hmore⟩ := hmore
      obtain ⟨hnext, happend, hgrows⟩ := h.loadNext hload hranked hmore
      have hbefore := hfuel hmore
      have hiter : findIncludedOffer asDouble (loadNextBestOffersIntoCache loadBestOffers table assets cached).2 worseThan =
          above (rankOf asDouble) (boundOf asDouble worseThan)
            (loadNextBestOffersIntoCache loadBestOffers table assets cached).1.bestOffers := by
        rw [findIncludedOffer_eq, happend, above_append, if_pos hnone]
      dsimp only
      rw [hiter]
      refine ih hnext fun hafter => ?_
      have := hgrows hafter
      omega
    · next hstop =>
      rw [Bool.not_eq_true, Bool.and_eq_false_iff, Bool.not_eq_false'] at hstop
      exact ⟨_, _, rfl, h, h.head?_above hstop⟩

/-! ### Runs -/

/-- Each entry of the cache is right about the table. -/
def RootOffers.Valid (asDouble : Price → ℚ) (r : RootOffers) : Prop :=
  ∀ assets cached, r.mBestOffersCache.lookup assets = some cached →
    ∀ ranked, Ranked asDouble r.table assets ranked → Cached ranked cached

variable {r : RootOffers}

omit hload in
theorem RootOffers.Valid.getFromBestOffersCache (h : r.Valid asDouble)
    (hranked : Ranked asDouble r.table assets ranked) : Cached ranked (r.getFromBestOffersCache assets) := by
  unfold RootOffers.getFromBestOffersCache
  cases hlookup : r.mBestOffersCache.lookup assets with
  | none => exact ⟨ranked, rfl, fun hloaded => (by cases hloaded)⟩
  | some cached => exact h assets cached hlookup ranked hranked

theorem RootOffers.Valid.getBestOffer (h : r.Valid asDouble) (assets : AssetPair)
    (worseThan : Option OfferDescriptor) : ∃ r', r.getBestOffer asDouble loadBestOffers assets worseThan =
      .ok (r.table.bestOffer asDouble assets worseThan, r') ∧ r'.table = r.table ∧ r'.Valid asDouble := by
  obtain ⟨ranked, hranked⟩ := exists_ranked hload r.table assets
  have hcached := h.getFromBestOffersCache hranked
  have hfuel : ranked.length < r.table.offers.length + 1 + (r.getFromBestOffersCache assets).bestOffers.length := by
    have hlength := hranked.1.length_eq
    have hmatching : (r.table.matching asDouble assets none).length ≤ r.table.offers.length := List.length_filter_le _ _
    omega
  obtain ⟨cached, iter, hsearch, hafter, hhead⟩ := hcached.searchBatches hload hranked worseThan fun _ => hfuel
  have hvalid : RootOffers.Valid asDouble { r with mBestOffersCache := r.mBestOffersCache.insert assets cached } := by
    intro assets' cached' hlookup ranked' hranked'
    by_cases hassets : assets' = assets
    · subst hassets
      rw [AList.lookup_insert] at hlookup
      cases hlookup
      rw [hranked'.unique hranked]
      exact hafter
    · rw [AList.lookup_insert_ne hassets] at hlookup
      exact h assets' cached' hlookup ranked' hranked'
  rw [hranked.bestOffer_eq, ← hhead]
  unfold RootOffers.getBestOffer
  dsimp only
  rw [hsearch]
  cases iter with
  | nil => exact ⟨_, rfl, rfl, hvalid⟩
  | cons offer iter =>
    have hworse : (worseThan.all fun bound => isBetterOffer asDouble bound (descriptorOf offer)) = true := by
      have hmem : offer ∈ above (rankOf asDouble) (boundOf asDouble worseThan) ranked :=
        List.mem_of_mem_head? (hhead ▸ rfl)
      rw [above_eq_filter hranked.2, List.mem_filter] at hmem
      rw [all_isBetterOffer]
      exact hmem.2
    exact ⟨_, if_pos hworse, rfl, hvalid⟩

theorem RootOffers.Valid.step (h : r.Valid asDouble) (call : RootCall) :
    ∃ r', r.step asDouble loadBestOffers call = .ok (call.answer asDouble r.table, r') ∧ r'.table = call.tableAfter r.table ∧ r'.Valid asDouble := by
  cases call with
  | getBestOffer assets worseThan =>
    obtain ⟨r', hget, htable, hvalid⟩ := h.getBestOffer hload assets worseThan
    refine ⟨r', ?_, htable, hvalid⟩
    unfold RootOffers.step
    dsimp only
    rw [hget]
    rfl
  | commitChild table =>
    refine ⟨_, rfl, rfl, fun assets cached hlookup => ?_⟩
    cases hlookup
  | rollbackChild => exact ⟨r, rfl, rfl, h⟩
  | prefetch => exact ⟨r, rfl, rfl, h⟩
  | evict assets =>
    refine ⟨_, rfl, rfl, fun assets' cached hlookup => ?_⟩
    by_cases hassets : assets' = assets
    · subst hassets
      rw [AList.lookup_erase] at hlookup
      cases hlookup
    · rw [AList.lookup_erase_ne hassets] at hlookup
      exact h assets' cached hlookup

theorem RootOffers.Valid.run (h : r.Valid asDouble) (calls : List RootCall) :
    ∃ r', r.run asDouble loadBestOffers calls = .ok (bestOffers asDouble r.table calls, r') := by
  induction calls generalizing r with
  | nil => exact ⟨r, rfl⟩
  | cons call calls ih =>
    obtain ⟨r₁, hstep, htable, hvalid⟩ := h.step hload call
    obtain ⟨r', hrun⟩ := ih hvalid
    refine ⟨r', ?_⟩
    unfold RootOffers.run bestOffers
    rw [hstep, ok_bind]
    dsimp only
    rw [hrun, htable]
    rfl

end

/-- **The cache is transparent.** Whatever is asked, committed, prefetched or evicted, each query gives
the best offer of the pair that is worse than the bound, of those stored at the time. -/
theorem run_bestOffers {loadBestOffers : OfferQuery} (hload : LoadsBestOffers asDouble loadBestOffers)
    (table : OfferTable) (calls : List RootCall) :
    ∃ r, RootOffers.run asDouble loadBestOffers ⟨table, ∅⟩ calls = .ok (bestOffers asDouble table calls, r) := by
  refine RootOffers.Valid.run hload (fun assets cached hlookup => ?_) calls
  cases hlookup

def OfferTable.sortedOffers (asDouble : Price → ℚ) : OfferQuery := fun table assets worseThan n =>
  ((table.matching asDouble assets worseThan).mergeSort fun a b =>
    !isBetterOffer asDouble (descriptorOf b) (descriptorOf a)).take n

theorem loadsBestOffers_sorted (asDouble : Price → ℚ) : LoadsBestOffers asDouble (OfferTable.sortedOffers asDouble) where
  sorted table assets worseThan n := by
    refine ⟨((table.matching asDouble assets worseThan).mergeSort fun a b =>
      !isBetterOffer asDouble (descriptorOf b) (descriptorOf a)).drop n, ?_, ?_⟩
    · unfold OfferTable.sortedOffers
      rw [List.take_append_drop]
      exact List.mergeSort_perm _ _
    · unfold OfferTable.sortedOffers
      rw [List.take_append_drop]
      refine (List.pairwise_mergeSort ?_ ?_ _).imp fun h => Bool.not_eq_true' _ ▸ h
      · intro a b c hab hbc
        simp only [isBetterOffer_eq, Bool.not_eq_true', decide_eq_false_iff_not, not_lt] at hab hbc ⊢
        exact hab.trans hbc
      · intro a b
        simp only [isBetterOffer_eq, Bool.or_eq_true, Bool.not_eq_true', decide_eq_false_iff_not, not_lt]
        exact le_total _ _
  length table assets worseThan n := by
    unfold OfferTable.sortedOffers
    rw [List.length_take, (List.mergeSort_perm _ _).length_eq]

def twoOffers : List (Sigma OfferOf) :=
  [⟨⟨1, 8⟩, ⟨0, { selling := .native, buying := .native, amount := 5, price := ⟨2, 1⟩ }⟩⟩,
    ⟨⟨2, 9⟩, ⟨0, { selling := .native, buying := .native, amount := 5, price := ⟨1, 1⟩ }⟩⟩]

theorem twoOffers_unique : (twoOffers.map fun offer => offer.1.offerID).Nodup := by decide

def tableOfTwo : OfferTable := ⟨twoOffers, twoOffers_unique⟩

theorem run_bestOffers_two : ∃ r,
    RootOffers.run (fun p => p.n) (OfferTable.sortedOffers fun p => p.n) ⟨tableOfTwo, ∅⟩
        [.getBestOffer ⟨.native, .native⟩ none, .prefetch, .getBestOffer ⟨.native, .native⟩ (some ⟨⟨1, 1⟩, 9⟩)] =
      .ok (bestOffers (fun p => p.n) tableOfTwo
        [.getBestOffer ⟨.native, .native⟩ none, .prefetch, .getBestOffer ⟨.native, .native⟩ (some ⟨⟨1, 1⟩, 9⟩)], r) :=
  run_bestOffers (loadsBestOffers_sorted _) tableOfTwo _

end

end Diamnet.Nested
