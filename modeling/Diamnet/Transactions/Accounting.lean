import Diamnet.Transactions.SponsorshipUtils
import Diamnet.Transactions.ExchangeBounds

/-! The books of a ledger.

A ledger says many things twice: an account counts its sub-entries and the reserves it sponsors,
and the entries are there to be counted; an account stores its liabilities, and the offers say
what they are. `measure` adds up over all entries what each contributes to a quantity, stored
amounts on one side and what they account for on the other, so that the books are right if the
measure of such a quantity is zero, and a change of one entry changes the measure by the
difference of its contributions. -/
namespace Diamnet.Transactions
open Ledger Table

inductive Quantity where
  /-- The account's balance in the asset. -/
  | held (id : AccountID) (asset : Asset)
  /-- All balances and claimable balances in the asset. -/
  | supply (asset : Asset)
  /-- The account's selling liabilities in the asset, less what its offers make of them. -/
  | selling (id : AccountID) (asset : Asset)
  | buying (id : AccountID) (asset : Asset)
  /-- `numSubEntries`, less the sub-entries. -/
  | subEntries (id : AccountID)
  /-- `numSponsoring`, less the reserves the account is named as sponsor of. -/
  | sponsoring (id : AccountID)
  /-- `numSponsored`, less the sponsored reserves of the account. -/
  | sponsored (id : AccountID)
deriving DecidableEq

/-- What an entry, or a change, contributes to each quantity. -/
abbrev Effect := Quantity → Int

/-! ### Contributions -/

def moved (id : AccountID) (asset : Asset) (amount : Int) : Effect
  | .held id' asset' => if id = id' ∧ asset = asset' then amount else 0
  | .supply asset' => if asset = asset' then amount else 0
  | _ => 0

def supplied (asset : Asset) (amount : Int) : Effect
  | .supply asset' => if asset = asset' then amount else 0
  | _ => 0

def liable (id : AccountID) (asset : Asset) (liabilities : Liabilities) : Effect
  | .selling id' asset' => if id = id' ∧ asset = asset' then liabilities.selling else 0
  | .buying id' asset' => if id = id' ∧ asset = asset' then liabilities.buying else 0
  | _ => 0

def owed (id : AccountID) (asset : Asset) (liabilities : Liabilities) : Effect :=
  if getIssuer asset = some id then 0 else liable id asset liabilities

def offerOwed (id : AccountID) (oe : OfferEntry) : Effect :=
  owed id oe.buying { buying := buyingLiability oe } + owed id oe.selling { selling := sellingLiability oe }

def tallied (id : AccountID) (subEntries sponsoring sponsored : Int) : Effect
  | .subEntries id' => if id = id' then subEntries else 0
  | .sponsoring id' => if id = id' then sponsoring else 0
  | .sponsored id' => if id = id' then sponsored else 0
  | _ => 0

/-- The reserves of an entry, on its owner and its sponsor. -/
def counted (le : LedgerEntry) (owner : AccountID) (sponsor : Option AccountID) : Effect :=
  let subEntries : Int := if isSubentry le then 1 else 0
  match sponsor with
  | none => tallied owner subEntries 0 0
  | some sponsoringID =>
    tallied owner subEntries 0 (if isClaimableBalance le then 0 else (computeMultiplier le).toNat) +
      tallied sponsoringID 0 (computeMultiplier le).toNat 0

def counters (id : AccountID) (acc : AccountEntry) : Effect :=
  tallied id acc.numSubEntries.toNat (getNumSponsoring acc).toNat (getNumSponsored acc).toNat

def signerSponsors (acc : AccountEntry) : List (Option AccountID) :=
  (prepareAccountEntryExtensionV2 acc).signerSponsoringIDs

/-- The reserves of an account's signers, on it and their sponsors. -/
def signersCounted (id : AccountID) (acc : AccountEntry) : Effect
  | .subEntries id' => if id = id' then (acc.signers.length : Int) else 0
  | .sponsoring id' => ((signerSponsors acc).count (some id') : Int)
  | .sponsored id' => if id = id' then ((signerSponsors acc).countP (·.isSome) : Int) else 0
  | _ => 0

def ofAccount (id : AccountID) (acc : AccountEntry) : Effect :=
  moved id .native acc.balance + liable id .native acc.liabilities + counters id acc -
    counted (.account acc) id acc.sponsoringID - signersCounted id acc

def ofTrustLine (key : AccountID × Asset) (tl : TrustLineEntry) : Effect :=
  moved key.1 key.2 tl.balance + liable key.1 key.2 tl.liabilities - counted (.trustLine tl) key.1 tl.sponsoringID

def ofOffer (key : OfferKey) (oe : OfferEntry) : Effect :=
  -(offerOwed key.sellerID oe + counted (.offer oe) key.sellerID oe.sponsoringID)

def ofData (key : AccountID × List UInt8) (entry : DataEntry) : Effect :=
  -counted (.data entry) key.1 entry.sponsoringID

def ofClaimableBalance (entry : ClaimableBalanceEntry) : Effect :=
  supplied entry.asset entry.amount - counted (.claimableBalance entry) 0 entry.sponsoringID

section
variable (id : AccountID)

theorem tallied_sub (a b c a' b' c' : Int) :
    tallied id (a - a') (b - b') (c - c') = tallied id a b c - tallied id a' b' c' := by
  funext q
  cases q <;> simp only [tallied, Pi.sub_apply] <;> grind

theorem tallied_add (a b c a' b' c' : Int) :
    tallied id (a + a') (b + b') (c + c') = tallied id a b c + tallied id a' b' c' := by
  funext q
  cases q <;> simp only [tallied, Pi.add_apply] <;> grind

@[simp] theorem tallied_zero : tallied id 0 0 0 = 0 := by
  funext q
  cases q <;> simp [tallied]

end

def bare (acc : AccountEntry) : AccountEntry :=
  { acc with numSubEntries := 0, extV2 := some { signerSponsoringIDs := signerSponsors acc } }

section
variable {acc acc' : AccountEntry} (h : bare acc' = bare acc)
include h

theorem balance_of_bare : acc'.balance = acc.balance :=
  show (bare acc').balance = (bare acc).balance by rw [h]

theorem liabilities_of_bare : acc'.liabilities = acc.liabilities :=
  show (bare acc').liabilities = (bare acc).liabilities by rw [h]

theorem sponsoringID_of_bare : acc'.sponsoringID = acc.sponsoringID :=
  show (bare acc').sponsoringID = (bare acc).sponsoringID by rw [h]

theorem signersCounted_of_bare (id : AccountID) : signersCounted id acc' = signersCounted id acc :=
  show signersCounted id (bare acc') = signersCounted id (bare acc) by rw [h]

/-- If only the counters of an account change, its contribution changes by the difference. -/
theorem ofAccount_tallied (id : AccountID) :
    ofAccount id acc' = ofAccount id acc + (counters id acc' - counters id acc) := by
  have hcounted : counted (.account acc') id acc'.sponsoringID = counted (.account acc) id acc.sponsoringID := by
    rw [sponsoringID_of_bare h]
    rfl
  rw [ofAccount, ofAccount, balance_of_bare h, liabilities_of_bare h, hcounted, signersCounted_of_bare h]
  abel

end

/-! ### The measure -/

def measure (s : LedgerTxn) : Effect := fun q =>
  s.accounts.total (ofAccount · · q) + s.trustLines.total (ofTrustLine · · q) + s.offers.total (ofOffer · · q) +
    s.data.total (ofData · · q) + s.claimableBalances.total fun _ entry => ofClaimableBalance entry q

section
variable (s : LedgerTxn)

theorem measure_insertAccount (id : AccountID) (acc : AccountEntry) (q : Quantity) :
    measure { s with accounts := s.accounts.insert id acc } q =
      measure s q - at? s.accounts id (ofAccount id · q) + ofAccount id acc q := by
  simp only [measure, total_insert]
  ring

end

/-! ### Counts -/

def countersOf (s : LedgerTxn) : Effect := fun q => s.accounts.total (counters · · q)

def entriesCounted (s : LedgerTxn) : Effect := fun q =>
  s.accounts.total (fun id acc => (counted (.account acc) id acc.sponsoringID + signersCounted id acc) q) +
  s.trustLines.total (fun key tl => counted (.trustLine tl) key.1 tl.sponsoringID q) +
  s.offers.total (fun key offer => counted (.offer offer) key.sellerID offer.sponsoringID q) +
  s.data.total (fun key entry => counted (.data entry) key.1 entry.sponsoringID q) +
  s.claimableBalances.total fun _ entry => counted (.claimableBalance entry) 0 entry.sponsoringID q

def Quantity.IsCount : Quantity → Prop
  | .subEntries _ | .sponsoring _ | .sponsored _ => True
  | _ => False

/-- The counters of the accounts are right. -/
structure Counted (s : LedgerTxn) : Prop where
  counters : ∀ q : Quantity, q.IsCount → countersOf s q = entriesCounted s q
  /-- Each signer has a slot for its sponsor. -/
  slots : ∀ id acc, s.accounts.lookup id = some acc → (signerSponsors acc).length = acc.signers.length
  accounts : ∀ id acc, s.accounts.lookup id = some acc → acc.sponsoringID ≠ some id
  trustLines : ∀ key tl, s.trustLines.lookup key = some tl → tl.sponsoringID ≠ some key.1
  offers : ∀ key offer, s.offers.lookup key = some offer → offer.sponsoringID ≠ some key.sellerID
  data : ∀ key entry, s.data.lookup key = some entry → entry.sponsoringID ≠ some key.1

def mentioned (s : LedgerTxn) : List AccountID :=
  s.accounts.keys ++
  s.accounts.entries.flatMap (fun e => e.2.sponsoringID.toList ++ (signerSponsors e.2).filterMap id) ++
  s.trustLines.entries.flatMap (fun e => e.1.1 :: e.2.sponsoringID.toList) ++
  s.offers.entries.flatMap (fun e => e.1.sellerID :: e.2.sponsoringID.toList) ++
  s.data.entries.flatMap (fun e => e.1.1 :: e.2.sponsoringID.toList) ++
  s.claimableBalances.entries.flatMap (·.2.sponsoringID.toList)

def Quantity.account : Quantity → AccountID
  | .subEntries id | .sponsoring id | .sponsored id => id
  | _ => 0

theorem counted_eq_zero {le : LedgerEntry} {owner : AccountID} {sponsor : Option AccountID} {q : Quantity}
    (hq : q.IsCount) (howner : isClaimableBalance le = true ∨ owner ≠ q.account)
    (hsponsor : sponsor ≠ some q.account) : counted le owner sponsor q = 0 := by
  cases q <;> first | exact hq.elim | skip
  all_goals
    cases sponsor <;> cases le <;>
      simp_all [counted, tallied, Quantity.account, isClaimableBalance, isSubentry]

theorem unmentioned_zero {s : LedgerTxn} {q : Quantity} (hq : q.IsCount) (h : q.account ∉ mentioned s) :
    countersOf s q = 0 ∧ entriesCounted s q = 0 := by
  simp only [mentioned, List.mem_append, List.mem_flatMap, List.mem_cons, Option.mem_toList, List.mem_filterMap,
    id_eq, not_or, not_exists, not_and] at h
  obtain ⟨⟨⟨⟨⟨hid, haccounts⟩, hlines⟩, hoffers⟩, hdata⟩, hbalances⟩ := h
  have howner : ∀ id acc, s.accounts.lookup id = some acc → id ≠ q.account :=
    fun id acc hacc heq => hid (heq ▸ mem_keys_of_lookup hacc)
  constructor
  · apply total_eq_zero
    intro id acc hacc
    have hne := howner id acc hacc
    cases q <;> first | exact hq.elim | exact if_neg hne
  · have haccount : s.accounts.total (fun id acc =>
        (counted (.account acc) id acc.sponsoringID + signersCounted id acc) q) = 0 := by
      apply total_eq_zero
      intro id acc hacc
      have hne := howner id acc hacc
      obtain ⟨hsponsor, hsigners⟩ := haccounts ⟨id, acc⟩ (AList.mem_lookup_iff.mp hacc)
      rw [Pi.add_apply, counted_eq_zero hq (.inr hne) hsponsor, zero_add]
      cases q <;> first | exact hq.elim | exact if_neg hne | skip
      have hcount := List.count_eq_zero.mpr fun hmem => hsigners _ hmem rfl
      exact congrArg Nat.cast hcount
    have hline : s.trustLines.total (fun key tl => counted (.trustLine tl) key.1 tl.sponsoringID q) = 0 :=
      total_eq_zero _ fun key tl htl =>
        have hne := hlines ⟨key, tl⟩ (AList.mem_lookup_iff.mp htl)
        counted_eq_zero hq (.inr (Ne.symm hne.1)) hne.2
    have hoffer : s.offers.total (fun key offer => counted (.offer offer) key.sellerID offer.sponsoringID q) = 0 :=
      total_eq_zero _ fun key offer hkey =>
        have hne := hoffers ⟨key, offer⟩ (AList.mem_lookup_iff.mp hkey)
        counted_eq_zero hq (.inr (Ne.symm hne.1)) hne.2
    have hentry : s.data.total (fun key entry => counted (.data entry) key.1 entry.sponsoringID q) = 0 :=
      total_eq_zero _ fun key entry hkey =>
        have hne := hdata ⟨key, entry⟩ (AList.mem_lookup_iff.mp hkey)
        counted_eq_zero hq (.inr (Ne.symm hne.1)) hne.2
    have hbalance : s.claimableBalances.total
        (fun _ entry => counted (.claimableBalance entry) 0 entry.sponsoringID q) = 0 :=
      total_eq_zero _ fun key entry hkey =>
        counted_eq_zero hq (.inl rfl) (hbalances ⟨key, entry⟩ (AList.mem_lookup_iff.mp hkey))
    rw [entriesCounted, haccount, hline, hoffer, hentry, hbalance]
    rfl

instance (s : LedgerTxn) : Decidable (Counted s) :=
  decidable_of_iff
    ((∀ id ∈ mentioned s, countersOf s (.subEntries id) = entriesCounted s (.subEntries id) ∧
      countersOf s (.sponsoring id) = entriesCounted s (.sponsoring id) ∧
      countersOf s (.sponsored id) = entriesCounted s (.sponsored id)) ∧
    (∀ id acc, s.accounts.lookup id = some acc →
      (signerSponsors acc).length = acc.signers.length ∧ acc.sponsoringID ≠ some id) ∧
    (∀ key tl, s.trustLines.lookup key = some tl → tl.sponsoringID ≠ some key.1) ∧
    (∀ key offer, s.offers.lookup key = some offer → offer.sponsoringID ≠ some key.sellerID) ∧
    ∀ key entry, s.data.lookup key = some entry → entry.sponsoringID ≠ some key.1)
    ⟨fun ⟨hcounters, haccounts, hlines, hoffers, hdata⟩ =>
      { counters := fun q hq => by
          by_cases hid : q.account ∈ mentioned s
          · have h := hcounters _ hid
            cases q <;> first | exact hq.elim | grind [Quantity.account]
          · rw [(unmentioned_zero hq hid).1, (unmentioned_zero hq hid).2]
        slots := fun id acc h => (haccounts id acc h).1
        accounts := fun id acc h => (haccounts id acc h).2
        trustLines := hlines
        offers := hoffers
        data := hdata },
    fun h => ⟨fun _ _ => ⟨h.counters _ trivial, h.counters _ trivial, h.counters _ trivial⟩,
      fun id acc hacc => ⟨h.slots id acc hacc, h.accounts id acc hacc⟩, h.trustLines, h.offers, h.data⟩⟩

theorem counted_nonneg (le : LedgerEntry) (owner : AccountID) (sponsor : Option AccountID) (q : Quantity) :
    0 ≤ counted le owner sponsor q := by
  unfold counted
  cases sponsor <;> cases q <;> simp only [tallied, Pi.add_apply] <;> grind

theorem signersCounted_nonneg (id : AccountID) (acc : AccountEntry) (q : Quantity) : 0 ≤ signersCounted id acc q := by
  cases q <;> simp only [signersCounted] <;> grind

theorem countersOf_nonneg (s : LedgerTxn) (q : Quantity) : 0 ≤ countersOf s q := by
  apply total_nonneg
  intro id acc _
  cases q <;> simp only [counters, tallied] <;> grind

theorem countersOf_subEntries (s : LedgerTxn) (id : AccountID) :
    countersOf s (.subEntries id) = at? s.accounts id fun acc => (acc.numSubEntries.toNat : Int) :=
  total_single s.accounts id _

theorem countersOf_sponsoring (s : LedgerTxn) (id : AccountID) :
    countersOf s (.sponsoring id) = at? s.accounts id fun acc => ((getNumSponsoring acc).toNat : Int) :=
  total_single s.accounts id _

theorem countersOf_sponsored (s : LedgerTxn) (id : AccountID) :
    countersOf s (.sponsored id) = at? s.accounts id fun acc => ((getNumSponsored acc).toNat : Int) :=
  total_single s.accounts id _

theorem counted_sponsored_le {le : LedgerEntry} (h : isSubentry le = true) (owner id : AccountID)
    (sponsor : Option AccountID) :
    counted le owner sponsor (.sponsored id) ≤ counted le owner sponsor (.subEntries id) := by
  cases le <;> simp only [isSubentry, Bool.false_eq_true] at h
  all_goals cases sponsor <;>
    simp only [counted, isSubentry, isClaimableBalance, computeMultiplier, tallied, Pi.add_apply] <;> grind

/-! ### Changes of counters -/

/-- Only counters of accounts change, by `e` together. -/
structure Tallied (s s' : LedgerTxn) (e : Effect) : Prop where
  rest : s' = { s with accounts := s'.accounts }
  accounts : ∀ id, (s'.accounts.lookup id).map bare = (s.accounts.lookup id).map bare
  counters : countersOf s' = countersOf s + e
  measure : measure s' = measure s + e

namespace Tallied

variable {s s' s'' : LedgerTxn} {e e' : Effect}

theorem trans (h : Tallied s s' e) (h' : Tallied s' s'' e') : Tallied s s'' (e + e') where
  rest := by
    rw [h'.rest, h.rest]
  accounts id := (h'.accounts id).trans (h.accounts id)
  counters := by rw [h'.counters, h.counters, add_assoc]
  measure := by rw [h'.measure, h.measure, add_assoc]

theorem header (h : Tallied s s' e) : s'.header = s.header := by rw [h.rest]

theorem trustLines (h : Tallied s s' e) : s'.trustLines = s.trustLines := by rw [h.rest]

theorem offers (h : Tallied s s' e) : s'.offers = s.offers := by rw [h.rest]

theorem store {id : AccountID} {acc acc' : AccountEntry} (h : s.accounts.lookup id = some acc)
    (hbare : bare acc' = bare acc) :
    Tallied s { s with accounts := s.accounts.insert id acc' }
      (Transactions.counters id acc' - Transactions.counters id acc) where
  rest := rfl
  accounts id' := by
    by_cases hid : id' = id
    · rw [hid, AList.lookup_insert, h, Option.map_some, Option.map_some, hbare]
    · rw [AList.lookup_insert_ne hid]
  counters := by
    funext q
    simp only [countersOf, total_insert, at?_of_lookup h, Pi.add_apply, Pi.sub_apply]
    ring
  measure := by
    funext q
    rw [measure_insertAccount, at?_of_lookup h, ofAccount_tallied hbare id]
    simp only [Pi.add_apply, Pi.sub_apply]
    ring

end Tallied

end Diamnet.Transactions
