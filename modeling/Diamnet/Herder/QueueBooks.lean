import Diamnet.Herder.TransactionQueue
import Diamnet.Util.Grouping

/-! The books of the transaction queue.

The table of account states is determined by the lanes of the queue, that is, by the
transactions of each account and their age (`Shows`): the fees of an account are the bids of
all transactions that it pays for, its operations are counted, and there is a state for it only
if it has transactions or fees. While transactions are dropped the sums run behind, so `Shows`
leaves them open; each mutator ends with books that are right again for lanes that differ in
one account (`Books.of_shows`). -/
namespace Diamnet.Herder
open Ledger Transactions Function Finset
namespace TransactionQueue

/-! ### Sums over the queue -/

abbrev Lane := List TransactionFrameBase × Nat

def laneOf (q : TransactionQueue) (id : AccountID) : Lane :=
  ((q.accountStates.lookup id).map fun state => (state.transactions, state.age)).getD ([], 0)

def sumOver (q : TransactionQueue) (f : Lane → Int) : Int := q.accountStates.total fun _ state => f (state.transactions, state.age)

def opsOf (txs : List TransactionFrameBase) : Int := (txs.map fun tx => (tx.getNumOperations : Int)).sum

def bidsFor (id : AccountID) (txs : List TransactionFrameBase) : Int :=
  (txs.map fun tx => if tx.getFeeSourceID = id then tx.getFeeBid else 0).sum

/-- The bids that an account pays in the whole queue. -/
def feesOf (q : TransactionQueue) (id : AccountID) : Int := q.sumOver fun lane => bidsFor id lane.1

@[simp] theorem opsOf_nil : opsOf [] = 0 := rfl

@[simp] theorem bidsFor_nil (id : AccountID) : bidsFor id [] = 0 := rfl

@[simp] theorem opsOf_append (txs txs' : List TransactionFrameBase) : opsOf (txs ++ txs') = opsOf txs + opsOf txs' := by
  simp [opsOf]

@[simp] theorem opsOf_cons (tx : TransactionFrameBase) (txs : List TransactionFrameBase) :
    opsOf (tx :: txs) = tx.getNumOperations + opsOf txs := by
  simp [opsOf]

@[simp] theorem bidsFor_append (id : AccountID) (txs txs' : List TransactionFrameBase) :
    bidsFor id (txs ++ txs') = bidsFor id txs + bidsFor id txs' := by
  simp [bidsFor]

@[simp] theorem bidsFor_cons (id : AccountID) (tx : TransactionFrameBase) (txs : List TransactionFrameBase) :
    bidsFor id (tx :: txs) = (if tx.getFeeSourceID = id then tx.getFeeBid else 0) + bidsFor id txs := by
  simp [bidsFor]

theorem bidsFor_le_of_sublist (id : AccountID) {txs txs' : List TransactionFrameBase} (hsub : txs.Sublist txs')
    (h : ∀ tx ∈ txs', 0 < tx.getFeeBid) : bidsFor id txs ≤ bidsFor id txs' := by
  refine (hsub.map _).sum_le_sum fun x hx => ?_
  obtain ⟨tx, htx, rfl⟩ := List.mem_map.mp hx
  split
  · exact (h tx htx).le
  · exact le_rfl

theorem bidsFor_nonneg (id : AccountID) {txs : List TransactionFrameBase} (h : ∀ tx ∈ txs, 0 < tx.getFeeBid) :
    0 ≤ bidsFor id txs := bidsFor_le_of_sublist id (List.nil_sublist txs) h

theorem bid_le_bidsFor {tx : TransactionFrameBase} {txs : List TransactionFrameBase} (hmem : tx ∈ txs)
    (h : ∀ tx ∈ txs, 0 < tx.getFeeBid) : tx.getFeeBid ≤ bidsFor tx.getFeeSourceID txs := by
  simpa using bidsFor_le_of_sublist tx.getFeeSourceID (List.singleton_sublist.mpr hmem) h

variable {q : TransactionQueue} {id : AccountID}

theorem laneOf_of_lookup {state : AccountState} (h : q.accountStates.lookup id = some state) :
    laneOf q id = (state.transactions, state.age) := by
  rw [laneOf, h]
  rfl

theorem laneOf_of_none (h : q.accountStates.lookup id = none) : laneOf q id = ([], 0) := by
  rw [laneOf, h]
  rfl

theorem sumOver_eq_sum (q : TransactionQueue) {f : Lane → Int} (hf : f ([], 0) = 0) {S : Finset AccountID}
    (hS : ∀ id ∉ S, q.laneOf id = ([], 0)) : q.sumOver f = ∑ id ∈ S, f (q.laneOf id) := by
  have hkeys : ∀ id ∈ q.accountStates.keys, id ∈ S ∪ q.accountStates.keys.toFinset :=
    fun id hid => mem_union_right _ (List.mem_toFinset.mpr hid)
  have hsum : q.sumOver f = ∑ id ∈ S ∪ q.accountStates.keys.toFinset, f (q.laneOf id) := by
    rw [sumOver, Table.total_eq_sum q.accountStates _ hkeys]
    refine sum_congr rfl fun id _ => ?_
    cases h : q.accountStates.lookup id with
    | none => rw [Table.at?_of_lookup_none h, laneOf_of_none h, hf]
    | some state => rw [Table.at?_of_lookup h, laneOf_of_lookup h]
  rw [hsum]
  refine (sum_subset subset_union_left fun id _ hid => ?_).symm
  rw [hS id hid, hf]

theorem laneOf_of_notMem (h : id ∉ q.accountStates.keys.toFinset) : q.laneOf id = ([], 0) :=
  laneOf_of_none (AList.lookup_eq_none.mpr fun hid => h (List.mem_toFinset.mpr (AList.mem_keys.mp hid)))

theorem exists_support (q q' : TransactionQueue) (k : AccountID) :
    ∃ S : Finset AccountID, k ∈ S ∧ (∀ id ∉ S, q.laneOf id = ([], 0)) ∧ ∀ id ∉ S, q'.laneOf id = ([], 0) := by
  refine ⟨insert k (q.accountStates.keys.toFinset ∪ q'.accountStates.keys.toFinset), mem_insert_self _ _,
    fun id hid => laneOf_of_notMem fun hmem => hid ?_, fun id hid => laneOf_of_notMem fun hmem => hid ?_⟩
  · exact mem_insert_of_mem (mem_union_left _ hmem)
  · exact mem_insert_of_mem (mem_union_right _ hmem)

theorem sumOver_update {q q' : TransactionQueue} {k : AccountID} {lane : Lane}
    (h : laneOf q' = update (laneOf q) k lane) {f : Lane → Int} (hf : f ([], 0) = 0) :
    q'.sumOver f = q.sumOver f - f (q.laneOf k) + f lane := by
  obtain ⟨S, hk, hS, hS'⟩ := exists_support q q' k
  rw [sumOver_eq_sum q hf hS, sumOver_eq_sum q' hf hS', ← add_sum_erase S _ hk, ← add_sum_erase S _ hk]
  have hrest : ∑ id ∈ S.erase k, f (q'.laneOf id) = ∑ id ∈ S.erase k, f (q.laneOf id) :=
    sum_congr rfl fun id hid => by rw [h, update_of_ne (ne_of_mem_erase hid)]
  rw [hrest, h, update_self]
  ring

theorem le_sumOver {f : Lane → Int} (hf : f ([], 0) = 0) (h : ∀ id, 0 ≤ f (q.laneOf id)) (id : AccountID) :
    f (q.laneOf id) ≤ q.sumOver f := by
  obtain ⟨S, hid, hS, -⟩ := exists_support q q id
  rw [sumOver_eq_sum q hf hS]
  exact single_le_sum (fun id _ => h id) hid

theorem opsOf_update (lanes : AccountID → Lane) (k : AccountID) (lane : Lane) :
    (fun id => opsOf (update lanes k lane id).1) =
      update (fun id => opsOf (lanes id).1) k (opsOf lane.1) :=
  funext fun id => apply_update (fun _ lane => opsOf lane.1) lanes k lane id

theorem update_sub_bid (fees : AccountID → Int) (tx : TransactionFrameBase) :
    update fees tx.getFeeSourceID (fees tx.getFeeSourceID - tx.getFeeBid) = fun id => fees id - bidsFor id [tx] := by
  funext id
  by_cases hid : id = tx.getFeeSourceID
  · simp [hid]
  · simp [hid, Ne.symm hid]

def Idle (lanes : AccountID → Lane) : Prop := ∀ id, (lanes id).1 = [] → (lanes id).2 = 0

theorem Idle.update {lanes : AccountID → Lane} (h : Idle lanes) {k : AccountID} {lane : Lane}
    (hlane : lane.1 = [] → lane.2 = 0) : Idle (update lanes k lane) :=
  (forall_update_iff lanes fun _ lane => lane.1 = [] → lane.2 = 0).mpr ⟨hlane, fun id _ => h id⟩

/-! ### Bans -/

/-- The hashes of transactions are added to those banned now. -/
def banAll (network : Network) (txs : List TransactionFrameBase) (banned : List (List Hash)) : List (List Hash) :=
  txs.foldl (fun banned tx => banned.modifyHead (tx.getFullHash network :: ·)) banned

theorem foldl_banHash (network : Network) (txs : List TransactionFrameBase) (q : TransactionQueue) :
    txs.foldl (fun q tx => q.banHash (tx.getFullHash network)) q =
      { q with bannedTransactions := banAll network txs q.bannedTransactions } := by
  induction txs generalizing q with
  | nil => rfl
  | cons tx rest ih => exact ih _

theorem any_banAll {network : Network} {txs : List TransactionFrameBase} {banned : List (List Hash)} {hash : Hash}
    (h : (banAll network txs banned).any (·.contains hash) = true) :
    banned.any (·.contains hash) = true ∨ ∃ tx ∈ txs, tx.getFullHash network = hash := by
  induction txs generalizing banned with
  | nil => exact .inl h
  | cons tx rest ih =>
    rcases ih h with h | ⟨tx', htx', hhash⟩
    · cases banned with
      | nil => exact .inl h
      | cons now before =>
        simp only [List.modifyHead_cons, List.any_cons, List.contains_cons, Bool.or_eq_true, beq_iff_eq] at h ⊢
        rcases h with (rfl | h) | h
        · exact .inr ⟨tx, .head _, rfl⟩
        · exact .inl (.inl h)
        · exact .inl (.inr h)
    · exact .inr ⟨tx', .tail _ htx', hhash⟩

/-! ### The states that lanes and sums stand for -/

/-- There is a state if there are transactions or fees. -/
def stateAt (lane : Lane) (fees ops : Int) : Option AccountState :=
  if lane.1 = [] ∧ fees = 0 then none else some ⟨fees, ops, lane.2, lane.1⟩

/-- The table has the states of these lanes, with these fees and operations. -/
def Shows (states : Table AccountID AccountState) (lanes : AccountID → Lane) (fees ops : AccountID → Int) : Prop :=
  ∀ id, states.lookup id = stateAt (lanes id) (fees id) (ops id)

theorem stateAt_of_lane {lane : Lane} (h : lane.1 ≠ []) (fees ops : Int) :
    stateAt lane fees ops = some ⟨fees, ops, lane.2, lane.1⟩ := if_neg fun hnone => h hnone.1

theorem stateAt_of_fees {fees : Int} (h : fees ≠ 0) (lane : Lane) (ops : Int) :
    stateAt lane fees ops = some ⟨fees, ops, lane.2, lane.1⟩ := if_neg fun hnone => h hnone.2

namespace Shows
variable {states : Table AccountID AccountState} {lanes : AccountID → Lane} {fees ops : AccountID → Int}

theorem congr (h : Shows states lanes fees ops) {lanes' : AccountID → Lane} {fees' ops' : AccountID → Int}
    (hlanes : lanes = lanes') (hfees : fees = fees') (hops : ops = ops') : Shows states lanes' fees' ops' :=
  hlanes ▸ hfees ▸ hops ▸ h

variable {q : TransactionQueue}

theorem laneOf (h : Shows q.accountStates lanes fees ops) (hidle : Idle lanes) :
    q.laneOf = lanes := by
  funext id
  unfold TransactionQueue.laneOf
  rw [h id, stateAt]
  split
  next hnone => exact (Prod.ext hnone.1 (hidle id hnone.1) : lanes id = ([], 0)).symm
  next => rfl

theorem insert (h : Shows states lanes fees ops) (id : AccountID) (state : AccountState)
    (hstate : ¬(state.transactions = [] ∧ state.totalFees = 0)) :
    Shows (states.insert id state) (update lanes id (state.transactions, state.age))
      (update fees id state.totalFees) (update ops id state.queueSizeOps) := by
  intro id'
  by_cases hid : id' = id
  · subst hid
    rw [AList.lookup_insert, update_self, update_self, update_self]
    exact (if_neg hstate).symm
  · rw [AList.lookup_insert_ne hid, update_of_ne hid, update_of_ne hid, update_of_ne hid, h id']

theorem erase (h : Shows states lanes fees ops) (id : AccountID) :
    Shows (states.erase id) (update lanes id ([], 0)) (update fees id 0) ops := by
  intro id'
  by_cases hid : id' = id
  · subst hid
    rw [AList.lookup_erase, update_self, update_self]
    exact (if_pos ⟨rfl, rfl⟩).symm
  · rw [AList.lookup_erase_ne hid, update_of_ne hid, update_of_ne hid, h id']

/-- **A fee that is owed can be released.** -/
theorem release (h : Shows q.accountStates lanes fees ops) (hidle : Idle lanes) {tx : TransactionFrameBase}
    (hbid : 0 < tx.getFeeBid) (howed : tx.getFeeBid ≤ fees tx.getFeeSourceID) :
    ∃ states, q.releaseFeeMaybeEraseAccountState tx = .ok { q with accountStates := states } ∧
      Shows states lanes (fun id => fees id - bidsFor id [tx]) ops := by
  have hlookup := h tx.getFeeSourceID
  rw [stateAt_of_fees (by omega)] at hlookup
  unfold releaseFeeMaybeEraseAccountState
  rw [hlookup]
  dsimp only
  rw [if_neg (not_lt.mpr howed), ← update_sub_bid]
  refine ⟨_, rfl, ?_⟩
  set id := tx.getFeeSourceID
  by_cases hgone : (lanes id).1 = [] ∧ fees id - tx.getFeeBid = 0
  · rw [if_pos (by simpa using hgone)]
    have hlane : lanes id = ([], 0) := Prod.ext hgone.1 (hidle id hgone.1)
    exact (h.erase id).congr (hlane ▸ update_eq_self id lanes) (by rw [hgone.2]) rfl
  · rw [if_neg (by simpa using hgone)]
    exact (h.insert id ⟨fees id - tx.getFeeBid, ops id, (lanes id).2, (lanes id).1⟩ hgone).congr
      (update_eq_self id lanes) rfl (update_eq_self id ops)

variable {id : AccountID}

theorem getD (h : Shows states lanes fees ops) (hnew : (lanes id).1 = [] → (lanes id).2 = 0 ∧ ops id = 0) :
    (states.lookup id).getD {} = ⟨fees id, ops id, (lanes id).2, (lanes id).1⟩ := by
  rw [h id, stateAt]
  split
  next hnone =>
    obtain ⟨hage, hops⟩ := hnew hnone.1
    rw [hnone.1, hnone.2, hage, hops]
    rfl
  next => rfl

theorem modifyState {q : TransactionQueue} (h : Shows q.accountStates lanes fees ops) {id : AccountID}
    (hnew : (lanes id).1 = [] → (lanes id).2 = 0 ∧ ops id = 0) (f : AccountState → AccountState) {state : AccountState}
    (hf : f ⟨fees id, ops id, (lanes id).2, (lanes id).1⟩ = state) (hstate : ¬(state.transactions = [] ∧ state.totalFees = 0)) :
    ∃ states, q.modifyState id f = { q with accountStates := states } ∧
      Shows states (update lanes id (state.transactions, state.age))
        (update fees id state.totalFees) (update ops id state.queueSizeOps) := by
  refine ⟨_, ?_, h.insert id state hstate⟩
  unfold TransactionQueue.modifyState
  rw [h.getD hnew, hf]

theorem discountOps {q : TransactionQueue} (h : Shows q.accountStates lanes fees ops) {id : AccountID}
    (hlane : (lanes id).1 ≠ []) (tx : TransactionFrameBase) :
    ∃ states, q.discountOps id tx =
        { q with accountStates := states, queueSizeOps := q.queueSizeOps - tx.getNumOperations } ∧
      Shows states lanes fees (update ops id (ops id - tx.getNumOperations)) := by
  obtain ⟨states, heq, hshows⟩ := h.modifyState (fun hnil => absurd hnil hlane)
    (fun state => { state with queueSizeOps := state.queueSizeOps - tx.getNumOperations }) rfl fun hnone => hlane hnone.1
  refine ⟨_, ?_, hshows.congr (update_eq_self id lanes) (update_eq_self id fees) rfl⟩
  unfold TransactionQueue.discountOps
  rw [heq]

theorem foldlM_discount_release {dropped : List TransactionFrameBase} (h : Shows q.accountStates lanes fees ops)
    (hidle : Idle lanes) (hlane : (lanes id).1 ≠ [])
    (hbids : ∀ tx ∈ dropped, 0 < tx.getFeeBid) (howed : ∀ id', bidsFor id' dropped ≤ fees id') :
    ∃ states, dropped.foldlM (fun q tx => (q.discountOps id tx).releaseFeeMaybeEraseAccountState tx) q =
        .ok { q with accountStates := states, queueSizeOps := q.queueSizeOps - opsOf dropped } ∧
      Shows states lanes (fun id' => fees id' - bidsFor id' dropped) (update ops id (ops id - opsOf dropped)) := by
  induction dropped generalizing q fees ops with
  | nil => exact ⟨q.accountStates, by simp [pure, Except.pure], h.congr rfl (by simp) (by simp)⟩
  | cons tx rest ih =>
    have htx := (bid_le_bidsFor (.head _) hbids).trans (howed tx.getFeeSourceID)
    obtain ⟨hbid, hbids⟩ := List.forall_mem_cons.mp hbids
    obtain ⟨states₁, hq, hshows₁⟩ := h.discountOps hlane tx
    obtain ⟨states₂, hrun, hshows₂⟩ := @release _ _ _
      { q with accountStates := states₁, queueSizeOps := q.queueSizeOps - tx.getNumOperations } hshows₁ hidle tx hbid htx
    obtain ⟨states₃, hrun', hshows₃⟩ := ih (q := { q with
      accountStates := states₂, queueSizeOps := q.queueSizeOps - tx.getNumOperations }) hshows₂ hbids fun id' => by
        have := howed id'
        simp at this ⊢
        omega
    refine ⟨states₃, ?_, hshows₃.congr rfl (funext fun id' => ?_) ?_⟩
    · rw [List.foldlM_cons, hq, hrun, ok_bind, hrun', opsOf_cons, Int.sub_sub]
    · simp [sub_sub]
    · simp [sub_sub]

theorem foldlM_release_ban (network : Network) {txs : List TransactionFrameBase} (h : Shows q.accountStates lanes fees ops)
    (hidle : Idle lanes) (hbids : ∀ tx ∈ txs, 0 < tx.getFeeBid) (howed : ∀ id, bidsFor id txs ≤ fees id) :
    ∃ states, txs.foldlM (fun q toBan => do
          let q ← q.releaseFeeMaybeEraseAccountState toBan
          return q.banHash (toBan.getFullHash network)) q =
        .ok { q with accountStates := states, bannedTransactions := banAll network txs q.bannedTransactions } ∧
      Shows states lanes (fun id => fees id - bidsFor id txs) ops := by
  induction txs generalizing q fees with
  | nil => exact ⟨q.accountStates, rfl, h.congr rfl (by simp) rfl⟩
  | cons tx rest ih =>
    have htx := (bid_le_bidsFor (.head _) hbids).trans (howed tx.getFeeSourceID)
    obtain ⟨hbid, hbids⟩ := List.forall_mem_cons.mp hbids
    obtain ⟨states, hrun, hshows⟩ := h.release hidle hbid htx
    obtain ⟨states', hrun', hshows'⟩ := @ih _ { q with
      accountStates := states
      bannedTransactions := q.bannedTransactions.modifyHead (tx.getFullHash network :: ·) } hshows hbids fun id => by
        have := howed id
        simp at this ⊢
        omega
    refine ⟨states', ?_, hshows'.congr rfl (funext fun id => ?_) rfl⟩
    · rw [List.foldlM_cons, hrun]
      exact hrun'
    · simp [sub_sub]

theorem eraseTransactions {q : TransactionQueue} (h : Shows q.accountStates lanes fees ops) {id : AccountID}
    (hlane : (lanes id).1 ≠ []) (first last : Nat) {txs : List TransactionFrameBase}
    (htxs : (lanes id).1.take first ++ (lanes id).1.drop last = txs) :
    ∃ states, q.eraseTransactions id first last = .ok { q with accountStates := states } ∧
      Shows states (update lanes id (txs, if txs = [] then 0 else (lanes id).2)) fees ops := by
  have hlookup := h id
  rw [stateAt_of_lane hlane] at hlookup
  unfold TransactionQueue.eraseTransactions
  rw [hlookup]
  dsimp only
  rw [htxs]
  by_cases hnil : txs = []
  · rw [if_pos hnil, if_pos (List.isEmpty_iff.mpr hnil), hnil]
    by_cases hfees : fees id = 0
    · rw [if_pos hfees]
      exact ⟨_, rfl, (h.erase id).congr rfl (hfees ▸ update_eq_self id fees) rfl⟩
    · rw [if_neg hfees]
      exact ⟨_, rfl, (h.insert id ⟨fees id, ops id, 0, []⟩ fun hnone => hfees hnone.2).congr rfl
        (update_eq_self id fees) (update_eq_self id ops)⟩
  · rw [if_neg hnil, if_neg (mt List.isEmpty_iff.mp hnil)]
    exact ⟨_, rfl, (h.insert id ⟨fees id, ops id, (lanes id).2, txs⟩ fun hnone => hnil hnone.1).congr rfl
      (update_eq_self id fees) (update_eq_self id ops)⟩

end Shows

/-! ### Books that are right -/

/-- The states are those of the lanes of the queue, and the operations are counted. -/
structure Books (q : TransactionQueue) : Prop where
  states : Shows q.accountStates q.laneOf q.feesOf fun id => opsOf (q.laneOf id).1
  idle : ∀ id, (q.laneOf id).1 = [] → (q.laneOf id).2 = 0
  size : q.queueSizeOps = q.sumOver fun lane => opsOf lane.1
  bids : ∀ id, ∀ tx ∈ (q.laneOf id).1, 0 < tx.getFeeBid

namespace Books
variable {q : TransactionQueue}

theorem bidsFor_le (h : Books q) (id : AccountID) {k : AccountID} {txs : List TransactionFrameBase}
    (hsub : txs.Sublist (q.laneOf k).1) : bidsFor id txs ≤ q.feesOf id :=
  (bidsFor_le_of_sublist id hsub (h.bids k)).trans
    (le_sumOver (f := fun lane => bidsFor id lane.1) rfl (fun k => bidsFor_nonneg id (h.bids k)) k)

theorem new (h : Books q) (id : AccountID) (hnil : (q.laneOf id).1 = []) :
    (q.laneOf id).2 = 0 ∧ opsOf (q.laneOf id).1 = 0 := ⟨h.idle id hnil, by rw [hnil, opsOf_nil]⟩

/-- **States that are right for lanes that differ in one account make right books.** -/
theorem of_shows (h : Books q) {q' : TransactionQueue} {k : AccountID} {lane : Lane}
    (hshows : Shows q'.accountStates (update q.laneOf k lane)
      (fun id => q.feesOf id - bidsFor id (q.laneOf k).1 + bidsFor id lane.1)
      (fun id => opsOf (update q.laneOf k lane id).1))
    (hidle : lane.1 = [] → lane.2 = 0)
    (hsize : q'.queueSizeOps = q.queueSizeOps - opsOf (q.laneOf k).1 + opsOf lane.1)
    (hbids : ∀ tx ∈ lane.1, 0 < tx.getFeeBid) :
    Books q' ∧ q'.laneOf = update q.laneOf k lane := by
  have hidle' : Idle (update q.laneOf k lane) := Idle.update h.idle hidle
  have hlane := hshows.laneOf hidle'
  refine ⟨⟨hshows.congr hlane.symm (funext fun id => ?_) (by rw [hlane]), hlane ▸ hidle', ?_, ?_⟩, hlane⟩
  · exact (sumOver_update hlane (f := fun lane => bidsFor id lane.1) rfl).symm
  · rw [hsize, h.size]
    exact (sumOver_update hlane (f := fun lane => opsOf lane.1) rfl).symm
  · rw [hlane]
    exact (forall_update_iff q.laneOf fun _ lane => ∀ tx ∈ lane.1, 0 < tx.getFeeBid).mpr
      ⟨hbids, fun id _ => h.bids id⟩

/-- What other functions see of the queue stays as it is. -/
def SameRest (q q' : TransactionQueue) : Prop :=
  q'.bannedTransactions = q.bannedTransactions ∧ q'.sizeByAge = q.sizeByAge

/-- **Transactions are dropped.** -/
theorem dropTransactions (h : Books q) {id : AccountID} {before dropped after : List TransactionFrameBase} {age : Nat}
    (hlane : q.laneOf id = (before ++ (dropped ++ after), age)) (hne : before ++ (dropped ++ after) ≠ []) :
    ∃ q', q.dropTransactions id before.length (before.length + dropped.length) = .ok q' ∧ Books q' ∧
      q'.laneOf = update q.laneOf id (before ++ after, if before ++ after = [] then 0 else age) ∧
      SameRest q q' := by
  have hne' : (q.laneOf id).1 ≠ [] := by rwa [hlane]
  have hsub : dropped.Sublist (q.laneOf id).1 := by simp [hlane]
  have hleft : (before ++ after).Sublist (q.laneOf id).1 := by simp [hlane]
  obtain ⟨states, hrun, hshows⟩ := h.states.foldlM_discount_release h.idle hne'
    (fun tx htx => h.bids id tx (hsub.subset htx)) fun id' => h.bidsFor_le id' hsub
  obtain ⟨states', hrun', hshows'⟩ := @Shows.eraseTransactions q.laneOf _ _
    { q with accountStates := states, queueSizeOps := q.queueSizeOps - opsOf dropped } hshows id hne' before.length
    (before.length + dropped.length) (before ++ after) (by rw [hlane, ← List.append_assoc]; simp)
  have hslice : ((q.laneOf id).1.take (before.length + dropped.length)).drop before.length = dropped := by
    rw [hlane, ← List.append_assoc, ← List.length_append, List.take_left, List.drop_left]
  have hlookup := h.states id
  rw [stateAt_of_lane hne'] at hlookup
  refine ⟨{ q with accountStates := states', queueSizeOps := q.queueSizeOps - opsOf dropped }, ?_, ?_⟩
  · unfold TransactionQueue.dropTransactions
    rw [hlookup]
    dsimp only
    rw [hslice, hrun]
    exact hrun'
  · rw [hlane] at hshows'
    have hbooks := @of_shows q h { q with accountStates := states', queueSizeOps := q.queueSizeOps - opsOf dropped } id
      (before ++ after, if before ++ after = [] then 0 else age)
      (hshows'.congr rfl (funext fun id' => ?_) ?_) (fun hnil => if_pos hnil) ?_
      fun tx htx => h.bids id tx (hleft.subset htx)
    · exact ⟨hbooks.1, hbooks.2, rfl, rfl⟩
    · simp only [hlane, bidsFor_append]
      ring
    · simp only [opsOf_update, opsOf_append]
      congr 1
      ring
    · simp only [hlane, opsOf_append]
      ring

theorem setAge (h : Books q) {id : AccountID} (hne : (q.laneOf id).1 ≠ []) (age : Nat) :
    Books (q.modifyState id fun state => { state with age }) ∧
      (q.modifyState id fun state => { state with age }).laneOf = update q.laneOf id ((q.laneOf id).1, age) ∧
      SameRest q (q.modifyState id fun state => { state with age }) := by
  obtain ⟨states, heq, hshows⟩ := h.states.modifyState (fun hnil => absurd hnil hne) (fun state => { state with age }) rfl
    fun hnone => hne hnone.1
  rw [heq]
  have hbooks := @of_shows q h { q with accountStates := states } id ((q.laneOf id).1, age)
    (hshows.congr rfl (by simp) (opsOf_update q.laneOf id (_, age)).symm) (fun hnil => absurd hnil hne) (sub_add_cancel _ _).symm (h.bids id)
  exact ⟨hbooks.1, hbooks.2, rfl, rfl⟩

/-- The counters and the fee of a transaction that has been placed in the lane of its source. -/
theorem charge (h : Books q) {states : Table AccountID AccountState} {tx : TransactionFrameBase} {lane : Lane}
    {fees ops : AccountID → Int} (hbid : 0 < tx.getFeeBid) (hmem : tx ∈ lane.1) {size : Int} {sizeByAge : Nat → Int}
    (hshows : Shows states (update q.laneOf tx.getSourceID lane) fees ops)
    (hfees : ∀ id, fees id + bidsFor id [tx] =
      q.feesOf id - bidsFor id (q.laneOf tx.getSourceID).1 + bidsFor id lane.1)
    (hops : ops = update (fun id => opsOf (q.laneOf id).1) tx.getSourceID (opsOf lane.1 - tx.getNumOperations))
    (hsize : size + tx.getNumOperations = q.queueSizeOps - opsOf (q.laneOf tx.getSourceID).1 + opsOf lane.1)
    (hbids : ∀ tx ∈ lane.1, 0 < tx.getFeeBid) :
    let q₁ : TransactionQueue := ⟨states, q.bannedTransactions, q.ledgerVersion, size, sizeByAge⟩
    let q₂ := q₁.modifyState tx.getSourceID fun state =>
      { state with queueSizeOps := state.queueSizeOps + tx.getNumOperations }
    let q₃ := { q₂ with queueSizeOps := q₂.queueSizeOps + tx.getNumOperations }
    let q' := q₃.modifyState tx.getFeeSourceID fun state => { state with totalFees := state.totalFees + tx.getFeeBid }
    Books q' ∧ q'.laneOf = update q.laneOf tx.getSourceID lane ∧
      q'.bannedTransactions = q.bannedTransactions ∧ q'.sizeByAge = sizeByAge := by
  intro q₁ q₂ q₃ q'
  have hne : lane.1 ≠ [] := List.ne_nil_of_mem hmem
  have hlane : (update q.laneOf tx.getSourceID lane tx.getSourceID).1 ≠ [] := by rwa [update_self]
  obtain ⟨states₂, heq, hshows₂⟩ := @Shows.modifyState _ fees ops q₁ hshows _ (fun hnil => absurd hnil hlane)
    (fun state => { state with queueSizeOps := state.queueSizeOps + tx.getNumOperations }) _ rfl
    fun hnone => hlane hnone.1
  have hshows₃ : Shows q₃.accountStates (update q.laneOf tx.getSourceID lane) fees
      (fun id => opsOf (update q.laneOf tx.getSourceID lane id).1) := by
    have hstates : q₃.accountStates = q₂.accountStates := rfl
    rw [hstates, show q₂ = _ from heq]
    exact hshows₂.congr (update_eq_self ..) (update_eq_self ..) (by simp [hops, opsOf_update])
  have hnonneg : 0 ≤ fees tx.getFeeSourceID := by
    have hsum := hfees tx.getFeeSourceID
    have hle := h.bidsFor_le tx.getFeeSourceID (.refl (q.laneOf tx.getSourceID).1)
    have hmine := bid_le_bidsFor hmem hbids
    simp only [bidsFor_cons, bidsFor_nil, if_true] at hsum
    omega
  have hidle : ∀ id, (update q.laneOf tx.getSourceID lane id).1 = [] →
      (update q.laneOf tx.getSourceID lane id).2 = 0 ∧
        opsOf (update q.laneOf tx.getSourceID lane id).1 = 0 := fun id hnil =>
    ⟨Idle.update h.idle (fun hnil => absurd hnil hne) id hnil, by rw [hnil, opsOf_nil]⟩
  obtain ⟨states', heq', hshows'⟩ := hshows₃.modifyState (hidle tx.getFeeSourceID)
    (fun state => { state with totalFees := state.totalFees + tx.getFeeBid }) rfl
    fun hnone => absurd hnone.2 (by dsimp only; omega)
  have hbooks := @of_shows q h q' tx.getSourceID lane ?_ (fun hnil => absurd hnil hne) ?_ hbids
  · exact ⟨hbooks.1, hbooks.2, rfl, rfl⟩
  · rw [show q' = _ from heq']
    refine hshows'.congr (update_eq_self ..) (funext fun id => ?_) (update_eq_self ..)
    rw [← hfees, bidsFor_cons, bidsFor_nil, add_zero]
    by_cases hid : id = tx.getFeeSourceID
    · rw [hid, update_self, if_pos rfl]
    · rw [update_of_ne hid, if_neg (Ne.symm hid), add_zero]
  · exact hsize

theorem getD (h : Books q) (id : AccountID) :
    (q.accountStates.lookup id).getD {} = ⟨q.feesOf id, opsOf (q.laneOf id).1, (q.laneOf id).2, (q.laneOf id).1⟩ :=
  h.states.getD (h.new id)

/-- **A transaction goes after the last of its source.** -/
theorem append (h : Books q) {config : QueueConfig} {tx : TransactionFrameBase} (hbid : 0 < tx.getFeeBid)
    (hage : (q.laneOf tx.getSourceID).2 < config.pendingDepth) :
    ∃ q', q.add config tx none = .ok q' ∧ Books q' ∧
      q'.laneOf = update q.laneOf tx.getSourceID
        ((q.laneOf tx.getSourceID).1 ++ [tx], (q.laneOf tx.getSourceID).2) ∧
      q'.bannedTransactions = q.bannedTransactions ∧
      q'.sizeByAge = update q.sizeByAge (q.laneOf tx.getSourceID).2
        (q.sizeByAge (q.laneOf tx.getSourceID).2 + 1) := by
  set id := tx.getSourceID with hid
  set lane : Lane := ((q.laneOf id).1 ++ [tx], (q.laneOf id).2) with hlane
  obtain ⟨states, heq, hshows⟩ := h.states.modifyState (h.new id)
    (fun state => { state with transactions := state.transactions ++ [tx] }) rfl
    fun hnone => List.append_ne_nil_of_right_ne_nil _ (List.cons_ne_nil tx []) hnone.1
  have hplace : q.place config tx none = .ok { q with
      accountStates := states
      sizeByAge := update q.sizeByAge (q.laneOf id).2 (q.sizeByAge (q.laneOf id).2 + 1) } := by
    unfold place
    dsimp only [Option.bind_none]
    rw [heq, h.getD]
    unfold incSize
    rw [if_pos hage]
    rfl
  have hcharge := @charge q h _ tx lane _ _ hbid (by simp [hlane]) q.queueSizeOps
    (update q.sizeByAge (q.laneOf id).2 (q.sizeByAge (q.laneOf id).2 + 1)) hshows ?_ ?_ ?_ ?_
  · refine ⟨_, ?_, hcharge⟩
    unfold add
    rw [hplace]
    rfl
  · intro id'
    rw [hlane, bidsFor_append, update_eq_self]
    ring
  · simp [lane, ← hid]
  · simp only [lane, ← hid, opsOf_append, opsOf_cons, opsOf_nil]
    ring
  · exact List.forall_mem_append.mpr ⟨h.bids id, by simpa using hbid⟩

/-- **A transaction takes the place of another.** -/
theorem replace (h : Books q) {config : QueueConfig} {tx old : TransactionFrameBase} (hbid : 0 < tx.getFeeBid)
    {before after : List TransactionFrameBase} {age : Nat}
    (hlane : q.laneOf tx.getSourceID = (before ++ old :: after, age)) :
    ∃ q', q.add config tx (some before.length) = .ok q' ∧ Books q' ∧
      q'.laneOf = update q.laneOf tx.getSourceID (before ++ tx :: after, age) ∧ SameRest q q' := by
  set id := tx.getSourceID with hid
  have hne : (q.laneOf id).1 ≠ [] := by simp [hlane]
  have hold := h.bids id old (by simp [hlane])
  have howed := (bid_le_bidsFor (by simp [hlane]) (h.bids id)).trans (h.bidsFor_le old.getFeeSourceID (.refl (q.laneOf id).1))
  obtain ⟨states, hrelease, hshows⟩ := h.states.release h.idle hold howed
  obtain ⟨states', hdiscount, hshows'⟩ := @Shows.discountOps _ _ _ { q with accountStates := states } hshows id hne old
  have hne' : before ++ tx :: after ≠ [] := by simp
  have hset : (q.laneOf id).1.set before.length tx = before ++ tx :: after := by simp [hlane]
  obtain ⟨states'', heq, hshows''⟩ := @Shows.modifyState _ _ _
    { q with accountStates := states', queueSizeOps := q.queueSizeOps - old.getNumOperations } hshows' id
    (fun hnil => absurd hnil hne)
    (fun state => { state with transactions := state.transactions.set before.length tx }) _ rfl
    fun hnone => hne' (hset.symm.trans hnone.1)
  have hplace : q.place config tx (some before.length) = .ok { q with
      accountStates := states'', queueSizeOps := q.queueSizeOps - old.getNumOperations } := by
    unfold place
    dsimp only
    rw [h.getD, Option.bind_some, show (q.laneOf id).1[before.length]? = some old by simp [hlane]]
    dsimp only [Option.map_some]
    rw [hrelease, ok_bind, hdiscount, heq]
    rfl
  rw [hset, hlane] at hshows''
  have hcharge := @charge q h _ tx (before ++ tx :: after, age) _ _ hbid (by simp)
    (q.queueSizeOps - old.getNumOperations) q.sizeByAge hshows'' ?_ ?_ ?_ ?_
  · refine ⟨_, ?_, hcharge.1, hcharge.2.1, hcharge.2.2.1, hcharge.2.2.2⟩
    unfold add
    rw [hplace]
    rfl
  · intro id'
    simp only [update_eq_self, ← hid, hlane, bidsFor_append, bidsFor_cons, bidsFor_nil]
    ring
  · simp only [update_idem, update_self, opsOf_append, opsOf_cons]
    congr 1
    ring
  · simp only [← hid, hlane, opsOf_append, opsOf_cons]
    ring
  · have hbids := h.bids id
    rw [hlane] at hbids
    simp only [List.forall_mem_append, List.forall_mem_cons] at hbids ⊢
    exact ⟨hbids.1, hbid, hbids.2.2⟩

theorem congr (h : Books q) {q' : TransactionQueue} (hstates : q'.accountStates = q.accountStates)
    (hsize : q'.queueSizeOps = q.queueSizeOps) : Books q' := by
  have hlane : q'.laneOf = q.laneOf := by
    funext id
    rw [laneOf, laneOf, hstates]
  have hsum : q'.sumOver = q.sumOver := by
    funext f
    rw [sumOver, sumOver, hstates]
  have hfees : q'.feesOf = q.feesOf := by
    funext id
    rw [feesOf, feesOf, hsum]
  refine ⟨?_, ?_, ?_, ?_⟩
  · rw [hstates, hlane, hfees]
    exact h.states
  · rw [hlane]
    exact h.idle
  · rw [hsize, hsum]
    exact h.size
  · rw [hlane]
    exact h.bids

theorem lookup (h : Books q) {id : AccountID} (hne : (q.laneOf id).1 ≠ []) :
    q.accountStates.lookup id = some ⟨q.feesOf id, opsOf (q.laneOf id).1, (q.laneOf id).2, (q.laneOf id).1⟩ :=
  (h.states id).trans (stateAt_of_lane hne _ _)

/-! ### Growing older -/

section Shift
variable {network : Network} {config : QueueConfig} {id : AccountID}

theorem shiftAccount_idle (h : Books q) (hlane : (q.laneOf id).1 = []) (sizes : Nat → Int) :
    ∃ q', shiftAccount network config (q, sizes) id = .ok (q', sizes) ∧ Books q' ∧ q'.laneOf = q.laneOf ∧
      SameRest q q' := by
  unfold shiftAccount
  cases hlookup : q.accountStates.lookup id with
  | none => exact ⟨q, rfl, h, rfl, rfl, rfl⟩
  | some state =>
    have hstate : (state.transactions, state.age) = ([], 0) :=
      (laneOf_of_lookup hlookup).symm.trans (Prod.ext hlane (h.idle id hlane))
    obtain ⟨htxs, hage⟩ := Prod.mk.inj hstate
    have hfees : q.feesOf id ≠ 0 := by
      intro hzero
      rw [h.states id, stateAt, if_pos ⟨hlane, hzero⟩] at hlookup
      cases hlookup
    obtain ⟨states, heq, hshows⟩ := h.states.modifyState
      (h.new id) (fun state => { state with age := 0 }) rfl
      fun hnone => hfees hnone.2
    have hsame : ((q.laneOf id).1, 0) = q.laneOf id := Prod.ext rfl (h.idle id hlane).symm
    have hbooks := @of_shows q h { q with accountStates := states } id (q.laneOf id) (hshows.congr (by rw [← hsame])
      (by simp) (by simp)) (h.idle id) (sub_add_cancel _ _).symm (h.bids id)
    refine ⟨{ q with accountStates := states }, ?_, hbooks.1, hbooks.2.trans (update_eq_self id _), rfl, rfl⟩
    dsimp only
    rw [htxs, hage]
    simp only [List.isEmpty_nil, if_true]
    rw [if_neg config.pendingDepth_pos.ne', if_pos config.pendingDepth_pos, heq]
    simp only [List.length_nil, Nat.cast_zero, add_zero, update_eq_self]
    rfl

theorem shiftAccount_older (h : Books q) (hne : (q.laneOf id).1 ≠ []) (hage : (q.laneOf id).2 + 1 < config.pendingDepth)
    (sizes : Nat → Int) :
    ∃ q', shiftAccount network config (q, sizes) id =
        .ok (q', update sizes ((q.laneOf id).2 + 1) (sizes ((q.laneOf id).2 + 1) + (q.laneOf id).1.length)) ∧
      Books q' ∧ q'.laneOf = update q.laneOf id ((q.laneOf id).1, (q.laneOf id).2 + 1) ∧ SameRest q q' := by
  refine ⟨_, ?_, h.setAge hne ((q.laneOf id).2 + 1)⟩
  unfold shiftAccount
  rw [h.lookup hne]
  dsimp only
  rw [if_neg (mt List.isEmpty_iff.mp hne), if_neg hage.ne', if_pos hage]
  rfl

theorem shiftAccount_banned (h : Books q) (hne : (q.laneOf id).1 ≠ []) (hage : config.pendingDepth = (q.laneOf id).2 + 1)
    (sizes : Nat → Int) :
    ∃ q', shiftAccount network config (q, sizes) id = .ok (q', sizes) ∧ Books q' ∧
      q'.laneOf = update q.laneOf id ([], 0) ∧
      q'.bannedTransactions = banAll network (q.laneOf id).1 q.bannedTransactions := by
  set txs := (q.laneOf id).1 with htxs
  set older := update q.laneOf id (txs, (q.laneOf id).2 + 1) with holder
  have hself : older id = (txs, (q.laneOf id).2 + 1) := update_self ..
  obtain ⟨states₁, heq, hshows₁⟩ := h.states.modifyState (fun hnil => absurd hnil hne)
    (fun state => { state with age := (q.laneOf id).2 + 1 }) rfl fun hnone => hne hnone.1
  have hshows₁ : Shows states₁ older q.feesOf fun id => opsOf (q.laneOf id).1 :=
    hshows₁.congr rfl (update_eq_self ..) (update_eq_self ..)
  obtain ⟨states₂, hrun, hshows₂⟩ := @Shows.foldlM_release_ban _ _ _ { q with accountStates := states₁ } network _ hshows₁
    (Idle.update h.idle fun hnil => absurd hnil hne) (h.bids id) fun id' => h.bidsFor_le id' (.refl _)
  have hlookup := hshows₂ id
  rw [stateAt_of_lane (by rwa [hself]), hself] at hlookup
  -- the state keeps its fees if there are any, and is erased otherwise
  have hbooks : ∀ q' : TransactionQueue, q'.queueSizeOps = q.queueSizeOps - opsOf txs → ∀ ops,
      Shows q'.accountStates (update older id ([], 0)) (fun id' => q.feesOf id' - bidsFor id' txs) ops →
      (∀ id', id' ≠ id → ops id' = opsOf (q.laneOf id').1) → (q.feesOf id - bidsFor id txs ≠ 0 → ops id = 0) →
      Books q' ∧ q'.laneOf = update q.laneOf id ([], 0) := by
    intro q' hsize ops hshows hops hself
    refine @of_shows q h q' id ([], 0) ?_ (fun _ => rfl) ?_ fun tx htx => (List.not_mem_nil htx).elim
    · intro id'
      dsimp only
      rw [hshows id', holder, update_idem, bidsFor_nil, add_zero]
      by_cases hid : id' = id
      · rw [hid, update_self]
        unfold stateAt
        split
        next => rfl
        next hsome => rw [hself fun hzero => hsome ⟨rfl, hzero⟩, opsOf_nil]
      · rw [hops id' hid, update_of_ne hid]
    · rw [hsize, opsOf_nil, add_zero]
  unfold shiftAccount
  rw [h.lookup hne]
  dsimp only
  rw [if_neg (mt List.isEmpty_iff.mp hne), if_pos hage, heq, hrun, ok_bind]
  rw [hlookup]
  dsimp only
  by_cases hfees : q.feesOf id - bidsFor id txs = 0
  · rw [if_pos hfees]
    have hdone := hbooks { q with
      accountStates := states₂.erase id
      bannedTransactions := banAll network txs q.bannedTransactions
      queueSizeOps := q.queueSizeOps - opsOf txs } rfl _ ((hshows₂.erase id).congr rfl
        (hfees ▸ update_eq_self id _) rfl) (fun _ _ => rfl) fun hne => absurd hfees hne
    exact ⟨_, rfl, hdone.1, hdone.2, rfl⟩
  · rw [if_neg hfees]
    have hdone := hbooks { q with
      accountStates := states₂.insert id ⟨q.feesOf id - bidsFor id txs, 0, 0, []⟩
      bannedTransactions := banAll network txs q.bannedTransactions
      queueSizeOps := q.queueSizeOps - opsOf txs } rfl _ ((hshows₂.insert id ⟨q.feesOf id - bidsFor id txs, 0, 0, []⟩
        fun hnone => hfees hnone.2).congr rfl (update_eq_self ..) rfl)
        (fun id' hid => update_of_ne hid _ _) fun _ => update_self ..
    refine ⟨_, ?_, hdone.1, hdone.2, rfl⟩
    unfold TransactionQueue.modifyState
    rw [hlookup]
    rfl

end Shift

end Books

end TransactionQueue
end Diamnet.Herder
