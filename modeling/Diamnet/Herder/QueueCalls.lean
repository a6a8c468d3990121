import Diamnet.Herder.ProposedSet
import Diamnet.Herder.QueueRun

/-! Runs of the transaction queue.

A transaction that is added goes after the last of its source or in the place of one with its
sequence number (`Fits`), and the balance of its fee source bounds the fees (`fees_le_of_affordable`).
With what the other calls keep, every run of calls has right books (`run_bookkeeping`). -/
namespace Diamnet.Herder
open Ledger Transactions Function List
namespace TransactionQueue
variable {config : QueueConfig} {network : Network} {q : TransactionQueue}

/-! ### Adding -/

/-- How an admission fits the lane: after the last transaction, if the sequence number is right or
is going to be checked against it, or in the place of one with this sequence number. -/
def Fits (q : TransactionQueue) (tx : TransactionFrameBase) (admission : Admission) : Prop :=
  match admission.oldTx with
  | none =>
    admission.netFee = tx.getFeeBid ∧ ∀ last, (q.laneOf tx.getSourceID).1.getLast? = some last →
      tx.getSeqNum = last.getSeqNum + 1 ∨ admission.seqNum = last.getSeqNum
  | some iter =>
    ∃ before old after, (q.laneOf tx.getSourceID).1 = before ++ old :: after ∧ iter = before.length ∧
      tx.getSeqNum = old.getSeqNum ∧ admission.netFee = tx.getFeeBid - bidsFor tx.getFeeSourceID [old]

def StopsAtBid (tx : TransactionFrameBase) (refusal : Refusal) : Prop :=
  ∀ fault, refusal = .fault fault → fault = .assertion ∧ tx.getFeeBid < 0

theorem stopsAtBid_result (tx : TransactionFrameBase) (res : AddResult) : StopsAtBid tx (.result res) :=
  fun _ hf => (nomatch hf)

theorem SeqFrom.getLast? {n : Int} {txs : List TransactionFrameBase} (h : SeqFrom n txs) {last : TransactionFrameBase}
    (hlast : txs.getLast? = some last) : last.getSeqNum + 1 = n + txs.length := by
  have hpos : 0 < txs.length := length_pos_iff.mpr fun hnil => by simp [hnil] at hlast
  rw [List.getLast?_eq_getElem?] at hlast
  rw [h.getElem? hlast]
  omega

variable {tx : TransactionFrameBase}

theorem Sound.assessTx (h : Sound config q) (hne : (q.laneOf tx.getSourceID).1 ≠ []) :
    Meets (assessTx network (q.laneOf tx.getSourceID).1 tx { netFee := tx.getFeeBid, netOps := tx.getNumOperations })
      (Fits q tx) (StopsAtBid tx) := by
  have hok := h.lanes tx.getSourceID
  obtain ⟨n, hseq⟩ := hok.consecutive
  unfold TransactionQueue.assessTx
  rw [findBySeq_eq hseq hne fun tx htx => (hok.seqNum tx htx).2]
  generalize (if n ≤ tx.getSeqNum ∧ tx.getSeqNum ≤ n + ((q.laneOf tx.getSourceID).1.length : Nat) then
    some (tx.getSeqNum - n).toNat else none) = iter
  simp only [orFault, ok_bind]
  split
  · exact stopsAtBid_result _ _
  · refine ⟨rfl, fun last hlast => .inr ?_⟩
    rw [hlast]
    rfl

theorem canReplaceByFee_meets (tx oldTx : TransactionFrameBase) (hold : 0 < oldTx.getFeeBid) :
    Meets (orFault (canReplaceByFee tx oldTx)) (fun _ => True) (StopsAtBid tx) := by
  unfold canReplaceByFee
  extract_lets
  split
  next hneg =>
    intro fault hf
    cases hf
    exact ⟨rfl, hneg.resolve_right (by omega)⟩
  next => split <;> trivial

theorem Sound.assessFeeBump (h : Sound config q) (hne : (q.laneOf tx.getSourceID).1 ≠ []) :
    Meets (assessFeeBump network (q.laneOf tx.getSourceID).1 tx { netFee := tx.getFeeBid, netOps := tx.getNumOperations })
      (Fits q tx) (StopsAtBid tx) := by
  have hok := h.lanes tx.getSourceID
  obtain ⟨n, hseq⟩ := hok.consecutive
  unfold TransactionQueue.assessFeeBump
  rw [findBySeq_eq hseq hne fun tx htx => (hok.seqNum tx htx).2]
  simp only [orFault, ok_bind]
  by_cases hin : n ≤ tx.getSeqNum ∧ tx.getSeqNum ≤ n + (q.laneOf tx.getSourceID).1.length
  swap
  · rw [if_neg hin]
    exact stopsAtBid_result _ _
  rw [if_pos hin]
  dsimp only
  cases hget : (q.laneOf tx.getSourceID).1[(tx.getSeqNum - n).toNat]? with
  | none =>
    -- it comes right after the last
    refine ⟨rfl, fun last hlast => .inl ?_⟩
    have hlen := List.getElem?_eq_none_iff.mp hget
    rw [hseq.getLast? hlast]
    omega
  | some old =>
    dsimp only
    split
    · exact stopsAtBid_result _ _
    obtain ⟨hlt, hold⟩ := List.getElem?_eq_some_iff.mp hget
    have hmem : old ∈ (q.laneOf tx.getSourceID).1 := hold ▸ getElem_mem hlt
    refine (canReplaceByFee_meets tx old (h.books.bids _ old hmem)).bind fun minFee _ => ?_
    cases minFee with
    | some minFee => exact stopsAtBid_result _ _
    | none =>
      refine ⟨(q.laneOf tx.getSourceID).1.take (tx.getSeqNum - n).toNat, old,
        (q.laneOf tx.getSourceID).1.drop ((tx.getSeqNum - n).toNat + 1), ?_, ?_, ?_, ?_⟩
      · rw [← hold, getElem_cons_drop, take_append_drop]
      · rw [length_take, min_eq_left hlt.le]
      · rw [hseq.getElem? hget]
        omega
      · simp only [bidsFor, map_cons, map_nil, sum_cons, sum_nil, add_zero]
        split <;> ring

theorem Sound.assess (h : Sound config q) (tx : TransactionFrameBase) :
    Meets (q.assess network tx) (fun admission => q.isBanned (tx.getFullHash network) = false ∧ Fits q tx admission)
      (StopsAtBid tx) := by
  unfold TransactionQueue.assess
  split
  · exact stopsAtBid_result _ _
  next hbanned =>
  have hbanned := Bool.eq_false_iff.mpr hbanned
  cases hlookup : q.accountStates.lookup tx.getSourceID with
  | none =>
    refine ⟨hbanned, rfl, fun last hlast => ?_⟩
    rw [laneOf_of_none hlookup] at hlast
    cases hlast
  | some state =>
    have hlane : (q.laneOf tx.getSourceID).1 = state.transactions := by rw [laneOf_of_lookup hlookup]
    dsimp only
    rw [← hlane]
    split
    next hnil =>
      refine ⟨hbanned, rfl, fun last hlast => ?_⟩
      rw [isEmpty_iff.mp hnil] at hlast
      cases hlast
    next hne =>
      have hne := mt List.isEmpty_iff.mpr hne
      split
      · exact (h.assessFeeBump hne).mono (fun _ hfits => ⟨hbanned, hfits⟩) fun _ hstop => hstop
      · exact (h.assessTx hne).mono (fun _ hfits => ⟨hbanned, hfits⟩) fun _ hstop => hstop

/-- What the ledger says of a transaction that is affordable. -/
structure Affordable (q : TransactionQueue) (ltx : LedgerTxn) (tx : TransactionFrameBase) (admission : Admission) : Prop where
  valid : tx.Valid ltx admission.seqNum
  balance : ∃ available ≤ INT64_MAX, tx.getFeeBid ≤ available ∧ q.feesOf tx.getFeeSourceID ≤ wrap64 (available - admission.netFee)

theorem getAvailableBalance_le {lh : LedgerHeader} {acc : AccountEntry} {available : Int}
    (h : AccountEntry.getAvailableBalance lh acc = .ok available) : available ≤ INT64_MAX := by
  obtain ⟨minBalance, -, h⟩ := bind_eq_ok.mp h
  obtain ⟨avail, havail, h⟩ := bind_eq_ok.mp h
  split at h
  · obtain ⟨rfl, -, hle⟩ := int64_eq_ok.mp h
    exact hle
  · cases h
    obtain ⟨rfl, -, hle⟩ := int64_eq_ok.mp havail
    exact hle

theorem Books.affordable (h : Books q) (ltx : LedgerTxn) (upper : UInt64) (tx : TransactionFrameBase) (admission : Admission) :
    Meets (q.affordable network ltx upper tx admission) (fun _ => Affordable q ltx tx admission)
      (fun refusal => ∀ fault, refusal = .fault fault → BrokenBalance ltx fault) := by
  have hfees : ((q.accountStates.lookup tx.getFeeSourceID).map (·.totalFees)).getD 0 = q.feesOf tx.getFeeSourceID := by
    have hstate := congrArg AccountState.totalFees (h.getD tx.getFeeSourceID)
    refine Eq.trans ?_ hstate
    cases q.accountStates.lookup tx.getFeeSourceID <;> rfl
  have hvalid := tx.meets_checkValid network ltx admission.seqNum 0 upper
  unfold TransactionQueue.affordable
  cases hrun : tx.checkValid network ltx admission.seqNum 0 upper with
  | error failure =>
    have hstop := hvalid.of_error hrun
    cases failure with
    | result code => exact fun fault hf => (nomatch hf)
    | fault f =>
      intro fault hf
      cases hf
      exact hstop f rfl
  | ok _ =>
    have hvalid := hvalid.of_ok hrun
    obtain ⟨acc, available, hacc, havailable, hpay⟩ := hvalid.canPay
    rw [hacc]
    dsimp only
    rw [havailable, hfees]
    simp only [orFault, ok_bind]
    split
    · exact fun fault hf => (nomatch hf)
    next hle => exact ⟨hvalid, available, getAvailableBalance_le havailable, hpay, not_lt.mp hle⟩

/-- **The balance of the fee source bounds its fees**, although the difference may wrap around. -/
theorem fees_le_of_affordable {fees bid netFee available : Int} (hfees : fees ≤ INT64_MAX) (hnonneg : 0 ≤ bid)
    (havailable : available ≤ INT64_MAX) (hbid : bid ≤ available) (hnet : netFee ≤ bid)
    (hle : fees ≤ wrap64 (available - netFee)) : fees + netFee ≤ INT64_MAX := by
  by_cases hneg : netFee < 0
  · omega
  · have hrange : INT64_MIN ≤ available - netFee ∧ available - netFee ≤ INT64_MAX := by
      simp only [INT64_MIN, INT64_MAX] at *
      omega
    rw [wrap64_of_mem hrange] at hle
    omega

theorem bidsFor_ne {id : AccountID} (h : tx.getFeeSourceID ≠ id) : bidsFor id [tx] = 0 := by
  simp [bidsFor, h]

theorem bidsFor_self (tx : TransactionFrameBase) : bidsFor tx.getFeeSourceID [tx] = tx.getFeeBid := by
  simp [bidsFor]

variable {ltx : LedgerTxn} {admission : Admission}

theorem Affordable.feeBid_pos (h : Affordable q ltx tx admission) (hbase : 1 ≤ ltx.header.baseFee) :
    0 < tx.getFeeBid := by
  refine lt_of_lt_of_le ?_ h.valid.minFee
  exact mul_pos (by exact_mod_cast hbase) (lt_max_of_lt_left Int.one_pos)

/-- The fees of every account stay in range when one account pays the net fee and no other pays more. -/
theorem Sound.fees_of_affordable (h : Sound config q) (haffordable : Affordable q ltx tx admission)
    (old : List TransactionFrameBase) (hold : ∀ tx' ∈ old, 0 < tx'.getFeeBid)
    (hnet : admission.netFee = tx.getFeeBid - bidsFor tx.getFeeSourceID old) (id : AccountID) :
    q.feesOf id - bidsFor id old + bidsFor id [tx] ≤ INT64_MAX := by
  have hnonneg := bidsFor_nonneg id hold
  by_cases hid : tx.getFeeSourceID = id
  · subst hid
    obtain ⟨available, havailable, hbid, hle⟩ := haffordable.balance
    have := fees_le_of_affordable (h.fees _) haffordable.valid.feeBid_nonneg havailable hbid (by omega) hle
    rw [bidsFor_self]
    omega
  · rw [bidsFor_ne hid]
    have := h.fees id
    omega

/-- Why an attempt to add a transaction stops the node. -/
def StopsAdding (ltx : LedgerTxn) (tx : TransactionFrameBase) (fault : Fault) : Prop :=
  BrokenBalance ltx fault ∨ fault = .assertion ∧ tx.getFeeBid < 0

theorem NotBanned.of_lane (h : NotBanned network q) {q' : TransactionQueue} {k : AccountID} {lane : Lane}
    (hbanned : q'.bannedTransactions = q.bannedTransactions) (htx : q.isBanned (tx.getFullHash network) = false)
    (hlane : q'.laneOf = update q.laneOf k lane) (hmem : ∀ tx' ∈ lane.1, tx' = tx ∨ tx' ∈ (q.laneOf k).1) :
    NotBanned network q' := by
  intro id tx' htx'
  rw [isBanned, hbanned]
  rw [hlane] at htx'
  by_cases hid : id = k
  · rw [hid, update_self] at htx'
    rcases hmem tx' htx' with rfl | hold
    · exact htx
    · exact h k tx' hold
  · rw [update_of_ne hid] at htx'
    exact h id tx' htx'

theorem Sound.append (h : Sound config q) (hnot : NotBanned network q)
    (hbanned : q.isBanned (tx.getFullHash network) = false) (hfits : Fits q tx admission)
    (hafter : admission.oldTx = none) (haffordable : Affordable q ltx tx admission) (hbase : 1 ≤ ltx.header.baseFee)
    (hseqNum : tx.getSeqNum ≠ 0 ∧ tx.getSeqNum ≠ INT64_MAX) :
    ∃ q', q.add config tx none = .ok q' ∧ Sound config q' ∧ NotBanned network q' := by
  rw [Fits, hafter] at hfits
  obtain ⟨hnet, hlast⟩ := hfits
  have hok := h.lanes tx.getSourceID
  have hbid := haffordable.feeBid_pos hbase
  obtain ⟨q', hadd, hbooks, hlane, hbans, hsizes⟩ := h.books.append hbid hok.age
  refine ⟨q', hadd, h.update hbooks hlane ?_ (fun id => ?_) (fun age _ => ?_), hnot.of_lane hbans hbanned hlane ?_⟩
  · obtain ⟨n, hseq⟩ := hok.consecutive
    refine ⟨?_, ?_, ?_, hok.age⟩
    · intro tx' htx'
      rcases mem_append.mp htx' with htx' | htx'
      · exact hok.source tx' htx'
      · rw [mem_singleton.mp htx']
    · cases hlast? : (q.laneOf tx.getSourceID).1.getLast? with
      | none =>
        rw [List.getLast?_eq_none_iff.mp hlast?]
        exact ⟨tx.getSeqNum, rfl, trivial⟩
      | some last =>
        refine ⟨n, seqFrom_append.mpr ⟨hseq, ?_, trivial⟩⟩
        rw [← hseq.getLast? hlast?]
        rcases hlast last hlast? with heq | heq
        · exact heq
        · -- the account's own sequence number is not looked at
          obtain ⟨acc, -, -, hnext⟩ := haffordable.valid.next
          have hne := (hok.seqNum last (List.mem_of_getLast? hlast?)).1
          rw [heq, TransactionFrame.seqNumBefore, if_neg hne] at hnext
          exact hnext.symm
    · intro tx' htx'
      rcases mem_append.mp htx' with htx' | htx'
      · exact hok.seqNum tx' htx'
      · rw [mem_singleton.mp htx']
        exact hseqNum
  · have hfees := h.fees_of_affordable haffordable [] (fun _ htx' => (not_mem_nil htx').elim)
      (by rw [hnet, bidsFor_nil, sub_zero]) id
    rw [bidsFor_append]
    rw [bidsFor_nil] at hfees
    omega
  · rw [hsizes, update_add_apply, countOf, countOf, length_append, length_singleton]
    push_cast
    split <;> ring
  · intro tx' htx'
    rcases mem_append.mp htx' with htx' | htx'
    · exact .inr htx'
    · exact .inl (mem_singleton.mp htx')

theorem Sound.replace (h : Sound config q) (hnot : NotBanned network q)
    (hbanned : q.isBanned (tx.getFullHash network) = false) (hfits : Fits q tx admission) {iter : Nat}
    (hinstead : admission.oldTx = some iter) (haffordable : Affordable q ltx tx admission)
    (hbase : 1 ≤ ltx.header.baseFee) :
    ∃ q', q.add config tx (some iter) = .ok q' ∧ Sound config q' ∧ NotBanned network q' := by
  rw [Fits, hinstead] at hfits
  obtain ⟨before, old, after, hold, rfl, hseqNum, hnet⟩ := hfits
  have hok := h.lanes tx.getSourceID
  have hbid := haffordable.feeBid_pos hbase
  have hlane₀ : q.laneOf tx.getSourceID = (before ++ old :: after, (q.laneOf tx.getSourceID).2) := Prod.ext hold rfl
  have hmem : old ∈ (q.laneOf tx.getSourceID).1 := by simp [hold]
  have hnew : ∀ tx' ∈ before ++ tx :: after, tx' = tx ∨ tx' ∈ (q.laneOf tx.getSourceID).1 := by
    intro tx' htx'
    rw [hold]
    simp only [mem_append, mem_cons] at htx' ⊢
    tauto
  obtain ⟨q', hadd, hbooks, hlane, hrest⟩ := h.books.replace hbid hlane₀
  refine ⟨q', hadd, h.update hbooks hlane ?_ (fun id => ?_) (fun age _ => ?_), hnot.of_lane hrest.1 hbanned hlane hnew⟩
  · obtain ⟨n, hseq⟩ := hok.consecutive
    rw [hold, seqFrom_append] at hseq
    refine ⟨fun tx' htx' => ?_, ⟨n, seqFrom_append.mpr ⟨hseq.1, ?_, hseq.2.2⟩⟩, fun tx' htx' => ?_, hok.age⟩
    · rcases hnew tx' htx' with rfl | htx'
      · rfl
      · exact hok.source tx' htx'
    · rw [hseqNum]
      exact hseq.2.1
    · rcases hnew tx' htx' with rfl | htx'
      · rw [hseqNum]
        exact hok.seqNum old hmem
      · exact hok.seqNum tx' htx'
  · have hfees := h.fees_of_affordable haffordable [old]
      (fun tx' htx' => mem_singleton.mp htx' ▸ h.books.bids _ old hmem) hnet id
    rw [hold, bidsFor_append, bidsFor_append, ← singleton_append, bidsFor_append, ← singleton_append (l := after),
      bidsFor_append id [tx]]
    omega
  · rw [hrest.2, countOf, countOf, hold, length_append, length_append, length_cons, length_cons]
    ring

/-- **An attempt to add a transaction.** -/
theorem Sound.tryAdd (h : Sound config q) (hhash : HashesDistinguish network) (hnot : NotBanned network q)
    (upper : UInt64) (hbase : 1 ≤ ltx.header.baseFee) (hseqNum : tx.getSeqNum ≠ 0 ∧ tx.getSeqNum ≠ INT64_MAX) :
    Meets (q.tryAdd network config ltx upper tx) (fun r => Sound config r.2 ∧ NotBanned network r.2)
      (StopsAdding ltx tx) := by
  have hassess : Meets (q.assess network tx) _ _ := h.assess tx
  unfold TransactionQueue.tryAdd
  cases hrun : q.assess network tx with
  | error refusal =>
    have hstop := hassess.of_error hrun
    cases refusal with
    | result res => exact ⟨h, hnot⟩
    | fault f => exact .inr (hstop f rfl)
  | ok admission =>
    obtain ⟨hbanned, hfits⟩ := hassess.of_ok hrun
    dsimp only
    split
    · -- there is no room
      obtain ⟨q', hban, hsound', hnot'⟩ := h.ban hhash hnot [tx]
      rw [hban]
      exact ⟨hsound', hnot'⟩
    have haffordable : Meets (q.affordable network ltx upper tx admission) _ _ := h.books.affordable ltx upper tx admission
    cases hrun' : q.affordable network ltx upper tx admission with
    | error refusal =>
      have hstop := haffordable.of_error hrun'
      cases refusal with
      | result res => exact ⟨h, hnot⟩
      | fault f => exact .inl (hstop f rfl)
    | ok _ =>
      have haffordable := haffordable.of_ok hrun'
      cases hold : admission.oldTx with
      | none =>
        obtain ⟨q', hadd, hq'⟩ := h.append hnot hbanned hfits hold haffordable hbase hseqNum
        rw [hadd]
        exact hq'
      | some iter =>
        obtain ⟨q', hadd, hq'⟩ := h.replace hnot hbanned hfits hold haffordable hbase
        rw [hadd]
        exact hq'

/-! ### Versions -/

theorem sumOver_congr {q q' : TransactionQueue} {f : Lane → Int} (hf : f ([], 0) = 0)
    (h : ∀ id, f (q'.laneOf id) = f (q.laneOf id)) : q'.sumOver f = q.sumOver f := by
  obtain ⟨S, -, hS, hS'⟩ := exists_support q q' 0
  rw [sumOver_eq_sum q hf hS, sumOver_eq_sum q' hf hS']
  exact Finset.sum_congr rfl fun id _ => h id

section Conversion
variable (tx : TransactionFrameBase)

@[simp] theorem convertForV13_source : (convertForV13 tx).getSourceID = tx.getSourceID := by cases tx <;> rfl

@[simp] theorem convertForV13_feeSource : (convertForV13 tx).getFeeSourceID = tx.getFeeSourceID := by cases tx <;> rfl

@[simp] theorem convertForV13_seqNum : (convertForV13 tx).getSeqNum = tx.getSeqNum := by cases tx <;> rfl

@[simp] theorem convertForV13_feeBid : (convertForV13 tx).getFeeBid = tx.getFeeBid := by cases tx <;> rfl

@[simp] theorem convertForV13_numOperations : (convertForV13 tx).getNumOperations = tx.getNumOperations := by
  cases tx <;> rfl

end Conversion

@[simp] theorem bidsFor_convert (id : AccountID) (txs : List TransactionFrameBase) :
    bidsFor id (txs.map convertForV13) = bidsFor id txs := by
  simp [bidsFor, comp_def]

@[simp] theorem opsOf_convert (txs : List TransactionFrameBase) : opsOf (txs.map convertForV13) = opsOf txs := by
  simp [opsOf, comp_def]

theorem SeqFrom.convert {n : Int} {txs : List TransactionFrameBase} (h : SeqFrom n txs) :
    SeqFrom n (txs.map convertForV13) := by
  induction txs generalizing n with
  | nil => trivial
  | cons tx rest ih => exact ⟨(convertForV13_seqNum tx).trans h.1, ih h.2⟩

theorem LaneOk.convert {id : AccountID} {lane : Lane} (h : LaneOk config id lane) :
    LaneOk config id (lane.1.map convertForV13, lane.2) where
  source := by simpa using h.source
  consecutive := h.consecutive.imp fun _ hseq => hseq.convert
  seqNum := by simpa using h.seqNum
  age := h.age

theorem stateAt_convert (lane : Lane) (fees ops : Int) :
    (stateAt lane fees ops).map (fun state => { state with transactions := state.transactions.map convertForV13 }) =
      stateAt (lane.1.map convertForV13, lane.2) fees ops := by
  unfold stateAt
  simp only [map_eq_nil_iff]
  split <;> rfl

theorem Sound.maybeVersionUpgraded (h : Sound config q) (hnot : NotBanned network q) (ledgerVersion : Nat) :
    Sound config (q.maybeVersionUpgraded ledgerVersion).1 ∧ NotBanned network (q.maybeVersionUpgraded ledgerVersion).1 := by
  unfold TransactionQueue.maybeVersionUpgraded
  split
  swap
  · exact ⟨⟨h.books.congr rfl rfl, h.lanes, h.fees, h.sizes⟩, hnot⟩
  set q' : TransactionQueue := { q with
    bannedTransactions := q.bannedTransactions.map fun _ => []
    accountStates := q.accountStates.map fun state => { state with transactions := state.transactions.map convertForV13 }
    ledgerVersion }
  have hlane : ∀ id, q'.laneOf id = ((q.laneOf id).1.map convertForV13, (q.laneOf id).2) := by
    intro id
    rw [laneOf, laneOf, Table.lookup_map]
    cases q.accountStates.lookup id <;> rfl
  have hfees : ∀ id, q'.feesOf id = q.feesOf id := fun id =>
    sumOver_congr (f := fun lane => bidsFor id lane.1) rfl fun k => by rw [hlane, bidsFor_convert]
  refine ⟨⟨⟨fun id => ?_, fun id hnil => ?_, ?_, fun id tx htx => ?_⟩, fun id => ?_, fun id => ?_, fun age hage => ?_⟩, ?_⟩
  · dsimp only
    rw [Table.lookup_map, h.books.states id, stateAt_convert, hlane, hfees, opsOf_convert]
  · rw [hlane] at hnil ⊢
    exact h.books.idle id (map_eq_nil_iff.mp hnil)
  · exact h.books.size.trans (sumOver_congr (f := fun lane => opsOf lane.1) rfl fun k => by rw [hlane, opsOf_convert]).symm
  · rw [hlane] at htx
    obtain ⟨tx', htx', rfl⟩ := mem_map.mp htx
    rw [convertForV13_feeBid]
    exact h.books.bids id tx' htx'
  · rw [hlane]
    exact (h.lanes id).convert
  · rw [hfees]
    exact h.fees id
  · refine (h.sizes age hage).trans (sumOver_congr (countOf_idle age) fun id => ?_).symm
    rw [hlane, countOf, countOf, length_map]
  · intro id tx _
    simp [isBanned, q']

/-! ### Runs -/

/-- What the state of an account says. -/
structure StateRight (network : Network) (config : QueueConfig) (q : TransactionQueue) (id : AccountID)
    (state : AccountState) : Prop where
  source : ∀ tx ∈ state.transactions, tx.getSourceID = id
  consecutive : ∀ (i : Nat) (tx next : TransactionFrameBase), state.transactions[i]? = some tx →
    state.transactions[i + 1]? = some next → next.getSeqNum = tx.getSeqNum + 1
  queueSizeOps : state.queueSizeOps = opsOf state.transactions
  totalFees : state.totalFees = q.feesOf id
  totalFees_le : state.totalFees ≤ INT64_MAX
  needed : state.transactions ≠ [] ∨ state.totalFees ≠ 0
  age_lt : state.age < config.pendingDepth
  age_idle : state.transactions = [] → state.age = 0
  notBanned : ∀ tx ∈ state.transactions, q.isBanned (tx.getFullHash network) = false

/-- The books of the whole queue. -/
structure Bookkeeping (network : Network) (config : QueueConfig) (q : TransactionQueue) : Prop where
  states : ∀ id state, q.accountStates.lookup id = some state → StateRight network config q id state
  /-- An account without a state pays for nothing. -/
  absent : ∀ id, q.accountStates.lookup id = none → q.feesOf id = 0
  queueSizeOps : q.queueSizeOps = q.accountStates.total fun _ state => opsOf state.transactions
  sizeByAge : ∀ age < config.pendingDepth,
    q.sizeByAge age = q.accountStates.total fun _ state => if state.age = age then state.transactions.length else 0

theorem Sound.bookkeeping (h : Sound config q) (hnot : NotBanned network q) : Bookkeeping network config q where
  states := by
    intro id state hlookup
    have hshows := h.books.states id
    rw [hlookup, stateAt] at hshows
    split at hshows
    · cases hshows
    next hneeded =>
      have hstate := Option.some.inj hshows
      have hok := h.lanes id
      have hlane := laneOf_of_lookup hlookup
      have hfees : state.totalFees = q.feesOf id := congrArg AccountState.totalFees hstate
      rw [hlane] at hok hneeded
      obtain ⟨n, hseq⟩ := hok.consecutive
      refine ⟨hok.source, fun i tx next htx hnext => ?_, ?_, hfees, ?_, ?_, hok.age, fun hnil => ?_, fun tx htx => ?_⟩
      · rw [hseq.getElem? htx, hseq.getElem? hnext]
        push_cast
        ring
      · refine (congrArg AccountState.queueSizeOps hstate).trans ?_
        dsimp only
        rw [hlane]
      · rw [hfees]
        exact h.fees id
      · rw [hfees]
        exact not_and_or.mp hneeded
      · have hidle := h.books.idle id
        rw [hlane] at hidle
        exact hidle hnil
      · refine hnot id tx ?_
        rwa [hlane]
  absent := by
    intro id hlookup
    have hshows := h.books.states id
    rw [hlookup, stateAt] at hshows
    split at hshows
    next hnone => exact hnone.2
    next => cases hshows
  queueSizeOps := h.books.size
  sizeByAge := h.sizes

theorem Sound.new (config : QueueConfig) (ledgerVersion : Nat) : Sound config (TransactionQueue.new config ledgerVersion) where
  books := ⟨fun _ => rfl, fun _ _ => rfl, rfl, fun _ _ htx => (not_mem_nil htx).elim⟩
  lanes := fun _ => ⟨fun _ htx => (not_mem_nil htx).elim, ⟨0, trivial⟩, fun _ htx => (not_mem_nil htx).elim,
    config.pendingDepth_pos⟩
  fees := fun _ => show (0 : Int) ≤ INT64_MAX by decide
  sizes := fun _ _ => rfl

/-- A call of the queue, with the ledger that it finds. -/
inductive QueueCall where
  | tryAdd (ltx : LedgerTxn) (upperBoundCloseTimeOffset : UInt64) (tx : TransactionFrameBase)
  | removeApplied (appliedTxs : List TransactionFrameBase)
  | ban (banTxs : List TransactionFrameBase)
  | shift (arrange : List AccountID → List AccountID) (arrange_perm : ∀ ids, (arrange ids).Perm ids)
  | maybeVersionUpgraded (ledgerVersion : Nat)

/-- One call; the result of adding is not looked at. -/
def step (network : Network) (config : QueueConfig) (q : TransactionQueue) : QueueCall → Except Fault TransactionQueue
  | .tryAdd ltx upper tx => (q.tryAdd network config ltx upper tx).map Prod.snd
  | .removeApplied appliedTxs => q.removeApplied config appliedTxs
  | .ban banTxs => q.ban network config banTxs
  | .shift arrange _ => q.shift network config arrange
  | .maybeVersionUpgraded ledgerVersion => pure (q.maybeVersionUpgraded ledgerVersion).1

def run (network : Network) (config : QueueConfig) (ledgerVersion : Nat) (calls : List QueueCall) :
    Except Fault TransactionQueue :=
  calls.foldlM (step network config) (new config ledgerVersion)

/-- The transactions that are to be added have neither sequence number 0 nor the largest one, and
there is a fee. -/
def QueueCall.Regular : QueueCall → Prop
  | .tryAdd ltx _ tx => (tx.getSeqNum ≠ 0 ∧ tx.getSeqNum ≠ INT64_MAX) ∧ 1 ≤ ltx.header.baseFee
  | _ => True

theorem Sound.step (h : Sound config q) (hhash : HashesDistinguish network) (hnot : NotBanned network q) {call : QueueCall}
    (hregular : call.Regular) :
    Meets (q.step network config call) (fun q' => Sound config q' ∧ NotBanned network q')
      (fun fault => ∃ ltx upper tx, call = .tryAdd ltx upper tx ∧ StopsAdding ltx tx fault) := by
  cases call with
  | tryAdd ltx upper tx =>
    have hadd := h.tryAdd hhash hnot upper hregular.2 hregular.1
    rw [TransactionQueue.step]
    cases hrun : q.tryAdd network config ltx upper tx with
    | ok r => exact hadd.of_ok hrun
    | error fault => exact ⟨ltx, upper, tx, rfl, hadd.of_error hrun⟩
  | removeApplied appliedTxs =>
    obtain ⟨q', hrun, hsound, hfewer⟩ := h.removeApplied appliedTxs
    rw [TransactionQueue.step, hrun]
    exact ⟨hsound, hnot.fewer hfewer⟩
  | ban banTxs =>
    obtain ⟨q', hrun, hq'⟩ := h.ban hhash hnot banTxs
    rw [TransactionQueue.step, hrun]
    exact hq'
  | shift arrange harrange =>
    obtain ⟨q', hrun, hq'⟩ := h.shift hhash hnot harrange
    rw [TransactionQueue.step, hrun]
    exact hq'
  | maybeVersionUpgraded ledgerVersion => exact h.maybeVersionUpgraded hnot ledgerVersion

/-- The run stops at a call to add a transaction that ends this way. -/
def StopsAt (network : Network) (config : QueueConfig) (ledgerVersion : Nat) (calls : List QueueCall) (fault : Fault) : Prop :=
  ∃ before ltx upper tx after q, calls = before ++ .tryAdd ltx upper tx :: after ∧
    run network config ledgerVersion before = .ok q ∧ q.step network config (.tryAdd ltx upper tx) = .error fault ∧
    StopsAdding ltx tx fault

/-- **The books are right after every run of regular calls**, and nothing stops the node but an
attempt to add a transaction, at a balance that cannot be computed or at a negative bid. -/
theorem run_bookkeeping (hhash : HashesDistinguish network) (config : QueueConfig) (ledgerVersion : Nat)
    {calls : List QueueCall} (hregular : ∀ call ∈ calls, call.Regular) :
    Meets (run network config ledgerVersion calls) (Bookkeeping network config)
      (StopsAt network config ledgerVersion calls) := by
  have hsound {calls : List QueueCall} (hregular : ∀ call ∈ calls, call.Regular) :
      Meets (run network config ledgerVersion calls) (fun q => Sound config q ∧ NotBanned network q) fun _ => True := by
    refine Meets.foldlM calls (fun q hq call hcall => ?_) ⟨.new config ledgerVersion, fun _ _ htx => (not_mem_nil htx).elim⟩
    exact (hq.1.step hhash hq.2 (hregular call hcall)).anyFault
  cases hrun : run network config ledgerVersion calls with
  | ok q =>
    obtain ⟨hq, hnot⟩ := (hsound hregular).of_ok hrun
    exact hq.bookkeeping hnot
  | error fault =>
    obtain ⟨before, call, after, q, rfl, hbefore, hstop⟩ := foldlM_eq_error hrun
    obtain ⟨hq, hnot⟩ := (hsound fun c hc => hregular c (mem_append_left _ hc)).of_ok hbefore
    have hcall := hregular call (mem_append_right _ (.head _))
    obtain ⟨ltx, upper, tx, rfl, hadding⟩ := (hq.step hhash hnot hcall).of_error hstop
    exact ⟨before, ltx, upper, tx, after, q, rfl, hbefore, hstop, hadding⟩

/-- A network whose signatures all verify, and whose hashes are made of source and sequence number. -/
def keyedNetwork : Network where
  sha256 := fun _ => 0
  verifySig := fun _ _ _ => true
  contentsHash := fun _ => 0
  fullHash := fun tx => Nat.pair tx.sourceAccount (Equiv.intEquivNat tx.seqNum)
  feeBumpContentsHash := fun _ => 0
  feeBumpFullHash := fun tx => Nat.pair tx.innerTx.sourceAccount (Equiv.intEquivNat tx.innerTx.seqNum)

theorem keyedNetwork_distinguishes : HashesDistinguish keyedNetwork := by
  intro tx tx' h
  have hkey : ∀ tx : TransactionFrameBase,
      tx.getFullHash keyedNetwork = Nat.pair tx.getSourceID (Equiv.intEquivNat tx.getSeqNum) := by
    intro tx
    cases tx <;> rfl
  rw [hkey, hkey, Nat.pair_eq_pair] at h
  exact ⟨h.1, Equiv.intEquivNat.injective h.2⟩

def fourLedgers : QueueConfig := ⟨4, 10, 4, by decide, by decide⟩

/-- A transaction is added and grows older, a second one is added, and the first one is applied. -/
theorem run_bookkeeping_twoTxs :
    let tx6 : TransactionFrameBase := .tx (bumpTx 6 none)
    let tx7 : TransactionFrameBase := .tx (bumpTx 7 none)
    let calls : List QueueCall := [.tryAdd oneAccount.ltx 0 tx6, .shift id fun _ => .refl _, .tryAdd oneAccount.ltx 0 tx7,
      .removeApplied [tx6], .ban []]
    Meets (run keyedNetwork fourLedgers 14 calls) (fun q => (q.laneOf 1).1.map (·.getSeqNum) = [7] ∧ q.queueSizeOps = 1)
        (fun _ => False) ∧
      Meets (run keyedNetwork fourLedgers 14 calls) (Bookkeeping keyedNetwork fourLedgers)
        (StopsAt keyedNetwork fourLedgers 14 calls) := by
  refine ⟨by decide +kernel, run_bookkeeping keyedNetwork_distinguishes fourLedgers 14 fun call hcall => ?_⟩
  simp only [mem_cons, not_mem_nil, or_false] at hcall
  rcases hcall with rfl | rfl | rfl | rfl | rfl
  · exact ⟨by decide, by decide⟩
  · trivial
  · exact ⟨by decide, by decide⟩
  · trivial
  · trivial

/-- Account 1 right before the largest sequence number. -/
def lastNumber : LedgerTxn :=
  { oneAccount.ltx with
    accounts := (∅ : Table AccountID AccountEntry).insert 1 ⟨1000, INT64_MAX - 1, 0, none, 0, [], {}, [], {}, none, none⟩ }

/-- A transaction with the largest sequence number is not found when it is to be banned, for the
number after it wraps around: it is banned, and stays in the queue. -/
theorem bannedTx_stays_queued :
    let tx : TransactionFrameBase := .tx (bumpTx Int64.maxValue none)
    Meets (run keyedNetwork fourLedgers 14 [.tryAdd lastNumber 0 tx, .ban [tx]])
      (fun q => (q.laneOf 1).1.map (fun tx => (tx.getSeqNum, q.isBanned (tx.getFullHash keyedNetwork))) = [(INT64_MAX, true)])
      (fun _ => False) := by
  decide +kernel

end TransactionQueue
end Diamnet.Herder
