import Diamnet.Herder.ProposedSet

/-! The order in which the transactions of a set are applied (`TxSetFrame.cpp`).

`sortForApply` takes one transaction of every account at a time, by sequence number, and orders
those of one turn by their hashes. Sequence numbers of accounts are not negative, so in a valid set an
account has no two transactions with one sequence number. The turn of a transaction and its hash then
determine its place (`sortForApply_order`), whatever order the set is gone through in. -/
namespace Diamnet.Herder
open Ledger Transactions List

/-- The i-th element contains each i-th transaction for accounts with a transaction in the set. -/
def txBatches : Nat → List (List TransactionPtr) → List (List TransactionPtr)
  | 0, _ => []
  | _ + 1, [] => []
  | n + 1, queue :: queues =>
    (queue :: queues).filterMap head? ::
      txBatches n (((queue :: queues).map tail).filter fun queue => !queue.isEmpty)

namespace TxSetFrame
variable (env : Environment) (sha256 : Hash → List TransactionFrameBase → Hash)

/-- The hash of the last ledger and the envelopes of the set. -/
def getContentsHash (set : TxSetFrame) : Hash :=
  sha256 set.previousLedgerHash ((set.sortForHash env).transactions.map (·.tx))

def sortForApply (set : TxSetFrame) : List TransactionPtr :=
  (txBatches set.sizeTx (buildAccountTxQueues env set.transactions)).flatMap fun batch =>
    batch.insertionSort fun a b =>
      getFullHash env a ^^^ set.getContentsHash env sha256 ≤ getFullHash env b ^^^ set.getContentsHash env sha256

end TxSetFrame

/-! ### Turns -/

/-- How many transactions of the account come before this one. -/
def turnOf (txs : List TransactionFrameBase) (tx : TransactionFrameBase) : Nat :=
  txs.countP fun tx' => tx'.getSourceID = tx.getSourceID ∧ tx'.getSeqNum < tx.getSeqNum

/-- The turn of a transaction, and its hash within the turn. -/
def placeOf (network : Network) (setHash : Hash) (txs : List TransactionFrameBase) (tx : TransactionFrameBase) : ℕ ×ₗ ℕ :=
  toLex (turnOf txs tx, tx.getFullHash network ^^^ setHash)

variable {env : Environment} {lcl : LastClosedLedger} {offsets : CloseTimeOffsets} {txs queue : List TransactionPtr}
  {id : AccountID} {T : List TransactionFrameBase}

theorem turnOf_lt {tx tx' : TransactionFrameBase} (hmem : tx ∈ T) (hsource : tx.getSourceID = tx'.getSourceID)
    (hlt : tx.getSeqNum < tx'.getSeqNum) : turnOf T tx < turnOf T tx' := by
  unfold turnOf
  have hle : ∀ T : List TransactionFrameBase, T.countP (fun t => t.getSourceID = tx.getSourceID ∧ t.getSeqNum < tx.getSeqNum) ≤
      T.countP fun t => t.getSourceID = tx'.getSourceID ∧ t.getSeqNum < tx'.getSeqNum := fun T =>
    countP_mono_left fun t _ h => by
      obtain ⟨hs, hq⟩ := of_decide_eq_true h
      exact decide_eq_true ⟨hs.trans hsource, hq.trans hlt⟩
  obtain ⟨before, after, rfl⟩ := append_of_mem hmem
  have hbefore := hle before
  have hafter := hle after
  rw [countP_append, countP_append, countP_cons_of_neg (by simp), countP_cons_of_pos (by simp [hsource, hlt])]
  omega

/-- In strict order by sequence number, as many come before a transaction as its index says. -/
theorem countP_lt_of_strict (h : queue.Pairwise fun a b => a.getSeqNum < b.getSeqNum) {i : Nat} {ptr : TransactionPtr}
    (hget : queue[i]? = some ptr) : queue.countP (fun p => p.getSeqNum < ptr.getSeqNum) = i := by
  induction queue generalizing i with
  | nil => cases hget
  | cons first rest ih =>
    obtain ⟨hfirst, hrest⟩ := pairwise_cons.mp h
    rw [countP_cons]
    cases i with
    | zero =>
      cases hget
      rw [countP_eq_zero.mpr fun p hp => by simpa using (hfirst p hp).le]
      simp
    | succ i =>
      rw [ih hrest hget]
      simp [hfirst ptr (mem_of_getElem? hget)]

variable (T) in
/-- The turns of the transactions that are still in a queue. -/
def Turns (r : Nat) (queue : List TransactionPtr) : Prop := ∀ i ptr, queue[i]? = some ptr → turnOf T ptr.tx = r + i

theorem turns_accountTxQueue (h : (accountTxQueue env txs id).Pairwise fun a b => a.getSeqNum < b.getSeqNum) :
    Turns (txs.map (·.tx)) 0 (accountTxQueue env txs id) := by
  intro i ptr hget
  have hid := source_of_mem_accountTxQueue ptr (mem_of_getElem? hget)
  rw [Nat.zero_add, ← countP_lt_of_strict h hget, (accountTxQueue_perm txs id).countP_eq, turnOf, countP_map,
    withKey, countP_filter]
  refine countP_congr fun p _ => ?_
  simp only [Function.comp, decide_eq_true_eq, Bool.and_eq_true, ← hid]
  exact And.comm

/-- A list that is sorted by a key which tells its elements apart is determined by what it holds. -/
theorem eq_of_sorted_by {α β : Type} [LinearOrder β] {l l' : List α} (f : α → β) (hperm : l.Perm l')
    (hinj : ∀ a ∈ l, ∀ b ∈ l, f a = f b → a = b) (h : l.Pairwise fun a b => f a ≤ f b)
    (h' : l'.Pairwise fun a b => f a ≤ f b) : l = l' :=
  Perm.eq_of_pairwise
    (fun a b ha hb hab hba => hinj a ha b (hperm.mem_iff.mpr hb) (le_antisymm hab hba)) h h' hperm

/-! ### Batches -/

theorem heads_append_tails_perm (queues : List (List TransactionPtr)) :
    (queues.filterMap head? ++ (queues.map tail).flatten).Perm queues.flatten := by
  induction queues with
  | nil => exact .nil
  | cons queue queues ih =>
    cases queue with
    | nil => exact ih
    | cons first rest =>
      simp only [filterMap_cons, head?_cons, cons_append, map_cons, tail_cons, flatten_cons]
      refine Perm.cons first ?_
      rw [← append_assoc]
      exact (perm_append_comm.append_right _).trans (by simpa using ih.append_left rest)

theorem txBatches_order (key : TransactionPtr → Nat) (n r : Nat) (queues : List (List TransactionPtr))
    (hlen : queues.flatten.length ≤ n) (hturns : ∀ queue ∈ queues, Turns T r queue) (hne : ∀ queue ∈ queues, queue ≠ []) :
    let out := (txBatches n queues).flatMap fun batch => batch.insertionSort fun a b => key a ≤ key b
    out.Perm queues.flatten ∧ (∀ ptr ∈ out, r ≤ turnOf T ptr.tx) ∧
      out.Pairwise fun a b => toLex (turnOf T a.tx, key a) ≤ toLex (turnOf T b.tx, key b) := by
  induction n generalizing r queues with
  | zero =>
    rw [length_eq_zero_iff.mp (Nat.le_zero.mp hlen)]
    exact ⟨.nil, fun _ h => (nomatch h), .nil⟩
  | succ n ih =>
    cases hqueues : queues with
    | nil => exact ⟨.nil, fun _ h => (nomatch h), .nil⟩
    | cons queue others =>
      rw [← hqueues]
      have hout : txBatches (n + 1) queues = queues.filterMap head? ::
          txBatches n ((queues.map tail).filter fun queue => !queue.isEmpty) := by
        rw [hqueues]
        rfl
      have hperm := heads_append_tails_perm queues
      rw [← flatten_filter_not_isEmpty] at hperm
      have hheads : ∀ ptr ∈ queues.filterMap head?, turnOf T ptr.tx = r := by
        intro ptr hptr
        obtain ⟨q, hq, hhead⟩ := mem_filterMap.mp hptr
        exact hturns q hq 0 ptr (by rwa [← head?_eq_getElem?])
      have hpos : 0 < (queues.filterMap head?).length := by
        obtain ⟨first, rest, hcons⟩ := exists_cons_of_ne_nil (hne queue (hqueues ▸ (.head _)))
        simp [hqueues, hcons]
      have hlength := hperm.length_eq
      rw [length_append] at hlength
      obtain ⟨hrestPerm, hrestTurns, hrestOrder⟩ := ih (r + 1)
        ((queues.map tail).filter fun queue => !queue.isEmpty) (by omega)
        (by
          intro q hq i ptr hget
          obtain ⟨q', hq', rfl⟩ := mem_map.mp (mem_filter.mp hq).1
          rw [getElem?_tail] at hget
          rw [hturns q' hq' (i + 1) ptr hget]
          omega)
        (fun q hq hnil => by simp [hnil] at hq)
      intro out
      have hflat : out = ((queues.filterMap head?).insertionSort fun a b => key a ≤ key b) ++
          (txBatches n ((queues.map tail).filter fun queue => !queue.isEmpty)).flatMap
            fun batch => batch.insertionSort fun a b => key a ≤ key b := by
        show flatMap _ _ = _
        rw [hout, flatMap_cons]
      have hbatch := perm_insertionSort (fun a b => key a ≤ key b) (queues.filterMap head?)
      have hfirst : ∀ ptr ∈ (queues.filterMap head?).insertionSort (fun a b => key a ≤ key b),
          turnOf T ptr.tx = r := fun ptr hptr => hheads ptr (hbatch.mem_iff.mp hptr)
      rw [hflat]
      refine ⟨(hbatch.append hrestPerm).trans hperm, fun ptr hptr => ?_, pairwise_append.mpr ⟨?_, hrestOrder, ?_⟩⟩
      · rcases mem_append.mp hptr with hptr | hptr
        · exact (hfirst ptr hptr).ge
        · exact (Nat.le_succ r).trans (hrestTurns ptr hptr)
      · have hsorted := pairwise_insertionSort (fun a b => key a ≤ key b) (queues.filterMap head?)
        refine hsorted.imp_of_mem fun ha hb hle => ?_
        rw [hfirst _ ha, hfirst _ hb]
        exact Prod.Lex.toLex_le_toLex.mpr (.inr ⟨rfl, hle⟩)
      · intro a ha b hb
        exact Prod.Lex.toLex_le_toLex.mpr (.inl (hfirst a ha ▸ hrestTurns b hb))

/-! ### Sets -/

variable (T) in
/-- No account has two transactions with the same sequence number. -/
def DistinctSeqNums : Prop := T.Pairwise fun a b => a.getSourceID = b.getSourceID → a.getSeqNum ≠ b.getSeqNum

theorem DistinctSeqNums.perm {T' : List TransactionFrameBase} (h : DistinctSeqNums T) (hperm : T.Perm T') :
    DistinctSeqNums T' :=
  (hperm.pairwise_iff fun hab hsource => (hab hsource.symm).symm).mp h

theorem DistinctSeqNums.strict (h : DistinctSeqNums (txs.map (·.tx))) :
    (accountTxQueue env txs id).Pairwise fun a b => a.getSeqNum < b.getSeqNum := by
  have hqueue : ((accountTxQueue env txs id).map (·.tx)).Pairwise
      fun a b => a.getSourceID = b.getSourceID → a.getSeqNum ≠ b.getSeqNum :=
    DistinctSeqNums.perm (h.sublist (filter_sublist.map _)) ((accountTxQueue_perm txs id).map _).symm
  refine ((accountTxQueue_sorted txs id).and (pairwise_map.mp hqueue)).imp_of_mem fun ha hb hab => ?_
  have hsource := (source_of_mem_accountTxQueue _ ha).trans (source_of_mem_accountTxQueue _ hb).symm
  exact lt_of_le_of_ne hab.1 (hab.2 hsource)

/-- No account has a negative sequence number. `LedgerEntryIsValid` demands it of every ledger. -/
def NonnegativeSeqNums (ltx : LedgerTxn) : Prop := ∀ id acc, ltx.accounts.lookup id = some acc → 0 ≤ acc.seqNum

/-- A set that is found valid has no two transactions of an account with one sequence number. -/
theorem distinctSeqNums_of_verdict {set : TxSetFrame} (h : set.verdict env lcl offsets = .ok true)
    (hseq : NonnegativeSeqNums lcl.ltx) :
    DistinctSeqNums (set.transactions.map (·.tx)) := by
  have hperm := @flatMap_accountTxQueue_perm env set.transactions
  have hstrict : ∀ id ∈ accountIDs env set.transactions,
      (accountTxQueue env set.transactions id).Pairwise fun a b => a.getSeqNum < b.getSeqNum := by
    intro id hid
    have hchain := (chainFrom_of_verdict h).2 _ (mem_map_of_mem hid)
    have hsorted : SeqSorted (accountTxQueue env set.transactions id) := accountTxQueue_sorted _ id
    have hsource : ∀ ptr ∈ accountTxQueue env set.transactions id, ptr.getSourceID = id := source_of_mem_accountTxQueue
    generalize accountTxQueue env set.transactions id = queue at hchain hsorted hsource
    cases queue with
    | nil => exact .nil
    | cons first rest =>
      obtain ⟨hfirst, hrest⟩ := pairwise_cons.mp hsorted
      obtain ⟨hidFirst, hidRest⟩ := forall_mem_cons.mp hsource
      obtain ⟨acc, hacc, -⟩ := (validAfter_valid hchain.1).next
      have hnext := seqNum_of_validAfter hchain.1 hacc
      have hnonneg := hseq _ acc hacc
      have hacc : lcl.ltx.accounts.lookup id = some acc := hidFirst ▸ hacc
      obtain ⟨hall, hstrict⟩ := hchain.2.strict hrest hfirst hacc hidRest (by simpa using hnext.ge) fun _ => by omega
      exact pairwise_cons.mpr ⟨hall, hstrict⟩
  refine DistinctSeqNums.perm (pairwise_map.mpr ?_) (hperm.map _)
  refine pairwise_flatMap.mpr ⟨fun id hid => (hstrict id hid).imp fun hlt _ => hlt.ne, ?_⟩
  refine (nodup_accountIDs set.transactions).imp fun hne a ha b hb hsource => absurd ?_ hne
  rw [← source_of_mem_accountTxQueue a ha, ← source_of_mem_accountTxQueue b hb]
  exact hsource

theorem sortForApply_places (sha256 : Hash → List TransactionFrameBase → Hash) {set : TxSetFrame}
    (h : DistinctSeqNums (set.transactions.map (·.tx))) :
    (set.sortForApply env sha256).Perm set.transactions ∧ (set.sortForApply env sha256).Pairwise fun a b =>
      placeOf env.network (set.getContentsHash env sha256) (set.transactions.map (·.tx)) a.tx ≤
        placeOf env.network (set.getContentsHash env sha256) (set.transactions.map (·.tx)) b.tx := by
  have hperm : (buildAccountTxQueues env set.transactions).flatten.Perm set.transactions := by
    exact flatMap_accountTxQueue_perm set.transactions
  obtain ⟨hout, -, horder⟩ := txBatches_order (T := set.transactions.map (·.tx))
    (fun ptr => getFullHash env ptr ^^^ set.getContentsHash env sha256) set.sizeTx 0
    (buildAccountTxQueues env set.transactions) hperm.length_eq.le
    (by
      intro queue hqueue
      obtain ⟨id, -, rfl⟩ := mem_map.mp hqueue
      exact turns_accountTxQueue h.strict)
    (by
      intro queue hqueue hnil
      obtain ⟨id, hid, rfl⟩ := mem_map.mp hqueue
      obtain ⟨ptr, hptr, rfl⟩ := mem_map.mp (mem_dedup.mp hid)
      have hmem := (@accountTxQueue_perm env set.transactions ptr.getSourceID).mem_iff.mpr
        (mem_withKey.mpr ⟨(env.arrange_perm _).mem_iff.mp hptr, rfl⟩)
      rw [hnil] at hmem
      cases hmem)
  exact ⟨hout.trans hperm, horder⟩

/-- The full hashes tell the transactions of the set apart: among them there is no collision. -/
def HashesDiffer (network : Network) (set : TxSetFrame) : Prop :=
  ∀ tx ∈ set.transactions.map (·.tx), ∀ tx' ∈ set.transactions.map (·.tx),
    tx.getFullHash network = tx'.getFullHash network → tx = tx'

/-- **The transactions of a valid set are applied turn by turn, those of an account by sequence
number, and on every node in the same order.** -/
theorem sortForApply_order {set set' : TxSetFrame} (hfresh : set.valid = none)
    (hvalid : set.checkValid env lcl offsets = .ok (true, set'))
    (hseq : NonnegativeSeqNums lcl.ltx) (hhash : HashesDiffer env.network set)
    (sha256 : Hash → List TransactionFrameBase → Hash) :
    (set.sortForApply env sha256).Perm set.transactions ∧
    (set.sortForApply env sha256).Pairwise (fun a b => a.getSourceID = b.getSourceID → a.getSeqNum < b.getSeqNum) ∧
    (set.sortForApply env sha256).Pairwise (fun a b =>
      turnOf (set.transactions.map (·.tx)) a.tx ≤ turnOf (set.transactions.map (·.tx)) b.tx) ∧
    ∀ (env₁ : Environment) (set₁ : TxSetFrame), env₁.network = env.network →
      set₁.previousLedgerHash = set.previousLedgerHash →
      (set₁.transactions.map (·.tx)).Perm (set.transactions.map (·.tx)) →
      (set₁.sortForApply env₁ sha256).map (·.tx) = (set.sortForApply env sha256).map (·.tx) := by
  have hverdict : set.verdict env lcl offsets = .ok true := by
    unfold TxSetFrame.checkValid TxSetFrame.remembered at hvalid
    rw [hfresh] at hvalid
    obtain ⟨valid, hverdict, hres⟩ := bind_eq_ok.mp hvalid
    cases hres
    exact hverdict
  have hdistinct := distinctSeqNums_of_verdict hverdict hseq
  obtain ⟨hperm, hplaces⟩ := @sortForApply_places env sha256 set hdistinct
  have hturns := hplaces.imp fun hle => Prod.Lex.monotone_fst _ _ hle
  refine ⟨hperm, ?_, hturns, fun env₁ set₁ hnetwork hprevious hsame => ?_⟩
  · have hout := pairwise_map.mp (hdistinct.perm (hperm.map _).symm)
    refine (hout.and hturns).imp_of_mem fun ha hb hab hsource => ?_
    by_contra hge
    refine absurd (turnOf_lt (mem_map_of_mem (hperm.mem_iff.mp hb)) hsource.symm ?_) (not_lt.mpr hab.2)
    exact lt_of_le_of_ne (not_lt.mp hge) (hab.1 hsource).symm
  · -- equal hashes are those of equal transactions, so places and orders by hash determine a list
    have hhashes : (set₁.sortForHash env₁).transactions.map (·.tx) = (set.sortForHash env).transactions.map (·.tx) := by
      have hmap : ((set₁.sortForHash env₁).transactions.map (·.tx)).Perm (set.transactions.map (·.tx)) :=
        ((perm_insertionSort _ _).map _).trans hsame
      refine eq_of_sorted_by (fun tx => tx.getFullHash env.network)
        (hmap.trans ((perm_insertionSort _ _).map _).symm)
        (fun tx htx tx' htx' => hhash tx (hmap.mem_iff.mp htx) tx' (hmap.mem_iff.mp htx'))
        (pairwise_map.mpr ?_) (pairwise_map.mpr (hashSorted_sortForHash set))
      exact hnetwork ▸ @hashSorted_sortForHash env₁ set₁
    have hcontents : set₁.getContentsHash env₁ sha256 = set.getContentsHash env sha256 := by
      unfold TxSetFrame.getContentsHash
      rw [hprevious, hhashes]
    obtain ⟨hperm₁, hplaces₁⟩ := @sortForApply_places env₁ sha256 set₁ (hdistinct.perm hsame.symm)
    have hplace : placeOf env₁.network (set₁.getContentsHash env₁ sha256) (set₁.transactions.map (·.tx)) =
        placeOf env.network (set.getContentsHash env sha256) (set.transactions.map (·.tx)) := by
      funext tx
      unfold placeOf turnOf
      rw [hcontents, hnetwork, hsame.countP_eq]
    have hmap := (hperm₁.map (·.tx)).trans hsame
    rw [hplace] at hplaces₁
    refine eq_of_sorted_by _ (hmap.trans (hperm.map _).symm) (fun tx htx tx' htx' heq => ?_)
      (pairwise_map.mpr hplaces₁) (pairwise_map.mpr hplaces)
    have hxor := congrArg (fun p => (ofLex p).2) heq
    exact hhash tx (hmap.mem_iff.mp htx) tx' (hmap.mem_iff.mp htx') (Nat.xor_left_injective.eq_iff.mp hxor)

/-- Account 1 in a ledger that has room for two operations. -/
def roomForTwo : LastClosedLedger :=
  { oneAccount with ltx.header.maxTxSetSize := 2 }

def nextTwo : TxSetFrame where
  previousLedgerHash := 7
  transactions := [⟨0, .tx (bumpTx 6 none)⟩, ⟨1, .tx (bumpTx 7 none)⟩]

theorem sortForApply_order_nextTwo :
    (nextTwo.checkValid openNetwork roomForTwo ⟨0, 0⟩).map Prod.fst = .ok true ∧
    (nextTwo.sortForApply openNetwork fun _ _ => 0).Pairwise fun a b =>
      a.getSourceID = b.getSourceID → a.getSeqNum < b.getSeqNum := by
  have hrun : (nextTwo.checkValid openNetwork roomForTwo ⟨0, 0⟩).map Prod.fst = .ok true := by decide +kernel
  obtain ⟨set', hvalid⟩ := exists_of_map_fst hrun
  refine ⟨hrun, (sortForApply_order rfl hvalid (fun id acc hacc => ?_) (fun tx htx tx' htx' hhash => ?_) _).2.1⟩
  · have hmem := AList.mem_lookup_iff.mp hacc
    rw [show roomForTwo.ltx.accounts.entries = [⟨1, _⟩] from rfl, mem_singleton] at hmem
    cases hmem
    decide
  · simp only [nextTwo, map_cons, map_nil, mem_cons, not_mem_nil, or_false] at htx htx'
    rcases htx with rfl | rfl <;> rcases htx' with rfl | rfl <;> first | rfl | exact absurd hhash (by decide)

end Diamnet.Herder
