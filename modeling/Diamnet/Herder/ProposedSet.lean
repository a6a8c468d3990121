import Diamnet.Herder.TxSetFrame
import Diamnet.Util.Grouping

/-! A node proposes no set that it would reject itself.

Both passes of `checkOrTrim` are functions of the queues (`validChain`, then a prefix of it), so
what stays of an account is a chain of transactions each valid after the one before. Surge
pricing takes a prefix of it again. In whatever order the account's transactions come next
time, the chain is found again (`Chained.of_sorted`): it is in strict order, except that where
the account is at sequence number -1 any number of transactions with number 0 are valid, each
by itself. The bids can only have become fewer. -/
namespace Diamnet.Herder
open Ledger Transactions List TransactionPtr

variable (env : Environment) (lcl : LastClosedLedger) (offsets : CloseTimeOffsets)

/-! ### The first pass -/

/-- Whether a transaction is valid after a sequence number. -/
def validAfter (lastSeq : Int) (ptr : TransactionPtr) : Bool :=
  (ptr.tx.checkValid env.network lcl.ltx lastSeq offsets.lower offsets.upper).isOk

def validChain (lastSeq : Int) : List TransactionPtr → List TransactionPtr
  | [] => []
  | ptr :: rest =>
    if validAfter env lcl offsets lastSeq ptr then ptr :: validChain ptr.getSeqNum rest else validChain lastSeq rest

def invalidOf (lastSeq : Int) : List TransactionPtr → List TransactionPtr
  | [] => []
  | ptr :: rest =>
    if validAfter env lcl offsets lastSeq ptr then invalidOf ptr.getSeqNum rest else ptr :: invalidOf lastSeq rest

/-- Each transaction is valid after the one before. -/
def ChainFrom (lastSeq : Int) : List TransactionPtr → Prop
  | [] => True
  | ptr :: rest => validAfter env lcl offsets lastSeq ptr = true ∧ ChainFrom ptr.getSeqNum rest

/-- A check may stop at an account whose balance cannot be computed. -/
def StopsBroken (stop : CheckStop) : Prop := ∃ fault, stop = .fault fault ∧ BrokenBalance lcl.ltx fault

def removeAll (set : TxSetFrame) (removed : List TransactionPtr) : TxSetFrame := removed.foldl TxSetFrame.removeTx set

variable {env lcl offsets}

variable {lastSeq : Int} {ptr : TransactionPtr}

theorem checkValid_of_validAfter (h : validAfter env lcl offsets lastSeq ptr = true) :
    ptr.tx.checkValid env.network lcl.ltx lastSeq offsets.lower offsets.upper = .ok () := by
  unfold validAfter at h
  cases hrun : ptr.tx.checkValid env.network lcl.ltx lastSeq offsets.lower offsets.upper with
  | ok _ => rfl
  | error failure =>
    rw [hrun] at h
    cases h

theorem validAfter_valid (h : validAfter env lcl offsets lastSeq ptr = true) : ptr.tx.Valid lcl.ltx lastSeq :=
  (ptr.tx.meets_checkValid env.network lcl.ltx lastSeq offsets.lower offsets.upper).of_ok (checkValid_of_validAfter h)

theorem perm_validChain (lastSeq : Int) (queue : List TransactionPtr) :
    queue.Perm (validChain env lcl offsets lastSeq queue ++ invalidOf env lcl offsets lastSeq queue) := by
  induction queue generalizing lastSeq with
  | nil => exact .nil
  | cons ptr rest ih =>
    unfold validChain invalidOf
    by_cases h : validAfter env lcl offsets lastSeq ptr = true
    · rw [if_pos h, if_pos h]
      exact (ih _).cons ptr
    · rw [if_neg h, if_neg h]
      exact ((ih _).cons ptr).trans perm_middle.symm

theorem validChain_sublist (lastSeq : Int) (queue : List TransactionPtr) :
    (validChain env lcl offsets lastSeq queue).Sublist queue := by
  induction queue generalizing lastSeq with
  | nil => exact .slnil
  | cons ptr rest ih =>
    unfold validChain
    split
    · exact (ih _).cons_cons ptr
    · exact (ih _).cons ptr

theorem chainFrom_validChain (lastSeq : Int) (queue : List TransactionPtr) :
    ChainFrom env lcl offsets lastSeq (validChain env lcl offsets lastSeq queue) := by
  induction queue generalizing lastSeq with
  | nil => trivial
  | cons ptr rest ih =>
    unfold validChain
    split
    · exact ⟨‹_›, ih _⟩
    · exact ih _

variable {queue : List TransactionPtr}

theorem ChainFrom.valid (h : ChainFrom env lcl offsets lastSeq queue) :
    ∀ ptr ∈ queue, ∃ lastSeq, validAfter env lcl offsets lastSeq ptr = true := by
  induction queue generalizing lastSeq with
  | nil => exact fun _ hptr => (nomatch hptr)
  | cons ptr rest ih => exact forall_mem_cons.mpr ⟨⟨lastSeq, h.1⟩, ih h.2⟩

theorem ChainFrom.of_append {rest : List TransactionPtr} (h : ChainFrom env lcl offsets lastSeq (queue ++ rest)) :
    ChainFrom env lcl offsets lastSeq queue := by
  induction queue generalizing lastSeq with
  | nil => trivial
  | cons ptr queue ih => exact ⟨h.1, ih h.2⟩

theorem checkQueue_trim (lastSeq : Int) (queue : List TransactionPtr) (s : Trim) :
    Meets (checkQueue env lcl offsets false lastSeq queue s)
      (fun r => r.1 = validChain env lcl offsets lastSeq queue ∧
        r.2 = ⟨removeAll s.set (invalidOf env lcl offsets lastSeq queue),
          s.trimmed ++ invalidOf env lcl offsets lastSeq queue,
          (validChain env lcl offsets lastSeq queue).foldl addFee s.accountFeeMap⟩)
      (StopsBroken lcl) := by
  induction queue generalizing lastSeq s with
  | nil => exact ⟨rfl, by simp [validChain, invalidOf, removeAll]⟩
  | cons ptr rest ih =>
    have hmeets := ptr.tx.meets_checkValid env.network lcl.ltx lastSeq offsets.lower offsets.upper
    unfold checkQueue validChain invalidOf
    cases hrun : ptr.tx.checkValid env.network lcl.ltx lastSeq offsets.lower offsets.upper with
    | ok _ =>
      have hvalid : validAfter env lcl offsets lastSeq ptr = true := by
        unfold validAfter
        rw [hrun]
        rfl
      rw [if_pos hvalid, if_pos hvalid]
      refine (ih ptr.getSeqNum (s.charge ptr)).bind ?_
      rintro ⟨queue, s'⟩ ⟨rfl, rfl⟩
      exact ⟨rfl, rfl⟩
    | error failure =>
      have hinvalid : ¬validAfter env lcl offsets lastSeq ptr = true := by
        unfold validAfter
        rw [hrun]
        exact Bool.false_ne_true
      rw [if_neg hinvalid, if_neg hinvalid]
      cases failure with
      | result code =>
        refine (ih lastSeq (s.remove ptr)).mono ?_ fun _ h => h
        rintro ⟨queue, s'⟩ ⟨rfl, rfl⟩
        exact ⟨rfl, by simp [Trim.remove, removeAll]⟩
      | fault f => exact ⟨f, rfl, hmeets.of_error hrun f rfl⟩

theorem checkQueue_chain (h : ChainFrom env lcl offsets lastSeq queue) (justCheck : Bool) (s : Trim) :
    checkQueue env lcl offsets justCheck lastSeq queue s =
      .ok (queue, { s with accountFeeMap := queue.foldl addFee s.accountFeeMap }) := by
  induction queue generalizing lastSeq s with
  | nil => rfl
  | cons ptr rest ih =>
    obtain ⟨hvalid, hrest⟩ := h
    unfold validAfter at hvalid
    unfold checkQueue
    cases hrun : ptr.tx.checkValid env.network lcl.ltx lastSeq offsets.lower offsets.upper with
    | ok _ => simp only [ih hrest, ok_bind, Trim.charge, foldl_cons]; rfl
    | error failure =>
      rw [hrun] at hvalid
      cases hvalid

variable {s : Trim}

theorem chainFrom_of_checkQueue {r : List TransactionPtr × Trim}
    (h : checkQueue env lcl offsets true lastSeq queue s = .ok r) : ChainFrom env lcl offsets lastSeq queue := by
  induction queue generalizing lastSeq s r with
  | nil => trivial
  | cons ptr rest ih =>
    unfold checkQueue at h
    cases hrun : ptr.tx.checkValid env.network lcl.ltx lastSeq offsets.lower offsets.upper with
    | error failure =>
      rw [hrun] at h
      cases failure <;> cases h
    | ok _ =>
      rw [hrun] at h
      obtain ⟨r', hrest, -⟩ := bind_eq_ok.mp h
      refine ⟨?_, ih hrest⟩
      unfold validAfter
      rw [hrun]
      rfl

theorem checkQueues_trim (queues : List (List TransactionPtr)) (s : Trim) :
    Meets (checkQueues env lcl offsets false queues s)
      (fun r => r.1 = queues.map (validChain env lcl offsets 0) ∧
        r.2 = ⟨removeAll s.set (queues.flatMap (invalidOf env lcl offsets 0)),
          s.trimmed ++ queues.flatMap (invalidOf env lcl offsets 0),
          (queues.flatMap (validChain env lcl offsets 0)).foldl addFee s.accountFeeMap⟩)
      (StopsBroken lcl) := by
  induction queues generalizing s with
  | nil => exact ⟨rfl, by simp [removeAll]⟩
  | cons queue queues ih =>
    refine (checkQueue_trim 0 queue s).bind ?_
    rintro ⟨queue', s'⟩ ⟨rfl, rfl⟩
    refine (ih _).bind ?_
    rintro ⟨queues', s''⟩ ⟨rfl, rfl⟩
    exact ⟨rfl, by simp [removeAll]⟩

variable {queues : List (List TransactionPtr)}

theorem checkQueues_chain (h : ∀ queue ∈ queues, ChainFrom env lcl offsets 0 queue) (justCheck : Bool) (s : Trim) :
    checkQueues env lcl offsets justCheck queues s =
      .ok (queues, { s with accountFeeMap := queues.flatten.foldl addFee s.accountFeeMap }) := by
  induction queues generalizing s with
  | nil => rfl
  | cons queue queues ih =>
    obtain ⟨hqueue, hqueues⟩ := forall_mem_cons.mp h
    unfold checkQueues
    simp only [checkQueue_chain hqueue, ih hqueues, ok_bind, flatten_cons, foldl_append]
    rfl

theorem chainFrom_of_checkQueues {r : List (List TransactionPtr) × Trim}
    (h : checkQueues env lcl offsets true queues s = .ok r) :
    ∀ queue ∈ queues, ChainFrom env lcl offsets 0 queue := by
  induction queues generalizing s r with
  | nil => exact fun _ hqueue => (nomatch hqueue)
  | cons queue queues ih =>
    obtain ⟨r', hqueue, hrest⟩ := bind_eq_ok.mp h
    obtain ⟨r'', hqueues, -⟩ := bind_eq_ok.mp hrest
    exact forall_mem_cons.mpr ⟨chainFrom_of_checkQueue hqueue, ih hqueues⟩

variable {set : TxSetFrame}

/-- A set that is found valid follows the last closed ledger, and its queues are chains. -/
theorem chainFrom_of_verdict (h : set.verdict env lcl offsets = .ok true) :
    set.previousLedgerHash = lcl.hash ∧
      ∀ queue ∈ buildAccountTxQueues env set.transactions, ChainFrom env lcl offsets 0 queue := by
  unfold TxSetFrame.verdict at h
  split at h
  · cases h
  next hhash =>
    split at h
    · cases h
    split at h
    · cases h
    cases hcheck : checkOrTrim env lcl offsets true set with
    | error stop =>
      rw [hcheck] at h
      cases stop <;> cases h
    | ok s =>
      obtain ⟨r, hqueues, -⟩ := bind_eq_ok.mp hcheck
      exact ⟨(not_not.mp hhash).symm, chainFrom_of_checkQueues hqueues⟩

/-! ### The second pass -/

variable (lcl)

def affords (accountFeeMap : AccountID → Int) (ptr : TransactionPtr) : Bool :=
  match feeSourceBalance lcl ptr.getFeeSourceID with
  | .ok available => accountFeeMap ptr.getFeeSourceID ≤ available
  | .error _ => false

variable {lcl}

section
variable {id : AccountID}

theorem feeSourceBalance_of_canPay {bid : Int} (h : CanPay lcl.ltx id bid) :
    ∃ available, feeSourceBalance lcl id = .ok available := by
  obtain ⟨acc, available, hacc, havailable, -⟩ := h
  refine ⟨available, ?_⟩
  unfold feeSourceBalance
  rw [hacc]
  simp only [havailable]
  rfl

/-- The second pass over a queue that is trimmed keeps what comes before the first fee that cannot
be paid. -/
theorem checkFees_trim (h : ∀ ptr ∈ queue, CanPay lcl.ltx ptr.getFeeSourceID ptr.getFeeBid) (s : Trim) :
    checkFees lcl false queue s =
      .ok ⟨removeAll s.set (queue.dropWhile (affords lcl s.accountFeeMap)),
        s.trimmed ++ queue.dropWhile (affords lcl s.accountFeeMap), s.accountFeeMap⟩ := by
  have hremove : ∀ (l : List TransactionPtr) (s : Trim), l.foldl Trim.remove s =
      ⟨removeAll s.set l, s.trimmed ++ l, s.accountFeeMap⟩ := by
    intro l
    induction l with
    | nil => intro s; simp [removeAll]
    | cons ptr l ih =>
      intro s
      rw [foldl_cons, ih]
      simp [Trim.remove, removeAll]
  induction queue with
  | nil => simp [checkFees, removeAll, pure, Except.pure]
  | cons ptr rest ih =>
    obtain ⟨hptr, hrest⟩ := forall_mem_cons.mp h
    obtain ⟨available, havailable⟩ := feeSourceBalance_of_canPay hptr
    have haffords : affords lcl s.accountFeeMap ptr = decide (s.accountFeeMap ptr.getFeeSourceID ≤ available) := by
      unfold affords
      rw [havailable]
    unfold checkFees
    rw [havailable, ok_bind]
    by_cases hpay : available < s.accountFeeMap ptr.getFeeSourceID
    · rw [if_pos hpay, if_neg Bool.false_ne_true, dropWhile_cons_of_neg (by simpa [haffords] using hpay), hremove]
      rfl
    · rw [if_neg hpay, dropWhile_cons_of_pos (by simpa [haffords] using hpay), ih hrest]

theorem checkFees_pass (h : ∀ ptr ∈ queue, affords lcl s.accountFeeMap ptr = true) (justCheck : Bool) :
    checkFees lcl justCheck queue s = .ok s := by
  induction queue with
  | nil => rfl
  | cons ptr rest ih =>
    obtain ⟨hptr, hrest⟩ := forall_mem_cons.mp h
    unfold affords at hptr
    unfold checkFees
    cases havailable : feeSourceBalance lcl ptr.getFeeSourceID with
    | ok available =>
      rw [havailable] at hptr
      rw [ok_bind, if_neg (not_lt.mpr (of_decide_eq_true hptr)), ih hrest]
    | error stop =>
      rw [havailable] at hptr
      cases hptr

theorem foldlM_checkFees_trim (h : ∀ queue ∈ queues, ∀ ptr ∈ queue, CanPay lcl.ltx ptr.getFeeSourceID ptr.getFeeBid)
    (s : Trim) :
    queues.foldlM (fun s queue => checkFees lcl false queue s) s =
      .ok ⟨removeAll s.set (queues.flatMap fun queue => queue.dropWhile (affords lcl s.accountFeeMap)),
        s.trimmed ++ queues.flatMap fun queue => queue.dropWhile (affords lcl s.accountFeeMap), s.accountFeeMap⟩ := by
  induction queues generalizing s with
  | nil => simp [removeAll, pure, Except.pure]
  | cons queue queues ih =>
    obtain ⟨hqueue, hqueues⟩ := forall_mem_cons.mp h
    rw [foldlM_cons, checkFees_trim hqueue, ok_bind, ih hqueues]
    simp [removeAll]

theorem foldlM_checkFees_pass (h : ∀ queue ∈ queues, ∀ ptr ∈ queue, affords lcl s.accountFeeMap ptr = true)
    (justCheck : Bool) : queues.foldlM (fun s queue => checkFees lcl justCheck queue s) s = .ok s := by
  induction queues with
  | nil => rfl
  | cons queue queues ih =>
    obtain ⟨hqueue, hqueues⟩ := forall_mem_cons.mp h
    rw [foldlM_cons, checkFees_pass hqueue, ok_bind, ih hqueues]

/-! ### Queues -/

def SeqSorted (queue : List TransactionPtr) : Prop := queue.Pairwise fun a b => a.getSeqNum ≤ b.getSeqNum

theorem accountTxQueue_perm (txs : List TransactionPtr) (id : AccountID) :
    (accountTxQueue env txs id).Perm (withKey getSourceID id txs) :=
  (perm_insertionSort _ _).trans (withKey_perm (env.arrange_perm txs) id)

theorem accountTxQueue_sorted (txs : List TransactionPtr) (id : AccountID) : SeqSorted (accountTxQueue env txs id) :=
  pairwise_insertionSort_key getSeqNum _

variable {txs : List TransactionPtr}

theorem source_of_mem_accountTxQueue : ∀ ptr ∈ accountTxQueue env txs id, ptr.getSourceID = id :=
  fun _ hptr => (mem_withKey.mp ((accountTxQueue_perm txs id).mem_iff.mp hptr)).2

theorem nodup_accountIDs (txs : List TransactionPtr) : (accountIDs env txs).Nodup := nodup_dedup _

theorem mem_accountIDs (h : ptr ∈ txs) : ptr.getSourceID ∈ accountIDs env txs :=
  mem_dedup.mpr (mem_map_of_mem ((env.arrange_perm txs).mem_iff.mpr h))

theorem flatMap_accountTxQueue_perm (txs : List TransactionPtr) :
    ((accountIDs env txs).flatMap (accountTxQueue env txs)).Perm txs :=
  (Perm.flatMap_left _ fun id _ => accountTxQueue_perm txs id).trans
    (flatMap_withKey_perm _ (nodup_accountIDs txs) fun _ hptr => mem_accountIDs hptr)

/-! ### Chains in any order -/

variable (env lcl offsets)

/-- The transactions of an account that make a chain in some order by sequence number. -/
def Chained (txs : List TransactionPtr) : Prop :=
  ∃ queue, queue.Perm txs ∧ SeqSorted queue ∧ ChainFrom env lcl offsets 0 queue

variable {env lcl offsets}

variable {acc : AccountEntry}

theorem seqNum_of_validAfter (h : validAfter env lcl offsets lastSeq ptr = true)
    (hacc : lcl.ltx.accounts.lookup ptr.getSourceID = some acc) :
    ptr.getSeqNum = (if lastSeq = 0 then acc.seqNum else lastSeq) + 1 := by
  obtain ⟨acc', hacc', -, hnext⟩ := (validAfter_valid h).next
  rw [show ptr.tx.getSourceID = ptr.getSourceID from rfl, hacc] at hacc'
  cases hacc'
  exact hnext.symm

/-- Past the first transaction a chain is in strict order, unless it starts at zero. -/
theorem ChainFrom.strict (h : ChainFrom env lcl offsets lastSeq queue) (hsorted : SeqSorted queue)
    (hlast : ∀ ptr ∈ queue, lastSeq ≤ ptr.getSeqNum) (hacc : lcl.ltx.accounts.lookup id = some acc)
    (hid : ∀ ptr ∈ queue, ptr.getSourceID = id) (hle : acc.seqNum + 1 ≤ lastSeq)
    (hzero : lastSeq = 0 → acc.seqNum + 1 ≠ 0) :
    (∀ ptr ∈ queue, lastSeq < ptr.getSeqNum) ∧ queue.Pairwise fun a b => a.getSeqNum < b.getSeqNum := by
  induction queue generalizing lastSeq with
  | nil => exact ⟨fun _ hptr => (nomatch hptr), .nil⟩
  | cons ptr rest ih =>
    obtain ⟨hvalid, hrest⟩ := h
    obtain ⟨hfirst, hsorted⟩ := pairwise_cons.mp hsorted
    obtain ⟨hidptr, hid⟩ := forall_mem_cons.mp hid
    have hseq := seqNum_of_validAfter hvalid (hidptr ▸ hacc)
    have hlt : lastSeq < ptr.getSeqNum := by
      have := hlast ptr (.head _)
      by_cases h0 : lastSeq = 0
      · omega
      · omega
    have hnext : ptr.getSeqNum = 0 → acc.seqNum + 1 ≠ 0 := fun h => by omega
    obtain ⟨hall, hstrict⟩ := ih hrest hsorted hfirst hid (by omega) hnext
    exact ⟨forall_mem_cons.mpr ⟨hlt, fun q hq => hlt.trans (hall q hq)⟩, pairwise_cons.mpr ⟨hall, hstrict⟩⟩

theorem ChainFrom.zeros (h : ChainFrom env lcl offsets 0 queue) (hacc : lcl.ltx.accounts.lookup id = some acc)
    (hid : ∀ ptr ∈ queue, ptr.getSourceID = id) (hzero : acc.seqNum + 1 = 0) :
    ∀ ptr ∈ queue, ptr.getSeqNum = 0 ∧ validAfter env lcl offsets 0 ptr = true := by
  induction queue with
  | nil => exact fun _ hptr => (nomatch hptr)
  | cons ptr rest ih =>
    obtain ⟨hidptr, hid⟩ := forall_mem_cons.mp hid
    have hseq : ptr.getSeqNum = 0 := (seqNum_of_validAfter h.1 (hidptr ▸ hacc)).trans hzero
    have hrest := h.2
    rw [hseq] at hrest
    exact forall_mem_cons.mpr ⟨⟨hseq, h.1⟩, ih hrest hid⟩

theorem chainFrom_zeros (h : ∀ ptr ∈ queue, ptr.getSeqNum = 0 ∧ validAfter env lcl offsets 0 ptr = true) :
    ChainFrom env lcl offsets 0 queue := by
  induction queue with
  | nil => trivial
  | cons ptr rest ih =>
    obtain ⟨hptr, hrest⟩ := forall_mem_cons.mp h
    refine ⟨hptr.2, ?_⟩
    rw [hptr.1]
    exact ih hrest

/-- **A chain is a chain in whatever order it comes.** -/
theorem Chained.of_sorted (h : Chained env lcl offsets txs) (hid : ∀ ptr ∈ txs, ptr.getSourceID = id)
    (hperm : queue.Perm txs) (hsorted : SeqSorted queue) : ChainFrom env lcl offsets 0 queue := by
  obtain ⟨chain, hchainPerm, hchainSorted, hchain⟩ := h
  have hidChain : ∀ ptr ∈ chain, ptr.getSourceID = id := fun ptr hptr => hid ptr (hchainPerm.mem_iff.mp hptr)
  have hqueue := hperm.trans hchainPerm.symm
  cases chain with
  | nil =>
    rw [hqueue.eq_nil]
    trivial
  | cons first rest =>
    obtain ⟨acc, hacc, -⟩ := (validAfter_valid hchain.1).next
    have hacc : lcl.ltx.accounts.lookup id = some acc := hidChain first (.head _) ▸ hacc
    by_cases hzero : acc.seqNum + 1 = 0
    · have hzeros := hchain.zeros hacc hidChain hzero
      exact chainFrom_zeros fun ptr hptr => hzeros ptr (hqueue.mem_iff.mp hptr)
    · obtain ⟨hfirst, hrestSorted⟩ := pairwise_cons.mp hchainSorted
      obtain ⟨hidFirst, hidRest⟩ := forall_mem_cons.mp hidChain
      have hseq : first.getSeqNum = acc.seqNum + 1 := seqNum_of_validAfter hchain.1 (hidFirst ▸ hacc)
      obtain ⟨hall, hstrict⟩ := hchain.2.strict hrestSorted hfirst hacc hidRest hseq.ge fun h => by omega
      have heq := eq_of_perm_of_strict (pairwise_cons.mpr ⟨hall, hstrict⟩) hsorted hqueue
      rw [heq]
      exact hchain

theorem Chained.of_isPrefix {part : List TransactionPtr} (h : Chained env lcl offsets txs)
    (hid : ∀ ptr ∈ txs, ptr.getSourceID = id) (hperm : queue.Perm txs) (hsorted : SeqSorted queue)
    (hpart : part <+: queue) : Chained env lcl offsets part := by
  have hchain := h.of_sorted hid hperm hsorted
  obtain ⟨rest, rfl⟩ := hpart
  exact ⟨part, .refl part, hsorted.sublist (sublist_append_left _ _), hchain.of_append⟩

variable {txs' : List TransactionPtr}

theorem Chained.perm (h : Chained env lcl offsets txs) (hperm : txs.Perm txs') : Chained env lcl offsets txs' := by
  obtain ⟨queue, hqueue, hsorted, hchain⟩ := h
  exact ⟨queue, hqueue.trans hperm, hsorted, hchain⟩

/-! ### Bids -/

def bidsOf (id : AccountID) (txs : List TransactionPtr) : Int :=
  (txs.map fun ptr => if ptr.getFeeSourceID = id then ptr.getFeeBid else 0).sum

theorem addFee_eq (m : AccountID → Int) (ptr : TransactionPtr) (id : AccountID) (hm : m id ≤ INT64_MAX) :
    addFee m ptr id = min INT64_MAX (m id + if ptr.getFeeSourceID = id then ptr.getFeeBid else 0) := by
  unfold addFee
  by_cases hid : ptr.getFeeSourceID = id
  · subst hid
    rw [Function.update_self, if_pos rfl]
    split <;> omega
  · rw [Function.update_of_ne (Ne.symm hid), if_neg hid, add_zero, min_eq_right hm]

theorem foldl_addFee_eq (hbids : ∀ ptr ∈ txs, 0 ≤ ptr.getFeeBid) (m : AccountID → Int) (id : AccountID)
    (hm : m id ≤ INT64_MAX) : txs.foldl addFee m id = min INT64_MAX (m id + bidsOf id txs) := by
  induction txs generalizing m with
  | nil => simp [bidsOf, min_eq_right hm]
  | cons ptr rest ih =>
    obtain ⟨hptr, hrest⟩ := forall_mem_cons.mp hbids
    have hstep := addFee_eq m ptr id hm
    rw [foldl_cons, ih hrest _ (hstep ▸ min_le_left _ _), hstep]
    have hsum : 0 ≤ bidsOf id rest := by
      refine sum_nonneg fun x hx => ?_
      obtain ⟨a, ha, rfl⟩ := mem_map.mp hx
      split
      · exact hrest a ha
      · exact le_rfl
    simp only [bidsOf, map_cons, sum_cons] at hsum ⊢
    omega

theorem bidsOf_le (h : txs.Subperm txs') (hbids : ∀ ptr ∈ txs', 0 ≤ ptr.getFeeBid) (id : AccountID) :
    bidsOf id txs ≤ bidsOf id txs' := by
  refine sum_map_le_of_subperm h fun ptr hptr => ?_
  split
  · exact hbids ptr hptr
  · exact le_rfl

theorem affords_mono {m m' : AccountID → Int} (h : affords lcl m ptr = true)
    (hle : m' ptr.getFeeSourceID ≤ m ptr.getFeeSourceID) : affords lcl m' ptr = true := by
  unfold affords at h ⊢
  cases hbalance : feeSourceBalance lcl ptr.getFeeSourceID with
  | ok available =>
    rw [hbalance] at h
    exact decide_eq_true (hle.trans (of_decide_eq_true h))
  | error stop =>
    rw [hbalance] at h
    cases h

/-! ### Sets that pass -/

variable (env lcl offsets)

/-- What passes both checks. -/
structure Acceptable (txs : List TransactionPtr) : Prop where
  chained : ∀ id, Chained env lcl offsets (withKey getSourceID id txs)
  affords : ∀ ptr ∈ txs, affords lcl (txs.foldl addFee fun _ => 0) ptr = true

variable {env lcl offsets}

theorem INT64_MAX_nonneg : (0 : Int) ≤ INT64_MAX := by decide

theorem feeBid_nonneg_of_chained (h : ∀ id, Chained env lcl offsets (withKey getSourceID id txs)) :
    ∀ ptr ∈ txs, 0 ≤ ptr.getFeeBid := by
  intro ptr hptr
  obtain ⟨queue, hqueue, -, hchain⟩ := h ptr.getSourceID
  obtain ⟨lastSeq, hvalid⟩ := hchain.valid ptr (hqueue.mem_iff.mpr (mem_withKey.mpr ⟨hptr, rfl⟩))
  exact (validAfter_valid hvalid).feeBid_nonneg

theorem foldl_addFee_le (h : txs.Subperm txs') (hbids : ∀ ptr ∈ txs', 0 ≤ ptr.getFeeBid) (id : AccountID) :
    (txs.foldl addFee fun _ => 0) id ≤ (txs'.foldl addFee fun _ => 0) id := by
  rw [foldl_addFee_eq (fun ptr hptr => hbids ptr (h.subset hptr)) (fun _ => 0) id INT64_MAX_nonneg,
    foldl_addFee_eq hbids (fun _ => 0) id INT64_MAX_nonneg]
  have := bidsOf_le h hbids id
  omega

/-- **A set of chains whose fees can be paid is accepted.** -/
theorem Acceptable.checkOrTrim (h : Acceptable env lcl offsets set.transactions) :
    ∃ s, checkOrTrim env lcl offsets true set = .ok s := by
  have hbids := feeBid_nonneg_of_chained h.chained
  have hperm := @flatMap_accountTxQueue_perm env set.transactions
  have hqueues : ∀ queue ∈ buildAccountTxQueues env set.transactions, ChainFrom env lcl offsets 0 queue := by
    intro queue hqueue
    obtain ⟨id, -, rfl⟩ := mem_map.mp hqueue
    exact (h.chained id).of_sorted (fun ptr hptr => (mem_withKey.mp hptr).2) (accountTxQueue_perm _ _)
      (accountTxQueue_sorted _ _)
  unfold Herder.checkOrTrim
  rw [checkQueues_chain hqueues, ok_bind]
  refine ⟨_, foldlM_checkFees_pass ?_ _⟩
  intro queue hqueue ptr hptr
  have hmem : ptr ∈ set.transactions := by
    obtain ⟨id, -, rfl⟩ := mem_map.mp hqueue
    exact (mem_withKey.mp ((accountTxQueue_perm _ id).mem_iff.mp hptr)).1
  refine affords_mono (h.affords ptr hmem) ?_
  exact foldl_addFee_le hperm.subperm hbids _

theorem Acceptable.part {part : List TransactionPtr} (h : Acceptable env lcl offsets txs) (hpart : part.Subperm txs)
    (hchained : ∀ id, Chained env lcl offsets (withKey getSourceID id part)) :
    Acceptable env lcl offsets part :=
  ⟨hchained, fun ptr hptr => affords_mono (h.affords ptr (hpart.subset hptr))
    (foldl_addFee_le hpart (feeBid_nonneg_of_chained h.chained) _)⟩

/-! ### What trimming leaves -/

variable (env lcl offsets)

def countedBids (txs : List TransactionPtr) : AccountID → Int :=
  ((buildAccountTxQueues env txs).flatMap (validChain env lcl offsets 0)).foldl addFee fun _ => 0

def keptQueue (txs : List TransactionPtr) (id : AccountID) : List TransactionPtr :=
  (validChain env lcl offsets 0 (accountTxQueue env txs id)).takeWhile (affords lcl (countedBids env lcl offsets txs))

def keptTxs (txs : List TransactionPtr) : List TransactionPtr := (accountIDs env txs).flatMap (keptQueue env lcl offsets txs)

def trimmedTxs (txs : List TransactionPtr) : List TransactionPtr :=
  (buildAccountTxQueues env txs).flatMap (invalidOf env lcl offsets 0) ++
    ((buildAccountTxQueues env txs).map (validChain env lcl offsets 0)).flatMap fun queue =>
      queue.dropWhile (affords lcl (countedBids env lcl offsets txs))

variable {env lcl offsets}

theorem checkOrTrim_trim (set : TxSetFrame) :
    Meets (checkOrTrim env lcl offsets false set)
      (fun s => s.set = removeAll set (trimmedTxs env lcl offsets set.transactions) ∧
        s.trimmed = trimmedTxs env lcl offsets set.transactions) (StopsBroken lcl) := by
  refine (checkQueues_trim _ _).bind ?_
  rintro ⟨queues, s⟩ ⟨rfl, rfl⟩
  dsimp only
  rw [foldlM_checkFees_trim]
  · exact ⟨by simp only [removeAll, trimmedTxs, countedBids, foldl_append], by simp [trimmedTxs, countedBids]⟩
  · intro queue hqueue ptr hptr
    obtain ⟨queue', -, rfl⟩ := mem_map.mp hqueue
    obtain ⟨lastSeq, hvalid⟩ := (chainFrom_validChain 0 queue').valid ptr hptr
    exact (validAfter_valid hvalid).canPay

theorem perm_keptTxs (txs : List TransactionPtr) : txs.Perm (keptTxs env lcl offsets txs ++ trimmedTxs env lcl offsets txs) := by
  have hqueue : ∀ id ∈ accountIDs env txs, (accountTxQueue env txs id).Perm
      (keptQueue env lcl offsets txs id ++ (invalidOf env lcl offsets 0 (accountTxQueue env txs id) ++
        (validChain env lcl offsets 0 (accountTxQueue env txs id)).dropWhile
          (affords lcl (countedBids env lcl offsets txs)))) := by
    intro id _
    refine (@perm_validChain env lcl offsets 0 _).trans ?_
    have hsplit := takeWhile_append_dropWhile (p := affords lcl (countedBids env lcl offsets txs))
      (l := validChain env lcl offsets 0 (accountTxQueue env txs id))
    conv_lhs => rw [← hsplit]
    rw [append_assoc]
    exact perm_append_comm.append_left _
  have hall := (@flatMap_accountTxQueue_perm env txs).symm.trans (Perm.flatMap_left _ hqueue)
  refine hall.trans ((flatMap_append_perm _ _ _).symm.trans (Perm.append_left _ ?_))
  refine (flatMap_append_perm _ _ _).symm.trans ?_
  unfold trimmedTxs buildAccountTxQueues
  rw [flatMap_map, map_map, flatMap_map]
  exact .refl _

theorem acceptable_keptTxs (txs : List TransactionPtr) : Acceptable env lcl offsets (keptTxs env lcl offsets txs) := by
  have hmem : ∀ {id : AccountID} {ptr : TransactionPtr}, ptr ∈ keptQueue env lcl offsets txs id →
      ptr ∈ validChain env lcl offsets 0 (accountTxQueue env txs id) :=
    fun hptr => (takeWhile_sublist _).mem hptr
  have hsource : ∀ id, ∀ ptr ∈ keptQueue env lcl offsets txs id, ptr.getSourceID = id := fun id ptr hptr =>
    source_of_mem_accountTxQueue ptr ((validChain_sublist 0 _).mem (hmem hptr))
  have hchained : ∀ id, Chained env lcl offsets (withKey getSourceID id (keptTxs env lcl offsets txs)) := by
    intro id
    rw [keptTxs, withKey_flatMap (nodup_accountIDs txs) hsource]
    split
    · refine ⟨keptQueue env lcl offsets txs id, .refl _, ?_, ?_⟩
      · exact (accountTxQueue_sorted txs id).sublist ((takeWhile_sublist _).trans (validChain_sublist 0 _))
      · obtain ⟨rest, hrest⟩ := takeWhile_prefix (affords lcl (countedBids env lcl offsets txs))
          (l := validChain env lcl offsets 0 (accountTxQueue env txs id))
        have hchain := @chainFrom_validChain env lcl offsets 0 (accountTxQueue env txs id)
        rw [← hrest] at hchain
        exact hchain.of_append
    · exact ⟨[], .refl _, .nil, trivial⟩
  refine ⟨hchained, fun ptr hptr => ?_⟩
  obtain ⟨id, hid, hptr⟩ := mem_flatMap.mp hptr
  refine affords_mono (mem_takeWhile_imp hptr) ?_
  refine foldl_addFee_le ?_ ?_ _
  · unfold keptTxs buildAccountTxQueues
    rw [flatMap_map]
    exact (Sublist.flatMap_right _ fun id _ => takeWhile_sublist _).subperm
  · intro ptr' hptr'
    obtain ⟨queue, -, hptr'⟩ := mem_flatMap.mp hptr'
    obtain ⟨lastSeq, hvalid⟩ := (chainFrom_validChain 0 queue).valid ptr' hptr'
    exact (validAfter_valid hvalid).feeBid_nonneg

theorem transactions_removeAll (set : TxSetFrame) (removed : List TransactionPtr) :
    (removeAll set removed).transactions =
      removed.foldl (fun txs ptr => txs.eraseP fun ptr' => ptr'.address = ptr.address) set.transactions := by
  induction removed generalizing set with
  | nil => rfl
  | cons ptr removed ih => exact ih _

theorem previousLedgerHash_removeAll (set : TxSetFrame) (removed : List TransactionPtr) :
    (removeAll set removed).previousLedgerHash = set.previousLedgerHash := by
  induction removed generalizing set with
  | nil => rfl
  | cons ptr removed ih => exact ih _

theorem valid_removeAll (h : set.valid = none) (removed : List TransactionPtr) :
    (removeAll set removed).valid = none := by
  induction removed generalizing set with
  | nil => exact h
  | cons ptr removed ih => exact ih rfl

variable (env)

def HashSorted (txs : List TransactionPtr) : Prop := txs.Pairwise fun a b => getFullHash env a ≤ getFullHash env b

variable {env}

theorem hashSorted_sortForHash (set : TxSetFrame) : HashSorted env (set.sortForHash env).transactions :=
  pairwise_insertionSort_key (getFullHash env) _

theorem HashSorted.isSorted (h : HashSorted env set.transactions) : set.isSorted env = true :=
  decide_eq_true ((h.imp fun hab => not_lt.mpr hab).isChain)

variable (env lcl offsets)

/-- What `trimInvalid` leaves and removes. -/
structure Trimmed (set : TxSetFrame) (r : TxSetFrame × List TransactionPtr) : Prop where
  perm : (r.1.transactions ++ r.2).Perm set.transactions
  previousLedgerHash : r.1.previousLedgerHash = set.previousLedgerHash
  valid : r.1.valid = none
  sorted : HashSorted env r.1.transactions
  acceptable : Acceptable env lcl offsets r.1.transactions

variable {env lcl offsets}

theorem Acceptable.perm (h : Acceptable env lcl offsets txs) (hperm : txs'.Perm txs) :
    Acceptable env lcl offsets txs' :=
  h.part hperm.subperm fun id => (h.chained id).perm (withKey_perm hperm.symm id)

theorem trimInvalid_meets {set : TxSetFrame} (hdistinct : (set.transactions.map (·.address)).Nodup) :
    Meets (set.trimInvalid env lcl offsets) (Trimmed env lcl offsets set) (StopsBroken lcl) := by
  refine (checkOrTrim_trim _).bind ?_
  rintro s ⟨hset, htrimmed⟩
  set sorted := set.sortForHash env with hsorted
  have hperm : sorted.transactions.Perm set.transactions := perm_insertionSort _ _
  have hkept : s.set.transactions.Perm (keptTxs env lcl offsets sorted.transactions) := by
    rw [hset, transactions_removeAll]
    exact foldl_eraseP_perm ((hperm.map _).nodup_iff.mpr hdistinct) (perm_keptTxs _)
  constructor
  · rw [htrimmed]
    exact (hkept.append_right _).trans ((perm_keptTxs _).symm.trans hperm)
  · rw [hset, previousLedgerHash_removeAll]
    rfl
  · rw [hset]
    exact valid_removeAll rfl _
  · rw [hset, transactions_removeAll]
    exact (hashSorted_sortForHash set).sublist (foldl_eraseP_sublist _ _)
  · exact (acceptable_keptTxs _).perm hkept

/-! ### What surge pricing leaves -/

theorem popTop_perm (seed : Hash) (queue : List TransactionPtr) (queues : List (List TransactionPtr)) :
    ((popTop env seed queue queues).1 :: (popTop env seed queue queues).2).Perm (queue :: queues) := by
  induction queues generalizing queue with
  | nil => exact .refl _
  | cons next rest ih =>
    unfold popTop
    split
    · exact (Perm.swap ..).trans ((ih next).cons queue)
    · exact (Perm.swap ..).trans (((ih queue).cons next).trans (.swap ..))

theorem flatten_ite_isEmpty (rest : List TransactionPtr) (others : List (List TransactionPtr)) :
    (if rest.isEmpty then others else rest :: others).flatten = (rest :: others).flatten := by
  cases rest <;> rfl

/-- One turn of the loop: nothing is taken, or the first of a queue, or a queue is dropped. -/
theorem surgeLoop_succ (seed : Hash) (maxIsOps : Bool) (opsLeft : Nat) (queues : List (List TransactionPtr)) :
    (∀ n, surgeLoop env seed maxIsOps n opsLeft queues = []) ∨
    (∃ top others, (top :: others).Perm queues ∧
      ∀ n, surgeLoop env seed maxIsOps (n + 1) opsLeft queues = surgeLoop env seed maxIsOps n opsLeft others) ∨
    ∃ ptr rest others, ((ptr :: rest) :: others).Perm queues ∧ opsCount maxIsOps ptr ≤ opsLeft ∧
      ∀ n, surgeLoop env seed maxIsOps (n + 1) opsLeft queues =
        ptr :: surgeLoop env seed maxIsOps n (opsLeft - opsCount maxIsOps ptr)
          (if rest.isEmpty then others else rest :: others) := by
  cases queues with
  | nil => exact .inl fun n => by cases n <;> rfl
  | cons queue queues =>
    have hperm := @popTop_perm env seed queue queues
    by_cases hleft : opsLeft = 0
    · exact .inl fun n => by cases n <;> simp [surgeLoop, hleft]
    · right
      cases hpop : popTop env seed queue queues with
      | mk top others =>
        rw [hpop] at hperm
        cases top with
        | nil => exact .inl ⟨_, _, hperm, fun n => by rw [surgeLoop, if_neg hleft, hpop]⟩
        | cons ptr rest =>
          by_cases hfits : opsCount maxIsOps ptr ≤ opsLeft
          · exact .inr ⟨_, _, _, hperm, hfits, fun n => by rw [surgeLoop, if_neg hleft, hpop]; exact if_pos hfits⟩
          · exact .inl ⟨_, _, hperm, fun n => by rw [surgeLoop, if_neg hleft, hpop]; exact if_neg hfits⟩

theorem surgeLoop_size (seed : Hash) (maxIsOps : Bool) (n opsLeft : Nat) (queues : List (List TransactionPtr)) :
    ((surgeLoop env seed maxIsOps n opsLeft queues).map (opsCount maxIsOps)).sum ≤ opsLeft := by
  induction n generalizing opsLeft queues with
  | zero => exact Nat.zero_le _
  | succ n ih =>
    rcases @surgeLoop_succ env seed maxIsOps opsLeft queues with h | ⟨top, others, -, h⟩ | ⟨ptr, rest, others, -, hfits, h⟩
    · rw [h]
      exact Nat.zero_le _
    · rw [h]
      exact ih _ _
    · rw [h, map_cons, sum_cons]
      have := ih (opsLeft - opsCount maxIsOps ptr) (if rest.isEmpty then others else rest :: others)
      omega

theorem surgeLoop_subperm (seed : Hash) (maxIsOps : Bool) (n opsLeft : Nat) (queues : List (List TransactionPtr)) :
    (surgeLoop env seed maxIsOps n opsLeft queues).Subperm queues.flatten := by
  induction n generalizing opsLeft queues with
  | zero => exact nil_subperm
  | succ n ih =>
    rcases @surgeLoop_succ env seed maxIsOps opsLeft queues with h | ⟨top, others, hperm, h⟩ |
      ⟨ptr, rest, others, hperm, -, h⟩
    · rw [h]
      exact nil_subperm
    · rw [h]
      exact (ih _ _).trans ((sublist_append_right top _).subperm.trans hperm.flatten.subperm)
    · rw [h]
      refine Subperm.trans ?_ hperm.flatten.subperm
      rw [flatten_cons, cons_append, ← flatten_cons, ← flatten_ite_isEmpty]
      exact subperm_cons _ |>.mpr (ih _ _)

/-- **Of each account, surge pricing takes the first transactions.** -/
theorem surgeLoop_withKey (seed : Hash) (maxIsOps : Bool) (n opsLeft : Nat) {queues : List (List TransactionPtr)}
    (h : Separate getSourceID queues) (id : AccountID) :
    withKey getSourceID id (surgeLoop env seed maxIsOps n opsLeft queues) <+:
      withKey getSourceID id queues.flatten := by
  induction n generalizing opsLeft queues with
  | zero => exact nil_prefix
  | succ n ih =>
    rcases @surgeLoop_succ env seed maxIsOps opsLeft queues with hloop | ⟨top, others, hperm, hloop⟩ |
      ⟨ptr, rest, others, hperm, -, hloop⟩
    · rw [hloop]
      exact nil_prefix
    · have hsep := h.perm hperm.symm
      rw [hloop, ← hsep.withKey_flatten hperm]
      exact (ih _ hsep.tail).trans (hsep.withKey_tail id)
    · have hsep := h.perm hperm.symm
      have hrest := hsep.shorten (subset_cons_self ptr rest)
      have hleft : Separate getSourceID (if rest.isEmpty then others else rest :: others) := by
        split
        · exact hrest.tail
        · exact hrest
      have ih := ih (opsLeft - opsCount maxIsOps ptr) hleft
      rw [flatten_ite_isEmpty] at ih
      rw [hloop, ← hsep.withKey_flatten hperm, flatten_cons, cons_append, ← flatten_cons]
      by_cases hid : ptr.getSourceID = id
      · subst hid
        rw [withKey_cons_self, withKey_cons_self]
        exact (prefix_cons_inj ptr).mpr ih
      · rw [withKey_cons_ne hid, withKey_cons_ne hid]
        exact ih

theorem buildAccountTxQueues_separate (txs : List TransactionPtr) :
    Separate getSourceID (buildAccountTxQueues env txs) :=
  separate_map (nodup_accountIDs txs) fun _ => source_of_mem_accountTxQueue

theorem withKey_buildAccountTxQueues (txs : List TransactionPtr) (id : AccountID) :
    withKey getSourceID id (buildAccountTxQueues env txs).flatten =
      if id ∈ accountIDs env txs then accountTxQueue env txs id else [] :=
  withKey_flatMap (nodup_accountIDs txs) (fun _ => source_of_mem_accountTxQueue) id

variable (env lcl offsets)

/-- What surge pricing makes of a set. -/
structure Priced (set priced : TxSetFrame) : Prop where
  previousLedgerHash : priced.previousLedgerHash = set.previousLedgerHash
  valid : priced.valid = none
  size : priced.size lcl.ltx.header ≤ lcl.ltx.header.maxTxSetSize
  sorted : HashSorted env priced.transactions
  acceptable : Acceptable env lcl offsets priced.transactions

variable {env lcl offsets}

theorem sum_opsCount (set : TxSetFrame) (maxIsOps : Bool) :
    (set.transactions.map (opsCount maxIsOps)).sum = if maxIsOps then set.sizeOp else set.sizeTx * MAX_OPS_PER_TX := by
  cases maxIsOps with
  | true => rfl
  | false =>
    have hcount : opsCount false = fun _ => MAX_OPS_PER_TX := rfl
    simp [hcount, TxSetFrame.sizeTx]

/-- The room in the set is measured in operations or in transactions, as its size is. -/
theorem size_le_of_opsCount {lh : LedgerHeader}
    (h : (set.transactions.map (opsCount (decide (lh.ledgerVersion ≥ 11)))).sum ≤ getLastMaxTxSetSizeOps lh) :
    set.size lh ≤ lh.maxTxSetSize := by
  unfold TxSetFrame.size getLastMaxTxSetSizeOps at *
  rw [sum_opsCount] at h
  by_cases hversion : lh.ledgerVersion ≥ 11
  · rw [if_pos hversion] at h ⊢
    rw [if_pos (decide_eq_true hversion)] at h
    exact h
  · rw [if_neg hversion] at h ⊢
    rw [if_neg (by simpa using hversion)] at h
    have hmod := Nat.mod_le (lh.maxTxSetSize * MAX_OPS_PER_TX) (2 ^ 32)
    exact Nat.le_of_mul_le_mul_right (h.trans hmod) (by decide)

theorem Chained.nil : Chained env lcl offsets [] := ⟨[], .refl _, .nil, trivial⟩

theorem Acceptable.chained_surgeLoop (h : Acceptable env lcl offsets txs) (seed : Hash) (maxIsOps : Bool)
    (n opsLeft : Nat) (id : AccountID) :
    Chained env lcl offsets (withKey getSourceID id
      (surgeLoop env seed maxIsOps n opsLeft (buildAccountTxQueues env txs))) := by
  have hpart := @surgeLoop_withKey env seed maxIsOps n opsLeft _ (@buildAccountTxQueues_separate env txs) id
  rw [withKey_buildAccountTxQueues] at hpart
  split at hpart
  · exact (h.chained id).of_isPrefix (fun ptr hptr => (mem_withKey.mp hptr).2) (accountTxQueue_perm txs id)
      (accountTxQueue_sorted txs id) hpart
  · rw [prefix_nil.mp hpart]
    exact .nil

theorem surgePricingFilter_priced (seed : Hash) (hvalid : set.valid = none)
    (hsorted : HashSorted env set.transactions) (h : Acceptable env lcl offsets set.transactions) :
    Priced env lcl offsets set (set.surgePricingFilter env lcl seed) := by
  unfold TxSetFrame.surgePricingFilter
  extract_lets maxIsOps opsLeft curSizeOps
  by_cases hsurge : curSizeOps > opsLeft
  · rw [if_pos hsurge]
    set taken := surgeLoop env seed maxIsOps set.sizeTx opsLeft (buildAccountTxQueues env set.transactions)
    have hperm : (TxSetFrame.sortForHash env { set with transactions := taken }).transactions.Perm taken :=
      perm_insertionSort _ _
    have hsubperm : taken.Subperm set.transactions :=
      (surgeLoop_subperm ..).trans (flatMap_accountTxQueue_perm set.transactions).subperm
    refine ⟨rfl, rfl, size_le_of_opsCount ?_, hashSorted_sortForHash _,
      (h.part hsubperm (h.chained_surgeLoop _ _ _ _)).perm hperm⟩
    rw [(hperm.map _).sum_eq]
    exact surgeLoop_size ..
  · rw [if_neg hsurge]
    refine ⟨rfl, hvalid, size_le_of_opsCount (le_trans (le_of_eq ?_) (not_lt.mp hsurge)), hsorted, h⟩
    rw [sum_opsCount]

/-! ### The proposal -/

theorem Priced.checkValid {priced : TxSetFrame} (h : Priced env lcl offsets set priced)
    (hhash : set.previousLedgerHash = lcl.hash) :
    priced.checkValid env lcl offsets = .ok (true, { priced with valid := some (lcl.hash, true) }) := by
  obtain ⟨s, hs⟩ := h.acceptable.checkOrTrim
  have hremembered : priced.remembered lcl = none := by
    unfold TxSetFrame.remembered
    rw [h.valid]
  have hverdict : priced.verdict env lcl offsets = .ok true := by
    unfold TxSetFrame.verdict
    rw [if_neg (not_not.mpr (hhash.symm.trans h.previousLedgerHash.symm)), if_neg (not_lt.mpr h.size), h.sorted.isSorted, hs]
    rfl
  unfold TxSetFrame.checkValid
  rw [hremembered, hverdict]
  rfl

/-- **A node proposes no set that it would reject.** The only way not to propose one is that the
balance of an account of the ledger cannot be computed. All that was removed as invalid is reported. -/
theorem triggerNextLedger_valid (env : Environment) (lcl : LastClosedLedger) (offsets : CloseTimeOffsets) (seed : Hash)
    {set : TxSetFrame} (hhash : set.previousLedgerHash = lcl.hash)
    (hdistinct : (set.transactions.map (·.address)).Nodup) :
    Meets (set.trimInvalid env lcl offsets)
      (fun r => (r.1.transactions ++ r.2).Perm set.transactions ∧
        ((r.1.surgePricingFilter env lcl seed).checkValid env lcl offsets).map Prod.fst = .ok true ∧
        (triggerNextLedger env lcl offsets seed set).map (fun p => (p.1.transactions, p.2)) =
          .ok ((r.1.surgePricingFilter env lcl seed).transactions, r.2))
      (fun stop => ∃ fault, stop = .fault fault ∧ BrokenBalance lcl.ltx fault ∧
        triggerNextLedger env lcl offsets seed set = .error (.fault fault)) := by
  have hmeets := @trimInvalid_meets env lcl offsets set hdistinct
  unfold triggerNextLedger
  cases hrun : set.trimInvalid env lcl offsets with
  | error stop =>
    obtain ⟨fault, rfl, hbroken⟩ := hmeets.of_error hrun
    exact ⟨fault, rfl, hbroken, rfl⟩
  | ok r =>
    have htrimmed := hmeets.of_ok hrun
    have hpriced := surgePricingFilter_priced seed htrimmed.valid htrimmed.sorted htrimmed.acceptable
    have hcheck := hpriced.checkValid (htrimmed.previousLedgerHash.trans hhash)
    refine ⟨htrimmed.perm, ?_, ?_⟩
    · rw [hcheck]
      rfl
    · dsimp only
      rw [hcheck]
      rfl

end

/-- A network whose signatures all verify, and whose hashes are sequence numbers. -/
def openNetwork : Environment where
  network :=
    { sha256 := fun _ => 0, verifySig := fun _ _ _ => true
      contentsHash := fun tx => tx.seqNum.toNat, fullHash := fun tx => tx.seqNum.toNat
      feeBumpContentsHash := fun _ => 0, feeBumpFullHash := fun _ => 0 }
  arrange := id
  arrange_perm := fun txs => .refl txs

/-- Account 1, at sequence number 5, in a ledger that closed at 100 and has room for one operation. -/
def oneAccount : LastClosedLedger where
  hash := 7
  ltx :=
    { header := ⟨14, 100, 100, 3000, 0, 0, 0, 10, 100, 1⟩
      accounts := (∅ : Table AccountID AccountEntry).insert 1 ⟨1000, 5, 0, none, 0, [], {}, [], {}, none, none⟩ }

def bumpTx (seqNum : Int64) (timeBounds : Option TimeBounds) : TransactionFrame where
  envelopeType := .tx
  sourceAccount := 1
  fee := 100
  seqNum := seqNum.toInt
  timeBounds := timeBounds
  operations := [⟨none, .bumpSequence ⟨0⟩⟩]
  signatures := [⟨1, []⟩]
  seqNum_range := by
    have hle := seqNum.le_toInt
    have hlt := seqNum.toInt_lt
    unfold INT64_MIN INT64_MAX
    omega
  operations_le := by decide

/-- The last of the three transactions does not follow, and there is no room for the second. -/
def threeTxs : TxSetFrame where
  previousLedgerHash := 7
  transactions :=
    [⟨0, .tx (bumpTx 9 none)⟩, ⟨1, .tx (bumpTx 7 none)⟩, ⟨2, .tx (bumpTx 6 none)⟩]

theorem threeTxs_proposed :
    (triggerNextLedger openNetwork oneAccount ⟨0, 0⟩ 3 threeTxs).map
      (fun p => (p.1.transactions.map (·.address), p.2.map (·.address))) = .ok ([2], [0]) ∧
    Meets (threeTxs.trimInvalid openNetwork oneAccount ⟨0, 0⟩)
      (fun r => ((r.1.surgePricingFilter openNetwork oneAccount 3).checkValid openNetwork oneAccount ⟨0, 0⟩).map Prod.fst =
        .ok true)
      (fun stop => ∃ fault, stop = .fault fault ∧ BrokenBalance oneAccount.ltx fault) := by
  refine ⟨by decide +kernel, ?_⟩
  refine (triggerNextLedger_valid openNetwork oneAccount ⟨0, 0⟩ 3 rfl (by decide)).mono (fun r h => h.2.1) ?_
  rintro stop ⟨fault, hstop, hbroken, -⟩
  exact ⟨fault, hstop, hbroken⟩

end Diamnet.Herder
