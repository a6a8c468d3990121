import Diamnet.Herder.QueueBooks

/-! What every call of the transaction queue keeps.

On top of the books, the transactions of an account are its own and have consecutive sequence
numbers, so that a sequence number is found where it is looked for (`findBySeq_eq`). This needs
that no transaction has sequence number 0, which `checkValid` takes for that of the account, nor
the largest number, which has no successor: with either, the queue goes wrong
(`bannedTx_stays_queued`). -/
namespace Diamnet.Herder
open Ledger Transactions Function List List.Sublist
namespace TransactionQueue

/-! ### Consecutive sequence numbers -/

/-- The sequence numbers are consecutive from this one on. -/
def SeqFrom : Int → List TransactionFrameBase → Prop
  | _, [] => True
  | n, tx :: rest => tx.getSeqNum = n ∧ SeqFrom (n + 1) rest

variable {n : Int} {txs : List TransactionFrameBase}

theorem SeqFrom.getElem? (h : SeqFrom n txs) {i : Nat} {tx : TransactionFrameBase} (htx : txs[i]? = some tx) :
    tx.getSeqNum = n + i := by
  induction txs generalizing n i with
  | nil => cases htx
  | cons first rest ih =>
    cases i with
    | zero =>
      cases htx
      rw [h.1]
      simp
    | succ i =>
      rw [ih h.2 htx]
      push_cast
      ring

theorem seqFrom_append {txs' : List TransactionFrameBase} :
    SeqFrom n (txs ++ txs') ↔ SeqFrom n txs ∧ SeqFrom (n + txs.length) txs' := by
  induction txs generalizing n with
  | nil => simp [SeqFrom]
  | cons tx rest ih =>
    have hlen : n + 1 + (rest.length : Int) = n + ((tx :: rest).length : Nat) := by
      push_cast [length_cons]
      ring
    rw [cons_append, SeqFrom, SeqFrom, ih, hlen, and_assoc]

theorem seqNum_range (tx : TransactionFrameBase) : INT64_MIN ≤ tx.getSeqNum ∧ tx.getSeqNum ≤ INT64_MAX := by
  cases tx with
  | tx frame => exact frame.seqNum_range
  | feeBump frame => exact frame.innerTx.seqNum_range

theorem wrap64_of_mem {x : Int} (h : INT64_MIN ≤ x ∧ x ≤ INT64_MAX) : wrap64 x = x := by
  simp only [INT64_MIN, INT64_MAX] at h
  exact Int.bmod_eq_of_le (by omega) (by omega)

/-- **A sequence number is found at its distance from the first.** -/
theorem findBySeq_eq (h : SeqFrom n txs) (hne : txs ≠ []) (hmax : ∀ tx ∈ txs, tx.getSeqNum ≠ INT64_MAX) (seq : Int) :
    findBySeq seq txs = .ok (if n ≤ seq ∧ seq ≤ n + txs.length then some (seq - n).toNat else none) := by
  obtain ⟨first, rest, rfl⟩ := exists_cons_of_ne_nil hne
  obtain ⟨last, hlast⟩ := Option.ne_none_iff_exists'.mp (mt List.getLast?_eq_none_iff.mp hne)
  have hfirst : first.getSeqNum = n := h.1
  have hlastSeq : last.getSeqNum + 1 = n + ((first :: rest).length : Nat) := by
    rw [List.getLast?_eq_getElem?] at hlast
    rw [h.getElem? hlast]
    push_cast [length_cons, Nat.add_sub_cancel]
    ring
  have hwrap : wrap64 (last.getSeqNum + 1) = last.getSeqNum + 1 := by
    refine wrap64_of_mem ?_
    have hrange := seqNum_range last
    have := hmax last (List.mem_of_getLast? hlast)
    omega
  unfold findBySeq
  rw [List.head?_cons, hlast]
  dsimp only
  rw [hwrap, hlastSeq, hfirst]
  by_cases hin : n ≤ seq ∧ seq ≤ n + ((first :: rest).length : Nat)
  · rw [if_pos hin, if_neg (by omega), if_neg (by omega), if_pos]
    · rfl
    cases htx : (first :: rest)[(seq - n).toNat]? with
    | none => rfl
    | some tx =>
      have := h.getElem? htx
      simp only [Option.all_some, decide_eq_true_eq]
      omega
  · rw [if_neg hin, if_pos (by omega)]
    rfl

/-! ### The invariant -/

/-- The number of transactions of a lane if it has this age. -/
def countOf (age : Nat) (lane : Lane) : Int := if lane.2 = age then lane.1.length else 0

theorem countOf_idle (age : Nat) : countOf age ([], 0) = 0 := by
  unfold countOf
  split <;> rfl

structure LaneOk (config : QueueConfig) (id : AccountID) (lane : Lane) : Prop where
  source : ∀ tx ∈ lane.1, tx.getSourceID = id
  consecutive : ∃ n, SeqFrom n lane.1
  seqNum : ∀ tx ∈ lane.1, tx.getSeqNum ≠ 0 ∧ tx.getSeqNum ≠ INT64_MAX
  age : lane.2 < config.pendingDepth

/-- All but the bans. -/
structure Sound (config : QueueConfig) (q : TransactionQueue) : Prop where
  books : Books q
  lanes : ∀ id, LaneOk config id (q.laneOf id)
  fees : ∀ id, q.feesOf id ≤ INT64_MAX
  sizes : ∀ age < config.pendingDepth, q.sizeByAge age = q.sumOver (countOf age)

def NotBanned (network : Network) (q : TransactionQueue) : Prop :=
  ∀ id, ∀ tx ∈ (q.laneOf id).1, q.isBanned (tx.getFullHash network) = false

variable {config : QueueConfig} {network : Network} {q : TransactionQueue}

variable {q' : TransactionQueue} {k : AccountID} {lane : Lane}

theorem laneOk_update (h : ∀ id, LaneOk config id (q.laneOf id)) (hlane : q'.laneOf = update q.laneOf k lane)
    (hok : LaneOk config k lane) (id : AccountID) : LaneOk config id (q'.laneOf id) := by
  rw [hlane]
  exact (forall_update_iff q.laneOf (LaneOk config)).mpr ⟨hok, fun id _ => h id⟩ id

theorem feesOf_update (hlane : q'.laneOf = update q.laneOf k lane) (id : AccountID) :
    q'.feesOf id = q.feesOf id - bidsFor id (q.laneOf k).1 + bidsFor id lane.1 :=
  @sumOver_update q q' k lane hlane (fun lane => bidsFor id lane.1) rfl

theorem Sound.update (h : Sound config q) (hbooks : Books q') (hlane : q'.laneOf = update q.laneOf k lane)
    (hok : LaneOk config k lane)
    (hfees : ∀ id, q.feesOf id - bidsFor id (q.laneOf k).1 + bidsFor id lane.1 ≤ INT64_MAX)
    (hsizes : ∀ age < config.pendingDepth, q'.sizeByAge age = q.sizeByAge age - countOf age (q.laneOf k) + countOf age lane) :
    Sound config q' where
  books := hbooks
  lanes := laneOk_update h.lanes hlane hok
  fees id := (feesOf_update hlane id).trans_le (hfees id)
  sizes age hage := by rw [hsizes age hage, h.sizes age hage, sumOver_update hlane (countOf_idle age)]

theorem Books.fees_of_sub (h : Books q) (hfees : ∀ id, q.feesOf id ≤ INT64_MAX) (hsub : txs.Sublist (q.laneOf k).1)
    (id : AccountID) : q.feesOf id - bidsFor id (q.laneOf k).1 + bidsFor id txs ≤ INT64_MAX := by
  have hle := bidsFor_le_of_sublist id hsub (h.bids k)
  have := hfees id
  omega

theorem LaneOk.sub {id : AccountID} (h : LaneOk config id lane) (hsub : ∀ tx ∈ txs, tx ∈ lane.1)
    (hseq : ∃ n, SeqFrom n txs) {age : Nat} (hage : age < config.pendingDepth) :
    LaneOk config id (txs, age) where
  source := fun tx htx => h.source tx (hsub tx htx)
  consecutive := hseq
  seqNum := fun tx htx => h.seqNum tx (hsub tx htx)
  age := hage

theorem update_add_apply (f : Nat → Int) (a : Nat) (x : Int) (b : Nat) :
    update f a (f a + x) b = f b + if a = b then x else 0 := by
  by_cases h : b = a
  · rw [h, update_self, if_pos rfl]
  · rw [update_of_ne h, if_neg (Ne.symm h), add_zero]

theorem incSize_eq {age : Nat} (h : age < config.pendingDepth) (n : Int) (q : TransactionQueue) :
    q.incSize config age n = .ok { q with sizeByAge := update q.sizeByAge age (q.sizeByAge age + n) } :=
  if_pos h

/-! ### Applied transactions -/

/-- Nothing is banned, and no transaction is added. -/
def Fewer (q q' : TransactionQueue) : Prop :=
  q'.bannedTransactions = q.bannedTransactions ∧ ∀ id, ∀ tx ∈ (q'.laneOf id).1, tx ∈ (q.laneOf id).1

theorem Fewer.refl (q : TransactionQueue) : Fewer q q := ⟨rfl, fun _ _ htx => htx⟩

theorem Fewer.trans {q'' : TransactionQueue} (h : Fewer q q') (h' : Fewer q' q'') : Fewer q q'' :=
  ⟨h'.1.trans h.1, fun id tx htx => h.2 id tx (h'.2 id tx htx)⟩

theorem NotBanned.fewer (h : NotBanned network q) (hfewer : Fewer q q') : NotBanned network q' := by
  intro id tx htx
  rw [isBanned, hfewer.1]
  exact h id tx (hfewer.2 id tx htx)

theorem mem_of_update (hlane : q'.laneOf = update q.laneOf k lane) (hsub : lane.1.Sublist (q.laneOf k).1) :
    ∀ id, ∀ tx ∈ (q'.laneOf id).1, tx ∈ (q.laneOf id).1 := by
  rw [hlane]
  exact (forall_update_iff q.laneOf fun id lane => ∀ tx ∈ lane.1, tx ∈ (q.laneOf id).1).mpr
    ⟨fun _ htx => hsub.mem htx, fun _ _ _ htx => htx⟩

theorem Sound.removeAppliedOf (h : Sound config q) (id : AccountID) (seq : Int) :
    ∃ q', q.removeAppliedOf config id seq = .ok q' ∧ Sound config q' ∧ Fewer q q' := by
  unfold TransactionQueue.removeAppliedOf
  cases hlookup : q.accountStates.lookup id with
  | none => exact ⟨q, rfl, h, .refl q⟩
  | some state =>
    have hlane := laneOf_of_lookup hlookup
    dsimp only
    split
    next hfront =>
      have hne : state.transactions ≠ [] := by
        intro hnil
        rw [hnil] at hfront
        cases hfront
      have hok := h.lanes id
      rw [hlane] at hok
      obtain ⟨n, hseq⟩ := hok.consecutive
      rw [findBySeq_eq hseq hne (fun tx htx => (hok.seqNum tx htx).2), ok_bind]
      generalize (if n ≤ seq ∧ seq ≤ n + (state.transactions.length : Nat) then some (seq - n).toNat else none) = found
      obtain ⟨txIter, hIter⟩ : ∃ txIter, min (found.elim state.transactions.length (· + 1)) state.transactions.length = txIter :=
        ⟨_, rfl⟩
      have hle : txIter ≤ state.transactions.length := hIter ▸ min_le_right _ _
      rw [hIter, incSize_eq hok.age, ok_bind]
      -- the age is reset, and what is left is counted under age 0
      set sizes₁ := Function.update q.sizeByAge state.age (q.sizeByAge state.age + -(state.transactions.length : Int))
      have hbooks₁ : Books { q with sizeByAge := sizes₁ } := h.books.congr rfl rfl
      have hlane₁ : laneOf { q with sizeByAge := sizes₁ } id = (state.transactions, state.age) := hlane
      obtain ⟨hbooks₂, hlane₂, hbanned₂, hsizes₂⟩ := @Books.setAge _ hbooks₁ id (by rwa [hlane₁]) 0
      set q₂ := modifyState { q with sizeByAge := sizes₁ } id fun state => { state with age := 0 }
      rw [incSize_eq config.pendingDepth_pos, ok_bind]
      set sizes₃ := Function.update q₂.sizeByAge 0 (q₂.sizeByAge 0 + ((state.transactions.length : Int) - txIter))
        with hsizes₃
      have hbooks₃ : Books { q₂ with sizeByAge := sizes₃ } := hbooks₂.congr rfl rfl
      have hsplit : state.transactions = [] ++ (state.transactions.take txIter ++ state.transactions.drop txIter) := by
        rw [List.nil_append, List.take_append_drop]
      have hlane₃ : laneOf { q₂ with sizeByAge := sizes₃ } id =
          ([] ++ (state.transactions.take txIter ++ state.transactions.drop txIter), 0) := by
        rw [← hsplit, show laneOf { q₂ with sizeByAge := sizes₃ } id = q₂.laneOf id from rfl, hlane₂, Function.update_self,
          hlane₁]
      obtain ⟨q', hdrop, hbooks', hlane', hrest'⟩ := hbooks₃.dropTransactions hlane₃ (by rwa [← hsplit])
      rw [List.length_nil, Nat.zero_add, List.length_take, min_eq_left hle] at hdrop
      have hlane'' : q'.laneOf = Function.update q.laneOf id (state.transactions.drop txIter, 0) := by
        rw [hlane', show laneOf { q₂ with sizeByAge := sizes₃ } = q₂.laneOf from rfl, hlane₂, update_idem]
        simp only [nil_append, ite_self]
        rfl
      have hsub : (state.transactions.drop txIter).Sublist (q.laneOf id).1 := by
        rw [hlane]
        exact drop_sublist _ _
      have hseq' : SeqFrom (n + txIter) (state.transactions.drop txIter) := by
        rw [← take_append_drop txIter state.transactions] at hseq
        have := (seqFrom_append.mp hseq).2
        rwa [length_take, min_eq_left hle] at this
      refine ⟨q', hdrop, h.update hbooks' hlane'' ?_ (h.books.fees_of_sub h.fees hsub) ?_, ?_, mem_of_update hlane'' hsub⟩
      · exact hok.sub (fun tx htx => mem_of_mem_drop htx) ⟨_, hseq'⟩ config.pendingDepth_pos
      · intro age _
        rw [hrest'.2, hlane, countOf, countOf, length_drop, Nat.cast_sub hle]
        have hsizes₁ : sizes₁ age = q.sizeByAge age + if state.age = age then -(state.transactions.length : Int) else 0 :=
          update_add_apply ..
        have hsizes₂ : q₂.sizeByAge = sizes₁ := hsizes₂
        dsimp only
        rw [hsizes₃, update_add_apply, hsizes₂, hsizes₁]
        split <;> split <;> ring
      · exact hrest'.1.trans hbanned₂
    next => exact ⟨q, rfl, h, .refl q⟩

theorem Sound.removeApplied (h : Sound config q) (appliedTxs : List TransactionFrameBase) :
    ∃ q', q.removeApplied config appliedTxs = .ok q' ∧ Sound config q' ∧ Fewer q q' := by
  have hmeets : Meets ((ascending (appliedTxs.map (·.getSourceID))).foldlM
      (fun q id => q.removeAppliedOf config id (highestSeq appliedTxs id)) q)
      (fun q' => Sound config q' ∧ Fewer q q') fun _ => False := by
    refine Meets.foldlM _ (fun q' hq' id _ => ?_) ⟨h, .refl q⟩
    obtain ⟨q'', hrun, hsound, hfewer⟩ := hq'.1.removeAppliedOf id (highestSeq appliedTxs id)
    rw [hrun]
    exact ⟨hsound, hq'.2.trans hfewer⟩
  obtain ⟨q', hrun, hq'⟩ := hmeets.exists_ok
  exact ⟨q', hrun, hq'⟩

/-! ### Banned transactions -/

/-- The hash of a transaction tells its source and its sequence number. -/
def HashesDistinguish (network : Network) : Prop :=
  ∀ tx tx' : TransactionFrameBase, tx.getFullHash network = tx'.getFullHash network →
    tx.getSourceID = tx'.getSourceID ∧ tx.getSeqNum = tx'.getSeqNum

theorem any_banAll_other (hhash : HashesDistinguish network) {tx : TransactionFrameBase} {banned : List (List Hash)}
    (hother : ∀ tx' ∈ txs, tx'.getSourceID ≠ tx.getSourceID)
    (h : (banAll network txs banned).any (·.contains (tx.getFullHash network)) = true) :
    banned.any (·.contains (tx.getFullHash network)) = true := by
  rcases any_banAll h with hold | ⟨tx', htx', heq⟩
  · exact hold
  · exact absurd (hhash tx' tx heq).1 (hother tx' htx')

/-- No transaction of the list that stands before this position is one of those to be banned. -/
def ClearBefore (network : Network) (txs banTxs : List TransactionFrameBase) (r : Nat) : Prop :=
  ∀ b ∈ banTxs, ∀ i < r, ∀ tx, txs[i]? = some tx → tx.getFullHash network ≠ b.getFullHash network

theorem findTx_turn (hhash : HashesDistinguish network) (hseq : SeqFrom n txs) (hne : txs ≠ [])
    (hmax : ∀ tx ∈ txs, tx.getSeqNum ≠ INT64_MAX) (b : TransactionFrameBase) (r : Nat) :
    ∃ r' ≤ r, (if (txs[r]?).all (b.getSeqNum < ·.getSeqNum) then findTx network b txs r else pure r : Except Fault Nat) =
        .ok r' ∧ ClearBefore network txs [b] r' := by
  -- a transaction with the hash of `b` stands where its sequence number says
  have hplace : ∀ (i : Nat) (tx : TransactionFrameBase), txs[i]? = some tx → tx.getFullHash network = b.getFullHash network → b.getSeqNum = n + i :=
    fun i tx htx heq => (hhash tx b heq).2.symm.trans (hseq.getElem? htx)
  have hclear : ∀ r' : Nat, (∀ i < r', ∀ tx, txs[i]? = some tx → b.getSeqNum ≠ n + i ∨
      tx.getFullHash network ≠ b.getFullHash network) → ClearBefore network txs [b] r' := by
    intro r' hr' b' hb' i hi tx htx heq
    rw [mem_singleton] at hb'
    subst hb'
    rcases hr' i hi tx htx with h | h
    · exact h (hplace i tx htx heq)
    · exact h heq
  by_cases hcond : (txs[r]?).all (b.getSeqNum < ·.getSeqNum) = true
  · rw [if_pos hcond]
    unfold findTx
    rw [findBySeq_eq hseq hne hmax, ok_bind]
    by_cases hin : n ≤ b.getSeqNum ∧ b.getSeqNum ≤ n + txs.length
    · rw [if_pos hin]
      dsimp only
      cases htx : txs[(b.getSeqNum - n).toNat]? with
      | none =>
        refine ⟨r, le_rfl, rfl, hclear r fun i hi tx htx' => .inl ?_⟩
        intro heq
        rw [show (b.getSeqNum - n).toNat = i by omega, htx'] at htx
        cases htx
      | some found =>
        have hlt := (List.getElem?_eq_some_iff.mp htx).1
        by_cases hfound : found.getFullHash network = b.getFullHash network
        · rw [if_pos (by simpa using hfound)]
          refine ⟨_, ?_, rfl, hclear _ fun i hi tx htx' => .inl (by omega)⟩
          cases hat : txs[r]? with
          | none => exact hlt.le.trans (List.getElem?_eq_none_iff.mp hat)
          | some tx =>
            rw [hat] at hcond
            have hseqr := hseq.getElem? hat
            simp only [Option.all_some, decide_eq_true_eq] at hcond
            omega
        · rw [if_neg (by simpa using hfound)]
          refine ⟨r, le_rfl, rfl, hclear r fun i hi tx htx' => ?_⟩
          by_cases hi' : i = (b.getSeqNum - n).toNat
          · rw [hi', htx] at htx'
            cases htx'
            exact .inr hfound
          · exact .inl (by omega)
    · rw [if_neg hin]
      refine ⟨r, le_rfl, rfl, hclear r fun i hi tx htx' => .inl ?_⟩
      have := (List.getElem?_eq_some_iff.mp htx').1
      omega
  · rw [if_neg hcond]
    refine ⟨r, le_rfl, rfl, hclear r fun i hi tx htx' => .inl ?_⟩
    cases hat : txs[r]? with
    | none =>
      rw [hat] at hcond
      exact absurd rfl hcond
    | some tx =>
      rw [hat] at hcond
      have hseqr := hseq.getElem? hat
      simp only [Option.all_some, decide_eq_true_eq, not_lt] at hcond
      omega

theorem firstBanned_clear (hhash : HashesDistinguish network) (hseq : SeqFrom n txs) (hne : txs ≠ [])
    (hmax : ∀ tx ∈ txs, tx.getSeqNum ≠ INT64_MAX) (banTxs : List TransactionFrameBase) :
    ∃ r ≤ txs.length, firstBanned network txs banTxs = .ok r ∧ ClearBefore network txs banTxs r := by
  suffices hloop : ∀ r₀ ≤ txs.length, ∃ r ≤ r₀, banTxs.foldlM (fun txIter tx =>
      if (txs[txIter]?).all (tx.getSeqNum < ·.getSeqNum) then findTx network tx txs txIter else pure txIter) r₀ =
        Except.ok r ∧ ClearBefore network txs banTxs r from hloop txs.length le_rfl
  induction banTxs with
  | nil => exact fun r₀ _ => ⟨r₀, le_rfl, rfl, fun b hb => (not_mem_nil hb).elim⟩
  | cons b banTxs ih =>
    intro r₀ hr₀
    obtain ⟨r₁, hr₁, hturn, hclear₁⟩ := findTx_turn hhash hseq hne hmax b r₀
    obtain ⟨r, hr, hloop, hclear⟩ := ih r₁ (hr₁.trans hr₀)
    refine ⟨r, hr.trans hr₁, ?_, ?_⟩
    · rw [foldlM_cons, hturn]
      exact hloop
    · intro b' hb' i hi tx htx
      rcases mem_cons.mp hb' with rfl | hb'
      · exact hclear₁ b' (mem_singleton_self b') i (hi.trans_le hr) tx htx
      · exact hclear b' hb' i hi tx htx

/-- A queued transaction that is banned has an account that is still to be gone through, and is
one of those to be banned. -/
def BannedOnly (network : Network) (q : TransactionQueue) (banTxs : List TransactionFrameBase) (ids : List AccountID) :
    Prop :=
  ∀ id, ∀ tx ∈ (q.laneOf id).1, q.isBanned (tx.getFullHash network) = true →
    id ∈ ids ∧ ∃ b ∈ banTxs, b.getSourceID = id ∧ b.getFullHash network = tx.getFullHash network

theorem Sound.banOf (h : Sound config q) (hhash : HashesDistinguish network) {banTxs : List TransactionFrameBase}
    {id : AccountID} {ids : List AccountID} (hbanned : BannedOnly network q banTxs (id :: ids)) :
    ∃ q', q.banOf network config id (banTxs.filter (·.getSourceID = id)) = .ok q' ∧ Sound config q' ∧
      BannedOnly network q' banTxs ids := by
  have hskip : (q.laneOf id).1 = [] → BannedOnly network q banTxs ids := by
    intro hnil id' tx htx hban
    obtain ⟨hmem, hb⟩ := hbanned id' tx htx hban
    refine ⟨(mem_cons.mp hmem).resolve_left ?_, hb⟩
    rintro rfl
    rw [hnil] at htx
    exact not_mem_nil htx
  unfold TransactionQueue.banOf
  cases hlookup : q.accountStates.lookup id with
  | none => exact ⟨q, rfl, h, hskip (by rw [laneOf_of_none hlookup])⟩
  | some state =>
    have hlane := laneOf_of_lookup hlookup
    dsimp only
    split
    next hnil => exact ⟨q, rfl, h, hskip (by rw [hlane]; exact isEmpty_iff.mp hnil)⟩
    next hne =>
      have hne : state.transactions ≠ [] := mt isEmpty_iff.mpr hne
      have hok := h.lanes id
      rw [hlane] at hok
      obtain ⟨n, hseq⟩ := hok.consecutive
      obtain ⟨r, hr, hfirst, hclear⟩ := firstBanned_clear hhash hseq hne (fun tx htx => (hok.seqNum tx htx).2)
        (banTxs.filter (·.getSourceID = id))
      rw [hfirst, ok_bind, foldl_banHash, incSize_eq hok.age, ok_bind]
      set dropped := state.transactions.drop r with hdropped
      set sizes := Function.update q.sizeByAge state.age
        (q.sizeByAge state.age + -((state.transactions.length : Int) - r)) with hsizes
      set q₁ : TransactionQueue := { q with
        bannedTransactions := banAll network dropped q.bannedTransactions, sizeByAge := sizes } with hq₁
      have hbooks₁ : Books q₁ := h.books.congr rfl rfl
      have hsplit : state.transactions = state.transactions.take r ++ (dropped ++ []) := by
        rw [List.append_nil, List.take_append_drop]
      have hlane₁ : q₁.laneOf id = (state.transactions.take r ++ (dropped ++ []), state.age) := by
        rw [← hsplit]
        exact hlane
      obtain ⟨q', hdrop, hbooks', hlane', hrest'⟩ := hbooks₁.dropTransactions hlane₁ (by rwa [← hsplit])
      have hlast : (state.transactions.take r).length + dropped.length = state.transactions.length := by
        rw [← length_append, take_append_drop]
      rw [hlast, length_take, min_eq_left hr] at hdrop
      rw [append_nil] at hlane'
      have hsub : (state.transactions.take r).Sublist (q.laneOf id).1 := by
        rw [hlane]
        exact List.take_sublist _ _
      rw [← List.take_append_drop r state.transactions] at hseq
      obtain ⟨hkept, hgone⟩ := seqFrom_append.mp hseq
      refine ⟨q', hdrop, h.update hbooks' hlane' ?_ (h.books.fees_of_sub h.fees hsub) ?_, ?_⟩
      · refine hok.sub (fun tx htx => List.mem_of_mem_take htx) ⟨_, hkept⟩ ?_
        split
        · exact config.pendingDepth_pos
        · exact hok.age
      · intro age _
        rw [hrest'.2, hlane, show q₁.sizeByAge = sizes from rfl, hsizes, update_add_apply]
        have hcount : countOf age (state.transactions.take r, if state.transactions.take r = [] then 0 else state.age) =
            if state.age = age then (r : Int) else 0 := by
          have hlen : (state.transactions.take r).length = r := by rw [List.length_take, min_eq_left hr]
          unfold countOf
          by_cases hnil : state.transactions.take r = []
          · rw [hnil] at hlen ⊢
            rw [← hlen]
            simp
          · rw [if_neg hnil, hlen]
        rw [hcount, countOf]
        split <;> ring
      · intro id' tx htx hban
        have hban' : (banAll network dropped q.bannedTransactions).any (·.contains (tx.getFullHash network)) = true := by
          rw [isBanned, hrest'.1] at hban
          exact hban
        rw [hlane'] at htx
        by_cases hid : id' = id
        · subst hid
          rw [update_self] at htx
          exfalso
          obtain ⟨i, hi, hget⟩ := getElem_of_mem htx
          have hget' : state.transactions[i]? = some tx := by
            rw [← hget, getElem_take, List.getElem?_eq_getElem]
          have hir : i < r := by
            rw [length_take] at hi
            omega
          rcases any_banAll hban' with hold | ⟨tx', htx', heq⟩
          · -- it is one of those to be banned, but stands before the first of them
            obtain ⟨-, b, hb, hsource, heq⟩ := hbanned id' tx (hsub.mem htx) hold
            exact hclear b (mem_filter.mpr ⟨hb, by simpa using hsource⟩) i hir tx hget' heq.symm
          · -- the transactions dropped have higher sequence numbers
            obtain ⟨j, hj, hget''⟩ := getElem_of_mem htx'
            have h1 := hgone.getElem? (List.getElem?_eq_some_iff.mpr ⟨hj, hget''⟩)
            have h2 := hkept.getElem? (List.getElem?_eq_some_iff.mpr ⟨hi, hget⟩)
            have h3 := (hhash tx' tx heq).2
            rw [length_take, min_eq_left hr] at h1
            omega
        · rw [update_of_ne hid] at htx
          have hold := any_banAll_other hhash (fun tx' htx' => ?_) hban'
          · obtain ⟨hmem, hb⟩ := hbanned id' tx htx hold
            exact ⟨(mem_cons.mp hmem).resolve_left hid, hb⟩
          · rw [hok.source tx' (mem_of_mem_drop htx'), (h.lanes id').source tx htx]
            exact Ne.symm hid

/-- **What is banned goes out of the queue, with all that comes after it.** -/
theorem Sound.ban (h : Sound config q) (hhash : HashesDistinguish network) (hnot : NotBanned network q)
    (banTxs : List TransactionFrameBase) :
    ∃ q', q.ban network config banTxs = .ok q' ∧ Sound config q' ∧ NotBanned network q' := by
  unfold TransactionQueue.ban
  rw [foldl_banHash]
  set q₁ : TransactionQueue := { q with bannedTransactions := banAll network banTxs q.bannedTransactions }
  have hsound : Sound config q₁ := ⟨h.books.congr rfl rfl, h.lanes, h.fees, h.sizes⟩
  have hbanned : BannedOnly network q₁ banTxs (ascending (banTxs.map (·.getSourceID))) := by
    intro id tx htx hban
    rcases any_banAll hban with hold | ⟨b, hb, heq⟩
    · have := hnot id tx htx
      rw [isBanned, hold] at this
      cases this
    · have hsource : b.getSourceID = id := (hhash b tx heq).1.trans ((h.lanes id).source tx htx)
      exact ⟨mem_ascending.mpr (mem_map.mpr ⟨b, hb, hsource⟩), b, hb, hsource, heq⟩
  have hloop : ∀ ids q₁, Sound config q₁ → BannedOnly network q₁ banTxs ids →
      ∃ q', ids.foldlM (fun q id => q.banOf network config id (banTxs.filter (·.getSourceID = id))) q₁ = Except.ok q' ∧
        Sound config q' ∧ BannedOnly network q' banTxs [] := by
    intro ids
    induction ids with
    | nil => exact fun q₁ hsound hbanned => ⟨q₁, rfl, hsound, hbanned⟩
    | cons id ids ih =>
      intro q₁ hsound hbanned
      obtain ⟨q₂, hrun, hsound₂, hbanned₂⟩ := hsound.banOf hhash hbanned
      obtain ⟨q', hrest, hq'⟩ := ih q₂ hsound₂ hbanned₂
      exact ⟨q', by rw [foldlM_cons, hrun]; exact hrest, hq'⟩
  obtain ⟨q', hrun, hsound', hbanned'⟩ := hloop _ q₁ hsound hbanned
  refine ⟨q', hrun, hsound', fun id tx htx => Bool.eq_false_iff.mpr fun hban => ?_⟩
  exact not_mem_nil (hbanned' id tx htx hban).1

/-! ### Growing older -/

/-- What holds while the accounts grow older and are counted. -/
structure Shifting (config : QueueConfig) (network : Network) (q : TransactionQueue) : Prop where
  books : Books q
  lanes : ∀ id, LaneOk config id (q.laneOf id)
  fees : ∀ id, q.feesOf id ≤ INT64_MAX
  notBanned : NotBanned network q

theorem Shifting.update (h : Shifting config network q) (hbooks : Books q')
    (hlane : q'.laneOf = update q.laneOf k lane) (hsub : lane.1.Sublist (q.laneOf k).1)
    (hok : LaneOk config k lane) (hnot : NotBanned network q') : Shifting config network q' where
  books := hbooks
  lanes := laneOk_update h.lanes hlane hok
  fees id := (feesOf_update hlane id).trans_le (h.books.fees_of_sub h.fees hsub id)
  notBanned := hnot

theorem Shifting.shiftAccount (h : Shifting config network q) (hhash : HashesDistinguish network) (id : AccountID)
    (sizes : Nat → Int) :
    ∃ q' lane, shiftAccount network config (q, sizes) id = .ok (q', fun age => sizes age + countOf age lane) ∧
      Shifting config network q' ∧ q'.laneOf = Function.update q.laneOf id lane := by
  have hok := h.lanes id
  by_cases hnil : (q.laneOf id).1 = []
  · obtain ⟨q', hrun, hbooks, hlane, hrest⟩ := @Books.shiftAccount_idle q network config id h.books hnil sizes
    have hupdate : q'.laneOf = Function.update q.laneOf id (q.laneOf id) := by rw [hlane, Function.update_eq_self]
    refine ⟨q', q.laneOf id, ?_, h.update hbooks hupdate (refl _) hok
      (h.notBanned.fewer ⟨hrest.1, mem_of_update hupdate (refl _)⟩), hupdate⟩
    rw [hrun, show q.laneOf id = ([], 0) from Prod.ext hnil (h.books.idle id hnil)]
    simp only [countOf_idle, add_zero]
  · by_cases hage : (q.laneOf id).2 + 1 < config.pendingDepth
    · obtain ⟨q', hrun, hbooks, hlane, hrest⟩ := @Books.shiftAccount_older q network config id h.books hnil hage sizes
      refine ⟨q', ((q.laneOf id).1, (q.laneOf id).2 + 1), ?_,
        h.update hbooks hlane (refl _) (hok.sub (fun _ htx => htx) hok.consecutive hage)
          (h.notBanned.fewer ⟨hrest.1, mem_of_update hlane (refl _)⟩), hlane⟩
      rw [hrun]
      congr 2
      funext age
      rw [update_add_apply]
      rfl
    · have hage' : config.pendingDepth = (q.laneOf id).2 + 1 := by
        have := hok.age
        omega
      obtain ⟨q', hrun, hbooks, hlane, hbanned⟩ := @Books.shiftAccount_banned q network config id h.books hnil hage' sizes
      refine ⟨q', ([], 0), ?_, h.update hbooks hlane (nil_sublist _) ?_ ?_, hlane⟩
      · rw [hrun]
        simp only [countOf_idle, add_zero]
      · exact hok.sub (fun tx htx => (not_mem_nil htx).elim) ⟨0, trivial⟩ config.pendingDepth_pos
      · intro id' tx htx
        rw [hlane] at htx
        by_cases hid : id' = id
        · rw [hid, update_self] at htx
          exact (not_mem_nil htx).elim
        · rw [update_of_ne hid] at htx
          refine Bool.eq_false_iff.mpr fun hban => ?_
          rw [isBanned, hbanned] at hban
          refine Bool.eq_false_iff.mp (h.notBanned id' tx htx) (any_banAll_other hhash (fun tx' htx' => ?_) hban)
          rw [hok.source tx' htx', (h.lanes id').source tx htx]
          exact Ne.symm hid

theorem Shifting.foldlM (h : Shifting config network q) (hhash : HashesDistinguish network) {ids : List AccountID}
    (hids : ids.Nodup) (sizes : Nat → Int) :
    ∃ q', ids.foldlM (TransactionQueue.shiftAccount network config) (q, sizes) =
        .ok (q', fun age => sizes age + (ids.map fun id => countOf age (q'.laneOf id)).sum) ∧
      Shifting config network q' ∧ ∀ id ∉ ids, q'.laneOf id = q.laneOf id := by
  induction ids generalizing q sizes with
  | nil => exact ⟨q, by simp [pure, Except.pure], h, fun _ _ => rfl⟩
  | cons id ids ih =>
    obtain ⟨hid, hids⟩ := List.nodup_cons.mp hids
    obtain ⟨q₁, lane, hrun, h₁, hlane₁⟩ := h.shiftAccount hhash id sizes
    obtain ⟨q', hrest, h', hlane'⟩ := ih h₁ hids fun age => sizes age + countOf age lane
    refine ⟨q', ?_, h', fun id' hid' => ?_⟩
    · rw [foldlM_cons, hrun, ok_bind, hrest]
      simp only [map_cons, sum_cons, hlane' id hid, hlane₁, update_self, add_assoc]
    · rw [hlane' id' (not_mem_of_not_mem_cons hid'), hlane₁, update_of_ne (ne_of_not_mem_cons hid')]

theorem isBanned_shift {q : TransactionQueue} {hash : Hash} (h : q.isBanned hash = false) :
    ([] :: q.bannedTransactions.dropLast).any (·.contains hash) = false := by
  rw [isBanned, any_eq_false] at h
  rw [any_eq_false]
  intro banned hbanned
  rcases mem_cons.mp hbanned with rfl | hbanned
  · simp
  · exact h banned (mem_of_mem_dropLast hbanned)

theorem Sound.shift (h : Sound config q) (hhash : HashesDistinguish network) (hnot : NotBanned network q)
    {arrange : List AccountID → List AccountID} (harrange : ∀ ids, (arrange ids).Perm ids) :
    ∃ q', q.shift network config arrange = .ok q' ∧ Sound config q' ∧ NotBanned network q' := by
  unfold TransactionQueue.shift
  set q₁ : TransactionQueue := { q with bannedTransactions := [] :: q.bannedTransactions.dropLast }
  have h₁ : Shifting config network q₁ :=
    ⟨h.books.congr rfl rfl, h.lanes, h.fees, fun id tx htx => isBanned_shift (hnot id tx htx)⟩
  have hperm := harrange q₁.accountStates.keys
  have hnodup : (arrange q₁.accountStates.keys).Nodup := hperm.nodup_iff.mpr (AList.keys_nodup _)
  obtain ⟨q', hrun, h', hlane⟩ := h₁.foldlM hhash hnodup fun _ => 0
  dsimp only
  rw [hrun, ok_bind]
  refine ⟨_, rfl, ⟨h'.books.congr rfl rfl, h'.lanes, h'.fees, fun age _ => ?_⟩, h'.notBanned⟩
  have hother : ∀ id ∉ (arrange q₁.accountStates.keys).toFinset, q'.laneOf id = ([], 0) := by
    intro id hid
    rw [mem_toFinset] at hid
    rw [hlane id hid]
    refine laneOf_of_none (AList.lookup_eq_none.mpr fun hmem => hid ?_)
    exact hperm.mem_iff.mpr (AList.mem_keys.mp hmem)
  show 0 + ((arrange q₁.accountStates.keys).map fun id => countOf age (q'.laneOf id)).sum = q'.sumOver (countOf age)
  rw [zero_add, sumOver_eq_sum q' (countOf_idle age) hother, sum_toFinset _ hnodup]

end TransactionQueue
end Diamnet.Herder
