import Diamnet.Herder.HerderSCPDriver
import Diamnet.Herder.ProposedSet

/-! What the validation of a value depends on.

The frame of a transaction set remembers the last result of `checkValid` and the last closed
ledger that it was for, but not the close times. So what is remembered is the verdict for some
close times (`FrameOk`), kept by every call, and the answers of a node are those of a node
that has made no call before if no transaction has time bounds (`validation_alike_iff`). Where one
has, a value that is invalid passes once another value with the same set has been valid
(`lateValue_fullyValidated`). -/
namespace Diamnet.Herder
open Ledger Transactions

/-! ### Calls -/

/-- What the hashes stand for. -/
structure Contents where
  ledgers : Hash → LedgerTxn
  txSets : Hash → TxSetFrame
  /-- A frame that has just been made remembers nothing. -/
  fresh : ∀ hash, (txSets hash).valid = none

def Contents.lcl (contents : Contents) (hash : Hash) : LastClosedLedger := ⟨hash, contents.ledgers hash⟩

/-- What happens on a node. Ledgers may close, and the clock may run, between any two calls. -/
inductive Call where
  | putTxSet (txSetHash : Hash)
  /-- The last reference to the frame of a set goes. -/
  | expire (txSetHash : Hash)
  | checkValid (txSetHash lclHash : Hash) (offsets : CloseTimeOffsets)
  | validateValue (driver : HerderSCPDriver) (lclHash : Hash) (slotIndex : UInt64) (value : List UInt8)
      (nomination : Bool)

variable (env : Environment) (contents : Contents)

def Call.run : Call → KnownTxSets → Except Fault KnownTxSets
  | .putTxSet txSetHash, known => pure (known.putTxSet txSetHash (contents.txSets txSetHash))
  | .expire txSetHash, known => pure (known.erase txSetHash)
  | .checkValid txSetHash lclHash offsets, known =>
    match known.lookup txSetHash with
    | none => pure known
    | some txSet => do
      let (_, txSet) ← txSet.checkValid env (contents.lcl lclHash) offsets
      return known.insert txSetHash txSet
  | .validateValue driver lclHash slotIndex value nomination, known => do
    let (_, known) ← driver.validateValue env (contents.lcl lclHash) slotIndex value nomination known
    return known

def runCalls (calls : List Call) : Except Fault KnownTxSets := calls.foldlM (fun known call => call.run env contents known) ∅

/-! ### What a frame remembers -/

/-- A frame of the set, which remembers a verdict on it. -/
structure FrameOk (txSetHash : Hash) (txSet : TxSetFrame) : Prop where
  frame : ∃ valid, txSet = { contents.txSets txSetHash with valid := valid }
  remembers : ∀ lclHash result, txSet.valid = some (lclHash, result) →
    ∃ offsets, (contents.txSets txSetHash).verdict env (contents.lcl lclHash) offsets = .ok result

def KnownOk (known : KnownTxSets) : Prop := ∀ hash txSet, known.lookup hash = some txSet → FrameOk env contents hash txSet

variable {env contents}

/-! ### Time bounds -/

/-- There is no close time that the time bounds exclude. -/
def AnyTime (tx : TransactionFrameBase) : Prop :=
  ∀ tb, tx.timeBounds = some tb → tb.minTime = 0 ∧ (tb.maxTime = 0 ∨ tb.maxTime = -1)

variable {lcl : LastClosedLedger} {offsets offsets' : CloseTimeOffsets} {ptr : TransactionPtr}

theorem inTime_iff (frame : TransactionFrame) (lh : LedgerHeader) : AnyTime (.tx frame) ↔
    ∀ lower upper, frame.isTooEarly lh lower = false ∧ frame.isTooLate lh upper = false := by
  simp only [AnyTime, TransactionFrameBase.timeBounds, TransactionFrame.isTooEarly, TransactionFrame.isTooLate]
  cases frame.timeBounds with
  | none => simp
  | some tb =>
    have hreach (t : UInt64) : UInt64.ofNat lh.closeTime + (t - UInt64.ofNat lh.closeTime) = t := by
      rw [UInt64.add_comm, UInt64.sub_add_cancel]
    have hle (t : UInt64) : t ≤ -1 := UInt64.le_iff_toNat_le.mpr (Nat.le_of_lt_succ t.toNat_lt)
    simp only [Option.some.injEq, forall_eq', Option.any_some, Bool.and_eq_false_iff, decide_eq_false_iff_not,
      not_not, UInt64.not_lt]
    refine ⟨fun ⟨hmin, hmax⟩ _ _ => ⟨.inl hmin, hmax.imp_right ?_⟩, fun h => ⟨?_, ?_⟩⟩
    · intro hmax
      rw [hmax]
      exact hle _
    · refine (h (0 - UInt64.ofNat lh.closeTime) 0).1.elim id fun hmin => ?_
      rw [hreach] at hmin
      exact UInt64.le_antisymm hmin UInt64.zero_le
    · refine (h 0 (-1 - UInt64.ofNat lh.closeTime)).2.imp_right fun hmax => ?_
      rw [hreach] at hmax
      exact UInt64.le_antisymm (hle _) hmax

/-- Whether a transaction is valid does not depend on which of two close times it is. -/
def Timeless (env : Environment) (lcl : LastClosedLedger) (offsets offsets' : CloseTimeOffsets) (ptr : TransactionPtr) :
    Prop :=
  ∀ lastSeq, ptr.tx.checkValid env.network lcl.ltx lastSeq offsets'.lower offsets'.upper =
    ptr.tx.checkValid env.network lcl.ltx lastSeq offsets.lower offsets.upper

theorem AnyTime.timeless (h : AnyTime ptr.tx) : Timeless env lcl offsets offsets' ptr := by
  have hpre {frame : TransactionFrame} (hframe : AnyTime (.tx frame)) (chargeFee : Bool) :
      frame.commonValidPreSeqNum lcl.ltx chargeFee offsets'.lower offsets'.upper =
        frame.commonValidPreSeqNum lcl.ltx chargeFee offsets.lower offsets.upper := by
    have htimes := (inTime_iff frame lcl.ltx.header).mp hframe
    have hearly t := (htimes t 0).1
    have hlate t := (htimes 0 t).2
    simp only [TransactionFrame.commonValidPreSeqNum, hearly, hlate]
  intro lastSeq
  rcases ptr with ⟨address, frame | frame⟩
  · simp only [TransactionFrameBase.checkValid, TransactionFrame.checkValid, TransactionFrame.commonValid, hpre h]
  · simp only [TransactionFrameBase.checkValid, FeeBumpTransactionFrame.checkValid, TransactionFrame.checkValid,
      TransactionFrame.commonValid, hpre (show AnyTime (.tx frame.innerTx) from h)]

theorem anyTime_of_valid (h : ∀ offsets, ∃ lastSeq, validAfter env lcl offsets lastSeq ptr = true) :
    AnyTime ptr.tx := by
  rcases ptr with ⟨address, frame | frame⟩
  · refine (inTime_iff frame lcl.ltx.header).mpr fun lower upper => ?_
    obtain ⟨lastSeq, hvalid⟩ := h ⟨lower, upper⟩
    exact TransactionFrame.inTime_of_checkValid (checkValid_of_validAfter hvalid)
  · refine (inTime_iff frame.innerTx lcl.ltx.header).mpr fun lower upper => ?_
    obtain ⟨lastSeq, hvalid⟩ := h ⟨lower, upper⟩
    obtain ⟨_, -, hrest⟩ := bind_eq_ok.mp (checkValid_of_validAfter hvalid)
    obtain ⟨_, -, hinner⟩ := bind_eq_ok.mp hrest
    unfold FeeBumpTransactionFrame.innerResult at hinner
    split at hinner
    · cases hinner
    · exact TransactionFrame.inTime_of_checkValid hinner

/-! A check looks neither at what the set remembers nor, without time bounds, at the close times. -/

theorem checkQueue_withSet {queue : List TransactionPtr} (h : ∀ ptr ∈ queue, Timeless env lcl offsets offsets' ptr)
    (lastSeq : Int) (s : Trim) (set : TxSetFrame) :
    checkQueue env lcl offsets' true lastSeq queue { s with set } =
      (checkQueue env lcl offsets true lastSeq queue s).map fun r => (r.1, { r.2 with set }) := by
  induction queue generalizing lastSeq s with
  | nil => rfl
  | cons ptr rest ih =>
    obtain ⟨hptr, hrest⟩ := List.forall_mem_cons.mp h
    unfold checkQueue
    rw [hptr lastSeq]
    cases ptr.tx.checkValid env.network lcl.ltx lastSeq offsets.lower offsets.upper with
    | error failure => cases failure <;> rfl
    | ok _ =>
      rw [show ({ s with set } : Trim).charge ptr = { s.charge ptr with set } from rfl, ih hrest]
      cases checkQueue env lcl offsets true ptr.getSeqNum rest (s.charge ptr) <;> rfl

theorem checkQueues_withSet {queues : List (List TransactionPtr)}
    (h : ∀ queue ∈ queues, ∀ ptr ∈ queue, Timeless env lcl offsets offsets' ptr) (s : Trim) (set : TxSetFrame) :
    checkQueues env lcl offsets' true queues { s with set } =
      (checkQueues env lcl offsets true queues s).map fun r => (r.1, { r.2 with set }) := by
  induction queues generalizing s with
  | nil => rfl
  | cons queue rest ih =>
    obtain ⟨hqueue, hrest⟩ := List.forall_mem_cons.mp h
    unfold checkQueues
    rw [checkQueue_withSet hqueue]
    cases checkQueue env lcl offsets true 0 queue s with
    | error stop => rfl
    | ok r =>
      simp only [Except.map, ok_bind, ih hrest]
      cases checkQueues env lcl offsets true rest r.2 <;> rfl

theorem checkFees_withSet (lcl : LastClosedLedger) (queue : List TransactionPtr) (s : Trim) (set : TxSetFrame) :
    checkFees lcl true queue { s with set } = (checkFees lcl true queue s).map fun r => { r with set } := by
  induction queue generalizing s with
  | nil => rfl
  | cons ptr rest ih =>
    unfold checkFees
    cases feeSourceBalance lcl ptr.getFeeSourceID with
    | error stop => rfl
    | ok available =>
      simp only [ok_bind, ih]
      split <;> rfl

theorem foldlM_checkFees_withSet (lcl : LastClosedLedger) (queues : List (List TransactionPtr)) (s : Trim)
    (set : TxSetFrame) :
    queues.foldlM (fun s queue => checkFees lcl true queue s) { s with set } =
      (queues.foldlM (fun s queue => checkFees lcl true queue s) s).map fun r => { r with set } := by
  induction queues generalizing s with
  | nil => rfl
  | cons queue rest ih =>
    rw [List.foldlM_cons, List.foldlM_cons, checkFees_withSet]
    cases checkFees lcl true queue s with
    | error stop => rfl
    | ok r =>
      exact ih r

theorem mem_of_mem_queue {txs queue : List TransactionPtr} (hqueue : queue ∈ buildAccountTxQueues env txs) :
    ∀ ptr ∈ queue, ptr ∈ txs := by
  intro ptr hptr
  obtain ⟨id, hid, rfl⟩ := List.mem_map.mp hqueue
  exact (flatMap_accountTxQueue_perm txs).mem_iff.mp (List.mem_flatMap.mpr ⟨id, hid, hptr⟩)

theorem verdict_with_valid {set : TxSetFrame} (h : ∀ ptr ∈ set.transactions, Timeless env lcl offsets offsets' ptr)
    (valid : Option (Hash × Bool)) : ({ set with valid := valid } : TxSetFrame).verdict env lcl offsets' =
      set.verdict env lcl offsets := by
  have hqueues : ∀ queue ∈ buildAccountTxQueues env set.transactions, ∀ ptr ∈ queue,
      Timeless env lcl offsets offsets' ptr := fun _ hqueue ptr hptr => h ptr (mem_of_mem_queue hqueue ptr hptr)
  have hcheck : checkOrTrim env lcl offsets' true { set with valid := valid } =
      (checkOrTrim env lcl offsets true set).map fun r => { r with set := { set with valid := valid } } := by
    unfold checkOrTrim
    rw [show ({ set := { set with valid := valid } } : Trim) = { ({ set } : Trim) with set := { set with valid := valid } }
      from rfl, checkQueues_withSet hqueues]
    cases checkQueues env lcl offsets true (buildAccountTxQueues env set.transactions) { set } with
    | error stop => rfl
    | ok r => exact foldlM_checkFees_withSet lcl r.1 r.2 _
  unfold TxSetFrame.verdict
  rw [hcheck]
  cases checkOrTrim env lcl offsets true set <;> rfl

/-! ### Calls keep it -/

theorem FrameOk.fresh (txSetHash : Hash) : FrameOk env contents txSetHash (contents.txSets txSetHash) where
  frame := ⟨none, by rw [← contents.fresh txSetHash]⟩
  remembers := fun lclHash result h => by
    rw [contents.fresh txSetHash] at h
    cases h

variable {txSetHash : Hash} {txSet : TxSetFrame}

/-- What a frame answers is a verdict on its set, that for the close times given if it remembers
nothing about the last closed ledger. -/
theorem FrameOk.checkValid (h : FrameOk env contents txSetHash txSet) (lclHash : Hash) (offsets : CloseTimeOffsets) :
    (∃ result, txSet.valid = some (lclHash, result) ∧
      txSet.checkValid env (contents.lcl lclHash) offsets = .ok (result, txSet)) ∨
    txSet.checkValid env (contents.lcl lclHash) offsets =
      ((contents.txSets txSetHash).verdict env (contents.lcl lclHash) offsets).map fun result =>
        (result, { txSet with valid := some (lclHash, result) }) := by
  obtain ⟨valid, hframe⟩ := h.frame
  have hverdict : txSet.verdict env (contents.lcl lclHash) offsets =
      (contents.txSets txSetHash).verdict env (contents.lcl lclHash) offsets := by
    rw [hframe, verdict_with_valid fun _ _ _ => rfl]
  unfold TxSetFrame.checkValid
  cases hremembered : txSet.remembered (contents.lcl lclHash) with
  | some result =>
    left
    refine ⟨result, ?_, rfl⟩
    unfold TxSetFrame.remembered at hremembered
    split at hremembered
    next hash result' hvalid =>
      split at hremembered
      next hhash =>
        cases hremembered
        rw [hvalid, hhash]
        rfl
      next => cases hremembered
    next => cases hremembered
  | none =>
    right
    rw [hverdict]
    cases (contents.txSets txSetHash).verdict env (contents.lcl lclHash) offsets <;> rfl

variable {lclHash : Hash}

theorem FrameOk.after_checkValid {txSet' : TxSetFrame} {offsets : CloseTimeOffsets} {result : Bool}
    (h : FrameOk env contents txSetHash txSet)
    (hrun : txSet.checkValid env (contents.lcl lclHash) offsets = .ok (result, txSet')) :
    FrameOk env contents txSetHash txSet' := by
  rcases h.checkValid lclHash offsets with ⟨result', -, hcheck⟩ | hcheck
  · rw [hcheck] at hrun
    cases hrun
    exact h
  · rw [hcheck] at hrun
    cases hverdict : (contents.txSets txSetHash).verdict env (contents.lcl lclHash) offsets with
    | error fault =>
      rw [hverdict] at hrun
      cases hrun
    | ok verdict =>
      rw [hverdict] at hrun
      cases hrun
      obtain ⟨valid, rfl⟩ := h.frame
      refine ⟨⟨_, rfl⟩, fun lclHash' result' hvalid => ?_⟩
      cases hvalid
      exact ⟨offsets, hverdict⟩

variable {known : KnownTxSets}

theorem KnownOk.insert (h : KnownOk env contents known) (hframe : FrameOk env contents txSetHash txSet) :
    KnownOk env contents (known.insert txSetHash txSet) :=
  Table.forall_insert (P := FrameOk env contents) h hframe

theorem KnownOk.putTxSet (h : KnownOk env contents known) (txSetHash : Hash) :
    KnownOk env contents (known.putTxSet txSetHash (contents.txSets txSetHash)) := by
  unfold KnownTxSets.putTxSet
  split
  · exact h
  · exact h.insert (.fresh txSetHash)

theorem KnownOk.validateValueHelper (h : KnownOk env contents known) (driver : HerderSCPDriver) (lclHash : Hash)
    (slotIndex : UInt64) (b : DiamnetValue) (nomination : Bool) {res : ValidationLevel × KnownTxSets}
    (hrun : driver.validateValueHelper env (contents.lcl lclHash) slotIndex b nomination known = .ok res) :
    KnownOk env contents res.2 := by
  unfold HerderSCPDriver.validateValueHelper at hrun
  cases hbefore : driver.validateBeforeTxSet (contents.lcl lclHash).ltx.header slotIndex b nomination with
  | some level =>
    rw [hbefore] at hrun
    cases hrun
    exact h
  | none =>
    rw [hbefore] at hrun
    cases htxSet : known.lookup b.txSetHash with
    | none =>
      rw [htxSet] at hrun
      cases hrun
      exact h
    | some txSet =>
      rw [htxSet] at hrun
      obtain ⟨⟨result, txSet'⟩, hcheck, hres⟩ := bind_eq_ok.mp hrun
      cases hres
      exact h.insert ((h _ _ htxSet).after_checkValid hcheck)

theorem KnownOk.validateValue (h : KnownOk env contents known) (driver : HerderSCPDriver) (lclHash : Hash)
    (slotIndex : UInt64) (value : List UInt8) (nomination : Bool) {res : ValidationLevel × KnownTxSets}
    (hrun : driver.validateValue env (contents.lcl lclHash) slotIndex value nomination known = .ok res) :
    KnownOk env contents res.2 := by
  unfold HerderSCPDriver.validateValue at hrun
  cases hvalue : driver.valueFromOpaque value with
  | none =>
    rw [hvalue] at hrun
    cases hrun
    exact h
  | some b =>
    rw [hvalue] at hrun
    obtain ⟨r, hhelper, hres⟩ := bind_eq_ok.mp hrun
    have hknown := h.validateValueHelper driver lclHash slotIndex b nomination hhelper
    cases hres
    exact hknown

theorem KnownOk.call {known' : KnownTxSets} (h : KnownOk env contents known) (call : Call)
    (hrun : call.run env contents known = .ok known') : KnownOk env contents known' := by
  cases call with
  | putTxSet txSetHash =>
    cases hrun
    exact h.putTxSet txSetHash
  | expire txSetHash =>
    cases hrun
    exact Table.forall_erase (P := FrameOk env contents) h
  | checkValid txSetHash lclHash offsets =>
    rw [Call.run] at hrun
    cases htxSet : known.lookup txSetHash with
    | none =>
      rw [htxSet] at hrun
      cases hrun
      exact h
    | some txSet =>
      rw [htxSet] at hrun
      obtain ⟨⟨result, txSet'⟩, hcheck, hres⟩ := bind_eq_ok.mp hrun
      cases hres
      exact h.insert ((h _ _ htxSet).after_checkValid hcheck)
  | validateValue driver lclHash slotIndex value nomination =>
    obtain ⟨r, hvalidate, hres⟩ := bind_eq_ok.mp hrun
    have hknown := h.validateValue driver lclHash slotIndex value nomination hvalidate
    cases hres
    exact hknown

theorem runCalls_ok {calls : List Call} (hrun : runCalls env contents calls = .ok known) :
    KnownOk env contents known := by
  have hmeets : Meets (runCalls env contents calls) (KnownOk env contents) fun _ => True := by
    refine Meets.foldlM calls (fun known hknown call _ => ?_) fun hash txSet h => (nomatch h)
    cases hcall : call.run env contents known with
    | ok known' => exact hknown.call call hcall
    | error fault => trivial
  exact hmeets.of_ok hrun

/-! ### What the answers depend on -/

variable (env contents)

/-- The verdict on a set is the same for all close times. -/
def VerdictConstant (txSetHash lclHash : Hash) : Prop :=
  ∀ offsets offsets' result, (contents.txSets txSetHash).verdict env (contents.lcl lclHash) offsets = .ok result →
    (contents.txSets txSetHash).verdict env (contents.lcl lclHash) offsets' = .ok result

/-- Whatever calls were made before, `checkValid` on a set gives the same result. -/
def ChecksAlike (txSetHash lclHash : Hash) : Prop :=
  ∀ calls calls' known known' txSet txSet', runCalls env contents calls = .ok known →
    runCalls env contents calls' = .ok known' → known.lookup txSetHash = some txSet →
    known'.lookup txSetHash = some txSet' → ∀ offsets,
      (txSet.checkValid env (contents.lcl lclHash) offsets).map Prod.fst =
        (txSet'.checkValid env (contents.lcl lclHash) offsets).map Prod.fst

/-- Whatever calls were made before, a node that knows the set of a value comes to the same result. -/
def ValidatesAlike (txSetHash lclHash : Hash) : Prop :=
  ∀ calls calls' known known', runCalls env contents calls = .ok known → runCalls env contents calls' = .ok known' →
    (known.lookup txSetHash).isSome → (known'.lookup txSetHash).isSome →
    ∀ (driver : HerderSCPDriver) slotIndex value b nomination, driver.valueFromOpaque value = some b →
      b.txSetHash = txSetHash →
      (driver.validateValue env (contents.lcl lclHash) slotIndex value nomination known).map Prod.fst =
        (driver.validateValue env (contents.lcl lclHash) slotIndex value nomination known').map Prod.fst

variable {env contents}

theorem FrameOk.answer (h : FrameOk env contents txSetHash txSet)
    (hconstant : VerdictConstant env contents txSetHash lclHash) (offsets : CloseTimeOffsets) :
    (txSet.checkValid env (contents.lcl lclHash) offsets).map Prod.fst =
      (contents.txSets txSetHash).verdict env (contents.lcl lclHash) offsets := by
  rcases h.checkValid lclHash offsets with ⟨result, hvalid, hcheck⟩ | hcheck
  · obtain ⟨offsets', hverdict⟩ := h.remembers lclHash result hvalid
    rw [hcheck, hconstant offsets' offsets result hverdict]
    rfl
  · rw [hcheck]
    cases (contents.txSets txSetHash).verdict env (contents.lcl lclHash) offsets <;> rfl

theorem VerdictConstant.checksAlike (h : VerdictConstant env contents txSetHash lclHash) :
    ChecksAlike env contents txSetHash lclHash := by
  intro calls calls' known known' txSet txSet' hrun hrun' htxSet htxSet' offsets
  rw [(runCalls_ok hrun _ _ htxSet).answer h, (runCalls_ok hrun' _ _ htxSet').answer h]

/-- A validation consults the frame of the set and nothing else that earlier calls have changed. -/
theorem validateValueHelper_congr {driver : HerderSCPDriver} {lcl : LastClosedLedger} {slotIndex : UInt64}
    {b : DiamnetValue} {nomination : Bool} {known known' : KnownTxSets} {txSet txSet' : TxSetFrame}
    (htxSet : known.lookup b.txSetHash = some txSet) (htxSet' : known'.lookup b.txSetHash = some txSet')
    (h : ∀ offsets, (txSet.checkValid env lcl offsets).map Prod.fst = (txSet'.checkValid env lcl offsets).map Prod.fst) :
    (driver.validateValueHelper env lcl slotIndex b nomination known).map Prod.fst =
      (driver.validateValueHelper env lcl slotIndex b nomination known').map Prod.fst := by
  unfold HerderSCPDriver.validateValueHelper
  cases driver.validateBeforeTxSet lcl.ltx.header slotIndex b nomination with
  | some level => rfl
  | none =>
    rw [htxSet, htxSet']
    generalize HerderSCPDriver.closeTimeOffset lcl.ltx.header b = offset
    exact map_fst_bind (h ⟨offset, offset⟩) fun valid txSet txSet' => rfl

theorem ChecksAlike.validatesAlike (h : ChecksAlike env contents txSetHash lclHash) :
    ValidatesAlike env contents txSetHash lclHash := by
  intro calls calls' known known' hrun hrun' hsome hsome' driver slotIndex value b nomination hvalue hhash
  subst hhash
  obtain ⟨txSet, htxSet⟩ := Option.isSome_iff_exists.mp hsome
  obtain ⟨txSet', htxSet'⟩ := Option.isSome_iff_exists.mp hsome'
  have hhelper := @validateValueHelper_congr env driver (contents.lcl lclHash) slotIndex b nomination known known' _ _
    htxSet htxSet' (h calls calls' known known' txSet txSet' hrun hrun' htxSet htxSet')
  unfold HerderSCPDriver.validateValue
  rw [hvalue]
  exact map_fst_bind hhelper fun res known known' => rfl

theorem ChecksAlike.verdictConstant (h : ChecksAlike env contents txSetHash lclHash) :
    VerdictConstant env contents txSetHash lclHash := by
  intro offsets offsets' result hverdict
  -- a node that has checked the set before, and one that has not
  have hput : runCalls env contents [.putTxSet txSetHash] =
      .ok ((∅ : KnownTxSets).insert txSetHash (contents.txSets txSetHash)) := rfl
  have hlookup : ((∅ : KnownTxSets).insert txSetHash (contents.txSets txSetHash)).lookup txSetHash =
      some (contents.txSets txSetHash) := AList.lookup_insert _
  have hframe : FrameOk env contents txSetHash (contents.txSets txSetHash) := .fresh txSetHash
  have hfirst : ∀ offsets, (contents.txSets txSetHash).checkValid env (contents.lcl lclHash) offsets =
      ((contents.txSets txSetHash).verdict env (contents.lcl lclHash) offsets).map fun result =>
        (result, { contents.txSets txSetHash with valid := some (lclHash, result) }) := by
    intro offsets
    refine (hframe.checkValid lclHash offsets).resolve_left ?_
    rintro ⟨result, hvalid, -⟩
    rw [contents.fresh txSetHash] at hvalid
    cases hvalid
  have hcheck : runCalls env contents [.putTxSet txSetHash, .checkValid txSetHash lclHash offsets] =
      .ok (((∅ : KnownTxSets).insert txSetHash (contents.txSets txSetHash)).insert txSetHash
        { contents.txSets txSetHash with valid := some (lclHash, result) }) := by
    show (Call.checkValid txSetHash lclHash offsets).run env contents
      ((∅ : KnownTxSets).insert txSetHash (contents.txSets txSetHash)) >>= _ = _
    rw [Call.run, hlookup]
    dsimp only
    rw [hfirst, hverdict]
    rfl
  have halike := h _ _ _ _ _ _ hcheck hput (AList.lookup_insert _) hlookup offsets'
  have hremembered : ({ contents.txSets txSetHash with valid := some (lclHash, result) } : TxSetFrame).remembered
      (contents.lcl lclHash) = some result := if_pos rfl
  rw [hfirst offsets'] at halike
  unfold TxSetFrame.checkValid at halike
  rw [hremembered] at halike
  cases hother : (contents.txSets txSetHash).verdict env (contents.lcl lclHash) offsets' with
  | error fault =>
    rw [hother] at halike
    cases halike
  | ok result' =>
    rw [hother] at halike
    cases halike
    rfl

/-- **The result of a validation does not depend on the calls made before if no transaction of the set has
time bounds**, and for a set that is valid at some close times only then. -/
theorem validation_alike_iff (env : Environment) (contents : Contents) (txSetHash lclHash : Hash) :
    ((∀ ptr ∈ (contents.txSets txSetHash).transactions, AnyTime ptr.tx) →
      ChecksAlike env contents txSetHash lclHash ∧ ValidatesAlike env contents txSetHash lclHash) ∧
    ((∃ offsets, (contents.txSets txSetHash).verdict env (contents.lcl lclHash) offsets = .ok true) →
      ChecksAlike env contents txSetHash lclHash ∧ ValidatesAlike env contents txSetHash lclHash →
      ∀ ptr ∈ (contents.txSets txSetHash).transactions, AnyTime ptr.tx) := by
  constructor
  · intro h
    have hconstant : VerdictConstant env contents txSetHash lclHash := by
      intro offsets offsets' result hverdict
      rw [← hverdict]
      exact verdict_with_valid (fun ptr hptr => (h ptr hptr).timeless) (contents.txSets txSetHash).valid
    exact ⟨hconstant.checksAlike, hconstant.checksAlike.validatesAlike⟩
  · intro ⟨offsets, hverdict⟩ h ptr hptr
    refine @anyTime_of_valid env (contents.lcl lclHash) ptr fun offsets' => ?_
    have hvalid := h.1.verdictConstant offsets offsets' true hverdict
    obtain ⟨id, hid, hqueue⟩ := List.mem_flatMap.mp ((flatMap_accountTxQueue_perm _).mem_iff.mpr hptr)
    exact ((chainFrom_of_verdict hvalid).2 _ (List.mem_map_of_mem hid)).valid ptr hqueue

/-- Account 1 has a transaction that may be in a ledger closed at 105 at the latest. -/
def boundedTx : Contents where
  ledgers := fun _ => oneAccount.ltx
  txSets := fun _ => { previousLedgerHash := 7, transactions := [⟨0, .tx (bumpTx 6 (some ⟨0, 105⟩))⟩] }
  fresh := fun _ => rfl

/-- Values are the set 9 with the close time that is their first byte. -/
def closeTimeDriver : HerderSCPDriver where
  timeNow := 100
  trackingSCP := none
  verifySig := fun _ _ _ => true
  valueFromOpaque := fun value => value.head?.map fun closeTime => ⟨9, closeTime.toUInt64, [], some ⟨0, []⟩⟩
  upgradeFromOpaque := fun _ => none
  maxLedgerVersion := 15

/-- The value with close time 110 is invalid, but not for a node that has validated the same
set with close time 104. -/
theorem lateValue_fullyValidated :
    let late known := closeTimeDriver.validateValue openNetwork (boundedTx.lcl 7) 101 [110] false known
    (runCalls openNetwork boundedTx [.putTxSet 9] >>= late).map Prod.fst = .ok .invalidValue ∧
    (runCalls openNetwork boundedTx [.putTxSet 9, .validateValue closeTimeDriver 7 101 [104] false] >>= late).map
      Prod.fst = .ok .fullyValidatedValue := by
  decide +kernel

end Diamnet.Herder
