import Diamnet.Transactions.OperationFrame
import Diamnet.Transactions.SignatureChecker

/-! Transactions and their validity (`TransactionFrame.cpp`, `FeeBumpTransactionFrame.cpp`).

`checkValid` reads the ledger and changes nothing. It stops with the result code of the
transaction, or with a fault if the ledger is not as it should be. The account cached
before version 8 is the loaded one as long as nothing changes, and is left out. -/
namespace Diamnet.Transactions
open Ledger AccountEntry

inductive TransactionResultCode where
  | txFailed
  | txTooEarly
  | txTooLate
  | txMissingOperation
  | txBadSeq
  | txBadAuth
  | txInsufficientBalance
  | txNoAccount
  | txInsufficientFee
  | txBadAuthExtra
  | txNotSupported
  | txFeeBumpInnerFailed
deriving DecidableEq

inductive TransactionFailure where
  | result (code : TransactionResultCode)
  | fault (fault : Fault)
deriving DecidableEq

def demand (c : Prop) [Decidable c] (code : TransactionResultCode) : Except TransactionFailure Unit :=
  if c then pure () else throw (.result code)

/-- Go on with the value of a computation that may fault. -/
def unfaulted {α : Type} : Except Fault α → Except TransactionFailure α
  | .ok a => pure a
  | .error f => throw (.fault f)

/-! ### Operations before they are applied -/

inductive ThresholdLevel where
  | low
  | medium
  | high
deriving DecidableEq

def getNeededThreshold (acc : AccountEntry) : ThresholdLevel → Nat
  | .low => acc.thresholds.low
  | .medium => acc.thresholds.med
  | .high => acc.thresholds.high

/-- Updating thresholds or a signer requires the high threshold. -/
def SetOptionsOp.getThresholdLevel (op : SetOptionsOp) : ThresholdLevel :=
  if op.masterWeight.isSome || op.lowThreshold.isSome || op.medThreshold.isSome || op.highThreshold.isSome ||
    op.signer.isSome then .high
  else .medium

def OperationBody.getThresholdLevel : OperationBody → ThresholdLevel
  | .allowTrust _ => .low
  | .bumpSequence _ => .low
  | .claimClaimableBalance _ => .low
  | .inflation => .low
  | .accountMerge _ => .high
  | .setOptions op => op.getThresholdLevel
  | _ => .medium

structure Operation where
  sourceAccount : Option AccountID
  body : OperationBody

/-- The signers of an account, the master key among them if it has a weight. -/
def signersOf (id : AccountID) (acc : AccountEntry) : List Signer :=
  (if acc.thresholds.masterWeight ≠ 0 then [⟨.ed25519 id, acc.thresholds.masterWeight⟩] else []) ++ acc.signers

namespace Operation

def getSourceID (op : Operation) (txSource : AccountID) : AccountID := op.sourceAccount.getD txSource

/-- `checkSignature` with `forApply` false. An account that is not there signs with its own key. -/
def checkSignature (crypto : Crypto) (ltx : LedgerTxn) (txSource : AccountID) (op : Operation)
    (checker : SignatureChecker) : Except TransactionFailure SignatureChecker :=
  match ltx.accounts.lookup (op.getSourceID txSource) with
  | some acc => do
    let (signed, checker) := checker.checkSignature crypto (signersOf (op.getSourceID txSource) acc)
      (getNeededThreshold acc op.body.getThresholdLevel)
    demand (signed = true) .txFailed
    pure checker
  | none =>
    match op.sourceAccount with
    | none => throw (.result .txFailed)
    | some id => do
      let (signed, checker) := checker.checkSignature crypto [⟨.ed25519 id, 1⟩] 0
      demand (signed = true) .txFailed
      pure checker

/-- `checkValid` with `forApply` false; a failed operation fails the transaction. -/
def checkValid (crypto : Crypto) (ltx : LedgerTxn) (txSource : AccountID) (op : Operation)
    (checker : SignatureChecker) : Except TransactionFailure SignatureChecker := do
  demand (op.body.isVersionSupported ltx.header.ledgerVersion = true) .txFailed
  let checker ← op.checkSignature crypto ltx txSource checker
  demand ((op.body.doCheckValid (op.getSourceID txSource) ltx.header.ledgerVersion).isOk = true) .txFailed
  pure checker

end Operation

/-! ### Transactions -/

inductive EnvelopeType where
  | txV0
  | tx
deriving DecidableEq

/-- Zero stands for no bound. -/
structure TimeBounds where
  minTime : UInt64
  maxTime : UInt64
deriving DecidableEq

def MAX_OPS_PER_TX : Nat := 100

/-- A transaction with its envelope. -/
structure TransactionFrame where
  envelopeType : EnvelopeType
  sourceAccount : AccountID
  fee : UInt32
  seqNum : Int
  timeBounds : Option TimeBounds := none
  operations : List Operation
  signatures : List DecoratedSignature
  /-- Whether some account in the envelope is a multiplexed one. -/
  hasMuxedAccount : Bool := false
  /-- The bounds of the XDR types. -/
  seqNum_range : INT64_MIN ≤ seqNum ∧ seqNum ≤ INT64_MAX
  operations_le : operations.length ≤ MAX_OPS_PER_TX

/-- A transaction whose fee another account pays. -/
structure FeeBumpTransactionFrame where
  feeSource : AccountID
  fee : Int
  innerTx : TransactionFrame
  signatures : List DecoratedSignature
  fee_range : INT64_MIN ≤ fee ∧ fee ≤ INT64_MAX
  innerTx_type : innerTx.envelopeType = .tx

/-- The hashes of transactions: that of what is signed, and that of the whole envelope. -/
structure TransactionHashes where
  contentsHash : TransactionFrame → Hash
  fullHash : TransactionFrame → Hash
  feeBumpContentsHash : FeeBumpTransactionFrame → Hash
  feeBumpFullHash : FeeBumpTransactionFrame → Hash

/-- Hashing, signatures and the hashes of transactions. -/
structure Network extends Crypto, TransactionHashes

def minFeeOf (lh : LedgerHeader) (numOperations : Nat) : Int := lh.baseFee * max 1 (numOperations : Int)

namespace TransactionFrame

def getNumOperations (tx : TransactionFrame) : Nat := tx.operations.length

def getFeeBid (tx : TransactionFrame) : Int := tx.fee.toNat

def getMinFee (tx : TransactionFrame) (lh : LedgerHeader) : Int := minFeeOf lh tx.getNumOperations

def isTooEarly (tx : TransactionFrame) (lh : LedgerHeader) (lowerBoundCloseTimeOffset : UInt64) : Bool :=
  tx.timeBounds.any fun tb => tb.minTime ≠ 0 && tb.minTime > UInt64.ofNat lh.closeTime + lowerBoundCloseTimeOffset

def isTooLate (tx : TransactionFrame) (lh : LedgerHeader) (upperBoundCloseTimeOffset : UInt64) : Bool :=
  tx.timeBounds.any fun tb => tb.maxTime ≠ 0 && tb.maxTime < UInt64.ofNat lh.closeTime + upperBoundCloseTimeOffset

/-- Whether the version has this kind of envelope. -/
def isEnvelopeSupported (tx : TransactionFrame) (ledgerVersion : Nat) : Bool :=
  !((ledgerVersion < 13 && (tx.envelopeType = .tx || tx.hasMuxedAccount)) ||
    (ledgerVersion ≥ 13 && tx.envelopeType = .txV0))

/-- What is independent of the state of the account; the account is returned. -/
def commonValidPreSeqNum (tx : TransactionFrame) (ltx : LedgerTxn) (chargeFee : Bool)
    (lowerBoundCloseTimeOffset upperBoundCloseTimeOffset : UInt64) : Except TransactionFailure AccountEntry := do
  demand (tx.isEnvelopeSupported ltx.header.ledgerVersion = true) .txNotSupported
  demand (tx.getNumOperations ≠ 0) .txMissingOperation
  demand (tx.isTooEarly ltx.header lowerBoundCloseTimeOffset = false) .txTooEarly
  demand (tx.isTooLate ltx.header upperBoundCloseTimeOffset = false) .txTooLate
  demand ((if chargeFee then tx.getMinFee ltx.header else 0) ≤ tx.getFeeBid) .txInsufficientFee
  match ltx.accounts.lookup tx.sourceAccount with
  | none => throw (.result .txNoAccount)
  | some acc => pure acc

def isBadSeq (tx : TransactionFrame) (seqNum : Int) : Bool := seqNum = INT64_MAX || seqNum + 1 ≠ tx.seqNum

/-- The sequence number before this one: a `current` of zero stands for the account's own. -/
def seqNumBefore (acc : AccountEntry) (current : Int) : Int := if current = 0 then acc.seqNum else current

def commonValid (network : Network) (tx : TransactionFrame) (ltx : LedgerTxn) (current : Int) (chargeFee : Bool)
    (lowerBoundCloseTimeOffset upperBoundCloseTimeOffset : UInt64) (checker : SignatureChecker) :
    Except TransactionFailure SignatureChecker := do
  let acc ← tx.commonValidPreSeqNum ltx chargeFee lowerBoundCloseTimeOffset upperBoundCloseTimeOffset
  demand (tx.isBadSeq (seqNumBefore acc current) = false) .txBadSeq
  let (signed, checker) := checker.checkSignature network.toCrypto (signersOf tx.sourceAccount acc) acc.thresholds.low
  demand (signed = true) .txBadAuth
  if chargeFee then do
    let available ← unfaulted (getAvailableBalance ltx.header acc)
    demand (tx.getFeeBid ≤ available) .txInsufficientBalance
    pure checker
  else pure checker

/-- `checkValid`; the inner transaction of a fee bump is not charged. -/
def checkValid (network : Network) (tx : TransactionFrame) (ltx : LedgerTxn) (current : Int) (chargeFee : Bool)
    (lowerBoundCloseTimeOffset upperBoundCloseTimeOffset : UInt64) : Except TransactionFailure Unit := do
  let checker := SignatureChecker.new ltx.header.ledgerVersion (network.contentsHash tx) tx.signatures
  let checker ← tx.commonValid network ltx current chargeFee lowerBoundCloseTimeOffset upperBoundCloseTimeOffset checker
  let checker ← tx.operations.foldlM
    (fun checker op => op.checkValid network.toCrypto ltx tx.sourceAccount checker) checker
  demand (checker.checkAllSignaturesUsed = true) .txBadAuthExtra

end TransactionFrame

namespace FeeBumpTransactionFrame

def getNumOperations (tx : FeeBumpTransactionFrame) : Nat := tx.innerTx.getNumOperations + 1

def getMinFee (tx : FeeBumpTransactionFrame) (lh : LedgerHeader) : Int := minFeeOf lh tx.getNumOperations

def commonValidPreSeqNum (tx : FeeBumpTransactionFrame) (ltx : LedgerTxn) : Except TransactionFailure AccountEntry := do
  demand (ltx.header.ledgerVersion ≥ 13) .txNotSupported
  demand (tx.getMinFee ltx.header ≤ tx.fee) .txInsufficientFee
  -- the bid for an operation is not below the inner transaction's
  demand (tx.innerTx.getFeeBid * tx.getMinFee ltx.header ≤ tx.fee * tx.innerTx.getMinFee ltx.header) .txInsufficientFee
  match ltx.accounts.lookup tx.feeSource with
  | none => throw (.result .txNoAccount)
  | some acc => pure acc

def commonValid (network : Network) (tx : FeeBumpTransactionFrame) (ltx : LedgerTxn) (checker : SignatureChecker) :
    Except TransactionFailure SignatureChecker := do
  let feeSource ← tx.commonValidPreSeqNum ltx
  let (signed, checker) := checker.checkSignature network.toCrypto (signersOf tx.feeSource feeSource)
    feeSource.thresholds.low
  demand (signed = true) .txBadAuth
  let available ← unfaulted (getAvailableBalance ltx.header feeSource)
  demand (tx.fee ≤ available) .txInsufficientBalance
  pure checker

/-- The result code of the inner transaction is not that of the fee bump. -/
def innerResult : Except TransactionFailure Unit → Except TransactionFailure Unit
  | .error (.result _) => throw (.result .txFeeBumpInnerFailed)
  | r => r

def checkValid (network : Network) (tx : FeeBumpTransactionFrame) (ltx : LedgerTxn) (current : Int)
    (lowerBoundCloseTimeOffset upperBoundCloseTimeOffset : UInt64) : Except TransactionFailure Unit := do
  let checker := SignatureChecker.new ltx.header.ledgerVersion (network.feeBumpContentsHash tx) tx.signatures
  let checker ← tx.commonValid network ltx checker
  demand (checker.checkAllSignaturesUsed = true) .txBadAuthExtra
  innerResult (tx.innerTx.checkValid network ltx current false lowerBoundCloseTimeOffset upperBoundCloseTimeOffset)

end FeeBumpTransactionFrame

/-- A transaction of either kind. -/
inductive TransactionFrameBase where
  | tx (frame : TransactionFrame)
  | feeBump (frame : FeeBumpTransactionFrame)

namespace TransactionFrameBase

def getFullHash (network : Network) : TransactionFrameBase → Hash
  | .tx frame => network.fullHash frame
  | .feeBump frame => network.feeBumpFullHash frame

def getSourceID : TransactionFrameBase → AccountID
  | .tx frame => frame.sourceAccount
  | .feeBump frame => frame.innerTx.sourceAccount

def getFeeSourceID : TransactionFrameBase → AccountID
  | .tx frame => frame.sourceAccount
  | .feeBump frame => frame.feeSource

def getSeqNum : TransactionFrameBase → Int
  | .tx frame => frame.seqNum
  | .feeBump frame => frame.innerTx.seqNum

def getNumOperations : TransactionFrameBase → Nat
  | .tx frame => frame.getNumOperations
  | .feeBump frame => frame.getNumOperations

def getFeeBid : TransactionFrameBase → Int
  | .tx frame => frame.getFeeBid
  | .feeBump frame => frame.fee

def getMinFee (tx : TransactionFrameBase) (lh : LedgerHeader) : Int := minFeeOf lh tx.getNumOperations

def timeBounds : TransactionFrameBase → Option TimeBounds
  | .tx frame => frame.timeBounds
  | .feeBump frame => frame.innerTx.timeBounds

def checkValid (network : Network) (tx : TransactionFrameBase) (ltx : LedgerTxn) (current : Int)
    (lowerBoundCloseTimeOffset upperBoundCloseTimeOffset : UInt64) : Except TransactionFailure Unit :=
  match tx with
  | .tx frame => frame.checkValid network ltx current true lowerBoundCloseTimeOffset upperBoundCloseTimeOffset
  | .feeBump frame => frame.checkValid network ltx current lowerBoundCloseTimeOffset upperBoundCloseTimeOffset

end TransactionFrameBase

/-! ### What a valid transaction is known to be -/

def BrokenBalance (ltx : LedgerTxn) (fault : Fault) : Prop :=
  ∃ id acc, ltx.accounts.lookup id = some acc ∧ getAvailableBalance ltx.header acc = .error fault

/-- A transaction stops with a result code, or at a broken balance. -/
def StopsAt (ltx : LedgerTxn) (failure : TransactionFailure) : Prop :=
  ∀ fault, failure = .fault fault → BrokenBalance ltx fault

theorem meets_demand {c : Prop} [Decidable c] {code : TransactionResultCode} {ltx : LedgerTxn} :
    Meets (demand c code) (fun _ => c) (StopsAt ltx) := by
  unfold demand
  by_cases h : c
  · rw [if_pos h]
    exact h
  · rw [if_neg h]
    exact fun fault hf => (nomatch hf)

theorem meets_unfaulted {ltx : LedgerTxn} {id : AccountID} {acc : AccountEntry} (hacc : ltx.accounts.lookup id = some acc) :
    Meets (unfaulted (getAvailableBalance ltx.header acc))
      (fun available => getAvailableBalance ltx.header acc = .ok available) (StopsAt ltx) := by
  cases h : getAvailableBalance ltx.header acc with
  | ok available => exact (rfl : Except.ok available = Except.ok available)
  | error f =>
    intro fault hf
    cases hf
    exact ⟨id, acc, hacc, h⟩

theorem minFeeOf_nonneg (lh : LedgerHeader) (n : Nat) : 0 ≤ minFeeOf lh n :=
  mul_nonneg (Int.natCast_nonneg _) (le_max_of_le_left Int.one_nonneg)

def CanPay (ltx : LedgerTxn) (id : AccountID) (bid : Int) : Prop :=
  ∃ acc available, ltx.accounts.lookup id = some acc ∧
    getAvailableBalance ltx.header acc = .ok available ∧ bid ≤ available

theorem Operation.checkValid_stops (crypto : Crypto) (ltx : LedgerTxn) (txSource : AccountID) (op : Operation)
    (checker : SignatureChecker) :
    Meets (op.checkValid crypto ltx txSource checker) (fun _ => True) (StopsAt ltx) := by
  have hsigned : Meets (op.checkSignature crypto ltx txSource checker) (fun _ => True) (StopsAt ltx) := by
    unfold checkSignature
    split
    · exact meets_demand.bind fun _ _ => trivial
    · split
      · exact fun fault hf => (nomatch hf)
      · exact meets_demand.bind fun _ _ => trivial
  exact meets_demand.bind fun _ _ => hsigned.bind fun _ _ => meets_demand.bind fun _ _ => trivial

namespace TransactionFrame

theorem meets_commonValidPreSeqNum (tx : TransactionFrame) (ltx : LedgerTxn) (chargeFee : Bool) (lower upper : UInt64) :
    Meets (tx.commonValidPreSeqNum ltx chargeFee lower upper)
      (fun acc => (tx.isTooEarly ltx.header lower = false ∧ tx.isTooLate ltx.header upper = false) ∧
        tx.getNumOperations ≠ 0 ∧ (if chargeFee then tx.getMinFee ltx.header else 0) ≤ tx.getFeeBid ∧
        ltx.accounts.lookup tx.sourceAccount = some acc) (StopsAt ltx) := by
  refine meets_demand.bind fun _ _ => meets_demand.bind fun _ hops => meets_demand.bind fun _ hearly =>
    meets_demand.bind fun _ hlate => meets_demand.bind fun _ hfee => ?_
  cases hacc : ltx.accounts.lookup tx.sourceAccount with
  | none => exact fun fault hf => (nomatch hf)
  | some acc => exact ⟨⟨hearly, hlate⟩, hops, hfee, rfl⟩

theorem inTime_of_checkValid {network : Network} {tx : TransactionFrame} {ltx : LedgerTxn} {current : Int}
    {chargeFee : Bool} {lower upper : UInt64} (h : tx.checkValid network ltx current chargeFee lower upper = .ok ()) :
    tx.isTooEarly ltx.header lower = false ∧ tx.isTooLate ltx.header upper = false := by
  obtain ⟨_, hcommon, -⟩ := bind_eq_ok.mp h
  obtain ⟨_, hpre, -⟩ := bind_eq_ok.mp hcommon
  exact ((tx.meets_commonValidPreSeqNum ltx chargeFee lower upper).of_ok hpre).1

/-- What a valid transaction is: it has operations, it is the next of its account, and if it is
charged its bid is enough and can be paid. -/
structure Valid (tx : TransactionFrame) (ltx : LedgerTxn) (current : Int) (chargeFee : Bool) : Prop where
  operations : tx.getNumOperations ≠ 0
  next : ∃ acc, ltx.accounts.lookup tx.sourceAccount = some acc ∧ seqNumBefore acc current ≠ INT64_MAX ∧
    seqNumBefore acc current + 1 = tx.seqNum
  charged : chargeFee = true → tx.getMinFee ltx.header ≤ tx.getFeeBid ∧ CanPay ltx tx.sourceAccount tx.getFeeBid

theorem meets_checkValid (network : Network) (tx : TransactionFrame) (ltx : LedgerTxn) (current : Int) (chargeFee : Bool)
    (lower upper : UInt64) :
    Meets (tx.checkValid network ltx current chargeFee lower upper) (fun _ => tx.Valid ltx current chargeFee)
      (StopsAt ltx) := by
  have hcommon : ∀ checker, Meets (tx.commonValid network ltx current chargeFee lower upper checker)
      (fun _ => tx.Valid ltx current chargeFee) (StopsAt ltx) := by
    intro checker
    refine (tx.meets_commonValidPreSeqNum ltx chargeFee lower upper).bind fun acc hacc => ?_
    obtain ⟨-, hops, hfee, hacc⟩ := hacc
    refine meets_demand.bind fun _ hseq => meets_demand.bind fun _ _ => ?_
    have hnext : seqNumBefore acc current ≠ INT64_MAX ∧ seqNumBefore acc current + 1 = tx.seqNum := by
      simpa [isBadSeq] using hseq
    cases chargeFee with
    | false => exact ⟨hops, ⟨acc, hacc, hnext⟩, fun h => (nomatch h)⟩
    | true =>
      refine (meets_unfaulted hacc).bind fun available havailable => meets_demand.bind fun _ hpay => ?_
      exact ⟨hops, ⟨acc, hacc, hnext⟩, fun _ => ⟨hfee, ⟨acc, available, hacc, havailable, hpay⟩⟩⟩
  refine (hcommon _).bind fun checker hvalid => ?_
  have hops : Meets (tx.operations.foldlM
      (fun checker op => op.checkValid network.toCrypto ltx tx.sourceAccount checker) checker)
      (fun _ => True) (StopsAt ltx) :=
    Meets.foldlM _ (fun checker _ op _ => Operation.checkValid_stops _ _ _ _ _) trivial
  exact hops.bind fun _ _ => meets_demand.mono (fun _ _ => hvalid) fun _ h => h

end TransactionFrame

theorem FeeBumpTransactionFrame.meets_commonValid (network : Network) (tx : FeeBumpTransactionFrame) (ltx : LedgerTxn)
    (checker : SignatureChecker) :
    Meets (tx.commonValid network ltx checker)
      (fun _ => tx.getMinFee ltx.header ≤ tx.fee ∧ CanPay ltx tx.feeSource tx.fee) (StopsAt ltx) := by
  have hpre : Meets (tx.commonValidPreSeqNum ltx)
      (fun acc => tx.getMinFee ltx.header ≤ tx.fee ∧ ltx.accounts.lookup tx.feeSource = some acc) (StopsAt ltx) := by
    refine meets_demand.bind fun _ _ => meets_demand.bind fun _ hfee => meets_demand.bind fun _ _ => ?_
    cases hacc : ltx.accounts.lookup tx.feeSource with
    | none => exact fun fault hf => (nomatch hf)
    | some acc => exact ⟨hfee, rfl⟩
  refine hpre.bind fun acc hacc => meets_demand.bind fun _ _ => ?_
  refine (meets_unfaulted hacc.2).bind fun available havailable => meets_demand.bind fun _ hpay => ?_
  exact ⟨hacc.1, ⟨acc, available, hacc.2, havailable, hpay⟩⟩

namespace TransactionFrameBase

/-- What a valid transaction of either kind is. -/
structure Valid (tx : TransactionFrameBase) (ltx : LedgerTxn) (current : Int) : Prop where
  operations : tx.getNumOperations ≠ 0
  next : ∃ acc, ltx.accounts.lookup tx.getSourceID = some acc ∧ TransactionFrame.seqNumBefore acc current ≠ INT64_MAX ∧
    TransactionFrame.seqNumBefore acc current + 1 = tx.getSeqNum
  minFee : tx.getMinFee ltx.header ≤ tx.getFeeBid
  canPay : CanPay ltx tx.getFeeSourceID tx.getFeeBid

theorem meets_checkValid (network : Network) (tx : TransactionFrameBase) (ltx : LedgerTxn) (current : Int)
    (lower upper : UInt64) :
    Meets (tx.checkValid network ltx current lower upper) (fun _ => tx.Valid ltx current) (StopsAt ltx) := by
  cases tx with
  | tx frame =>
    refine (frame.meets_checkValid network ltx current true lower upper).mono (fun _ h => ?_) fun _ h => h
    exact ⟨h.operations, h.next, (h.charged rfl).1, (h.charged rfl).2⟩
  | feeBump frame =>
    refine (frame.meets_commonValid network ltx _).bind fun _ hcommon => meets_demand.bind fun _ _ => ?_
    have hinner := frame.innerTx.meets_checkValid network ltx current false lower upper
    cases hrun : frame.innerTx.checkValid network ltx current false lower upper with
    | ok _ =>
      have hvalid := hinner.of_ok hrun
      exact ⟨Nat.succ_ne_zero _, hvalid.next, hcommon.1, hcommon.2⟩
    | error failure =>
      have hstop := hinner.of_error hrun
      cases failure with
      | result code => exact fun fault hf => (nomatch hf)
      | fault f => exact hstop

theorem Valid.feeBid_nonneg {tx : TransactionFrameBase} {ltx : LedgerTxn} {current : Int} (h : tx.Valid ltx current) :
    0 ≤ tx.getFeeBid :=
  (minFeeOf_nonneg _ _).trans h.minFee

end TransactionFrameBase

end Diamnet.Transactions
