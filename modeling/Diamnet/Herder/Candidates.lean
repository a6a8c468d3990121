import Diamnet.Herder.ValueValidation
import Diamnet.Transactions.ExchangeBounds

/-! The values that a node makes of those of others (`HerderSCPDriver.cpp`, `TxSetFrame.cpp`).

While a slot is nominated, `extractValidValue` takes the upgrades that are not valid out of a value,
and `combineCandidates` makes one value of all candidates. The extraction looks at the upgrades one
by one, but their types have to go up as well for a value to be valid, so not all that is extracted
is valid (`extractValidValue_valid_iff`). What is combined always is. -/
namespace Diamnet.Herder
open Ledger Transactions List Upgrades Option

/-! ### Fees of a set -/

/-- What a signed 64-bit integer holds of a result. -/
def toInt64 (x : Int) : Int := x.bmod (2 ^ 64)

def getFee (tx : TransactionFrameBase) (header : LedgerHeader) (baseFee : Int) (applying : Bool) : Int :=
  let adjustedFee := toInt64 (baseFee * max 1 (tx.getNumOperations : Int))
  match tx with
  | .tx frame =>
    if header.ledgerVersion ≥ 11 ∨ ¬applying then
      if applying then min frame.getFeeBid adjustedFee else adjustedFee
    else frame.getFeeBid
  | .feeBump frame => if applying then min frame.fee adjustedFee else adjustedFee

namespace TxSetFrame

/-- The lowest bid for an operation if surge pricing was in action. -/
def getBaseFee (set : TxSetFrame) (lh : LedgerHeader) : Except Fault Int :=
  if lh.ledgerVersion ≥ 11 then do
    let lowBaseFee ← set.transactions.foldlM (fun lowBaseFee ptr => do
      let txBaseFee ← bigDivide ptr.getFeeBid 1 ptr.getNumOperations .roundUp
      return min lowBaseFee txBaseFee) INT64_MAX
    let surgeOpsCutoff := if lh.maxTxSetSize ≥ MAX_OPS_PER_TX then lh.maxTxSetSize - MAX_OPS_PER_TX else 0
    return if set.sizeOp > surgeOpsCutoff then lowBaseFee else lh.baseFee
  else pure lh.baseFee

def getTotalFees (set : TxSetFrame) (lh : LedgerHeader) : Except Fault Int := do
  let baseFee ← set.getBaseFee lh
  return set.transactions.foldl (fun t ptr => toInt64 (t + getFee ptr.tx lh baseFee true)) 0

end TxSetFrame

/-- Whether the first of two sets is less than the second. -/
def compareTxSets (l r : Option TxSetFrame) (lh rh : Hash) (header : LedgerHeader) (s : Hash) : Except Fault Bool :=
  match l, r with
  | none, r => pure r.isSome
  | some _, none => pure false
  | some l, some r =>
    if l.size header < r.size header then pure true
    else if l.size header > r.size header then pure false
    else if header.ledgerVersion ≥ 11 then do
      let lFee ← l.getTotalFees header
      let rFee ← r.getTotalFees header
      if lFee < rFee then pure true
      else if lFee > rFee then pure false
      else pure (lessThanXored lh rh s)
    else pure (lessThanXored lh rh s)

/-! ### Extraction and combination -/

def LedgerUpgrade.newValue : LedgerUpgrade → Nat
  | .version x => x
  | .baseFee x => x
  | .maxTxSetSize x => x
  | .baseReserve x => x

/-- An upgrade with the greater of its parameter and that of another one of its type. -/
def LedgerUpgrade.raise : LedgerUpgrade → LedgerUpgrade → LedgerUpgrade
  | .version x, u => .version (max x u.newValue)
  | .baseFee x, u => .baseFee (max x u.newValue)
  | .maxTxSetSize x, u => .maxTxSetSize (max x u.newValue)
  | .baseReserve x, u => .baseReserve (max x u.newValue)

/-- An upgrade goes into the map of upgrades by type, which is a list in the order of the types. -/
def addUpgrade (lupgrade : LedgerUpgrade) : List LedgerUpgrade → List LedgerUpgrade
  | [] => [lupgrade]
  | clUpgrade :: rest =>
    if lupgrade.type < clUpgrade.type then lupgrade :: clUpgrade :: rest
    else if lupgrade.type = clUpgrade.type then clUpgrade.raise lupgrade :: rest
    else clUpgrade :: addUpgrade lupgrade rest

def fromOpaque {α : Type} (decode : List UInt8 → Option α) (values : List (List UInt8)) : Except Fault (List α) :=
  values.mapM fun value =>
    match decode value with
    | some a => pure a
    | none => throw (.runtimeError "xdr_runtime_error")

namespace HerderSCPDriver
variable (env : Environment) (lcl : LastClosedLedger) (driver : HerderSCPDriver)

/-- The value without the upgrade steps that the node does not like. -/
def extractValidValue (slotIndex : UInt64) (value : List UInt8) (known : KnownTxSets) :
    Except Fault (Option DiamnetValue × KnownTxSets) :=
  match driver.valueFromOpaque value with
  | none => pure (none, known)
  | some b => do
    let (res, known) ← driver.validateValueHelper env lcl slotIndex b true known
    let upgrades := b.upgrades.filter fun upgrade => (isValid driver lcl.ltx.header true upgrade).isSome
    return (if res = .fullyValidatedValue then some { b with upgrades } else none, known)

/-- The candidate with the highest transaction set so far, after one more. -/
def pickTxSet (known : KnownTxSets) (candidatesHash : Hash) (highest : Option (DiamnetValue × TxSetFrame))
    (sv : DiamnetValue) : Except Fault (Option (DiamnetValue × TxSetFrame)) :=
  match known.lookup sv.txSetHash with
  | none => pure highest
  | some cTxSet =>
    if cTxSet.previousLedgerHash = lcl.hash then
      match highest with
      | none => pure (some (sv, cTxSet))
      | some (value, highestTxSet) => do
        let less ← compareTxSets (some highestTxSet) (some cTxSet) value.txSetHash sv.txSetHash lcl.ltx.header
          candidatesHash
        return if less then some (sv, cTxSet) else highest
    else pure highest

def candidatesHash (candidates : List (List UInt8)) : Hash :=
  candidates.foldl (fun h value => h ^^^ env.network.sha256 value) 0

/-- What is made of the candidate with the highest set. -/
def composite (comp : DiamnetValue) (maxCloseTime : UInt64) (upgrades : List (List UInt8)) : DiamnetValue :=
  if curProtocolPreservesTxSetCloseTimeAffinity lcl.ltx.header then { comp with upgrades }
  else { comp with closeTime := maxCloseTime, lcValueSignature := none, upgrades }

variable (upgradeToOpaque : LedgerUpgrade → List UInt8)

def combineCandidates (candidates : List (List UInt8)) (known : KnownTxSets) : Except Fault DiamnetValue := do
  let candidateValues ← fromOpaque driver.valueFromOpaque candidates
  let maxCloseTime := candidateValues.foldl (fun t sv => if t < sv.closeTime then sv.closeTime else t) 0
  let lupgrades ← fromOpaque driver.upgradeFromOpaque (candidateValues.flatMap (·.upgrades))
  let upgrades := lupgrades.foldl (fun upgrades lupgrade => addUpgrade lupgrade upgrades) []
  match ← candidateValues.foldlM (pickTxSet lcl known (candidatesHash env candidates)) none with
  | none => throw (.runtimeError "No highest candidate transaction set found")
  | some (comp, _) => return composite lcl comp maxCloseTime (upgrades.map upgradeToOpaque)

/-! ### Valid values -/

def FullyValidated (slotIndex : UInt64) (value : List UInt8) (nomination : Bool) (known : KnownTxSets) : Prop :=
  ∃ known', driver.validateValue env lcl slotIndex value nomination known = .ok (.fullyValidatedValue, known')

variable {env lcl driver} {slotIndex : UInt64} {b : DiamnetValue} {nomination : Bool} {known : KnownTxSets}

theorem validateBeforeTxSet_eq_none_iff {lcl : LedgerHeader} :
    driver.validateBeforeTxSet lcl slotIndex b nomination = none ↔
      b.lcValueSignature.all (fun sig => driver.verifySig sig b.txSetHash b.closeTime) = true ∧
      slotIndex.toNat = (lcl.ledgerSeq + 1) % 2 ^ 32 ∧ driver.checkCloseTime (UInt64.ofNat lcl.closeTime) b = true ∧
      b.type = if nomination || compositeValueType lcl = .signed then .signed else .basic := by
  unfold validateBeforeTxSet
  cases b.lcValueSignature.all fun sig => driver.verifySig sig b.txSetHash b.closeTime with
  | false => simp
  | true =>
    by_cases hslot : slotIndex.toNat = (lcl.ledgerSeq + 1) % 2 ^ 32
    · cases driver.checkCloseTime (UInt64.ofNat lcl.closeTime) b with
      | false => simp [hslot]
      | true =>
        cases nomination || decide (compositeValueType lcl = .signed) <;> cases b.type <;> simp [hslot]
    · refine ⟨fun h => ?_, fun h => absurd h.2.1 hslot⟩
      rw [if_neg (by decide), if_pos hslot] at h
      cases h

theorem validateForOtherSlot_ne (lcl : LedgerHeader) (slotIndex : UInt64) (b : DiamnetValue) :
    driver.validateForOtherSlot lcl slotIndex b ≠ .fullyValidatedValue := by
  unfold validateForOtherSlot
  dsimp only
  repeat' split
  all_goals exact fun h => (nomatch h)

theorem validateBeforeTxSet_ne (lcl : LedgerHeader) (slotIndex : UInt64) (b : DiamnetValue) (nomination : Bool) :
    driver.validateBeforeTxSet lcl slotIndex b nomination ≠ some .fullyValidatedValue := by
  unfold validateBeforeTxSet
  dsimp only
  repeat' split
  all_goals first
    | exact fun h => validateForOtherSlot_ne lcl slotIndex b (some.inj h)
    | exact fun h => (nomatch h)

/-- A value is fully validated if all checks before the set pass and the set is valid. -/
theorem validateValueHelper_fully_iff {known' : KnownTxSets} :
    driver.validateValueHelper env lcl slotIndex b nomination known = .ok (.fullyValidatedValue, known') ↔
      driver.validateBeforeTxSet lcl.ltx.header slotIndex b nomination = none ∧
      ∃ txSet txSet', known.lookup b.txSetHash = some txSet ∧
        txSet.checkValid env lcl ⟨closeTimeOffset lcl.ltx.header b, closeTimeOffset lcl.ltx.header b⟩ =
          .ok (true, txSet') ∧ known' = known.insert b.txSetHash txSet' := by
  unfold validateValueHelper
  cases hbefore : driver.validateBeforeTxSet lcl.ltx.header slotIndex b nomination with
  | some level =>
    refine ⟨fun h => ?_, fun h => (nomatch h.1)⟩
    cases h
    exact absurd hbefore (validateBeforeTxSet_ne _ _ _ _)
  | none =>
    cases htxSet : known.lookup b.txSetHash with
    | none => exact ⟨fun h => (nomatch h), fun ⟨_, _, _, h, _⟩ => (nomatch h)⟩
    | some txSet =>
      refine ⟨fun h => ⟨rfl, ?_⟩, fun ⟨_, txSet, txSet', h, hcheck, hknown⟩ => ?_⟩
      · obtain ⟨⟨valid, txSet'⟩, hcheck, hres⟩ := bind_eq_ok.mp h
        cases valid with
        | false => cases hres
        | true =>
          cases hres
          exact ⟨txSet, txSet', rfl, hcheck, rfl⟩
      · cases h
        subst hknown
        exact bind_eq_ok.mpr ⟨_, hcheck, rfl⟩

theorem fullyValidated_iff {value : List UInt8} (hvalue : driver.valueFromOpaque value = some b) :
    driver.FullyValidated env lcl slotIndex value nomination known ↔
      (∃ known', driver.validateValueHelper env lcl slotIndex b nomination known = .ok (.fullyValidatedValue, known')) ∧
      driver.upgradesValid lcl.ltx.header nomination none b.upgrades = true := by
  unfold FullyValidated validateValue
  rw [hvalue]
  refine ⟨fun ⟨known', h⟩ => ?_, fun ⟨⟨known', hhelper⟩, hupgrades⟩ => ⟨known', ?_⟩⟩
  · obtain ⟨⟨res, known''⟩, hhelper, hres⟩ := bind_eq_ok.mp h
    cases hupgrades : driver.upgradesValid lcl.ltx.header nomination none b.upgrades with
    | false =>
      rw [hupgrades] at hres
      cases hres
    | true =>
      rw [hupgrades] at hres
      cases hres
      exact ⟨⟨_, hhelper⟩, rfl⟩
  · dsimp only
    rw [hhelper, hupgrades]
    rfl

variable {header : LedgerHeader}

theorem upgradesValid_iff (last : Option Nat) (upgrades : List (List UInt8)) :
    driver.upgradesValid header nomination last upgrades = true ↔
      (∀ u ∈ upgrades, (isValid driver header nomination u).isSome) ∧
      (last.toList ++ upgrades.filterMap (isValid driver header nomination)).IsChain (· < ·) := by
  induction upgrades generalizing last with
  | nil => cases last <;> simp [upgradesValid]
  | cons u rest ih =>
    unfold upgradesValid
    rw [forall_mem_cons, filterMap_cons]
    cases isValid driver header nomination u with
    | none => simp
    | some type =>
      cases last with
      | none => simp [ih]
      | some type' =>
        simp only [all_some, Bool.and_eq_true, decide_eq_true_eq, ih, toList_some, cons_append,
          nil_append, isChain_cons_cons, isSome_some]
        tauto

/-! ### What is extracted -/

theorem checkValid_again {txSet txSet' : TxSetFrame} {offsets : CloseTimeOffsets} {result : Bool}
    (h : txSet.checkValid env lcl offsets = .ok (result, txSet')) (offsets' : CloseTimeOffsets) :
    txSet'.checkValid env lcl offsets' = .ok (result, txSet') := by
  have hremembered : txSet'.remembered lcl = some result := by
    unfold TxSetFrame.checkValid at h
    cases hremembered : txSet.remembered lcl with
    | some valid =>
      rw [hremembered] at h
      cases h
      exact hremembered
    | none =>
      rw [hremembered] at h
      obtain ⟨valid, -, hres⟩ := bind_eq_ok.mp h
      cases hres
      exact if_pos rfl
  unfold TxSetFrame.checkValid
  rw [hremembered]
  rfl

theorem validateValueHelper_again {known' : KnownTxSets}
    (h : driver.validateValueHelper env lcl slotIndex b nomination known = .ok (.fullyValidatedValue, known')) :
    ∃ known'', driver.validateValueHelper env lcl slotIndex b nomination known' =
      .ok (.fullyValidatedValue, known'') := by
  obtain ⟨hbefore, txSet, txSet', -, hcheck, rfl⟩ := validateValueHelper_fully_iff.mp h
  exact ⟨_, validateValueHelper_fully_iff.mpr
    ⟨hbefore, txSet', txSet', AList.lookup_insert _, checkValid_again hcheck _, rfl⟩⟩

/-- **A value that is extracted is valid, before and after its extraction, exactly if the types of
the upgrades that the node likes go up.** -/
theorem extractValidValue_valid_iff {value bytes : List UInt8} {b₀ : DiamnetValue} {known' state : KnownTxSets}
    (hvalue : driver.valueFromOpaque value = some b₀)
    (hextract : driver.extractValidValue env lcl slotIndex value known = .ok (some b, known'))
    (hstate : state = known ∨ state = known') (hbytes : driver.valueFromOpaque bytes = some b) :
    driver.FullyValidated env lcl slotIndex bytes true state ↔
      (b₀.upgrades.filterMap (isValid driver lcl.ltx.header true)).Pairwise (· < ·) := by
  unfold extractValidValue at hextract
  rw [hvalue] at hextract
  obtain ⟨⟨res, known''⟩, hhelper, hres⟩ := bind_eq_ok.mp hextract
  dsimp only at hres
  split at hres
  next hfully =>
    cases hres
    subst hfully
    rw [fullyValidated_iff hbytes, upgradesValid_iff, filterMap_filter]
    have hsame : (fun u => if (isValid driver lcl.ltx.header true u).isSome = true then
        isValid driver lcl.ltx.header true u else none) = isValid driver lcl.ltx.header true := by
      funext u
      cases isValid driver lcl.ltx.header true u <;> rfl
    have hvalidated : ∃ known', driver.validateValueHelper env lcl slotIndex b₀ true state =
        .ok (.fullyValidatedValue, known') := by
      rcases hstate with rfl | rfl
      · exact ⟨_, hhelper⟩
      · exact validateValueHelper_again hhelper
    rw [hsame, toList_none, nil_append, isChain_iff_pairwise]
    exact ⟨fun h => h.2.2, fun h => ⟨hvalidated, fun u hu => (mem_filter.mp hu).2, h⟩⟩
  next => cases hres

/-- A node that would set the fee to 7 and the size of sets to 3. A value is its close time followed by
its upgrades, a byte each. -/
def upgradingDriver : HerderSCPDriver where
  timeNow := 100
  trackingSCP := none
  verifySig := fun _ _ _ => true
  valueFromOpaque
    | closeTime :: upgrades => some ⟨9, closeTime.toUInt64, upgrades.map fun u => [u], some ⟨0, []⟩⟩
    | [] => none
  upgradeFromOpaque
    | [u] => some (if u = 3 then .maxTxSetSize 3 else .baseFee u.toNat)
    | _ => none
  maxLedgerVersion := 15
  params := { baseFee := some 7, maxTxSize := some 3 }

def knownTxSets : KnownTxSets := (∅ : KnownTxSets).putTxSet 9 (boundedTx.txSets 9)

/-- Two upgrades in the order of their types. -/
theorem extractValidValue_valid_twoUpgrades :
    ∃ known', upgradingDriver.extractValidValue openNetwork (boundedTx.lcl 7) 101 [104, 5, 7, 3] knownTxSets =
        .ok (some ⟨9, 104, [[7], [3]], some ⟨0, []⟩⟩, known') ∧
      upgradingDriver.FullyValidated openNetwork (boundedTx.lcl 7) 101 [104, 7, 3] true known' := by
  obtain ⟨known', hextract⟩ := exists_of_map_fst (a := some ⟨9, 104, [[7], [3]], some ⟨0, []⟩⟩)
    (show (upgradingDriver.extractValidValue openNetwork (boundedTx.lcl 7) 101 [104, 5, 7, 3] knownTxSets).map
      Prod.fst = _ by decide +kernel)
  exact ⟨known', hextract, (extractValidValue_valid_iff rfl hextract (.inr rfl) rfl).mpr (by decide)⟩

/-- The same upgrade twice is extracted, and not valid. -/
theorem extractValidValue_repeated :
    (upgradingDriver.extractValidValue openNetwork (boundedTx.lcl 7) 101 [104, 7, 7] knownTxSets).map Prod.fst =
      .ok (upgradingDriver.valueFromOpaque [104, 7, 7]) ∧
    (upgradingDriver.validateValue openNetwork (boundedTx.lcl 7) 101 [104, 7, 7] true knownTxSets).map Prod.fst =
      .ok .invalidValue := by
  decide +kernel

/-! ### The highest transaction set -/

theorem fromOpaque_eq {α : Type} {decode : List UInt8 → Option α} {values : List (List UInt8)}
    (h : ∀ value ∈ values, (decode value).isSome) : fromOpaque decode values = .ok (values.filterMap decode) := by
  induction values with
  | nil => rfl
  | cons value rest ih =>
    obtain ⟨hvalue, hrest⟩ := forall_mem_cons.mp h
    obtain ⟨a, ha⟩ := isSome_iff_exists.mp hvalue
    have hmapM := ih hrest
    unfold fromOpaque at hmapM ⊢
    rw [mapM_cons, hmapM, ha, filterMap_cons, ha]
    rfl

theorem getFeeBid_le (tx : TransactionFrameBase) : tx.getFeeBid ≤ INT64_MAX := by
  cases tx with
  | tx frame =>
    have hfee := frame.fee.toNat_lt
    show (frame.fee.toNat : Int) ≤ INT64_MAX
    unfold INT64_MAX
    omega
  | feeBump frame => exact frame.fee_range.2

theorem meets_bigDivide_roundUp {a c : Int} (ha : 0 ≤ a) (hle : a ≤ INT64_MAX) (hc : 0 < c) :
    Meets (bigDivide a 1 c .roundUp) (fun _ => True) fun _ => False := by
  have hfits : (a * 1 + c - 1) / c ≤ INT64_MAX :=
    Int.le_of_lt_add_one (Int.ediv_lt_of_lt_mul hc (by nlinarith))
  rw [bigDivide_up ha Int.one_nonneg hc hfits]
  trivial

theorem getTotalFees_ok {set : TxSetFrame} (lh : LedgerHeader)
    (h : ∀ ptr ∈ set.transactions, ptr.getNumOperations ≠ 0 ∧ 0 ≤ ptr.getFeeBid) :
    ∃ fees, set.getTotalFees lh = .ok fees := by
  have hmeets : Meets (set.getTotalFees lh) (fun _ => True) fun _ => False := by
    have hbase : Meets (set.getBaseFee lh) (fun _ => True) fun _ => False := by
      unfold TxSetFrame.getBaseFee
      split
      · refine Meets.bind (Meets.foldlM (I := fun _ => True) _ (fun low _ ptr hptr => ?_) trivial) fun _ _ => trivial
        have hops := (h ptr hptr).1
        exact (meets_bigDivide_roundUp (h ptr hptr).2 (getFeeBid_le ptr.tx) (by omega)).bind fun _ _ => trivial
      · trivial
    exact hbase.bind fun _ _ => trivial
  cases hfees : set.getTotalFees lh with
  | ok fees => exact ⟨fees, rfl⟩
  | error fault => exact (hmeets.of_error hfees).elim

def rankOf (header : LedgerHeader) (s hash : Hash) (set : TxSetFrame) : ℕ ×ₗ ℤ ×ₗ ℕ :=
  toLex (set.size header,
    toLex (if header.ledgerVersion ≥ 11 then (set.getTotalFees header).toOption.getD 0 else 0, hash ^^^ s))

theorem compareTxSets_eq {l r : TxSetFrame} (hl : ∃ fees, l.getTotalFees header = .ok fees)
    (hr : ∃ fees, r.getTotalFees header = .ok fees) (lh rh s : Hash) :
    compareTxSets (some l) (some r) lh rh header s = .ok (decide (rankOf header s lh l < rankOf header s rh r)) := by
  obtain ⟨lFee, hlFee⟩ := hl
  obtain ⟨rFee, hrFee⟩ := hr
  unfold compareTxSets rankOf lessThanXored
  simp only [Prod.Lex.toLex_lt_toLex, hlFee, hrFee, ok_bind, Except.toOption, getD_some]
  by_cases hsize : l.size header < r.size header
  · simp [hsize]; rfl
  · by_cases hsize' : l.size header > r.size header
    · have hne : l.size header ≠ r.size header := by omega
      simp [hsize, hsize', hne]; rfl
    · have heq : l.size header = r.size header := by omega
      by_cases hversion : header.ledgerVersion ≥ 11
      · rcases lt_trichotomy lFee rFee with h | h | h
        · simp [heq, hversion, h]; rfl
        · simp [heq, hversion, h]; rfl
        · simp [heq, hversion, h, h.ne', h.not_gt]; rfl
      · simp [heq, hversion]; rfl

variable (lcl known)

/-- The set of a candidate is there, follows the last closed ledger, and has fees that can be computed. -/
def Comparable (sv : DiamnetValue) (txSet : TxSetFrame) : Prop :=
  known.lookup sv.txSetHash = some txSet ∧ txSet.previousLedgerHash = lcl.hash ∧
    ∃ fees, txSet.getTotalFees lcl.ltx.header = .ok fees

variable {lcl known}

variable {values : List DiamnetValue}

theorem foldlM_pickTxSet {txSetOf : DiamnetValue → TxSetFrame}
    (h : ∀ sv ∈ values, Comparable lcl known sv (txSetOf sv)) (s : Hash) (highest : Option DiamnetValue)
    (hhighest : ∀ sv ∈ highest, Comparable lcl known sv (txSetOf sv)) :
    values.foldlM (pickTxSet lcl known s) (highest.map fun sv => (sv, txSetOf sv)) =
      .ok ((values.foldl (argAux fun sv sv' => rankOf lcl.ltx.header s sv'.txSetHash (txSetOf sv') <
        rankOf lcl.ltx.header s sv.txSetHash (txSetOf sv)) highest).map fun sv => (sv, txSetOf sv)) := by
  induction values generalizing highest with
  | nil => rfl
  | cons sv rest ih =>
    obtain ⟨hsv, hrest⟩ := forall_mem_cons.mp h
    obtain ⟨hlookup, hprevious, hfees⟩ := hsv
    rw [foldlM_cons, foldl_cons]
    unfold pickTxSet
    rw [hlookup]
    dsimp only
    rw [if_pos hprevious]
    cases highest with
    | none => exact ih hrest (some sv) (by simpa using ⟨hlookup, hprevious, hfees⟩)
    | some value =>
      dsimp only [map_some]
      rw [compareTxSets_eq (hhighest value rfl).2.2 hfees, ok_bind]
      by_cases hless : rankOf lcl.ltx.header s value.txSetHash (txSetOf value) <
          rankOf lcl.ltx.header s sv.txSetHash (txSetOf sv)
      · simp only [hless, decide_true, if_true, argAux]
        exact ih hrest (some sv) (by simpa using ⟨hlookup, hprevious, hfees⟩)
      · simp only [hless, decide_false, Bool.false_eq_true, if_false, argAux]
        exact ih hrest (some value) hhighest

theorem exists_highest {txSetOf : DiamnetValue → TxSetFrame}
    (h : ∀ sv ∈ values, Comparable lcl known sv (txSetOf sv)) (hne : values ≠ []) (s : Hash) :
    ∃ comp ∈ values, values.foldlM (pickTxSet lcl known s) none = .ok (some (comp, txSetOf comp)) ∧
      ∀ sv ∈ values, compareTxSets (known.lookup comp.txSetHash) (known.lookup sv.txSetHash) comp.txSetHash
        sv.txSetHash lcl.ltx.header s = .ok false := by
  let rank := fun sv : DiamnetValue => rankOf lcl.ltx.header s sv.txSetHash (txSetOf sv)
  have hloop := foldlM_pickTxSet h s none (fun _ h => (nomatch h))
  obtain ⟨comp, hcomp⟩ := ne_none_iff_exists'.mp (mt argmax_eq_none.mp hne : values.argmax rank ≠ none)
  have hmem := argmax_mem hcomp
  refine ⟨comp, hmem, hloop.trans (congrArg _ (congrArg _ hcomp)), fun sv hsv => ?_⟩
  rw [(h comp hmem).1, (h sv hsv).1, compareTxSets_eq (h comp hmem).2.2 (h sv hsv).2.2]
  exact congrArg _ (decide_eq_false (le_of_mem_argmax hsv hcomp).not_gt)

/-! ### The highest upgrades -/

variable {u v : LedgerUpgrade}

theorem upgrade_ext (htype : u.type = v.type) (hvalue : u.newValue = v.newValue) : u = v := by
  cases u <;> cases v <;> simp_all [LedgerUpgrade.type, LedgerUpgrade.newValue]

theorem raise_eq (h : u.type = v.type) :
    v.raise u = v ∧ u.newValue ≤ v.newValue ∨ v.raise u = u ∧ v.newValue ≤ u.newValue := by
  rcases le_total u.newValue v.newValue with hle | hle
  · refine .inl ⟨?_, hle⟩
    cases v <;> exact congrArg _ (max_eq_left hle)
  · refine .inr ⟨upgrade_ext ?_ ?_, hle⟩
    · rw [h]
      cases v <;> rfl
    · cases v <;> exact max_eq_right hle

variable {upgrades : List LedgerUpgrade}

theorem mem_addUpgrade (h : v ∈ addUpgrade u upgrades) : v = u ∨ v ∈ upgrades := by
  induction upgrades with
  | nil => exact .inl (mem_singleton.mp h)
  | cons c rest ih =>
    unfold addUpgrade at h
    split at h
    · exact mem_cons.mp h
    split at h
    next htype =>
      rcases mem_cons.mp h with rfl | hrest
      · rcases raise_eq htype with ⟨hraise, -⟩ | ⟨hraise, -⟩ <;> simp [hraise]
      · exact .inr (.tail _ hrest)
    · rcases mem_cons.mp h with rfl | hrest
      · exact .inr (.head _)
      · exact (ih hrest).imp_right (mem_cons_of_mem c)

theorem addUpgrade_covers {w : LedgerUpgrade} (h : w = u ∨ w ∈ upgrades) :
    ∃ v ∈ addUpgrade u upgrades, v.type = w.type ∧ w.newValue ≤ v.newValue := by
  induction upgrades with
  | nil =>
    obtain rfl := h.resolve_right not_mem_nil
    exact ⟨w, .head _, rfl, le_rfl⟩
  | cons c rest ih =>
    unfold addUpgrade
    split
    · exact ⟨w, mem_cons.mpr h, rfl, le_rfl⟩
    split
    next htype =>
      rcases h with rfl | h
      · rcases raise_eq htype with ⟨hraise, hle⟩ | ⟨hraise, -⟩
        · exact ⟨_, .head _, by rw [hraise, htype], by rwa [hraise]⟩
        · exact ⟨_, .head _, by rw [hraise], by rw [hraise]⟩
      · rcases mem_cons.mp h with rfl | h
        · rcases raise_eq htype with ⟨hraise, -⟩ | ⟨hraise, hle⟩
          · exact ⟨_, .head _, by rw [hraise], by rw [hraise]⟩
          · exact ⟨_, .head _, by rw [hraise, htype], by rwa [hraise]⟩
        · exact ⟨w, .tail _ h, rfl, le_rfl⟩
    · by_cases hw : w = c
      · exact ⟨c, .head _, by rw [hw], by rw [hw]⟩
      · obtain ⟨v, hv, hcovers⟩ := ih (h.imp_right fun h => (mem_cons.mp h).resolve_left hw)
        exact ⟨v, .tail _ hv, hcovers⟩

theorem addUpgrade_sorted (h : upgrades.Pairwise fun v w => v.type < w.type) :
    (addUpgrade u upgrades).Pairwise fun v w => v.type < w.type := by
  induction upgrades with
  | nil => exact pairwise_singleton _ _
  | cons c rest ih =>
    obtain ⟨hc, hrest⟩ := pairwise_cons.mp h
    unfold addUpgrade
    split
    next hlt =>
      refine pairwise_cons.mpr ⟨fun v hv => ?_, h⟩
      rcases mem_cons.mp hv with rfl | hv
      · exact hlt
      · exact hlt.trans (hc v hv)
    split
    next htype =>
      have hraise : (c.raise u).type = c.type := by cases c <;> rfl
      exact pairwise_cons.mpr ⟨fun v hv => hraise ▸ hc v hv, hrest⟩
    next hlt hne =>
      refine pairwise_cons.mpr ⟨fun v hv => ?_, ih hrest⟩
      rcases mem_addUpgrade hv with rfl | hv
      · omega
      · exact hc v hv

/-- The map of upgrades after some have gone into it. -/
structure Highest (lupgrades upgrades : List LedgerUpgrade) : Prop where
  sorted : upgrades.Pairwise fun v w => v.type < w.type
  occurs : ∀ u ∈ upgrades, u ∈ lupgrades
  covers : ∀ u ∈ lupgrades, ∃ v ∈ upgrades, v.type = u.type ∧ u.newValue ≤ v.newValue

theorem Highest.nil : Highest [] [] := ⟨.nil, fun _ h => (nomatch h), fun _ h => (nomatch h)⟩

variable {lupgrades : List LedgerUpgrade}

theorem Highest.add (h : Highest lupgrades upgrades) (u : LedgerUpgrade) :
    Highest (lupgrades ++ [u]) (addUpgrade u upgrades) where
  sorted := addUpgrade_sorted h.sorted
  occurs := by
    intro v hv
    rcases mem_addUpgrade hv with rfl | hv
    · simp
    · exact mem_append_left _ (h.occurs v hv)
  covers := by
    intro w hw
    rcases mem_append.mp hw with hw | hw
    · obtain ⟨v, hv, htype, hle⟩ := h.covers w hw
      obtain ⟨v', hv', htype', hle'⟩ := addUpgrade_covers (u := u) (.inr hv)
      exact ⟨v', hv', htype'.trans htype, hle.trans hle'⟩
    · exact addUpgrade_covers (.inl (mem_singleton.mp hw))

theorem Highest.foldl {seen : List LedgerUpgrade} (h : Highest seen upgrades) (lupgrades : List LedgerUpgrade) :
    Highest (seen ++ lupgrades) (lupgrades.foldl (fun upgrades u => addUpgrade u upgrades) upgrades) := by
  induction lupgrades generalizing seen upgrades with
  | nil => rwa [append_nil]
  | cons u rest ih => simpa using ih (h.add u)

theorem Highest.mem_iff (h : Highest lupgrades upgrades) (u : LedgerUpgrade) :
    u ∈ upgrades ↔ u ∈ lupgrades ∧ ∀ v ∈ lupgrades, v.type = u.type → v.newValue ≤ u.newValue := by
  have hunique : ∀ v ∈ upgrades, ∀ w ∈ upgrades, v.type = w.type → v = w := by
    have hnodup : (upgrades.map (·.type)).Nodup := (pairwise_map.mpr h.sorted).imp Nat.ne_of_lt
    exact fun v hv w hw => inj_on_of_nodup_map hnodup hv hw
  refine ⟨fun hu => ⟨h.occurs u hu, fun v hv htype => ?_⟩, fun ⟨hu, hmax⟩ => ?_⟩
  · obtain ⟨w, hw, htype', hle⟩ := h.covers v hv
    rwa [hunique w hw u hu (htype'.trans htype)] at hle
  · obtain ⟨w, hw, htype, hle⟩ := h.covers u hu
    rwa [upgrade_ext htype (le_antisymm (hmax w (h.occurs w hw) htype) hle)] at hw

/-! ### What is combined -/

theorem checkCloseTime_foldl {lastCloseTime : UInt64}
    (h : ∀ sv ∈ values, driver.checkCloseTime lastCloseTime sv = true) (hne : values ≠ []) (comp : DiamnetValue) :
    driver.checkCloseTime lastCloseTime { comp with
      closeTime := values.foldl (fun t sv => if t < sv.closeTime then sv.closeTime else t) 0 } = true := by
  have hpasses : ∀ values : List DiamnetValue, (∀ sv ∈ values, driver.checkCloseTime lastCloseTime sv = true) →
      ∀ t, driver.checkCloseTime lastCloseTime { comp with closeTime := t } = true →
      driver.checkCloseTime lastCloseTime { comp with
        closeTime := values.foldl (fun t sv => if t < sv.closeTime then sv.closeTime else t) t } = true := by
    intro values hvalues
    induction values with
    | nil => exact fun t ht => ht
    | cons sv rest ih =>
      intro t ht
      obtain ⟨hsv, hrest⟩ := forall_mem_cons.mp hvalues
      rw [foldl_cons]
      refine ih hrest _ ?_
      split
      · exact hsv
      · exact ht
  obtain ⟨sv, rest, rfl⟩ := exists_cons_of_ne_nil hne
  obtain ⟨hsv, hrest⟩ := forall_mem_cons.mp h
  -- a close time that passes is after the last one, so it is not 0
  have hpos : (0 : UInt64) < sv.closeTime := by
    unfold checkCloseTime at hsv
    split at hsv
    · cases hsv
    next hlate =>
      have hlate' := mt UInt64.le_iff_toNat_le.mpr hlate
      exact UInt64.lt_iff_toNat_lt.mpr (by rw [UInt64.toNat_zero]; omega)
  rw [foldl_cons, if_pos hpos]
  exact hpasses rest hrest _ hsv

variable {contents : Contents} {lclHash : Hash}

theorem comparable_of_validated (hknown : KnownOk env contents known) {txSet txSet' : TxSetFrame}
    {offsets : CloseTimeOffsets} (hlookup : known.lookup b.txSetHash = some txSet)
    (hcheck : txSet.checkValid env (contents.lcl lclHash) offsets = .ok (true, txSet')) :
    Comparable (contents.lcl lclHash) known b txSet := by
  have hframe := hknown _ _ hlookup
  obtain ⟨offsets', hverdict⟩ : ∃ offsets',
      (contents.txSets b.txSetHash).verdict env (contents.lcl lclHash) offsets' = .ok true := by
    rcases hframe.checkValid lclHash offsets with ⟨result, hremembered, hchecked⟩ | hchecked
    · rw [hcheck] at hchecked
      cases hchecked
      exact hframe.remembers lclHash true hremembered
    · rw [hcheck] at hchecked
      cases hverdict : (contents.txSets b.txSetHash).verdict env (contents.lcl lclHash) offsets with
      | error fault =>
        rw [hverdict] at hchecked
        cases hchecked
      | ok result =>
        rw [hverdict] at hchecked
        cases hchecked
        exact ⟨offsets, hverdict⟩
  obtain ⟨hprevious, hchain⟩ := chainFrom_of_verdict hverdict
  obtain ⟨valid, rfl⟩ := hframe.frame
  refine ⟨hlookup, hprevious, getTotalFees_ok _ fun ptr hptr => ?_⟩
  have hmem := (@flatMap_accountTxQueue_perm env (contents.txSets b.txSetHash).transactions).mem_iff.mpr hptr
  obtain ⟨id, hid, hqueue⟩ := mem_flatMap.mp hmem
  obtain ⟨lastSeq, hvalid⟩ := (hchain _ (mem_map_of_mem hid)).valid ptr hqueue
  exact ⟨(validAfter_valid hvalid).operations, (validAfter_valid hvalid).feeBid_nonneg⟩

theorem composite_eq (sv : DiamnetValue) (maxCloseTime : UInt64) (upgrades : List (List UInt8)) :
    (composite lcl sv maxCloseTime upgrades).txSetHash = sv.txSetHash ∧
      (composite lcl sv maxCloseTime upgrades).upgrades = upgrades := by
  unfold composite
  split <;> exact ⟨rfl, rfl⟩

theorem validateValueHelper_composite {sv : DiamnetValue} {maxCloseTime : UInt64}
    (h : ∃ known', driver.validateValueHelper env lcl slotIndex sv true known = .ok (.fullyValidatedValue, known'))
    (htime : driver.checkCloseTime (UInt64.ofNat lcl.ltx.header.closeTime) { sv with closeTime := maxCloseTime } = true)
    (upgrades : List (List UInt8)) :
    ∃ known', driver.validateValueHelper env lcl slotIndex (composite lcl sv maxCloseTime upgrades) false known =
      .ok (.fullyValidatedValue, known') := by
  obtain ⟨known', h⟩ := h
  obtain ⟨hbefore, txSet, txSet', hlookup, hcheck, hinsert⟩ := validateValueHelper_fully_iff.mp h
  obtain ⟨hsig, hslot, hclose, htype⟩ := validateBeforeTxSet_eq_none_iff.mp hbefore
  refine ⟨known', validateValueHelper_fully_iff.mpr ?_⟩
  unfold composite
  by_cases haffinity : curProtocolPreservesTxSetCloseTimeAffinity lcl.ltx.header = true
  · rw [if_pos haffinity]
    refine ⟨validateBeforeTxSet_eq_none_iff.mpr ⟨hsig, hslot, hclose, ?_⟩, txSet, txSet', hlookup, hcheck, hinsert⟩
    rw [compositeValueType, if_pos haffinity]
    exact htype
  · rw [if_neg haffinity]
    refine ⟨validateBeforeTxSet_eq_none_iff.mpr ⟨rfl, hslot, htime, ?_⟩, txSet, txSet', hlookup, ?_, hinsert⟩
    · rw [compositeValueType, if_neg haffinity]
      rfl
    · -- without affinity the close time plays no role in the check of the set
      rw [closeTimeOffset, if_neg haffinity] at hcheck ⊢
      exact hcheck

theorem exists_of_isValid {bytes : List UInt8} (h : (isValid driver header nomination bytes).isSome) :
    ∃ u, driver.upgradeFromOpaque bytes = some u ∧ isValidForApply header driver.maxLedgerVersion u = true := by
  unfold isValid at h
  cases hdecode : driver.upgradeFromOpaque bytes with
  | none =>
    rw [hdecode] at h
    cases h
  | some u =>
    rw [hdecode] at h
    dsimp only at h
    split at h
    next hvalid => exact ⟨u, rfl, (Bool.and_eq_true_iff.mp hvalid).1⟩
    · cases h

theorem Highest.upgradesValid (h : Highest lupgrades upgrades) {upgradeToOpaque : LedgerUpgrade → List UInt8}
    (hlupgrades : ∀ u ∈ lupgrades, driver.upgradeFromOpaque (upgradeToOpaque u) = some u ∧ isValidForApply header driver.maxLedgerVersion u = true) :
    driver.upgradesValid header false none (upgrades.map upgradeToOpaque) = true := by
  have hvalid : ∀ u ∈ upgrades, isValid driver header false (upgradeToOpaque u) = some u.type := by
    intro u hu
    obtain ⟨hdecode, happly⟩ := hlupgrades u (h.occurs u hu)
    unfold isValid
    rw [hdecode]
    dsimp only
    rw [happly]
    rfl
  have htypes : (upgrades.map upgradeToOpaque).filterMap (isValid driver header false) =
      upgrades.map (·.type) := by
    rw [filterMap_map, ← filterMap_eq_map]
    exact filterMap_congr hvalid
  rw [upgradesValid_iff, htypes, toList_none, nil_append, isChain_iff_pairwise, pairwise_map]
  refine ⟨fun bytes hbytes => ?_, h.sorted⟩
  obtain ⟨u, hu, rfl⟩ := mem_map.mp hbytes
  rw [hvalid u hu]
  rfl

/-- **The composite of values that are valid for nomination is valid.** It has the highest of their
transaction sets, and of each type that they upgrade the highest upgrade. -/
theorem combineCandidates_valid {calls : List Call} (hrun : runCalls env contents calls = .ok known)
    {upgradeToOpaque : LedgerUpgrade → List UInt8}
    (hxdr : ∀ bytes u, driver.upgradeFromOpaque bytes = some u → driver.upgradeFromOpaque (upgradeToOpaque u) = some u)
    {candidates : List (List UInt8)} (hne : candidates ≠ [])
    (hvalid : ∀ value ∈ candidates, driver.FullyValidated env (contents.lcl lclHash) slotIndex value true known) :
    let values := candidates.filterMap driver.valueFromOpaque
    let lupgrades := (values.flatMap (·.upgrades)).filterMap driver.upgradeFromOpaque
    ∃ comp, driver.combineCandidates env (contents.lcl lclHash) upgradeToOpaque candidates known = .ok comp ∧
      (∀ bytes, driver.valueFromOpaque bytes = some comp →
        driver.FullyValidated env (contents.lcl lclHash) slotIndex bytes false known) ∧
      (∃ sv ∈ values, comp.txSetHash = sv.txSetHash) ∧
      (∀ sv ∈ values, compareTxSets (known.lookup comp.txSetHash) (known.lookup sv.txSetHash) comp.txSetHash
        sv.txSetHash (contents.lcl lclHash).ltx.header (candidatesHash env candidates) = .ok false) ∧
      ∀ u, u ∈ comp.upgrades.filterMap driver.upgradeFromOpaque ↔
        u ∈ lupgrades ∧ ∀ v ∈ lupgrades, v.type = u.type → v.newValue ≤ u.newValue := by
  intro values lupgrades
  have hknown := runCalls_ok hrun
  have hdecodes : ∀ value ∈ candidates, (driver.valueFromOpaque value).isSome := by
    intro value hvalue
    cases hdecode : driver.valueFromOpaque value with
    | some b => rfl
    | none =>
      obtain ⟨known', hvalidate⟩ := hvalid value hvalue
      unfold validateValue at hvalidate
      rw [hdecode] at hvalidate
      cases hvalidate
  have hcandidate : ∀ sv ∈ values, (∃ known',
      driver.validateValueHelper env (contents.lcl lclHash) slotIndex sv true known = .ok (.fullyValidatedValue, known')) ∧
      driver.upgradesValid (contents.lcl lclHash).ltx.header true none sv.upgrades = true := by
    intro sv hsv
    obtain ⟨value, hvalue, hdecode⟩ := mem_filterMap.mp hsv
    exact (fullyValidated_iff hdecode).mp (hvalid value hvalue)
  have hupgrade : ∀ bytes ∈ values.flatMap (·.upgrades),
      (isValid driver (contents.lcl lclHash).ltx.header true bytes).isSome := by
    intro bytes hbytes
    obtain ⟨sv, hsv, hmem⟩ := mem_flatMap.mp hbytes
    exact ((upgradesValid_iff none _).mp (hcandidate sv hsv).2).1 bytes hmem
  have hvaluesNe : values ≠ [] := by
    obtain ⟨value, rest, rfl⟩ := exists_cons_of_ne_nil hne
    obtain ⟨sv, hsv⟩ := isSome_iff_exists.mp (hdecodes value (.head _))
    exact ne_nil_of_mem (mem_filterMap.mpr ⟨value, .head _, hsv⟩)
  have htime := checkCloseTime_foldl (fun sv hsv => (validateBeforeTxSet_eq_none_iff.mp
    (validateValueHelper_fully_iff.mp (hcandidate sv hsv).1.choose_spec).1).2.2.1) hvaluesNe
  have hcomparable : ∀ sv ∈ values, Comparable (contents.lcl lclHash) known sv
      ((known.lookup sv.txSetHash).getD (contents.txSets 0)) := by
    intro sv hsv
    obtain ⟨-, txSet, txSet', hlookup, hcheck, -⟩ := validateValueHelper_fully_iff.mp (hcandidate sv hsv).1.choose_spec
    rw [hlookup]
    exact comparable_of_validated hknown hlookup hcheck
  obtain ⟨sv, hsv, hpick, hhighest⟩ := exists_highest hcomparable hvaluesNe (candidatesHash env candidates)
  have hupgrades : Highest lupgrades (lupgrades.foldl (fun upgrades u => addUpgrade u upgrades) []) :=
    Highest.nil.foldl lupgrades
  have hlupgrades : ∀ u ∈ lupgrades, driver.upgradeFromOpaque (upgradeToOpaque u) = some u ∧
      isValidForApply (contents.lcl lclHash).ltx.header driver.maxLedgerVersion u = true := by
    intro u hu
    obtain ⟨bytes, hbytes, hdecode⟩ := mem_filterMap.mp hu
    obtain ⟨u', hdecode', happly⟩ := exists_of_isValid (hupgrade bytes hbytes)
    cases hdecode.symm.trans hdecode'
    exact ⟨hxdr bytes u hdecode, happly⟩
  have hdecodesUpgrades : ∀ bytes ∈ values.flatMap (·.upgrades), (driver.upgradeFromOpaque bytes).isSome := by
    intro bytes hbytes
    obtain ⟨u, hdecode, -⟩ := exists_of_isValid (hupgrade bytes hbytes)
    rw [hdecode]
    rfl
  refine ⟨_, ?_, fun bytes hbytes => (fullyValidated_iff hbytes).mpr
    ⟨validateValueHelper_composite (hcandidate sv hsv).1 (htime sv)
      ((lupgrades.foldl (fun upgrades u => addUpgrade u upgrades) []).map upgradeToOpaque), ?_⟩, ⟨sv, hsv, ?_⟩,
    fun sv' hsv' => ?_, fun u => ?_⟩
  · unfold combineCandidates
    rw [fromOpaque_eq hdecodes, ok_bind, fromOpaque_eq hdecodesUpgrades, ok_bind, hpick, ok_bind]
    rfl
  · rw [(composite_eq _ _ _).2]
    exact hupgrades.upgradesValid hlupgrades
  · exact (composite_eq _ _ _).1
  · rw [(composite_eq _ _ _).1]
    exact hhighest sv' hsv'
  · rw [(composite_eq _ _ _).2, ← hupgrades.mem_iff u, filterMap_map, filterMap_congr (g := some),
      filterMap_some]
    exact fun u hu => (hlupgrades u (hupgrades.occurs u hu)).1

theorem upgradingDriver_upgradeFromOpaque (bytes : List UInt8) (u : LedgerUpgrade)
    (h : upgradingDriver.upgradeFromOpaque bytes = some u) :
    upgradingDriver.upgradeFromOpaque [UInt8.ofNat u.newValue] = some u := by
  match bytes, h with
  | [x], h =>
    by_cases hx : x = 3
    · subst hx
      cases h
      rfl
    · have hu : u = .baseFee x.toNat := by
        simpa [upgradingDriver, hx] using h.symm
      subst hu
      simp [upgradingDriver, LedgerUpgrade.newValue, hx]

/-- Two values with one upgrade each. -/
theorem combineCandidates_valid_two :
    upgradingDriver.combineCandidates openNetwork (boundedTx.lcl 7) (fun u => [UInt8.ofNat u.newValue])
      [[103, 3], [104, 7]] knownTxSets = .ok ⟨9, 103, [[7], [3]], some ⟨0, []⟩⟩ ∧
    upgradingDriver.FullyValidated openNetwork (boundedTx.lcl 7) 101 [103, 7, 3] false knownTxSets := by
  have hcomp : upgradingDriver.combineCandidates openNetwork (boundedTx.lcl 7) (fun u => [UInt8.ofNat u.newValue])
      [[103, 3], [104, 7]] knownTxSets = .ok ⟨9, 103, [[7], [3]], some ⟨0, []⟩⟩ := by decide +kernel
  have hvalidate : ∀ value ∈ [[103, 3], [104, 7]], (upgradingDriver.validateValue openNetwork (boundedTx.lcl 7) 101
      value true knownTxSets).map Prod.fst = .ok .fullyValidatedValue := by decide +kernel
  have hrun : runCalls openNetwork boundedTx [.putTxSet 9] = .ok knownTxSets := rfl
  obtain ⟨comp, hcombine, hvalid, -⟩ := combineCandidates_valid hrun upgradingDriver_upgradeFromOpaque (by decide)
    fun value hvalue => exists_of_map_fst (hvalidate value hvalue)
  cases hcomp.symm.trans hcombine
  exact ⟨hcomp, hvalid _ rfl⟩

end HerderSCPDriver
end Diamnet.Herder
