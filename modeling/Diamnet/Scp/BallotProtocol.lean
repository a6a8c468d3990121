import Diamnet.Scp.Statement
import Diamnet.Util.Outcome

/-! The ballot protocol of one slot (`BallotProtocol.cpp`, with the parts of
`Slot.cpp` it goes through).

A `BallotProtocol` is the class's members; its functions take and return one.
`Core` holds the members decisions depend on, and the functions on `Core` are the
register updates of the source; the functions on `BallotProtocol` add the emission
of the node's own statements. Emitting a statement hands it to `processEnvelope`,
which may emit again: the functions in between take that call as a parameter
(`processSelf`), and `processSelf` ties the knot with the nesting bounded by
`maxAdvanceSlotRecursion`. An assertion that fails, an exception and a null
pointer dereferenced are the ways a call stops (`Fault`). -/
namespace Diamnet.Scp
open LocalNode

inductive SCPPhase where
  | prepare
  | confirm
  | externalize
deriving DecidableEq

/-- `SCPDriver::ValidationLevel`, from worst to best. -/
inductive ValidationLevel where
  | kInvalidValue
  | kMaybeValidValue
  | kFullyValidatedValue
deriving DecidableEq

def ValidationLevel.min : ValidationLevel → ValidationLevel → ValidationLevel
  | .kInvalidValue, _ => .kInvalidValue
  | _, .kInvalidValue => .kInvalidValue
  | .kMaybeValidValue, _ => .kMaybeValidValue
  | _, .kMaybeValidValue => .kMaybeValidValue
  | .kFullyValidatedValue, .kFullyValidatedValue => .kFullyValidatedValue

inductive EnvelopeState where
  | invalid
  | valid
deriving DecidableEq

structure LocalNode where
  mNodeID : NodeID
  mIsValidator : Bool
  mQSet : SCPQuorumSet
  mQSetHash : Hash

/-- What SCP asks of its user. The slot index is the model's one slot. -/
structure SCPDriver where
  getQSet : Hash → Option SCPQuorumSet
  /-- The value, and whether it is being nominated. -/
  validateValue : Value → Bool → ValidationLevel
  extractValidValue : Value → Option Value
  /-- Previous value, priority or neighborhood, round number, node. -/
  computeHashNode : Value → Bool → Int → NodeID → UInt64
  /-- Previous value, round number, value. -/
  computeValueHash : Value → Int → Value → UInt64
  combineCandidates : List Value → Value

structure SCP where
  localNode : LocalNode
  driver : SCPDriver

/-- The assertions of the ballot protocol, by the function they stand in. -/
inductive Site where
  | checkInvariants
  | updateCurrentValue
  | bumpToBallotPhase
  | bumpToBallotCheck
  | attemptAcceptPrepared
  | setAcceptPrepared
  | setConfirmPrepared
deriving DecidableEq

/-- How a call ends other than by returning. -/
inductive Fault where
  /-- A `dbgAssert` fails and aborts. -/
  | dbgAssert (site : Site)
  /-- A null pointer is dereferenced. -/
  | nullPointer
  /-- `moved to a bad state (ballot protocol)`, over the statement rejected. -/
  | badState (statement : SCPStatement)
  /-- `maximum number of transitions reached in advanceSlot`. -/
  | maxTransitions
  /-- `Cannot set state after starting ballot protocol`. -/
  | started
  /-- The model's bound on one run of the bump loop. -/
  | bumpLoop
deriving DecidableEq

def maxAdvanceSlotRecursion : Nat := 50

section Statements
variable (scp : SCP)

def getQuorumSetFromStatement (st : SCPStatement) : Option SCPQuorumSet :=
  match st.pledges with
  | .externalize _ => some (buildSingletonQSet st.nodeID)
  | .prepare p => scp.driver.getQSet p.quorumSetHash
  | .confirm c => scp.driver.getQSet c.quorumSetHash

/-- The part of `isStatementSane` about the pledges. -/
def arePledgesSane (pledges : SCPPledges) (self : Bool) : Bool :=
  match pledges with
  | .prepare p =>
    -- self is allowed to have b = 0 (as long as it never gets emitted)
    (self || decide (0 < p.ballot.counter)) &&
    (match p.preparedPrime, p.prepared with
      | some preparedPrime, some prepared => areBallotsLessAndIncompatible preparedPrime prepared
      | _, _ => true) &&
    (decide (p.nH = 0) || p.prepared.any fun prepared => decide (p.nH ≤ prepared.counter)) &&
    -- c != 0 -> c <= h <= b
    (decide (p.nC = 0) ||
      (decide (p.nH ≠ 0) && decide (p.nH ≤ p.ballot.counter) && decide (p.nC ≤ p.nH)))
  | .confirm c =>
    -- c <= h <= b
    decide (0 < c.ballot.counter) && decide (c.nH ≤ c.ballot.counter) && decide (c.nCommit ≤ c.nH)
  | .externalize e => decide (0 < e.commit.counter) && decide (e.commit.counter ≤ e.nH)

def isStatementSane (st : SCPStatement) (self : Bool) : Bool :=
  (getQuorumSetFromStatement scp st).any (isQuorumSetSane · false) && arePledgesSane st.pledges self

def validateValues (st : SCPStatement) : ValidationLevel :=
  match getStatementValues st with
  -- this shouldn't happen
  | [] => .kInvalidValue
  | values => values.foldl (fun lv v =>
      if lv = .kInvalidValue then lv else (scp.driver.validateValue v false).min lv)
      .kFullyValidatedValue

end Statements

/-! ### The members decisions depend on -/

structure Core where
  mHeardFromQuorum : Bool := false
  /-- b -/
  mCurrentBallot : Option SCPBallot := none
  /-- p -/
  mPrepared : Option SCPBallot := none
  /-- p' -/
  mPreparedPrime : Option SCPBallot := none
  /-- h -/
  mHighBallot : Option SCPBallot := none
  /-- c -/
  mCommit : Option SCPBallot := none
  /-- M -/
  mLatestEnvelopes : Latest SCPStatement := ∅
  /-- Phi -/
  mPhase : SCPPhase := .prepare
  /-- z -/
  mValueOverride : Option Value := none
  /-- The slot's record of every statement it has taken in. -/
  mStatementsHistory : List SCPStatement := []
  /-- The nomination protocol's, read by `abandonBallot`. -/
  mLatestCompositeCandidate : Option Value := none

namespace Core
variable (scp : SCP)

def federatedAccept (s : Core) (voted accepted : SCPStatement → Bool) : Bool :=
  isVBlockingMap scp.localNode.mQSet s.mLatestEnvelopes accepted ||
    isQuorum scp.localNode.mQSet s.mLatestEnvelopes (getQuorumSetFromStatement scp)
      (fun st => accepted st || voted st)

def federatedRatify (s : Core) (voted : SCPStatement → Bool) : Bool :=
  isQuorum scp.localNode.mQSet s.mLatestEnvelopes (getQuorumSetFromStatement scp) voted

/-- `isNewerStatement` against the latest statement of the same node. -/
def isNewer (s : Core) (st : SCPStatement) : Bool :=
  (s.mLatestEnvelopes.lookup st.nodeID).all (isNewerStatement · st)

def recordEnvelope (s : Core) (st : SCPStatement) : Core :=
  { s with
    mLatestEnvelopes := s.mLatestEnvelopes.insert st.nodeID st
    mStatementsHistory := s.mStatementsHistory ++ [st] }

def checkInvariants (s : Core) : Bool :=
  s.mCurrentBallot.all (fun b => decide (b.counter ≠ 0)) &&
  (match s.mPrepared, s.mPreparedPrime with
    | some p, some p' => areBallotsLessAndIncompatible p' p
    | _, _ => true) &&
  (match s.mHighBallot with
    | some h => s.mCurrentBallot.any (areBallotsLessAndCompatible h ·)
    | none => true) &&
  (match s.mCommit with
    | some c => s.mHighBallot.any fun h =>
        areBallotsLessAndCompatible c h && s.mCurrentBallot.any (areBallotsLessAndCompatible h ·)
    | none => true) &&
  (match s.mPhase with
    | .prepare => true
    | .confirm => s.mCommit.isSome
    | .externalize => s.mCommit.isSome && s.mHighBallot.isSome)

def assertInvariants (s : Core) : Except Fault Unit :=
  if s.checkInvariants then pure () else throw (.dbgAssert .checkInvariants)

/-- The statement of the current phase, if the members it reads are set. -/
def statement (s : Core) : Option SCPStatement :=
  match s.mPhase with
  | .prepare => some ⟨scp.localNode.mNodeID, .prepare
      { quorumSetHash := scp.localNode.mQSetHash
        ballot := s.mCurrentBallot.getD default
        prepared := s.mPrepared
        preparedPrime := s.mPreparedPrime
        nC := (s.mCommit.map (·.counter)).getD 0
        nH := (s.mHighBallot.map (·.counter)).getD 0 }⟩
  | .confirm =>
    match s.mCurrentBallot, s.mPrepared, s.mCommit, s.mHighBallot with
    | some b, some p, some c, some h => some ⟨scp.localNode.mNodeID, .confirm
        { ballot := b
          nPrepared := p.counter
          nCommit := c.counter
          nH := h.counter
          quorumSetHash := scp.localNode.mQSetHash }⟩
    | _, _, _, _ => none
  | .externalize =>
    match s.mCommit, s.mHighBallot with
    | some c, some h => some ⟨scp.localNode.mNodeID, .externalize
        { commit := c, nH := h.counter, commitQuorumSetHash := scp.localNode.mQSetHash }⟩
    | _, _ => none

/-- `createStatement` for the type of the current phase. -/
def createStatement (s : Core) : Except Fault SCPStatement := do
  s.assertInvariants
  match s.statement scp with
  | some st => pure st
  | none => throw .nullPointer

/-! #### Moving the current ballot -/

def bumpToBallot (s : Core) (ballot : SCPBallot) (check : Bool) : Except Fault Core :=
  if s.mPhase = .externalize then throw (.dbgAssert .bumpToBallotPhase)
  -- we should move mCurrentBallot monotonically only
  else if check && !s.mCurrentBallot.all (fun b => decide (compareBallots ballot b ≥ 0)) then
    throw (.dbgAssert .bumpToBallotCheck)
  else
    let gotBumped := s.mCurrentBallot.all fun b => decide (b.counter ≠ ballot.counter)
    let s := { s with mCurrentBallot := some ballot }
    -- invariant: h.value = b.value, c set only when h is set
    let s := if s.mHighBallot.all (areBallotsCompatible ballot ·) then s
      else { s with mHighBallot := none, mCommit := none }
    pure (if gotBumped then { s with mHeardFromQuorum := false } else s)

def updateCurrentIfNeeded (s : Core) (h : SCPBallot) : Except Fault (Bool × Core) :=
  if s.mCurrentBallot.all (fun b => decide (compareBallots b h < 0)) then do
    let s ← s.bumpToBallot h true
    pure (true, s)
  else pure (false, s)

/-- `updateCurrentValue`: move to `ballot` unless c stands in the way. -/
def updateCurrentValue (s : Core) (ballot : SCPBallot) : Except Fault (Bool × Core) :=
  if s.mPhase = .externalize then pure (false, s)
  else match s.mCurrentBallot with
    | none => do
      let s ← s.bumpToBallot ballot true
      s.assertInvariants
      pure (true, s)
    | some b =>
      if compareBallots b ballot ≤ 0 then
        if s.mCommit.any (!areBallotsCompatible · ballot) then pure (false, s)
        else if compareBallots b ballot < 0 then do
          let s ← s.bumpToBallot ballot true
          s.assertInvariants
          pure (true, s)
        else do
          s.assertInvariants
          pure (false, s)
      else throw (.dbgAssert .updateCurrentValue)

/-! #### Accepting and confirming prepared -/

/-- The ballots of a hint, as votes to look under. -/
def hintBallots (hint : SCPStatement) : List SCPBallot :=
  match hint.pledges with
  | .prepare prep => prep.ballot :: (prep.prepared.toList ++ prep.preparedPrime.toList)
  | .confirm con => [⟨con.nPrepared, con.ballot.value⟩, ⟨UINT32_MAX, con.ballot.value⟩]
  | .externalize ext => [⟨UINT32_MAX, ext.commit.value⟩]

/-- What one statement adds to the candidates under `topVote`. -/
def candidatesFrom (topVote : SCPBallot) (st : SCPStatement) : List SCPBallot :=
  match st.pledges with
  | .prepare prep =>
    (prep.ballot :: (prep.prepared.toList ++ prep.preparedPrime.toList)).filter
      (areBallotsLessAndCompatible · topVote)
  | .confirm con =>
    if areBallotsCompatible topVote con.ballot then
      topVote :: (if con.nPrepared < topVote.counter then [⟨con.nPrepared, topVote.value⟩] else [])
    else []
  | .externalize ext => if areBallotsCompatible topVote ext.commit then [topVote] else []

def getPrepareCandidates (s : Core) (hint : SCPStatement) : List SCPBallot :=
  descending <| (hintBallots hint).flatMap fun topVote =>
    s.mLatestEnvelopes.entries.flatMap fun e => candidatesFrom topVote e.2

def alreadyPrepared (s : Core) (ballot : SCPBallot) : Bool :=
  -- if ballot <= p' ballot is neither a candidate for p nor p'
  s.mPreparedPrime.any (fun p' => decide (compareBallots ballot p' ≤ 0)) ||
    -- if ballot is already covered by p, skip
    s.mPrepared.any (areBallotsLessAndCompatible ballot ·)

/-- Whether the search of `attemptAcceptPrepared` passes over a candidate. -/
def skipsPrepared (s : Core) (ballot : SCPBallot) : Except Fault Bool :=
  if s.mPhase = .confirm then
    match s.mPrepared with
    | none => throw .nullPointer
    | some p =>
      -- only consider the ballot if it may help us increase p (note: at this point, p ~ c)
      if areBallotsLessAndCompatible p ballot then
        match s.mCommit with
        | none => throw .nullPointer
        | some c =>
          if areBallotsCompatible c ballot then pure (s.alreadyPrepared ballot)
          else throw (.dbgAssert .attemptAcceptPrepared)
      else pure true
  else pure (s.alreadyPrepared ballot)

/-- The first candidate that can be accepted as prepared. -/
def findAcceptPrepared (s : Core) : List SCPBallot → Except Fault (Option SCPBallot)
  | [] => pure none
  | ballot :: rest => do
    let skip ← s.skipsPrepared ballot
    if !skip && s.federatedAccept scp (votesPrepared ballot) (hasPreparedBallot ballot) then
      pure (some ballot)
    else s.findAcceptPrepared rest

def setPrepared (s : Core) (ballot : SCPBallot) : Bool × Core :=
  match s.mPrepared with
  | some p =>
    if compareBallots p ballot < 0 then
      -- as we're replacing p, we see if we should also replace p'
      let s := if areBallotsCompatible p ballot then s else { s with mPreparedPrime := some p }
      (true, { s with mPrepared := some ballot })
    else if compareBallots p ballot > 0 then
      if s.mPreparedPrime.all fun p' =>
          decide (compareBallots p' ballot < 0) && !areBallotsCompatible p ballot then
        (true, { s with mPreparedPrime := some ballot })
      else (false, s)
    else (false, s)
  | none => (true, { s with mPrepared := some ballot })

def acceptPrepared (s : Core) (ballot : SCPBallot) : Except Fault (Bool × Core) :=
  let (didWork, s) := s.setPrepared ballot
  -- check if we also need to clear 'c'
  match s.mCommit, s.mHighBallot with
  | some _, some h =>
    if s.mPrepared.any (areBallotsLessAndIncompatible h ·) ||
        s.mPreparedPrime.any (areBallotsLessAndIncompatible h ·) then
      if s.mPhase = .prepare then pure (true, { s with mCommit := none })
      else throw (.dbgAssert .setAcceptPrepared)
    else pure (didWork, s)
  | _, _ => pure (didWork, s)

/-- The candidates from the highest one confirmed prepared on, if it raises h. -/
def findHigh (s : Core) : List SCPBallot → List SCPBallot
  | [] => []
  | ballot :: rest =>
    -- only consider it if we can potentially raise h
    if s.mHighBallot.any fun h => decide (compareBallots h ballot ≥ 0) then []
    else if s.federatedRatify scp (hasPreparedBallot ballot) then ballot :: rest
    else s.findHigh rest

/-- The lowest ballot to vote to commit, searching down from newH; `newC` if none. -/
def findCommit (s : Core) (b newH : SCPBallot) : SCPBallot → List SCPBallot → SCPBallot
  | newC, [] => newC
  | newC, ballot :: rest =>
    if compareBallots ballot b < 0 then newC
    -- c and h must be compatible
    else if areBallotsLessAndCompatible ballot newH then
      if s.federatedRatify scp (hasPreparedBallot ballot) then s.findCommit b newH ballot rest
      else newC
    else s.findCommit b newH newC rest

/-- Whether step (3) may set c: it is not set, and newH is not aborted by p or p'. -/
def mayCommit (s : Core) (newH : SCPBallot) : Bool :=
  s.mCommit.isNone && s.mPrepared.all (fun p => !areBallotsLessAndIncompatible newH p) &&
    s.mPreparedPrime.all (fun p' => !areBallotsLessAndIncompatible newH p')

/-- The bounds (newC, newH) `attemptConfirmPrepared` finds; newC is unset if there is no update. -/
def findConfirmPrepared (s : Core) (candidates : List SCPBallot) : Option (SCPBallot × SCPBallot) :=
  match s.findHigh scp candidates with
  | [] => none
  | newH :: rest =>
    -- continue where we left off (cur is at newH at this point)
    let newC := if s.mayCommit newH then
        s.findCommit scp (s.mCurrentBallot.getD default) newH default (newH :: rest)
      else default
    some (newC, newH)

/-- Setting h and c, when we are on a compatible ballot. -/
def setHighAndCommit (s : Core) (newC newH : SCPBallot) : Except Fault (Bool × Core) :=
  if s.mCurrentBallot.all (areBallotsCompatible · newH) then
    let raise := s.mHighBallot.all fun h => decide (compareBallots newH h > 0)
    let s := if raise then { s with mHighBallot := some newH } else s
    if newC.counter ≠ 0 then
      if s.mCommit.isNone then pure (true, { s with mCommit := some newC })
      else throw (.dbgAssert .setConfirmPrepared)
    else pure (raise, s)
  else pure (false, s)

def confirmPrepared (s : Core) (newC newH : SCPBallot) : Except Fault (Bool × Core) := do
  -- remember newH's value
  let (didWork, s) ← { s with mValueOverride := some newH.value }.setHighAndCommit newC newH
  -- always perform step (8) with the computed value of h
  let (bumped, s) ← s.updateCurrentIfNeeded newH
  pure (bumped || didWork, s)

/-! #### Accepting and confirming commit -/

/-- `findExtendedInterval`, over the boundaries from the highest. -/
def findExtendedInterval (pred : Interval → Bool) : Interval → List UInt32 → Interval
  | candidate, [] => candidate
  | candidate, b :: rest =>
    if candidate.first = 0 then
      -- first, find the high bound
      if pred ⟨b, b⟩ then findExtendedInterval pred ⟨b, b⟩ rest
      else findExtendedInterval pred candidate rest
    else if b > candidate.second then findExtendedInterval pred candidate rest
    else if pred ⟨b, candidate.second⟩ then findExtendedInterval pred ⟨b, candidate.second⟩ rest
    -- could not extend further
    else candidate

/-- What one statement adds to the commit boundaries compatible with `ballot`. -/
def boundariesFrom (ballot : SCPBallot) (st : SCPStatement) : List UInt32 :=
  match st.pledges with
  | .prepare p => if areBallotsCompatible ballot p.ballot && decide (p.nC ≠ 0) then [p.nC, p.nH] else []
  | .confirm c => if areBallotsCompatible ballot c.ballot then [c.nCommit, c.nH] else []
  | .externalize e =>
    if areBallotsCompatible ballot e.commit then [e.commit.counter, e.nH, UINT32_MAX] else []

/-- `getCommitBoundariesFromStatements`, from the highest. -/
def getCommitBoundariesFromStatements (s : Core) (ballot : SCPBallot) : List UInt32 :=
  descending <| s.mLatestEnvelopes.entries.flatMap fun e => boundariesFrom ballot e.2

/-- The ballot whose value a hint may have accepted as commit. -/
def acceptCommitHint (hint : SCPStatement) : Option SCPBallot :=
  match hint.pledges with
  | .prepare prep => if prep.nC ≠ 0 then some ⟨prep.nH, prep.ballot.value⟩ else none
  | .confirm con => some ⟨con.nH, con.ballot.value⟩
  | .externalize ext => some ⟨ext.nH, ext.commit.value⟩

/-- The ballot whose value a hint may confirm as commit. -/
def confirmCommitHint (hint : SCPStatement) : Option SCPBallot :=
  match hint.pledges with
  | .prepare _ => none
  | .confirm con => some ⟨con.nH, con.ballot.value⟩
  | .externalize ext => some ⟨ext.nH, ext.commit.value⟩

/-- The interval `attemptAcceptCommit` can accept for the value of `ballot`. -/
def acceptCommitInterval (s : Core) (ballot : SCPBallot) : Interval :=
  findExtendedInterval (fun cur => s.federatedAccept scp (votesCommit ballot cur) (commitPredicate ballot cur))
    ⟨0, 0⟩ (s.getCommitBoundariesFromStatements ballot)

/-- The interval `attemptConfirmCommit` can confirm for the value of `ballot`. -/
def confirmCommitInterval (s : Core) (ballot : SCPBallot) : Interval :=
  findExtendedInterval (fun cur => s.federatedRatify scp (commitPredicate ballot cur))
    ⟨0, 0⟩ (s.getCommitBoundariesFromStatements ballot)

/-- The bounds (c, h) `attemptAcceptCommit` finds for a hint. -/
def findAcceptCommit (s : Core) (hint : SCPStatement) : Except Fault (Option (SCPBallot × SCPBallot)) :=
  match acceptCommitHint hint with
  | none => pure none
  | some ballot =>
    let candidate := s.acceptCommitInterval scp ballot
    let found := (⟨candidate.first, ballot.value⟩, ⟨candidate.second, ballot.value⟩)
    if s.mPhase = .confirm then
      match s.mHighBallot with
      | none => throw .nullPointer
      | some h =>
        if areBallotsCompatible ballot h && decide (candidate.first ≠ 0) &&
            decide (candidate.second > h.counter) then pure (some found)
        else pure none
    else if candidate.first ≠ 0 then pure (some found)
    else pure none

/-- The bounds (c, h) `attemptConfirmCommit` finds for a hint. -/
def findConfirmCommit (s : Core) (hint : SCPStatement) : Option (SCPBallot × SCPBallot) :=
  match s.mHighBallot, s.mCommit, confirmCommitHint hint with
  | some _, some c, some ballot =>
    if areBallotsCompatible ballot c then
      let candidate := s.confirmCommitInterval scp ballot
      if candidate.first ≠ 0 then
        some (⟨candidate.first, ballot.value⟩, ⟨candidate.second, ballot.value⟩)
      else none
    else none
  | _, _, _ => none

/-- Leaving the PREPARE phase, on to a ballot h is below and compatible with. -/
def enterConfirm (s : Core) (h : SCPBallot) : Except Fault Core := do
  let s := { s with mPhase := .confirm }
  let s ← if s.mCurrentBallot.any (fun b => !areBallotsLessAndCompatible h b) then s.bumpToBallot h false
    else pure s
  pure { s with mPreparedPrime := none }

def acceptCommit (s : Core) (c h : SCPBallot) : Except Fault (Bool × Core) := do
  -- remember h's value
  let s := { s with mValueOverride := some h.value }
  let same := s.mHighBallot.any (fun h' => decide (compareBallots h' h = 0)) &&
    s.mCommit.any (fun c' => decide (compareBallots c' c = 0))
  let s := if same then s else { s with mCommit := some c, mHighBallot := some h }
  if s.mPhase = .prepare then do
    let s ← s.enterConfirm h
    let (_, s) ← s.updateCurrentIfNeeded h
    pure (true, s)
  else if same then pure (false, s)
  else do
    let (_, s) ← s.updateCurrentIfNeeded h
    pure (true, s)

def confirmCommit (s : Core) (c h : SCPBallot) : Except Fault Core := do
  let (_, s) ← { s with mCommit := some c, mHighBallot := some h }.updateCurrentIfNeeded h
  pure { s with mPhase := .externalize }

/-! #### Bumping -/

def hasVBlockingSubsetStrictlyAheadOf (s : Core) (n : UInt32) : Bool :=
  isVBlockingMap scp.localNode.mQSet s.mLatestEnvelopes
    fun st => decide (statementBallotCounter st > n)

def findBump (s : Core) : Option UInt32 :=
  let localCounter := (s.mCurrentBallot.map (·.counter)).getD 0
  if s.hasVBlockingSubsetStrictlyAheadOf scp localCounter then
    let allCounters := ascending <|
      (s.mLatestEnvelopes.entries.map fun e => statementBallotCounter e.2).filter (· > localCounter)
    allCounters.find? fun n => !s.hasVBlockingSubsetStrictlyAheadOf scp n
  else none

/-- The value `abandonBallot` bumps with: the composite candidate, or the current
ballot's value; none if that is missing or empty. -/
def abandonValue (s : Core) : Option Value :=
  match s.mLatestCompositeCandidate with
  | some (byte :: bytes) => some (byte :: bytes)
  | v => ((s.mCurrentBallot.map (·.value)).or v).filter (· ≠ [])

/-- The counter that follows the current ballot's, in 32 bits. -/
def nextCounter (s : Core) : UInt32 :=
  match s.mCurrentBallot with
  | some b => b.counter + 1
  | none => 1

/-- The ballot `bumpState` moves to: the value that we saw confirmed prepared or
that we at least voted to commit to, if any. -/
def bumpBallot (s : Core) (value : Value) (n : UInt32) : SCPBallot :=
  ⟨n, s.mValueOverride.getD value⟩

end Core

/-! ### The protocol -/

structure BallotProtocol extends Core where
  mCurrentMessageLevel : Nat := 0
  /-- Last envelope generated by this node. -/
  mLastEnvelope : Option SCPStatement := none
  /-- Last envelope emitted by this node. -/
  mLastEnvelopeEmit : Option SCPStatement := none
  /-- The slot's. -/
  mFullyValidated : Bool
  /-- Whether the driver has the ballot protocol timer set. -/
  timer : Bool := false
  /-- The envelopes handed to the driver, in order. -/
  emitted : List SCPStatement := []

namespace BallotProtocol
variable (scp : SCP)

def fresh : BallotProtocol := { mFullyValidated := scp.localNode.mIsValidator }

abbrev ProcessSelf := SCPStatement → BallotProtocol → Except Fault (EnvelopeState × BallotProtocol)

def sendLatestEnvelope (s : BallotProtocol) : BallotProtocol :=
  match s.mLastEnvelope with
  | some e =>
    if s.mCurrentMessageLevel = 0 ∧ s.mFullyValidated ∧ s.mLastEnvelopeEmit ≠ some e then
      { s with mLastEnvelopeEmit := some e, emitted := s.emitted ++ [e] }
    else s
  | none => s

/-- `checkHeardFromQuorum`: the timer runs while a quorum is at our counter. -/
def checkHeardFromQuorum (s : BallotProtocol) : BallotProtocol :=
  match s.mCurrentBallot with
  | none => s
  | some b =>
    if isQuorum scp.localNode.mQSet s.mLatestEnvelopes (getQuorumSetFromStatement scp)
        (fun st => match st.pledges with
          | .prepare p => decide (b.counter ≤ p.ballot.counter)
          | _ => true) then
      let timer := if s.mPhase = .externalize then false else s.timer || !s.mHeardFromQuorum
      { s with mHeardFromQuorum := true, timer := timer }
    else { s with mHeardFromQuorum := false, timer := false }

section Emitting
variable (processSelf : ProcessSelf)

def emitCurrentStateStatement (s : BallotProtocol) : Except Fault BallotProtocol := do
  let statement ← s.createStatement scp
  let canEmit := s.mCurrentBallot.isSome
  -- if we generate the same envelope, don't process it again
  if s.mLatestEnvelopes.lookup scp.localNode.mNodeID = some statement then pure s
  else do
    let (state, s) ← processSelf statement s
    match state with
    -- there is a bug in the application if it queued up a statement it considers invalid
    | .invalid => throw (.badState statement)
    | .valid =>
      if canEmit && s.mLastEnvelope.all (isNewerStatement · statement) then
        pure { s with mLastEnvelope := some statement }.sendLatestEnvelope
      else pure s

def emitAfter (s : BallotProtocol) (didWork : Bool) (core : Core) : Except Fault (Bool × BallotProtocol) :=
  if didWork then do
    let s ← emitCurrentStateStatement scp processSelf { s with toCore := core }
    pure (true, s)
  else pure (false, { s with toCore := core })

def setAcceptPrepared (s : BallotProtocol) (ballot : SCPBallot) : Except Fault (Bool × BallotProtocol) := do
  let (didWork, core) ← s.acceptPrepared ballot
  emitAfter scp processSelf s didWork core

def setConfirmPrepared (s : BallotProtocol) (newC newH : SCPBallot) :
    Except Fault (Bool × BallotProtocol) := do
  let (didWork, core) ← s.confirmPrepared newC newH
  emitAfter scp processSelf s didWork core

def setAcceptCommit (s : BallotProtocol) (c h : SCPBallot) : Except Fault (Bool × BallotProtocol) := do
  let (didWork, core) ← s.acceptCommit c h
  emitAfter scp processSelf s didWork core

def setConfirmCommit (s : BallotProtocol) (c h : SCPBallot) : Except Fault (Bool × BallotProtocol) := do
  let core ← s.confirmCommit c h
  emitAfter scp processSelf s true core

def attemptAcceptPrepared (s : BallotProtocol) (hint : SCPStatement) :
    Except Fault (Bool × BallotProtocol) :=
  if s.mPhase = .externalize then pure (false, s)
  else do
    let found ← s.findAcceptPrepared scp (s.getPrepareCandidates hint)
    match found with
    | some ballot => setAcceptPrepared scp processSelf s ballot
    | none => pure (false, s)

def attemptConfirmPrepared (s : BallotProtocol) (hint : SCPStatement) :
    Except Fault (Bool × BallotProtocol) :=
  -- check if we could accept this ballot as prepared
  if s.mPhase = .prepare ∧ s.mPrepared.isSome then
    match s.findConfirmPrepared scp (s.getPrepareCandidates hint) with
    | some (newC, newH) => setConfirmPrepared scp processSelf s newC newH
    | none => pure (false, s)
  else pure (false, s)

def attemptAcceptCommit (s : BallotProtocol) (hint : SCPStatement) :
    Except Fault (Bool × BallotProtocol) :=
  if s.mPhase = .externalize then pure (false, s)
  else do
    let found ← s.findAcceptCommit scp hint
    match found with
    | some (c, h) => setAcceptCommit scp processSelf s c h
    | none => pure (false, s)

def attemptConfirmCommit (s : BallotProtocol) (hint : SCPStatement) :
    Except Fault (Bool × BallotProtocol) :=
  if s.mPhase = .confirm then
    match s.findConfirmCommit scp hint with
    | some (c, h) => setConfirmCommit scp processSelf s c h
    | none => pure (false, s)
  else pure (false, s)

/-- `bumpState` with the actual desired counter value. -/
def bumpStateTo (s : BallotProtocol) (value : Value) (n : UInt32) : Except Fault (Bool × BallotProtocol) :=
  if s.mPhase = .externalize then pure (false, s)
  else do
    let (updated, core) ← s.updateCurrentValue (s.bumpBallot value n)
    let (updated, s) ← emitAfter scp processSelf s updated core
    pure (updated, if updated then s.checkHeardFromQuorum scp else s)

/-- `bumpState`: always if forced, otherwise only with no current ballot. -/
def bumpState (s : BallotProtocol) (value : Value) (force : Bool) : Except Fault (Bool × BallotProtocol) :=
  if !force && s.mCurrentBallot.isSome then pure (false, s)
  else bumpStateTo scp processSelf s value s.nextCounter

/-- `abandonBallot`: move to counter `n`, or to the next one if `n` is zero. -/
def abandonBallot (s : BallotProtocol) (n : UInt32) : Except Fault (Bool × BallotProtocol) :=
  match s.abandonValue with
  | none => pure (false, s)
  | some v =>
    if n = 0 then bumpState scp processSelf s v true
    else bumpStateTo scp processSelf s v n

def attemptBump (s : BallotProtocol) : Except Fault (Bool × BallotProtocol) :=
  if s.mPhase = .externalize then pure (false, s)
  else match s.findBump scp with
    | some n => abandonBallot scp processSelf s n
    | none => pure (false, s)

/-- `do { didBump = attemptBump(); } while (didBump);` -/
def bumpLoop : Nat → BallotProtocol → Except Fault (Bool × BallotProtocol)
  | 0, _ => throw .bumpLoop
  | n + 1, s => do
    let (didBump, s) ← attemptBump scp processSelf s
    if didBump then do
      let (_, s) ← bumpLoop n s
      pure (true, s)
    else pure (false, s)

/-- A bump raises the counter, except for one fall when a commit is accepted, so
twice the counters bound the bumps. -/
def bumpLoopBound : Nat := 2 * 2 ^ 32 + 1

/-- The attempts of `advanceSlot`, in the order of the white paper. -/
def attempts (s : BallotProtocol) (hint : SCPStatement) : Except Fault (Bool × BallotProtocol) := do
  let (acceptedPrepared, s) ← attemptAcceptPrepared scp processSelf s hint
  let (confirmedPrepared, s) ← attemptConfirmPrepared scp processSelf s hint
  let (acceptedCommit, s) ← attemptAcceptCommit scp processSelf s hint
  let (confirmedCommit, s) ← attemptConfirmCommit scp processSelf s hint
  pure (acceptedPrepared || confirmedPrepared || acceptedCommit || confirmedCommit, s)

/-- Bumps, only after we're done with everything else and at the outermost level. -/
def bumps (s : BallotProtocol) : Except Fault (Bool × BallotProtocol) :=
  if s.mCurrentMessageLevel = 1 then do
    let (didBump, s) ← bumpLoop scp processSelf bumpLoopBound s
    pure (didBump, s.checkHeardFromQuorum scp)
  else pure (false, s)

def advanceSlot (s : BallotProtocol) (hint : SCPStatement) : Except Fault BallotProtocol :=
  let s := { s with mCurrentMessageLevel := s.mCurrentMessageLevel + 1 }
  if s.mCurrentMessageLevel ≥ maxAdvanceSlotRecursion then throw .maxTransitions
  else do
    let (attempted, s) ← attempts scp processSelf s hint
    let (bumped, s) ← bumps scp processSelf s
    let s := { s with mCurrentMessageLevel := s.mCurrentMessageLevel - 1 }
    pure (if attempted || bumped then s.sendLatestEnvelope else s)

/-- `processEnvelope`, with own statements emitted on the way handed to `processSelf`. -/
def processEnvelopeWith (statement : SCPStatement) (self : Bool) (s : BallotProtocol) :
    Except Fault (EnvelopeState × BallotProtocol) :=
  if !isStatementSane scp statement self || !s.isNewer statement then pure (.invalid, s)
  else
    let validationRes := validateValues scp statement
    -- If the value is not valid, we just ignore it.
    if validationRes = .kInvalidValue then pure (.invalid, s)
    else if s.mPhase = .externalize then
      -- note: this handles also our own messages, in particular our final EXTERNALIZE message
      match s.mCommit with
      | none => throw .nullPointer
      | some c =>
        if c.value = (getWorkingBallot statement).value then
          pure (.valid, { s with toCore := s.recordEnvelope statement })
        else pure (.invalid, s)
    else do
      let s := if validationRes = .kMaybeValidValue then { s with mFullyValidated := false } else s
      let s ← advanceSlot scp processSelf { s with toCore := s.recordEnvelope statement } statement
      pure (.valid, s)

end Emitting

/-- Own statements, with at most `n` of them nested. -/
def processSelf : Nat → ProcessSelf
  | 0 => fun _ _ => throw .maxTransitions
  | n + 1 => fun st s => processEnvelopeWith scp (processSelf n) st true s

/-- `processEnvelope` on a statement received from another node. -/
def processEnvelope (s : BallotProtocol) (st : SCPStatement) :
    Except Fault (EnvelopeState × BallotProtocol) :=
  processEnvelopeWith scp (processSelf scp maxAdvanceSlotRecursion) st false s

/-- What happens to a slot's ballot protocol. -/
inductive Event where
  /-- An envelope from the network. -/
  | receive (st : SCPStatement)
  /-- The nomination protocol has a new composite candidate. -/
  | candidate (value : Option Value)
  /-- `Slot::bumpState`. -/
  | bumpState (value : Value) (force : Bool)
  /-- `ballotProtocolTimerExpired`. -/
  | timerExpired
deriving DecidableEq

def handle (s : BallotProtocol) : Event → Except Fault BallotProtocol
  | .receive st => do
    let (_, s) ← processEnvelope scp s st
    pure s
  | .candidate value => pure { s with mLatestCompositeCandidate := value }
  | .bumpState value force => do
    let (_, s) ← bumpState scp (processSelf scp maxAdvanceSlotRecursion) s value force
    pure s
  | .timerExpired => do
    let (_, s) ← abandonBallot scp (processSelf scp maxAdvanceSlotRecursion) { s with timer := false } 0
    pure s

def run (s : BallotProtocol) : List Event → Except Fault BallotProtocol
  | [] => pure s
  | e :: rest => do
    let s ← handle scp s e
    run s rest

/-- The members `setStateFromEnvelope` sets from a statement's pledges. -/
def restore (core : Core) (pledges : SCPPledges) : Except Fault Core :=
  match pledges with
  | .prepare prep => do
    let core ← core.bumpToBallot prep.ballot true
    pure { core with
      mPrepared := prep.prepared.or core.mPrepared
      mPreparedPrime := prep.preparedPrime.or core.mPreparedPrime
      mHighBallot := if prep.nH ≠ 0 then some ⟨prep.nH, prep.ballot.value⟩ else core.mHighBallot
      mCommit := if prep.nC ≠ 0 then some ⟨prep.nC, prep.ballot.value⟩ else core.mCommit
      mPhase := .prepare }
  | .confirm c => do
    let core ← core.bumpToBallot c.ballot true
    pure { core with
      mPrepared := some ⟨c.nPrepared, c.ballot.value⟩
      mHighBallot := some ⟨c.nH, c.ballot.value⟩
      mCommit := some ⟨c.nCommit, c.ballot.value⟩
      mPhase := .confirm }
  | .externalize ext => do
    let core ← core.bumpToBallot ⟨UINT32_MAX, ext.commit.value⟩ true
    pure { core with
      mPrepared := some ⟨UINT32_MAX, ext.commit.value⟩
      mHighBallot := some ⟨ext.nH, ext.commit.value⟩
      mCommit := some ext.commit
      mPhase := .externalize }

/-- `setStateFromEnvelope`, on an own statement after a restart. -/
def setStateFromEnvelope (s : BallotProtocol) (e : SCPStatement) : Except Fault BallotProtocol :=
  if s.mCurrentBallot.isSome then throw .started
  else do
    let core ← restore (s.recordEnvelope e) e.pledges
    pure { s with toCore := core, mLastEnvelope := some e, mLastEnvelopeEmit := some e }

end BallotProtocol

end Diamnet.Scp
