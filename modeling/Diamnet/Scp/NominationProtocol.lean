import Diamnet.Scp.BallotProtocol
import Diamnet.Util.OrderedSet

/-! The nomination protocol of one slot (`NominationProtocol.cpp`).

A `NominationProtocol` is the class's members. A node that changes its votes or its
accepted values emits a nomination, which it hands to its own `processEnvelope`
before going on; as in the ballot protocol the functions in between take that call
as a parameter, and the nesting is bounded by fuel. Fuel bounds the search for round
leaders too, which goes on until a round adds one. -/
namespace Diamnet.Scp
open LocalNode

structure SCPNomination where
  quorumSetHash : Hash
  /-- X -/
  votes : List Value
  /-- Y -/
  accepted : List Value
deriving DecidableEq

/-- How a call of the nomination protocol ends other than by returning. -/
inductive NominationFault where
  /-- `moved to a bad state (nomination)`, over the nomination rejected. -/
  | badState (nomination : SCPNomination)
  /-- `dbgAssert(!mPreviousValue.empty())`. -/
  | previousValue
  /-- `assert(threshold <= total)`. -/
  | computeWeight
  /-- The model's bound on nested emissions and on the search for leaders. -/
  | fuel
deriving DecidableEq

structure NominationProtocol where
  mRoundNumber : Int := 0
  /-- X -/
  mVotes : OrderedSet Value := ∅
  /-- Y -/
  mAccepted : OrderedSet Value := ∅
  /-- Z -/
  mCandidates : OrderedSet Value := ∅
  /-- N -/
  mLatestNominations : Latest SCPNomination := ∅
  /-- Last envelope emitted by this node. -/
  mLastEnvelope : Option SCPNomination := none
  /-- Nodes from the quorum set that have the highest priority this round. -/
  mRoundLeaders : OrderedSet NodeID := ∅
  /-- Whether `nominate` was called. -/
  mNominationStarted : Bool := false
  mLatestCompositeCandidate : Option Value := none
  /-- The value from the previous slot. -/
  mPreviousValue : Value := []
  /-- The slot's. -/
  mFullyValidated : Bool
  /-- The slot's record of the nominations it has taken in. -/
  mStatementsHistory : List (NodeID × SCPNomination) := []
  /-- The nominations handed to the driver, in order. -/
  emitted : List SCPNomination := []
  /-- The values handed to the ballot protocol, in order. -/
  bumped : List Value := []

namespace NominationProtocol

/-! ### Statements -/

/-- `isSubsetHelper`: whether p is a subset of v, and whether they differ. -/
def isSubsetHelper (p v : List Value) : Bool × Bool :=
  if p.length ≤ v.length then
    if includes v p then (true, p.length ≠ v.length) else (false, true)
  else (false, true)

/-- `isNewerStatement` on two nominations: true only if one of the sets grew. -/
def isNewerStatement (oldst st : SCPNomination) : Bool :=
  match isSubsetHelper oldst.votes st.votes, isSubsetHelper oldst.accepted st.accepted with
  | (true, votesGrow), (true, acceptedGrow) => votesGrow || acceptedGrow
  | _, _ => false

def isIncreasing : List Value → Bool
  | l :: r :: rest => decide (l < r) && isIncreasing (r :: rest)
  | _ => true

def isSane (nom : SCPNomination) : Bool :=
  decide (nom.votes.length + nom.accepted.length ≠ 0) && isIncreasing nom.votes && isIncreasing nom.accepted

def applyAll (nom : SCPNomination) : List Value :=
  nom.votes ++ nom.accepted.filter fun a => a ∉ nom.votes

def votePredicate (v : Value) (nom : SCPNomination) : Bool := decide (v ∈ nom.votes)

def acceptPredicate (v : Value) (nom : SCPNomination) : Bool := decide (v ∈ nom.accepted)

variable (scp : SCP)

def getQuorumSetFromStatement (nom : SCPNomination) : Option SCPQuorumSet :=
  scp.driver.getQSet nom.quorumSetHash

/-- `isNewerStatement` against the latest nomination of the same node. -/
def isNewer (s : NominationProtocol) (nodeID : NodeID) (nom : SCPNomination) : Bool :=
  (s.mLatestNominations.lookup nodeID).all (isNewerStatement · nom)

def recordEnvelope (s : NominationProtocol) (nodeID : NodeID) (nom : SCPNomination) : NominationProtocol :=
  { s with
    mLatestNominations := s.mLatestNominations.insert nodeID nom
    mStatementsHistory := s.mStatementsHistory ++ [(nodeID, nom)] }

def nomination (s : NominationProtocol) : SCPNomination :=
  ⟨scp.localNode.mQSetHash, s.mVotes.elems, s.mAccepted.elems⟩

def federatedAccept (s : NominationProtocol) (voted accepted : SCPNomination → Bool) : Bool :=
  isVBlockingMap scp.localNode.mQSet s.mLatestNominations accepted ||
    isQuorum scp.localNode.mQSet s.mLatestNominations (getQuorumSetFromStatement scp)
      (fun st => accepted st || voted st)

def federatedRatify (s : NominationProtocol) (voted : SCPNomination → Bool) : Bool :=
  isQuorum scp.localNode.mQSet s.mLatestNominations (getQuorumSetFromStatement scp) voted

/-! ### Round leaders -/

def hashNode (s : NominationProtocol) (isPriority : Bool) (nodeID : NodeID) : Except NominationFault UInt64 :=
  if s.mPreviousValue = [] then throw .previousValue
  else pure (scp.driver.computeHashNode s.mPreviousValue isPriority s.mRoundNumber nodeID)

def hashValue (s : NominationProtocol) (value : Value) : Except NominationFault UInt64 :=
  if s.mPreviousValue = [] then throw .previousValue
  else pure (scp.driver.computeValueHash s.mPreviousValue s.mRoundNumber value)

/-- The weight `getNodePriority` gives a node: the local node is in all quorum sets. -/
def priorityWeight (nodeID : NodeID) (qset : SCPQuorumSet) : Except NominationFault Nat :=
  if nodeID = scp.localNode.mNodeID then pure (2 ^ 64 - 1)
  else match getNodeWeight nodeID qset with
    | some w => pure w
    | none => throw .computeWeight

def getNodePriority (s : NominationProtocol) (nodeID : NodeID) (qset : SCPQuorumSet) :
    Except NominationFault UInt64 := do
  let w ← priorityWeight scp nodeID qset
  if w > 0 then do
    let hash ← hashNode scp s false nodeID
    if hash.toNat ≤ w then hashNode scp s true nodeID else pure 0
  else pure 0

/-- One visit of the search for the nodes of highest priority. -/
def visitLeader (s : NominationProtocol) (qset : SCPQuorumSet) (top : UInt64 × OrderedSet NodeID)
    (cur : NodeID) : Except NominationFault (UInt64 × OrderedSet NodeID) := do
  let w ← getNodePriority scp s cur qset
  let (topPriority, newRoundLeaders) := if w > top.1 then (w, ∅) else top
  pure (topPriority, if w = topPriority ∧ w > 0 then newRoundLeaders.insert cur else newRoundLeaders)

def newRoundLeaders (s : NominationProtocol) (qset : SCPQuorumSet) :
    Except NominationFault (OrderedSet NodeID) := do
  let localID := scp.localNode.mNodeID
  -- initialize priority with value derived from self
  let topPriority ← getNodePriority scp s localID qset
  let (_, leaders) ← (forAllNodes qset).foldlM (visitLeader scp s qset)
    (topPriority, (∅ : OrderedSet NodeID).insert localID)
  pure leaders

def searchLeaders (qset : SCPQuorumSet) (maxLeaderCount : Nat) :
    Nat → NominationProtocol → Except NominationFault NominationProtocol
  | 0, _ => throw .fuel
  | n + 1, s =>
    if s.mRoundLeaders.elems.length < maxLeaderCount then do
      let leaders ← newRoundLeaders scp s qset
      -- expand mRoundLeaders with the newly computed leaders
      let expanded := leaders.elems.foldl (fun set node => set.insert node) s.mRoundLeaders
      if expanded.elems.length ≠ s.mRoundLeaders.elems.length then pure { s with mRoundLeaders := expanded }
      else searchLeaders qset maxLeaderCount n { s with mRoundNumber := s.mRoundNumber + 1 }
    else pure s

def updateRoundLeaders (fuel : Nat) (s : NominationProtocol) : Except NominationFault NominationProtocol :=
  let localID := scp.localNode.mNodeID
  -- excludes self
  let myQSet := normalizeQSet scp.localNode.mQSet (some localID)
  searchLeaders scp myQSet (1 + (forAllNodes myQSet).length) fuel s

/-- One value of `getNewValueFromNomination`: the new vote and its hash so far. -/
def visitValue (s : NominationProtocol) (best : Option Value × UInt64) (value : Value) :
    Except NominationFault (Option Value × UInt64) :=
  let valueToNominate :=
    if scp.driver.validateValue value true = .kFullyValidatedValue then some value
    else scp.driver.extractValidValue value
  match valueToNominate with
  | none => pure best
  | some v =>
    if v ∈ s.mVotes then pure best
    else do
      let curHash ← hashValue scp s v
      pure (if curHash ≥ best.2 then (some v, curHash) else best)

/-- The highest value we don't have from the leader, sorted using `hashValue`. -/
def getNewValueFromNomination (s : NominationProtocol) (nom : SCPNomination) :
    Except NominationFault (Option Value) := do
  let (newVote, _) ← (applyAll nom).foldlM (visitValue scp s) (none, 0)
  pure newVote

/-! ### Processing -/

/-- Promote one vote to accepted, or vote for a variation of it that is valid. -/
def acceptVote (s : NominationProtocol) (v : Value) : Bool × NominationProtocol :=
  if v ∈ s.mAccepted then (false, s)
  else if federatedAccept scp s (votePredicate v) (acceptPredicate v) then
    if scp.driver.validateValue v true = .kFullyValidatedValue then
      (true, { s with mAccepted := s.mAccepted.insert v, mVotes := s.mVotes.insert v })
    else match scp.driver.extractValidValue v with
      | some toVote => (decide (toVote ∉ s.mVotes), { s with mVotes := s.mVotes.insert toVote })
      | none => (false, s)
  else (false, s)

/-- Attempts to promote some of the votes to accepted. -/
def acceptVotes : List Value → NominationProtocol → Bool × NominationProtocol
  | [], s => (false, s)
  | v :: rest, s =>
    let (modified, s) := acceptVote scp s v
    let (modified', s) := acceptVotes rest s
    (modified || modified', s)

/-- Attempts to promote accepted values to candidates. -/
def ratifyAccepted : List Value → NominationProtocol → Bool × NominationProtocol
  | [], s => (false, s)
  | a :: rest, s =>
    if a ∉ s.mCandidates ∧ federatedRatify scp s (acceptPredicate a) then
      let (_, s) := ratifyAccepted rest { s with mCandidates := s.mCandidates.insert a }
      (true, s)
    else ratifyAccepted rest s

/-- Only take round leader votes if we're still looking for candidates. -/
def takeLeaderVote (s : NominationProtocol) (nodeID : NodeID) (nom : SCPNomination) :
    Except NominationFault (Bool × NominationProtocol) :=
  if s.mCandidates.elems = [] ∧ nodeID ∈ s.mRoundLeaders then do
    let newVote ← getNewValueFromNomination scp s nom
    match newVote with
    | some v => pure (true, { s with mVotes := s.mVotes.insert v })
    | none => pure (false, s)
  else pure (false, s)

abbrev ProcessSelf :=
  SCPNomination → NominationProtocol → Except NominationFault (EnvelopeState × NominationProtocol)

section Emitting
variable (processSelf : ProcessSelf)

def emitNomination (s : NominationProtocol) : Except NominationFault NominationProtocol := do
  let nom := s.nomination scp
  let (state, s) ← processSelf nom s
  match state with
  -- there is a bug in the application if it queued up a statement it considers invalid
  | .invalid => throw (.badState nom)
  | .valid =>
    if s.mLastEnvelope.all (isNewerStatement · nom) then
      pure { s with
        mLastEnvelope := some nom
        emitted := if s.mFullyValidated then s.emitted ++ [nom] else s.emitted }
    else pure s

/-- New candidates make a new composite value, to bump the ballot protocol with. -/
def bumpComposite (newCandidates : Bool) (s : NominationProtocol) : NominationProtocol :=
  if newCandidates then
    let composite := scp.driver.combineCandidates s.mCandidates.elems
    { s with mLatestCompositeCandidate := some composite, bumped := s.bumped ++ [composite] }
  else s

/-- What `processEnvelope` does with a nomination it has recorded. -/
def promote (nodeID : NodeID) (nom : SCPNomination) (s : NominationProtocol) :
    Except NominationFault NominationProtocol := do
  let (acceptedSome, s) := acceptVotes scp nom.votes s
  let (newCandidates, s) := ratifyAccepted scp s.mAccepted.elems s
  let (tookVote, s) ← takeLeaderVote scp s nodeID nom
  let s ← if acceptedSome || tookVote then emitNomination scp processSelf s else pure s
  pure (bumpComposite scp newCandidates s)

/-- `processEnvelope`, with own nominations emitted on the way handed to `processSelf`. -/
def processEnvelopeWith (nodeID : NodeID) (nom : SCPNomination) (s : NominationProtocol) :
    Except NominationFault (EnvelopeState × NominationProtocol) :=
  if !s.isNewer nodeID nom || !isSane nom then pure (.invalid, s)
  else if s.mNominationStarted then do
    let s ← promote scp processSelf nodeID nom (s.recordEnvelope nodeID nom)
    pure (.valid, s)
  else pure (.valid, s.recordEnvelope nodeID nom)

end Emitting

/-- Own nominations, with at most `n` of them nested. -/
def processSelf : Nat → ProcessSelf
  | 0 => fun _ _ => throw .fuel
  | n + 1 => fun nom s => processEnvelopeWith scp (processSelf n) scp.localNode.mNodeID nom s

def processEnvelope (fuel : Nat) (s : NominationProtocol) (nodeID : NodeID) (nom : SCPNomination) :
    Except NominationFault (EnvelopeState × NominationProtocol) :=
  processEnvelopeWith scp (processSelf scp fuel) nodeID nom s

/-- A vote for one of the values each leader has nominated. -/
def takeLeaderVotes : List NodeID → NominationProtocol → Except NominationFault (Bool × NominationProtocol)
  | [], s => pure (false, s)
  | leader :: rest, s =>
    match s.mLatestNominations.lookup leader with
    | none => takeLeaderVotes rest s
    | some nom => do
      let newVote ← getNewValueFromNomination scp s nom
      match newVote with
      | none => takeLeaderVotes rest s
      | some v =>
        let (_, s) ← takeLeaderVotes rest { s with mVotes := s.mVotes.insert v }
        pure (true, s)

def nominate (fuel : Nat) (s : NominationProtocol) (value previousValue : Value) (timedout : Bool) :
    Except NominationFault (Bool × NominationProtocol) :=
  if timedout && !s.mNominationStarted then pure (false, s)
  else do
    let s ← updateRoundLeaders scp fuel { s with
      mNominationStarted := true
      mPreviousValue := previousValue
      mRoundNumber := s.mRoundNumber + 1 }
    -- if we're leader, add our value
    let ours := decide (scp.localNode.mNodeID ∈ s.mRoundLeaders ∧ value ∉ s.mVotes)
    let s := if ours then { s with mVotes := s.mVotes.insert value } else s
    -- add a few more values from other leaders
    let (theirs, s) ← takeLeaderVotes scp s.mRoundLeaders.elems s
    if ours || theirs then do
      let s ← emitNomination scp (processSelf scp fuel) s
      pure (true, s)
    else pure (false, s)

def stopNomination (s : NominationProtocol) : NominationProtocol := { s with mNominationStarted := false }

/-! ### Runs -/

def fresh : NominationProtocol := { mFullyValidated := scp.localNode.mIsValidator }

/-- What happens to a slot's nomination protocol. -/
inductive Event where
  /-- A nomination from the network. -/
  | receive (nodeID : NodeID) (nom : SCPNomination)
  | nominate (value previousValue : Value) (timedout : Bool)
  | stopNomination
deriving DecidableEq

def handle (fuel : Nat) (s : NominationProtocol) : Event → Except NominationFault NominationProtocol
  | .receive nodeID nom => do
    let (_, s) ← processEnvelope scp fuel s nodeID nom
    pure s
  | .nominate value previousValue timedout => do
    let (_, s) ← nominate scp fuel s value previousValue timedout
    pure s
  | .stopNomination => pure s.stopNomination

def run (fuel : Nat) (s : NominationProtocol) : List Event → Except NominationFault NominationProtocol
  | [] => pure s
  | e :: rest => do
    let s ← handle scp fuel s e
    run fuel s rest

end NominationProtocol

end Diamnet.Scp
