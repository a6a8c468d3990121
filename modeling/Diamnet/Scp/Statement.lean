import Diamnet.Scp.QuorumSet

/-! Ballots and statements (`DiamNet-SCP.x` and the static helpers of
`BallotProtocol.cpp`).

Ballots are ordered by counter and then by value; `compareBallots` computes that
order, and the lemmas beside it turn the source's comparisons into order facts.
The predicates on statements at the end are the ones the protocol's federated
votes count: what a statement votes for and what it says its node has accepted. -/
namespace Diamnet.Scp

/-- An opaque byte string, ordered lexicographically. -/
abbrev Value := List UInt8

def UINT32_MAX : UInt32 := 4294967295

theorem le_uint32_max (n : UInt32) : n ≤ UINT32_MAX := by
  have := n.toNat_lt
  show n.toNat ≤ 4294967295
  omega

/-! ### Ballots -/

structure SCPBallot where
  counter : UInt32
  value : Value
deriving DecidableEq

namespace SCPBallot

instance : LinearOrder SCPBallot :=
  LinearOrder.lift' (fun b : SCPBallot => toLex (b.counter, b.value)) (by
    rintro ⟨n, x⟩ ⟨m, y⟩ h
    simpa using h)

/-- A ballot no one has set. -/
instance : Inhabited SCPBallot := ⟨⟨0, []⟩⟩

variable {a b : SCPBallot}

theorem lt_iff : a < b ↔ a.counter < b.counter ∨ a.counter = b.counter ∧ a.value < b.value :=
  Prod.Lex.lt_iff ..

theorem le_iff : a ≤ b ↔ a.counter < b.counter ∨ a.counter = b.counter ∧ a.value ≤ b.value :=
  Prod.Lex.le_iff ..

theorem counter_le (h : a ≤ b) : a.counter ≤ b.counter := by
  rcases le_iff.mp h with h | h
  · exact h.le
  · exact h.1.le

theorem le_iff_of_value (h : a.value = b.value) : a ≤ b ↔ a.counter ≤ b.counter := by
  rw [le_iff, h]
  constructor
  · rintro (h | h)
    · exact h.le
    · exact h.1.le
  · intro h
    rcases lt_or_eq_of_le h with h | h
    · exact .inl h
    · exact .inr ⟨h, le_rfl⟩

theorem lt_iff_of_value (h : a.value = b.value) : a < b ↔ a.counter < b.counter := by
  rw [lt_iff, h]
  simp

theorem lt_of_counter (h : a.counter < b.counter) : a < b := lt_iff.mpr (.inl h)

end SCPBallot

def compareBallots (b1 b2 : SCPBallot) : Int :=
  if b1.counter < b2.counter then -1
  else if b2.counter < b1.counter then 1
  else if b1.value < b2.value then -1
  else if b2.value < b1.value then 1
  else 0

/-- `compareBallots` on pointers: no ballot is below every ballot. -/
def compareBallotPtrs : Option SCPBallot → Option SCPBallot → Int
  | some b1, some b2 => compareBallots b1 b2
  | some _, none => 1
  | none, some _ => -1
  | none, none => 0

def areBallotsCompatible (b1 b2 : SCPBallot) : Bool := b1.value == b2.value

def areBallotsLessAndIncompatible (b1 b2 : SCPBallot) : Bool :=
  decide (compareBallots b1 b2 ≤ 0) && !areBallotsCompatible b1 b2

def areBallotsLessAndCompatible (b1 b2 : SCPBallot) : Bool :=
  decide (compareBallots b1 b2 ≤ 0) && areBallotsCompatible b1 b2

theorem compareBallots_cases (a b : SCPBallot) :
    (a < b ∧ compareBallots a b = -1) ∨ (a = b ∧ compareBallots a b = 0) ∨
      (b < a ∧ compareBallots a b = 1) := by
  unfold compareBallots
  split
  · next h => exact .inl ⟨SCPBallot.lt_of_counter h, rfl⟩
  · next h =>
    split
    · next h' => exact .inr (.inr ⟨SCPBallot.lt_of_counter h', rfl⟩)
    · next h' =>
      have hc : a.counter = b.counter := le_antisymm (not_lt.mp h') (not_lt.mp h)
      split
      · next hv => exact .inl ⟨SCPBallot.lt_iff.mpr (.inr ⟨hc, hv⟩), rfl⟩
      · next hv =>
        split
        · next hv' => exact .inr (.inr ⟨SCPBallot.lt_iff.mpr (.inr ⟨hc.symm, hv'⟩), rfl⟩)
        · next hv' =>
          have hx : a.value = b.value := le_antisymm (not_lt.mp hv') (not_lt.mp hv)
          cases a
          cases b
          simp_all

variable {a b : SCPBallot}

@[simp] theorem compareBallots_neg : compareBallots a b < 0 ↔ a < b := by
  rcases compareBallots_cases a b with ⟨h, hc⟩ | ⟨h, hc⟩ | ⟨h, hc⟩
  · simp [hc, h]
  · simp [h ▸ hc, h]
  · simp [hc, h.le]

@[simp] theorem compareBallots_nonpos : compareBallots a b ≤ 0 ↔ a ≤ b := by
  rcases compareBallots_cases a b with ⟨h, hc⟩ | ⟨h, hc⟩ | ⟨h, hc⟩
  · simp [hc, h.le]
  · simp [h ▸ hc, h]
  · simp [hc, h]

@[simp] theorem compareBallots_pos : 0 < compareBallots a b ↔ b < a := by
  rw [← not_le, compareBallots_nonpos, not_le]

@[simp] theorem compareBallots_nonneg : 0 ≤ compareBallots a b ↔ b ≤ a := by
  rw [← not_lt, compareBallots_neg, not_lt]

@[simp] theorem compareBallots_eq_zero : compareBallots a b = 0 ↔ a = b := by
  rcases compareBallots_cases a b with ⟨h, hc⟩ | ⟨h, hc⟩ | ⟨h, hc⟩
  · simp [hc, h.ne]
  · simp [h ▸ hc, h]
  · simp [hc, h.ne']

@[simp] theorem compatible_iff : areBallotsCompatible a b = true ↔ a.value = b.value := by
  simp [areBallotsCompatible]

@[simp] theorem lessAndIncompatible_iff : areBallotsLessAndIncompatible a b = true ↔ a ≤ b ∧ a.value ≠ b.value := by
  simp [areBallotsLessAndIncompatible, areBallotsCompatible]

@[simp] theorem lessAndCompatible_iff : areBallotsLessAndCompatible a b = true ↔ a ≤ b ∧ a.value = b.value := by
  simp [areBallotsLessAndCompatible]

/-! ### Statements -/

structure SCPPrepare where
  quorumSetHash : Hash
  ballot : SCPBallot
  prepared : Option SCPBallot
  preparedPrime : Option SCPBallot
  nC : UInt32
  nH : UInt32
deriving DecidableEq

structure SCPConfirm where
  ballot : SCPBallot
  nPrepared : UInt32
  nCommit : UInt32
  nH : UInt32
  quorumSetHash : Hash
deriving DecidableEq

structure SCPExternalize where
  commit : SCPBallot
  nH : UInt32
  commitQuorumSetHash : Hash
deriving DecidableEq

/-- The pledges the ballot protocol handles; a slot hands nominations elsewhere. -/
inductive SCPPledges where
  | prepare (p : SCPPrepare)
  | confirm (c : SCPConfirm)
  | externalize (e : SCPExternalize)
deriving DecidableEq

/-- A statement about the one slot of the model. -/
structure SCPStatement where
  nodeID : NodeID
  pledges : SCPPledges
deriving DecidableEq

def SCPPledges.type : SCPPledges → Nat
  | .prepare _ => 0
  | .confirm _ => 1
  | .externalize _ => 2

/-- `BallotProtocol::isNewerStatement` on two statements. -/
def isNewerStatement (oldst st : SCPStatement) : Bool :=
  match oldst.pledges, st.pledges with
  -- can't have duplicate EXTERNALIZE statements
  | .externalize _, .externalize _ => false
  -- sorted by (b, p, p', h) (p' = 0 implicitly)
  | .confirm oldC, .confirm c =>
    let compBallot := compareBallots oldC.ballot c.ballot
    if compBallot < 0 then true
    else if compBallot = 0 then
      if oldC.nPrepared = c.nPrepared then decide (oldC.nH < c.nH)
      else decide (oldC.nPrepared < c.nPrepared)
    else false
  -- lexicographical order between PREPARE statements: (b, p, p', h)
  | .prepare oldPrep, .prepare prep =>
    let compBallot := compareBallots oldPrep.ballot prep.ballot
    if compBallot < 0 then true
    else if compBallot = 0 then
      let compBallot := compareBallotPtrs oldPrep.prepared prep.prepared
      if compBallot < 0 then true
      else if compBallot = 0 then
        let compBallot := compareBallotPtrs oldPrep.preparedPrime prep.preparedPrime
        if compBallot < 0 then true
        else if compBallot = 0 then decide (oldPrep.nH < prep.nH)
        else false
      else false
    else false
  | oldp, p => decide (oldp.type < p.type)

/-- `getWorkingBallot`: b for PREPARE, the commit ballot for CONFIRM and EXTERNALIZE. -/
def getWorkingBallot (st : SCPStatement) : SCPBallot :=
  match st.pledges with
  | .prepare p => p.ballot
  | .confirm c => ⟨c.nCommit, c.ballot.value⟩
  | .externalize e => e.commit

/-- `getStatementValues`, in the order of the set. -/
def getStatementValues (st : SCPStatement) : List Value :=
  match st.pledges with
  | .prepare p => ascending
      ((if p.ballot.counter ≠ 0 then [p.ballot.value] else []) ++
        p.prepared.toList.map (·.value) ++ p.preparedPrime.toList.map (·.value))
  | .confirm c => [c.ballot.value]
  | .externalize e => [e.commit.value]

def statementBallotCounter (st : SCPStatement) : UInt32 :=
  match st.pledges with
  | .prepare p => p.ballot.counter
  | .confirm c => c.ballot.counter
  | .externalize _ => UINT32_MAX

/-! ### What a statement votes for and accepts -/

/-- An interval of counters, low and high bounds included. -/
structure Interval where
  first : UInt32
  second : UInt32
deriving DecidableEq

def votesPrepared (ballot : SCPBallot) (st : SCPStatement) : Bool :=
  match st.pledges with
  | .prepare p => areBallotsLessAndCompatible ballot p.ballot
  | .confirm c => areBallotsCompatible ballot c.ballot
  | .externalize e => areBallotsCompatible ballot e.commit

def hasPreparedBallot (ballot : SCPBallot) (st : SCPStatement) : Bool :=
  match st.pledges with
  | .prepare p =>
    p.prepared.any (areBallotsLessAndCompatible ballot ·) ||
      p.preparedPrime.any (areBallotsLessAndCompatible ballot ·)
  | .confirm c => areBallotsLessAndCompatible ballot ⟨c.nPrepared, c.ballot.value⟩
  | .externalize e => areBallotsCompatible ballot e.commit

/-- The vote `attemptAcceptCommit` counts, for an interval. -/
def votesCommit (ballot : SCPBallot) (cur : Interval) (st : SCPStatement) : Bool :=
  match st.pledges with
  | .prepare p =>
    areBallotsCompatible ballot p.ballot && decide (p.nC ≠ 0) &&
      (decide (p.nC ≤ cur.first) && decide (cur.second ≤ p.nH))
  | .confirm c => areBallotsCompatible ballot c.ballot && decide (c.nCommit ≤ cur.first)
  | .externalize e => areBallotsCompatible ballot e.commit && decide (e.commit.counter ≤ cur.first)

def commitPredicate (ballot : SCPBallot) (check : Interval) (st : SCPStatement) : Bool :=
  match st.pledges with
  | .prepare _ => false
  | .confirm c =>
    areBallotsCompatible ballot c.ballot &&
      (decide (c.nCommit ≤ check.first) && decide (check.second ≤ c.nH))
  | .externalize e => areBallotsCompatible ballot e.commit && decide (e.commit.counter ≤ check.first)

end Diamnet.Scp
