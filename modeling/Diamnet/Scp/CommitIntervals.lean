import Diamnet.Scp.Validity

/-! The intervals of counters a node accepts and confirms as committed
(`BallotProtocol::findExtendedInterval`).

The search goes once down the boundaries the recorded statements give, finds the first where its
predicate holds and extends the interval downwards until the predicate fails. A shorter interval
asks less of every statement, so what fails once fails for every lower boundary, and what holds for
the whole interval holds within it, between boundaries too. -/
namespace Diamnet.Scp.Core
open List

/-! ### The search -/

def Shrinks (pred : Interval → Bool) : Prop :=
  ∀ ⦃a b x y⦄, a ≤ x → y ≤ b → pred ⟨a, b⟩ = true → pred ⟨x, y⟩ = true

/-- The interval from the lowest boundary to the highest: the highest boundary where the predicate
holds, and the lowest from which it holds up to there. -/
structure Widest (pred : Interval → Bool) (boundaries : List UInt32) (interval : Interval) : Prop where
  first_mem : interval.first ∈ boundaries
  second_mem : interval.second ∈ boundaries
  first_le : interval.first ≤ interval.second
  lowest : ∀ b ∈ boundaries, b ≤ interval.second → pred ⟨b, interval.second⟩ = true → interval.first ≤ b
  highest : ∀ b ∈ boundaries, pred ⟨b, b⟩ = true → b ≤ interval.second
  within : ∀ x y, interval.first ≤ x → x ≤ y → y ≤ interval.second → pred ⟨x, y⟩ = true

/-- What the search returns: no interval if the predicate holds on no boundary, and else the widest. -/
def Finds (pred : Interval → Bool) (boundaries : List UInt32) (interval : Interval) : Prop :=
  (interval.first = 0 ↔ ∀ b ∈ boundaries, pred ⟨b, b⟩ = false) ∧
    (interval.first ≠ 0 → Widest pred boundaries interval)

section Search
variable {pred : Interval → Bool}

theorem findExtendedInterval_extends (hshrinks : Shrinks pred) {lo hi : UInt32} {rest : List UInt32}
    (hfalling : (lo :: rest).Pairwise (· > ·)) (hpos : ∀ b ∈ lo :: rest, b ≠ 0) (hle : lo ≤ hi)
    (hpred : pred ⟨lo, hi⟩ = true) :
    let found := findExtendedInterval pred ⟨lo, hi⟩ rest
    found.second = hi ∧ found.first ∈ lo :: rest ∧ found.first ≤ lo ∧ pred ⟨found.first, hi⟩ = true ∧
      ∀ b ∈ rest, pred ⟨b, hi⟩ = true → found.first ≤ b := by
  induction rest generalizing lo with
  | nil => exact ⟨rfl, mem_singleton_self lo, le_rfl, hpred, fun b hb => (not_mem_nil hb).elim⟩
  | cons b rest ih =>
    obtain ⟨hlo, hrest⟩ := pairwise_cons.mp hfalling
    have hblo : b < lo := hlo b (.head _)
    have hble : ¬b > hi := not_lt.mpr (hblo.le.trans hle)
    rw [findExtendedInterval, if_neg (hpos lo (.head _)), if_neg hble]
    by_cases hb : pred ⟨b, hi⟩ = true
    · rw [if_pos hb]
      obtain ⟨hsecond, hmem, hfirst, hpred', hlowest⟩ :=
        ih hrest (fun c hc => hpos c (.tail _ hc)) (hblo.le.trans hle) hb
      refine ⟨hsecond, .tail _ hmem, hfirst.trans hblo.le, hpred', fun c hc hpc => ?_⟩
      rcases mem_cons.mp hc with rfl | hc
      · exact hfirst
      · exact hlowest c hc hpc
    · rw [if_neg hb]
      -- what fails from b fails from below
      refine ⟨rfl, .head _, le_rfl, hpred, fun c hc hpc => absurd ?_ hb⟩
      rcases mem_cons.mp hc with rfl | hc
      · exact hpc
      · exact hshrinks ((pairwise_cons.mp hrest).1 c hc).le le_rfl hpc

/-- **The search is exact**, down boundaries that are not zero. -/
theorem findExtendedInterval_finds (hshrinks : Shrinks pred) {boundaries : List UInt32}
    (hfalling : boundaries.Pairwise (· > ·)) (hpos : ∀ b ∈ boundaries, b ≠ 0) :
    Finds pred boundaries (findExtendedInterval pred ⟨0, 0⟩ boundaries) := by
  induction boundaries with
  | nil => exact ⟨iff_of_true rfl fun b hb => (not_mem_nil hb).elim, fun h => absurd rfl h⟩
  | cons b rest ih =>
    obtain ⟨hb, hrest⟩ := pairwise_cons.mp hfalling
    rw [findExtendedInterval, if_pos rfl]
    by_cases hpred : pred ⟨b, b⟩ = true
    · rw [if_pos hpred]
      obtain ⟨hsecond, hmem, hfirst, hpred', hlowest⟩ :=
        findExtendedInterval_extends hshrinks hfalling hpos le_rfl hpred
      refine ⟨iff_of_false (hpos _ hmem) fun h => ?_, fun _ => ?_⟩
      · exact absurd hpred (by rw [h b (.head _)]; decide)
      · constructor
        · exact hmem
        · rw [hsecond]
          exact .head _
        · rw [hsecond]
          exact hfirst
        · intro c hc _ hpc
          rw [hsecond] at hpc
          rcases mem_cons.mp hc with rfl | hc
          · exact hfirst
          · exact hlowest c hc hpc
        · intro c hc _
          rw [hsecond]
          rcases mem_cons.mp hc with rfl | hc
          · exact le_rfl
          · exact (hb c hc).le
        · intro x y hx _ hy
          exact hshrinks hx (hsecond ▸ hy) hpred'
    · rw [if_neg hpred]
      obtain ⟨hnone, hwidest⟩ := ih hrest fun c hc => hpos c (.tail _ hc)
      refine ⟨hnone.trans ?_, fun hne => ?_⟩
      · rw [forall_mem_cons]
        exact (and_iff_right (Bool.eq_false_iff.mpr hpred)).symm
      · obtain ⟨hfirst, hsecond, hle, hlowest, hhighest, hwithin⟩ := hwidest hne
        refine ⟨.tail _ hfirst, .tail _ hsecond, hle, ?_, ?_, hwithin⟩
        · intro c hc hcle
          rcases mem_cons.mp hc with rfl | hc
          · exact absurd (hb _ hsecond) (not_lt.mpr hcle)
          · exact hlowest c hc hcle
        · intro c hc hpc
          rcases mem_cons.mp hc with rfl | hc
          · exact absurd hpc hpred
          · exact hhighest c hc hpc

end Search

/-! ### The predicates -/

section Predicates
variable {scp : SCP} {s : Core} {ballot : SCPBallot}

theorem commitPredicate_shrinks {a b x y : UInt32} (hx : a ≤ x) (hy : y ≤ b) {st : SCPStatement}
    (h : commitPredicate ballot ⟨a, b⟩ st = true) : commitPredicate ballot ⟨x, y⟩ st = true := by
  obtain ⟨nodeID, pledges⟩ := st
  cases pledges with
  | prepare p => exact h
  | confirm c | externalize e =>
    simp only [commitPredicate, Bool.and_eq_true, decide_eq_true_eq] at h ⊢
    grind

theorem votesCommit_shrinks {a b x y : UInt32} (hx : a ≤ x) (hy : y ≤ b) {st : SCPStatement}
    (h : votesCommit ballot ⟨a, b⟩ st = true) : votesCommit ballot ⟨x, y⟩ st = true := by
  obtain ⟨nodeID, pledges⟩ := st
  cases pledges <;> simp only [votesCommit, Bool.and_eq_true, decide_eq_true_eq] at h ⊢ <;> grind

variable (scp s ballot) in
def acceptsCommit (cur : Interval) : Bool :=
  s.federatedAccept scp (votesCommit ballot cur) (commitPredicate ballot cur)

variable (scp s ballot) in
def confirmsCommit (cur : Interval) : Bool := s.federatedRatify scp (commitPredicate ballot cur)

theorem acceptsCommit_shrinks : Shrinks (acceptsCommit scp s ballot) := by
  intro a b x y hx hy h
  unfold acceptsCommit federatedAccept at h ⊢
  rw [Bool.or_eq_true] at h ⊢
  refine h.imp (fun h => ?_) fun h => ?_
  · exact LocalNode.isVBlockingMap_mono (fun n st hst h => ⟨hst, commitPredicate_shrinks hx hy h⟩) h
  · refine LocalNode.isQuorum_mono (fun n st hst h => ⟨hst, ?_⟩) h
    rw [Bool.or_eq_true] at h ⊢
    exact h.imp (commitPredicate_shrinks hx hy) (votesCommit_shrinks hx hy)

theorem confirmsCommit_shrinks : Shrinks (confirmsCommit scp s ballot) := fun _ _ _ _ hx hy h =>
  LocalNode.isQuorum_mono (fun _ _ hst h => ⟨hst, commitPredicate_shrinks hx hy h⟩) h

/-- A sane statement gives boundaries that are not zero, if the commits it reports are not. -/
theorem boundariesFrom_ne_zero {st : SCPStatement} {self : Bool} (hsane : arePledgesSane st.pledges self = true)
    (hcommit : ∀ c, st.pledges = .confirm c → 1 ≤ c.nCommit) {b : UInt32} (hb : b ∈ boundariesFrom ballot st) : b ≠ 0 := by
  unfold boundariesFrom at hb
  cases hst : st.pledges with
  | prepare p =>
    rw [hst] at hb
    obtain ⟨hcond, hb⟩ := mem_ite_nil_right.mp hb
    have hC : p.nC ≠ 0 := of_decide_eq_true (Bool.and_eq_true_iff.mp hcond).2
    simp only [arePledgesSane, hst, Bool.and_eq_true, Bool.or_eq_true, decide_eq_true_eq, hC, false_or] at hsane
    rcases mem_cons.mp hb with rfl | hb
    · exact hC
    · rw [mem_singleton.mp hb]
      exact hsane.2.1.1
  | confirm c =>
    rw [hst] at hb
    obtain ⟨-, hb⟩ := mem_ite_nil_right.mp hb
    have hone : (0 : UInt32) < c.nCommit := lt_of_lt_of_le (by decide) (hcommit c hst)
    simp only [arePledgesSane, hst, Bool.and_eq_true, decide_eq_true_eq] at hsane
    rcases mem_cons.mp hb with rfl | hb
    · exact hone.ne'
    · rw [mem_singleton.mp hb]
      exact (hone.trans_le hsane.2).ne'
  | externalize e =>
    rw [hst] at hb
    obtain ⟨-, hb⟩ := mem_ite_nil_right.mp hb
    simp only [arePledgesSane, hst, Bool.and_eq_true, decide_eq_true_eq] at hsane
    rcases mem_cons.mp hb with rfl | hb
    · exact hsane.1.ne'
    · rcases mem_cons.mp hb with rfl | hb
      · exact (hsane.1.trans_le hsane.2).ne'
      · rw [mem_singleton.mp hb]
        decide

end Predicates

/-- **The intervals of a state.** -/
theorem commitIntervals_exact (scp : SCP) (s : Core) (ballot : SCPBallot)
    (hsane : ∀ n st, s.mLatestEnvelopes.lookup n = some st → ∃ self, isStatementSane scp st self = true)
    (hcommit : ∀ n st c, s.mLatestEnvelopes.lookup n = some st → st.pledges = .confirm c → 1 ≤ c.nCommit) :
    Finds (acceptsCommit scp s ballot) (s.getCommitBoundariesFromStatements ballot) (s.acceptCommitInterval scp ballot) ∧
    Finds (confirmsCommit scp s ballot) (s.getCommitBoundariesFromStatements ballot) (s.confirmCommitInterval scp ballot) := by
  have hfalling : (s.getCommitBoundariesFromStatements ballot).Pairwise (· > ·) := descending_pairwise _
  have hpos : ∀ b ∈ s.getCommitBoundariesFromStatements ballot, b ≠ 0 := by
    intro b hb
    obtain ⟨⟨n, st⟩, he, hb⟩ := mem_flatMap.mp (mem_descending.mp hb)
    have hst : s.mLatestEnvelopes.lookup n = some st := AList.mem_lookup_iff.mpr he
    obtain ⟨self, hself⟩ := hsane n st hst
    exact boundariesFrom_ne_zero (Bool.and_eq_true_iff.mp hself).2 (fun c => hcommit n st c hst) hb
  exact ⟨findExtendedInterval_finds acceptsCommit_shrinks hfalling hpos,
    findExtendedInterval_finds confirmsCommit_shrinks hfalling hpos⟩

/-- A node whose quorum slice is itself and node 7. -/
def bothNeeded : SCP where
  localNode := ⟨0, true, ⟨2, [0, 7], []⟩, 1⟩
  driver := { BallotProtocol.listener.driver with getQSet := fun h => if h = 1 then some ⟨2, [0, 7], []⟩ else none }

/-- Two nodes that report commits from 2 to 5 and from 3 to 7. -/
def twoCommits : Core where
  mLatestEnvelopes := ((∅ : LocalNode.Latest SCPStatement).insert 7 ⟨7, .confirm ⟨⟨7, [1]⟩, 7, 3, 7, 1⟩⟩).insert 0
    ⟨0, .confirm ⟨⟨5, [1]⟩, 5, 2, 5, 1⟩⟩

/-- Together they confirm the counters both report, 3 to 5. -/
theorem commitIntervals_exact_twoCommits :
    twoCommits.getCommitBoundariesFromStatements ⟨7, [1]⟩ = [7, 5, 3, 2] ∧
    twoCommits.confirmCommitInterval bothNeeded ⟨7, [1]⟩ = ⟨3, 5⟩ ∧
    Widest (confirmsCommit bothNeeded twoCommits ⟨7, [1]⟩) [7, 5, 3, 2] ⟨3, 5⟩ := by
  have hboundaries : twoCommits.getCommitBoundariesFromStatements ⟨7, [1]⟩ = [7, 5, 3, 2] := by decide +kernel
  have hinterval : twoCommits.confirmCommitInterval bothNeeded ⟨7, [1]⟩ = ⟨3, 5⟩ := by decide +kernel
  have hsane : ∀ e ∈ twoCommits.mLatestEnvelopes.entries, isStatementSane bothNeeded e.2 false = true := by
    decide +kernel
  have hcommit : ∀ e ∈ twoCommits.mLatestEnvelopes.entries, ∀ c, e.2.pledges = .confirm c → 1 ≤ c.nCommit := by
    intro e he c hc
    rcases mem_cons.mp he with rfl | he
    · cases hc
      decide
    · cases mem_singleton.mp he
      cases hc
      decide
  have hfinds := (commitIntervals_exact bothNeeded twoCommits ⟨7, [1]⟩
    (fun n st hst => ⟨false, hsane ⟨n, st⟩ (AList.mem_lookup_iff.mp hst)⟩)
    (fun n st c hst => hcommit ⟨n, st⟩ (AList.mem_lookup_iff.mp hst) c)).2
  exact ⟨hboundaries, hinterval, hfinds.2 (by decide)⟩

end Diamnet.Scp.Core
