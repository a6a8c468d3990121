import Diamnet.Scp.Validity

/-! Whether the search for ballots to accept as prepared misses any.

`attemptAcceptPrepared` looks only at the ballots of the recorded statements, under those of the
statement it was called for, and accepts one of them. A ballot that can be accepted only since
that statement was recorded lies under one it speaks for, and can be accepted up to a candidate;
so no ballot above p is ever missed, along every run. One below p may be: the search stops at the
highest candidate, and one of another value that remains for p' waits for another statement. It
misses nothing at all if each statement received speaks for ballots of one value (`OneValue`). -/
open Diamnet.Scp.Core Diamnet.Scp.BallotProtocol

namespace Diamnet.Scp
open LocalNode Meets
namespace Core
variable {scp : SCP}

/-! ### Candidates for what can be accepted -/

/-- A statement that has prepared the ballot or votes to. -/
def supportsPrepared (ballot : SCPBallot) (st : SCPStatement) : Bool :=
  hasPreparedBallot ballot st || votesPrepared ballot st

variable {s : Core} {ballot : SCPBallot}

theorem acceptsPrepared_iff : s.acceptsPrepared scp ballot = true ↔
    isVBlockingMap scp.localNode.mQSet s.mLatestEnvelopes (hasPreparedBallot ballot) = true ∨
    isQuorum scp.localNode.mQSet s.mLatestEnvelopes (getQuorumSetFromStatement scp)
      (supportsPrepared ballot) = true :=
  Bool.or_eq_true_iff

variable {st : SCPStatement}

theorem votesPrepared_mono {a b : SCPBallot} (hle : a ≤ b) (hv : a.value = b.value) (h : votesPrepared b st = true) :
    votesPrepared a st = true := by
  unfold votesPrepared at h ⊢
  split
  · next p hp =>
    simp only [hp, lessAndCompatible_iff] at h ⊢
    exact ⟨hle.trans h.1, hv.trans h.2⟩
  · next c hc =>
    simp only [hc, compatible_iff] at h ⊢
    exact hv.trans h
  · next e he =>
    simp only [he, compatible_iff] at h ⊢
    exact hv.trans h

/-- A vote for `ballot` is one for `m` above it, or is at a candidate in between. -/
theorem vote_between {topVote m : SCPBallot} (hv : ballot.value = m.value) (htop : m ≤ topVote)
    (hvtop : m.value = topVote.value) (h : votesPrepared ballot st = true) :
    votesPrepared m st = true ∨ ∃ q ∈ candidatesFrom topVote st,
      ballot ≤ q ∧ q ≤ m ∧ q.value = m.value ∧ votesPrepared q st = true := by
  unfold votesPrepared at h
  split at h
  · next prep hpl =>
    obtain ⟨hle, hvb⟩ := lessAndCompatible_iff.mp h
    have hvotes : ∀ a, a ≤ prep.ballot → a.value = prep.ballot.value → votesPrepared a st = true := by
      intro a hle hv
      simp only [votesPrepared, hpl, lessAndCompatible_iff]
      exact ⟨hle, hv⟩
    have hvm := hv.symm.trans hvb
    rcases le_total m prep.ballot with hm | hm
    · exact .inl (hvotes m hm hvm)
    · refine .inr ⟨prep.ballot, ?_, hle, hm, hvm.symm, hvotes _ le_rfl rfl⟩
      simp only [candidatesFrom, hpl]
      refine List.mem_filter.mpr ⟨.head _, lessAndCompatible_iff.mpr ⟨hm.trans htop, ?_⟩⟩
      exact hvm.symm.trans hvtop
  · next con hpl =>
    refine .inl ?_
    simp only [votesPrepared, hpl, compatible_iff] at h ⊢
    exact hv.symm.trans h
  · next ext hpl =>
    refine .inl ?_
    simp only [votesPrepared, hpl, compatible_iff] at h ⊢
    exact hv.symm.trans h

theorem supportsPrepared_speaks : Speaks supportsPrepared where
  mono hle hv h := by
    rw [supportsPrepared, Bool.or_eq_true] at h ⊢
    exact h.imp (hasPreparedBallot_mono hle hv) (votesPrepared_mono hle hv)
  between hv htop hvtop h := by
    rw [supportsPrepared, Bool.or_eq_true] at h ⊢
    rcases h with h | h
    · rcases candidate_between hv htop hvtop h with h | ⟨q, hq, hle, hqm, hvq, h⟩
      · exact .inl (.inl h)
      · exact .inr ⟨q, hq, hle, hqm, hvq, by rw [supportsPrepared, h, Bool.true_or]⟩
    · rcases vote_between hv htop hvtop h with h | ⟨q, hq, hle, hqm, hvq, h⟩
      · exact .inl (.inr h)
      · exact .inr ⟨q, hq, hle, hqm, hvq, by rw [supportsPrepared, h, Bool.or_true]⟩

theorem exists_hintBallot (h : supportsPrepared ballot st = true) :
    ∃ topVote ∈ hintBallots st, ballot ≤ topVote ∧ ballot.value = topVote.value := by
  have hlast : ∀ v, ballot.value = v → ballot ≤ ⟨UINT32_MAX, v⟩ :=
    fun v hv => (SCPBallot.le_iff_of_value hv).mpr (le_uint32_max _)
  rw [supportsPrepared, Bool.or_eq_true] at h
  unfold hasPreparedBallot votesPrepared at h
  unfold hintBallots
  cases hst : st.pledges with
  | prepare prep =>
    simp only [hst, Bool.or_eq_true, Option.any_eq_true, lessAndCompatible_iff] at h
    rcases h with (⟨q, hq, h⟩ | ⟨q, hq, h⟩) | h
    · exact ⟨q, by simp [hq], h⟩
    · exact ⟨q, by simp [hq], h⟩
    · exact ⟨prep.ballot, .head _, h⟩
  | confirm con =>
    simp only [hst, lessAndCompatible_iff, compatible_iff] at h
    have hv := h.elim (·.2) id
    exact ⟨⟨UINT32_MAX, con.ballot.value⟩, by simp, hlast _ hv, hv⟩
  | externalize ext =>
    simp only [hst, compatible_iff, or_self] at h
    exact ⟨⟨UINT32_MAX, ext.commit.value⟩, by simp, hlast _ h, h⟩

variable {hint : SCPStatement}

theorem candidate_of_blocking (hhint : s.mLatestEnvelopes.lookup hint.nodeID = some hint)
    (hprep : hasPreparedBallot ballot hint = true)
    (hblocks : isVBlockingMap scp.localNode.mQSet s.mLatestEnvelopes (hasPreparedBallot ballot) = true) :
    ∃ m ∈ s.getPrepareCandidates hint, ballot ≤ m ∧ ballot.value = m.value ∧ s.acceptsPrepared scp m = true := by
  obtain ⟨topVote, htop, hle, hv⟩ := exists_hintBallot
    (show supportsPrepared ballot hint = true by rw [supportsPrepared, hprep, Bool.true_or])
  obtain ⟨m, hm, hlem, hvm, hall⟩ := exists_candidate_of_nodes hasPreparedBallot_speaks hhint htop hle hv
    (U := filteredNodes s.mLatestEnvelopes (hasPreparedBallot ballot)) (by
      intro n hn st hst
      obtain ⟨st', hst', hprep'⟩ := mem_filteredNodes.mp hn
      rw [hst] at hst'
      cases hst'
      exact hprep')
  refine ⟨m, hm, hlem, hvm, acceptsPrepared_iff.mpr (.inl ?_)⟩
  refine isVBlockingMap_mono (fun n st hst hprep' => ⟨hst, ?_⟩) hblocks
  exact hall n (mem_filteredNodes.mpr ⟨st, hst, hprep'⟩) st hst

theorem candidate_of_quorum {U : List NodeID} (hhint : s.mLatestEnvelopes.lookup hint.nodeID = some hint)
    (hmem : hint.nodeID ∈ U)
    (hU : SelfSupporting s.mLatestEnvelopes (getQuorumSetFromStatement scp) (supportsPrepared ballot) U)
    (hslice : isQuorumSlice scp.localNode.mQSet U = true) :
    ∃ m ∈ s.getPrepareCandidates hint, ballot ≤ m ∧ ballot.value = m.value ∧ s.acceptsPrepared scp m = true := by
  have hsupports : ∀ n ∈ U, ∀ st, s.mLatestEnvelopes.lookup n = some st → supportsPrepared ballot st = true := by
    intro n hn st hst
    obtain ⟨st', _, hst', h, _⟩ := hU n hn
    rw [hst] at hst'
    cases hst'
    exact h
  obtain ⟨topVote, htop, hle, hv⟩ := exists_hintBallot (hsupports _ hmem hint hhint)
  obtain ⟨m, hm, hlem, hvm, hall⟩ :=
    exists_candidate_of_nodes supportsPrepared_speaks hhint htop hle hv hsupports
  refine ⟨m, hm, hlem, hvm, acceptsPrepared_iff.mpr (.inr (isQuorum_iff.mpr ⟨U, ?_, hslice⟩))⟩
  intro n hn
  obtain ⟨st, q, hst, _, hq⟩ := hU n hn
  exact ⟨st, q, hst, hall n hn st hst, hq⟩

/-! ### What p and p' cover -/

theorem alreadyPrepared_iff : s.alreadyPrepared ballot = true ↔
    (∃ p', s.mPreparedPrime = some p' ∧ ballot ≤ p') ∨
      ∃ p, s.mPrepared = some p ∧ ballot ≤ p ∧ ballot.value = p.value := by
  simp only [alreadyPrepared, Bool.or_eq_true, Option.any_eq_true, decide_eq_true_eq, compareBallots_nonpos,
    lessAndCompatible_iff]

theorem alreadyPrepared_mono {m : SCPBallot} (hle : ballot ≤ m) (hv : ballot.value = m.value)
    (h : s.alreadyPrepared m = true) : s.alreadyPrepared ballot = true := by
  rw [alreadyPrepared_iff] at h ⊢
  rcases h with ⟨p', hp', hm⟩ | ⟨p, hp, hm, hvm⟩
  · exact .inl ⟨p', hp', hle.trans hm⟩
  · exact .inr ⟨p, hp, hle.trans hm, hv.trans hvm⟩

variable {s' : Core}

theorem Prepares.alreadyPrepared {found : SCPBallot} (h : s.Prepares found s') (hprime : s.PrimeBelow) :
    (s.alreadyPrepared ballot = true → s'.alreadyPrepared ballot = true) ∧ s'.alreadyPrepared found = true := by
  simp only [alreadyPrepared_iff]
  cases h with
  | first hp =>
    refine ⟨?_, .inr ⟨found, rfl, le_rfl, rfl⟩⟩
    rintro (⟨p', hp', hle⟩ | ⟨p, hp', -⟩)
    · exact .inl ⟨p', hp', hle⟩
    · rw [hp] at hp'
      cases hp'
  | raise p hp hlt hv =>
    refine ⟨?_, .inr ⟨found, rfl, le_rfl, rfl⟩⟩
    rintro (⟨p', hp', hle⟩ | ⟨q, hq, hle, hvq⟩)
    · exact .inl ⟨p', hp', hle⟩
    · rw [hp] at hq
      cases hq
      exact .inr ⟨found, rfl, hle.trans hlt.le, hvq.trans hv⟩
  | switch p hp hlt hv =>
    refine ⟨?_, .inr ⟨found, rfl, le_rfl, rfl⟩⟩
    rintro (⟨p', hp', hle⟩ | ⟨q, hq, hle, -⟩)
    · obtain ⟨q, hq, hlt', -⟩ := hprime p' hp'
      rw [hp] at hq
      cases hq
      exact .inl ⟨p, rfl, hle.trans hlt'.le⟩
    · rw [hp] at hq
      cases hq
      exact .inl ⟨p, rfl, hle⟩
  | prime p hp hlt hv hbelow =>
    refine ⟨?_, .inl ⟨found, rfl, le_rfl⟩⟩
    rintro (⟨p', hp', hle⟩ | ⟨q, hq, hle, hvq⟩)
    · exact .inl ⟨found, rfl, hle.trans (hbelow p' hp').le⟩
    · exact .inr ⟨q, hq, hle, hvq⟩

theorem Effect.alreadyPrepared {a : Action} {didWork : Bool} (heff : s.Effect a didWork s') (hprime : s.PrimeBelow)
    (hphase : s'.mPhase = .prepare) (h : s.alreadyPrepared ballot = true) : s'.alreadyPrepared ballot = true := by
  cases heff with
  | acceptPrepared _ _ hprep _ | clearCommit _ _ hprep _ => exact (hprep.alreadyPrepared hprime).1 h
  | confirmPrepared _ _ _ _ hconf =>
    cases hconf with
    | high | stay => exact h
    | switch _ _ _ _ _ hmoved => cases hmoved <;> exact h
  | acceptCommit | confirmCommit => cases hphase
  | bump _ _ hmoves => cases hmoves.moved <;> exact h
  | stay => exact h

/-! ### What can be accepted is reached -/

variable (scp) (both : Prop)

/-- p has reached a ballot; asked of both, p or p' covers it. -/
def Reached (s : Core) (ballot : SCPBallot) : Prop :=
  (∃ p, s.mPrepared = some p ∧ ballot ≤ p) ∧ (both → s.alreadyPrepared ballot = true)

/-- In PREPARE, whatever can be accepted is reached. -/
def Complete (s : Core) : Prop :=
  s.mPhase = .prepare → ∀ ballot, s.acceptsPrepared scp ballot = true → s.Reached both ballot

/-- The same, or there is a candidate under a hint; asked of both, all such have the hint's value. -/
def Pending (hint : SCPStatement) (s : Core) : Prop :=
  s.mPhase = .prepare → ∀ ballot, s.acceptsPrepared scp ballot = true → s.Reached both ballot ∨
    ∃ m ∈ s.getPrepareCandidates hint, ballot ≤ m ∧ ballot.value = m.value ∧ s.acceptsPrepared scp m = true ∧
      (both → m.value = (getWorkingBallot hint).value)

variable {scp both}

theorem Reached.of_alreadyPrepared (hprime : s.PrimeBelow) (h : s.alreadyPrepared ballot = true) :
    s.Reached both ballot := by
  refine ⟨?_, fun _ => h⟩
  rcases alreadyPrepared_iff.mp h with ⟨p', hp', hle⟩ | ⟨p, hp, hle, -⟩
  · obtain ⟨p, hp, hlt, -⟩ := hprime p' hp'
    exact ⟨p, hp, hle.trans hlt.le⟩
  · exact ⟨p, hp, hle⟩

theorem Reached.effect {a : Action} {didWork : Bool} (h : s.Reached both ballot) (heff : s.Effect a didWork s')
    (hframe : Frame scp s s') (hprime : s.PrimeBelow) (hphase : s'.mPhase = .prepare) : s'.Reached both ballot := by
  obtain ⟨⟨p, hp, hle⟩, hcovered⟩ := h
  obtain ⟨q, hq, hpq⟩ := hframe.prepared p hp
  exact ⟨⟨q, hq, hle.trans hpq⟩, fun hboth => heff.alreadyPrepared hprime hphase (hcovered hboth)⟩

theorem skipsPrepared_prepare (hphase : s.mPhase = .prepare) (ballot : SCPBallot) :
    s.skipsPrepared ballot = .ok (s.alreadyPrepared ballot) := by
  rw [skipsPrepared, if_neg (by rw [hphase]; decide)]
  rfl

theorem lookup_record_self (s : Core) (st : SCPStatement) :
    (s.recordEnvelope st).mLatestEnvelopes.lookup st.nodeID = some st := AList.lookup_insert _

theorem lookup_record_ne (s : Core) (st : SCPStatement) {n : NodeID} (h : n ≠ st.nodeID) :
    (s.recordEnvelope st).mLatestEnvelopes.lookup n = s.mLatestEnvelopes.lookup n := AList.lookup_insert_ne h

/-- **What can be accepted since a statement was recorded has a candidate under it.** -/
theorem Complete.record (h : s.Complete scp both) (st : SCPStatement)
    (hst : both → s.mPhase = .prepare → ∀ ballot, supportsPrepared ballot st = true →
      s.Reached both ballot ∨ ballot.value = (getWorkingBallot st).value) :
    (s.recordEnvelope st).Pending scp both st := by
  intro hphase ballot haccepts
  have hhint := s.lookup_record_self st
  have hunder (hsupports : supportsPrepared ballot st = true)
      (hm : ∃ m ∈ (s.recordEnvelope st).getPrepareCandidates st, ballot ≤ m ∧ ballot.value = m.value ∧
        (s.recordEnvelope st).acceptsPrepared scp m = true) : (s.recordEnvelope st).Reached both ballot ∨
      ∃ m ∈ (s.recordEnvelope st).getPrepareCandidates st, ballot ≤ m ∧ ballot.value = m.value ∧
        (s.recordEnvelope st).acceptsPrepared scp m = true ∧ (both → m.value = (getWorkingBallot st).value) := by
    obtain ⟨m, hm, hle, hv, haccepts'⟩ := hm
    by_cases hreached : s.Reached both ballot
    · exact .inl hreached
    · refine .inr ⟨m, hm, hle, hv, haccepts', fun hboth => ?_⟩
      exact hv.symm.trans ((hst hboth hphase ballot hsupports).resolve_left hreached)
  rcases acceptsPrepared_iff.mp haccepts with hblocks | hquorum
  · by_cases hprep : hasPreparedBallot ballot st = true
    · exact hunder (by rw [supportsPrepared, hprep, Bool.true_or]) (candidate_of_blocking hhint hprep hblocks)
    · -- the set was v-blocking without the statement
      refine .inl (h hphase ballot (acceptsPrepared_iff.mpr (.inl ?_)))
      refine isVBlockingMap_mono (fun n st' hst' hprep' => ⟨?_, hprep'⟩) hblocks
      by_cases hn : n = st.nodeID
      · rw [hn, hhint] at hst'
        cases hst'
        exact absurd hprep' hprep
      · rwa [s.lookup_record_ne st hn] at hst'
  · obtain ⟨U, hU, hslice⟩ := isQuorum_iff.mp hquorum
    by_cases hmem : st.nodeID ∈ U
    · obtain ⟨st', _, hst', hsupports, _⟩ := hU _ hmem
      rw [hhint] at hst'
      cases hst'
      exact hunder hsupports (candidate_of_quorum hhint hmem hU hslice)
    · -- the quorum stood without the statement
      refine .inl (h hphase ballot (acceptsPrepared_iff.mpr (.inr (isQuorum_iff.mpr ⟨U, ?_, hslice⟩))))
      intro n hn
      obtain ⟨st', q, hst', hrest⟩ := hU n hn
      rw [s.lookup_record_ne st fun he => hmem (he ▸ hn)] at hst'
      exact ⟨st', q, hst', hrest⟩

theorem reached_of_own (hprime : s.PrimeBelow) (hphase : s.mPhase = .prepare) (hst : s.statement scp = some st)
    (h : supportsPrepared ballot st = true) : s.Reached both ballot ∨ ballot.value = (getWorkingBallot st).value := by
  simp only [statement, hphase] at hst
  cases hst
  simp only [supportsPrepared, hasPreparedBallot, votesPrepared, Bool.or_eq_true, Option.any_eq_true,
    lessAndCompatible_iff] at h
  rcases h with (⟨p, hp, hle, hv⟩ | ⟨p', hp', hle, -⟩) | ⟨-, hv⟩
  · exact .inl (.of_alreadyPrepared hprime (alreadyPrepared_iff.mpr (.inr ⟨p, hp, hle, hv⟩)))
  · exact .inl (.of_alreadyPrepared hprime (alreadyPrepared_iff.mpr (.inl ⟨p', hp', hle⟩)))
  · exact .inr hv

theorem acceptsPrepared_congr (h : s'.mLatestEnvelopes = s.mLatestEnvelopes) (ballot : SCPBallot) :
    s'.acceptsPrepared scp ballot = s.acceptsPrepared scp ballot := by
  rw [acceptsPrepared, acceptsPrepared, federatedAccept, federatedAccept, h]

theorem Pending.complete_of_found {found : SCPBallot} {didWork : Bool} (hs : s.Sound scp)
    (h : s.Pending scp both hint) (heff : s.Effect (.acceptPrepared found) didWork s')
    (hfound : s.skipsPrepared found = .ok false ∧ s.acceptsPrepared scp found = true)
    (hhighest : ∀ m ∈ s.getPrepareCandidates hint, s.acceptsPrepared scp m = true →
      s.skipsPrepared m = .ok true ∨ m ≤ found) : s'.Complete scp both := by
  intro hphase ballot haccepts
  have hframe : Frame scp s s' := heff.frame
  have hprepare := hframe.phase hphase
  have hcovers : s'.alreadyPrepared found = true := by
    cases heff with
    | acceptPrepared _ _ hprep _ | clearCommit _ _ hprep _ => exact (@Prepares.alreadyPrepared _ ballot _ _ hprep hs.prime).2
  -- the ballot found was not reached before, so it has the hint's value
  have hvalue (hboth : both) : found.value = (getWorkingBallot hint).value := by
    rcases h hprepare found hfound.2 with ⟨-, hcovered⟩ | ⟨m, -, -, hv, -, hvm⟩
    · rw [skipsPrepared_prepare hprepare, hcovered hboth] at hfound
      cases hfound.1
    · exact hv.trans (hvm hboth)
  rw [acceptsPrepared_congr heff.statements.1] at haccepts
  rcases h hprepare ballot haccepts with hreached | ⟨m, hm, hle, hv, haccepts', hvm⟩
  · exact hreached.effect heff hframe hs.prime hphase
  · rcases hhighest m hm haccepts' with hskip | hmfound
    · rw [skipsPrepared_prepare hprepare] at hskip
      have hcovered := alreadyPrepared_mono hle hv (Except.ok.inj hskip)
      exact (Reached.of_alreadyPrepared hs.prime hcovered).effect heff hframe hs.prime hphase
    · obtain ⟨q, hq, hle'⟩ := heff.le_prepared
      refine ⟨⟨q, hq, hle.trans (hmfound.trans hle')⟩, fun hboth => ?_⟩
      exact alreadyPrepared_mono (hle.trans hmfound) (hv.trans ((hvm hboth).trans (hvalue hboth).symm)) hcovers

variable (scp both) in
/-- **The search completes what a recorded statement left pending.** -/
theorem complete_settling : Settling scp (Complete scp both) (Pending scp both) where
  effect {s s'} _ _ hs h _ heff hphase ballot haccepts := by
    have hframe : Frame scp s s' := heff.frame
    rw [acceptsPrepared_congr heff.statements.1] at haccepts
    exact (h (hframe.phase hphase) ballot haccepts).effect heff hframe hs.prime hphase
  heard h _ := h
  candidate h _ := h
  own hs h hst := h.record _ fun _ hphase _ hsupports => reached_of_own hs.prime hphase hst hsupports
  ended _ hext hphase := absurd (hext.symm.trans hphase) (by decide)
  none hs h hnone hphase ballot haccepts := by
    rcases h hphase ballot haccepts with hreached | ⟨m, hm, hle, hv, haccepts', -⟩
    · exact hreached
    · have hskip := hnone m hm haccepts'
      rw [skipsPrepared_prepare hphase] at hskip
      exact .of_alreadyPrepared hs.prime (alreadyPrepared_mono hle hv (Except.ok.inj hskip))
  found hs h heff hfound hhighest := h.complete_of_found hs heff hfound hhighest

end Core

/-! ### Along a run -/

/-- All the ballots a statement speaks for have one value. -/
def SCPStatement.OneValue (st : SCPStatement) : Prop :=
  match st.pledges with
  | .prepare prep => (∀ p ∈ prep.prepared, p.value = prep.ballot.value) ∧ prep.preparedPrime = none
  | _ => True

theorem SCPStatement.OneValue.value_eq {st : SCPStatement} {ballot : SCPBallot} (h : st.OneValue)
    (hsupports : supportsPrepared ballot st = true) : ballot.value = (getWorkingBallot st).value := by
  unfold OneValue at h
  unfold supportsPrepared hasPreparedBallot votesPrepared at hsupports
  unfold getWorkingBallot
  cases hst : st.pledges with
  | prepare prep =>
    simp only [hst, Bool.or_eq_true, Option.any_eq_true, lessAndCompatible_iff] at h hsupports
    rcases hsupports with (⟨p, hp, -, hv⟩ | ⟨p', hp', -⟩) | ⟨-, hv⟩
    · exact hv.trans (h.1 p hp)
    · rw [h.2] at hp'
      cases hp'
    · exact hv
  | confirm con =>
    simp only [hst, Bool.or_eq_true, lessAndCompatible_iff, compatible_iff] at hsupports
    exact hsupports.elim (·.2) id
  | externalize ext =>
    simp only [hst, Bool.or_eq_true, compatible_iff, or_self] at hsupports
    exact hsupports

def Core.Improves (s : Core) (ballot : SCPBallot) : Prop :=
  (∀ p, s.mPrepared = some p → p < ballot) ∨
    (∀ p', s.mPreparedPrime = some p' → p' < ballot) ∧ ∀ p, s.mPrepared = some p → p.value ≠ ballot.value

theorem Core.Improves.not_alreadyPrepared {s : Core} {ballot : SCPBallot} (h : s.Improves ballot)
    (hprime : s.PrimeBelow) : s.alreadyPrepared ballot ≠ true := by
  rw [Ne, alreadyPrepared_iff]
  rintro (⟨p', hp', hle⟩ | ⟨p, hp, hle, hv⟩)
  · rcases h with habove | ⟨hbelow, -⟩
    · obtain ⟨p, hp, hlt, -⟩ := hprime p' hp'
      exact absurd (hle.trans hlt.le) (not_le.mpr (habove p hp))
    · exact absurd hle (not_le.mpr (hbelow p' hp'))
  · rcases h with habove | ⟨-, hincompatible⟩
    · exact absurd hle (not_le.mpr (habove p hp))
    · exact hincompatible p hp hv.symm

namespace BallotProtocol
variable {scp : SCP}

theorem fresh_complete {both : Prop} : (fresh scp).Complete scp both := by
  intro _ ballot haccepts
  rcases acceptsPrepared_iff.mp haccepts with hblocks | hquorum
  · have hnodes : filteredNodes (fresh scp).mLatestEnvelopes (hasPreparedBallot ballot) = [] := rfl
    rw [isVBlockingMap, hnodes, isVBlocking_nil] at hblocks
    cases hblocks
  · obtain ⟨U, hU, hslice⟩ := isQuorum_iff.mp hquorum
    cases U with
    | nil =>
      rw [isQuorumSlice_nil] at hslice
      cases hslice
    | cons n U =>
      obtain ⟨st, _, hst, _⟩ := hU n (.head _)
      cases hst

/-- **What a node in PREPARE has missed**: nothing above p, along every run; and nothing for p'
either, if each statement it received speaks for one value. -/
theorem prepared_complete {events : List Event} (hother : ∀ e ∈ events, e.FromOther scp) {s : BallotProtocol}
    (hrun : run scp (fresh scp) events = .ok s) (hphase : s.mPhase = .prepare) :
    (∀ ballot, (∀ p, s.mPrepared = some p → p < ballot) → s.acceptsPrepared scp ballot = false) ∧
    ((∀ st, .receive st ∈ events → st.OneValue) →
      ∀ ballot, s.Improves ballot → s.acceptsPrepared scp ballot = false) := by
  -- one run lemma, first for p alone and then for both
  have hcomplete (both : Prop) (hone : both → ∀ st, .receive st ∈ events → st.OneValue) :
      s.Sound scp ∧ s.Complete scp both := by
    refine (run_settles (complete_settling scp both) hother ?_ fresh_sound fresh_complete).of_ok hrun
    intro st hst s h
    exact h.record st fun hboth _ _ hsupports => .inr ((hone hboth st hst).value_eq hsupports)
  constructor
  · intro ballot habove
    obtain ⟨-, h⟩ := hcomplete False False.elim
    rw [Bool.eq_false_iff]
    intro haccepts
    obtain ⟨⟨p, hp, hle⟩, -⟩ := h hphase ballot haccepts
    exact absurd hle (not_le.mpr (habove p hp))
  · intro hone ballot himproves
    obtain ⟨hs, h⟩ := hcomplete True fun _ => hone
    rw [Bool.eq_false_iff]
    intro haccepts
    exact himproves.not_alreadyPrepared hs.prime ((h hphase ballot haccepts).2 trivial)

/-- Node 7 prepares (1, x) and then (2, y); the node has p and p' for them, and has missed nothing. -/
theorem prepared_complete_listener : ∃ s,
    run listener (fresh listener) [heardPrepare ⟨1, [1]⟩ (some ⟨1, [1]⟩) none,
      heardPrepare ⟨2, [2]⟩ (some ⟨2, [2]⟩) none] = .ok s ∧
    s.mPhase = .prepare ∧ s.mPreparedPrime = some ⟨1, [1]⟩ ∧
    ∀ ballot, s.Improves ballot → s.acceptsPrepared listener ballot = false := by
  obtain ⟨s, hrun, hphase, hprime⟩ := exists_ok
    (r := run listener (fresh listener) [heardPrepare ⟨1, [1]⟩ (some ⟨1, [1]⟩) none,
      heardPrepare ⟨2, [2]⟩ (some ⟨2, [2]⟩) none])
    (Q := fun s => s.mPhase = .prepare ∧ s.mPreparedPrime = some ⟨1, [1]⟩) (by decide +kernel)
  refine ⟨s, hrun, hphase, hprime, (prepared_complete (by decide) hrun hphase).2 fun st hst => ?_⟩
  simp only [List.mem_cons, List.not_mem_nil, heardPrepare, Event.receive.injEq, or_false] at hst
  rcases hst with rfl | rfl <;> exact ⟨by simp, rfl⟩

/-- Node 7 says it has prepared (2, y) and, as its p', (2, x): the node accepts the first only. -/
theorem prime_missed : ∃ s, run listener (fresh listener)
      [heardPrepare ⟨2, [2]⟩ (some ⟨2, [2]⟩) (some ⟨2, [1]⟩)] = .ok s ∧
    s.mPhase = .prepare ∧ s.mCurrentMessageLevel = 0 ∧ s.mPrepared = some ⟨2, [2]⟩ ∧ s.mPreparedPrime = none ∧
    s.Improves ⟨2, [1]⟩ ∧ s.acceptsPrepared listener ⟨2, [1]⟩ = true := by
  obtain ⟨s, hrun, hphase, hlevel, hp, hp', haccepts⟩ := exists_ok
    (r := run listener (fresh listener) [heardPrepare ⟨2, [2]⟩ (some ⟨2, [2]⟩) (some ⟨2, [1]⟩)])
    (Q := fun s => s.mPhase = .prepare ∧ s.mCurrentMessageLevel = 0 ∧ s.mPrepared = some ⟨2, [2]⟩ ∧
      s.mPreparedPrime = none ∧ s.acceptsPrepared listener ⟨2, [1]⟩ = true) (by decide +kernel)
  refine ⟨s, hrun, hphase, hlevel, hp, hp', .inr ⟨fun p' h => ?_, fun p h => ?_⟩, haccepts⟩
  · rw [hp'] at h
    cases h
  · rw [hp] at h
    cases h
    decide

end BallotProtocol
end Diamnet.Scp
