import Diamnet.Scp.Validity

/-! A node's own statements.

Each statement a node makes is newer than the one before and is taken in, so that
`moved to a bad state` is not reached. What could go wrong is the value of a ballot
accepted as prepared: the null ballot of a node that has no current ballot is a
candidate like any other, and a node that is a slice of its own accepts it on its
own vote. That vote is cast only once others have made the node accept a ballot,
so it takes a slice without the node as well (`VotesAlone`). -/
open Diamnet.Scp.Core Diamnet.Scp.BallotProtocol

namespace Diamnet.Scp
open LocalNode List Event SCPBallot

/-! ### Newer statements -/

theorem compareBallotPtrs_self (a : Option SCPBallot) : compareBallotPtrs a a = 0 := by
  cases a with
  | none => rfl
  | some b => exact compareBallots_eq_zero.mpr rfl

theorem compareBallotPtrs_neg {a : Option SCPBallot} {b : SCPBallot} (h : ∀ a', a = some a' → a' < b) :
    compareBallotPtrs a (some b) < 0 := by
  cases a with
  | none => exact Int.negSucc_lt_zero 0
  | some a => exact compareBallots_neg.mpr (h a rfl)

section Newer
variable {n m : NodeID}

variable {old prep : SCPPrepare}

theorem newer_prepare (h : old.ballot < prep.ballot ∨ old.ballot = prep.ballot ∧
      (compareBallotPtrs old.prepared prep.prepared < 0 ∨ old.prepared = prep.prepared ∧
        (compareBallotPtrs old.preparedPrime prep.preparedPrime < 0 ∨
          old.preparedPrime = prep.preparedPrime ∧ old.nH < prep.nH))) :
    isNewerStatement ⟨n, .prepare old⟩ ⟨m, .prepare prep⟩ = true := by
  rcases h with h | ⟨hb, h | ⟨hp, h | ⟨hp', h⟩⟩⟩
  · simp [isNewerStatement, h]
  · simp [isNewerStatement, hb, h]
  · simp [isNewerStatement, hb, hp, compareBallotPtrs_self, h]
  · simp [isNewerStatement, hb, hp, hp', compareBallotPtrs_self, h]

theorem newer_confirm {old con : SCPConfirm}
    (h : old.ballot < con.ballot ∨ old.ballot = con.ballot ∧
      (old.nPrepared < con.nPrepared ∨ old.nPrepared = con.nPrepared ∧ old.nH < con.nH)) :
    isNewerStatement ⟨n, .confirm old⟩ ⟨m, .confirm con⟩ = true := by
  rcases h with h | ⟨hb, h | ⟨hp, h⟩⟩
  · simp [isNewerStatement, h]
  · simp [isNewerStatement, hb, h.ne, h]
  · simp [isNewerStatement, hb, hp, h]

end Newer

namespace Core
variable {scp : SCP}

variable {s : Core}

theorem statement_of_prepare (hphase : s.mPhase = .prepare) :
    s.statement scp = some ⟨scp.localNode.mNodeID, .prepare
      { quorumSetHash := scp.localNode.mQSetHash
        ballot := s.mCurrentBallot.getD default
        prepared := s.mPrepared
        preparedPrime := s.mPreparedPrime
        nC := (s.mCommit.map (·.counter)).getD 0
        nH := (s.mHighBallot.map (·.counter)).getD 0 }⟩ := by
  simp only [statement, hphase]

variable {st : SCPStatement}

theorem statement_type (hst : s.statement scp = some st) :
    st.pledges.type = match s.mPhase with
      | .prepare => 0
      | .confirm => 1
      | .externalize => 2 := by
  unfold statement at hst
  cases hphase : s.mPhase <;> simp only [hphase] at hst <;> try split at hst
  all_goals cases hst
  all_goals rfl

theorem newer_of_type {old : SCPStatement} (h : old.pledges.type < st.pledges.type) :
    isNewerStatement old st = true := by
  obtain ⟨n, old⟩ := old
  obtain ⟨m, pledges⟩ := st
  cases old <;> cases pledges <;> simp_all [isNewerStatement, SCPPledges.type]

variable {b : SCPBallot}

theorem ballot_lt (hne : b.counter ≠ 0) (hlt : ∀ b', s.mCurrentBallot = some b' → b' < b) :
    s.mCurrentBallot.getD default < b := by
  cases hb : s.mCurrentBallot with
  | none => exact lt_of_counter (uint32_pos hne)
  | some b' => exact hlt b' hb

variable {s' s1 : Core} {ballot : SCPBallot}

/-- Accepting a ballot in PREPARE makes the statement newer, whatever becomes of c. -/
theorem Prepares.newer (hprep : s.Prepares ballot s1) (hphase : s.mPhase = .prepare)
    (hphase' : s'.mPhase = .prepare) (hb : s'.mCurrentBallot = s1.mCurrentBallot) (hp : s'.mPrepared = s1.mPrepared)
    (hp' : s'.mPreparedPrime = s1.mPreparedPrime) {st' : SCPStatement} (hst : s.statement scp = some st)
    (hst' : s'.statement scp = some st') : isNewerStatement st st' = true := by
  rw [statement_of_prepare hphase] at hst
  rw [statement_of_prepare hphase', hb, hp, hp'] at hst'
  cases hst
  cases hst'
  cases hprep with
  | first hnone =>
    refine newer_prepare (.inr ⟨rfl, .inl (compareBallotPtrs_neg ?_)⟩)
    simp [hnone]
  | raise p hsome hlt _ | switch p hsome hlt _ =>
    refine newer_prepare (.inr ⟨rfl, .inl (compareBallotPtrs_neg ?_)⟩)
    intro q hq
    have : q = p := Option.some.inj (Eq.trans (Eq.symm hq) hsome)
    exact this ▸ hlt
  | prime p _ _ _ hprime => exact newer_prepare (.inr ⟨rfl, .inr ⟨rfl, .inl (compareBallotPtrs_neg hprime)⟩⟩)

variable {st1 : SCPStatement}

theorem ConfirmsPrepared.newer {newC newH : SCPBallot} (hcheck : s.Checked) (hcheck1 : s1.Checked)
    (hcan : s.CanConfirmPrepared scp newC newH) (heff : s.ConfirmsPrepared newC newH true s1)
    (hst : s.statement scp = some st) (hst1 : s1.statement scp = some st1) :
    st1 = st ∨ isNewerStatement st st1 = true := by
  rw [statement_of_prepare hcan.active] at hst
  cases hst
  cases heff with
  | high b heard hv hle hmono hb =>
    rw [statement_of_prepare (by exact hcan.active)] at hst1
    cases hst1
    by_cases hsame : s.mCurrentBallot = some b
    · have hvb := hv b hsame
      by_cases hzero : newH.counter = 0
      · -- h is unset as nothing is below newH, and newC is not above it
        left
        have hnone : s.mHighBallot = none := by
          cases hh : s.mHighBallot with
          | none => rfl
          | some h =>
            obtain ⟨b', hb', _, hvh⟩ := hcheck.high h hh
            rw [hsame] at hb'
            cases hb'
            have hlt := (lt_iff_of_value (hvh.trans hvb)).mp (hcan.raises h hh)
            rw [hzero] at hlt
            exact absurd (uint32_zero_le h.counter) (not_le.mpr hlt)
        have hczero : newC.counter = 0 := by
          rcases hcan.commit with rfl | hcommit
          · rfl
          · have := counter_le hcommit.low
            rw [hzero] at this
            exact le_antisymm this (uint32_zero_le _)
        simp [hsame, hnone, hzero, hczero]
      · right
        refine newer_prepare (.inr ⟨by simp [hsame], .inr ⟨rfl, .inr ⟨rfl, ?_⟩⟩⟩)
        · cases hh : s.mHighBallot with
          | none => simpa using uint32_pos hzero
          | some h =>
            obtain ⟨b', hb', _, hvh⟩ := hcheck.high h hh
            rw [hsame] at hb'
            cases hb'
            simpa using (lt_iff_of_value (hvh.trans hvb)).mp (hcan.raises h hh)
    · right
      have hlt : ∀ b', s.mCurrentBallot = some b' → b' < b := by
        intro b' hb'
        exact lt_of_le_of_ne (hmono b' hb') fun he => hsame (he ▸ hb')
      exact newer_prepare (.inl (ballot_lt (hcheck1.current b rfl) hlt))
  | switch b hb _ hlt _ hmoved =>
    right
    obtain ⟨hcurrent, hphase1⟩ : s1.mCurrentBallot = some newH ∧ s1.mPhase = .prepare := by
      cases hmoved <;> exact ⟨rfl, hcan.active⟩
    rw [statement_of_prepare hphase1] at hst1
    cases hst1
    refine newer_prepare (.inl ?_)
    simpa [hb, hcurrent] using hlt

theorem statement_of_confirm (hphase : s.mPhase = .confirm) (hst : s.statement scp = some st) :
    ∃ b p c h, s.mCurrentBallot = some b ∧ s.mPrepared = some p ∧ s.mCommit = some c ∧
      s.mHighBallot = some h ∧ st = ⟨scp.localNode.mNodeID, .confirm
        ⟨b, p.counter, c.counter, h.counter, scp.localNode.mQSetHash⟩⟩ := by
  simp only [statement, hphase] at hst
  split at hst
  · next b p c h hb hp hc hh =>
    cases hst
    exact ⟨b, p, c, h, hb, hp, hc, hh, rfl⟩
  · cases hst

theorem Prepares.newer_confirm (hprep : s.Prepares ballot s1) (hcan : s.CanAcceptPrepared scp ballot)
    (hphase : s.mPhase = .confirm) (hst : s.statement scp = some st) (hst1 : s1.statement scp = some st1) :
    isNewerStatement st st1 = true := by
  obtain ⟨hnew, hsame⟩ := skipsPrepared_ok hcan.kept
  obtain ⟨p, _, hp, _, hle, hv, _⟩ := hsame hphase
  have hlt : p.counter < ballot.counter := by
    rw [← lt_iff_of_value hv]
    refine lt_of_le_of_ne hle ?_
    intro he
    exact (not_alreadyPrepared hnew).2 p hp ⟨he.ge, hv.symm⟩
  obtain ⟨hb1, hp1, hphase1⟩ : s1.mCurrentBallot = s.mCurrentBallot ∧ s1.mPrepared = some ballot ∧
      s1.mPhase = s.mPhase := by
    cases hprep with
    | prime q hq hlt' _ _ =>
      rw [hp] at hq
      cases hq
      exact absurd hle (not_le.mpr hlt')
    | _ => exact ⟨rfl, rfl, rfl⟩
  obtain ⟨b, q, c, h, hb, hq, _, _, rfl⟩ := statement_of_confirm hphase hst
  obtain ⟨b', q', c', h', hb', hq', _, _, rfl⟩ := statement_of_confirm (hphase1.trans hphase) hst1
  rw [hp] at hq
  rw [hp1] at hq'
  rw [hb1, hb] at hb'
  cases hq
  cases hq'
  cases hb'
  exact Scp.newer_confirm (.inr ⟨rfl, .inl hlt⟩)

theorem AcceptsCommit.newer {c h : SCPBallot} {prime : Option SCPBallot} (ha : s.AcceptsCommit h b prime)
    (hcan : s.CanAcceptCommit c h) (hphase1 : s1.mPhase = .confirm) (hb1 : s1.mCurrentBallot = some b)
    (hp1 : s1.mPrepared = s.mPrepared) (hh1 : s1.mHighBallot = some h) (hst : s.statement scp = some st)
    (hst1 : s1.statement scp = some st1) : isNewerStatement st st1 = true := by
  cases hphase : s.mPhase with
  | prepare =>
    apply newer_of_type
    rw [statement_type hst, statement_type hst1, hphase, hphase1]
    decide
  | confirm =>
    obtain ⟨b0, p0, _, h0, hb0, hp0, _, hh0, rfl⟩ := statement_of_confirm hphase hst
    obtain ⟨b2, p2, _, h2, hb2, hp2, _, hh2, rfl⟩ := statement_of_confirm hphase1 hst1
    rw [hb1] at hb2
    rw [hp1, hp0] at hp2
    rw [hh1] at hh2
    cases hb2
    cases hp2
    cases hh2
    apply Scp.newer_confirm
    rcases lt_or_eq_of_le ((ha.confirm (by simp [hphase])).2 b0 hb0) with hlt | heq
    · exact .inl hlt
    · obtain ⟨h', hh', hv', hlt⟩ := hcan.raises hphase
      rw [hh0] at hh'
      cases hh'
      exact .inr ⟨heq, .inr ⟨rfl, (lt_iff_of_value hv').mp hlt⟩⟩
  | externalize => exact absurd hphase hcan.active

theorem MovesValue.newer (hmoves : s.MovesValue ballot s1) (hcheck1 : s1.Checked) (hst : s.statement scp = some st)
    (hst1 : s1.statement scp = some st1) : isNewerStatement st st1 = true := by
  obtain ⟨hb1, hphase1⟩ : s1.mCurrentBallot = some ballot ∧ s1.mPhase = s.mPhase := by
    cases hmoves.moved <;> exact ⟨rfl, rfl⟩
  cases hphase : s.mPhase with
  | prepare =>
    rw [statement_of_prepare hphase] at hst
    rw [statement_of_prepare (hphase1.trans hphase), hb1] at hst1
    cases hst
    cases hst1
    exact newer_prepare (.inl (ballot_lt (hcheck1.current ballot hb1) hmoves.lower))
  | confirm =>
    obtain ⟨b, _, _, _, hb, _, _, _, rfl⟩ := statement_of_confirm hphase hst
    obtain ⟨b', _, _, _, hb', _, _, _, rfl⟩ := statement_of_confirm (hphase1.trans hphase) hst1
    rw [hb1] at hb'
    cases hb'
    exact Scp.newer_confirm (.inl (hmoves.lower b hb))
  | externalize => exact absurd hphase hmoves.active

variable {a : Action}

/-- **Work on the registers makes the statement newer**, if it changes it. -/
theorem Effect.newer (hcheck : s.Checked) (hcheck1 : s1.Checked) (taken : s.Taken scp a) (heff : s.Effect a true s1)
    (hst : s.statement scp = some st) (hst1 : s1.statement scp = some st1) :
    st1 = st ∨ isNewerStatement st st1 = true := by
  cases heff with
  | acceptPrepared ballot _ hprep _ =>
    right
    have hcan := taken
    have hphase1 : s1.mPhase = s.mPhase := by cases hprep <;> rfl
    cases hphase : s.mPhase with
    | prepare => exact hprep.newer hphase (hphase1.trans hphase) rfl rfl rfl hst hst1
    | confirm => exact hprep.newer_confirm hcan hphase hst hst1
    | externalize => exact absurd hphase hcan.active
  | clearCommit ballot s2 hprep hphase =>
    have hphase2 : s2.mPhase = s.mPhase := by cases hprep <;> rfl
    right
    refine hprep.newer hphase ?_ ?_ ?_ ?_ hst hst1
    · exact hphase2.trans hphase
    all_goals rfl
  | confirmPrepared newC newH _ _ heff => exact heff.newer hcheck hcheck1 taken hst hst1
  | acceptCommit c h b prime heard ha =>
    right
    refine ha.newer taken ?_ ?_ ?_ ?_ hst hst1
    all_goals rfl
  | confirmCommit c h b heard _ _ _ =>
    right
    apply newer_of_type
    rw [statement_type hst, statement_type hst1, CanConfirmCommit.active taken]
    show 1 < 2
    decide
  | bump ballot _ hmoves => exact .inr (hmoves.newer hcheck1 hst hst1)

/-! ### Valid registers -/

variable (scp) in
def IsValid (v : Value) : Prop := scp.driver.validateValue v false ≠ .kInvalidValue

variable (scp) in
/-- The node is a slice of its own, others are one without it, and the empty value
is not valid. -/
def VotesAlone : Prop :=
  ¬IsValid scp [] ∧ isQuorumSlice scp.localNode.mQSet [scp.localNode.mNodeID] = true ∧
    ∃ S, scp.localNode.mNodeID ∉ S ∧ isQuorumSlice scp.localNode.mQSet S = true

variable (scp) in
/-- The values in the registers are valid. -/
structure ValidRegisters (s : Core) : Prop where
  current : ∀ b, s.mCurrentBallot = some b → IsValid scp b.value
  prepared : ∀ p, s.mPrepared = some p ∨ s.mPreparedPrime = some p → IsValid scp p.value
  override : ∀ v, s.mValueOverride = some v → IsValid scp v

variable (scp) in
/-- So are those in the record, and the node's latest statement is that of its registers. -/
structure Valued (s : Core) : Prop extends ValidRegisters scp s where
  history : ∀ st ∈ s.mStatementsHistory, validateValues scp st ≠ .kInvalidValue
  sane : ∀ st ∈ s.mStatementsHistory,
    arePledgesSane st.pledges (decide (st.nodeID = scp.localNode.mNodeID)) = true
  composite : ∀ v, s.mLatestCompositeCandidate = some v → IsValid scp v
  latest : ∀ st, s.mLatestEnvelopes.lookup scp.localNode.mNodeID = some st → s.statement scp = some st
  /-- A node that has spoken without a current ballot. -/
  null : s.mCurrentBallot = none → (s.mLatestEnvelopes.lookup scp.localNode.mNodeID).isSome →
    IsValid scp [] ∨ isQuorumSlice scp.localNode.mQSet [scp.localNode.mNodeID] = false

theorem valid_of_votesPrepared (hvalid : validateValues scp st ≠ .kInvalidValue)
    (hcounter : ∀ prep, st.pledges = .prepare prep → prep.ballot.counter ≠ 0) (h : votesPrepared ballot st = true) :
    IsValid scp ballot.value := by
  apply ((validateValues_iff st).mp hvalid).2
  unfold votesPrepared at h
  unfold getStatementValues
  split at h
  · next p hp =>
    simp [hcounter p hp, (lessAndCompatible_iff.mp h).2]
  · exact mem_singleton.mpr (compatible_iff.mp h)
  · exact mem_singleton.mpr (compatible_iff.mp h)

theorem Valued.other (h : s.Valued scp) (hrec : Recorded s) {n : NodeID}
    (hst : s.mLatestEnvelopes.lookup n = some st) (hn : n ≠ scp.localNode.mNodeID)
    (hvote : (hasPreparedBallot ballot st || votesPrepared ballot st) = true) : IsValid scp ballot.value := by
  obtain ⟨hmem, hid⟩ := hrec n st hst
  rcases Bool.or_eq_true_iff.mp hvote with hprep | hvote
  · exact valid_of_hasPrepared (h.history st hmem) hprep
  · refine valid_of_votesPrepared (h.history st hmem) ?_ hvote
    intro prep hprep
    have hsane := h.sane st hmem
    rw [hid, decide_eq_false hn, hprep] at hsane
    simp only [arePledgesSane, Bool.false_or, Bool.and_eq_true, decide_eq_true_eq] at hsane
    exact uint32_ne_zero_of_lt hsane.1.1.1

theorem Valued.self (h : s.Valued scp) (hcheck : s.Checked) (hrec : Recorded s)
    (hst : s.mLatestEnvelopes.lookup scp.localNode.mNodeID = some st)
    (hvote : (hasPreparedBallot ballot st || votesPrepared ballot st) = true) :
    IsValid scp ballot.value ∨ (s.mCurrentBallot = none ∧ ballot.value = []) := by
  have hmem := (hrec _ st hst).1
  rcases Bool.or_eq_true_iff.mp hvote with hprep | hvote
  · exact .inl (valid_of_hasPrepared (h.history st hmem) hprep)
  · have hown := h.latest st hst
    cases hphase : s.mPhase with
    | prepare =>
      cases hb : s.mCurrentBallot with
      | none =>
        right
        rw [statement_of_prepare hphase] at hown
        cases hown
        refine ⟨rfl, ?_⟩
        have hv := (lessAndCompatible_iff.mp hvote).2
        rw [hb] at hv
        exact hv
      | some b =>
        left
        refine valid_of_votesPrepared (h.history st hmem) ?_ hvote
        rw [statement_of_prepare hphase] at hown
        cases hown
        intro prep hprep
        cases hprep
        simpa [hb] using hcheck.current b hb
    | confirm | externalize =>
      left
      refine valid_of_votesPrepared (h.history st hmem) ?_ hvote
      intro prep hprep
      have htype := statement_type hown
      simp [hphase, hprep, SCPPledges.type] at htype

/-- **A ballot accepted as prepared is on a valid value.** -/
theorem CanAcceptPrepared.valid (h : s.Valued scp) (hcheck : s.Checked) (hrec : Recorded s)
    (hcan : s.CanAcceptPrepared scp ballot) : IsValid scp ballot.value := by
  rcases Bool.or_eq_true_iff.mp hcan.accepted with hblock | hquorum
  · obtain ⟨n, hn⟩ : ∃ n, n ∈ filteredNodes s.mLatestEnvelopes (hasPreparedBallot ballot) := by
      apply exists_mem_of_ne_nil
      intro hnil
      rw [isVBlockingMap, hnil, isVBlocking_nil] at hblock
      cases hblock
    obtain ⟨st, hst, hprep⟩ := mem_filteredNodes.mp hn
    exact valid_of_hasPrepared (h.history st (hrec n st hst).1) hprep
  · obtain ⟨U, hU, hslice⟩ := isQuorum_iff.mp hquorum
    by_cases hother : ∃ n ∈ U, n ≠ scp.localNode.mNodeID
    · obtain ⟨n, hn, hne⟩ := hother
      obtain ⟨st, _, hst, hvote, _⟩ := hU n hn
      exact h.other hrec hst hne hvote
    · -- the node makes the quorum by itself
      have hself : ∀ n ∈ U, n ∈ [scp.localNode.mNodeID] := by
        intro n hn
        by_contra hne
        exact hother ⟨n, hn, by simpa using hne⟩
      have halone := isQuorumSlice_mono hself _ hslice
      obtain ⟨n, hn⟩ : ∃ n, n ∈ U := by
        apply exists_mem_of_ne_nil
        intro hnil
        rw [hnil, isQuorumSlice_nil] at hslice
        cases hslice
      obtain ⟨st, _, hst, hvote, _⟩ := hU n hn
      rw [mem_singleton.mp (hself n hn)] at hst
      rcases h.self hcheck hrec hst hvote with hvalid | ⟨hnone, hempty⟩
      · exact hvalid
      · rcases h.null hnone (by simp [hst]) with hvalid | hnot
        · exact hempty ▸ hvalid
        · rw [halone] at hnot
          cases hnot

/-- Without a current ballot and silent so far, a node that does not vote alone is
made to accept a ballot only where it is no slice of its own. -/
theorem CanAcceptPrepared.null (hnot : ¬VotesAlone scp)
    (hsilent : s.mLatestEnvelopes.lookup scp.localNode.mNodeID = none) (hcan : s.CanAcceptPrepared scp ballot) :
    IsValid scp [] ∨ isQuorumSlice scp.localNode.mQSet [scp.localNode.mNodeID] = false := by
  by_contra hcon
  rw [not_or, Bool.not_eq_false] at hcon
  obtain ⟨hempty, halone⟩ := hcon
  rcases Bool.or_eq_true_iff.mp hcan.accepted with hblock | hquorum
  · refine not_slice_of_blocking ?_ _ halone hblock
    intro n hn hmem
    obtain ⟨st, hst, _⟩ := mem_filteredNodes.mp hmem
    rw [mem_singleton.mp hn, hsilent] at hst
    cases hst
  · obtain ⟨U, hU, hslice⟩ := isQuorum_iff.mp hquorum
    refine hnot ⟨hempty, halone, U, ?_, hslice⟩
    intro hself
    obtain ⟨st, _, hst, _⟩ := hU _ hself
    rw [hsilent] at hst
    cases hst

theorem CanAcceptCommit.valid {c h : SCPBallot} (hs : s.Valued scp) (hcan : s.CanAcceptCommit c h) :
    IsValid scp h.value := by
  obtain ⟨⟨n, pledges⟩, hmem, ballot, hballot, hv⟩ := hcan.hint
  rw [← hv]
  apply ((validateValues_iff _).mp (hs.history _ hmem)).2
  have hsane := hs.sane _ hmem
  cases pledges with
  | prepare prep =>
    simp only [acceptCommitHint] at hballot
    split at hballot
    · next hne =>
      cases hballot
      simp only [arePledgesSane, Bool.and_eq_true, Bool.or_eq_true, decide_eq_true_eq, hne,
        false_or] at hsane
      have hcounter := uint32_ne_zero_of_lt ((uint32_pos hsane.2.1.1).trans_le hsane.2.1.2)
      simp [getStatementValues, mem_ascending, hcounter]
    · cases hballot
  | confirm con | externalize ext =>
    cases hballot
    exact .head _

theorem ValidRegisters.prepares (h : ValidRegisters scp s) (hballot : IsValid scp ballot.value)
    (hprep : s.Prepares ballot s1) : ValidRegisters scp s1 := by
  have hfrom : ∀ p, s1.mPrepared = some p ∨ s1.mPreparedPrime = some p →
      p = ballot ∨ s.mPrepared = some p ∨ s.mPreparedPrime = some p := by
    intro p hp
    cases hprep <;> grind
  have hprepared : ∀ p, s1.mPrepared = some p ∨ s1.mPreparedPrime = some p → IsValid scp p.value := by
    intro p hp
    rcases hfrom p hp with rfl | hp
    · exact hballot
    · exact h.prepared p hp
  cases hprep <;> exact ⟨h.current, hprepared, h.override⟩

theorem ValidRegisters.movedTo (h : ValidRegisters scp s) (hballot : IsValid scp ballot.value)
    (hmoved : s.MovedTo ballot s1) : ValidRegisters scp s1 := by
  have hcurrent : ∀ b, some ballot = some b → IsValid scp b.value := by
    intro b hb
    cases hb
    exact hballot
  cases hmoved with
  | keeps | drops => exact ⟨hcurrent, h.prepared, h.override⟩

theorem ValidRegisters.current_of (h : ValidRegisters scp s) (hballot : IsValid scp ballot.value)
    (hb : b = ballot ∨ s.mCurrentBallot = some b) : ∀ b', some b = some b' → IsValid scp b'.value := by
  intro b' hb'
  cases hb'
  rcases hb with rfl | hb
  · exact hballot
  · exact h.current b hb

theorem Valued.effect {didWork : Bool} (h : s.Valued scp) (hcheck : s.Checked) (hrec : Recorded s)
    (hdec : Deciding scp s) (taken : s.Taken scp a) (hbump : ∀ ballot, a = .bump ballot → IsValid scp ballot.value)
    (heff : s.Effect a didWork s1) : ValidRegisters scp s1 := by
  have hregs := h.toValidRegisters
  cases heff with
  | acceptPrepared ballot _ hprep _ =>
    exact hregs.prepares (CanAcceptPrepared.valid h hcheck hrec taken) hprep
  | clearCommit ballot s2 hprep _ =>
    have h2 := hregs.prepares (CanAcceptPrepared.valid h hcheck hrec taken) hprep
    exact ⟨h2.current, h2.prepared, h2.override⟩
  | confirmPrepared newC newH _ _ heff =>
    have hcan := taken
    have hvalid := valid_of_ratified hrec h.history hcan.ratified
    have hoverride : ∀ v, some newH.value = some v → IsValid scp v := by
      intro v hv
      cases hv
      exact hvalid
    cases heff with
    | high b heard _ _ _ hb => exact ⟨hregs.current_of hvalid hb, hregs.prepared, hoverride⟩
    | switch b _ _ _ _ hmoved =>
      have hover : ValidRegisters scp { s with mValueOverride := some newH.value } :=
        ⟨hregs.current, hregs.prepared, hoverride⟩
      exact hover.movedTo hvalid hmoved
    | stay b _ _ _ => exact ⟨hregs.current, hregs.prepared, hoverride⟩
  | acceptCommit c high b prime heard ha =>
    have hvalid := CanAcceptCommit.valid h taken
    refine ⟨hregs.current_of hvalid ha.current, ?_, ?_⟩
    · intro p hp
      apply hregs.prepared
      rcases hp with hp | hp
      · exact .inl hp
      · by_cases hphase : s.mPhase = .prepare
        · rw [show prime = none from (ha.prepare hphase).1] at hp
          cases hp
        · exact .inr ((ha.confirm hphase).1.symm.trans hp)
    · intro v hv
      cases hv
      exact hvalid
  | confirmCommit c high b heard _ _ hb =>
    have hcan := taken
    obtain ⟨x, hx⟩ := hdec.committed (by simp [hcan.active])
    obtain ⟨c', hc', hv'⟩ := hcan.commit
    obtain ⟨c'', hc'', hvx⟩ := hx.commit
    obtain ⟨b', hb', hvb⟩ := hx.current
    rw [hc'] at hc''
    cases hc''
    have hvalid : IsValid scp high.value := by
      rw [← hv', hvx, ← hvb]
      exact hregs.current b' hb'
    exact ⟨hregs.current_of hvalid hb, hregs.prepared, hregs.override⟩
  | bump ballot _ hmoves => exact hregs.movedTo (hbump ballot rfl) hmoves.moved
  | stay ballot => exact hregs

/-! ### Statements are accepted -/

theorem statement_valid (hcheck : s.Checked) (h : ValidRegisters scp s)
    (hset : s.mPrepared.isSome ∨ s.mCurrentBallot.isSome) (hst : s.statement scp = some st) :
    validateValues scp st ≠ .kInvalidValue := by
  rw [validateValues_iff]
  cases hphase : s.mPhase with
  | prepare =>
    rw [statement_of_prepare hphase] at hst
    cases hst
    constructor
    · cases hb : s.mCurrentBallot with
      | some b =>
        apply ne_nil_of_mem (a := b.value)
        simp [getStatementValues, mem_ascending, hcheck.current b hb]
      | none =>
        obtain ⟨p, hp⟩ := Option.isSome_iff_exists.mp (hset.resolve_right (by simp [hb]))
        apply ne_nil_of_mem (a := p.value)
        simp [getStatementValues, mem_ascending, hp]
    · intro v hv
      simp only [getStatementValues, mem_ascending, mem_append, mem_map,
        Option.mem_toList] at hv
      rcases hv with (hv | ⟨p, hp, rfl⟩) | ⟨p, hp, rfl⟩
      · split at hv
        · next hne =>
          cases mem_singleton.mp hv
          cases hb : s.mCurrentBallot with
          | none =>
            rw [hb] at hne
            exact absurd rfl hne
          | some b => exact h.current b hb
        · cases hv
      · exact h.prepared p (.inl hp)
      · exact h.prepared p (.inr hp)
  | confirm =>
    obtain ⟨b, _, _, _, hb, _, _, _, rfl⟩ := statement_of_confirm hphase hst
    simpa [getStatementValues, IsValid] using h.current b hb
  | externalize =>
    simp only [statement, hphase] at hst
    split at hst
    · next c high hc hh =>
      cases hst
      obtain ⟨high', hh', _, hvc⟩ := hcheck.commit c hc
      obtain ⟨b, hb, _, hvb⟩ := hcheck.high high' hh'
      have hvalid := h.current b hb
      rw [← hvb, ← hvc] at hvalid
      simpa [getStatementValues, IsValid] using hvalid
    · cases hst

theorem Effect.isSome (heff : s.Effect a true s1) : s1.mPrepared.isSome ∨ s1.mCurrentBallot.isSome := by
  cases heff with
  | acceptPrepared _ _ hprep _ | clearCommit _ _ hprep _ =>
    obtain ⟨p, hp, _⟩ := hprep.le_prepared.2
    exact .inl (by simp [hp])
  | confirmPrepared _ _ _ _ h =>
    cases h with
    | high => exact .inr rfl
    | switch _ _ _ _ _ hmoved => cases hmoved <;> exact .inr rfl
  | bump _ _ h => cases h.moved <;> exact .inr rfl
  | acceptCommit | confirmCommit => exact .inr rfl

/-- **A node accepts its own statements.** -/
theorem not_badState (hknows : KnowsItself scp) (hcheck : s.Checked) (hord : s.Ordered) (hrec : Recorded s)
    (hdec : Deciding scp s) (h : s.Valued scp) (taken : s.Taken scp a)
    (hbump : ∀ ballot, a = .bump ballot → IsValid scp ballot.value) : ¬s.ActFault scp a (.badState st) := by
  intro hfault
  cases hfault with
  | update _ hupdate => cases hupdate
  | publish s1 _ heff hpublish =>
    cases hpublish with
    | badState _ hinv hst hlast hadmits =>
      have hcheck1 := (checkInvariants_iff s1).mp hinv
      have hsane := statement_sane hknows hcheck1 (hord.effect hcheck taken heff) hst
      have hvalid := statement_valid hcheck1 (h.effect hcheck hrec hdec taken hbump heff) heff.isSome hst
      have hnewer : s1.isNewer st = true := by
        rw [isNewer, statement_nodeID hst]
        cases hown : s1.mLatestEnvelopes.lookup scp.localNode.mNodeID with
        | none => rfl
        | some old =>
          have hold := h.latest old (heff.statements.1 ▸ hown)
          rcases heff.newer hcheck hcheck1 taken hold hst with heq | hnew
          · exact absurd (heq ▸ hown) hlast
          · exact hnew
      simp [admits, hsane, hnewer, hvalid] at hadmits

/-! ### Along runs -/

theorem Effect.composite {didWork : Bool} (heff : s.Effect a didWork s1) :
    s1.mLatestCompositeCandidate = s.mLatestCompositeCandidate := by
  cases heff with
  | acceptPrepared _ _ hprep _ | clearCommit _ _ hprep _ => cases hprep <;> rfl
  | confirmPrepared _ _ _ _ h =>
    cases h with
    | switch _ _ _ _ _ hmoved => cases hmoved <;> rfl
    | _ => rfl
  | bump _ _ h => cases h.moved <;> rfl
  | _ => rfl

/-- Work that leaves no current ballot is the accepting of a prepared one, from none. -/
theorem Effect.of_no_current (heff : s.Effect a true s1) (hnone : s1.mCurrentBallot = none) :
    s.mCurrentBallot = none ∧ ∃ ballot, a = .acceptPrepared ballot := by
  cases heff with
  | acceptPrepared ballot _ hprep _ | clearCommit ballot _ hprep _ =>
    cases hprep <;> exact ⟨hnone, ballot, rfl⟩
  | confirmPrepared _ _ _ _ h =>
    cases h with
    | high => cases hnone
    | switch _ _ _ _ _ hmoved => cases hmoved <;> cases hnone
  | bump _ _ h => cases h.moved <;> cases hnone
  | acceptCommit | confirmCommit => cases hnone

theorem Valued.quiet (h : s.Valued scp) (hregs : ValidRegisters scp s1) (heff : s.Effect a false s1) :
    s1.Valued scp := by
  cases heff with
  | confirmPrepared _ _ _ _ heff =>
    cases heff with
    | stay b _ _ _ => exact ⟨hregs, h.history, h.sane, h.composite, h.latest, h.null⟩
  | stay ballot => exact h

theorem Valued.publish (hregs : ValidRegisters scp s)
    (hhistory : ∀ st ∈ s.mStatementsHistory, validateValues scp st ≠ .kInvalidValue)
    (hsane : ∀ st ∈ s.mStatementsHistory, arePledgesSane st.pledges (decide (st.nodeID = scp.localNode.mNodeID)) = true)
    (hcomposite : ∀ v, s.mLatestCompositeCandidate = some v → IsValid scp v)
    (hnull : s.mCurrentBallot = none → IsValid scp [] ∨ isQuorumSlice scp.localNode.mQSet [scp.localNode.mNodeID] = false)
    (hpub : s.Published scp s') : s'.Valued scp := by
  cases hpub with
  | again st hst hlast =>
    refine ⟨hregs, hhistory, hsane, hcomposite, ?_, fun hnone _ => hnull hnone⟩
    intro st' hst'
    rw [hlast] at hst'
    cases hst'
    exact hst
  | record st hst hadmits =>
    simp only [admits, isStatementSane, Bool.and_eq_true, decide_eq_true_eq] at hadmits
    obtain ⟨⟨⟨_, hpledges⟩, _⟩, hvalid⟩ := hadmits
    have hself := statement_nodeID hst
    refine ⟨⟨hregs.current, hregs.prepared, hregs.override⟩, ?_, ?_, hcomposite, ?_, fun hnone _ => hnull hnone⟩
    · intro st' hst'
      rcases mem_append.mp hst' with hmem | hmem
      · exact hhistory st' hmem
      · cases mem_singleton.mp hmem
        exact hvalid
    · intro st' hst'
      rcases mem_append.mp hst' with hmem | hmem
      · exact hsane st' hmem
      · cases mem_singleton.mp hmem
        rwa [decide_eq_true hself]
    · intro st' hst'
      have hlookup : (s.recordEnvelope st).mLatestEnvelopes.lookup scp.localNode.mNodeID = some st := by
        rw [← hself]
        exact AList.lookup_insert _
      rw [hlookup] at hst'
      cases hst'
      exact hst

theorem Valued.does (hnot : ¬VotesAlone scp) (h : s.Valued scp) (hcheck : s.Checked) (hrec : Recorded s)
    (hdec : Deciding scp s) (taken : s.Taken scp a) (hbump : ∀ ballot, a = .bump ballot → IsValid scp ballot.value)
    (hdoes : s.Does scp a s') : s'.Valued scp := by
  cases hdoes with
  | quiet _ heff => exact h.quiet (h.effect hcheck hrec hdec taken hbump heff) heff
  | publish s1 _ heff _ hpub =>
    have hcandidate := heff.composite
    refine Valued.publish (h.effect hcheck hrec hdec taken hbump heff) ?_ ?_ ?_ ?_ hpub
    · rw [heff.statements.2]
      exact h.history
    · rw [heff.statements.2]
      exact h.sane
    · rw [hcandidate]
      exact h.composite
    · intro hnone
      obtain ⟨hnone', ballot, rfl⟩ := heff.of_no_current hnone
      cases hown : s.mLatestEnvelopes.lookup scp.localNode.mNodeID with
      | none => exact CanAcceptPrepared.null hnot hown taken
      | some st => exact h.null hnone' (by simp [hown])

theorem Valued.abandonValue {v : Value} (h : s.Valued scp) (hv : s.abandonValue = some v) : IsValid scp v := by
  unfold Core.abandonValue at hv
  split at hv
  · next hcomposite =>
    cases hv
    exact h.composite _ hcomposite
  · obtain ⟨hv, _⟩ := Option.filter_eq_some_iff.mp hv
    cases hb : s.mCurrentBallot with
    | none =>
      rw [hb] at hv
      exact h.composite v hv
    | some b =>
      rw [hb] at hv
      cases hv
      exact h.current b hb

theorem Valued.bumpBallot {v : Value} (h : s.Valued scp) (hv : IsValid scp v) (n : UInt32) :
    IsValid scp (s.bumpBallot v n).value := by
  show IsValid scp (s.mValueOverride.getD v)
  cases ho : s.mValueOverride with
  | none => exact hv
  | some x => exact h.override x ho

theorem CanBump.valid (h : s.Valued scp) (hcan : s.CanBump ballot) : IsValid scp ballot.value := by
  obtain ⟨v, hv, hballot⟩ := hcan.value
  rw [hballot]
  exact h.bumpBallot (h.abandonValue hv) _

end Core

namespace BallotProtocol
variable {scp : SCP}

variable (scp) in
def Event.Valid : Event → Prop
  | .bumpState value _ => IsValid scp value
  | .candidate value => ∀ v ∈ value, IsValid scp v
  | _ => True

variable {s : Core}

theorem Event.valid_bumps {e : Event} {ballot : SCPBallot} (h : s.Valued scp) (he : e.Valid scp)
    (hb : e.bumps s = some ballot) : IsValid scp ballot.value := by
  cases e with
  | receive st | candidate value => cases hb
  | bumpState value force =>
    simp only [bumps] at hb
    split at hb
    · cases hb
    · cases hb
      exact h.bumpBallot he _
  | timerExpired =>
    simp only [bumps] at hb
    split at hb
    · cases hb
    · obtain ⟨v, hv, rfl⟩ := Option.map_eq_some_iff.mp hb
      exact h.bumpBallot (h.abandonValue hv) _

theorem Enabled.valid_bump {a : Action} (h : s.Valued scp) (enabled : s.Enabled scp a) :
    ∀ ballot, a = .bump ballot → IsValid scp ballot.value := by
  intro ballot ha
  subst ha
  exact CanBump.valid h enabled

variable {st : SCPStatement}

theorem Valued.receive (h : s.Valued scp) (hother : st.nodeID ≠ scp.localNode.mNodeID)
    (hadmits : s.admits scp st false = true) : (s.recordEnvelope st).Valued scp := by
  simp only [admits, isStatementSane, Bool.and_eq_true, decide_eq_true_eq] at hadmits
  obtain ⟨⟨⟨_, hpledges⟩, _⟩, hvalid⟩ := hadmits
  have hlookup : (s.recordEnvelope st).mLatestEnvelopes.lookup scp.localNode.mNodeID =
      s.mLatestEnvelopes.lookup scp.localNode.mNodeID := AList.lookup_insert_ne hother.symm
  refine ⟨⟨h.current, h.prepared, h.override⟩, ?_, ?_, h.composite, ?_, ?_⟩
  · intro st' hst'
    rcases mem_append.mp hst' with hmem | hmem
    · exact h.history st' hmem
    · cases mem_singleton.mp hmem
      exact hvalid
  · intro st' hst'
    rcases mem_append.mp hst' with hmem | hmem
    · exact h.sane st' hmem
    · cases mem_singleton.mp hmem
      rwa [decide_eq_false hother]
  · intro st' hst'
    exact h.latest st' (hlookup.symm.trans hst')
  · intro hnone hsome
    exact h.null hnone (hlookup ▸ hsome)

theorem valued_invariant (hnot : ¬VotesAlone scp) :
    Invariant scp (fun e => e.FromOther scp ∧ e.Valid scp)
      (fun s => (Recorded s ∧ Deciding scp s) ∧ (s.Checked ∧ s.Ordered) ∧ s.Valued scp) where
  happens := by
    intro s e s' h hs he happens
    obtain ⟨hdec, hord, h⟩ := h
    refine ⟨deciding_invariant.happens s e s' hdec hs he.1 happens,
      ordered_invariant.happens s e s' hord hs he.1 happens, ?_⟩
    cases happens with
    | ignored _ => exact h
    | receive st hadmits => exact Valued.receive h he.1 hadmits
    | candidate value =>
      exact ⟨⟨h.current, h.prepared, h.override⟩, h.history, h.sane, he.2, h.latest, h.null⟩
    | bump _ ballot _ hb hdoes =>
      refine h.does hnot hord.1 hdec.1 hdec.2 (taken_of_bumps hb) ?_ hdoes
      intro ballot' ha
      cases ha
      exact valid_bumps h he.2 hb
  move := by
    intro s s' h hs hmove
    obtain ⟨hdec, hord, h⟩ := h
    refine ⟨deciding_invariant.move s s' hdec hs hmove, ordered_invariant.move s s' hord hs hmove, ?_⟩
    cases hmove with
    | act a _ enabled hdoes =>
      exact h.does hnot hord.1 hdec.1 hdec.2 enabled.taken (Enabled.valid_bump h enabled) hdoes
    | heard heard =>
      exact ⟨⟨h.current, h.prepared, h.override⟩, h.history, h.sane, h.composite, h.latest, h.null⟩

theorem fresh_valued : (fresh scp).Valued scp :=
  ⟨⟨by simp [fresh], by simp [fresh], by simp [fresh]⟩, by simp [fresh], by simp [fresh],
    by simp [fresh], by simp [fresh], by simp [fresh]⟩

/-! ### The sequence of own statements -/

variable (scp) in
/-- The node's own statements, in the order they were handed to it. -/
def ownStatements (s : Core) : List SCPStatement :=
  s.mStatementsHistory.filter fun st => st.nodeID = scp.localNode.mNodeID

variable (scp) in
/-- Each is newer than the one before, and the last is the latest. -/
structure Increasing (s : Core) : Prop where
  newer : (ownStatements scp s).IsChain fun old st => isNewerStatement old st = true
  last : (ownStatements scp s).getLast? = s.mLatestEnvelopes.lookup scp.localNode.mNodeID

theorem Increasing.congr {s' : Core} (h : Increasing scp s) (hhist : s'.mStatementsHistory = s.mStatementsHistory)
    (hlatest : s'.mLatestEnvelopes = s.mLatestEnvelopes) : Increasing scp s' := by
  constructor
  · rw [ownStatements, hhist]
    exact h.newer
  · rw [ownStatements, hhist, hlatest]
    exact h.last

theorem Increasing.record_own (h : Increasing scp s) (hself : st.nodeID = scp.localNode.mNodeID)
    (hnewer : s.isNewer st = true) : Increasing scp (s.recordEnvelope st) := by
  have hown : ownStatements scp (s.recordEnvelope st) = ownStatements scp s ++ [st] := by
    simp [ownStatements, recordEnvelope, hself]
  constructor
  · rw [hown, isChain_append]
    refine ⟨h.newer, isChain_singleton st, ?_⟩
    intro old hold st' hst'
    rw [head?_cons, Option.mem_some] at hst'
    subst hst'
    rw [h.last] at hold
    rw [isNewer, hself, Option.mem_def.mp hold] at hnewer
    exact hnewer
  · rw [hown, getLast?_concat, ← hself]
    exact (AList.lookup_insert s.mLatestEnvelopes).symm

theorem Increasing.record_other (h : Increasing scp s) (hother : st.nodeID ≠ scp.localNode.mNodeID) :
    Increasing scp (s.recordEnvelope st) := by
  have hown : ownStatements scp (s.recordEnvelope st) = ownStatements scp s := by
    simp [ownStatements, recordEnvelope, hother]
  constructor
  · rw [hown]
    exact h.newer
  · rw [hown, h.last]
    exact (AList.lookup_insert_ne hother.symm).symm

theorem Increasing.does {s' : Core} {a : Action} (h : Increasing scp s) (hdoes : s.Does scp a s') :
    Increasing scp s' := by
  cases hdoes with
  | quiet _ heff => exact h.congr heff.statements.2 heff.statements.1
  | publish s1 _ heff _ hpub =>
    have h1 := h.congr heff.statements.2 heff.statements.1
    cases hpub with
    | again _ _ _ => exact h1
    | record st hst hadmits =>
      simp only [admits, Bool.and_eq_true] at hadmits
      exact h1.record_own (statement_nodeID hst) hadmits.1.2

theorem increasing_invariant : Invariant scp (FromOther scp) (Increasing scp) where
  happens := by
    intro s e s' h _ he happens
    cases happens with
    | ignored _ => exact h
    | receive st _ => exact h.record_other he
    | candidate value => exact h.congr rfl rfl
    | bump _ ballot _ _ hdoes => exact h.does hdoes
  move := by
    intro s s' h _ hmove
    cases hmove with
    | act a _ _ hdoes => exact h.does hdoes
    | heard heard => exact h.congr rfl rfl

theorem fresh_increasing : Increasing scp (fresh scp).toCore :=
  ⟨by simp [ownStatements, fresh], by simp [ownStatements, fresh]⟩

/-- **A node's own statements are accepted, each newer than the last**, unless it votes
alone. -/
theorem run_own_statements (hknows : KnowsItself scp) (hnot : ¬VotesAlone scp) {events : List Event}
    (hevents : ∀ e ∈ events, e.FromOther scp ∧ e.Valid scp) :
    (∀ st, run scp (fresh scp) events ≠ .error (.badState st)) ∧
      ∀ s, run scp (fresh scp) events = .ok s →
        (ownStatements scp s.toCore).IsChain fun old st => isNewerStatement old st = true := by
  constructor
  · intro st hrun
    rcases run_fault (valued_invariant hnot) (fun _ h => h.1) hevents
      ⟨fresh_deciding, fresh_ordered, fresh_valued⟩ hrun with
      ⟨s, a, _, ⟨hdec, hord, h⟩, hfault, htaken⟩ | hf | hf | hf
    · refine not_badState hknows hord.1 hord.2 hdec.1 hdec.2 h (taken_of_fault htaken) ?_ hfault
      rcases htaken with enabled | ⟨e, ballot, he, hb, rfl⟩
      · exact Enabled.valid_bump h enabled
      · intro ballot' ha
        cases ha
        exact valid_bumps h he.2 hb
    all_goals cases hf
  · intro s hrun
    have hsound : (fresh scp).Sound scp := fresh_sound
    have hmeets := run_meets increasing_invariant (fun _ h => h) events (fun e he => (hevents e he).1)
      hsound fresh_increasing
    exact (hmeets.of_ok hrun).2.newer

/-! ### One of two -/

/-- Node 0, for which node 7 is a slice and so is node 0 itself. -/
def oneOfTwo : SCP where
  localNode := ⟨0, true, ⟨1, [0, 7], []⟩, 1⟩
  driver := { listener.driver with getQSet := fun h => if h = 1 then some ⟨1, [0, 7], []⟩ else none }

/-- It votes alone; and one EXTERNALIZE from node 7 takes it to the bad state, over a
statement that reports the null ballot as p'. -/
theorem oneOfTwo_badState :
    KnowsItself oneOfTwo ∧ VotesAlone oneOfTwo ∧
    (∀ e ∈ [receive ⟨7, .externalize ⟨⟨1, [1]⟩, 1, 1⟩⟩], e.FromOther oneOfTwo ∧ e.Valid oneOfTwo) ∧
    isStatementSane oneOfTwo ⟨7, .externalize ⟨⟨1, [1]⟩, 1, 1⟩⟩ false = true ∧
    run oneOfTwo (fresh oneOfTwo) [.receive ⟨7, .externalize ⟨⟨1, [1]⟩, 1, 1⟩⟩] =
      .error (.badState ⟨0, .prepare ⟨1, default, some ⟨UINT32_MAX, [1]⟩, some default, 0, 0⟩⟩) := by
  refine ⟨⟨rfl, by decide⟩, ⟨fun h => h rfl, by decide, [7], by decide, by decide⟩, ?_, by decide, ?_⟩
  · intro e he
    cases mem_singleton.mp he
    exact ⟨by decide, trivial⟩
  · apply Meets.eq_error
    decide +kernel

/-- A node that is no slice of its own makes five statements on three of node 7's. -/
theorem run_own_statements_listener :
    (∀ st, run listener (fresh listener) abortBelow ≠ .error (.badState st)) ∧
      ∃ s, run listener (fresh listener) abortBelow = .ok s ∧ (ownStatements listener s.toCore).length = 5 ∧
        (ownStatements listener s.toCore).IsChain fun old st => isNewerStatement old st = true := by
  have hnot : ¬VotesAlone listener := by
    intro h
    exact absurd h.2.1 (by decide)
  have hevents : ∀ e ∈ abortBelow, e.FromOther listener ∧ e.Valid listener := by
    intro e he
    simp only [abortBelow, mem_cons, not_mem_nil, or_false] at he
    rcases he with rfl | rfl | rfl <;> exact ⟨by decide, trivial⟩
  have hspec := run_own_statements listener_knowsItself hnot hevents
  obtain ⟨s, hrun, hlength⟩ := Meets.exists_ok (r := run listener (fresh listener) abortBelow)
    (Q := fun s => (ownStatements listener s.toCore).length = 5) (by decide +kernel)
  exact ⟨hspec.1, s, hrun, hlength, hspec.2 s hrun⟩

/-- **What a node externalizes is valid, and a quorum has said that it accepts the commit.** -/
theorem run_externalizes (hnot : ¬VotesAlone scp) {events : List Event}
    (hevents : ∀ e ∈ events, e.FromOther scp ∧ e.Valid scp) {s : BallotProtocol}
    (hrun : run scp (fresh scp) events = .ok s) (hphase : s.mPhase = .externalize) :
    ∃ x, Committed scp s.toCore x ∧ IsValid scp x ∧ Justified scp s.toCore x := by
  have hmeets := run_meets (valued_invariant hnot) (fun _ h => h.1) events hevents fresh_sound
    ⟨fresh_deciding, fresh_ordered, fresh_valued⟩
  obtain ⟨_, ⟨_, hdec⟩, _, hvalued⟩ := hmeets.of_ok hrun
  cases hdec with
  | prepare hp _ _ | confirm _ hp _ => cases hp.symm.trans hphase
  | externalize x _ hx hjust => exact ⟨x, hx, hvalued.override x hx.override, hjust⟩

theorem run_externalizes_listener : ∃ s,
    run listener (fresh listener) [receive ⟨7, .externalize ⟨⟨1, [1]⟩, 1, 1⟩⟩] = .ok s ∧
    ∃ x, Committed listener s.toCore x ∧ IsValid listener x ∧ Justified listener s.toCore x := by
  obtain ⟨s, hrun, hphase⟩ := Meets.exists_ok
    (r := run listener (fresh listener) [receive ⟨7, .externalize ⟨⟨1, [1]⟩, 1, 1⟩⟩])
    (Q := fun s => s.mPhase = .externalize) (by decide +kernel)
  exact ⟨s, hrun, run_externalizes (fun h => absurd h.2.1 (by decide))
    (by simp [FromOther, Event.Valid, listener]) hrun hphase⟩

end BallotProtocol
end Diamnet.Scp
