import Diamnet.Scp.Invariants

/-! Why `checkInvariants` does not fail.

The one register an action could spoil is b, by moving it to a ballot without a
counter. Such a ballot reaches the registers only through a statement that calls
it prepared, and a node's own votes on the null ballot are on an empty value. So
where the statements received call no ballot without a counter prepared, and the
empty value is not valid, every ballot a node confirms as prepared has a counter. -/
open Diamnet.Scp.Core Diamnet.Scp.BallotProtocol

namespace Diamnet.Scp
open List SCPBallot
variable {scp : SCP}

/-! ### Valid values -/

private theorem levels_foldl (values : List Value) (lv : ValidationLevel) :
    values.foldl (fun lv v =>
      if lv = .kInvalidValue then lv else (scp.driver.validateValue v false).min lv) lv ≠ .kInvalidValue ↔
      lv ≠ .kInvalidValue ∧ ∀ v ∈ values, scp.driver.validateValue v false ≠ .kInvalidValue := by
  induction values generalizing lv with
  | nil => simp
  | cons v rest ih =>
    rw [foldl_cons, ih, forall_mem_cons, ← and_assoc]
    apply and_congr_left
    intro _
    cases lv <;> cases scp.driver.validateValue v false <;> decide

theorem validateValues_iff (st : SCPStatement) :
    validateValues scp st ≠ .kInvalidValue ↔ getStatementValues st ≠ [] ∧
      ∀ v ∈ getStatementValues st, scp.driver.validateValue v false ≠ .kInvalidValue := by
  unfold validateValues
  split
  · next h => simp [h]
  · next hne =>
    rw [levels_foldl]
    exact and_congr_left' (iff_of_true (by decide) hne)

theorem valid_of_hasPrepared {st : SCPStatement} {ballot : SCPBallot}
    (hvalid : validateValues scp st ≠ .kInvalidValue) (h : hasPreparedBallot ballot st = true) :
    scp.driver.validateValue ballot.value false ≠ .kInvalidValue := by
  apply ((validateValues_iff st).mp hvalid).2
  unfold hasPreparedBallot at h
  unfold getStatementValues
  split at h
  · simp only [Bool.or_eq_true, Option.any_eq_true, lessAndCompatible_iff] at h
    rcases h with ⟨q, hq, _, hv⟩ | ⟨q, hq, _, hv⟩
    · simp [hq, hv]
    · simp [hq, hv]
  · exact mem_singleton.mpr (lessAndCompatible_iff.mp h).2
  · exact mem_singleton.mpr (compatible_iff.mp h)

/-! ### Ballots without a counter -/

/-- The ballots the pledges call prepared have counters. -/
def SCPPledges.Counted : SCPPledges → Prop
  | .prepare p => (∀ q ∈ p.prepared, q.counter ≠ 0) ∧ ∀ q ∈ p.preparedPrime, q.counter ≠ 0
  | .confirm c => c.nPrepared ≠ 0
  | .externalize _ => True

instance SCPPledges.decidableCounted : DecidablePred SCPPledges.Counted
  | .prepare _ => inferInstanceAs (Decidable (_ ∧ _))
  | .confirm c => inferInstanceAs (Decidable (c.nPrepared ≠ 0))
  | .externalize _ => .isTrue trivial

/-- A received statement calls no ballot without a counter prepared. -/
def BallotProtocol.Event.Counted : Event → Prop
  | .receive st => st.pledges.Counted
  | _ => True

variable (scp) in
/-- Valid, with counters; the ballot it votes for has one or is not set. -/
structure SCPStatement.Proper (st : SCPStatement) : Prop where
  valid : validateValues scp st ≠ .kInvalidValue
  counted : st.pledges.Counted
  unset : ∀ prep, st.pledges = .prepare prep → prep.ballot.counter = 0 → prep.ballot = default

theorem SCPStatement.Proper.ballots {st : SCPStatement} (h : st.Proper scp) {ballot : SCPBallot}
    (hmem : ballot ∈ Core.hintBallots st) (hzero : ballot.counter = 0) : ballot = default := by
  obtain ⟨n, pledges⟩ := st
  cases pledges with
  | prepare prep =>
    rcases mem_cons.mp hmem with rfl | hmem
    · exact h.unset prep rfl hzero
    · rcases mem_append.mp hmem with hmem | hmem
      · exact absurd hzero (h.counted.1 ballot (by simpa using hmem))
      · exact absurd hzero (h.counted.2 ballot (by simpa using hmem))
  | confirm con =>
    rcases mem_cons.mp hmem with rfl | hmem
    · exact absurd hzero h.counted
    · cases mem_singleton.mp hmem
      cases hzero
  | externalize ext =>
    cases mem_singleton.mp hmem
    cases hzero

namespace Core

variable (scp) in
structure Counted (s : Core) : Prop where
  history : ∀ st ∈ s.mStatementsHistory, st.Proper scp
  prepared : ∀ p, s.mPrepared = some p → p.counter ≠ 0
  prime : ∀ p', s.mPreparedPrime = some p' → p'.counter ≠ 0

variable {s : Core} {ballot : SCPBallot}

theorem Counted.candidate {hint : SCPStatement} (h : s.Counted scp) (hrec : Recorded s)
    (hhint : hint ∈ s.mStatementsHistory) (hmem : ballot ∈ s.getPrepareCandidates hint) (hzero : ballot.counter = 0) :
    ballot = default := by
  obtain ⟨topVote, htop, n, st, hst, hfrom⟩ := mem_getPrepareCandidates.mp hmem
  have hproper := h.history st (hrec n st hst).1
  have hself : topVote.counter = 0 → topVote = default := (h.history hint hhint).ballots htop
  obtain ⟨m, pledges⟩ := st
  cases pledges with
  | prepare prep => exact hproper.ballots (mem_filter.mp hfrom).1 hzero
  | confirm con =>
    simp only [candidatesFrom] at hfrom
    split at hfrom
    · rcases mem_cons.mp hfrom with rfl | hfrom
      · exact hself hzero
      · split at hfrom
        · cases mem_singleton.mp hfrom
          exact absurd hzero hproper.counted
        · cases hfrom
    · cases hfrom
  | externalize ext =>
    simp only [candidatesFrom] at hfrom
    split at hfrom
    · cases mem_singleton.mp hfrom
      exact hself hzero
    · cases hfrom

theorem valid_of_ratified (hrec : Recorded s)
    (hvalid : ∀ st ∈ s.mStatementsHistory, validateValues scp st ≠ .kInvalidValue)
    (h : s.federatedRatify scp (hasPreparedBallot ballot) = true) :
    scp.driver.validateValue ballot.value false ≠ .kInvalidValue := by
  obtain ⟨U, hU, hslice⟩ := LocalNode.isQuorum_iff.mp h
  cases U with
  | nil =>
    rw [LocalNode.isQuorumSlice_nil] at hslice
    cases hslice
  | cons u rest =>
    obtain ⟨st, _, hst, hprep, _⟩ := hU u (.head _)
    exact valid_of_hasPrepared (hvalid st (hrec u st hst).1) hprep

theorem CanConfirmPrepared.counted {newC newH : SCPBallot}
    (hempty : scp.driver.validateValue [] false = .kInvalidValue) (h : s.Counted scp) (hrec : Recorded s)
    (hcan : s.CanConfirmPrepared scp newC newH) : newH.counter ≠ 0 := by
  intro hzero
  obtain ⟨hint, hhint, hmem⟩ := hcan.candidate
  have hnull : newH = default := h.candidate hrec hhint hmem hzero
  have hvalid := valid_of_ratified hrec (fun st hst => (h.history st hst).valid) hcan.ratified
  rw [hnull] at hvalid
  exact hvalid hempty

/-! ### Keeping the invariants -/

theorem Checked.of_commit {b h c : SCPBallot} (hprime : s.PrimeBelow) (hb : s.mCurrentBallot = some b)
    (hh : s.mHighBallot = some h) (hc : s.mCommit = some c) (hle : h ≤ b) (hv : h.value = b.value)
    (hlec : c.counter ≤ h.counter) (hvc : c.value = h.value) (hne : c.counter ≠ 0) : s.Checked where
  current b' hb' := by
    rw [hb] at hb'
    cases hb'
    have hlt := (uint32_pos hne).trans_le (hlec.trans (counter_le hle))
    exact uint32_ne_zero_of_lt hlt
  prime p p' hp hp' := by
    obtain ⟨q, hq, hlt, hne⟩ := hprime p' hp'
    rw [hp] at hq
    cases hq
    exact ⟨hlt.le, hne⟩
  high h' hh' := by
    rw [hh] at hh'
    cases hh'
    exact ⟨b, hb, hle, hv⟩
  commit c' hc' := by
    rw [hc] at hc'
    cases hc'
    exact ⟨h, hh, (le_iff_of_value hvc).mpr hlec, hvc⟩
  phase _ := by simp [hc]

theorem Checked.prepares {s1 : Core} (h : s.Checked) (hprime : s1.PrimeBelow) (hprep : s.Prepares ballot s1) :
    s1.Checked := by
  have hbelow : ∀ p p', s1.mPrepared = some p → s1.mPreparedPrime = some p' →
      p' ≤ p ∧ p'.value ≠ p.value := by
    intro p p' hp hp'
    obtain ⟨q, hq, hlt, hne⟩ := hprime p' hp'
    rw [hp] at hq
    cases hq
    exact ⟨hlt.le, hne⟩
  cases hprep <;> exact ⟨h.current, hbelow, h.high, h.commit, h.phase⟩

variable {s' : Core}

theorem Checked.movedTo (h : s.Checked)
    (hkeeps : s.mPhase = .prepare ∨ ∀ h, s.mHighBallot = some h → h.value = ballot.value)
    (hlower : ∀ b, s.mCurrentBallot = some b → b ≤ ballot) (hne : ballot.counter ≠ 0) (hmoved : s.MovedTo ballot s') :
    s'.Checked := by
  have hcurrent : ∀ b, some ballot = some b → b.counter ≠ 0 := by
    intro b hb
    cases hb
    exact hne
  cases hmoved with
  | keeps heard hv =>
    refine ⟨hcurrent, h.prime, ?_, h.commit, h.phase⟩
    intro high hh
    obtain ⟨b, hb, hle, _⟩ := h.high high hh
    exact ⟨ballot, rfl, hle.trans (hlower b hb), hv high hh⟩
  | drops heard high hh hv =>
    rcases hkeeps with hphase | hkeeps
    · exact ⟨hcurrent, h.prime, by simp, by simp, by simp [hphase]⟩
    · exact absurd (hkeeps high hh) hv

variable {didWork : Bool}

theorem Checked.confirmPrepared {newC newH : SCPBallot} (h : s.Checked) (hcan : s.CanConfirmPrepared scp newC newH)
    (hne : newH.counter ≠ 0) (heff : s.ConfirmsPrepared newC newH didWork s') : s'.Checked := by
  cases heff with
  | high b heard hv hle _ hb =>
    have hvb : newH.value = b.value := by
      rcases hb with rfl | hb
      · rfl
      · exact (hv b hb).symm
    refine ⟨?_, h.prime, ?_, ?_, by simp [hcan.active]⟩
    · intro b' hb'
      cases hb'
      exact uint32_ne_zero_of_lt ((uint32_pos hne).trans_le (counter_le hle))
    · intro high hh
      cases hh
      exact ⟨b, rfl, hle, hvb⟩
    · intro c hc
      refine ⟨newH, rfl, ?_⟩
      split at hc
      · next hcne =>
        cases hc
        rcases hcan.commit with rfl | hcommit
        · exact absurd rfl hcne
        · exact ⟨hcommit.low, hcommit.value⟩
      · obtain ⟨high, hh, hlec, hvc⟩ := h.commit c hc
        obtain ⟨b', hb', _, hvb'⟩ := h.high high hh
        exact ⟨hlec.trans (hcan.raises high hh).le, hvc.trans (hvb'.trans (hv b' hb'))⟩
  | switch b hb _ hlt _ hmoved =>
    have hover : ({ s with mValueOverride := some newH.value } : Core).Checked :=
      ⟨h.current, h.prime, h.high, h.commit, h.phase⟩
    refine hover.movedTo (.inl hcan.active) ?_ hne hmoved
    intro b' hb'
    have : b' = b := Option.some.inj (hb'.symm.trans hb)
    exact this ▸ hlt.le
  | stay b _ _ _ => exact ⟨h.current, h.prime, h.high, h.commit, h.phase⟩

theorem Checked.bump (h : s.Checked) (hdec : Deciding scp s) (taken : s.Taken scp (.bump ballot))
    (hmoves : s.MovesValue ballot s') : s'.Checked := by
  obtain ⟨_, ⟨value, hballot⟩, hfirst⟩ := taken
  refine h.movedTo ?_ (fun b hb => (hmoves.lower b hb).le) ?_ hmoves.moved
  · by_cases hphase : s.mPhase = .prepare
    · exact .inl hphase
    · obtain ⟨x, hx⟩ := hdec.committed hphase
      obtain ⟨high, hh, hvx⟩ := hx.high
      refine .inr ?_
      intro h' hh'
      rw [hh] at hh'
      cases hh'
      rw [hvx, hballot]
      simp [bumpBallot, hx.override]
  · cases hb : s.mCurrentBallot with
    | none => exact hfirst hb
    | some b =>
      have hle := counter_le (hmoves.lower b hb).le
      exact uint32_ne_zero_of_lt ((uint32_pos (h.current b hb)).trans_le hle)

variable {a : Action}

/-- **Every action keeps the invariants**, if a ballot it confirms as prepared has a
counter. -/
theorem Checked.effect (h : s.Checked) (hprime : s.PrimeBelow) (hdec : Deciding scp s) (taken : s.Taken scp a)
    (hne : ∀ newC newH, a = .confirmPrepared newC newH → newH.counter ≠ 0) (heff : s.Effect a didWork s') :
    s'.Checked := by
  have hprime' := heff.primeBelow hprime
  cases heff with
  | acceptPrepared ballot _ hprep _ => exact h.prepares hprime' hprep
  | clearCommit ballot s1 hprep hphase =>
    have hchecked := h.prepares (hprep.primeBelow hprime) hprep
    have hphase1 : s1.mPhase = .prepare := by
      cases hprep <;> exact hphase
    exact ⟨hchecked.current, hchecked.prime, hchecked.high, by simp, by simp [hphase1]⟩
  | confirmPrepared newC newH _ _ heff => exact h.confirmPrepared taken (hne newC newH rfl) heff
  | acceptCommit c high b prime heard ha =>
    have hcan : s.CanAcceptCommit c high := taken
    refine Checked.of_commit hprime' rfl rfl rfl ha.high ?_ hcan.low hcan.value hcan.counter
    by_cases hphase : s.mPhase = .prepare
    · exact (ha.prepare hphase).2.symm
    · -- in CONFIRM the node is bound to h's value
      obtain ⟨x, hx⟩ := hdec.committed hphase
      have hconfirm : s.mPhase = .confirm := by
        cases hp : s.mPhase <;> simp_all [hcan.active]
      obtain ⟨h', hh', hv', _⟩ := hcan.raises hconfirm
      obtain ⟨h'', hh'', hvx⟩ := hx.high
      obtain ⟨b', hb', hvb⟩ := hx.current
      rw [hh'] at hh''
      cases hh''
      rcases ha.current with rfl | hb
      · rfl
      · rw [hb] at hb'
        cases hb'
        rw [← hv', hvx, hvb]
  | confirmCommit c high b heard hle _ hb =>
    have hcan : s.CanConfirmCommit scp c high := taken
    refine Checked.of_commit hprime' rfl rfl rfl hle ?_ hcan.low hcan.value hcan.counter
    obtain ⟨x, hx⟩ := hdec.committed (by simp [hcan.active])
    obtain ⟨c', hc', hv'⟩ := hcan.commit
    obtain ⟨c'', hc'', hvx⟩ := hx.commit
    obtain ⟨b', hb', hvb⟩ := hx.current
    rw [hc'] at hc''
    cases hc''
    rcases hb with rfl | hb
    · rfl
    · rw [hb] at hb'
      cases hb'
      rw [← hv', hvx, hvb]
  | bump ballot _ hmoves => exact h.bump hdec taken hmoves
  | stay ballot => exact h

/-! ### Along runs -/

theorem Published.valid (hrec : Recorded s) (hpub : s.Published scp s')
    (hvalid : ∀ st ∈ s.mStatementsHistory, validateValues scp st ≠ .kInvalidValue) :
    ∃ st, s.statement scp = some st ∧ validateValues scp st ≠ .kInvalidValue ∧
      ∀ st' ∈ s'.mStatementsHistory, st' = st ∨ st' ∈ s.mStatementsHistory := by
  cases hpub with
  | again st hst hlast => exact ⟨st, hst, hvalid st (hrec _ st hlast).1, fun _ h => .inr h⟩
  | record st hst hadmits =>
    refine ⟨st, hst, ?_, ?_⟩
    · simp only [admits, Bool.and_eq_true, decide_eq_true_eq] at hadmits
      exact hadmits.2
    · intro st' hst'
      rcases mem_append.mp hst' with h | h
      · exact .inr h
      · exact .inl (mem_singleton.mp h)

/-- Before it is published, an action may have accepted the null ballot in PREPARE. -/
theorem Counted.effect (h : s.Counted scp) (hrec : Recorded s) (taken : s.Taken scp a)
    (heff : s.Effect a didWork s') :
    ∀ p, s'.mPrepared = some p ∨ s'.mPreparedPrime = some p →
      p.counter ≠ 0 ∨ (didWork = true ∧ s'.mPhase = .prepare ∧ p = default) := by
  have hold : ∀ p, s.mPrepared = some p ∨ s.mPreparedPrime = some p → p.counter ≠ 0 := by
    intro p hp
    rcases hp with hp | hp
    · exact h.prepared p hp
    · exact h.prime p hp
  have hprepares : ∀ ballot s1, s.Taken scp (.acceptPrepared ballot) → s.Prepares ballot s1 →
      ∀ p, s1.mPrepared = some p ∨ s1.mPreparedPrime = some p →
        p.counter ≠ 0 ∨ (s1.mPhase = .prepare ∧ p = default) := by
    intro ballot s1 taken hprep p hp
    have hcan : s.CanAcceptPrepared scp ballot := taken
    have hballot : ballot.counter ≠ 0 ∨ (s1.mPhase = .prepare ∧ ballot = default) := by
      by_cases hzero : ballot.counter = 0
      · obtain ⟨hint, hhint, hmem⟩ := hcan.candidate
        have hnull := h.candidate hrec hhint hmem hzero
        have hphase1 : s1.mPhase = s.mPhase := by cases hprep <;> rfl
        cases hphase : s.mPhase with
        | prepare => exact .inr ⟨hphase1.trans hphase, hnull⟩
        | confirm =>
          obtain ⟨q, _, hq, _, hle, _⟩ := (skipsPrepared_ok hcan.kept).2 hphase
          have hpos := (uint32_pos (h.prepared q hq)).trans_le (counter_le hle)
          exact absurd hzero (uint32_ne_zero_of_lt hpos)
        | externalize => exact absurd hphase hcan.active
      · exact .inl hzero
    have hfrom : p = ballot ∨ s.mPrepared = some p ∨ s.mPreparedPrime = some p := by
      cases hprep <;> grind
    rcases hfrom with rfl | hp
    · exact hballot
    · exact .inl (hold p hp)
  intro p hp
  cases heff with
  | acceptPrepared ballot _ hprep _ =>
    rcases hprepares ballot _ taken hprep p hp with hne | hnull
    · exact .inl hne
    · exact .inr ⟨rfl, hnull⟩
  | clearCommit ballot s1 hprep _ =>
    rcases hprepares ballot s1 taken hprep p hp with hne | hnull
    · exact .inl hne
    · exact .inr ⟨rfl, hnull⟩
  | confirmPrepared _ _ _ _ heff =>
    cases heff with
    | switch _ _ _ _ _ hmoved => cases hmoved <;> exact .inl (hold p hp)
    | high | stay => exact .inl (hold p hp)
  | acceptCommit c high b prime heard ha =>
    refine .inl (hold p ?_)
    rcases hp with hp | hp
    · exact .inl hp
    · by_cases hphase : s.mPhase = .prepare
      · rw [show prime = none from (ha.prepare hphase).1] at hp
        cases hp
      · exact .inr ((ha.confirm hphase).1.symm.trans hp)
  | bump _ _ hmoves => cases hmoves.moved <;> exact .inl (hold p hp)
  | confirmCommit | stay => exact .inl (hold p hp)

theorem Counted.publish (hempty : scp.driver.validateValue [] false = .kInvalidValue)
    (hhistory : ∀ st ∈ s.mStatementsHistory, st.Proper scp) (hrec : Recorded s) (hcheck : s.Checked)
    (hloose : ∀ p, s.mPrepared = some p ∨ s.mPreparedPrime = some p → p.counter ≠ 0 ∨ (s.mPhase = .prepare ∧ p = default))
    (hpub : s.Published scp s') : s'.Counted scp := by
  obtain ⟨st, hst, hvalid, hold⟩ := hpub.valid hrec fun st hst => (hhistory st hst).valid
  have hvalues := ((validateValues_iff st).mp hvalid).2
  have hcounted : ∀ p, s.mPrepared = some p ∨ s.mPreparedPrime = some p → p.counter ≠ 0 := by
    intro p hp
    rcases hloose p hp with hne | ⟨hphase, hnull⟩
    · exact hne
    · have hmem : ([] : Value) ∈ getStatementValues st := by
        simp only [statement, hphase] at hst
        cases hst
        rw [hnull] at hp
        simp only [getStatementValues, mem_ascending, mem_append, mem_map]
        rcases hp with hp | hp
        · exact .inl (.inr ⟨default, by simp [hp], rfl⟩)
        · exact .inr ⟨default, by simp [hp], rfl⟩
      exact absurd hempty (hvalues [] hmem)
  obtain ⟨hp, hp'⟩ : s'.mPrepared = s.mPrepared ∧ s'.mPreparedPrime = s.mPreparedPrime := by
    cases hpub <;> exact ⟨rfl, rfl⟩
  refine ⟨?_, fun p h => hcounted p (.inl (hp ▸ h)), fun p h => hcounted p (.inr (hp' ▸ h))⟩
  intro st' hst'
  rcases hold st' hst' with rfl | hmem
  · cases hphase : s.mPhase with
    | prepare =>
      simp only [statement, hphase] at hst
      cases hst
      refine ⟨hvalid, ⟨fun q hq => hcounted q (.inl hq), fun q hq => hcounted q (.inr hq)⟩, ?_⟩
      intro prep hprep hzero
      cases hprep
      cases hb : s.mCurrentBallot with
      | none => rfl
      | some b => exact absurd (by simpa [hb] using hzero) (hcheck.current b hb)
    | confirm =>
      simp only [statement, hphase] at hst
      split at hst
      · next b p c h _ hp _ _ =>
        cases hst
        exact ⟨hvalid, hcounted p (.inl hp), by simp⟩
      · cases hst
    | externalize =>
      simp only [statement, hphase] at hst
      split at hst
      · cases hst
        exact ⟨hvalid, trivial, by simp⟩
      · cases hst
  · exact hhistory st' hmem

theorem Counted.does (hempty : scp.driver.validateValue [] false = .kInvalidValue) (h : s.Counted scp)
    (hrec : Recorded s) (taken : s.Taken scp a) (hdoes : s.Does scp a s') : s'.Counted scp := by
  cases hdoes with
  | quiet _ heff =>
    have hloose := h.effect hrec taken heff
    have hcounted : ∀ p, s'.mPrepared = some p ∨ s'.mPreparedPrime = some p → p.counter ≠ 0 := by
      intro p hp
      rcases hloose p hp with hne | ⟨hwork, _⟩
      · exact hne
      · cases hwork
    exact ⟨heff.statements.2 ▸ h.history, fun p hp => hcounted p (.inl hp),
      fun p hp => hcounted p (.inr hp)⟩
  | publish s1 _ heff hinv hpub =>
    refine Counted.publish hempty ?_ (hrec.effect heff) ((checkInvariants_iff s1).mp hinv) ?_ hpub
    · rw [heff.statements.2]
      exact h.history
    · intro p hp
      rcases h.effect hrec taken heff p hp with hne | ⟨_, hnull⟩
      · exact .inl hne
      · exact .inr hnull

/-- A statement received is proper if it calls no ballot without a counter prepared. -/
theorem Counted.receive {st : SCPStatement} (h : s.Counted scp) (hadmits : s.admits scp st false = true)
    (hcounted : st.pledges.Counted) : (s.recordEnvelope st).Counted scp := by
  refine ⟨?_, h.prepared, h.prime⟩
  intro st' hst'
  rcases mem_append.mp hst' with hmem | hmem
  · exact h.history st' hmem
  · cases mem_singleton.mp hmem
    simp only [admits, isStatementSane, Bool.and_eq_true, decide_eq_true_eq] at hadmits
    refine ⟨hadmits.2, hcounted, ?_⟩
    intro prep hprep hzero
    have hsane := hadmits.1.1.2
    simp [arePledgesSane, hprep, hzero] at hsane

theorem counted_invariant (hempty : scp.driver.validateValue [] false = .kInvalidValue) :
    Invariant scp (fun e => e.FromOther scp ∧ e.Counted)
      (fun s => (Recorded s ∧ Deciding scp s) ∧ (s.Checked ∧ s.Ordered) ∧ s.Counted scp) where
  happens := by
    intro s e s' h hs he happens
    obtain ⟨hdec, hord, h⟩ := h
    refine ⟨deciding_invariant.happens s e s' hdec hs he.1 happens,
      ordered_invariant.happens s e s' hord hs he.1 happens, ?_⟩
    cases happens with
    | ignored _ => exact h
    | receive st hadmits => exact h.receive hadmits he.2
    | candidate value => exact ⟨h.history, h.prepared, h.prime⟩
    | bump _ ballot _ hb hdoes => exact h.does hempty hdec.1 (Event.taken_of_bumps hb) hdoes
  move := by
    intro s s' h hs hmove
    obtain ⟨hdec, hord, h⟩ := h
    refine ⟨deciding_invariant.move s s' hdec hs hmove, ordered_invariant.move s s' hord hs hmove, ?_⟩
    cases hmove with
    | act a _ enabled hdoes => exact h.does hempty hdec.1 enabled.taken hdoes
    | heard heard => exact ⟨h.history, h.prepared, h.prime⟩

theorem fresh_counted : (fresh scp).Counted scp := ⟨by simp [fresh], by simp [fresh], by simp [fresh]⟩

/-- The assertion does not fail at an action of a node whose ballots have counters. -/
theorem not_checkInvariants_fault (hempty : scp.driver.validateValue [] false = .kInvalidValue)
    (hprime : s.PrimeBelow) (hrec : Recorded s) (hdec : Deciding scp s) (hcheck : s.Checked) (h : s.Counted scp)
    (taken : s.Taken scp a) : ¬s.ActFault scp a (.dbgAssert .checkInvariants) := by
  intro hfault
  cases hfault with
  | update _ hupdate =>
    cases hupdate with
    | bumpInvariants ballot s' hs' hinv =>
      have hchecked : s'.Checked := by
        rcases hs' with rfl | hmoves
        · exact hcheck
        · exact hcheck.bump hdec taken hmoves
      rw [(checkInvariants_iff s').mpr hchecked] at hinv
      cases hinv
  | publish s1 _ heff hpublish =>
    cases hpublish with
    | invariants hinv =>
      have hchecked : s1.Checked := by
        refine hcheck.effect hprime hdec taken ?_ heff
        intro newC newH ha
        subst ha
        exact CanConfirmPrepared.counted hempty h hrec taken
      rw [(checkInvariants_iff s1).mpr hchecked] at hinv
      cases hinv

theorem badState_sane {st : SCPStatement} (hknows : KnowsItself scp) (hcheck : s.Checked) (hord : s.Ordered)
    (taken : s.Taken scp a) (hfault : s.ActFault scp a (.badState st)) :
    isStatementSane scp st true = true ∧ ∀ prep, st.pledges = .prepare prep → VotesClear prep := by
  cases hfault with
  | update _ hupdate => cases hupdate
  | publish s1 _ heff hpublish =>
    cases hpublish with
    | badState _ hinv hst _ _ =>
      have hcheck1 := (checkInvariants_iff s1).mp hinv
      have hord1 := hord.effect hcheck taken heff
      refine ⟨statement_sane hknows hcheck1 hord1 hst, ?_⟩
      intro prep hprep
      obtain ⟨n, pledges⟩ := st
      subst hprep
      exact statement_votesClear hcheck1 hord1 hst

theorem taken_of_fault {allowed : Event → Prop}
    (h : s.Enabled scp a ∨ ∃ e ballot, allowed e ∧ Event.bumps s e = some ballot ∧ a = .bump ballot) :
    s.Taken scp a := by
  rcases h with enabled | ⟨e, ballot, _, hb, rfl⟩
  · exact enabled.taken
  · exact Event.taken_of_bumps hb

end Core

namespace BallotProtocol

/-- **The registers before CONFIRM.** The invariants hold after every run of events,
with h not above p and not aborted while c is set; every PREPARE statement made,
recorded or not, is sane and its votes to commit are clear; and the assertion does
not fail where ballots called prepared have counters. -/
theorem run_before_confirm (hknows : KnowsItself scp) {events : List Event}
    (hother : ∀ e ∈ events, e.FromOther scp) :
    (∀ s, run scp (fresh scp) events = .ok s → s.mPhase = .prepare →
      s.checkInvariants = true ∧
      (∀ h, s.mHighBallot = some h → ∃ p, s.mPrepared = some p ∧ h.counter ≤ p.counter) ∧
      (s.mCommit.isSome → ∀ h, s.mHighBallot = some h → ¬s.aborted h)) ∧
    (∀ s, run scp (fresh scp) events = .ok s → ∀ prep,
      Says scp s.toCore (.prepare prep) ∨
        s.statement scp = some ⟨scp.localNode.mNodeID, .prepare prep⟩ →
      isStatementSane scp ⟨scp.localNode.mNodeID, .prepare prep⟩ true = true ∧ VotesClear prep) ∧
    (∀ st, run scp (fresh scp) events = .error (.badState st) →
      isStatementSane scp st true = true ∧ ∀ prep, st.pledges = .prepare prep → VotesClear prep) ∧
    (scp.driver.validateValue [] false = .kInvalidValue → (∀ e ∈ events, e.Counted) →
      run scp (fresh scp) events ≠ .error (.dbgAssert .checkInvariants)) := by
  have hsound : (fresh scp).Sound scp := fresh_sound
  have hmeets := run_meets voting_invariant (fun _ h => h) events hother hsound
    ⟨fresh_ordered, fresh_voting⟩
  refine ⟨?_, ?_, ?_, ?_⟩
  · intro s hrun hphase
    obtain ⟨_, ⟨hcheck, hord⟩, _⟩ := hmeets.of_ok hrun
    refine ⟨(checkInvariants_iff _).mpr hcheck, ?_, hord.clear hphase⟩
    intro h hh
    obtain ⟨p, hp, hle⟩ := hord.high hphase h hh
    exact ⟨p, hp, counter_le hle⟩
  · intro s hrun prep hprep
    obtain ⟨_, ⟨hcheck, hord⟩, hvoting⟩ := hmeets.of_ok hrun
    rcases hprep with hsay | hst
    · exact hvoting prep hsay
    · exact ⟨statement_sane hknows hcheck hord hst, statement_votesClear hcheck hord hst⟩
  · intro st hrun
    rcases run_fault ordered_invariant (fun _ h => h) hother fresh_ordered hrun with
      ⟨s, a, _, ⟨hcheck, hord⟩, hfault, htaken⟩ | hf | hf | hf
    · exact badState_sane hknows hcheck hord (taken_of_fault htaken) hfault
    all_goals cases hf
  · intro hempty hcounted hrun
    have hallowed : ∀ e ∈ events, e.FromOther scp ∧ e.Counted := fun e he => ⟨hother e he, hcounted e he⟩
    rcases run_fault (counted_invariant hempty) (fun _ h => h.1) hallowed
      ⟨fresh_deciding, fresh_ordered, fresh_counted⟩ hrun with
      ⟨s, a, hs, ⟨hdec, hord, h⟩, hfault, htaken⟩ | hf | hf | hf
    · exact not_checkInvariants_fault hempty hs.prime hdec.1 hdec.2 hord.1 h (taken_of_fault htaken) hfault
    all_goals cases hf

/-! ### A node that listens to one other -/

/-- Node 0, whose only slice is node 7; the empty value is not valid. -/
def listener : SCP where
  localNode := ⟨0, true, ⟨1, [7], []⟩, 1⟩
  driver := {
    getQSet := fun h => if h = 1 then some ⟨1, [7], []⟩ else none
    validateValue := fun v _ => if v = [] then .kInvalidValue else .kFullyValidatedValue
    extractValidValue := fun _ => none
    computeHashNode := fun _ _ _ _ => 0
    computeValueHash := fun _ _ _ => 0
    combineCandidates := fun _ => [] }

def heardPrepare (ballot : SCPBallot) (prepared preparedPrime : Option SCPBallot) : Event :=
  .receive ⟨7, .prepare ⟨1, ballot, prepared, preparedPrime, 0, 0⟩⟩

instance Event.decidableFromOther (scp : SCP) : DecidablePred (Event.FromOther scp)
  | .receive st => inferInstanceAs (Decidable (st.nodeID ≠ scp.localNode.mNodeID))
  | .candidate _ | .bumpState _ _ | .timerExpired => .isTrue trivial

instance Event.decidableCounted : DecidablePred Event.Counted
  | .receive st => inferInstanceAs (Decidable st.pledges.Counted)
  | .candidate _ | .bumpState _ _ | .timerExpired => .isTrue trivial

theorem listener_knowsItself : KnowsItself listener := ⟨rfl, by decide⟩

/-- Node 7 prepares (1, x), then (3, x), and then says it has prepared (2, y) as well. -/
def abortBelow : List Event :=
  [heardPrepare ⟨1, [1]⟩ (some ⟨1, [1]⟩) none, heardPrepare ⟨3, [1]⟩ (some ⟨3, [1]⟩) none,
    heardPrepare ⟨3, [1]⟩ (some ⟨3, [1]⟩) (some ⟨2, [2]⟩)]

/-- A run that ends voting to commit (1, x) with (2, y) above it accepted; and one
that a ballot without a counter stops at the assertion. -/
theorem votes_for_aborted :
    KnowsItself listener ∧ (∀ e ∈ abortBelow, e.FromOther listener) ∧
    (∃ s, run listener (fresh listener) abortBelow = .ok s ∧ s.mPhase = .prepare ∧
      s.aborted ⟨1, [1]⟩ ∧ ∃ st, s.mLatestEnvelopes.lookup 0 = some st ∧
        votesCommit ⟨1, [1]⟩ ⟨1, 1⟩ st = true) ∧
    run listener (fresh listener) [heardPrepare ⟨1, [1]⟩ (some ⟨0, [1]⟩) none] =
      .error (.dbgAssert .checkInvariants) := by
  refine ⟨listener_knowsItself, ?_, ?_, ?_⟩
  · decide
  · obtain ⟨s, hrun, hphase, habort, hvote⟩ := Meets.exists_ok
      (r := run listener (fresh listener) abortBelow)
      (Q := fun s => s.mPhase = .prepare ∧
        (s.mPrepared.any (areBallotsLessAndIncompatible ⟨1, [1]⟩ ·) ||
          s.mPreparedPrime.any (areBallotsLessAndIncompatible ⟨1, [1]⟩ ·)) = true ∧
        (s.mLatestEnvelopes.lookup 0).any (votesCommit ⟨1, [1]⟩ ⟨1, 1⟩) = true) (by decide +kernel)
    exact ⟨s, hrun, hphase, (aborted_iff _ _).mp habort, by simpa [Option.any_eq_true] using hvote⟩
  · apply Meets.eq_error
    decide +kernel

/-- Those events leave c set, and the invariants hold. -/
theorem run_before_confirm_listener :
    (∃ s, run listener (fresh listener) abortBelow = .ok s ∧ s.mPhase = .prepare ∧
      s.mCommit.isSome ∧ s.checkInvariants = true) ∧
    run listener (fresh listener) abortBelow ≠ .error (.dbgAssert .checkInvariants) := by
  have hother : ∀ e ∈ abortBelow, e.FromOther listener := by decide
  have hspec := run_before_confirm listener_knowsItself hother
  obtain ⟨s, hrun, hphase, hcommit⟩ := Meets.exists_ok (r := run listener (fresh listener) abortBelow)
    (Q := fun s => s.mPhase = .prepare ∧ s.mCommit.isSome = true) (by decide +kernel)
  exact ⟨⟨s, hrun, hphase, hcommit, (hspec.1 s hrun hphase).1⟩, hspec.2.2.2 rfl (by decide)⟩

end BallotProtocol
end Diamnet.Scp
