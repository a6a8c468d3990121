import Diamnet.Scp.Attempts

/-! A node that has left PREPARE is bound to one value.

Once a node accepts a commit, every statement it makes carries that value, and so
does whatever it externalizes; and it externalizes only on CONFIRM or EXTERNALIZE
statements for the value from enough nodes. -/
open Diamnet.Scp.BallotProtocol

namespace Diamnet.Scp.Core
variable (scp : SCP)

/-- The latest statements are among those recorded, each under its node. -/
def Recorded (s : Core) : Prop :=
  ∀ n st, s.mLatestEnvelopes.lookup n = some st → st ∈ s.mStatementsHistory ∧ st.nodeID = n

def Says (s : Core) (pledges : SCPPledges) : Prop :=
  ⟨scp.localNode.mNodeID, pledges⟩ ∈ s.mStatementsHistory

/-- The node has said it accepts the commit of `x`. -/
def SaysConfirm (s : Core) (x : Value) : Prop :=
  ∃ con, Says scp s (.confirm con) ∧ con.ballot.value = x ∧ con.quorumSetHash = scp.localNode.mQSetHash

/-- The registers carry the value `x`, and bumps will. -/
structure Bound (s : Core) (x : Value) : Prop where
  commit : ∃ c, s.mCommit = some c ∧ c.value = x
  high : ∃ h, s.mHighBallot = some h ∧ h.value = x
  current : ∃ b, s.mCurrentBallot = some b ∧ b.value = x
  override : s.mValueOverride = some x

/-- Registers and statements bound to `x`. -/
structure Committed (s : Core) (x : Value) : Prop extends Bound s x where
  said : SaysConfirm scp s x
  confirm : ∀ con, Says scp s (.confirm con) →
    con.ballot.value = x ∧ con.quorumSetHash = scp.localNode.mQSetHash
  externalize : ∀ ext, Says scp s (.externalize ext) → s.mPhase = .externalize ∧ ext.commit.value = x

/-- The statements a node has seen when it externalizes `x`: enough nodes accept the
commit of `x`, each with a quorum set the others satisfy, or have externalized it. -/
def Justified (s : Core) (x : Value) : Prop :=
  ∃ U, LocalNode.isQuorumSlice scp.localNode.mQSet U = true ∧ ∀ u ∈ U,
    (∃ con q, ⟨u, .confirm con⟩ ∈ s.mStatementsHistory ∧ con.ballot.value = x ∧
      scp.driver.getQSet con.quorumSetHash = some q ∧ LocalNode.isQuorumSlice q U = true) ∨
    (u ≠ scp.localNode.mNodeID ∧
      ∃ ext, ⟨u, .externalize ext⟩ ∈ s.mStatementsHistory ∧ ext.commit.value = x)

/-- What a phase says of the node's statements and registers. -/
inductive Deciding (s : Core) : Prop where
  | prepare (hphase : s.mPhase = .prepare) (hconfirm : ∀ con, ¬Says scp s (.confirm con))
      (hext : ∀ ext, ¬Says scp s (.externalize ext))
  | confirm (x : Value) (hphase : s.mPhase = .confirm) (h : Committed scp s x)
  | externalize (x : Value) (hphase : s.mPhase = .externalize) (h : Committed scp s x)
      (hjust : Justified scp s x)

variable {scp}

variable {s : Core}

theorem Deciding.committed (h : Deciding scp s) (hphase : s.mPhase ≠ .prepare) : ∃ x, Committed scp s x := by
  cases h with
  | prepare hp _ _ => exact absurd hp hphase
  | confirm x _ h => exact ⟨x, h⟩
  | externalize x _ h _ => exact ⟨x, h⟩

/-! ### Recording -/

theorem Recorded.record (h : Recorded s) (st : SCPStatement) : Recorded (s.recordEnvelope st) := by
  intro n st' hst'
  by_cases hn : n = st.nodeID
  · subst hn
    rw [show (s.recordEnvelope st).mLatestEnvelopes.lookup st.nodeID = some st from
      AList.lookup_insert _] at hst'
    cases hst'
    exact ⟨by simp [recordEnvelope], rfl⟩
  · rw [show (s.recordEnvelope st).mLatestEnvelopes.lookup n = s.mLatestEnvelopes.lookup n from
      AList.lookup_insert_ne hn] at hst'
    obtain ⟨hmem, hid⟩ := h n st' hst'
    exact ⟨List.mem_append_left _ hmem, hid⟩

variable {s' : Core} {a : Action} {didWork : Bool}

theorem Recorded.effect (h : Recorded s) (heff : s.Effect a didWork s') : Recorded s' := by
  obtain ⟨hM, hhist⟩ := heff.statements
  intro n st hst
  rw [hM] at hst
  rw [hhist]
  exact h n st hst

theorem Recorded.does (h : Recorded s) (hdoes : s.Does scp a s') : Recorded s' := by
  cases hdoes with
  | quiet _ heff => exact h.effect heff
  | publish s1 _ heff _ hpub =>
    cases hpub with
    | again _ _ _ => exact h.effect heff
    | record st _ _ => exact (h.effect heff).record st

/-- After publishing, the statement of the registers is among those recorded, and
nothing else is new. -/
theorem Published.history (hrec : Recorded s) (h : s.Published scp s') :
    ∃ st, s.statement scp = some st ∧ st ∈ s'.mStatementsHistory ∧
      ∀ st' ∈ s'.mStatementsHistory, st' = st ∨ st' ∈ s.mStatementsHistory := by
  cases h with
  | again st hst hlast => exact ⟨st, hst, (hrec _ st hlast).1, fun _ h => .inr h⟩
  | record st hst _ =>
    refine ⟨st, hst, by simp [recordEnvelope], ?_⟩
    intro st' hst'
    rcases List.mem_append.mp hst' with h | h
    · exact .inr h
    · exact .inl (List.mem_singleton.mp h)

theorem Published.registers (h : s.Published scp s') :
    s'.mCommit = s.mCommit ∧ s'.mHighBallot = s.mHighBallot ∧ s'.mCurrentBallot = s.mCurrentBallot ∧
      s'.mValueOverride = s.mValueOverride ∧ s'.mPhase = s.mPhase := by
  cases h <;> exact ⟨rfl, rfl, rfl, rfl, rfl⟩

/-! ### The statement of each phase -/

variable {st : SCPStatement}

theorem statement_prepare (hphase : s.mPhase = .prepare) (hst : s.statement scp = some st) :
    ∃ prep, st = ⟨scp.localNode.mNodeID, .prepare prep⟩ := by
  simp only [statement, hphase] at hst
  cases hst
  exact ⟨_, rfl⟩

variable {x : Value}

theorem statement_confirm (hphase : s.mPhase = .confirm) (hbound : Bound s x) (hst : s.statement scp = some st) :
    ∃ con, st = ⟨scp.localNode.mNodeID, .confirm con⟩ ∧ con.ballot.value = x ∧
      con.quorumSetHash = scp.localNode.mQSetHash := by
  obtain ⟨b, hb, hv⟩ := hbound.current
  simp only [statement, hphase] at hst
  split at hst
  · next b' p c h hb' _ _ _ =>
    cases hst
    rw [hb] at hb'
    cases hb'
    exact ⟨_, rfl, hv, rfl⟩
  · cases hst

theorem statement_externalize (hphase : s.mPhase = .externalize) (hbound : Bound s x)
    (hst : s.statement scp = some st) :
    ∃ ext, st = ⟨scp.localNode.mNodeID, .externalize ext⟩ ∧ ext.commit.value = x := by
  obtain ⟨c, hc, hv⟩ := hbound.commit
  simp only [statement, hphase] at hst
  split at hst
  · next c' h hc' _ =>
    cases hst
    rw [hc] at hc'
    cases hc'
    exact ⟨_, rfl, hv⟩
  · cases hst

/-! ### What actions do to a bound node -/

theorem Bound.published (h : Bound s x) (hpub : s.Published scp s') : Bound s' x := by
  obtain ⟨hc, hh, hb, ho, _⟩ := hpub.registers
  exact ⟨hc ▸ h.commit, hh ▸ h.high, hb ▸ h.current, ho ▸ h.override⟩

theorem Bound.bump {value : Value} {n : UInt32} (h : Bound s x)
    (heff : s.Effect (.bump (s.bumpBallot value n)) didWork s') : Bound s' x ∧ s'.mPhase = s.mPhase := by
  have hv : (s.bumpBallot value n).value = x := by
    simp [bumpBallot, h.override]
  generalize s.bumpBallot value n = ballot at heff hv
  cases heff with
  | stay => exact ⟨h, rfl⟩
  | bump _ _ hmoves =>
    obtain ⟨high, hhigh, hvh⟩ := h.high
    obtain ⟨heard, rfl⟩ := hmoves.moved.of_value (by
      intro h' hh'
      rw [hhigh] at hh'
      cases hh'
      rw [hvh, hv])
    exact ⟨⟨h.commit, h.high, ⟨ballot, rfl, hv⟩, h.override⟩, rfl⟩

theorem Prepares.bound {ballot : SCPBallot} (h : Bound s x) (hprep : s.Prepares ballot s') :
    Bound s' x ∧ s'.mPhase = s.mPhase := by
  cases hprep <;> exact ⟨⟨h.commit, h.high, h.current, h.override⟩, rfl⟩

theorem prepare_effect (hphase : s.mPhase = .prepare) (taken : s.Taken scp a) (heff : s.Effect a didWork s') :
    s'.mPhase = .prepare ∨ didWork = true ∧ s'.mPhase = .confirm ∧ ∃ x, Bound s' x := by
  cases heff with
  | acceptPrepared _ _ hprep _ | clearCommit _ _ hprep _ => cases hprep <;> exact .inl hphase
  | confirmPrepared _ _ _ _ h =>
    cases h with
    | switch _ _ _ _ _ hmoved => cases hmoved <;> exact .inl hphase
    | _ => exact .inl hphase
  | acceptCommit c h b prime heard ha =>
    refine .inr ⟨rfl, rfl, h.value, ?_⟩
    exact ⟨⟨c, rfl, CanAcceptCommit.value taken⟩, ⟨h, rfl, rfl⟩, ⟨b, rfl, (ha.prepare hphase).2⟩, rfl⟩
  | confirmCommit =>
    have := CanConfirmCommit.active taken
    rw [hphase] at this
    cases this
  | bump _ _ h => cases h.moved <;> exact .inl hphase
  | stay => exact .inl hphase

theorem CanConfirmCommit.justified {c h : SCPBallot} (hrec : Recorded s)
    (hext : ∀ ext, ¬Says scp s (.externalize ext)) (hcan : s.CanConfirmCommit scp c h) : Justified scp s h.value := by
  obtain ⟨U, hU, hslice⟩ := LocalNode.isQuorum_iff.mp hcan.ratified
  refine ⟨U, hslice, ?_⟩
  intro u hu
  obtain ⟨⟨n, pledges⟩, q, hst, hpred, hq, hsl⟩ := hU u hu
  obtain ⟨hmem, hn⟩ := hrec u _ hst
  subst hn
  cases pledges with
  | prepare p => simp [commitPredicate] at hpred
  | confirm con =>
    simp only [commitPredicate, Bool.and_eq_true, compatible_iff] at hpred
    exact .inl ⟨con, q, hmem, hpred.1.symm, hq, hsl⟩
  | externalize ext =>
    simp only [commitPredicate, Bool.and_eq_true, compatible_iff] at hpred
    refine .inr ⟨?_, ext, hmem, hpred.1.symm⟩
    rintro rfl
    exact hext ext hmem

theorem confirm_effect (hrec : Recorded s) (hphase : s.mPhase = .confirm) (h : Committed scp s x)
    (taken : s.Taken scp a) (heff : s.Effect a didWork s') :
    Bound s' x ∧ (s'.mPhase = .confirm ∨
      didWork = true ∧ s'.mPhase = .externalize ∧ Justified scp s x) := by
  have hext : ∀ ext, ¬Says scp s (.externalize ext) := by
    intro ext hsay
    have := (h.externalize ext hsay).1
    rw [hphase] at this
    cases this
  have hnot : s.mPhase ≠ .prepare := by simp [hphase]
  cases a with
  | acceptPrepared ballot =>
    cases heff with
    | acceptPrepared _ _ hprep _ =>
      obtain ⟨hbound, hsame⟩ := hprep.bound h.toBound
      exact ⟨hbound, .inl (hsame.trans hphase)⟩
    | clearCommit _ _ _ hprepare => exact absurd hprepare hnot
  | confirmPrepared newC newH => exact absurd (CanConfirmPrepared.active taken) hnot
  | acceptCommit c high =>
    have enabled : s.CanAcceptCommit c high := taken
    cases heff with
    | acceptCommit _ _ b prime heard ha =>
      obtain ⟨h', hh', hv', _⟩ := enabled.raises hphase
      obtain ⟨h'', hh'', hvx⟩ := h.high
      rw [hh'] at hh''
      cases hh''
      have hx : high.value = x := hv'.symm.trans hvx
      refine ⟨⟨⟨c, rfl, enabled.value.trans hx⟩, ⟨high, rfl, hx⟩, ⟨b, rfl, ?_⟩, congrArg some hx⟩, .inl rfl⟩
      rcases ha.current with rfl | hb
      · exact hx
      · obtain ⟨b', hb', hvb⟩ := h.current
        rw [hb] at hb'
        cases hb'
        exact hvb
  | confirmCommit c high =>
    have enabled : s.CanConfirmCommit scp c high := taken
    obtain ⟨c', hc', hv'⟩ := enabled.commit
    obtain ⟨c'', hc'', hvx⟩ := h.commit
    rw [hc'] at hc''
    cases hc''
    have hx : high.value = x := hv'.symm.trans hvx
    have hjust : Justified scp s x := hx ▸ CanConfirmCommit.justified hrec hext enabled
    cases heff with
    | confirmCommit _ _ b heard _ _ hb =>
      refine ⟨⟨⟨c, rfl, enabled.value.trans hx⟩, ⟨high, rfl, hx⟩, ⟨b, rfl, ?_⟩, h.override⟩,
        .inr ⟨rfl, rfl, hjust⟩⟩
      rcases hb with rfl | hb
      · exact hx
      · obtain ⟨b', hb', hvb⟩ := h.current
        rw [hb] at hb'
        cases hb'
        exact hvb
  | bump ballot =>
    obtain ⟨_, ⟨v, hballot⟩, _⟩ := taken
    rw [hballot] at heff
    obtain ⟨hbound, hsame⟩ := h.toBound.bump heff
    exact ⟨hbound, .inl (hsame.trans hphase)⟩

/-! ### Along runs -/

theorem not_taken (hphase : s.mPhase = .externalize) : ¬s.Taken scp a := by
  intro taken
  cases a with
  | acceptPrepared _ => exact CanAcceptPrepared.active taken hphase
  | confirmPrepared _ _ =>
    have := CanConfirmPrepared.active taken
    rw [hphase] at this
    cases this
  | acceptCommit _ _ => exact CanAcceptCommit.active taken hphase
  | confirmCommit _ _ =>
    have := CanConfirmCommit.active taken
    rw [hphase] at this
    cases this
  | bump _ => exact taken.1 hphase

theorem Justified.mono (h : Justified scp s x) (hhist : ∀ st ∈ s.mStatementsHistory, st ∈ s'.mStatementsHistory) :
    Justified scp s' x := by
  obtain ⟨U, hslice, hU⟩ := h
  refine ⟨U, hslice, ?_⟩
  intro u hu
  rcases hU u hu with ⟨con, q, hmem, h⟩ | ⟨hne, ext, hmem, h⟩
  · exact .inl ⟨con, q, hhist _ hmem, h⟩
  · exact .inr ⟨hne, ext, hhist _ hmem, h⟩

theorem Deciding.publish_prepare (hrec : Recorded s) (hphase : s.mPhase = .prepare)
    (hconfirm : ∀ con, ¬Says scp s (.confirm con)) (hext : ∀ ext, ¬Says scp s (.externalize ext))
    (hpub : s.Published scp s') : Deciding scp s' := by
  obtain ⟨st, hst, _, hold⟩ := hpub.history hrec
  obtain ⟨prep, rfl⟩ := statement_prepare hphase hst
  refine .prepare (hpub.registers.2.2.2.2.trans hphase) ?_ ?_
  · intro con hsay
    rcases hold _ hsay with h | h
    · cases h
    · exact hconfirm con h
  · intro ext hsay
    rcases hold _ hsay with h | h
    · cases h
    · exact hext ext h

theorem Deciding.publish_confirm (hrec : Recorded s) (hphase : s.mPhase = .confirm) (hbound : Bound s x)
    (hconfirm : ∀ con, Says scp s (.confirm con) → con.ballot.value = x ∧ con.quorumSetHash = scp.localNode.mQSetHash)
    (hext : ∀ ext, ¬Says scp s (.externalize ext)) (hpub : s.Published scp s') : Deciding scp s' := by
  obtain ⟨st, hst, hmem, hold⟩ := hpub.history hrec
  obtain ⟨con, rfl, hv, hhash⟩ := statement_confirm hphase hbound hst
  refine .confirm x (hpub.registers.2.2.2.2.trans hphase) ⟨hbound.published hpub, ⟨con, hmem, hv, hhash⟩, ?_, ?_⟩
  · intro con' hsay
    rcases hold _ hsay with h | h
    · cases h
      exact ⟨hv, hhash⟩
    · exact hconfirm con' h
  · intro ext hsay
    rcases hold _ hsay with h | h
    · cases h
    · exact absurd h (hext ext)

theorem Deciding.publish_externalize (hrec : Recorded s) (hphase : s.mPhase = .externalize) (hbound : Bound s x)
    (hsaid : SaysConfirm scp s x)
    (hconfirm : ∀ con, Says scp s (.confirm con) → con.ballot.value = x ∧ con.quorumSetHash = scp.localNode.mQSetHash)
    (hext : ∀ ext, ¬Says scp s (.externalize ext)) (hjust : Justified scp s x) (hpub : s.Published scp s') :
    Deciding scp s' := by
  obtain ⟨st, hst, _, hold⟩ := hpub.history hrec
  obtain ⟨ext, rfl, hv⟩ := statement_externalize hphase hbound hst
  have hphase' := hpub.registers.2.2.2.2.trans hphase
  have hgrow : ∀ st ∈ s.mStatementsHistory, st ∈ s'.mStatementsHistory := fun _ => hpub.frame.mem_history
  obtain ⟨con, hcon, hcv⟩ := hsaid
  refine .externalize x hphase' ⟨hbound.published hpub, ⟨con, hgrow _ hcon, hcv⟩, ?_, ?_⟩ (hjust.mono hgrow)
  · intro con' hsay
    rcases hold _ hsay with h | h
    · cases h
    · exact hconfirm con' h
  · intro ext' hsay
    rcases hold _ hsay with h | h
    · cases h
      exact ⟨hphase', hv⟩
    · exact absurd h (hext ext')

theorem Deciding.does (hrec : Recorded s) (h : Deciding scp s) (taken : s.Taken scp a) (hdoes : s.Does scp a s') :
    Deciding scp s' := by
  cases h with
  | prepare hphase hconfirm hext =>
    cases hdoes with
    | quiet _ heff =>
      obtain ⟨_, hhist⟩ := heff.statements
      rcases prepare_effect hphase taken heff with hphase' | ⟨hwork, _⟩
      · exact .prepare hphase' (by simpa [Says, hhist] using hconfirm) (by simpa [Says, hhist] using hext)
      · cases hwork
    | publish s1 _ heff _ hpub =>
      obtain ⟨_, hhist⟩ := heff.statements
      have hconfirm1 : ∀ con, ¬Says scp s1 (.confirm con) := by simpa [Says, hhist] using hconfirm
      have hext1 : ∀ ext, ¬Says scp s1 (.externalize ext) := by simpa [Says, hhist] using hext
      have hrec1 := hrec.effect heff
      rcases prepare_effect hphase taken heff with hphase' | ⟨_, hphase', x, hbound⟩
      · exact publish_prepare hrec1 hphase' hconfirm1 hext1 hpub
      · exact publish_confirm hrec1 hphase' hbound (fun con h => absurd h (hconfirm1 con)) hext1 hpub
  | confirm x hphase h =>
    have hext : ∀ ext, ¬Says scp s (.externalize ext) := by
      intro ext hsay
      have := (h.externalize ext hsay).1
      rw [hphase] at this
      cases this
    cases hdoes with
    | quiet _ heff =>
      obtain ⟨_, hhist⟩ := heff.statements
      obtain ⟨hbound, hphase' | ⟨hwork, _⟩⟩ := confirm_effect hrec hphase h taken heff
      · refine .confirm x hphase' ⟨hbound, ?_, ?_, ?_⟩
        · simpa [SaysConfirm, Says, hhist] using h.said
        · simpa [Says, hhist] using h.confirm
        · intro ext hsay
          rw [Says, hhist] at hsay
          exact absurd hsay (hext ext)
      · cases hwork
    | publish s1 _ heff _ hpub =>
      obtain ⟨_, hhist⟩ := heff.statements
      have hconfirm1 : ∀ con, Says scp s1 (.confirm con) →
          con.ballot.value = x ∧ con.quorumSetHash = scp.localNode.mQSetHash := by
        simpa [Says, hhist] using h.confirm
      have hext1 : ∀ ext, ¬Says scp s1 (.externalize ext) := by simpa [Says, hhist] using hext
      have hrec1 := hrec.effect heff
      obtain ⟨hbound, hphase' | ⟨_, hphase', hjust⟩⟩ := confirm_effect hrec hphase h taken heff
      · exact publish_confirm hrec1 hphase' hbound hconfirm1 hext1 hpub
      · have hsaid1 : SaysConfirm scp s1 x := by simpa [SaysConfirm, Says, hhist] using h.said
        have hjust1 : Justified scp s1 x := hjust.mono fun _ h => hhist ▸ h
        exact publish_externalize hrec1 hphase' hbound hsaid1 hconfirm1 hext1 hjust1 hpub
  | externalize x hphase _ _ => exact absurd taken (not_taken hphase)

theorem Deciding.record_other (h : Deciding scp s) (hother : st.nodeID ≠ scp.localNode.mNodeID) :
    Deciding scp (s.recordEnvelope st) := by
  have hsay : ∀ pledges, Says scp (s.recordEnvelope st) pledges ↔ Says scp s pledges := by
    intro pledges
    have : (⟨scp.localNode.mNodeID, pledges⟩ : SCPStatement) ≠ st := fun he => hother (by rw [← he])
    simp [Says, recordEnvelope, this]
  have hcommitted : ∀ x, Committed scp s x → Committed scp (s.recordEnvelope st) x := by
    intro x h
    refine ⟨⟨h.commit, h.high, h.current, h.override⟩, ?_, ?_, ?_⟩
    · simpa only [SaysConfirm, hsay] using h.said
    · simpa only [hsay] using h.confirm
    · exact fun ext hext => h.externalize ext ((hsay _).mp hext)
  cases h with
  | prepare hphase hconfirm hext =>
    exact .prepare hphase (by simpa only [hsay] using hconfirm) (by simpa only [hsay] using hext)
  | confirm x hphase h => exact .confirm x hphase (hcommitted x h)
  | externalize x hphase h hjust =>
    exact .externalize x hphase (hcommitted x h) (hjust.mono fun _ h => List.mem_append_left _ h)

theorem Deciding.congr (h : Deciding scp s) (heard : Bool) (value : Option Value) :
    Deciding scp { s with mHeardFromQuorum := heard, mLatestCompositeCandidate := value } := by
  have hcommitted : ∀ x, Committed scp s x →
      Committed scp { s with mHeardFromQuorum := heard, mLatestCompositeCandidate := value } x :=
    fun x h => ⟨⟨h.commit, h.high, h.current, h.override⟩, h.said, h.confirm, h.externalize⟩
  cases h with
  | prepare hphase hconfirm hext => exact .prepare hphase hconfirm hext
  | confirm x hphase h => exact .confirm x hphase (hcommitted x h)
  | externalize x hphase h hjust => exact .externalize x hphase (hcommitted x h) hjust

/-- **A node keeps to the value it accepts the commit of**, through every event and move. -/
theorem deciding_invariant :
    Invariant scp (Event.FromOther scp) (fun s => Recorded s ∧ Deciding scp s) where
  happens := by
    rintro s e s' ⟨hrec, h⟩ _ he happens
    cases happens with
    | ignored _ => exact ⟨hrec, h⟩
    | receive st _ => exact ⟨hrec.record st, h.record_other he⟩
    | candidate value => exact ⟨hrec, h.congr s.mHeardFromQuorum value⟩
    | bump _ ballot _ hb hdoes => exact ⟨hrec.does hdoes, h.does hrec (Event.taken_of_bumps hb) hdoes⟩
  move := by
    rintro s s' ⟨hrec, h⟩ _ hmove
    cases hmove with
    | act a _ enabled hdoes => exact ⟨hrec.does hdoes, h.does hrec enabled.taken hdoes⟩
    | heard heard => exact ⟨hrec, h.congr heard s.mLatestCompositeCandidate⟩

theorem fresh_deciding : Recorded (fresh scp).toCore ∧ Deciding scp (fresh scp).toCore :=
  ⟨by simp [Recorded, fresh], .prepare rfl (by simp [Says, fresh]) (by simp [Says, fresh])⟩

end Diamnet.Scp.Core
