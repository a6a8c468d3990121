import Diamnet.Scp.Commitment

/-! The registers of the ballot protocol in every reachable state.

`Checked` is what `checkInvariants` asserts. Beyond it, while a node is in PREPARE
(`Ordered`): h is never above p, and once c is set h is not aborted by p or p'. So
p carries h's value, and the ballots a statement votes to commit can be aborted
only by p', which then lies below h. -/
open Diamnet.Scp.BallotProtocol

namespace Diamnet.Scp.Core
open Option SCPBallot
variable {scp : SCP}

/-- What `checkInvariants` asserts. -/
structure Checked (s : Core) : Prop where
  current : ∀ b, s.mCurrentBallot = some b → b.counter ≠ 0
  prime : ∀ p p', s.mPrepared = some p → s.mPreparedPrime = some p' → p' ≤ p ∧ p'.value ≠ p.value
  high : ∀ h, s.mHighBallot = some h → ∃ b, s.mCurrentBallot = some b ∧ h ≤ b ∧ h.value = b.value
  commit : ∀ c, s.mCommit = some c → ∃ h, s.mHighBallot = some h ∧ c ≤ h ∧ c.value = h.value
  phase : s.mPhase ≠ .prepare → s.mCommit.isSome

theorem checkInvariants_iff (s : Core) : s.checkInvariants = true ↔ s.Checked := by
  unfold checkInvariants
  constructor
  · intro h
    simp only [Bool.and_eq_true] at h
    obtain ⟨⟨⟨⟨hcurrent, hprime⟩, hhigh⟩, hcommit⟩, hphase⟩ := h
    constructor
    · intro b hb
      simpa [hb] using hcurrent
    · intro p p' hp hp'
      simpa [hp, hp'] using hprime
    · intro h hh
      simpa [hh, any_eq_true] using hhigh
    · intro c hc
      simp only [hc, any_eq_true, Bool.and_eq_true, lessAndCompatible_iff] at hcommit
      obtain ⟨h, hh, hle, _⟩ := hcommit
      exact ⟨h, hh, hle⟩
    · intro hne
      cases hp : s.mPhase <;> simp_all
  · intro h
    simp only [Bool.and_eq_true]
    refine ⟨⟨⟨⟨?_, ?_⟩, ?_⟩, ?_⟩, ?_⟩
    · cases hb : s.mCurrentBallot with
      | none => rfl
      | some b => simpa using h.current b hb
    · split
      · next p p' hp hp' => exact lessAndIncompatible_iff.mpr (h.prime p p' hp hp')
      · rfl
    · split
      · next high hh =>
        obtain ⟨b, hb, hle⟩ := h.high high hh
        simpa [hb] using hle
      · rfl
    · split
      · next c hc =>
        obtain ⟨high, hh, hle⟩ := h.commit c hc
        obtain ⟨b, hb, hleb⟩ := h.high high hh
        simpa [hh, hb, hle] using hleb
      · rfl
    · split
      · rfl
      · next hp => exact h.phase (by simp [hp])
      · next hp =>
        have hc := h.phase (by simp [hp])
        obtain ⟨c, hc'⟩ := isSome_iff_exists.mp hc
        obtain ⟨high, hh, _⟩ := h.commit c hc'
        simp [hc', hh]

/-- c is a real ballot; in PREPARE h is not above p, nor aborted while c is set. -/
structure Ordered (s : Core) : Prop where
  counter : ∀ c, s.mCommit = some c → c.counter ≠ 0
  high : s.mPhase = .prepare → ∀ h, s.mHighBallot = some h → ∃ p, s.mPrepared = some p ∧ h ≤ p
  clear : s.mPhase = .prepare → s.mCommit.isSome → ∀ h, s.mHighBallot = some h → ¬s.aborted h

variable {s s' : Core}

theorem aborted_mono {a b : SCPBallot} (hle : a ≤ b) (hv : a.value = b.value) (h : s.aborted b) : s.aborted a := by
  rcases h with ⟨p, hp, hlep, hne⟩ | ⟨p', hp', hlep, hne⟩
  · exact .inl ⟨p, hp, hle.trans hlep, hv ▸ hne⟩
  · exact .inr ⟨p', hp', hle.trans hlep, hv ▸ hne⟩

theorem Ordered.movedTo {ballot : SCPBallot} (h : s.Ordered) (hmoved : s.MovedTo ballot s') : s'.Ordered := by
  cases hmoved with
  | keeps heard _ => exact ⟨h.counter, h.high, h.clear⟩
  | drops heard _ _ _ => exact ⟨by simp, by simp, by simp⟩

theorem Ordered.acceptPrepared {s1 : Core} {ballot : SCPBallot} (h : s.Ordered) (hprep : s.Prepares ballot s1)
    (hkeep : s.mCommit.isSome → ∀ h, s.mHighBallot = some h → ¬s1.aborted h) : s1.Ordered := by
  obtain ⟨hc, hh, hph⟩ : s1.mCommit = s.mCommit ∧ s1.mHighBallot = s.mHighBallot ∧
      s1.mPhase = s.mPhase := by
    cases hprep <;> exact ⟨rfl, rfl, rfl⟩
  constructor
  · rw [hc]
    exact h.counter
  · intro hphase high hhigh
    rw [hh] at hhigh
    obtain ⟨p, hp, hle⟩ := h.high (hph.symm.trans hphase) high hhigh
    obtain ⟨q, hq, hpq⟩ := hprep.le_prepared.1 p hp
    exact ⟨q, hq, hle.trans hpq⟩
  · rw [hc, hh]
    exact fun _ => hkeep

/-- With c set, h below newH and newH on the current ballot's value, newH is aborted
only if h is. -/
theorem aborted_of_raised {h newH : SCPBallot} (hcheck : s.Checked) (hh : s.mHighBallot = some h) (hlt : h < newH)
    (hv : ∀ b, s.mCurrentBallot = some b → b.value = newH.value) (ha : s.aborted newH) : s.aborted h := by
  obtain ⟨b, hb, _, hvb⟩ := hcheck.high h hh
  exact aborted_mono hlt.le (hvb.trans (hv b hb)) ha

theorem Ordered.confirmPrepared {newC newH : SCPBallot} {didWork : Bool} (h : s.Ordered) (hcheck : s.Checked)
    (hcan : s.CanConfirmPrepared scp newC newH) (heff : s.ConfirmsPrepared newC newH didWork s') : s'.Ordered := by
  cases heff with
  | high b heard hv hle hmono hb =>
    constructor
    · intro c hc
      split at hc
      · next hne =>
        cases hc
        exact hne
      · exact h.counter c hc
    · intro _ high hhigh
      cases hhigh
      exact hcan.prepared
    · intro _ hsome high hhigh
      cases hhigh
      split at hsome
      · next hne =>
        rcases hcan.commit with hdefault | hcommit
        · exact absurd (by rw [hdefault]; rfl) hne
        · exact ((mayCommit_iff s newH).mp hcommit.may).2
      · obtain ⟨c, hc⟩ := isSome_iff_exists.mp hsome
        obtain ⟨high, hhigh, _⟩ := hcheck.commit c hc
        intro ha
        exact h.clear hcan.active hsome high hhigh
          (aborted_of_raised hcheck hhigh (hcan.raises high hhigh) hv ha)
  | switch b _ _ _ _ hmoved =>
    have hover : ({ s with mValueOverride := some newH.value } : Core).Ordered :=
      ⟨h.counter, h.high, h.clear⟩
    exact hover.movedTo hmoved
  | stay b _ _ _ => exact ⟨h.counter, h.high, h.clear⟩

variable {a : Action}

theorem Ordered.effect {didWork : Bool} (h : s.Ordered) (hcheck : s.Checked) (taken : s.Taken scp a)
    (heff : s.Effect a didWork s') : s'.Ordered := by
  cases heff with
  | acceptPrepared ballot _ hprep hkeep => exact h.acceptPrepared hprep hkeep
  | clearCommit ballot s1 hprep _ =>
    obtain ⟨hh, hph⟩ : s1.mHighBallot = s.mHighBallot ∧ s1.mPhase = s.mPhase := by
      cases hprep <;> exact ⟨rfl, rfl⟩
    refine ⟨by simp, ?_, by simp⟩
    intro hphase high hhigh
    obtain ⟨p, hp, hle⟩ := h.high (hph.symm.trans hphase) high (hh.symm.trans hhigh)
    obtain ⟨q, hq, hpq⟩ := hprep.le_prepared.1 p hp
    exact ⟨q, hq, hle.trans hpq⟩
  | confirmPrepared newC newH _ _ heff => exact h.confirmPrepared hcheck taken heff
  | acceptCommit c high b prime heard _ =>
    refine ⟨?_, by simp, by simp⟩
    intro c' hc'
    cases hc'
    exact CanAcceptCommit.counter taken
  | confirmCommit c high b heard _ _ _ =>
    refine ⟨?_, by simp, by simp⟩
    intro c' hc'
    cases hc'
    exact CanConfirmCommit.counter taken
  | bump ballot _ hmoves => exact h.movedTo hmoves.moved
  | stay ballot => exact h

theorem Checked.quiet (h : s.Checked) (heff : s.Effect a false s') : s'.Checked := by
  cases heff with
  | confirmPrepared _ _ _ _ heff =>
    cases heff with
    | stay b _ _ _ => exact ⟨h.current, h.prime, h.high, h.commit, h.phase⟩
  | stay ballot => exact h

theorem Published.checked (hpub : s.Published scp s') (h : s.Checked) : s'.Checked := by
  cases hpub with
  | again _ _ _ => exact h
  | record st _ _ => exact ⟨h.current, h.prime, h.high, h.commit, h.phase⟩

theorem Published.ordered (hpub : s.Published scp s') (h : s.Ordered) : s'.Ordered := by
  cases hpub with
  | again _ _ _ => exact h
  | record st _ _ => exact ⟨h.counter, h.high, h.clear⟩

theorem Ordered.does (h : s.Ordered) (hcheck : s.Checked) (taken : s.Taken scp a) (hdoes : s.Does scp a s') :
    s'.Checked ∧ s'.Ordered := by
  cases hdoes with
  | quiet _ heff => exact ⟨hcheck.quiet heff, h.effect hcheck taken heff⟩
  | publish s1 _ heff hinv hpub =>
    exact ⟨hpub.checked ((checkInvariants_iff s1).mp hinv), hpub.ordered (h.effect hcheck taken heff)⟩

theorem ordered_invariant :
    Invariant scp (Event.FromOther scp) (fun s => s.Checked ∧ s.Ordered) where
  happens := by
    intro s e s' h _ _ happens
    obtain ⟨hcheck, h⟩ := h
    cases happens with
    | ignored _ => exact ⟨hcheck, h⟩
    | receive st _ | candidate value =>
      exact ⟨⟨hcheck.current, hcheck.prime, hcheck.high, hcheck.commit, hcheck.phase⟩,
        h.counter, h.high, h.clear⟩
    | bump _ ballot _ hb hdoes => exact h.does hcheck (Event.taken_of_bumps hb) hdoes
  move := by
    intro s s' h _ hmove
    obtain ⟨hcheck, h⟩ := h
    cases hmove with
    | act a _ enabled hdoes => exact h.does hcheck enabled.taken hdoes
    | heard heard =>
      exact ⟨⟨hcheck.current, hcheck.prime, hcheck.high, hcheck.commit, hcheck.phase⟩,
        h.counter, h.high, h.clear⟩

theorem fresh_ordered : (fresh scp).Checked ∧ (fresh scp).Ordered :=
  ⟨⟨by simp [fresh], by simp [fresh], by simp [fresh], by simp [fresh], by simp [fresh]⟩,
    by simp [fresh], by simp [fresh], by simp [fresh]⟩

/-! ### Statements -/

variable {st : SCPStatement}

theorem pledgesSane_prepare (hcheck : s.Checked) (h : s.Ordered) (hphase : s.mPhase = .prepare)
    (hst : s.statement scp = some st) : arePledgesSane st.pledges true = true := by
  simp only [statement, hphase] at hst
  cases hst
  simp only [arePledgesSane, Bool.true_or, Bool.true_and, Bool.and_eq_true]
  refine ⟨⟨?_, ?_⟩, ?_⟩
  · split
    · next p' p hp' hp => exact lessAndIncompatible_iff.mpr (hcheck.prime p p' hp hp')
    · rfl
  · cases hh : s.mHighBallot with
    | none => simp
    | some high =>
      obtain ⟨p, hp, hle⟩ := h.high hphase high hh
      simp [hp, SCPBallot.counter_le hle]
  · cases hc : s.mCommit with
    | none => simp
    | some c =>
      obtain ⟨high, hh, hle, _⟩ := hcheck.commit c hc
      obtain ⟨b, hb, hleb, _⟩ := hcheck.high high hh
      have hne := h.counter c hc
      have hch := counter_le hle
      have hhne : high.counter ≠ 0 := uint32_ne_zero_of_lt (lt_of_lt_of_le (uint32_pos hne) hch)
      simp [hh, hb, hhne, hch, counter_le hleb]

theorem pledgesSane_confirm (hcheck : s.Checked) (hphase : s.mPhase = .confirm) (hst : s.statement scp = some st) :
    arePledgesSane st.pledges true = true := by
  simp only [statement, hphase] at hst
  split at hst
  · next b p c high hb hp hc hh =>
    cases hst
    obtain ⟨h', hh', hle, _⟩ := hcheck.commit c hc
    rw [hh] at hh'
    cases hh'
    obtain ⟨b', hb', hleb, _⟩ := hcheck.high high hh
    rw [hb] at hb'
    cases hb'
    simp [arePledgesSane, uint32_pos (hcheck.current b hb), counter_le hle,
      counter_le hleb]
  · cases hst

theorem pledgesSane_externalize (hcheck : s.Checked) (h : s.Ordered) (hphase : s.mPhase = .externalize)
    (hst : s.statement scp = some st) : arePledgesSane st.pledges true = true := by
  simp only [statement, hphase] at hst
  split at hst
  · next c high hc hh =>
    cases hst
    obtain ⟨h', hh', hle, _⟩ := hcheck.commit c hc
    rw [hh] at hh'
    cases hh'
    simp [arePledgesSane, uint32_pos (h.counter c hc), counter_le hle]
  · cases hst

/-- The driver serves the node its own quorum set, a sane one. -/
def KnowsItself (scp : SCP) : Prop :=
  scp.driver.getQSet scp.localNode.mQSetHash = some scp.localNode.mQSet ∧
    isQuorumSetSane scp.localNode.mQSet false = true

theorem getQuorumSet_of_statement (hknows : KnowsItself scp) (hst : s.statement scp = some st) :
    (getQuorumSetFromStatement scp st).any (isQuorumSetSane · false) = true := by
  cases hphase : s.mPhase with
  | prepare =>
    simp only [statement, hphase] at hst
    cases hst
    simp [getQuorumSetFromStatement, hknows.1, hknows.2]
  | confirm =>
    simp only [statement, hphase] at hst
    split at hst
    · cases hst
      simp [getQuorumSetFromStatement, hknows.1, hknows.2]
    · cases hst
  | externalize =>
    simp only [statement, hphase] at hst
    split at hst
    · cases hst
      rfl
    · cases hst

theorem statement_sane (hknows : KnowsItself scp) (hcheck : s.Checked) (h : s.Ordered)
    (hst : s.statement scp = some st) : isStatementSane scp st true = true := by
  rw [isStatementSane, Bool.and_eq_true]
  refine ⟨getQuorumSet_of_statement hknows hst, ?_⟩
  cases hphase : s.mPhase with
  | prepare => exact pledgesSane_prepare hcheck h hphase hst
  | confirm => exact pledgesSane_confirm hcheck hphase hst
  | externalize => exact pledgesSane_externalize hcheck h hphase hst

/-! ### Votes to commit -/

/-- Of the ballots the statement votes to commit, its p aborts none, and its p' only
some below a p' that is itself below h. -/
def VotesClear (prep : SCPPrepare) : Prop :=
  ∀ n ballot, votesCommit ballot ⟨ballot.counter, ballot.counter⟩ ⟨n, .prepare prep⟩ = true →
    (∀ p, prep.prepared = some p → ballot ≤ p → p.value = ballot.value) ∧
      ∀ p', prep.preparedPrime = some p' → ballot ≤ p' → p'.value ≠ ballot.value →
        p' < ⟨prep.nH, prep.ballot.value⟩

theorem statement_votesClear (hcheck : s.Checked) (h : s.Ordered) {n : NodeID} {prep : SCPPrepare}
    (hst : s.statement scp = some ⟨n, .prepare prep⟩) : VotesClear prep := by
  have hphase : s.mPhase = .prepare := by
    unfold statement at hst
    split at hst
    · assumption
    · split at hst <;> cases hst
    · split at hst <;> cases hst
  simp only [statement, hphase] at hst
  cases hst
  intro _ ballot hvote
  simp only [votesCommit, Bool.and_eq_true, compatible_iff, decide_eq_true_eq] at hvote
  obtain ⟨⟨hv, hne⟩, _, hlow⟩ := hvote
  obtain ⟨c, hc⟩ : ∃ c, s.mCommit = some c := by
    cases hc : s.mCommit with
    | none => simp [hc] at hne
    | some c => exact ⟨c, rfl⟩
  obtain ⟨high, hh, _, _⟩ := hcheck.commit c hc
  obtain ⟨b, hb, _, hvb⟩ := hcheck.high high hh
  simp only [hh, hb, map_some, getD_some] at hv hlow ⊢
  have hclear := h.clear hphase (by simp [hc]) high hh
  have hvh : ballot.value = high.value := hv.trans hvb.symm
  constructor
  · intro p hp _
    obtain ⟨q, hq, hle⟩ := h.high hphase high hh
    rw [hp] at hq
    cases hq
    by_contra hne
    exact hclear (.inl ⟨p, hp, hle, fun he => hne (he.symm.trans hvh.symm)⟩)
  · intro p' hp' _ hne
    have hlt : p' < high := by
      by_contra hle
      exact hclear (.inr ⟨p', hp', not_lt.mp hle, fun he => hne (he.symm.trans hvh.symm)⟩)
    rwa [← hvb]

variable (scp) in
def Voting (s : Core) : Prop :=
  ∀ prep, Says scp s (.prepare prep) →
    isStatementSane scp ⟨scp.localNode.mNodeID, .prepare prep⟩ true = true ∧ VotesClear prep

theorem Voting.published (h : s.Voting scp) (hcheck : s.Checked) (hord : s.Ordered) (hpub : s.Published scp s') :
    s'.Voting scp := by
  cases hpub with
  | again _ _ _ => exact h
  | record st hst hadmits =>
    intro prep hsay
    rcases List.mem_append.mp hsay with hmem | hmem
    · exact h prep hmem
    · have hst' := List.mem_singleton.mp hmem
      subst hst'
      simp only [admits, Bool.and_eq_true] at hadmits
      exact ⟨hadmits.1.1, statement_votesClear hcheck hord hst⟩

theorem Voting.does (h : s.Voting scp) (hcheck : s.Checked) (hord : s.Ordered) (taken : s.Taken scp a)
    (hdoes : s.Does scp a s') : s'.Voting scp := by
  cases hdoes with
  | quiet _ heff =>
    intro prep hsay
    rw [Says, heff.statements.2] at hsay
    exact h prep hsay
  | publish s1 _ heff hinv hpub =>
    have h1 : s1.Voting scp := by
      intro prep hsay
      rw [Says, heff.statements.2] at hsay
      exact h prep hsay
    exact h1.published ((checkInvariants_iff s1).mp hinv) (hord.effect hcheck taken heff) hpub

/-- **The registers stay in order**, and with them what the node has voted for. -/
theorem voting_invariant :
    Invariant scp (Event.FromOther scp) (fun s => (s.Checked ∧ s.Ordered) ∧ s.Voting scp) where
  happens := by
    intro s e s' h hs he happens
    obtain ⟨⟨hcheck, hord⟩, h⟩ := h
    refine ⟨ordered_invariant.happens s e s' ⟨hcheck, hord⟩ hs he happens, ?_⟩
    cases happens with
    | ignored _ => exact h
    | receive st _ =>
      intro prep hsay
      rcases List.mem_append.mp hsay with hmem | hmem
      · exact h prep hmem
      · exact absurd (congrArg SCPStatement.nodeID (List.mem_singleton.mp hmem)).symm he
    | candidate value => exact h
    | bump _ ballot _ hb hdoes => exact h.does hcheck hord (Event.taken_of_bumps hb) hdoes
  move := by
    intro s s' h hs hmove
    obtain ⟨⟨hcheck, hord⟩, h⟩ := h
    refine ⟨ordered_invariant.move s s' ⟨hcheck, hord⟩ hs hmove, ?_⟩
    cases hmove with
    | act a _ enabled hdoes => exact h.does hcheck hord enabled.taken hdoes
    | heard heard => exact h

theorem fresh_voting : (fresh scp).Voting scp := by
  intro prep hsay
  simp [Says, fresh] at hsay

end Diamnet.Scp.Core
