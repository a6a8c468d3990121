import Diamnet.Scp.BumpLoop
import Diamnet.Scp.SelfStatements

/-! The ballots a node bumps to: when its timer expires, and after a restart.

`bumpState` takes the counter after the current one, in 32 bits, and the value last
confirmed prepared or accepted as commit if there is one (`mValueOverride`). The
counter comes from other nodes' statements and may be the largest one; and the value
is not part of the statement a node is restored from; `recovers_iff` says when that matters. -/
open Diamnet.Scp.Core Diamnet.Scp.BallotProtocol

namespace Diamnet.Scp
open Option SCPBallot
variable {scp : SCP}

/-! ### The timer -/

namespace Core

variable {s : Core}

theorem lt_nextCounter {b : SCPBallot} (hb : s.mCurrentBallot = some b) (hmax : b.counter ≠ UINT32_MAX) :
    b.counter < s.nextCounter := by
  rw [nextCounter, hb]
  exact uint32_lt_succ hmax

theorem CanBump.lt {ballot b : SCPBallot} (hcan : s.CanBump ballot) (hb : s.mCurrentBallot = some b) :
    b < ballot := by
  apply lt_of_counter
  simpa [hb] using hcan.ahead

/-- The assertion of `updateCurrentValue` fails only at a bump to a lower ballot. -/
theorem lower_of_fault {a : Action} (h : s.ActFault scp a (.dbgAssert .updateCurrentValue)) :
    ∃ ballot b, a = .bump ballot ∧ s.mCurrentBallot = some b ∧ ballot < b := by
  cases h with
  | update _ hupdate =>
    cases hupdate with
    | bumpLower ballot b hb hlt => exact ⟨ballot, b, rfl, hb, hlt⟩
  | publish s1 _ _ hpublish => cases hpublish

theorem not_faulty_updateCurrentValue : ¬Faulty scp s (.dbgAssert .updateCurrentValue) := by
  intro h
  cases h with
  | act s' a _ _ enabled hact =>
    obtain ⟨ballot, b, rfl, hb, hlt⟩ := lower_of_fault hact
    exact absurd (CanBump.lt enabled hb) hlt.not_gt

end Core

namespace BallotProtocol

theorem bumps_timerExpired {s : Core} (hphase : s.mPhase ≠ .externalize) :
    Event.bumps s .timerExpired = s.abandonValue.map fun v => s.bumpBallot v s.nextCounter := by
  simp only [Event.bumps, if_neg hphase]

theorem le_bumps {s : Core} {ballot b : SCPBallot} (hphase : s.mPhase ≠ .externalize)
    (h : Event.bumps s .timerExpired = some ballot) (hb : s.mCurrentBallot = some b)
    (hmax : b.counter ≠ UINT32_MAX) : b < ballot := by
  rw [bumps_timerExpired hphase] at h
  obtain ⟨v, _, rfl⟩ := map_eq_some_iff.mp h
  exact lt_of_counter (lt_nextCounter hb hmax)

/-- **The timer's bump goes up unless the counter is the last one.** -/
theorem timerExpired_iff {events : List Event} (hother : ∀ e ∈ events, e.FromOther scp)
    {s : BallotProtocol} (hrun : run scp (fresh scp) events = .ok s)
    (hphase : s.mPhase ≠ .externalize) :
    ((∀ ballot b, Event.bumps s.toCore .timerExpired = some ballot → s.mCurrentBallot = some b →
        b ≤ ballot) ∧
      handle scp s .timerExpired ≠ .error (.dbgAssert .updateCurrentValue)) ↔
    (s.abandonValue = none ∨ ∀ b, s.mCurrentBallot = some b → b.counter ≠ UINT32_MAX) := by
  have hsound : s.Sound scp := by
    have hfresh : (fresh scp).Sound scp := fresh_sound
    exact ((run_meets increasing_invariant (fun _ h => h) events hother hfresh
      fresh_increasing).of_ok hrun).1
  constructor
  · intro h
    by_contra hcon
    rw [not_or, not_forall] at hcon
    obtain ⟨hsome, b, hlast⟩ := hcon
    rw [Classical.not_imp, not_not] at hlast
    obtain ⟨hb, hmax⟩ := hlast
    obtain ⟨v, hv⟩ := ne_none_iff_exists'.mp hsome
    have hbumps : Event.bumps s.toCore .timerExpired = some (s.bumpBallot v s.nextCounter) := by
      rw [bumps_timerExpired hphase, hv]
      rfl
    have hwraps : s.nextCounter = 0 := by
      rw [nextCounter, hb]
      show b.counter + 1 = 0
      rw [hmax]
      decide
    have hle : b.counter ≤ s.nextCounter := counter_le (h.1 _ b hbumps hb)
    rw [hmax, hwraps] at hle
    exact absurd hle (by decide)
  · intro h
    have hup : ∀ ballot b, Event.bumps s.toCore .timerExpired = some ballot →
        s.mCurrentBallot = some b → b < ballot := by
      intro ballot b hballot hb
      rcases h with hnone | hmax
      · rw [bumps_timerExpired hphase, hnone] at hballot
        cases hballot
      · exact le_bumps hphase hballot hb (hmax b hb)
    refine ⟨fun ballot b hballot hb => (hup ballot b hballot hb).le, ?_⟩
    intro hfault
    have hwhere := (handle_meets (e := .timerExpired) hsound trivial).of_error hfault
    cases hwhere with
    | bump ballot _ hballot hact =>
      obtain ⟨_, b, ha, hb, hlt⟩ := lower_of_fault hact
      cases ha
      exact absurd (hup ballot b hballot hb) hlt.not_gt
    | moves s1 _ _ hfaulty => exact not_faulty_updateCurrentValue hfaulty

/-- Node 7 says it has prepared the last ballot of x: the node follows, sets its timer,
and fails the assertion when it expires. -/
theorem timerExpired_wraps : ∃ s, run listener (fresh listener)
      [heardPrepare ⟨UINT32_MAX, [1]⟩ (some ⟨UINT32_MAX, [1]⟩) none] = .ok s ∧
    s.mPhase = .prepare ∧ s.timer = true ∧ s.mCurrentBallot = some ⟨UINT32_MAX, [1]⟩ ∧
    Event.bumps s.toCore .timerExpired = some ⟨0, [1]⟩ ∧
    handle listener s .timerExpired = .error (.dbgAssert .updateCurrentValue) := by
  obtain ⟨s, hrun, hphase, htimer, hb, hbumps, hfault⟩ := Meets.exists_ok
    (r := run listener (fresh listener) [heardPrepare ⟨UINT32_MAX, [1]⟩ (some ⟨UINT32_MAX, [1]⟩) none])
    (Q := fun s => s.mPhase = .prepare ∧ s.timer = true ∧ s.mCurrentBallot = some ⟨UINT32_MAX, [1]⟩ ∧
      Event.bumps s.toCore .timerExpired = some ⟨0, [1]⟩ ∧
      Meets (handle listener s .timerExpired) (fun _ => False) (· = .dbgAssert .updateCurrentValue))
    (by decide +kernel)
  exact ⟨s, hrun, hphase, htimer, hb, hbumps, hfault.eq_error⟩

theorem timerExpired_iff_listener : ∃ s, run listener (fresh listener) abortBelow = .ok s ∧
    s.mPhase = .prepare ∧ handle listener s .timerExpired ≠ .error (.dbgAssert .updateCurrentValue) := by
  obtain ⟨s, hrun, hphase, hb⟩ := Meets.exists_ok (r := run listener (fresh listener) abortBelow)
    (Q := fun s => s.mPhase = .prepare ∧ s.mCurrentBallot = some ⟨3, [1]⟩) (by decide +kernel)
  have hiff := timerExpired_iff (by decide) hrun (by simp [hphase])
  refine ⟨s, hrun, hphase, (hiff.mpr (.inr ?_)).2⟩
  intro b hb'
  rw [hb] at hb'
  cases hb'
  decide

end BallotProtocol

/-! ### After a restart -/

namespace Core

/-- Once a commit is accepted p is set and p' is gone. -/
def Settled (s : Core) : Prop := s.mPhase ≠ .prepare → s.mPrepared.isSome ∧ s.mPreparedPrime = none

theorem Effect.prime_of_confirm {s s1 : Core} {a : Action} {didWork : Bool} (h : s.Settled)
    (taken : s.Taken scp a) (heff : s.Effect a didWork s1) (hphase1 : s1.mPhase ≠ .prepare) :
    s1.mPreparedPrime = none := by
  cases heff with
  | acceptPrepared ballot _ hprep _ =>
    have hcan : s.CanAcceptPrepared scp ballot := taken
    have hphase : s.mPhase ≠ .prepare := by cases hprep <;> exact hphase1
    have hconfirm : s.mPhase = .confirm := by
      cases hp : s.mPhase with
      | prepare => exact absurd hp hphase
      | confirm => rfl
      | externalize => exact absurd hp hcan.active
    obtain ⟨p, _, hp, _, hle, hv, _⟩ := (skipsPrepared_ok hcan.kept).2 hconfirm
    cases hprep with
    | first | raise => exact (h hphase).2
    | switch q hq _ hne =>
      rw [hp] at hq
      cases hq
      exact absurd hv hne
    | prime q hq hlt _ _ =>
      rw [hp] at hq
      cases hq
      exact absurd hle hlt.not_ge
  | clearCommit ballot s2 hprep hphase => cases hprep <;> exact absurd hphase hphase1
  | confirmPrepared newC newH _ _ heff =>
    have hphase := CanConfirmPrepared.active taken
    cases heff with
    | high | stay => exact absurd hphase hphase1
    | switch _ _ _ _ _ hmoved => cases hmoved <;> exact absurd hphase hphase1
  | acceptCommit c high b prime heard ha =>
    by_cases hphase : s.mPhase = .prepare
    · exact (ha.prepare hphase).1
    · exact (ha.confirm hphase).1.trans (h hphase).2
  | confirmCommit =>
    have hphase := CanConfirmCommit.active taken
    exact (h (by simp [hphase])).2
  | bump _ _ hmoves => cases hmoves.moved <;> exact (h hphase1).2
  | stay => exact (h hphase1).2

theorem Settled.does {s s' : Core} {a : Action} (h : s.Settled) (taken : s.Taken scp a)
    (hdoes : s.Does scp a s') : s'.Settled := by
  intro hphase'
  cases hdoes with
  | quiet _ heff =>
    refine ⟨?_, heff.prime_of_confirm h taken hphase'⟩
    cases heff with
    | confirmPrepared _ _ _ _ heff =>
      cases heff with
      | stay => exact absurd (CanConfirmPrepared.active taken) hphase'
    | stay => exact (h hphase').1
  | publish s1 _ heff _ hpub =>
    obtain ⟨hp, hp', hphase⟩ : s'.mPrepared = s1.mPrepared ∧ s'.mPreparedPrime = s1.mPreparedPrime ∧
        s'.mPhase = s1.mPhase := by
      cases hpub <;> exact ⟨rfl, rfl, rfl⟩
    have hphase1 : s1.mPhase ≠ .prepare := hphase ▸ hphase'
    rw [hp, hp']
    refine ⟨?_, heff.prime_of_confirm h taken hphase1⟩
    obtain ⟨st, hst⟩ : ∃ st, s1.statement scp = some st := by
      cases hpub with
      | again st hst _ | record st hst _ => exact ⟨st, hst⟩
    cases hp1 : s1.mPhase with
    | prepare => exact absurd hp1 hphase1
    | confirm =>
      obtain ⟨_, p, _, _, _, hp, _⟩ := statement_of_confirm hp1 hst
      simp [hp]
    | externalize =>
      have hframe : Frame scp s s1 := heff.frame
      have hsome : s.mPrepared.isSome := by
        refine (h ?_).1
        intro hphase
        rcases prepare_effect hphase taken heff with hp | ⟨_, hp, _⟩
        · exact hphase1 hp
        · rw [hp] at hp1
          cases hp1
      obtain ⟨p, hp⟩ := isSome_iff_exists.mp hsome
      obtain ⟨q, hq, _⟩ := hframe.prepared p hp
      simp [hq]

theorem settled_invariant :
    Invariant scp (Event.FromOther scp) (fun s => (s.Checked ∧ s.Ordered) ∧ s.Settled) where
  happens := by
    intro s e s' h hs he happens
    refine ⟨ordered_invariant.happens s e s' h.1 hs he happens, ?_⟩
    cases happens with
    | ignored _ => exact h.2
    | receive | candidate => exact h.2
    | bump _ ballot _ hb hdoes => exact h.2.does (Event.taken_of_bumps hb) hdoes
  move := by
    intro s s' h hs hmove
    refine ⟨ordered_invariant.move s s' h.1 hs hmove, ?_⟩
    cases hmove with
    | act a _ enabled hdoes => exact h.2.does enabled.taken hdoes
    | heard heard => exact h.2

theorem fresh_settled : (fresh scp).Settled := by
  simp [Settled, fresh]

/-- The registers a statement is made of. -/
structure SameRegisters (s r : Core) : Prop where
  phase : r.mPhase = s.mPhase
  current : r.mCurrentBallot = s.mCurrentBallot
  prepared : r.mPrepared = s.mPrepared
  prime : r.mPreparedPrime = s.mPreparedPrime
  high : r.mHighBallot = s.mHighBallot
  commit : r.mCommit = s.mCommit

theorem Checked.withCandidate {s : Core} (h : s.Checked) (candidate : Option Value) :
    ({ s with mLatestCompositeCandidate := candidate } : Core).Checked :=
  ⟨h.current, h.prime, h.high, h.commit, h.phase⟩

theorem SameRegisters.checked {s r : Core} (h : s.SameRegisters r) (hs : s.Checked) : r.Checked := by
  obtain ⟨hphase, hb, hp, hp', hh, hc⟩ := h
  exact ⟨hb ▸ hs.current, hp ▸ hp' ▸ hs.prime, hb ▸ hh ▸ hs.high, hh ▸ hc ▸ hs.commit, hphase ▸ hc ▸ hs.phase⟩

/-- What a statement cannot say: an h without a counter, and a p of another value in
CONFIRM. -/
structure Restorable (s : Core) : Prop where
  high : ∀ h, s.mHighBallot = some h → h.counter ≠ 0
  prepared : s.mPhase = .confirm → ∀ p b, s.mPrepared = some p → s.mCurrentBallot = some b →
    p.value = b.value

end Core

namespace BallotProtocol

theorem setStateFromEnvelope_prepare (scp : SCP) (n : NodeID) (prep : SCPPrepare) :
    ∃ r, setStateFromEnvelope (fresh scp) ⟨n, .prepare prep⟩ = .ok r ∧ r.mPhase = .prepare ∧
      r.mCurrentBallot = some prep.ballot ∧ r.mPrepared = prep.prepared ∧
      r.mPreparedPrime = prep.preparedPrime ∧
      r.mHighBallot = (if prep.nH ≠ 0 then some ⟨prep.nH, prep.ballot.value⟩ else none) ∧
      r.mCommit = (if prep.nC ≠ 0 then some ⟨prep.nC, prep.ballot.value⟩ else none) ∧
      r.mValueOverride = none := by
  refine ⟨_, rfl, rfl, rfl, ?_, ?_, rfl, rfl, rfl⟩
  · exact or_none
  · exact or_none

theorem setStateFromEnvelope_confirm (scp : SCP) (n : NodeID) (c : SCPConfirm) :
    ∃ r, setStateFromEnvelope (fresh scp) ⟨n, .confirm c⟩ = .ok r ∧ r.mPhase = .confirm ∧
      r.mCurrentBallot = some c.ballot ∧ r.mPrepared = some ⟨c.nPrepared, c.ballot.value⟩ ∧
      r.mPreparedPrime = none ∧ r.mHighBallot = some ⟨c.nH, c.ballot.value⟩ ∧
      r.mCommit = some ⟨c.nCommit, c.ballot.value⟩ ∧ r.mValueOverride = none :=
  ⟨_, rfl, rfl, rfl, rfl, rfl, rfl, rfl, rfl⟩

variable {s : Core}

theorem createStatement_of_checked {st : SCPStatement} (hcheck : s.Checked) (hst : s.statement scp = some st) :
    s.createStatement scp = .ok st := by
  rw [createStatement, assertInvariants, (checkInvariants_iff s).mpr hcheck, hst]
  rfl

variable {b : SCPBallot}

theorem restored_prepare (hcheck : s.Checked) (hord : s.Ordered) (hphase : s.mPhase = .prepare)
    (hb : s.mCurrentBallot = some b) :
    ∃ st r, s.createStatement scp = .ok st ∧ setStateFromEnvelope (fresh scp) st = .ok r ∧
      r.mValueOverride = none ∧ (s.SameRegisters r.toCore ↔ s.Restorable) := by
  have hprepare : s.statement scp = some _ := statement_of_prepare hphase
  have hst := createStatement_of_checked hcheck hprepare
  obtain ⟨r, hr, hrphase, hrb, hrp, hrp', hrh, hrc, hro⟩ := setStateFromEnvelope_prepare scp
    scp.localNode.mNodeID _
  refine ⟨_, r, hst, hr, hro, ?_⟩
  rw [hb] at hrb hrh hrc
  have hcommit : r.mCommit = s.mCommit := by
    rw [hrc]
    cases hc : s.mCommit with
    | none => rfl
    | some c =>
      obtain ⟨h, hh, _, hvc⟩ := hcheck.commit c hc
      obtain ⟨b', hb', _, hvh⟩ := hcheck.high h hh
      rw [hb] at hb'
      cases hb'
      simp [hord.counter _ hc, ← hvh, ← hvc]
  have hhigh : r.mHighBallot = s.mHighBallot ↔ ∀ h, s.mHighBallot = some h → h.counter ≠ 0 := by
    rw [hrh]
    cases hh : s.mHighBallot with
    | none => simp
    | some h =>
      obtain ⟨b', hb', _, hvh⟩ := hcheck.high h hh
      rw [hb] at hb'
      cases hb'
      obtain ⟨n, v⟩ := h
      by_cases hzero : n = 0
      · simp [hzero]
      · simp [hzero, ← hvh]
  constructor
  · intro h
    refine ⟨hhigh.mp h.high, ?_⟩
    intro hconfirm
    rw [hphase] at hconfirm
    cases hconfirm
  · intro h
    exact ⟨hrphase.trans hphase.symm, hrb.trans hb.symm, hrp, hrp', hhigh.mpr h.high, hcommit⟩

theorem restored_confirm (hcheck : s.Checked) (hord : s.Ordered) (hsettled : s.Settled)
    (hphase : s.mPhase = .confirm) (hb : s.mCurrentBallot = some b) :
    ∃ st r, s.createStatement scp = .ok st ∧ setStateFromEnvelope (fresh scp) st = .ok r ∧
      r.mValueOverride = none ∧ (s.SameRegisters r.toCore ↔ s.Restorable) := by
  obtain ⟨hsome, hprime⟩ := hsettled (by simp [hphase])
  obtain ⟨p, hp⟩ := isSome_iff_exists.mp hsome
  obtain ⟨c, hc⟩ := isSome_iff_exists.mp (hcheck.phase (by simp [hphase]))
  obtain ⟨h, hh, hle, hvc⟩ := hcheck.commit c hc
  obtain ⟨b', hb', _, hvh⟩ := hcheck.high h hh
  rw [hb] at hb'
  cases hb'
  have hst : s.createStatement scp = .ok ⟨scp.localNode.mNodeID, .confirm
      ⟨b, p.counter, c.counter, h.counter, scp.localNode.mQSetHash⟩⟩ := by
    apply createStatement_of_checked hcheck
    simp only [statement, hphase, hb, hp, hc, hh]
  obtain ⟨r, hr, hrphase, hrb, hrp, hrp', hrh, hrc, hro⟩ := setStateFromEnvelope_confirm scp
    scp.localNode.mNodeID ⟨b, p.counter, c.counter, h.counter, scp.localNode.mQSetHash⟩
  refine ⟨_, r, hst, hr, hro, ?_⟩
  have hhne : h.counter ≠ 0 := by
    have hpos := (uint32_pos (hord.counter c hc)).trans_le (counter_le hle)
    exact uint32_ne_zero_of_lt hpos
  constructor
  · intro hsame
    refine ⟨?_, ?_⟩
    · intro h' hh'
      rw [hh] at hh'
      cases hh'
      exact hhne
    · intro _ p' b' hp' hb'
      rw [hp] at hp'
      rw [hb] at hb'
      cases hp'
      cases hb'
      have heq := hrp.symm.trans (hsame.prepared.trans hp)
      exact (congrArg value (some.inj heq)).symm
  · intro hrest
    have hvp := hrest.prepared hphase p b hp hb
    refine ⟨hrphase.trans hphase.symm, hrb.trans hb.symm, ?_, hrp'.trans hprime.symm, ?_, ?_⟩
    · rw [hrp, hp, ← hvp]
    · rw [hrh, hh, ← hvh]
    · rw [hrc, hc, ← hvh, ← hvc]

/-! ### The calls after it -/

/-- The registers after the move to a ballot, if there is one to move to. -/
def moveTo (s : Core) : Option SCPBallot → Except Fault Core
  | none => pure s
  | some ballot => (s.updateCurrentValue ballot).map Prod.snd

/-- The registers a call leaves, before the statement that it emits is processed. -/
def Event.result (s : Core) (e : Event) : Except Fault Core :=
  match e with
  | .candidate value => pure { s with mLatestCompositeCandidate := value }
  | e => moveTo s (e.bumps s)

theorem bumpStateTo_result {s s' : BallotProtocol} {value : Value} {n : UInt32} {worked : Bool} (hs : s.Sound scp)
    (hphase : s.mPhase ≠ .externalize)
    (hok : bumpStateTo scp (processSelf scp maxAdvanceSlotRecursion) s value n = .ok (worked, s')) :
    ∃ core s1, moveTo s.toCore (some (s.bumpBallot value n)) = .ok core ∧ (s1 = core ∨ core.Published scp s1) ∧
      Moves scp s1 s'.toCore := by
  rw [bumpStateTo, if_neg hphase] at hok
  obtain ⟨⟨updated, core⟩, hupdate, hok⟩ := bind_eq_ok.mp hok
  obtain ⟨⟨worked', s2⟩, hemit, hpure⟩ := bind_eq_ok.mp hok
  have hmoves : Moves scp s2.toCore s'.toCore := by
    cases hpure
    split
    · exact (checkHeardFromQuorum_reaches (settling_true scp) trivial).moves
    · exact .refl
  refine ⟨core, ?_⟩
  rw [moveTo, hupdate]
  cases updated with
  | false =>
    cases hemit
    exact ⟨core, rfl, .inl rfl, hmoves⟩
  | true =>
    obtain ⟨s3, hemit, hpure'⟩ := bind_eq_ok.mp hemit
    cases hpure'
    have hsound : core.Sound scp := hs.effect ((bump_meets s.toCore _).of_ok hupdate)
    obtain ⟨-, s1, hpub, hreaches⟩ := (emitCurrentStateStatement_meets (s := { s with toCore := core })
      (processSelf_moving (settling_true scp) maxAdvanceSlotRecursion) hsound trivial).of_ok hemit
    exact ⟨s1, rfl, .inr hpub, hreaches.moves.trans hmoves⟩

/-- `handle` is what a call does to the registers, the emission of the statement, and moves. -/
theorem handle_result {s s' : BallotProtocol} {e : Event} (hs : s.Sound scp) (hcall : ∀ st, e ≠ .receive st)
    (hok : handle scp s e = .ok s') : ∃ core s1, e.result s.toCore = .ok core ∧
      (s1 = core ∨ core.Published scp s1) ∧ Moves scp s1 s'.toCore := by
  cases e with
  | receive st => exact absurd rfl (hcall st)
  | candidate value =>
    cases hok
    exact ⟨_, _, rfl, .inl rfl, .refl⟩
  | bumpState value force =>
    obtain ⟨⟨worked, s2⟩, hok, hpure⟩ := bind_eq_ok.mp hok
    cases hpure
    simp only [Event.result, Event.bumps]
    by_cases hnone : s.mPhase = .externalize ∨ (force = false ∧ s.mCurrentBallot.isSome)
    · rw [if_pos hnone]
      rcases hnone with hphase | ⟨rfl, hsome⟩
      · rw [bumpState, bumpStateTo, if_pos hphase, ite_self] at hok
        cases hok
        exact ⟨_, _, rfl, .inl rfl, .refl⟩
      · rw [bumpState, hsome] at hok
        cases hok
        exact ⟨_, _, rfl, .inl rfl, .refl⟩
    · rw [if_neg hnone]
      rw [not_or] at hnone
      unfold bumpState at hok
      split at hok
      · next hforce => exact absurd (by simpa using hforce) hnone.2
      · exact bumpStateTo_result hs hnone.1 hok
  | timerExpired =>
    obtain ⟨⟨worked, s2⟩, hok, hpure⟩ := bind_eq_ok.mp hok
    cases hpure
    simp only [Event.result, Event.bumps]
    unfold abandonBallot at hok
    by_cases hphase : s.mPhase = .externalize
    · rw [if_pos hphase]
      split at hok
      · cases hok
        exact ⟨_, _, rfl, .inl rfl, .refl⟩
      · simp only [if_true, bumpState, Bool.not_true, Bool.false_and, Bool.false_eq_true, if_false] at hok
        rw [bumpStateTo, if_pos hphase] at hok
        cases hok
        exact ⟨_, _, rfl, .inl rfl, .refl⟩
    · rw [if_neg hphase]
      split at hok
      · next hv =>
        cases hok
        rw [show s.abandonValue = none from hv]
        exact ⟨_, _, rfl, .inl rfl, .refl⟩
      · next v hv =>
        rw [show s.abandonValue = some v from hv]
        simp only [if_true, bumpState, Bool.not_true, Bool.false_and, Bool.false_eq_true, if_false] at hok
        exact bumpStateTo_result (s := { s with timer := false }) hs hphase hok

variable (scp) in
/-- A fresh node restored from the statement of `s` has its registers, and is at the value that `s` is
at after any calls, with any composite candidate to start with. -/
def Recovers (s : Core) : Prop :=
  ∃ st r, s.createStatement scp = .ok st ∧ setStateFromEnvelope (fresh scp) st = .ok r ∧
    s.SameRegisters r.toCore ∧
    ∀ (candidate : Option Value) (calls : List Event) (s' r' : Core),
      calls.foldlM Event.result { s with mLatestCompositeCandidate := candidate } = .ok s' →
      calls.foldlM Event.result { r.toCore with mLatestCompositeCandidate := candidate } = .ok r' →
      r'.mCurrentBallot.map (·.value) = s'.mCurrentBallot.map (·.value)

/-- What a call keeps, a run of calls keeps. -/
theorem foldlM_result {I : Core → Core → Prop}
    (hI : ∀ (e : Event) (s r s' r' : Core), I s r → e.result s = .ok s' → e.result r = .ok r' → I s' r') {calls : List Event} {s r s' r' : Core}
    (h : I s r) (hs : calls.foldlM Event.result s = .ok s') (hr : calls.foldlM Event.result r = .ok r') : I s' r' := by
  induction calls generalizing s r with
  | nil =>
    cases hs
    cases hr
    exact h
  | cons e rest ih =>
    obtain ⟨s1, hs1, hs⟩ := bind_eq_ok.mp hs
    obtain ⟨r1, hr1, hr⟩ := bind_eq_ok.mp hr
    exact ih (hI e s r s1 r1 h hs1 hr1) hs hr

theorem result_cases {e : Event} {s' : Core} (h : e.result s = .ok s') :
    (∃ value, e = .candidate value ∧ s' = { s with mLatestCompositeCandidate := value }) ∨ s' = s ∨
      ∃ ballot, e.bumps s = some ballot ∧ s.MovesValue ballot s' := by
  have hmove (h : moveTo s (e.bumps s) = .ok s') : s' = s ∨ ∃ ballot, e.bumps s = some ballot ∧ s.MovesValue ballot s' := by
    cases hb : e.bumps s with
    | none =>
      rw [hb] at h
      cases h
      exact .inl rfl
    | some ballot =>
      rw [hb, moveTo] at h
      cases hupdate : s.updateCurrentValue ballot with
      | error f =>
        rw [hupdate] at h
        cases h
      | ok x =>
        rw [hupdate] at h
        cases h
        rcases (updateCurrentValue_meets s ballot).of_ok hupdate with ⟨-, hsame⟩ | ⟨-, hmoves, -⟩
        · exact .inl hsame
        · exact .inr ⟨ballot, rfl, hmoves⟩
  cases e with
  | candidate value =>
    cases h
    exact .inl ⟨value, rfl, rfl⟩
  | receive | bumpState | timerExpired => exact .inr (hmove h)

/-- b, h and c are of one value. -/
structure AllOf (w : Value) (s : Core) : Prop where
  current : ∃ b, s.mCurrentBallot = some b ∧ b.value = w
  high : ∀ h, s.mHighBallot = some h → h.value = w
  commit : ∃ c, s.mCommit = some c ∧ c.value = w

/-- With c set no call leaves its value. -/
theorem AllOf.result {w : Value} {e : Event} {s' : Core} (h : AllOf w s) (hok : e.result s = .ok s') : AllOf w s' := by
  rcases result_cases hok with ⟨value, -, rfl⟩ | rfl | ⟨ballot, -, hmoves⟩
  · exact ⟨h.current, h.high, h.commit⟩
  · exact h
  · obtain ⟨b, hb, -⟩ := h.current
    obtain ⟨c, hc, hvc⟩ := h.commit
    have hv : ballot.value = w := (hmoves.commit (by simp [hb]) c hc).symm.trans hvc
    obtain ⟨heard, rfl⟩ := hmoves.moved.of_value fun high hh => (h.high high hh).trans hv.symm
    exact ⟨⟨ballot, rfl, hv⟩, h.high, c, hc, hvc⟩

/-- At the last counter no call moves b. -/
theorem result_of_last {e : Event} {s' : Core} (hb : s.mCurrentBallot = some b) (hmax : b.counter = UINT32_MAX)
    (hok : e.result s = .ok s') : s'.mCurrentBallot = some b := by
  rcases result_cases hok with ⟨value, -, rfl⟩ | rfl | ⟨ballot, hbumps, hmoves⟩
  · exact hb
  · exact hb
  · have hzero : ballot.counter = 0 := by
      obtain ⟨-, value, rfl⟩ := Event.of_bumps hbumps
      rw [bumpBallot, nextCounter, hb]
      show b.counter + 1 = 0
      rw [hmax]
      decide
    have hle := counter_le (hmoves.lower b hb).le
    rw [hmax, hzero] at hle
    exact absurd hle (by decide)

/-- With c unset, and a counter left, a call moves to the ballot that it asks for. -/
theorem result_of_unset {e : Event} {ballot : SCPBallot} (hcheck : s.Checked) (hphase : s.mPhase = .prepare)
    (hb : s.mCurrentBallot = some b) (hc : s.mCommit = none) (hmax : b.counter ≠ UINT32_MAX)
    (hbumps : e.bumps s = some ballot) : ∃ s', e.result s = .ok s' ∧ s'.mCurrentBallot = some ballot := by
  have hlt : b.counter < ballot.counter := by
    obtain ⟨-, value, rfl⟩ := Event.of_bumps hbumps
    exact lt_nextCounter hb hmax
  have hmoves : Meets (s.updateCurrentValue ballot) (fun x => x.1 = true) fun _ => True :=
    updateCurrentValue_moves (by simp [hphase]) (by simpa [localCounter, hb] using hlt) (by simp [hc])
  have hresult : e.result s = (s.updateCurrentValue ballot).map Prod.snd := by
    cases e with
    | receive | candidate => cases hbumps
    | bumpState | timerExpired => simp only [Event.result, hbumps, moveTo]
  rw [hresult]
  cases hupdate : s.updateCurrentValue ballot with
  | ok x =>
    obtain ⟨updated, s'⟩ := x
    refine ⟨s', rfl, ?_⟩
    have htrue := hmoves.of_ok hupdate
    rcases (updateCurrentValue_meets s _).of_ok hupdate with ⟨hfalse, -⟩ | ⟨-, hmoves, -⟩
    · cases htrue.symm.trans hfalse
    · cases hmoves.moved <;> rfl
  | error f =>
    exfalso
    rcases (updateCurrentValue_meets s _).of_error hupdate with ⟨-, s', hs', hbad⟩ | ⟨-, b', hb', hbelow⟩
    · have hs' : s'.Checked := by
        rcases hs' with rfl | hmoves
        · exact hcheck
        · exact hcheck.movedTo (.inl hphase) (fun b hb => (hmoves.lower b hb).le) (uint32_ne_zero_of_lt hlt) hmoves.moved
      cases ((checkInvariants_iff s').mpr hs').symm.trans hbad
    · cases hb.symm.trans hb'
      exact absurd hlt (UInt32.not_lt.mpr (counter_le hbelow.le))

/-- In PREPARE, without c and without an override. -/
structure Unset (s : Core) : Prop where
  checked : s.Checked
  phase : s.mPhase = .prepare
  commit : s.mCommit = none
  free : s.mValueOverride = none

theorem Unset.result {e : Event} {s' : Core} (h : Unset s) (hok : e.result s = .ok s') : Unset s' := by
  obtain ⟨hcheck, hphase, hc, ho⟩ := h
  rcases result_cases hok with ⟨value, -, rfl⟩ | rfl | ⟨ballot, hbumps, hmoves⟩
  · exact ⟨⟨hcheck.current, hcheck.prime, hcheck.high, hcheck.commit, hcheck.phase⟩, hphase, hc, ho⟩
  · exact ⟨hcheck, hphase, hc, ho⟩
  · have hne : ballot.counter ≠ 0 := by
      cases hb : s.mCurrentBallot with
      | none =>
        obtain ⟨-, value, rfl⟩ := Event.of_bumps hbumps
        exact nextCounter_ne_zero hb
      | some b =>
        have hle := counter_le (hmoves.lower b hb).le
        exact uint32_ne_zero_of_lt ((uint32_pos (hcheck.current b hb)).trans_le hle)
    have hs' := hcheck.movedTo (.inl hphase) (fun b hb => (hmoves.lower b hb).le) hne hmoves.moved
    cases hmoves.moved with
    | keeps => exact ⟨hs', hphase, hc, ho⟩
    | drops => exact ⟨hs', hphase, rfl, ho⟩

/-- Two such nodes with one candidate go on together. -/
structure Alike (s r : Core) : Prop where
  left : Unset s
  right : Unset r
  candidate : r.mLatestCompositeCandidate = s.mLatestCompositeCandidate
  current : ∃ b, s.mCurrentBallot = some b ∧ r.mCurrentBallot = some b

theorem Alike.result {e : Event} {r s' r' : Core} (h : Alike s r) (hs : e.result s = .ok s') (hr : e.result r = .ok r') :
    Alike s' r' := by
  obtain ⟨hleft, hright, hcand, b, hb, hrb⟩ := h
  have hbumps : e.bumps r = e.bumps s := by
    cases e <;> simp [Event.bumps, abandonValue, bumpBallot, nextCounter, hleft.phase, hright.phase, hleft.free,
      hright.free, hb, hrb, hcand]
  have hkeeps {s s' : Core} (h : s' = s ∨ ∃ ballot, e.bumps s = some ballot ∧ s.MovesValue ballot s') :
      s'.mLatestCompositeCandidate = s.mLatestCompositeCandidate := by
    rcases h with rfl | ⟨_, -, hmoves⟩
    · rfl
    · cases hmoves.moved <;> rfl
  rcases result_cases hs with ⟨value, rfl, rfl⟩ | hs1
  · cases hr
    exact ⟨hleft.result hs, hright.result (e := .candidate value) rfl, rfl, b, hb, hrb⟩
  · rcases result_cases hr with ⟨value, rfl, rfl⟩ | hr1
    · cases hs
      exact ⟨hleft.result (e := .candidate value) rfl, hright.result hr, rfl, b, hb, hrb⟩
    · refine ⟨hleft.result hs, hright.result hr, (hkeeps hr1).trans (hcand.trans (hkeeps hs1).symm), ?_⟩
      by_cases hmax : b.counter = UINT32_MAX
      · exact ⟨b, result_of_last hb hmax hs, result_of_last hrb hmax hr⟩
      · cases hballot : e.bumps s with
        | none =>
          have hs' : s' = s := hs1.resolve_right (by simp [hballot])
          have hr' : r' = r := hr1.resolve_right (by simp [hbumps, hballot])
          exact ⟨b, hs' ▸ hb, hr' ▸ hrb⟩
        | some ballot =>
          obtain ⟨s2, hs2, hb2⟩ := result_of_unset hleft.checked hleft.phase hb hleft.commit hmax hballot
          obtain ⟨r2, hr2, hrb2⟩ := result_of_unset hright.checked hright.phase hrb hright.commit hmax
            (hbumps.trans hballot)
          cases hs.symm.trans hs2
          cases hr.symm.trans hr2
          exact ⟨ballot, hb2, hrb2⟩

/-- Node 0, whose only slice is both of nodes 7 and 8. -/
def pairListener : SCP where
  localNode := ⟨0, true, ⟨2, [7, 8], []⟩, 1⟩
  driver := { listener.driver with getQSet := fun h => if h = 1 then some ⟨2, [7, 8], []⟩ else none }

/-- Nodes 7 and 8 prepare (1, x), which the node confirms and votes to commit; then node 7 prepares (2, y),
and the vote is withdrawn. -/
def withdrawn : List Event :=
  [heardPrepare ⟨1, [1]⟩ (some ⟨1, [1]⟩) none, .receive ⟨8, .prepare ⟨1, ⟨1, [1]⟩, some ⟨1, [1]⟩, none, 0, 0⟩⟩,
    heardPrepare ⟨2, [2]⟩ (some ⟨2, [2]⟩) (some ⟨1, [1]⟩)]

end BallotProtocol
end Diamnet.Scp
