import Diamnet.Scp.Searches

/-! The functions of the ballot protocol make moves and nothing else.

One lemma per function, from the emission of a statement up to `processEnvelope`
and a whole run of events. Emission calls `processEnvelope` on the node's own
statement, so the lemmas in between assume of that call what is then proved of it,
by induction on how deeply such calls may nest.

Along with the moves they carry what a call settles before it returns. A statement that has just
been recorded may leave something to do, and `attemptAcceptPrepared`, the first of the attempts, does
it; what follows only keeps it done. `Settling` says what a pair of such properties owes. -/
open Diamnet.Scp.Core

namespace Diamnet.Scp

variable (scp : SCP)

def Core.acceptsPrepared (s : Core) (ballot : SCPBallot) : Bool :=
  s.federatedAccept scp (votesPrepared ballot) (hasPreparedBallot ballot)

/-- `Done` holds between calls, and `Todo hint` once the statement `hint` is recorded: accepting the
highest candidate under the hint, or finding none, gives `Done` again. -/
structure Core.Settling (Done : Core → Prop) (Todo : SCPStatement → Core → Prop) : Prop where
  effect {s s' : Core} {a : Action} {didWork : Bool} (hs : s.Sound scp) (h : Done s)
    (taken : s.Taken scp a) (heff : s.Effect a didWork s') : Done s'
  heard {s : Core} (h : Done s) (heard : Bool) : Done { s with mHeardFromQuorum := heard }
  candidate {s : Core} (h : Done s) (value : Option Value) : Done { s with mLatestCompositeCandidate := value }
  own {s : Core} {st : SCPStatement} (hs : s.Sound scp) (h : Done s) (hst : s.statement scp = some st) :
    Todo st (s.recordEnvelope st)
  ended {s : Core} {hint : SCPStatement} (h : Todo hint s) (hphase : s.mPhase = .externalize) : Done s
  none {s : Core} {hint : SCPStatement} (hs : s.Sound scp) (h : Todo hint s)
    (hnone : ∀ m ∈ s.getPrepareCandidates hint, s.acceptsPrepared scp m = true → s.skipsPrepared m = .ok true) :
    Done s
  found {s s' : Core} {hint : SCPStatement} {ballot : SCPBallot} {didWork : Bool} (hs : s.Sound scp)
    (h : Todo hint s) (heff : s.Effect (.acceptPrepared ballot) didWork s')
    (hfound : s.skipsPrepared ballot = .ok false ∧ s.acceptsPrepared scp ballot = true)
    (hhighest : ∀ m ∈ s.getPrepareCandidates hint, s.acceptsPrepared scp m = true →
      s.skipsPrepared m = .ok true ∨ m ≤ ballot) : Done s'

theorem Core.settling_true : Settling scp (fun _ => True) fun _ _ => True where
  effect _ _ _ _ := trivial
  heard _ _ := trivial
  candidate _ _ := trivial
  own _ _ _ := trivial
  ended _ _ := trivial
  none _ _ _ := trivial
  found _ _ _ _ _ := trivial

namespace BallotProtocol
open Relation.ReflTransGen Meets
variable {Done : Core → Prop} {Todo : SCPStatement → Core → Prop}

variable (Done) in
/-- What a call leaves: registers moves can reach, settled, at the level it was made at. -/
structure Reaches (s s' : BallotProtocol) : Prop where
  moves : Moves scp s.toCore s'.toCore
  done : Done s'.toCore
  level : s'.mCurrentMessageLevel = s.mCurrentMessageLevel

variable (Done) in
/-- A call that leaves such a state, or stops with a fault moves can. -/
def Moving (s : BallotProtocol) (r : Except Fault (Bool × BallotProtocol)) : Prop :=
  Meets r (fun (_, s') => Reaches scp Done s s') (Faulty scp s.toCore)

variable {scp} {s : BallotProtocol}

theorem Reaches.refl (h : Done s.toCore) : Reaches scp Done s s := ⟨.refl, h, rfl⟩

theorem Reaches.trans {s1 s2 : BallotProtocol} (h1 : Reaches scp Done s s1) (h2 : Reaches scp Done s1 s2) :
    Reaches scp Done s s2 :=
  ⟨h1.moves.trans h2.moves, h2.done, h2.level.trans h1.level⟩

theorem Moving.bind {r : Except Fault (Bool × BallotProtocol)}
    {f : Bool × BallotProtocol → Except Fault (Bool × BallotProtocol)} (hr : Moving scp Done s r)
    (hf : ∀ x, Reaches scp Done s x.2 → Moving scp Done x.2 (f x)) : Moving scp Done s (r >>= f) := by
  refine Meets.bind hr ?_
  rintro x hreaches
  refine (hf x hreaches).mono ?_ ?_
  · exact fun _ h => hreaches.trans h
  · exact fun _ h => h.of_moves hreaches.moves

/-- What emission owes of the call it makes on an own statement. -/
def SelfMoving (scp : SCP) (Done : Core → Prop) (processSelf : ProcessSelf) : Prop :=
  ∀ (s : BallotProtocol) (st : SCPStatement), s.Sound scp → Done s.toCore → s.checkInvariants = true →
    s.statement scp = some st →
    Meets (processSelf st s)
      (fun (state, s') =>
        (state = .invalid ∧ s.admits scp st true = false) ∨
        (state = .valid ∧ s.admits scp st true = true ∧
          Reaches scp Done { s with toCore := s.recordEnvelope st } s'))
      (fun f => f = .maxTransitions ∨ s.admits scp st true = true ∧ Faulty scp (s.recordEnvelope st) f)

theorem sendLatestEnvelope_toCore (s : BallotProtocol) : s.sendLatestEnvelope.toCore = s.toCore := by
  unfold sendLatestEnvelope
  split
  · split <;> rfl
  · rfl

theorem Reaches.send {s' : BallotProtocol} (h : Reaches scp Done s s') :
    Reaches scp Done s s'.sendLatestEnvelope := by
  have hlevel : s'.sendLatestEnvelope.mCurrentMessageLevel = s'.mCurrentMessageLevel := by
    unfold sendLatestEnvelope
    split
    · split <;> rfl
    · rfl
  refine ⟨?_, ?_, hlevel.trans h.level⟩
  · rw [sendLatestEnvelope_toCore]
    exact h.moves
  · rw [sendLatestEnvelope_toCore]
    exact h.done

theorem bumpsLeft_lt_bound (s : Core) : s.bumpsLeft < bumpLoopBound := by
  unfold bumpsLeft bumpLoopBound
  split <;> omega

section Emitting
variable {processSelf : ProcessSelf} (hself : SelfMoving scp Done processSelf)
include hself

theorem emitCurrentStateStatement_meets (hs : s.Sound scp) (h : Done s.toCore) :
    Meets (emitCurrentStateStatement scp processSelf s)
      (fun s' => s.checkInvariants = true ∧
        ∃ s1, s.Published scp s1 ∧ Reaches scp Done { s with toCore := s1 } s')
      (fun f => s.PublishFault scp f ∨
        s.checkInvariants = true ∧ ∃ s1, s.Published scp s1 ∧ Faulty scp s1 f) := by
  unfold emitCurrentStateStatement
  rw [bind_iff]
  refine s.createStatement_meets.mono ?_ ?_
  · rintro st ⟨hinv, hst⟩
    split
    · next hlast => exact ⟨hinv, s.toCore, .again st hst hlast, .refl h⟩
    · next hlast =>
      rw [bind_iff]
      refine (hself s st hs h hinv hst).mono ?_ ?_
      · rintro ⟨state, s'⟩ (⟨rfl, hadmits⟩ | ⟨rfl, hadmits, hreaches⟩)
        · exact .inl (.badState st hinv hst hlast hadmits)
        · have hpub : s.Published scp (s.recordEnvelope st) := .record st hst hadmits
          dsimp only
          split
          · exact ⟨hinv, _, hpub, Reaches.send ⟨hreaches.moves, hreaches.done, hreaches.level⟩⟩
          · exact ⟨hinv, _, hpub, hreaches⟩
      · rintro f (rfl | ⟨hadmits, hfault⟩)
        · exact .inl .maxTransitions
        · exact .inr ⟨hinv, _, .record st hst hadmits, hfault⟩
  · rintro f (⟨rfl, hinv⟩ | rfl)
    · exact .inl (.invariants hinv)
    · exact .inl .nullPointer

theorem emitAfter_meets {a : Action} {didWork : Bool} {core : Core} (hs : s.Sound scp) (h : Done core)
    (heff : s.Effect a didWork core) :
    Meets (emitAfter scp processSelf s didWork core)
      (fun (worked, s') => (∃ s1, s.Does scp a s1 ∧ Reaches scp Done { s with toCore := s1 } s') ∧
        ∃ s1, s.Effect a worked s1 ∧ Frame scp s1 s'.toCore)
      (fun f => s.ActFault scp a f ∨ ∃ s1, s.Does scp a s1 ∧ Faulty scp s1 f) := by
  unfold emitAfter
  split
  · next hwork =>
    subst hwork
    rw [bind_iff]
    refine mono (emitCurrentStateStatement_meets hself ?_ h) ?_ ?_
    · exact hs.effect heff
    · rintro s' ⟨hinv, s1, hpub, hreaches⟩
      exact ⟨⟨s1, .publish core s1 heff hinv hpub, ⟨hreaches.moves, hreaches.done, hreaches.level⟩⟩,
        core, heff, hpub.frame.trans hreaches.moves.frame⟩
    · rintro f (hfault | ⟨hinv, s1, hpub, hfault⟩)
      · exact .inl (.publish core f heff hfault)
      · exact .inr ⟨s1, .publish core s1 heff hinv hpub, hfault⟩
  · next hwork =>
    have hwork : didWork = false := by simpa using hwork
    subst hwork
    exact ⟨⟨core, .quiet core heff, .refl h⟩, core, heff, Frame.refl core⟩

theorem emitAfter_moving {a : Action} {r : Except Fault (Bool × Core)} (hs : s.Sound scp)
    (enabled : s.Enabled scp a) (h : ∀ didWork core, s.Effect a didWork core → Done core)
    (hr : Meets r (fun (didWork, core) => s.Effect a didWork core) (s.UpdateFault a)) :
    Meets (r >>= fun (didWork, core) => emitAfter scp processSelf s didWork core)
      (fun (worked, s') => Reaches scp Done s s' ∧ ∃ s1, s.Effect a worked s1 ∧ Frame scp s1 s'.toCore)
      (Faulty scp s.toCore) := by
  rw [bind_iff]
  refine hr.mono ?_ ?_
  · rintro ⟨didWork, core⟩ heff
    refine (emitAfter_meets hself hs (h didWork core heff) heff).mono ?_ ?_
    · rintro ⟨worked, s'⟩ ⟨⟨s1, hdoes, hreaches⟩, hworked⟩
      exact ⟨⟨head (.act a s1 enabled hdoes) hreaches.moves, hreaches.done, hreaches.level⟩, hworked⟩
    · rintro f (hfault | ⟨s1, hdoes, hfault⟩)
      · exact .act s.toCore a f .refl enabled hfault
      · exact hfault.of_moves (.single (.act a s1 enabled hdoes))
  · rintro f hfault
    exact .act s.toCore a f .refl enabled (.update f hfault)

/-! ### The attempts -/

variable {hint : SCPStatement} (hD : Settling scp Done Todo)
include hD

omit hself in
theorem checkHeardFromQuorum_reaches (h : Done s.toCore) : Reaches scp Done s (s.checkHeardFromQuorum scp) := by
  unfold checkHeardFromQuorum
  split
  · exact .refl h
  · split
    · exact ⟨Moves.heard s.toCore true, hD.heard h true, rfl⟩
    · exact ⟨Moves.heard s.toCore false, hD.heard h false, rfl⟩

/-- Accepting prepared moves, does what the hint left to do, and settles every candidate that could be
accepted. -/
theorem attemptAcceptPrepared_meets (hs : s.Sound scp) (hhint : hint ∈ s.mStatementsHistory) (h : Todo hint s.toCore) :
    Meets (attemptAcceptPrepared scp processSelf s hint)
      (fun (_, s') => Reaches scp Done s s' ∧
        (s.mPhase = .prepare → ∀ m ∈ s.getPrepareCandidates hint, s.acceptsPrepared scp m = true →
          ∃ p, s'.mPrepared = some p ∧ m ≤ p))
      (Faulty scp s.toCore) := by
  unfold attemptAcceptPrepared
  split
  · next hphase => exact ⟨.refl (hD.ended h hphase), fun hprepare => by simp [hprepare] at hphase⟩
  · next hphase =>
    rw [bind_iff]
    refine (findAcceptPrepared_meets s.toCore _ (descending_pairwise _)).mono ?_ ?_
    · rintro found ⟨hsound, hcomplete⟩
      cases found with
      | none =>
        have hskips : ∀ m ∈ s.getPrepareCandidates hint, s.acceptsPrepared scp m = true →
            s.skipsPrepared m = .ok true := by
          intro m hm haccept
          rcases hcomplete m hm haccept with hskip | ⟨_, hfound, _⟩
          · exact hskip
          · cases hfound
        refine ⟨.refl (hD.none hs h hskips), fun hprepare m hm haccept => ?_⟩
        exact le_of_skipsPrepared hs.prime hprepare (hskips m hm haccept)
      | some ballot =>
        obtain ⟨hmem, hkept, haccepted⟩ := hsound ballot rfl
        have enabled : s.Enabled scp (.acceptPrepared ballot) :=
          ⟨hphase, ⟨hint, hhint, hmem⟩, hkept, haccepted⟩
        have hhighest : ∀ m ∈ s.getPrepareCandidates hint, s.acceptsPrepared scp m = true →
            s.skipsPrepared m = .ok true ∨ m ≤ ballot := by
          intro m hm haccept
          rcases hcomplete m hm haccept with hskip | ⟨ballot', hfound, hle⟩
          · exact .inl hskip
          · cases hfound
            exact .inr hle
        have hdone (didWork : Bool) (core : Core) (heff : s.Effect (.acceptPrepared ballot) didWork core) : Done core :=
          hD.found hs h heff ⟨hkept, haccepted⟩ hhighest
        refine (emitAfter_moving hself hs enabled hdone (update_meets enabled)).mono ?_ fun _ h => h
        rintro ⟨worked, s'⟩ ⟨hreaches, s1, heff, hframe⟩
        obtain ⟨p, hp, hle⟩ := heff.le_prepared
        obtain ⟨q, hq, hpq⟩ := hframe.prepared p hp
        refine ⟨hreaches, fun hprepare m hm haccept => ?_⟩
        rcases hhighest m hm haccept with hskip | hmle
        · obtain ⟨p0, hp0, hle0⟩ := le_of_skipsPrepared hs.prime hprepare hskip
          obtain ⟨q0, hq0, hle1⟩ := hreaches.moves.frame.prepared p0 hp0
          exact ⟨q0, hq0, hle0.trans hle1⟩
        · exact ⟨q, hq, hmle.trans (hle.trans hpq)⟩
    · rintro f (rfl | rfl)
      · exact .nullPointer
      · exact .search

theorem update_moving {a : Action} (hs : s.Sound scp) (h : Done s.toCore) (enabled : s.Enabled scp a) :
    Moving scp Done s (a.update s.toCore >>= fun (didWork, core) => emitAfter scp processSelf s didWork core) :=
  (emitAfter_moving hself hs enabled (fun _ _ heff => hD.effect hs h enabled.taken heff) (update_meets enabled)).mono
    (fun _ h => h.1) fun _ h => h

theorem attemptConfirmPrepared_moving (hs : s.Sound scp) (hhint : hint ∈ s.mStatementsHistory) (h : Done s.toCore)
    (hcovered : s.mPhase = .prepare → ∀ ballot ∈ s.getPrepareCandidates hint,
      s.federatedRatify scp (hasPreparedBallot ballot) = true → ∃ p, s.mPrepared = some p ∧ ballot ≤ p) :
    Moving scp Done s (attemptConfirmPrepared scp processSelf s hint) := by
  unfold attemptConfirmPrepared
  split
  · next hphase =>
    split
    · next newC newH hfound =>
      obtain ⟨hmem, hratified, hraises, hcommit⟩ := findConfirmPrepared_some hfound
      have enabled : s.Enabled scp (.confirmPrepared newC newH) :=
        ⟨hphase.1, hratified, hcovered hphase.1 newH hmem hratified, ⟨hint, hhint, hmem⟩, hraises, hcommit⟩
      exact update_moving hself hD hs h enabled
    · exact .refl h
  · exact .refl h

theorem attemptAcceptCommit_moving (hs : s.Sound scp) (hhint : hint ∈ s.mStatementsHistory) (h : Done s.toCore) :
    Moving scp Done s (attemptAcceptCommit scp processSelf s hint) := by
  unfold attemptAcceptCommit
  split
  · exact .refl h
  · next hphase =>
    refine bind_iff.mpr ((findAcceptCommit_meets hphase hhint).mono ?_ ?_)
    · intro found hfound
      cases found with
      | none => exact .refl h
      | some bounds =>
        obtain ⟨c, high⟩ := bounds
        have enabled : s.Enabled scp (.acceptCommit c high) := hfound c high rfl
        exact update_moving hself hD hs h enabled
    · rintro f rfl
      exact .nullPointer

theorem attemptConfirmCommit_moving (hs : s.Sound scp) (h : Done s.toCore) :
    Moving scp Done s (attemptConfirmCommit scp processSelf s hint) := by
  unfold attemptConfirmCommit
  split
  · next hphase =>
    split
    · next c high hfound =>
      have enabled : s.Enabled scp (.confirmCommit c high) := findConfirmCommit_some hphase hfound
      have hupdate := update_moving hself hD hs h enabled
      simp only [Action.update, bind_assoc, pure_bind] at hupdate
      exact hupdate
    · exact .refl h
  · exact .refl h

theorem attempts_moving (hs : s.Sound scp) (hhint : hint ∈ s.mStatementsHistory)
    (hlatest : s.mLatestEnvelopes.lookup hint.nodeID = some hint) (h : Todo hint s.toCore) :
    Moving scp Done s (attempts scp processSelf s hint) := by
  refine bind (attemptAcceptPrepared_meets hself hD hs hhint h) ?_
  rintro ⟨_, s1⟩ ⟨h1, hsettled⟩
  have hs1 := hs.moves h1.moves
  have hframe1 := h1.moves.frame
  have hhint1 := hframe1.mem_history hhint
  refine mono (Moving.bind (attemptConfirmPrepared_moving hself hD hs1 hhint1 h1.done ?_) ?_)
    (fun _ h => h1.trans h) (fun _ h => h.of_moves h1.moves)
  · intro hphase ballot hmem hratified
    exact prepared_of_ratified hlatest hs1 hframe1 hphase (hsettled (hframe1.phase hphase)) hmem hratified
  rintro ⟨_, s2⟩ h2
  have hs2 := hs1.moves h2.moves
  have hhint2 := h2.moves.frame.mem_history hhint1
  refine Moving.bind (attemptAcceptCommit_moving hself hD hs2 hhint2 h2.done) ?_
  rintro ⟨_, s3⟩ h3
  refine Moving.bind (attemptConfirmCommit_moving hself hD (hs2.moves h3.moves) h3.done) ?_
  rintro ⟨_, s4⟩ h4
  exact .refl h4.done

/-! ### Bumps -/

theorem bumpStateTo_meets (hs : s.Sound scp) (h : Done s.toCore) (hphase : s.mPhase ≠ .externalize) (value : Value)
    {n : UInt32} (hn : s.mCurrentBallot = none → n ≠ 0) :
    Meets (bumpStateTo scp processSelf s value n)
      (fun (worked, s') =>
        (∃ s1, s.Does scp (.bump (s.bumpBallot value n)) s1 ∧ Reaches scp Done { s with toCore := s1 } s') ∧
        ∃ s1, s.Effect (.bump (s.bumpBallot value n)) worked s1 ∧ Frame scp s1 s'.toCore)
      (fun f => s.ActFault scp (.bump (s.bumpBallot value n)) f ∨
        ∃ s1, s.Does scp (.bump (s.bumpBallot value n)) s1 ∧ Faulty scp s1 f) := by
  rw [bumpStateTo, if_neg hphase, bind_iff]
  refine (bump_meets s.toCore _).mono ?_ fun f hf => .inl (.update f hf)
  rintro ⟨didWork, core⟩ heff
  rw [bind_iff]
  have taken : s.Taken scp (.bump (s.bumpBallot value n)) := ⟨hphase, ⟨value, rfl⟩, hn⟩
  refine (emitAfter_meets hself hs (hD.effect hs h taken heff) heff).mono ?_ fun _ h => h
  rintro ⟨worked, s'⟩ ⟨⟨s1, hdoes, hreaches⟩, s2, heff2, hframe⟩
  have hheard : Reaches scp Done s' (if worked then s'.checkHeardFromQuorum scp else s') := by
    split
    · exact checkHeardFromQuorum_reaches hD hreaches.done
    · exact .refl hreaches.done
  exact ⟨⟨s1, hdoes, hreaches.trans hheard⟩, s2, heff2, hframe.trans hheard.moves.frame⟩

theorem attemptBump_meets (hs : s.Sound scp) (h : Done s.toCore) :
    Meets (attemptBump scp processSelf s)
      (fun (didBump, s') => Reaches scp Done s s' ∧ (didBump = true → s'.bumpsLeft < s.bumpsLeft))
      (Faulty scp s.toCore) := by
  unfold attemptBump
  split
  · exact ⟨.refl h, by simp⟩
  · next hphase =>
    split
    · next n hfound =>
      have hahead := findBump_some hfound
      have hn : n ≠ 0 := uint32_ne_zero_of_lt hahead
      unfold abandonBallot
      split
      · exact ⟨.refl h, by simp⟩
      · next v hv =>
        rw [if_neg hn]
        have enabled : s.Enabled scp (.bump (s.bumpBallot v n)) := ⟨hphase, ⟨v, hv, rfl⟩, hahead⟩
        refine (bumpStateTo_meets hself hD hs h hphase v fun _ => hn).mono ?_ ?_
        · rintro ⟨didBump, s'⟩ ⟨⟨s1, hdoes, hreaches⟩, s2, heff, hframe⟩
          refine ⟨⟨head (.act _ s1 enabled hdoes) hreaches.moves, hreaches.done, hreaches.level⟩, ?_⟩
          rintro rfl
          exact hframe.bumps.trans_lt (heff.bumpsLeft_lt hahead)
        · rintro f (hfault | ⟨s1, hdoes, hfault⟩)
          · exact .act s.toCore _ f .refl enabled hfault
          · exact hfault.of_moves (.single (.act _ s1 enabled hdoes))
    · exact ⟨.refl h, by simp⟩

theorem bumpLoop_moving (n : Nat) (hs : s.Sound scp) (h : Done s.toCore) (hn : s.bumpsLeft < n) :
    Moving scp Done s (bumpLoop scp processSelf n s) := by
  induction n generalizing s with
  | zero => exact absurd hn (Nat.not_lt_zero _)
  | succ n ih =>
    refine bind (attemptBump_meets hself hD hs h) ?_
    rintro ⟨didBump, s1⟩ ⟨hreaches, hless⟩
    dsimp only
    split
    · next hbump =>
      have hn1 : s1.bumpsLeft < n := by
        have := hless hbump
        omega
      refine bind ((ih (hs.moves hreaches.moves) hreaches.done hn1).mono (fun _ h => hreaches.trans h)
        (fun _ h => h.of_moves hreaches.moves)) ?_
      exact fun _ h => h
    · exact hreaches

theorem bumps_moving (hs : s.Sound scp) (h : Done s.toCore) : Moving scp Done s (bumps scp processSelf s) := by
  unfold bumps
  split
  · refine bind (bumpLoop_moving hself hD _ hs h (bumpsLeft_lt_bound _)) ?_
    rintro ⟨didBump, s1⟩ hreaches
    exact hreaches.trans (checkHeardFromQuorum_reaches hD hreaches.done)
  · exact .refl h

/-! ### Processing statements -/

theorem advanceSlot_meets (hs : s.Sound scp) (hhint : hint ∈ s.mStatementsHistory)
    (hlatest : s.mLatestEnvelopes.lookup hint.nodeID = some hint) (h : Todo hint s.toCore) :
    Meets (advanceSlot scp processSelf s hint) (fun s' => Reaches scp Done s s') (Faulty scp s.toCore) := by
  unfold advanceSlot
  dsimp only
  split
  · exact .maxTransitions
  · refine bind (attempts_moving hself hD (s := { s with mCurrentMessageLevel := s.mCurrentMessageLevel + 1 })
      hs hhint hlatest h) ?_
    rintro ⟨attempted, s1⟩ h1
    refine bind ((bumps_moving hself hD (hs.moves h1.moves) h1.done).mono (fun _ h => h1.trans h)
      (fun _ h => h.of_moves h1.moves)) ?_
    rintro ⟨bumped, s2⟩ h2
    have hlowered : Reaches scp Done s { s2 with mCurrentMessageLevel := s2.mCurrentMessageLevel - 1 } := by
      refine ⟨h2.moves, h2.done, ?_⟩
      show s2.mCurrentMessageLevel - 1 = s.mCurrentMessageLevel
      rw [h2.level]
      exact Nat.add_sub_cancel _ 1
    split
    · exact hlowered.send
    · exact hlowered

theorem processEnvelopeWith_meets {st : SCPStatement} {self : Bool} (hrec : (s.recordEnvelope st).Sound scp)
    (htodo : Todo st (s.recordEnvelope st)) :
    Meets (processEnvelopeWith scp processSelf st self s)
      (fun (state, s') =>
        (state = .invalid ∧ s'.toCore = s.toCore ∧ (s.admits scp st self = false ∨
          ∃ c, s.mPhase = .externalize ∧ s.mCommit = some c ∧ c.value ≠ (getWorkingBallot st).value)) ∨
        (state = .valid ∧ s.admits scp st self = true ∧
          Reaches scp Done { s with toCore := s.recordEnvelope st } s'))
      (fun f => (f = .nullPointer ∧ s.mPhase = .externalize ∧ s.mCommit = none) ∨
        s.admits scp st self = true ∧ Faulty scp (s.recordEnvelope st) f) := by
  unfold processEnvelopeWith
  split
  · next hbad =>
    refine .inl ⟨rfl, rfl, .inl ?_⟩
    rw [Bool.or_eq_true, Bool.not_eq_true', Bool.not_eq_true'] at hbad
    rcases hbad with h | h <;> simp [admits, h]
  · next hgood =>
    rw [Bool.or_eq_true, not_or, Bool.not_eq_true', Bool.not_eq_false, Bool.not_eq_true',
      Bool.not_eq_false] at hgood
    obtain ⟨hsane, hnewer⟩ := hgood
    dsimp only
    split
    · next hinvalid =>
      exact .inl ⟨rfl, rfl, .inl (by simp [admits, hinvalid])⟩
    · next hvalid =>
      have hadmits : s.admits scp st self = true := by
        simp [admits, hsane, hnewer, hvalid]
      split
      · next hphase =>
        split
        · next hnone => exact .inl ⟨rfl, hphase, hnone⟩
        · next c hc =>
          split
          · exact .inr ⟨rfl, hadmits, .refl (hD.ended htodo hphase)⟩
          · next hne => exact .inl ⟨rfl, rfl, .inr ⟨c, hphase, hc, hne⟩⟩
      · rw [bind_iff]
        have hmem : st ∈ (s.recordEnvelope st).mStatementsHistory := by simp [recordEnvelope]
        have hlookup : (s.recordEnvelope st).mLatestEnvelopes.lookup st.nodeID = some st :=
          AList.lookup_insert _
        refine mono (advanceSlot_meets hself hD ?_ ?_ ?_ ?_) ?_ ?_
        · split <;> exact hrec
        · split <;> exact hmem
        · split <;> exact hlookup
        · split <;> exact htodo
        · intro s' h
          refine .inr ⟨rfl, hadmits, ?_⟩
          split at h <;> exact ⟨h.moves, h.done, h.level⟩
        · intro f hfault
          refine .inr ⟨hadmits, ?_⟩
          split at hfault <;> exact hfault

end Emitting

theorem value_of_statement {s : Core} {st : SCPStatement} (hphase : s.mPhase = .externalize)
    (hst : s.statement scp = some st) : ∃ c, s.mCommit = some c ∧ c.value = (getWorkingBallot st).value := by
  simp only [statement, hphase] at hst
  split at hst
  · next c h hc hh =>
    cases hst
    exact ⟨c, hc, rfl⟩
  · cases hst

/-- **Processing an own statement makes moves only**, however deeply it nests. -/
theorem processSelf_moving (hD : Settling scp Done Todo) (n : Nat) : SelfMoving scp Done (processSelf scp n) := by
  induction n with
  | zero => exact fun _ _ _ _ _ _ => .inl rfl
  | succ n ih =>
    intro s st hs h _ hst
    refine (processEnvelopeWith_meets ih hD (hs.record_own hst) (hD.own hs h hst)).mono ?_ ?_
    · rintro ⟨state, s'⟩ (⟨rfl, _, hadmits | ⟨c, hphase, hc, hne⟩⟩ | hvalid)
      · exact .inl ⟨rfl, hadmits⟩
      · obtain ⟨c', hc', hv⟩ := value_of_statement hphase hst
        rw [hc] at hc'
        cases hc'
        exact absurd hv hne
      · exact .inr hvalid
    · rintro f (⟨_, hphase, hnone⟩ | hfault)
      · obtain ⟨c', hc', _⟩ := value_of_statement hphase hst
        rw [hnone] at hc'
        cases hc'
      · exact .inr hfault

variable {s : Core}

/-! ### Events -/

/-- The bump an event calls for: its value and counter. -/
def Event.bumps (s : Core) : Event → Option SCPBallot
  | .bumpState value force =>
    if s.mPhase = .externalize ∨ (force = false ∧ s.mCurrentBallot.isSome) then none
    else some (s.bumpBallot value s.nextCounter)
  | .timerExpired =>
    if s.mPhase = .externalize then none
    else s.abandonValue.map fun v => s.bumpBallot v s.nextCounter
  | _ => none

theorem nextCounter_ne_zero (h : s.mCurrentBallot = none) : s.nextCounter ≠ 0 := by
  simp [nextCounter, h]

variable {e : Event}

theorem Event.of_bumps {ballot : SCPBallot} (h : e.bumps s = some ballot) :
    s.mPhase ≠ .externalize ∧ ∃ value, ballot = s.bumpBallot value s.nextCounter := by
  cases e with
  | receive st | candidate value => cases h
  | bumpState value force =>
    simp only [Event.bumps] at h
    split at h
    · cases h
    · next hcond =>
      cases h
      exact ⟨fun hphase => hcond (.inl hphase), value, rfl⟩
  | timerExpired =>
    simp only [Event.bumps] at h
    split at h
    · cases h
    · next hphase =>
      obtain ⟨v, _, rfl⟩ := Option.map_eq_some_iff.mp h
      exact ⟨hphase, v, rfl⟩

theorem Event.taken_of_bumps {ballot : SCPBallot} (h : e.bumps s = some ballot) : s.Taken scp (.bump ballot) := by
  obtain ⟨hphase, value, rfl⟩ := Event.of_bumps h
  exact ⟨hphase, ⟨value, rfl⟩, nextCounter_ne_zero⟩

/-- What an event does to the registers before the moves it leads to. -/
inductive Happens (scp : SCP) (s : Core) : Event → Core → Prop where
  | ignored (e : Event) : Happens scp s e s
  | receive (st : SCPStatement) (hadmits : s.admits scp st false = true) :
      Happens scp s (.receive st) (s.recordEnvelope st)
  | candidate (value : Option Value) :
      Happens scp s (.candidate value) { s with mLatestCompositeCandidate := value }
  | bump (e : Event) (ballot : SCPBallot) (s' : Core) (hb : e.bumps s = some ballot)
      (hdoes : s.Does scp (.bump ballot) s') : Happens scp s e s'

/-- How an event fails: at the bump it calls for, or in the moves it leads to. -/
inductive HandleFault (scp : SCP) (s : Core) (e : Event) : Fault → Prop where
  | bump (ballot : SCPBallot) (f : Fault) (hb : e.bumps s = some ballot)
      (h : s.ActFault scp (.bump ballot) f) : HandleFault scp s e f
  | moves (s1 : Core) (f : Fault) (happens : Happens scp s e s1) (h : Faulty scp s1 f) :
      HandleFault scp s e f

/-- An event is from the network only if it is another node's statement. -/
def Event.FromOther (scp : SCP) : Event → Prop
  | .receive st => st.nodeID ≠ scp.localNode.mNodeID
  | _ => True

/-- **An event has its own effect and is followed by moves.** -/
theorem handle_settles (hD : Settling scp Done Todo) {s : BallotProtocol} (hs : s.Sound scp) (he : e.FromOther scp)
    (h : Done s.toCore) (htodo : ∀ st, e = .receive st → Todo st (s.recordEnvelope st)) :
    Meets (handle scp s e)
      (fun s' => (∃ s1, Happens scp s.toCore e s1 ∧ Moves scp s1 s'.toCore) ∧ Done s'.toCore)
      (HandleFault scp s.toCore e) := by
  have hself : SelfMoving scp Done (processSelf scp maxAdvanceSlotRecursion) := processSelf_moving hD _
  -- a bump an event calls for, once its value and counter are known
  have bumps (s0 : BallotProtocol) (hcore : s0.toCore = s.toCore) (value : Value)
      (hphase : s.mPhase ≠ .externalize)
      (hb : e.bumps s.toCore = some (s.bumpBallot value s.nextCounter)) :
      Meets (bumpStateTo scp (processSelf scp maxAdvanceSlotRecursion) s0 value s0.nextCounter)
        (fun (_, s') => (∃ s1, Happens scp s.toCore e s1 ∧ Moves scp s1 s'.toCore) ∧ Done s'.toCore)
        (HandleFault scp s.toCore e) := by
    have hmeets := bumpStateTo_meets hself hD (hcore ▸ hs) (hcore ▸ h) (hcore ▸ hphase) value
      (nextCounter_ne_zero (s := s0.toCore))
    rw [hcore] at hmeets ⊢
    refine hmeets.mono ?_ ?_
    · rintro ⟨_, s'⟩ ⟨⟨s1, hdoes, hreaches⟩, _⟩
      exact ⟨⟨s1, .bump e _ s1 hb hdoes, hreaches.moves⟩, hreaches.done⟩
    · rintro f (hfault | ⟨s1, hdoes, hfault⟩)
      · exact .bump _ f hb hfault
      · exact .moves s1 f (.bump e _ s1 hb hdoes) hfault
  cases e with
  | receive st =>
    rw [handle, bind_iff]
    refine (processEnvelopeWith_meets hself hD (hs.record_other he) (htodo st rfl)).mono ?_ ?_
    · rintro ⟨state, s'⟩ (⟨_, hcore, _⟩ | ⟨_, hadmits, hreaches⟩)
      · refine ⟨⟨s.toCore, .ignored _, ?_⟩, hcore ▸ h⟩
        rw [hcore]
      · exact ⟨⟨_, .receive st hadmits, hreaches.moves⟩, hreaches.done⟩
    · rintro f (⟨rfl, _⟩ | ⟨hadmits, hfault⟩)
      · exact .moves s.toCore _ (.ignored _) .nullPointer
      · exact .moves _ f (.receive st hadmits) hfault
  | candidate value => exact ⟨⟨_, .candidate value, .refl⟩, hD.candidate h value⟩
  | bumpState value force =>
    rw [handle, bind_iff]
    unfold bumpState
    split
    · exact ⟨⟨s.toCore, .ignored _, .refl⟩, h⟩
    · next hforce =>
      by_cases hphase : s.mPhase = .externalize
      · rw [bumpStateTo, if_pos hphase]
        exact ⟨⟨s.toCore, .ignored _, .refl⟩, h⟩
      · refine bumps s rfl value hphase ?_
        have : ¬(s.mPhase = .externalize ∨ (force = false ∧ s.mCurrentBallot.isSome)) := by
          simpa [hphase] using hforce
        simp only [Event.bumps, if_neg this]
  | timerExpired =>
    rw [handle, bind_iff]
    unfold abandonBallot
    split
    · exact ⟨⟨s.toCore, .ignored _, .refl⟩, h⟩
    · next v hv =>
      simp only [if_true, bumpState, Bool.not_true, Bool.false_and, Bool.false_eq_true, if_false]
      by_cases hphase : s.mPhase = .externalize
      · rw [bumpStateTo, if_pos hphase]
        exact ⟨⟨s.toCore, .ignored _, .refl⟩, h⟩
      · refine bumps { s with timer := false } rfl v hphase ?_
        have hv' := hv
        simp only [Event.bumps, if_neg hphase, hv', Option.map_some]

theorem handle_meets {s : BallotProtocol} (hs : s.Sound scp) (he : e.FromOther scp) :
    Meets (handle scp s e) (fun s' => ∃ s1, Happens scp s.toCore e s1 ∧ Moves scp s1 s'.toCore)
      (HandleFault scp s.toCore e) :=
  (handle_settles (settling_true scp) hs he trivial fun _ _ => trivial).mono (fun _ h => h.1) fun _ h => h

/-! ### Runs -/

theorem fresh_sound : (fresh scp).Sound scp where
  prime := by simp [fresh, PrimeBelow]
  own := by simp [fresh]

theorem Happens.sound {s' : Core} (hs : s.Sound scp) (he : e.FromOther scp) (h : Happens scp s e s') :
    s'.Sound scp := by
  cases h with
  | ignored _ => exact hs
  | receive st _ => exact hs.record_other he
  | candidate value => exact ⟨hs.prime, hs.own⟩
  | bump _ ballot _ _ hdoes => exact hs.does hdoes

/-- **Along every run** what calls settle is settled, if what is received leaves no more to do than the
search can. -/
theorem run_settles (hD : Settling scp Done Todo) {s : BallotProtocol} {events : List Event}
    (hother : ∀ e ∈ events, e.FromOther scp)
    (htodo : ∀ st, .receive st ∈ events → ∀ s : Core, Done s → Todo st (s.recordEnvelope st))
    (hs : s.Sound scp) (h : Done s.toCore) :
    Meets (run scp s events) (fun s' => s'.Sound scp ∧ Done s'.toCore) fun _ => True := by
  induction events generalizing s with
  | nil => exact ⟨hs, h⟩
  | cons e rest ih =>
    have he := hother e (.head _)
    have hhandle := handle_settles hD hs he h fun st hst => htodo st (hst ▸ .head _) _ h
    refine bind hhandle.anyFault ?_
    intro s1 ⟨⟨s0, happens, hmoves⟩, h1⟩
    exact ih (fun e' he' => hother e' (.tail _ he')) (fun st hst => htodo st (.tail _ hst))
      ((happens.sound hs he).moves hmoves) h1

/-- What an event and the moves after it add to the record: the node's own
statements, and the one received. -/
theorem handle_history {s s' : BallotProtocol} {s1 : Core} (happens : Happens scp s.toCore e s1)
    (hmoves : Moves scp s1 s'.toCore) :
    (∀ st ∈ s.mStatementsHistory, st ∈ s'.mStatementsHistory) ∧
      ∀ st ∈ s'.mStatementsHistory,
        st ∈ s.mStatementsHistory ∨ st.nodeID = scp.localNode.mNodeID ∨ e = .receive st := by
  have hfirst : (∀ st ∈ s.mStatementsHistory, st ∈ s1.mStatementsHistory) ∧
      ∀ st ∈ s1.mStatementsHistory,
        st ∈ s.mStatementsHistory ∨ st.nodeID = scp.localNode.mNodeID ∨ e = .receive st := by
    cases happens with
    | ignored _ | candidate _ => exact ⟨fun _ h => h, fun _ h => .inl h⟩
    | receive st _ =>
      refine ⟨fun _ h => List.mem_append_left _ h, ?_⟩
      intro st' hst'
      rcases List.mem_append.mp hst' with h | h
      · exact .inl h
      · exact .inr (.inr (by rw [List.mem_singleton.mp h]))
    | bump _ ballot _ _ hdoes =>
      obtain ⟨own, hown, hself⟩ := hdoes.frame.history
      refine ⟨fun _ h => hdoes.frame.mem_history h, ?_⟩
      intro st hst
      rw [hown] at hst
      rcases List.mem_append.mp hst with h | h
      · exact .inl h
      · exact .inr (.inl (hself st h))
  obtain ⟨own, hown, hself⟩ := hmoves.frame.history
  refine ⟨fun st h => hmoves.frame.mem_history (hfirst.1 st h), ?_⟩
  intro st hst
  rw [hown] at hst
  rcases List.mem_append.mp hst with h | h
  · exact hfirst.2 st h
  · exact .inr (.inl (hself st h))

/-- What each event and each move preserves holds after any run of events. -/
structure Invariant (scp : SCP) (allowed : Event → Prop) (I : Core → Prop) : Prop where
  happens : ∀ s e s', I s → s.Sound scp → allowed e → Happens scp s e s' → I s'
  move : ∀ s s', I s → s.Sound scp → Move scp s s' → I s'

variable {allowed : Event → Prop} {I : Core → Prop}

theorem Invariant.moves (hI : Invariant scp allowed I) {s' : Core} (hs : s.Sound scp) (h : I s)
    (hmoves : Moves scp s s') : I s' := by
  induction hmoves with
  | refl => exact h
  | tail hmoves hmove ih => exact hI.move _ _ ih (hs.moves hmoves) hmove

theorem Invariant.handle (hI : Invariant scp allowed I) (hother : ∀ e, allowed e → e.FromOther scp)
    {s : BallotProtocol} (he : allowed e) (hs : s.Sound scp) (h : I s.toCore) :
    Meets (handle scp s e)
      (fun s' => s'.Sound scp ∧ I s'.toCore ∧
        ∃ s1, Happens scp s.toCore e s1 ∧ Moves scp s1 s'.toCore)
      (HandleFault scp s.toCore e) := by
  refine (handle_meets hs (hother e he)).mono ?_ fun _ h => h
  rintro s' ⟨s1, happens, hmoves⟩
  have hs1 := happens.sound hs (hother e he)
  exact ⟨hs1.moves hmoves, hI.moves hs1 (hI.happens _ _ _ h hs he happens) hmoves, s1, happens, hmoves⟩

/-- **An invariant holds along every run**, and a run that faults does so from
registers the invariant holds of. -/
theorem run_meets (hI : Invariant scp allowed I) (hother : ∀ e, allowed e → e.FromOther scp) (events : List Event)
    (hallowed : ∀ e ∈ events, allowed e) {s : BallotProtocol} (hs : s.Sound scp) (h : I s.toCore) :
    Meets (run scp s events) (fun s' => s'.Sound scp ∧ I s'.toCore)
      (fun f => ∃ s' e, s'.Sound scp ∧ I s' ∧ allowed e ∧ HandleFault scp s' e f) := by
  induction events generalizing s with
  | nil => exact ⟨hs, h⟩
  | cons e rest ih =>
    have he := hallowed e (.head _)
    rw [run, bind_iff]
    refine (hI.handle hother he hs h).mono ?_ ?_
    · rintro s' ⟨hs', h', _⟩
      exact ih (fun e' he' => hallowed e' (.tail _ he')) hs' h'
    · intro f hfault
      exact ⟨s.toCore, e, hs, h, he, hfault⟩

theorem run_fault (hI : Invariant scp allowed I) (hother : ∀ e, allowed e → e.FromOther scp) {events : List Event}
    (hallowed : ∀ e ∈ events, allowed e) (hfresh : I (fresh scp).toCore) {f : Fault}
    (hrun : run scp (fresh scp) events = .error f) :
    (∃ s a, s.Sound scp ∧ I s ∧ s.ActFault scp a f ∧
      (s.Enabled scp a ∨ ∃ e ballot, allowed e ∧ e.bumps s = some ballot ∧ a = .bump ballot)) ∨
    f = .nullPointer ∨ f = .maxTransitions ∨ f = .dbgAssert .attemptAcceptPrepared := by
  obtain ⟨s, e, hs, h, he, hfault⟩ :=
    (run_meets hI hother events hallowed fresh_sound hfresh).of_error hrun
  cases hfault with
  | bump ballot _ hb hact => exact .inl ⟨s, _, hs, h, hact, .inr ⟨e, ballot, he, hb, rfl⟩⟩
  | moves s1 _ happens hfaulty =>
    have hs1 := happens.sound hs (hother e he)
    have h1 := hI.happens _ _ _ h hs he happens
    cases hfaulty with
    | act s2 a _ hmoves enabled hact =>
      exact .inl ⟨s2, a, hs1.moves hmoves, hI.moves hs1 h1 hmoves, hact, .inl enabled⟩
    | search => exact .inr (.inr (.inr rfl))
    | nullPointer => exact .inr (.inl rfl)
    | maxTransitions => exact .inr (.inr (.inl rfl))

end BallotProtocol
end Diamnet.Scp
