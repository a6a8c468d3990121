import Diamnet.Scp.Registers

/-! The ballot protocol as moves on its registers.

Whatever calls it goes through, a node changes its own registers in five ways
only: it accepts or confirms a ballot as prepared, accepts or confirms a commit,
or bumps its ballot. Each is an `Action`, with the condition the code has
established when it takes it (`Enabled`), and is followed by publishing the
statement of the new registers. `Moves` are runs of such actions, and `Faulty`
says which faults they can end in. Properties of the protocol are proved of
moves; that the code's functions make no others is proved apart. -/
namespace Diamnet.Scp

/-- What a node does to its registers on its own account. -/
inductive Action where
  | acceptPrepared (ballot : SCPBallot)
  | confirmPrepared (newC newH : SCPBallot)
  | acceptCommit (c h : SCPBallot)
  | confirmCommit (c h : SCPBallot)
  | bump (ballot : SCPBallot)

/-- The registers after an action, and whether it did any work. -/
def Action.update (s : Core) : Action → Except Fault (Bool × Core)
  | .acceptPrepared ballot => s.acceptPrepared ballot
  | .confirmPrepared newC newH => s.confirmPrepared newC newH
  | .acceptCommit c h => s.acceptCommit c h
  | .confirmCommit c h => do
    let s ← s.confirmCommit c h
    pure (true, s)
  | .bump ballot => s.updateCurrentValue ballot

namespace Core
variable (scp : SCP)

/-- Whether a statement is taken in, but for the externalized value. -/
def admits (s : Core) (st : SCPStatement) (self : Bool) : Bool :=
  isStatementSane scp st self && s.isNewer st && decide (validateValues scp st ≠ .kInvalidValue)

/-! ### When the code takes an action -/

structure CanAcceptPrepared (s : Core) (ballot : SCPBallot) : Prop where
  active : s.mPhase ≠ .externalize
  candidate : ∃ hint ∈ s.mStatementsHistory, ballot ∈ s.getPrepareCandidates hint
  kept : s.skipsPrepared ballot = .ok false
  accepted : s.federatedAccept scp (votesPrepared ballot) (hasPreparedBallot ballot) = true

structure CanConfirmPrepared (s : Core) (newC newH : SCPBallot) : Prop where
  active : s.mPhase = .prepare
  ratified : s.federatedRatify scp (hasPreparedBallot newH) = true
  /-- Whatever a quorum has accepted as prepared, the node has too. -/
  prepared : ∃ p, s.mPrepared = some p ∧ newH ≤ p
  candidate : ∃ hint ∈ s.mStatementsHistory, newH ∈ s.getPrepareCandidates hint
  raises : ∀ h, s.mHighBallot = some h → h < newH
  commit : newC = default ∨ s.CanCommit newC newH

structure CanAcceptCommit (s : Core) (c h : SCPBallot) : Prop where
  active : s.mPhase ≠ .externalize
  hint : ∃ hint ∈ s.mStatementsHistory, ∃ ballot, acceptCommitHint hint = some ballot ∧
    ballot.value = h.value
  value : c.value = h.value
  counter : c.counter ≠ 0
  low : c.counter ≤ h.counter
  raises : s.mPhase = .confirm → ∃ h', s.mHighBallot = some h' ∧ h'.value = h.value ∧ h' < h

structure CanConfirmCommit (s : Core) (c h : SCPBallot) : Prop where
  active : s.mPhase = .confirm
  commit : ∃ c', s.mCommit = some c' ∧ c'.value = h.value
  value : c.value = h.value
  counter : c.counter ≠ 0
  low : c.counter ≤ h.counter
  ratified : s.federatedRatify scp (commitPredicate h ⟨c.counter, h.counter⟩) = true

/-- Step (9): a counter ahead of the node's. -/
structure CanBump (s : Core) (ballot : SCPBallot) : Prop where
  active : s.mPhase ≠ .externalize
  value : ∃ v, s.abandonValue = some v ∧ ballot = s.bumpBallot v ballot.counter
  ahead : (s.mCurrentBallot.map (·.counter)).getD 0 < ballot.counter

/-- What the code has established when it takes an action of its own accord. -/
def Enabled (s : Core) : Action → Prop
  | .acceptPrepared ballot => s.CanAcceptPrepared scp ballot
  | .confirmPrepared newC newH => s.CanConfirmPrepared scp newC newH
  | .acceptCommit c h => s.CanAcceptCommit c h
  | .confirmCommit c h => s.CanConfirmCommit scp c h
  | .bump ballot => s.CanBump ballot

/-- An action the code takes: enabled, or a bump an event calls for. -/
def Taken (s : Core) : Action → Prop
  | .bump ballot => s.mPhase ≠ .externalize ∧
      (∃ value, ballot = s.bumpBallot value ballot.counter) ∧
      (s.mCurrentBallot = none → ballot.counter ≠ 0)
  | a => s.Enabled scp a

/-! ### What an action leaves -/

/-- The registers an enabled action leaves, and whether it did any work. -/
inductive Effect (s : Core) : Action → Bool → Core → Prop where
  | acceptPrepared (ballot : SCPBallot) (s1 : Core) (hprep : s.Prepares ballot s1)
      (hkeep : s.mCommit.isSome → ∀ h, s.mHighBallot = some h → ¬s1.aborted h) :
      Effect s (.acceptPrepared ballot) true s1
  | clearCommit (ballot : SCPBallot) (s1 : Core) (hprep : s.Prepares ballot s1)
      (hphase : s.mPhase = .prepare) :
      Effect s (.acceptPrepared ballot) true { s1 with mCommit := none }
  | confirmPrepared (newC newH : SCPBallot) (didWork : Bool) (s' : Core)
      (h : s.ConfirmsPrepared newC newH didWork s') : Effect s (.confirmPrepared newC newH) didWork s'
  | acceptCommit (c h b : SCPBallot) (prime : Option SCPBallot) (heard : Bool)
      (ha : s.AcceptsCommit h b prime) :
      Effect s (.acceptCommit c h) true { s with
        mValueOverride := some h.value
        mCommit := some c
        mHighBallot := some h
        mPhase := .confirm
        mCurrentBallot := some b
        mPreparedPrime := prime
        mHeardFromQuorum := heard }
  | confirmCommit (c h b : SCPBallot) (heard : Bool) (hle : h ≤ b)
      (hmono : ∀ b', s.mCurrentBallot = some b' → b' ≤ b) (hb : b = h ∨ s.mCurrentBallot = some b) :
      Effect s (.confirmCommit c h) true { s with
        mCommit := some c
        mHighBallot := some h
        mPhase := .externalize
        mCurrentBallot := some b
        mHeardFromQuorum := heard }
  | bump (ballot : SCPBallot) (s' : Core) (h : s.MovesValue ballot s') : Effect s (.bump ballot) true s'
  | stay (ballot : SCPBallot) : Effect s (.bump ballot) false s

/-- The faults of an action's update. -/
inductive UpdateFault (s : Core) : Action → Fault → Prop where
  | acceptPrepared (ballot : SCPBallot) (hphase : s.mPhase ≠ .prepare) :
      UpdateFault s (.acceptPrepared ballot) (.dbgAssert .setAcceptPrepared)
  | bumpInvariants (ballot : SCPBallot) (s' : Core) (hs' : s' = s ∨ s.MovesValue ballot s')
      (hinv : s'.checkInvariants = false) :
      UpdateFault s (.bump ballot) (.dbgAssert .checkInvariants)
  | bumpLower (ballot b : SCPBallot) (hb : s.mCurrentBallot = some b) (hlt : ballot < b) :
      UpdateFault s (.bump ballot) (.dbgAssert .updateCurrentValue)

variable {scp}

variable {s : Core} {a : Action}

theorem Enabled.taken (h : s.Enabled scp a) : s.Taken scp a := by
  cases a with
  | bump ballot =>
    obtain ⟨v, _, hballot⟩ := h.value
    exact ⟨h.active, ⟨v, hballot⟩, fun _ => uint32_ne_zero_of_lt h.ahead⟩
  | _ => exact h

variable {ballot : SCPBallot}

theorem skipsPrepared_ok (h : s.skipsPrepared ballot = .ok false) :
    s.alreadyPrepared ballot = false ∧
      (s.mPhase = .confirm → ∃ p c, s.mPrepared = some p ∧ s.mCommit = some c ∧ p ≤ ballot ∧
        p.value = ballot.value ∧ c.value = ballot.value) := by
  unfold skipsPrepared at h
  split at h
  · next hphase =>
    cases hp : s.mPrepared with
    | none => simp [hp] at h
    | some p =>
      by_cases hle : areBallotsLessAndCompatible p ballot = true
      · cases hc : s.mCommit with
        | none => simp [hp, hle, hc] at h
        | some c =>
          by_cases hv : areBallotsCompatible c ballot = true
          · simp only [hp, hle, if_true, hc, hv] at h
            obtain ⟨hle, hpv⟩ := lessAndCompatible_iff.mp hle
            exact ⟨Except.ok.inj h, fun _ => ⟨p, c, rfl, rfl, hle, hpv, compatible_iff.mp hv⟩⟩
          · simp [hp, hle, hc, hv] at h
      · simp only [hp, hle] at h
        exact absurd (Except.ok.inj h) (by decide)
  · next hphase => exact ⟨Except.ok.inj h, fun hc => absurd hc hphase⟩

theorem bump_meets (s : Core) (ballot : SCPBallot) :
    Meets (Action.update s (.bump ballot)) (fun (didWork, s') => s.Effect (.bump ballot) didWork s')
      (s.UpdateFault (.bump ballot)) := by
  refine (updateCurrentValue_meets s ballot).mono ?_ ?_
  · rintro ⟨didWork, s'⟩ (⟨rfl, rfl⟩ | ⟨rfl, hmoves, _⟩)
    · exact .stay ballot
    · exact .bump ballot s' hmoves
  · rintro f (⟨rfl, s', hs', hinv⟩ | ⟨rfl, b, hb, hlt⟩)
    · exact .bumpInvariants ballot s' hs' hinv
    · exact .bumpLower ballot b hb hlt

/-- **An enabled action has its effect or one of its faults.** -/
theorem update_meets (enabled : s.Enabled scp a) :
    Meets (a.update s) (fun (didWork, s') => s.Effect a didWork s') (s.UpdateFault a) := by
  cases a with
  | acceptPrepared ballot =>
    refine (acceptPrepared_meets (skipsPrepared_ok enabled.kept).1).mono ?_ ?_
    · rintro ⟨didWork, s'⟩ ⟨rfl, s1, hprep, ⟨rfl, hkeep⟩ | ⟨rfl, hphase⟩⟩
      · exact .acceptPrepared ballot _ hprep hkeep
      · exact .clearCommit ballot s1 hprep hphase
    · rintro f ⟨rfl, hphase⟩
      exact .acceptPrepared ballot hphase
  | confirmPrepared newC newH =>
    refine (confirmPrepared_meets enabled.active enabled.raises enabled.commit).mono ?_ ?_
    · rintro ⟨didWork, s'⟩ h
      exact .confirmPrepared newC newH didWork s' h
    · exact fun _ h => h.elim
  | acceptCommit c h =>
    have hraises : s.mPhase = .confirm → ∃ h', s.mHighBallot = some h' ∧ h' < h := by
      intro hphase
      obtain ⟨h', hh', _, hlt⟩ := enabled.raises hphase
      exact ⟨h', hh', hlt⟩
    refine (acceptCommit_meets enabled.active hraises).mono ?_ ?_
    · rintro ⟨didWork, s'⟩ ⟨rfl, b, prime, heard, ha, rfl⟩
      exact .acceptCommit c h b prime heard ha
    · exact fun _ h => h.elim
  | confirmCommit c h =>
    have hactive : s.mPhase ≠ .externalize := by simp [enabled.active]
    rw [Action.update, Meets.bind_iff]
    refine (confirmCommit_meets hactive).mono ?_ ?_
    · rintro s' ⟨b, heard, rfl, hle, hmono, hb⟩
      exact .confirmCommit c h b heard hle hmono hb
    · exact fun _ h => h.elim
  | bump ballot => exact bump_meets s ballot

variable (scp)

/-! ### Publishing -/

/-- What publishing does to the record of statements. -/
inductive Published (s : Core) : Core → Prop where
  | again (st : SCPStatement) (hst : s.statement scp = some st)
      (hlast : s.mLatestEnvelopes.lookup scp.localNode.mNodeID = some st) : Published s s
  | record (st : SCPStatement) (hst : s.statement scp = some st)
      (hadmits : s.admits scp st true = true) : Published s (s.recordEnvelope st)

/-- The faults of publishing, which may be one call too deep. -/
inductive PublishFault (s : Core) : Fault → Prop where
  | invariants (hinv : s.checkInvariants = false) : PublishFault s (.dbgAssert .checkInvariants)
  | nullPointer : PublishFault s .nullPointer
  | maxTransitions : PublishFault s .maxTransitions
  | badState (st : SCPStatement) (hinv : s.checkInvariants = true) (hst : s.statement scp = some st)
      (hlast : s.mLatestEnvelopes.lookup scp.localNode.mNodeID ≠ some st)
      (hadmits : s.admits scp st true = false) : PublishFault s (.badState st)

variable {scp}

theorem createStatement_meets (s : Core) :
    Meets (s.createStatement scp) (fun st => s.checkInvariants = true ∧ s.statement scp = some st)
      (fun f => (f = .dbgAssert .checkInvariants ∧ s.checkInvariants = false) ∨ f = .nullPointer) := by
  unfold createStatement
  rw [Meets.bind_iff]
  refine s.assertInvariants_meets.mono ?_ ?_
  · rintro _ hinv
    split
    · next st hst => exact ⟨hinv, hst⟩
    · exact .inr rfl
  · exact fun f hf => .inl hf

variable {st : SCPStatement}

theorem statement_nodeID (h : s.statement scp = some st) : st.nodeID = scp.localNode.mNodeID := by
  unfold statement at h
  split at h
  · cases h
    rfl
  · split at h
    · cases h
      rfl
    · cases h
  · split at h
    · cases h
      rfl
    · cases h

variable (scp)

/-- What an action does: its effect on the registers, published if it did any work. -/
inductive Does (s : Core) (a : Action) : Core → Prop where
  | quiet (s' : Core) (heff : s.Effect a false s') : Does s a s'
  | publish (s1 s' : Core) (heff : s.Effect a true s1) (hinv : s1.checkInvariants = true)
      (hpub : s1.Published scp s') : Does s a s'

/-- How an action fails: in its update, or in publishing what it left. -/
inductive ActFault (s : Core) (a : Action) : Fault → Prop where
  | update (f : Fault) (h : s.UpdateFault a f) : ActFault s a f
  | publish (s1 : Core) (f : Fault) (heff : s.Effect a true s1) (h : s1.PublishFault scp f) :
      ActFault s a f

/-! ### Runs of actions -/

/-- One action, or a change of the one register no decision but the timer's rests on. -/
inductive Move (s : Core) : Core → Prop where
  | act (a : Action) (s' : Core) (enabled : s.Enabled scp a) (h : s.Does scp a s') : Move s s'
  | heard (heard : Bool) : Move s { s with mHeardFromQuorum := heard }

abbrev Moves : Core → Core → Prop := Relation.ReflTransGen (Move scp)

/-- The faults moves can end in. The searches for a ballot to accept dereference
registers and make an assertion of their own; of those nothing is said. -/
inductive Faulty (s : Core) : Fault → Prop where
  | act (s' : Core) (a : Action) (f : Fault) (moves : Moves scp s s') (enabled : s'.Enabled scp a)
      (h : s'.ActFault scp a f) : Faulty s f
  | search : Faulty s (.dbgAssert .attemptAcceptPrepared)
  | nullPointer : Faulty s .nullPointer
  | maxTransitions : Faulty s .maxTransitions

variable {scp}

theorem Moves.heard (s : Core) (heard : Bool) : Moves scp s { s with mHeardFromQuorum := heard } :=
  .single (.heard heard)

variable {s' : Core}

theorem Faulty.of_moves {f : Fault} (hmoves : Moves scp s s') (h : Faulty scp s' f) : Faulty scp s f := by
  cases h with
  | act s'' a f moves enabled h => exact .act s'' a f (hmoves.trans moves) enabled h
  | search => exact .search
  | nullPointer => exact .nullPointer
  | maxTransitions => exact .maxTransitions

/-! ### What moves leave alone -/

/-- The bumps a node can still make: one for each counter ahead of it, and those
over again should accepting a commit take it back to a lower ballot. -/
def bumpsLeft (s : Core) : Nat :=
  (if s.mPhase = .prepare then 2 ^ 32 else 0) +
    (2 ^ 32 - (s.mCurrentBallot.map (·.counter.toNat)).getD 0)

variable (scp)

structure Frame (s s' : Core) : Prop where
  others : ∀ n, n ≠ scp.localNode.mNodeID → s'.mLatestEnvelopes.lookup n = s.mLatestEnvelopes.lookup n
  prepared : ∀ p, s.mPrepared = some p → ∃ q, s'.mPrepared = some q ∧ p ≤ q
  phase : s'.mPhase = .prepare → s.mPhase = .prepare
  history : ∃ own, s'.mStatementsHistory = s.mStatementsHistory ++ own ∧
    ∀ st ∈ own, st.nodeID = scp.localNode.mNodeID
  bumps : s'.bumpsLeft ≤ s.bumpsLeft

variable {scp}

namespace Frame

theorem refl (s : Core) : Frame scp s s where
  others _ _ := rfl
  prepared p hp := ⟨p, hp, le_rfl⟩
  phase h := h
  history := ⟨[], by simp, by simp⟩
  bumps := le_rfl

theorem trans {s s1 s2 : Core} (h : Frame scp s s1) (h' : Frame scp s1 s2) : Frame scp s s2 where
  others n hn := (h'.others n hn).trans (h.others n hn)
  prepared p hp := by
    obtain ⟨q, hq, hle⟩ := h.prepared p hp
    obtain ⟨r, hr, hle'⟩ := h'.prepared q hq
    exact ⟨r, hr, hle.trans hle'⟩
  phase hs := h.phase (h'.phase hs)
  history := by
    obtain ⟨own, hown, hself⟩ := h.history
    obtain ⟨own', hown', hself'⟩ := h'.history
    refine ⟨own ++ own', by rw [hown', hown, List.append_assoc], ?_⟩
    intro st hst
    rcases List.mem_append.mp hst with hst | hst
    · exact hself st hst
    · exact hself' st hst
  bumps := h'.bumps.trans h.bumps

theorem mem_history {s s' : Core} (h : Frame scp s s') {st : SCPStatement}
    (hst : st ∈ s.mStatementsHistory) : st ∈ s'.mStatementsHistory := by
  obtain ⟨own, hown, _⟩ := h.history
  rw [hown]
  exact List.mem_append_left own hst

end Frame

private theorem frame_of_current {s s' : Core} (hM : s'.mLatestEnvelopes = s.mLatestEnvelopes)
    (hp : s'.mPrepared = s.mPrepared) (hphase : s'.mPhase = .prepare → s.mPhase = .prepare)
    (hhist : s'.mStatementsHistory = s.mStatementsHistory)
    (hb : ∀ b, s.mCurrentBallot = some b → ∃ b', s'.mCurrentBallot = some b' ∧ b ≤ b') :
    Frame scp s s' where
  others n _ := by rw [hM]
  prepared p hp' := ⟨p, hp.trans hp', le_rfl⟩
  phase := hphase
  history := ⟨[], by simp [hhist], by simp⟩
  bumps := by
    have hcounter : (s.mCurrentBallot.map (·.counter.toNat)).getD 0 ≤
        (s'.mCurrentBallot.map (·.counter.toNat)).getD 0 := by
      cases hs : s.mCurrentBallot with
      | none => simp
      | some b =>
        obtain ⟨b', hb', hle⟩ := hb b hs
        simpa [hb'] using UInt32.le_iff_toNat_le.mp (SCPBallot.counter_le hle)
    have hleft : (if s'.mPhase = .prepare then 2 ^ 32 else 0) ≤
        (if s.mPhase = .prepare then 2 ^ 32 else 0) := by
      split
      · next h => simp [hphase h]
      · exact Nat.zero_le _
    unfold bumpsLeft
    omega

theorem MovedTo.frame (h : MovedTo s ballot s') (hle : ∀ b, s.mCurrentBallot = some b → b ≤ ballot) :
    Frame scp s s' := by
  cases h with
  | keeps heard _ => exact frame_of_current rfl rfl id rfl fun b hb => ⟨ballot, rfl, hle b hb⟩
  | drops heard _ _ _ => exact frame_of_current rfl rfl id rfl fun b hb => ⟨ballot, rfl, hle b hb⟩

theorem Prepares.le_prepared (h : Prepares s ballot s') :
    (∀ p, s.mPrepared = some p → ∃ q, s'.mPrepared = some q ∧ p ≤ q) ∧
      ∃ q, s'.mPrepared = some q ∧ ballot ≤ q := by
  cases h with
  | first hnone => exact ⟨by simp [hnone], ballot, rfl, le_rfl⟩
  | raise p hp hlt _ | switch p hp hlt _ =>
    refine ⟨?_, ballot, rfl, le_rfl⟩
    intro p' hp'
    rw [hp] at hp'
    cases hp'
    exact ⟨ballot, rfl, hlt.le⟩
  | prime p hp hlt _ _ => exact ⟨fun q hq => ⟨q, hq, le_rfl⟩, p, hp, hlt.le⟩

theorem Prepares.frame (h : Prepares s ballot s') : Frame scp s s' := by
  have hprepared := h.le_prepared.1
  cases h <;>
    exact {
      others := fun _ _ => rfl
      prepared := hprepared
      phase := id
      history := ⟨[], by simp, by simp⟩
      bumps := le_rfl }

variable {didWork : Bool}

theorem Effect.le_prepared (h : s.Effect (.acceptPrepared ballot) didWork s') :
    ∃ p, s'.mPrepared = some p ∧ ballot ≤ p := by
  cases h with
  | acceptPrepared _ _ hprep _ | clearCommit _ _ hprep _ => exact hprep.le_prepared.2

theorem Effect.frame (h : s.Effect a didWork s') : Frame scp s s' := by
  cases h with
  | acceptPrepared ballot _ hprep _ => exact hprep.frame
  | clearCommit ballot s1 hprep _ =>
    refine hprep.frame.trans (frame_of_current rfl rfl id rfl ?_)
    exact fun b hb => ⟨b, hb, le_rfl⟩
  | confirmPrepared newC newH _ _ h =>
    cases h with
    | high b heard _ _ hmono _ => exact frame_of_current rfl rfl id rfl fun b' hb' => ⟨b, rfl, hmono b' hb'⟩
    | switch b hb _ hlt s' hmoved =>
      refine Frame.trans ?_ (hmoved.frame ?_)
      · exact frame_of_current rfl rfl id rfl fun b hb => ⟨b, hb, le_rfl⟩
      · intro b' hb'
        have : b' = b := Option.some.inj (Eq.trans (Eq.symm hb') hb)
        exact this ▸ hlt.le
    | stay b _ _ _ => exact frame_of_current rfl rfl id rfl fun b hb => ⟨b, hb, le_rfl⟩
  | acceptCommit c h b prime heard ha =>
    by_cases hphase : s.mPhase = .prepare
    · refine ⟨fun _ _ => rfl, fun p hp => ⟨p, hp, le_rfl⟩, by simp, ⟨[], by simp, by simp⟩, ?_⟩
      simp [bumpsLeft, hphase]
      omega
    · refine frame_of_current rfl rfl (by simp) rfl ?_
      exact fun b' hb' => ⟨b, rfl, (ha.confirm hphase).2 b' hb'⟩
  | confirmCommit c h b heard _ hmono _ =>
    exact frame_of_current rfl rfl (by simp) rfl fun b' hb' => ⟨b, rfl, hmono b' hb'⟩
  | bump ballot _ h => exact h.moved.frame fun b hb => (h.lower b hb).le
  | stay ballot => exact Frame.refl s

theorem Effect.bumpsLeft_lt (h : s.Effect (.bump ballot) true s')
    (hahead : (s.mCurrentBallot.map (·.counter)).getD 0 < ballot.counter) : s'.bumpsLeft < s.bumpsLeft := by
  obtain ⟨hcurrent, hphase⟩ : s'.mCurrentBallot = some ballot ∧ s'.mPhase = s.mPhase := by
    cases h with
    | bump _ _ h => cases h.moved <;> exact ⟨rfl, rfl⟩
  have hlt : (s.mCurrentBallot.map (·.counter.toNat)).getD 0 < ballot.counter.toNat := by
    have := UInt32.lt_iff_toNat_lt.mp hahead
    cases hb : s.mCurrentBallot <;> simpa [hb] using this
  have := ballot.counter.toNat_lt
  simp only [bumpsLeft, hcurrent, hphase, Option.map_some, Option.getD_some]
  omega

theorem Published.frame (h : s.Published scp s') : Frame scp s s' := by
  cases h with
  | again _ _ _ => exact Frame.refl s
  | record st hst _ =>
    have hself := statement_nodeID hst
    refine ⟨?_, fun p hp => ⟨p, hp, le_rfl⟩, id, ⟨[st], rfl, by simpa using hself⟩, le_rfl⟩
    intro n hn
    exact AList.lookup_insert_ne (hself ▸ hn)

theorem Does.frame (h : s.Does scp a s') : Frame scp s s' := by
  cases h with
  | quiet _ heff => exact heff.frame
  | publish s1 _ heff _ hpub => exact heff.frame.trans hpub.frame

theorem Moves.frame (h : Moves scp s s') : Frame scp s s' := by
  induction h with
  | refl => exact Frame.refl s
  | tail _ hmove ih =>
    refine ih.trans ?_
    cases hmove with
    | act a _ _ hdoes => exact hdoes.frame
    | heard heard => exact ⟨fun _ _ => rfl, fun p hp => ⟨p, hp, le_rfl⟩, id, ⟨[], by simp, by simp⟩, le_rfl⟩

/-! ### p against p' and against the node's latest statement -/

variable (scp)

/-- p' is below p, and what the node has said it prepared is not above p. -/
structure Sound (s : Core) : Prop where
  prime : s.PrimeBelow
  own : s.mPhase = .prepare → ∀ st, s.mLatestEnvelopes.lookup scp.localNode.mNodeID = some st →
    ∀ ballot, hasPreparedBallot ballot st = true → ∃ p, s.mPrepared = some p ∧ ballot ≤ p

variable {scp}

theorem Prepares.primeBelow (h : Prepares s ballot s') (hs : s.PrimeBelow) : s'.PrimeBelow := by
  intro p' hp'
  cases h with
  | first hnone =>
    obtain ⟨p, hp, _⟩ := hs p' hp'
    simp [hnone] at hp
  | raise p hp hlt hv =>
    obtain ⟨q, hq, hlt', hv'⟩ := hs p' hp'
    rw [hp] at hq
    cases hq
    exact ⟨ballot, rfl, hlt'.trans hlt, hv ▸ hv'⟩
  | switch p hp hlt hv =>
    cases hp'
    exact ⟨ballot, rfl, hlt, hv⟩
  | prime p hp hlt hv _ =>
    cases hp'
    exact ⟨p, hp, hlt, hv⟩

theorem Effect.primeBelow (h : s.Effect a didWork s') (hs : s.PrimeBelow) : s'.PrimeBelow := by
  cases h with
  | acceptPrepared ballot _ hprep _ => exact hprep.primeBelow hs
  | clearCommit ballot s1 hprep _ => exact hprep.primeBelow hs
  | confirmPrepared newC newH _ _ h =>
    cases h with
    | high => exact hs
    | switch b _ _ _ _ hmoved => cases hmoved <;> exact hs
    | stay => exact hs
  | acceptCommit c h b prime heard ha =>
    by_cases hphase : s.mPhase = .prepare
    · intro p' hp'
      rw [show prime = none from (ha.prepare hphase).1] at hp'
      cases hp'
    · intro p' hp'
      exact hs p' ((ha.confirm hphase).1.symm.trans hp')
  | confirmCommit => exact hs
  | bump ballot _ h => cases h.moved <;> exact hs
  | stay => exact hs

theorem Effect.statements (h : s.Effect a didWork s') :
    s'.mLatestEnvelopes = s.mLatestEnvelopes ∧ s'.mStatementsHistory = s.mStatementsHistory := by
  cases h with
  | acceptPrepared _ _ hprep _ | clearCommit _ _ hprep _ => cases hprep <;> exact ⟨rfl, rfl⟩
  | confirmPrepared _ _ _ _ h =>
    cases h with
    | switch _ _ _ _ _ hmoved => cases hmoved <;> exact ⟨rfl, rfl⟩
    | _ => exact ⟨rfl, rfl⟩
  | bump _ _ h => cases h.moved <;> exact ⟨rfl, rfl⟩
  | _ => exact ⟨rfl, rfl⟩

theorem Sound.effect (hs : s.Sound scp) (h : s.Effect a didWork s') : s'.Sound scp where
  prime := h.primeBelow hs.prime
  own hphase st hst ballot hprep := by
    rw [h.statements.1] at hst
    have hframe : Frame scp s s' := h.frame
    obtain ⟨p, hp, hle⟩ := hs.own (hframe.phase hphase) st hst ballot hprep
    obtain ⟨q, hq, hle'⟩ := hframe.prepared p hp
    exact ⟨q, hq, hle.trans hle'⟩

theorem prepared_of_statement (hprime : s.PrimeBelow) (hphase : s.mPhase = .prepare)
    (hst : s.statement scp = some st) (h : hasPreparedBallot ballot st = true) :
    ∃ p, s.mPrepared = some p ∧ ballot ≤ p := by
  simp only [statement, hphase] at hst
  cases hst
  simp only [hasPreparedBallot, Bool.or_eq_true, Option.any_eq_true, lessAndCompatible_iff] at h
  rcases h with ⟨p, hp, hle, _⟩ | ⟨p', hp', hle, _⟩
  · exact ⟨p, hp, hle⟩
  · obtain ⟨p, hp, hlt, _⟩ := hprime p' hp'
    exact ⟨p, hp, hle.trans hlt.le⟩

theorem Sound.record_own (hs : s.Sound scp) (hst : s.statement scp = some st) : (s.recordEnvelope st).Sound scp := by
  refine ⟨hs.prime, ?_⟩
  intro hphase st' hst' ballot hprep
  have hlookup : (s.recordEnvelope st).mLatestEnvelopes.lookup scp.localNode.mNodeID = some st := by
    rw [← statement_nodeID hst]
    exact AList.lookup_insert _
  rw [hlookup] at hst'
  cases hst'
  exact prepared_of_statement hs.prime hphase hst hprep

theorem Sound.record_other (hs : s.Sound scp) (hother : st.nodeID ≠ scp.localNode.mNodeID) :
    (s.recordEnvelope st).Sound scp := by
  refine ⟨hs.prime, ?_⟩
  intro hphase st' hst'
  rw [show (s.recordEnvelope st).mLatestEnvelopes.lookup scp.localNode.mNodeID =
    s.mLatestEnvelopes.lookup scp.localNode.mNodeID from AList.lookup_insert_ne hother.symm] at hst'
  exact hs.own hphase st' hst'

theorem Sound.published (hs : s.Sound scp) (h : s.Published scp s') : s'.Sound scp := by
  cases h with
  | again _ _ _ => exact hs
  | record st hst _ => exact hs.record_own hst

theorem Sound.does (hs : s.Sound scp) (h : s.Does scp a s') : s'.Sound scp := by
  cases h with
  | quiet _ heff => exact hs.effect heff
  | publish s1 _ heff _ hpub => exact (hs.effect heff).published hpub

theorem Sound.moves (hs : s.Sound scp) (h : Moves scp s s') : s'.Sound scp := by
  induction h with
  | refl => exact hs
  | tail _ hmove ih =>
    cases hmove with
    | act a _ _ hdoes => exact ih.does hdoes
    | heard heard => exact ⟨ih.prime, ih.own⟩

end Core
end Diamnet.Scp
