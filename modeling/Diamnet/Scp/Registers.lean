import Diamnet.Scp.BallotProtocol

/-! What each register update of the ballot protocol does.

One lemma per update, as a postcondition (`Meets`): the registers it leaves, field
by field, and the faults it can stop with. Each is stated under what the code has
established when it calls the update, and is all that the later proofs know of it. -/
namespace Diamnet.Scp.Core
open Meets

theorem assertInvariants_meets (s : Core) :
    Meets s.assertInvariants (fun _ => s.checkInvariants = true)
      (fun f => f = .dbgAssert .checkInvariants ∧ s.checkInvariants = false) := by
  unfold assertInvariants
  split
  · assumption
  · next h => exact ⟨rfl, by simpa using h⟩

/-! ### Moving the current ballot -/

/-- The registers once b is `ballot`: h and c go if their value is another. -/
inductive MovedTo (s : Core) (ballot : SCPBallot) : Core → Prop where
  | keeps (heard : Bool) (hv : ∀ h, s.mHighBallot = some h → h.value = ballot.value) :
      MovedTo s ballot { s with mCurrentBallot := some ballot, mHeardFromQuorum := heard }
  | drops (heard : Bool) (h : SCPBallot) (hh : s.mHighBallot = some h) (hv : h.value ≠ ballot.value) :
      MovedTo s ballot { s with
        mCurrentBallot := some ballot, mHighBallot := none, mCommit := none,
        mHeardFromQuorum := heard }

theorem bumpToBallot_meets (s : Core) (ballot : SCPBallot) (check : Bool) :
    Meets (s.bumpToBallot ballot check)
      (fun s' => s.mPhase ≠ .externalize ∧
        (check = true → ∀ b, s.mCurrentBallot = some b → b ≤ ballot) ∧ MovedTo s ballot s')
      (fun f => f = .dbgAssert .bumpToBallotPhase ∧ s.mPhase = .externalize ∨
        f = .dbgAssert .bumpToBallotCheck ∧ check = true ∧
          ∃ b, s.mCurrentBallot = some b ∧ ballot < b) := by
  unfold bumpToBallot
  split
  · next hphase => exact .inl ⟨rfl, hphase⟩
  · next hphase =>
    split
    · next hcheck =>
      refine .inr ⟨rfl, ?_⟩
      cases hb : s.mCurrentBallot <;> simp_all
    · next hcheck =>
      refine ⟨hphase, ?_, ?_⟩
      · intro hc b hb
        simpa [hc, hb] using hcheck
      · by_cases hall : s.mHighBallot.all (areBallotsCompatible ballot ·) = true
        · have hv : ∀ h, s.mHighBallot = some h → h.value = ballot.value := by
            intro h hh
            have : ballot.value = h.value := by simpa [hh] using hall
            exact this.symm
          split
          · exact .keeps false hv
          · exact .keeps s.mHeardFromQuorum hv
        · obtain ⟨h, hh, hv⟩ : ∃ h, s.mHighBallot = some h ∧ h.value ≠ ballot.value := by
            cases hh : s.mHighBallot with
            | none => simp [hh] at hall
            | some h =>
              have : ¬ballot.value = h.value := by simpa [hh] using hall
              exact ⟨h, rfl, fun he => this he.symm⟩
          split
          · exact .drops false h hh hv
          · exact .drops s.mHeardFromQuorum h hh hv

variable {s : Core} {ballot : SCPBallot}

theorem MovedTo.of_value {s' : Core} (h : MovedTo s ballot s')
    (hv : ∀ h, s.mHighBallot = some h → h.value = ballot.value) :
    ∃ heard, s' = { s with mCurrentBallot := some ballot, mHeardFromQuorum := heard } := by
  cases h with
  | keeps heard _ => exact ⟨heard, rfl⟩
  | drops _ h hh hne => exact absurd (hv h hh) hne

theorem updateCurrentIfNeeded_meets (s : Core) (h : SCPBallot) :
    Meets (s.updateCurrentIfNeeded h)
      (fun (didWork, s') =>
        (didWork = true ∧ (∀ b, s.mCurrentBallot = some b → b < h) ∧ MovedTo s h s') ∨
        (didWork = false ∧ s' = s ∧ ∃ b, s.mCurrentBallot = some b ∧ h ≤ b))
      (fun f => f = .dbgAssert .bumpToBallotPhase ∧ s.mPhase = .externalize) := by
  unfold updateCurrentIfNeeded
  split
  · next hall =>
    have hlt : ∀ b, s.mCurrentBallot = some b → b < h := by
      intro b hb
      simpa [hb] using hall
    rw [bind_iff]
    refine (bumpToBallot_meets s h true).mono ?_ ?_
    · rintro s' ⟨_, _, hmoved⟩
      exact .inl ⟨rfl, hlt, hmoved⟩
    · rintro f (hf | ⟨_, _, b, hb, hlt'⟩)
      · exact hf
      · exact absurd (hlt b hb) hlt'.not_gt
  · next hall =>
    refine .inr ⟨rfl, rfl, ?_⟩
    cases hb : s.mCurrentBallot with
    | none => simp [hb] at hall
    | some b => exact ⟨b, rfl, by simpa [hb] using hall⟩

variable {h : SCPBallot}

theorem updateCurrentIfNeeded_high_meets (hh : s.mHighBallot = some h) (hphase : s.mPhase ≠ .externalize) :
    Meets (s.updateCurrentIfNeeded h)
      (fun (_, s') => ∃ b heard,
        s' = { s with mCurrentBallot := some b, mHeardFromQuorum := heard } ∧
        h ≤ b ∧ (∀ b', s.mCurrentBallot = some b' → b' ≤ b) ∧ (b = h ∨ s.mCurrentBallot = some b))
      (fun _ => False) := by
  refine (updateCurrentIfNeeded_meets s h).mono ?_ ?_
  · rintro ⟨didWork, s'⟩ (⟨_, hlt, hmoved⟩ | ⟨_, hs', b, hb, hle⟩)
    · have hv : ∀ h', s.mHighBallot = some h' → h'.value = h.value := by
        intro h' hh'
        rw [hh] at hh'
        cases hh'
        rfl
      obtain ⟨heard, hs'⟩ := hmoved.of_value hv
      exact ⟨h, heard, hs', le_rfl, fun b' hb' => (hlt b' hb').le, .inl rfl⟩
    · refine ⟨b, s.mHeardFromQuorum, ?_, hle, ?_, .inr hb⟩
      · rw [hs', ← hb]
      · intro b' hb'
        rw [hb] at hb'
        cases hb'
        exact le_rfl
  · rintro f ⟨_, hext⟩
    exact hphase hext

/-- When `updateCurrentValue` moves to `ballot`. -/
structure MovesValue (s : Core) (ballot : SCPBallot) (s' : Core) : Prop where
  active : s.mPhase ≠ .externalize
  lower : ∀ b, s.mCurrentBallot = some b → b < ballot
  commit : s.mCurrentBallot.isSome → ∀ c, s.mCommit = some c → c.value = ballot.value
  moved : MovedTo s ballot s'

theorem updateCurrentValue_meets (s : Core) (ballot : SCPBallot) :
    Meets (s.updateCurrentValue ballot)
      (fun (didWork, s') => (didWork = false ∧ s' = s) ∨
        (didWork = true ∧ s.MovesValue ballot s' ∧ s'.checkInvariants = true))
      (fun f =>
        (f = .dbgAssert .checkInvariants ∧
          ∃ s', (s' = s ∨ s.MovesValue ballot s') ∧ s'.checkInvariants = false) ∨
        (f = .dbgAssert .updateCurrentValue ∧ ∃ b, s.mCurrentBallot = some b ∧ ballot < b)) := by
  -- the two branches that bump end alike
  have bumps (hphase : s.mPhase ≠ .externalize)
      (hlower : ∀ b, s.mCurrentBallot = some b → b < ballot)
      (hcommit : s.mCurrentBallot.isSome → ∀ c, s.mCommit = some c → c.value = ballot.value) :
      Meets (do
          let s' ← s.bumpToBallot ballot true
          s'.assertInvariants
          pure (true, s'))
        (fun (didWork, s') => (didWork = false ∧ s' = s) ∨
          (didWork = true ∧ s.MovesValue ballot s' ∧ s'.checkInvariants = true))
        (fun f =>
          (f = .dbgAssert .checkInvariants ∧
            ∃ s', (s' = s ∨ s.MovesValue ballot s') ∧ s'.checkInvariants = false) ∨
          (f = .dbgAssert .updateCurrentValue ∧ ∃ b, s.mCurrentBallot = some b ∧ ballot < b)) := by
    rw [bind_iff]
    refine (bumpToBallot_meets s ballot true).mono ?_ ?_
    · rintro s' ⟨_, _, hmoved⟩
      have hmoves : s.MovesValue ballot s' := ⟨hphase, hlower, hcommit, hmoved⟩
      rw [bind_iff]
      refine s'.assertInvariants_meets.mono ?_ ?_
      · rintro _ hinv
        exact .inr ⟨rfl, hmoves, hinv⟩
      · rintro f ⟨hf, hinv⟩
        exact .inl ⟨hf, s', .inr hmoves, hinv⟩
    · rintro f (⟨_, hext⟩ | ⟨_, _, b, hb, hlt⟩)
      · exact absurd hext hphase
      · exact absurd (hlower b hb) hlt.not_gt
  unfold updateCurrentValue
  split
  · exact .inl ⟨rfl, rfl⟩
  · next hphase =>
    split
    · next hb => exact bumps hphase (by simp [hb]) (by simp [hb])
    · next b hb =>
      split
      · next hle =>
        split
        · exact .inl ⟨rfl, rfl⟩
        · next hcommit =>
          split
          · next hlt =>
            refine bumps hphase ?_ ?_
            · intro b' hb'
              rw [hb] at hb'
              cases hb'
              exact compareBallots_neg.mp hlt
            · intro _ c hc
              simpa [hc] using hcommit
          · rw [bind_iff]
            refine s.assertInvariants_meets.mono ?_ ?_
            · rintro _ _
              exact .inl ⟨rfl, rfl⟩
            · rintro f ⟨hf, hinv⟩
              exact .inl ⟨hf, s, .inl rfl, hinv⟩
      · next hnle =>
        refine .inr ⟨rfl, b, hb, ?_⟩
        rw [compareBallots_nonpos] at hnle
        exact not_le.mp hnle

/-! ### Accepting and confirming prepared -/

def PrimeBelow (s : Core) : Prop :=
  ∀ p', s.mPreparedPrime = some p' → ∃ p, s.mPrepared = some p ∧ p' < p ∧ p'.value ≠ p.value

/-- The registers once `ballot` is among the prepared ones. -/
inductive Prepares (s : Core) (ballot : SCPBallot) : Core → Prop where
  | first (hp : s.mPrepared = none) : Prepares s ballot { s with mPrepared := some ballot }
  | raise (p : SCPBallot) (hp : s.mPrepared = some p) (hlt : p < ballot)
      (hv : p.value = ballot.value) : Prepares s ballot { s with mPrepared := some ballot }
  | switch (p : SCPBallot) (hp : s.mPrepared = some p) (hlt : p < ballot)
      (hv : p.value ≠ ballot.value) :
      Prepares s ballot { s with mPrepared := some ballot, mPreparedPrime := some p }
  | prime (p : SCPBallot) (hp : s.mPrepared = some p) (hlt : ballot < p)
      (hv : ballot.value ≠ p.value)
      (hprime : ∀ p', s.mPreparedPrime = some p' → p' < ballot) :
      Prepares s ballot { s with mPreparedPrime := some ballot }

theorem not_alreadyPrepared (h : s.alreadyPrepared ballot = false) :
    (∀ p', s.mPreparedPrime = some p' → p' < ballot) ∧
      ∀ p, s.mPrepared = some p → ¬(ballot ≤ p ∧ ballot.value = p.value) := by
  simp only [alreadyPrepared, Bool.or_eq_false_iff] at h
  constructor
  · intro p' hp'
    simpa [hp'] using h.1
  · intro p hp hcovered
    have := h.2
    rw [hp, Option.any_some, Bool.eq_false_iff] at this
    exact this (lessAndCompatible_iff.mpr hcovered)

theorem setPrepared_prepares (hnew : s.alreadyPrepared ballot = false) :
    (s.setPrepared ballot).1 = true ∧ Prepares s ballot (s.setPrepared ballot).2 := by
  obtain ⟨hprime, hcovered⟩ := not_alreadyPrepared hnew
  cases hp : s.mPrepared with
  | none =>
    simp only [setPrepared, hp]
    exact ⟨trivial, .first hp⟩
  | some p =>
    rcases lt_trichotomy p ballot with hlt | heq | hgt
    · simp only [setPrepared, hp, compareBallots_neg, hlt, if_true]
      split
      · next hv => exact ⟨trivial, .raise p hp hlt (compatible_iff.mp hv)⟩
      · next hv => exact ⟨trivial, .switch p hp hlt (by simpa using hv)⟩
    · exact absurd ⟨heq.ge, by rw [heq]⟩ (hcovered p hp)
    · have hv : ballot.value ≠ p.value := fun hv => hcovered p hp ⟨hgt.le, hv⟩
      have hall : (s.mPreparedPrime.all fun p' =>
          decide (p' < ballot) && !areBallotsCompatible p ballot) = true := by
        cases hp' : s.mPreparedPrime with
        | none => rfl
        | some p' => simpa [areBallotsCompatible] using ⟨hprime p' hp', hv.symm⟩
      have hset : s.setPrepared ballot = (true, { s with mPreparedPrime := some ballot }) := by
        simp only [setPrepared, hp, compareBallots_neg, hgt.not_gt, if_false, gt_iff_lt,
          compareBallots_pos, hgt, if_true, hall]
      rw [hset]
      exact ⟨rfl, .prime p hp hgt hv hprime⟩

/-- p or p' is at least h and incompatible with it. -/
def aborted (s : Core) (h : SCPBallot) : Prop :=
  (∃ p, s.mPrepared = some p ∧ h ≤ p ∧ h.value ≠ p.value) ∨
    ∃ p', s.mPreparedPrime = some p' ∧ h ≤ p' ∧ h.value ≠ p'.value

theorem aborted_iff (s : Core) (h : SCPBallot) :
    (s.mPrepared.any (areBallotsLessAndIncompatible h ·) ||
      s.mPreparedPrime.any (areBallotsLessAndIncompatible h ·)) = true ↔ s.aborted h := by
  simp [aborted, Option.any_eq_true]

theorem mayCommit_iff (s : Core) (newH : SCPBallot) :
    s.mayCommit newH = true ↔ s.mCommit = none ∧ ¬s.aborted newH := by
  rw [← aborted_iff]
  simp only [mayCommit, Bool.and_eq_true, Option.isNone_iff_eq_none, Bool.or_eq_true, not_or,
    and_assoc]
  cases s.mPrepared <;> cases s.mPreparedPrime <;> simp [← Bool.not_eq_true]

/-- Accepting a ballot as prepared updates p or p', and clears c if that aborts h. -/
theorem acceptPrepared_meets (hnew : s.alreadyPrepared ballot = false) :
    Meets (s.acceptPrepared ballot)
      (fun (didWork, s') => didWork = true ∧ ∃ s1, Prepares s ballot s1 ∧
        ((s' = s1 ∧ (s.mCommit.isSome → ∀ h, s.mHighBallot = some h → ¬s1.aborted h)) ∨
          (s' = { s1 with mCommit := none } ∧ s.mPhase = .prepare)))
      (fun f => f = .dbgAssert .setAcceptPrepared ∧ s.mPhase ≠ .prepare) := by
  obtain ⟨hwork, hprep⟩ := setPrepared_prepares hnew
  unfold acceptPrepared
  generalize s.setPrepared ballot = r at hwork hprep
  obtain ⟨didWork, s1⟩ := r
  obtain ⟨hc, hh, hph⟩ : s1.mCommit = s.mCommit ∧ s1.mHighBallot = s.mHighBallot ∧
      s1.mPhase = s.mPhase := by
    cases hprep <;> exact ⟨rfl, rfl, rfl⟩
  simp only [← hc, ← hh, ← hph]
  split
  · next c h hc' hh' =>
    split
    · next hab =>
      split
      · next hphase => exact ⟨rfl, s1, hprep, .inr ⟨rfl, hphase⟩⟩
      · next hphase => exact ⟨rfl, hphase⟩
    · next hab =>
      refine ⟨hwork, s1, hprep, .inl ⟨rfl, ?_⟩⟩
      intro _ h2 hh2
      rw [hh'] at hh2
      cases hh2
      exact fun habort => hab ((aborted_iff s1 h).mpr habort)
  · next hnone =>
    refine ⟨hwork, s1, hprep, .inl ⟨rfl, ?_⟩⟩
    intro hsome h2 hh2
    obtain ⟨c, hc'⟩ := Option.isSome_iff_exists.mp hsome
    exact absurd hh2 (hnone c h2 hc')

/-- Step (3)'s ballot is set only where c is not. -/
structure CanCommit (s : Core) (newC newH : SCPBallot) : Prop where
  may : s.mayCommit newH = true
  low : newC ≤ newH
  value : newC.value = newH.value
  current : s.mCurrentBallot.getD default ≤ newC

/-- The registers once `newH` is confirmed prepared: h and c move if b is compatible. -/
inductive ConfirmsPrepared (s : Core) (newC newH : SCPBallot) : Bool → Core → Prop where
  | high (b : SCPBallot) (heard : Bool)
      (hv : ∀ b', s.mCurrentBallot = some b' → b'.value = newH.value)
      (hle : newH ≤ b) (hmono : ∀ b', s.mCurrentBallot = some b' → b' ≤ b)
      (hb : b = newH ∨ s.mCurrentBallot = some b) :
      ConfirmsPrepared s newC newH true { s with
        mValueOverride := some newH.value
        mHighBallot := some newH
        mCommit := if newC.counter ≠ 0 then some newC else s.mCommit
        mCurrentBallot := some b
        mHeardFromQuorum := heard }
  | switch (b : SCPBallot) (hb : s.mCurrentBallot = some b) (hv : b.value ≠ newH.value)
      (hlt : b < newH) (s' : Core)
      (hmoved : MovedTo { s with mValueOverride := some newH.value } newH s') :
      ConfirmsPrepared s newC newH true s'
  | stay (b : SCPBallot) (hb : s.mCurrentBallot = some b) (hv : b.value ≠ newH.value)
      (hle : newH ≤ b) :
      ConfirmsPrepared s newC newH false { s with mValueOverride := some newH.value }

theorem confirmPrepared_meets {newC newH : SCPBallot} (hphase : s.mPhase = .prepare)
    (hraises : ∀ h, s.mHighBallot = some h → h < newH) (hcommit : newC = default ∨ s.CanCommit newC newH) :
    Meets (s.confirmPrepared newC newH)
      (fun (didWork, s') => s.ConfirmsPrepared newC newH didWork s') (fun _ => False) := by
  have hactive : s.mPhase ≠ .externalize := by simp [hphase]
  have hnone : newC.counter ≠ 0 → s.mCommit = none := by
    intro hne
    rcases hcommit with rfl | hcan
    · exact absurd rfl hne
    · exact ((mayCommit_iff s newH).mp hcan.may).1
  have hraise : (s.mHighBallot.all fun h => decide (compareBallots newH h > 0)) = true := by
    cases hh : s.mHighBallot with
    | none => rfl
    | some h => simpa using hraises h hh
  unfold confirmPrepared
  simp only [bind_iff, setHighAndCommit, hraise, if_true]
  by_cases hv : ∀ b, s.mCurrentBallot = some b → b.value = newH.value
  · -- on a compatible ballot h is raised, c perhaps set, and b follows h
    have hall : s.mCurrentBallot.all (areBallotsCompatible · newH) = true := by
      cases hb : s.mCurrentBallot with
      | none => rfl
      | some b => simpa using hv b hb
    have step8 : ∀ (didWork : Bool) (c : Option SCPBallot), didWork = true →
        c = (if newC.counter ≠ 0 then some newC else s.mCommit) →
        Meets (({ s with mValueOverride := some newH.value, mHighBallot := some newH, mCommit := c } :
          Core).updateCurrentIfNeeded newH)
          (fun x => s.ConfirmsPrepared newC newH (x.1 || didWork) x.2) (fun _ => False) := by
      intro didWork c hdid hc
      refine mono (updateCurrentIfNeeded_high_meets ?_ hactive) ?_ fun _ h => h
      · rfl
      rintro ⟨bumped, s'⟩ ⟨b, heard, hs', hle, hmono, hb⟩
      subst hs' hdid hc
      simp only [Bool.or_true]
      exact .high b heard hv hle hmono hb
    simp only [hall, if_true]
    by_cases hne : newC.counter ≠ 0
    · simpa only [ne_eq, hne, not_false_eq_true, if_true, hnone hne, Option.isNone_none, pure_iff]
        using step8 true (some newC) rfl (by simp [hne])
    · simpa only [hne, if_false, pure_iff] using step8 true s.mCommit rfl (by simp [hne])
  · -- on an incompatible one they stay, and b only moves up to newH
    obtain ⟨b, hb, hv⟩ : ∃ b, s.mCurrentBallot = some b ∧ b.value ≠ newH.value := by
      simpa using hv
    have hall : s.mCurrentBallot.all (areBallotsCompatible · newH) = false := by
      simp [hb, areBallotsCompatible, hv]
    simp only [hall, Bool.false_eq_true, if_false, pure_iff, Bool.or_false]
    refine (updateCurrentIfNeeded_meets _ newH).mono ?_ ?_
    · rintro ⟨bumped, s'⟩ (⟨hbumped, hlt, hmoved⟩ | ⟨hbumped, hs', b', hb', hle⟩)
      · subst hbumped
        exact .switch b hb hv (hlt b hb) s' hmoved
      · subst hbumped hs'
        have : b' = b := Option.some.inj (hb'.symm.trans hb)
        exact .stay b hb hv (this ▸ hle)
    · rintro f ⟨_, hext⟩
      exact hactive hext

/-! ### Accepting and confirming commit -/

/-- b and p' once a commit up to h is accepted: on entering CONFIRM, b moves to h
unless it is above it and compatible, and p' goes. -/
structure AcceptsCommit (s : Core) (h b : SCPBallot) (prime : Option SCPBallot) : Prop where
  high : h ≤ b
  current : b = h ∨ s.mCurrentBallot = some b
  prepare : s.mPhase = .prepare → prime = none ∧ b.value = h.value
  confirm : s.mPhase ≠ .prepare → prime = s.mPreparedPrime ∧ ∀ b', s.mCurrentBallot = some b' → b' ≤ b

theorem enterConfirm_meets (hh : s.mHighBallot = some h) :
    Meets (s.enterConfirm h)
      (fun s' => ∃ current heard,
        s' = { s with
          mPhase := .confirm, mCurrentBallot := current, mPreparedPrime := none,
          mHeardFromQuorum := heard } ∧
        ∀ b, current = some b → h ≤ b ∧ b.value = h.value ∧ (b = h ∨ s.mCurrentBallot = some b))
      (fun _ => False) := by
  unfold enterConfirm
  dsimp only
  split
  · rw [bind_iff]
    refine (bumpToBallot_meets _ h false).mono ?_ ?_
    · rintro s' ⟨_, _, hmoved⟩
      have hv : ∀ h', s.mHighBallot = some h' → h'.value = h.value := by
        intro h' hh'
        rw [hh] at hh'
        cases hh'
        rfl
      obtain ⟨heard, hs'⟩ := hmoved.of_value hv
      subst hs'
      refine ⟨some h, heard, rfl, ?_⟩
      intro b hb
      cases hb
      exact ⟨le_rfl, rfl, .inl rfl⟩
    · rintro f (⟨_, hext⟩ | ⟨_, hcheck, _⟩)
      · simp at hext
      · simp at hcheck
  · next hany =>
    refine ⟨s.mCurrentBallot, s.mHeardFromQuorum, rfl, ?_⟩
    intro b hb
    have : h ≤ b ∧ h.value = b.value := by simpa [hb] using hany
    exact ⟨this.1, this.2.symm, .inr hb⟩

theorem acceptCommit_meets {c : SCPBallot} (hactive : s.mPhase ≠ .externalize)
    (hraises : s.mPhase = .confirm → ∃ h', s.mHighBallot = some h' ∧ h' < h) :
    Meets (s.acceptCommit c h)
      (fun (didWork, s') => didWork = true ∧ ∃ b prime heard, s.AcceptsCommit h b prime ∧
        s' = { s with
          mValueOverride := some h.value
          mCommit := some c
          mHighBallot := some h
          mPhase := .confirm
          mCurrentBallot := some b
          mPreparedPrime := prime
          mHeardFromQuorum := heard })
      (fun _ => False) := by
  unfold acceptCommit
  dsimp only
  -- c and h are set in either case: they are left alone only when already equal
  generalize hsame : (s.mHighBallot.any (fun h' => decide (compareBallots h' h = 0)) &&
    s.mCommit.any (fun c' => decide (compareBallots c' c = 0))) = same
  have hset : (if same then ({ s with mValueOverride := some h.value } : Core) else
      { s with mValueOverride := some h.value, mCommit := some c, mHighBallot := some h }) =
      { s with mValueOverride := some h.value, mCommit := some c, mHighBallot := some h } := by
    split
    · next hs =>
      rw [hs, Bool.and_eq_true, Option.any_eq_true, Option.any_eq_true] at hsame
      obtain ⟨⟨h', hh', heq⟩, c', hc', heqc⟩ := hsame
      have heq : h' = h := by simpa using heq
      have heqc : c' = c := by simpa using heqc
      rw [← heq, ← heqc, ← hh', ← hc']
    · rfl
  rw [hset]
  split
  · next hphase =>
    rw [bind_iff]
    refine mono (enterConfirm_meets ?_) ?_ fun _ h => h
    · rfl
    rintro _ ⟨current, heard, rfl, hcurrent⟩
    rw [bind_iff]
    refine mono (updateCurrentIfNeeded_high_meets ?_ ?_) ?_ fun _ h => h
    · rfl
    · simp
    rintro ⟨_, _⟩ ⟨b, heard, rfl, hle, _, hb⟩
    have hb' : b.value = h.value ∧ (b = h ∨ s.mCurrentBallot = some b) := by
      rcases hb with rfl | hb
      · exact ⟨rfl, .inl rfl⟩
      · exact (hcurrent b hb).2
    refine ⟨rfl, b, none, heard, ⟨hle, hb'.2, fun _ => ⟨rfl, hb'.1⟩, ?_⟩, rfl⟩
    exact fun hne => absurd hphase hne
  · next hphase =>
    have hconfirm : s.mPhase = .confirm := by
      cases hp : s.mPhase <;> simp_all
    obtain ⟨h', hh', hlt⟩ := hraises hconfirm
    have hdiff : same = false := by
      simp [← hsame, hh', hlt.ne]
    simp only [hdiff, Bool.false_eq_true, if_false]
    rw [bind_iff]
    refine mono (updateCurrentIfNeeded_high_meets ?_ ?_) ?_ fun _ h => h
    · rfl
    · exact hactive
    rintro ⟨_, _⟩ ⟨b, heard, rfl, hle, hmono, hb⟩
    refine ⟨rfl, b, s.mPreparedPrime, heard, ⟨hle, hb, ?_, fun _ => ⟨rfl, hmono⟩⟩, ?_⟩
    · intro hprepare
      rw [hconfirm] at hprepare
      cases hprepare
    · rw [← hconfirm]

theorem confirmCommit_meets {c : SCPBallot} (hactive : s.mPhase ≠ .externalize) :
    Meets (s.confirmCommit c h)
      (fun s' => ∃ b heard,
        s' = { s with
          mCommit := some c
          mHighBallot := some h
          mPhase := .externalize
          mCurrentBallot := some b
          mHeardFromQuorum := heard } ∧
        h ≤ b ∧ (∀ b', s.mCurrentBallot = some b' → b' ≤ b) ∧ (b = h ∨ s.mCurrentBallot = some b))
      (fun _ => False) := by
  unfold confirmCommit
  rw [bind_iff]
  refine mono (updateCurrentIfNeeded_high_meets ?_ ?_) ?_ fun _ h => h
  · rfl
  · exact hactive
  rintro ⟨_, _⟩ ⟨b, heard, rfl, hle, hmono, hb⟩
  exact ⟨b, heard, rfl, hle, hmono, hb⟩

end Diamnet.Scp.Core
