import Diamnet.Scp.Moves

/-! What the searches of the ballot protocol find.

Each `attempt` of the protocol searches the latest statements for a ballot or an
interval to act on. Here is what a search has established when it finds one; and,
for the ballots that can be accepted as prepared, that the search from a hint is
complete: what a quorum has accepted under the hint's ballots, it finds or skips
as already covered. -/
namespace Diamnet.Scp.Core
open List
variable {scp : SCP}

/-! ### Candidates -/

variable {s : Core} {hint : SCPStatement} {ballot : SCPBallot}

theorem mem_getPrepareCandidates :
    ballot ∈ s.getPrepareCandidates hint ↔ ∃ topVote ∈ hintBallots hint, ∃ n st,
      s.mLatestEnvelopes.lookup n = some st ∧ ballot ∈ candidatesFrom topVote st := by
  simp only [getPrepareCandidates, mem_descending, mem_flatMap]
  constructor
  · rintro ⟨topVote, htop, ⟨n, st⟩, hmem, hballot⟩
    exact ⟨topVote, htop, n, st, AList.mem_lookup_iff.mpr hmem, hballot⟩
  · rintro ⟨topVote, htop, n, st, hlookup, hballot⟩
    exact ⟨topVote, htop, ⟨n, st⟩, AList.mem_lookup_iff.mp hlookup, hballot⟩

variable {topVote : SCPBallot} {st : SCPStatement}

theorem candidatesFrom_le (h : ballot ∈ candidatesFrom topVote st) :
    ballot ≤ topVote ∧ ballot.value = topVote.value := by
  unfold candidatesFrom at h
  split at h
  · next prep _ => exact lessAndCompatible_iff.mp (mem_filter.mp h).2
  · next con _ =>
    split at h
    · rcases mem_cons.mp h with rfl | h
      · exact ⟨le_rfl, rfl⟩
      · split at h
        · next hlt =>
          cases mem_singleton.mp h
          exact ⟨(SCPBallot.lt_of_counter hlt).le, rfl⟩
        · simp at h
    · simp at h
  · next ext _ =>
    split at h
    · cases mem_singleton.mp h
      exact ⟨le_rfl, rfl⟩
    · simp at h

theorem mem_candidatesFrom_hint (h : topVote ∈ hintBallots hint) : topVote ∈ candidatesFrom topVote hint := by
  unfold hintBallots at h
  unfold candidatesFrom
  split at h
  · next prep _ => exact mem_filter.mpr ⟨h, lessAndCompatible_iff.mpr ⟨le_rfl, rfl⟩⟩
  · next con _ =>
    have hv : areBallotsCompatible topVote con.ballot = true := by
      rcases mem_cons.mp h with rfl | h
      · exact compatible_iff.mpr rfl
      · cases mem_singleton.mp h
        exact compatible_iff.mpr rfl
    simp [hv]
  · next ext _ =>
    cases mem_singleton.mp h
    simp

theorem hasPreparedBallot_mono {a b : SCPBallot} (hle : a ≤ b) (hv : a.value = b.value)
    (h : hasPreparedBallot b st = true) : hasPreparedBallot a st = true := by
  unfold hasPreparedBallot at h ⊢
  split
  · next p hp =>
    simp only [hp, Bool.or_eq_true, Option.any_eq_true, lessAndCompatible_iff] at h ⊢
    rcases h with ⟨q, hq, hle', hv'⟩ | ⟨q, hq, hle', hv'⟩
    · exact .inl ⟨q, hq, hle.trans hle', hv.trans hv'⟩
    · exact .inr ⟨q, hq, hle.trans hle', hv.trans hv'⟩
  · next c hc =>
    simp only [hc, lessAndCompatible_iff] at h ⊢
    exact ⟨hle.trans h.1, hv.trans h.2⟩
  · next e he =>
    simp only [he, compatible_iff] at h ⊢
    exact hv.trans h

/-- A statement that has prepared `ballot` has prepared `m` above it, or offers a
candidate in between that it has prepared. -/
theorem candidate_between {m : SCPBallot} (hv : ballot.value = m.value) (htop : m ≤ topVote)
    (hvtop : m.value = topVote.value) (h : hasPreparedBallot ballot st = true) :
    hasPreparedBallot m st = true ∨ ∃ q ∈ candidatesFrom topVote st,
      ballot ≤ q ∧ q ≤ m ∧ q.value = m.value ∧ hasPreparedBallot q st = true := by
  unfold hasPreparedBallot at h
  split at h
  · next prep hpl =>
    obtain ⟨q, hq, hleq, hvq⟩ : ∃ q, q ∈ prep.prepared.toList ++ prep.preparedPrime.toList ∧
        ballot ≤ q ∧ ballot.value = q.value := by
      simp only [Bool.or_eq_true, Option.any_eq_true, lessAndCompatible_iff] at h
      rcases h with ⟨q, hq, h⟩ | ⟨q, hq, h⟩
      · exact ⟨q, by simp [hq], h⟩
      · exact ⟨q, by simp [hq], h⟩
    have hprepared : ∀ a, a ≤ q → a.value = q.value → hasPreparedBallot a st = true := by
      intro a hle hv
      simp only [hasPreparedBallot, hpl, Bool.or_eq_true, Option.any_eq_true, lessAndCompatible_iff]
      rcases mem_append.mp hq with hq | hq
      · exact .inl ⟨q, by simpa using hq, hle, hv⟩
      · exact .inr ⟨q, by simpa using hq, hle, hv⟩
    rcases le_total m q with hmq | hqm
    · exact .inl (hprepared m hmq (hv.symm.trans hvq))
    · refine .inr ⟨q, ?_, hleq, hqm, hvq.symm.trans hv, hprepared q le_rfl rfl⟩
      simp only [candidatesFrom, hpl]
      refine mem_filter.mpr ⟨.tail _ hq, lessAndCompatible_iff.mpr ⟨?_, ?_⟩⟩
      · exact hqm.trans htop
      · exact (hvq.symm.trans hv).trans hvtop
  · next con hpl =>
    obtain ⟨hleq, hvq⟩ := lessAndCompatible_iff.mp h
    have hprepared : ∀ a, a ≤ ⟨con.nPrepared, con.ballot.value⟩ → a.value = con.ballot.value →
        hasPreparedBallot a st = true := by
      intro a hle hv
      simp only [hasPreparedBallot, hpl, lessAndCompatible_iff]
      exact ⟨hle, hv⟩
    have hmcon : m.value = con.ballot.value := hv.symm.trans hvq
    rcases le_or_gt m ⟨con.nPrepared, con.ballot.value⟩ with hmq | hqm
    · exact .inl (hprepared m hmq hmcon)
    · have hqtop := hqm.trans_le htop
      have hlt : con.nPrepared < topVote.counter :=
        (SCPBallot.lt_iff_of_value (by exact hmcon.symm.trans hvtop)).mp hqtop
      refine .inr ⟨⟨con.nPrepared, con.ballot.value⟩, ?_, hleq, hqm.le, hmcon.symm, hprepared _ le_rfl rfl⟩
      have hcompat : areBallotsCompatible topVote con.ballot = true :=
        compatible_iff.mpr (hvtop.symm.trans hmcon)
      simp [candidatesFrom, hpl, hcompat, hlt, hvtop.symm.trans hmcon]
  · next ext hpl =>
    refine .inl ?_
    simp only [hasPreparedBallot, hpl, compatible_iff] at h ⊢
    exact hv.symm.trans h

/-- A way to speak for ballots: a statement that speaks for one speaks for those compatible below
it, and under any vote for that vote or for a candidate it offers. -/
structure Speaks (P : SCPBallot → SCPStatement → Bool) : Prop where
  mono : ∀ {a b : SCPBallot} {st : SCPStatement}, a ≤ b → a.value = b.value → P b st = true → P a st = true
  between : ∀ {topVote m ballot : SCPBallot} {st : SCPStatement}, ballot.value = m.value → m ≤ topVote →
    m.value = topVote.value → P ballot st = true →
    P m st = true ∨ ∃ q ∈ candidatesFrom topVote st, ballot ≤ q ∧ q ≤ m ∧ q.value = m.value ∧ P q st = true

theorem hasPreparedBallot_speaks : Speaks hasPreparedBallot := ⟨hasPreparedBallot_mono, candidate_between⟩

/-- What a set of statements all speaks for under `topVote`, it speaks for up to `topVote` or up
to a candidate of one of them. -/
theorem exists_candidate {P : SCPBallot → SCPStatement → Bool} (hP : Speaks P) (hle : ballot ≤ topVote)
    (hv : ballot.value = topVote.value) (statements : List SCPStatement) (h : ∀ st ∈ statements, P ballot st = true) :
    ∃ m, ballot ≤ m ∧ m ≤ topVote ∧ m.value = topVote.value ∧
      (m = topVote ∨ ∃ st ∈ statements, m ∈ candidatesFrom topVote st) ∧
      ∀ st ∈ statements, P m st = true := by
  induction statements with
  | nil => exact ⟨topVote, hle, le_rfl, rfl, .inl rfl, by simp⟩
  | cons st rest ih =>
    obtain ⟨m, hlem, hmtop, hvm, hcand, hall⟩ := ih fun st' hst' => h st' (.tail _ hst')
    rcases hP.between (hv.trans hvm.symm) hmtop hvm (h st (.head _)) with
      hm | ⟨q, hq, hleq, hqm, hvq, hprep⟩
    · refine ⟨m, hlem, hmtop, hvm, ?_, ?_⟩
      · rcases hcand with hcand | ⟨st', hst', hcand⟩
        · exact .inl hcand
        · exact .inr ⟨st', .tail _ hst', hcand⟩
      · intro st' hst'
        rcases mem_cons.mp hst' with rfl | hst'
        · exact hm
        · exact hall st' hst'
    · refine ⟨q, hleq, hqm.trans hmtop, hvq.trans hvm, .inr ⟨st, .head _, hq⟩, ?_⟩
      intro st' hst'
      rcases mem_cons.mp hst' with rfl | hst'
      · exact hprep
      · exact hP.mono hqm hvq (hall st' hst')

/-- The same for the latest statements of a set of nodes, one of them the hint's: they all speak
for a candidate under the hint. -/
theorem exists_candidate_of_nodes {P : SCPBallot → SCPStatement → Bool} (hP : Speaks P) {U : List NodeID}
    (hhint : s.mLatestEnvelopes.lookup hint.nodeID = some hint) (htop : topVote ∈ hintBallots hint)
    (hle : ballot ≤ topVote) (hv : ballot.value = topVote.value)
    (h : ∀ n ∈ U, ∀ st, s.mLatestEnvelopes.lookup n = some st → P ballot st = true) :
    ∃ m ∈ s.getPrepareCandidates hint, ballot ≤ m ∧ ballot.value = m.value ∧
      ∀ n ∈ U, ∀ st, s.mLatestEnvelopes.lookup n = some st → P m st = true := by
  obtain ⟨m, hlem, -, hvm, hcand, hall⟩ := exists_candidate hP hle hv
    (U.filterMap fun n => s.mLatestEnvelopes.lookup n) (by
      intro st hst
      obtain ⟨n, hn, hst⟩ := mem_filterMap.mp hst
      exact h n hn st hst)
  refine ⟨m, ?_, hlem, hv.trans hvm.symm, fun n hn st hst => hall st (mem_filterMap.mpr ⟨n, hn, hst⟩)⟩
  rw [mem_getPrepareCandidates]
  rcases hcand with rfl | ⟨st, hst, hfrom⟩
  · exact ⟨m, htop, hint.nodeID, hint, hhint, mem_candidatesFrom_hint htop⟩
  · obtain ⟨n, _, hst⟩ := mem_filterMap.mp hst
    exact ⟨topVote, htop, n, st, hst, hfrom⟩

/-! ### Accepting prepared -/

/-- The search finds a ballot it may accept; and down a falling list, one at least
as high as any it could have accepted and does not skip. -/
theorem findAcceptPrepared_meets (s : Core) (candidates : List SCPBallot)
    (hfalling : candidates.Pairwise (· > ·)) :
    Meets (s.findAcceptPrepared scp candidates)
      (fun found =>
        (∀ ballot, found = some ballot → ballot ∈ candidates ∧ s.skipsPrepared ballot = .ok false ∧
          s.federatedAccept scp (votesPrepared ballot) (hasPreparedBallot ballot) = true) ∧
        ∀ m ∈ candidates, s.federatedAccept scp (votesPrepared m) (hasPreparedBallot m) = true →
          s.skipsPrepared m = .ok true ∨ ∃ ballot, found = some ballot ∧ m ≤ ballot)
      (fun f => f = .nullPointer ∨ f = .dbgAssert .attemptAcceptPrepared) := by
  induction candidates with
  | nil => exact ⟨by simp, by simp⟩
  | cons head rest ih =>
    obtain ⟨hhead, hrest⟩ := pairwise_cons.mp hfalling
    rw [findAcceptPrepared, Meets.bind_iff]
    cases hskip : s.skipsPrepared head with
    | error f =>
      unfold skipsPrepared at hskip
      repeat' split at hskip
      all_goals first | (cases hskip; simp) | cases hskip
    | ok skip =>
      rw [Meets.ok_iff]
      split
      · next hfound =>
        rw [Bool.and_eq_true, Bool.not_eq_true'] at hfound
        obtain ⟨rfl, haccept⟩ := hfound
        constructor
        · rintro ballot hb
          cases hb
          exact ⟨.head _, hskip, haccept⟩
        · intro m hm _
          rcases mem_cons.mp hm with rfl | hm
          · exact .inr ⟨m, rfl, le_rfl⟩
          · exact .inr ⟨head, rfl, (hhead m hm).le⟩
      · next hfound =>
        refine (ih hrest).mono ?_ fun _ h => h
        rintro found ⟨hsound, hcomplete⟩
        constructor
        · intro ballot hb
          obtain ⟨hmem, hrest⟩ := hsound ballot hb
          exact ⟨.tail _ hmem, hrest⟩
        · intro m hm haccept
          rcases mem_cons.mp hm with rfl | hm
          · cases skip with
            | true => exact .inl hskip
            | false => simp [haccept] at hfound
          · exact hcomplete m hm haccept

theorem le_of_skipsPrepared {m : SCPBallot} (hprime : s.PrimeBelow) (hphase : s.mPhase = .prepare)
    (h : s.skipsPrepared m = .ok true) : ∃ p, s.mPrepared = some p ∧ m ≤ p := by
  simp only [skipsPrepared, hphase, reduceCtorEq, if_false] at h
  have hdone : s.alreadyPrepared m = true := Except.ok.inj h
  simp only [alreadyPrepared, Bool.or_eq_true, Option.any_eq_true, decide_eq_true_eq,
    compareBallots_nonpos, lessAndCompatible_iff] at hdone
  rcases hdone with ⟨p', hp', hle⟩ | ⟨p, hp, hle, _⟩
  · obtain ⟨p, hp, hlt, _⟩ := hprime p' hp'
    exact ⟨p, hp, hle.trans hlt.le⟩
  · exact ⟨p, hp, hle⟩

/-- **What a quorum has prepared under a hint, p has reached**, once the search
from that hint has settled what could be accepted: other nodes' statements are as
they were then, and p has only risen. -/
theorem prepared_of_ratified {s' : Core} (hhint : s.mLatestEnvelopes.lookup hint.nodeID = some hint)
    (hs' : s'.Sound scp) (hframe : Frame scp s s') (hphase : s'.mPhase = .prepare)
    (hsettled : ∀ m ∈ s.getPrepareCandidates hint, s.federatedAccept scp (votesPrepared m) (hasPreparedBallot m) = true → ∃ p, s'.mPrepared = some p ∧ m ≤ p)
    (hmem : ballot ∈ s'.getPrepareCandidates hint)
    (hratified : s'.federatedRatify scp (hasPreparedBallot ballot) = true) :
    ∃ p, s'.mPrepared = some p ∧ ballot ≤ p := by
  obtain ⟨U, hU, hslice⟩ := LocalNode.isQuorum_iff.mp hratified
  by_cases hself : scp.localNode.mNodeID ∈ U
  · -- the node is one of the quorum: its own statement says so
    obtain ⟨st, _, hst, hprep, _⟩ := hU _ hself
    exact hs'.own hphase st hst ballot hprep
  · -- the quorum is others', and already stood when the search was made
    obtain ⟨topVote, htop, _, _, _, hfrom⟩ := mem_getPrepareCandidates.mp hmem
    obtain ⟨hle, hv⟩ := candidatesFrom_le hfrom
    have hlookup : ∀ n ∈ U, s'.mLatestEnvelopes.lookup n = s.mLatestEnvelopes.lookup n :=
      fun n hn => hframe.others n fun he => hself (he ▸ hn)
    have hprepared : ∀ n ∈ U, ∀ st, s.mLatestEnvelopes.lookup n = some st → hasPreparedBallot ballot st = true := by
      intro n hn st hst
      obtain ⟨st', _, hst', hprep, _⟩ := hU n hn
      rw [hlookup n hn, hst] at hst'
      cases hst'
      exact hprep
    obtain ⟨m, hmmem, hlem, -, hall⟩ := exists_candidate_of_nodes hasPreparedBallot_speaks hhint htop hle hv hprepared
    have haccept : s.federatedAccept scp (votesPrepared m) (hasPreparedBallot m) = true := by
      rw [federatedAccept, Bool.or_eq_true]
      refine .inr (LocalNode.isQuorum_iff.mpr ⟨U, ?_, hslice⟩)
      intro n hn
      obtain ⟨st, q, hst, _, hq, hsl⟩ := hU n hn
      rw [hlookup n hn] at hst
      refine ⟨st, q, hst, ?_, hq, hsl⟩
      simp only [hall n hn st hst, Bool.true_or]
    obtain ⟨p, hp, hmp⟩ := hsettled m hmmem haccept
    exact ⟨p, hp, hlem.trans hmp⟩

/-! ### Confirming prepared -/

theorem findHigh_cons {candidates rest : List SCPBallot} {newH : SCPBallot}
    (h : s.findHigh scp candidates = newH :: rest) :
    newH ∈ candidates ∧ s.federatedRatify scp (hasPreparedBallot newH) = true ∧
      ∀ high, s.mHighBallot = some high → high < newH := by
  induction candidates with
  | nil => simp [findHigh] at h
  | cons head tail ih =>
    rw [findHigh] at h
    split at h
    · simp at h
    · next hraise =>
      split at h
      · next hratified =>
        obtain ⟨rfl, _⟩ := cons.inj h
        refine ⟨.head _, hratified, ?_⟩
        intro high hhigh
        simpa [hhigh] using hraise
      · obtain ⟨hmem, hrest⟩ := ih h
        exact ⟨.tail _ hmem, hrest⟩

/-- The search for c leaves what it was given, or finds a ballot from b up to newH. -/
theorem findCommit_cases (scp : SCP) (s : Core) (b newH newC : SCPBallot) (candidates : List SCPBallot) :
    s.findCommit scp b newH newC candidates = newC ∨
      (b ≤ s.findCommit scp b newH newC candidates ∧
        s.findCommit scp b newH newC candidates ≤ newH ∧
        (s.findCommit scp b newH newC candidates).value = newH.value) := by
  induction candidates generalizing newC with
  | nil => exact .inl rfl
  | cons head rest ih =>
    rw [findCommit]
    split
    · exact .inl rfl
    · next hb =>
      split
      · next hcompat =>
        obtain ⟨hle, hv⟩ := lessAndCompatible_iff.mp hcompat
        split
        · rcases ih head with heq | hfound
          · rw [heq]
            exact .inr ⟨by simpa using hb, hle, hv⟩
          · exact .inr hfound
        · exact .inl rfl
      · exact ih newC

theorem findConfirmPrepared_some {candidates : List SCPBallot} {newC newH : SCPBallot}
    (h : s.findConfirmPrepared scp candidates = some (newC, newH)) :
    newH ∈ candidates ∧ s.federatedRatify scp (hasPreparedBallot newH) = true ∧
      (∀ high, s.mHighBallot = some high → high < newH) ∧
      (newC = default ∨ s.CanCommit newC newH) := by
  unfold findConfirmPrepared at h
  split at h
  · simp at h
  · next newH' rest hfound =>
    obtain ⟨rfl, rfl⟩ := Prod.mk.inj (Option.some.inj h)
    obtain ⟨hmem, hratified, hraises⟩ := findHigh_cons hfound
    refine ⟨hmem, hratified, hraises, ?_⟩
    split
    · next hmay =>
      rcases findCommit_cases scp s (s.mCurrentBallot.getD default) newH' default
        (newH' :: rest) with heq | ⟨hb, hle, hv⟩
      · exact .inl heq
      · exact .inr ⟨hmay, hle, hv, hb⟩
    · exact .inl rfl

/-! ### Intervals of commits -/

theorem findExtendedInterval_spec (pred : Interval → Bool) (candidate : Interval)
    (boundaries : List UInt32)
    (h : candidate.first ≠ 0 → pred candidate = true ∧ candidate.first ≤ candidate.second) :
    (findExtendedInterval pred candidate boundaries).first ≠ 0 →
      pred (findExtendedInterval pred candidate boundaries) = true ∧
        (findExtendedInterval pred candidate boundaries).first ≤
          (findExtendedInterval pred candidate boundaries).second := by
  induction boundaries generalizing candidate with
  | nil => exact h
  | cons b rest ih =>
    rw [findExtendedInterval]
    split
    · split
      · next hpred => exact ih ⟨b, b⟩ fun _ => ⟨hpred, le_rfl⟩
      · exact ih candidate h
    · split
      · exact ih candidate h
      · next hle =>
        split
        · next hpred => exact ih ⟨b, candidate.second⟩ fun _ => ⟨hpred, not_lt.mp hle⟩
        · exact h

theorem findAcceptCommit_meets (hactive : s.mPhase ≠ .externalize) (hhint : hint ∈ s.mStatementsHistory) :
    Meets (s.findAcceptCommit scp hint)
      (fun found => ∀ c h, found = some (c, h) → s.CanAcceptCommit c h)
      (fun f => f = .nullPointer) := by
  unfold findAcceptCommit
  cases hb : acceptCommitHint hint with
  | none => simp
  | some ballot =>
    have hspec := findExtendedInterval_spec
      (fun cur => s.federatedAccept scp (votesCommit ballot cur) (commitPredicate ballot cur))
      ⟨0, 0⟩ (s.getCommitBoundariesFromStatements ballot) (by simp)
    dsimp only
    split
    · next hphase =>
      cases hh : s.mHighBallot with
      | none => simp
      | some high =>
        dsimp only
        split
        · next hcond =>
          simp only [Bool.and_eq_true, compatible_iff, decide_eq_true_eq] at hcond
          rintro c h hfound
          cases hfound
          refine ⟨hactive, ⟨hint, hhint, ballot, hb, rfl⟩, rfl, hcond.1.2, (hspec hcond.1.2).2, ?_⟩
          exact fun _ => ⟨high, hh, hcond.1.1.symm, SCPBallot.lt_of_counter hcond.2⟩
        · simp
    · next hphase =>
      split
      · next hne =>
        rintro c h hfound
        cases hfound
        exact ⟨hactive, ⟨hint, hhint, ballot, hb, rfl⟩, rfl, hne, (hspec hne).2, fun hc => absurd hc hphase⟩
      · simp

theorem findConfirmCommit_some {c h : SCPBallot} (hphase : s.mPhase = .confirm)
    (hfound : s.findConfirmCommit scp hint = some (c, h)) : s.CanConfirmCommit scp c h := by
  unfold findConfirmCommit at hfound
  split at hfound
  · next high c' ballot hhigh hc' hballot =>
    split at hfound
    · next hv =>
      dsimp only at hfound
      split at hfound
      · next hne =>
        cases hfound
        have hspec := findExtendedInterval_spec
          (fun cur => s.federatedRatify scp (commitPredicate ballot cur))
          ⟨0, 0⟩ (s.getCommitBoundariesFromStatements ballot) (by simp) hne
        exact ⟨hphase, ⟨c', hc', (compatible_iff.mp hv).symm⟩, rfl, hne, hspec.2, hspec.1⟩
      · simp at hfound
    · simp at hfound
  · simp at hfound

/-! ### Bumping -/

theorem findBump_some {n : UInt32} (h : s.findBump scp = some n) : (s.mCurrentBallot.map (·.counter)).getD 0 < n := by
  unfold findBump at h
  dsimp only at h
  split at h
  · have hmem := mem_of_find?_eq_some h
    rw [mem_ascending, mem_filter, decide_eq_true_eq] at hmem
    exact hmem.2
  · simp at h

end Diamnet.Scp.Core
