import Diamnet.Scp.Completeness

/-! Bumps to the counters of a v-blocking set (`attemptBump`, step 9 of the paper).

When a v-blocking set is at higher counters than the node, the node moves to the lowest counter of
which that is no longer true. `findBump` finds that counter among those of the recorded statements
(`findBump_isLeast`). The move is made only if there is a ballot to move to: a value, and one that
c does not stand in the way of. `mValueOverride` may be a value confirmed prepared since c was
set, and then the node stays behind. That takes a ballot which was confirmed without having been
accepted, and so one that the search had missed (`Holds.confirmPrepared`). `advanceSlot_bumps` says
what the loop of `advanceSlot` reaches. -/
open Diamnet.Scp.Core Diamnet.Scp.BallotProtocol

namespace Diamnet.Scp
open List LocalNode Meets Relation
namespace Core
variable {scp : SCP}

/-! ### The counter to bump to -/

def localCounter (s : Core) : UInt32 := (s.mCurrentBallot.map (·.counter)).getD 0

variable (scp) in
def counters (s : Core) : Set UInt32 := {n | s.hasVBlockingSubsetStrictlyAheadOf scp n = false}

/-- The counters of the recorded statements ahead of the node's, from the lowest. -/
def countersAhead (s : Core) : List UInt32 :=
  ascending ((s.mLatestEnvelopes.entries.map fun e => statementBallotCounter e.2).filter (· > s.localCounter))

variable {s : Core} {c : UInt32}

theorem mem_countersAhead : c ∈ s.countersAhead ↔
    (∃ n st, s.mLatestEnvelopes.lookup n = some st ∧ statementBallotCounter st = c) ∧ s.localCounter < c := by
  rw [countersAhead, mem_ascending, List.mem_filter, List.mem_map, decide_eq_true_eq]
  refine and_congr_left fun _ => ?_
  constructor
  · intro ⟨⟨n, st⟩, he, hc⟩
    exact ⟨n, st, AList.mem_lookup_iff.mpr he, hc⟩
  · intro ⟨n, st, hst, hc⟩
    exact ⟨⟨n, st⟩, AList.mem_lookup_iff.mp hst, hc⟩

theorem ahead_of {m : UInt32} (h : s.hasVBlockingSubsetStrictlyAheadOf scp c = true)
    (hkeep : ∀ n st, s.mLatestEnvelopes.lookup n = some st → c < statementBallotCounter st → m < statementBallotCounter st) :
    s.hasVBlockingSubsetStrictlyAheadOf scp m = true :=
  isVBlockingMap_mono
    (fun n st hst hlt => ⟨hst, decide_eq_true (hkeep n st hst (of_decide_eq_true hlt))⟩) h

theorem not_ahead_of_last (h : ∀ n st, s.mLatestEnvelopes.lookup n = some st → statementBallotCounter st ≤ c) :
    s.hasVBlockingSubsetStrictlyAheadOf scp c = false := by
  have hnone : filteredNodes s.mLatestEnvelopes (fun st => decide (statementBallotCounter st > c)) = [] := by
    refine eq_nil_iff_forall_not_mem.mpr fun n hn => ?_
    obtain ⟨st, hst, hlt⟩ := mem_filteredNodes.mp hn
    exact absurd (h n st hst) (not_le.mpr (of_decide_eq_true hlt))
  rw [hasVBlockingSubsetStrictlyAheadOf, isVBlockingMap, hnone, isVBlocking_nil]

theorem findBump_eq (s : Core) : s.findBump scp =
    if s.hasVBlockingSubsetStrictlyAheadOf scp s.localCounter then
      s.countersAhead.find? fun n => !s.hasVBlockingSubsetStrictlyAheadOf scp n
    else none := rfl

/-- **The counter found is the least no v-blocking set is ahead of.** -/
theorem findBump_isLeast {n : UInt32} (h : s.findBump scp = some n) :
    IsLeast (s.counters scp) n ∧ s.localCounter < n := by
  rw [findBump_eq] at h
  split at h
  · next hlocal =>
    obtain ⟨hreached, before, after, hsplit, hbefore⟩ := List.find?_eq_some_iff_append.mp h
    have hmem : n ∈ s.countersAhead := by simp [hsplit]
    refine ⟨⟨by simpa [counters] using hreached, fun m hm => ?_⟩, (mem_countersAhead.mp hmem).2⟩
    change s.hasVBlockingSubsetStrictlyAheadOf scp m = false at hm
    -- below n there is a highest counter up to m, and the set ahead of that one is ahead of m
    by_contra hlt
    rw [not_le] at hlt
    have hstart : s.localCounter ∈ ((s.localCounter :: s.countersAhead).toFinset.filter (· ≤ m)) := by
      rw [Finset.mem_filter]
      refine ⟨by simp, not_lt.mp fun hmlt => ?_⟩
      rw [ahead_of hlocal fun _ _ _ => hmlt.trans] at hm
      cases hm
    obtain ⟨c, hc, hmax⟩ := Finset.exists_max_image _ id ⟨_, hstart⟩
    obtain ⟨hcmem, hcm⟩ := Finset.mem_filter.mp hc
    have hahead : s.hasVBlockingSubsetStrictlyAheadOf scp c = true := by
      rcases mem_cons.mp (mem_toFinset.mp hcmem) with rfl | hc
      · exact hlocal
      · have hpair := ascending_pairwise
          ((s.mLatestEnvelopes.entries.map fun e => statementBallotCounter e.2).filter (· > s.localCounter))
        have hc' : c ∈ before ++ n :: after := hsplit ▸ hc
        rw [show ascending _ = before ++ n :: after from hsplit, pairwise_append] at hpair
        rcases mem_append.mp hc' with hc' | hc'
        · simpa using hbefore c hc'
        · refine absurd (hcm.trans_lt hlt) (not_lt.mpr ?_)
          rcases mem_cons.mp hc' with rfl | hc'
          · exact le_rfl
          · exact ((pairwise_cons.mp hpair.2.1).1 c hc').le
    have hbetween : ∀ k st, s.mLatestEnvelopes.lookup k = some st → c < statementBallotCounter st →
        m < statementBallotCounter st := by
      intro k st hst hcst
      by_contra hnot
      have hlocalc := hmax _ hstart
      have hin : statementBallotCounter st ∈ ((s.localCounter :: s.countersAhead).toFinset.filter (· ≤ m)) := by
        rw [Finset.mem_filter, mem_toFinset]
        refine ⟨.tail _ (mem_countersAhead.mpr ⟨⟨k, st, hst, rfl⟩, ?_⟩), not_lt.mp hnot⟩
        exact hlocalc.trans_lt hcst
      exact absurd (hmax _ hin) (not_le.mpr hcst)
    rw [ahead_of hahead hbetween] at hm
    cases hm
  · cases h

theorem findBump_eq_none :
    s.findBump scp = none ↔ s.hasVBlockingSubsetStrictlyAheadOf scp s.localCounter = false := by
  rw [findBump_eq]
  split
  · next hlocal =>
    refine iff_of_false (fun hnone => ?_) (by rw [hlocal]; decide)
    rw [List.find?_eq_none] at hnone
    -- the highest counter has no statement ahead of it
    have hsome : s.countersAhead.toFinset.Nonempty := by
      by_contra hempty
      rw [Finset.not_nonempty_iff_eq_empty, toFinset_eq_empty_iff] at hempty
      rw [not_ahead_of_last (fun n st hst => not_lt.mp fun hlt => ?_)] at hlocal
      · cases hlocal
      · have hin := mem_countersAhead.mpr ⟨⟨n, st, hst, rfl⟩, hlt⟩
        rw [hempty] at hin
        exact not_mem_nil hin
    obtain ⟨c, hc, hmax⟩ := Finset.exists_max_image _ id hsome
    rw [mem_toFinset] at hc
    refine hnone c hc ?_
    rw [not_ahead_of_last, Bool.not_false]
    intro n st hst
    by_cases hlt : s.localCounter < statementBallotCounter st
    · exact hmax _ (mem_toFinset.mpr (mem_countersAhead.mpr ⟨⟨n, st, hst, rfl⟩, hlt⟩))
    · exact (not_lt.mp hlt).trans (mem_countersAhead.mp hc).2.le
  · next hlocal => exact iff_of_true rfl (Bool.eq_false_iff.mpr hlocal)

/-! ### The ballot to bump to -/

/-- There is a ballot to bump to: a value, which c does not rule out. -/
def HasBump (s : Core) : Prop :=
  ∃ v, s.abandonValue = some v ∧ ∀ c, s.mCommit = some c → c.value = s.mValueOverride.getD v

theorem updateCurrentValue_moves {ballot : SCPBallot} (hphase : s.mPhase ≠ .externalize)
    (hahead : s.localCounter < ballot.counter) (hcommit : ∀ c, s.mCommit = some c → c.value = ballot.value) :
    Meets (s.updateCurrentValue ballot) (fun (updated, _) => updated = true) fun _ => True := by
  have hbump : Meets (s.bumpToBallot ballot true >>= fun s => s.assertInvariants >>= fun _ => pure (true, s))
      (fun (updated, _) => updated = true) fun _ => True := by
    refine bind ((bumpToBallot_meets s ballot true).anyFault) fun s1 _ => ?_
    exact bind (s1.assertInvariants_meets.anyFault) fun _ _ => rfl
  rw [updateCurrentValue, if_neg hphase]
  cases hb : s.mCurrentBallot with
  | none => exact hbump
  | some b =>
    have hlt : b < ballot := by
      apply SCPBallot.lt_of_counter
      simpa [localCounter, hb] using hahead
    have hclear : s.mCommit.any (!areBallotsCompatible · ballot) = false := by
      cases hc : s.mCommit with
      | none => rfl
      | some c => simp [hcommit c hc]
    dsimp only
    rw [if_pos (compareBallots_nonpos.mpr hlt.le), hclear, if_neg Bool.false_ne_true, if_pos (compareBallots_neg.mpr hlt)]
    exact hbump

variable (scp) in
/-- A round of the loop: the counter is raised to the least no v-blocking set is ahead of, and the
statement of that is processed. -/
def BumpRound (s s' : Core) : Prop :=
  ∃ n v s1, IsLeast (s.counters scp) n ∧ s.localCounter < n ∧ s.abandonValue = some v ∧
    s.Effect (.bump (s.bumpBallot v n)) true s1 ∧ Frame scp s1 s'

/-! ### The value to bump with -/

variable {s' : Core}

/-- While c is set, b, h and the value to bump with are c's, and h is not aborted in PREPARE. -/
structure Holds (s : Core) : Prop where
  bound : ∀ c, s.mCommit = some c → Bound s c.value
  clear : s.mPhase = .prepare → s.mCommit.isSome → ∀ h, s.mHighBallot = some h → ¬s.aborted h
  confirm : s.mPhase = .confirm → s.mCommit.isSome

theorem acceptsPrepared_of_ratified {ballot : SCPBallot} (h : s.federatedRatify scp (hasPreparedBallot ballot) = true) :
    s.acceptsPrepared scp ballot = true := by
  obtain ⟨U, hU, hslice⟩ := isQuorum_iff.mp h
  refine acceptsPrepared_iff.mpr (.inr (isQuorum_iff.mpr ⟨U, fun n hn => ?_, hslice⟩))
  obtain ⟨st, q, hst, hprep, hq⟩ := hU n hn
  exact ⟨st, q, hst, by rw [supportsPrepared, hprep, Bool.true_or], hq⟩

theorem aborted_of_alreadyPrepared {h newH : SCPBallot} (hprime : s.PrimeBelow) (hlt : h < newH)
    (hv : h.value ≠ newH.value) (hcovered : s.alreadyPrepared newH = true) : s.aborted h := by
  rcases alreadyPrepared_iff.mp hcovered with ⟨p', hp', hle⟩ | ⟨p, hp, hle, hvp⟩
  · obtain ⟨p, hp, hltp, hvp⟩ := hprime p' hp'
    by_cases hvh : h.value = p.value
    · exact .inr ⟨p', hp', hlt.le.trans hle, fun hvp' => hvp (hvp'.symm.trans hvh)⟩
    · exact .inl ⟨p, hp, hlt.le.trans (hle.trans hltp.le), hvh⟩
  · exact .inl ⟨p, hp, hlt.le.trans hle, fun hvh => hv (hvh.trans hvp.symm)⟩

theorem Holds.confirmPrepared {newC newH : SCPBallot} {didWork : Bool} (h : s.Holds) (hs : s.Sound scp)
    (hcomplete : s.Complete scp True) (hcan : s.CanConfirmPrepared scp newC newH)
    (heff : s.ConfirmsPrepared newC newH didWork s') : s'.Holds := by
  cases heff with
  | high b heard hv hle _ hb =>
    have hvb : b.value = newH.value := by
      rcases hb with rfl | hb
      · rfl
      · exact hv b hb
    have hc (c : SCPBallot) (hc : (if newC.counter ≠ 0 then some newC else s.mCommit) = some c) :
        c.value = newH.value ∧ ¬s.aborted newH := by
      split at hc
      · next hne =>
        cases hc
        rcases hcan.commit with rfl | hcommit
        · exact absurd rfl hne
        · exact ⟨hcommit.value, ((mayCommit_iff s newH).mp hcommit.may).2⟩
      · obtain ⟨b', hb', hvb'⟩ := (h.bound c hc).current
        obtain ⟨high, hh, hvh⟩ := (h.bound c hc).high
        have hvc : c.value = newH.value := hvb'.symm.trans (hv b' hb')
        refine ⟨hvc, fun habort => ?_⟩
        exact h.clear hcan.active (by simp [hc]) high hh (aborted_mono (hcan.raises high hh).le (hvh.trans hvc) habort)
    refine ⟨fun c hcommit => ?_, fun _ hsome high hh => ?_, fun hphase => ?_⟩
    · obtain ⟨hvc, -⟩ := hc c hcommit
      rw [hvc]
      exact ⟨⟨c, hcommit, hvc⟩, ⟨newH, rfl, rfl⟩, ⟨b, rfl, hvb⟩, rfl⟩
    · obtain ⟨c, hcommit⟩ := Option.isSome_iff_exists.mp hsome
      cases hh
      exact (hc c hcommit).2
    · exact absurd (hcan.active.symm.trans hphase) (by decide)
  | switch b hb hv _ _ hmoved =>
    -- c has the value of b, so h would not stay
    have hnone : s'.mCommit = none := by
      cases hmoved with
      | keeps heard hkeeps =>
        refine Option.eq_none_iff_forall_ne_some.mpr fun c hc => ?_
        obtain ⟨b', hb', hvb⟩ := (h.bound c hc).current
        obtain ⟨high, hh, hvh⟩ := (h.bound c hc).high
        rw [hb] at hb'
        cases hb'
        exact hv (hvb.trans (hvh.symm.trans (hkeeps high hh)))
      | drops => rfl
    have hphase : s'.mPhase = .prepare := by cases hmoved <;> exact hcan.active
    exact ⟨by simp [hnone], by simp [hnone], fun hconfirm => absurd (hphase.symm.trans hconfirm) (by decide)⟩
  | stay b hb hv _ =>
    -- the ballot confirmed is covered, and would have aborted h
    have hnone : s.mCommit = none := by
      refine Option.eq_none_iff_forall_ne_some.mpr fun c hc => ?_
      obtain ⟨b', hb', hvb⟩ := (h.bound c hc).current
      obtain ⟨high, hh, hvh⟩ := (h.bound c hc).high
      rw [hb] at hb'
      cases hb'
      have hcovered := (hcomplete hcan.active newH (acceptsPrepared_of_ratified hcan.ratified)).2 trivial
      refine h.clear hcan.active (by simp [hc]) high hh (aborted_of_alreadyPrepared hs.prime (hcan.raises high hh) ?_ hcovered)
      exact fun hne => hv (hvb.trans (hvh.symm.trans hne))
    exact ⟨by simp [hnone], by simp [hnone], fun hconfirm => absurd (hcan.active.symm.trans hconfirm) (by decide)⟩

theorem Holds.acceptPrepared {ballot : SCPBallot} {didWork : Bool} (h : s.Holds)
    (heff : s.Effect (.acceptPrepared ballot) didWork s') : s'.Holds := by
  cases heff with
  | acceptPrepared _ _ hprep hkeep =>
    have hsame : s'.mPhase = s.mPhase ∧ s'.mCommit = s.mCommit ∧ s'.mHighBallot = s.mHighBallot := by
      cases hprep <;> exact ⟨rfl, rfl, rfl⟩
    obtain ⟨hphase, hc, hh⟩ := hsame
    refine ⟨fun c hcommit => (Prepares.bound (h.bound c (hc ▸ hcommit)) hprep).1, fun _ hsome high hhigh => ?_, fun hconfirm => ?_⟩
    · exact hkeep (hc ▸ hsome) high (hh ▸ hhigh)
    · exact hc ▸ h.confirm (hphase ▸ hconfirm)
  | clearCommit _ s1 hprep hphase =>
    have hphase1 : s1.mPhase = .prepare := by cases hprep <;> exact hphase
    exact ⟨by simp, by simp, fun hconfirm => absurd (hphase1.symm.trans hconfirm) (by decide)⟩

/-- **What every action keeps, if nothing is missed.** -/
theorem Holds.effect {a : Action} {didWork : Bool} (h : s.Holds) (hs : s.Sound scp) (hcomplete : s.Complete scp True)
    (taken : s.Taken scp a) (heff : s.Effect a didWork s') : s'.Holds := by
  cases a with
  | acceptPrepared ballot => exact h.acceptPrepared heff
  | confirmPrepared newC newH =>
    cases heff with
    | confirmPrepared _ _ _ _ heff => exact h.confirmPrepared hs hcomplete taken heff
  | acceptCommit c high =>
    cases heff with
    | acceptCommit _ _ b prime heard ha =>
      have hcan : s.CanAcceptCommit c high := taken
      have hvb : b.value = high.value := by
        by_cases hphase : s.mPhase = .prepare
        · exact (ha.prepare hphase).2
        · have hconfirm : s.mPhase = .confirm := by
            cases hp : s.mPhase <;> simp_all [hcan.active]
          obtain ⟨c', hc'⟩ := Option.isSome_iff_exists.mp (h.confirm hconfirm)
          obtain ⟨h', hh', hv', -⟩ := hcan.raises hconfirm
          obtain ⟨h'', hh'', hvh⟩ := (h.bound c' hc').high
          obtain ⟨b', hb', hvb'⟩ := (h.bound c' hc').current
          rw [hh'] at hh''
          cases hh''
          rcases ha.current with rfl | hb
          · rfl
          · rw [hb] at hb'
            cases hb'
            rw [hvb', ← hvh, hv']
      refine ⟨fun c' hc' => ?_, fun hphase => (nomatch hphase), fun _ => rfl⟩
      cases hc'
      rw [hcan.value]
      exact ⟨⟨c, rfl, hcan.value⟩, ⟨high, rfl, rfl⟩, ⟨b, rfl, hvb⟩, rfl⟩
  | confirmCommit c high =>
    cases heff with
    | confirmCommit _ _ b heard _ _ hb =>
      have hcan : s.CanConfirmCommit scp c high := taken
      obtain ⟨c', hc', hv'⟩ := hcan.commit
      have hbound := h.bound c' hc'
      rw [hv'] at hbound
      refine ⟨fun c'' hc'' => ?_, fun hphase => (nomatch hphase), fun hphase => (nomatch hphase)⟩
      cases hc''
      rw [hcan.value]
      refine ⟨⟨c, rfl, hcan.value⟩, ⟨high, rfl, rfl⟩, ⟨b, rfl, ?_⟩, hbound.override⟩
      rcases hb with rfl | hb
      · rfl
      · obtain ⟨b', hb', hvb⟩ := hbound.current
        rw [hb] at hb'
        cases hb'
        exact hvb
  | bump ballot =>
    cases heff with
    | bump _ _ hmoves =>
      have hsome (hsome : s.mCommit.isSome) : s.mCurrentBallot.isSome := by
        obtain ⟨c, hc⟩ := Option.isSome_iff_exists.mp hsome
        obtain ⟨b, hb, -⟩ := (h.bound c hc).current
        simp [hb]
      cases hmoves.moved with
      | keeps heard _ =>
        refine ⟨fun c hc => ?_, h.clear, h.confirm⟩
        have hbound := h.bound c hc
        exact ⟨hbound.commit, hbound.high, ⟨ballot, rfl, (hmoves.commit (hsome (by rw [show s.mCommit = some c from hc]; rfl)) c hc).symm⟩, hbound.override⟩
      | drops heard high hh hv =>
        have hnone : s.mCommit = none := by
          refine Option.eq_none_iff_forall_ne_some.mpr fun c hc => ?_
          obtain ⟨high', hh', hvh⟩ := (h.bound c hc).high
          rw [hh] at hh'
          cases hh'
          exact hv (hvh.trans (hmoves.commit (hsome (by simp [hc])) c hc))
        refine ⟨fun c hc => (nomatch hc), fun _ hc => (nomatch hc), fun hphase => ?_⟩
        have := h.confirm hphase
        rw [hnone] at this
        cases this
    | stay => exact h

theorem Holds.with (h : s.Holds) (heard : Bool) (value : Option Value) (latest : Latest SCPStatement)
    (history : List SCPStatement) : ({ s with
      mHeardFromQuorum := heard, mLatestCompositeCandidate := value, mLatestEnvelopes := latest,
      mStatementsHistory := history } : Core).Holds := by
  refine ⟨fun c hc => ?_, h.clear, h.confirm⟩
  have hbound := h.bound c hc
  exact ⟨hbound.commit, hbound.high, hbound.current, hbound.override⟩

theorem holds_settling : Settling scp (fun s => s.Complete scp True ∧ s.Holds)
    fun hint s => s.Pending scp True hint ∧ s.Holds where
  effect hs h taken heff := ⟨(complete_settling scp True).effect hs h.1 taken heff, h.2.effect hs h.1 taken heff⟩
  heard h _ := ⟨h.1, h.2.with _ _ _ _⟩
  candidate h _ := ⟨h.1, h.2.with _ _ _ _⟩
  own hs h hst := ⟨(complete_settling scp True).own hs h.1 hst, h.2.with _ _ _ _⟩
  ended h hext := ⟨(complete_settling scp True).ended h.1 hext, h.2⟩
  none hs h hnone := ⟨(complete_settling scp True).none hs h.1 hnone, h.2⟩
  found hs h heff hfound hhighest := ⟨(complete_settling scp True).found hs h.1 heff hfound hhighest, h.2.acceptPrepared heff⟩

theorem fresh_holds : (fresh scp).Holds :=
  ⟨fun _ hc => (nomatch hc), fun _ hc => (nomatch hc), fun hphase => (nomatch hphase)⟩

/-! ### A value to bump with -/

variable (scp) in
/-- The statements recorded are valid, and so is the value of b. -/
structure Voiced (s : Core) : Prop where
  history : ∀ st ∈ s.mStatementsHistory, validateValues scp st ≠ .kInvalidValue
  current : ∀ b, s.mCurrentBallot = some b → scp.driver.validateValue b.value false ≠ .kInvalidValue

theorem current_mem_values {st : SCPStatement} {b : SCPBallot} (hcheck : s.Checked) (hb : s.mCurrentBallot = some b)
    (hst : s.statement scp = some st) : b.value ∈ getStatementValues st := by
  cases hphase : s.mPhase with
  | prepare =>
    simp only [statement, hphase, hb] at hst
    cases hst
    simp [getStatementValues, mem_ascending, hcheck.current b hb]
  | confirm =>
    simp only [statement, hphase, hb] at hst
    split at hst
    · next hb' _ _ _ =>
      cases hb'
      cases hst
      exact mem_singleton.mpr rfl
    · cases hst
  | externalize =>
    simp only [statement, hphase] at hst
    split at hst
    · next c h hc hh =>
      cases hst
      obtain ⟨h', hh', -, hvc⟩ := hcheck.commit c hc
      obtain ⟨b', hb', -, hvh⟩ := hcheck.high h' hh'
      rw [hb] at hb'
      cases hb'
      exact mem_singleton.mpr (hvc.trans hvh).symm
    · cases hst

theorem Voiced.does {a : Action} (h : s.Voiced scp) (hrec : Recorded s) (hdoes : s.Does scp a s') : s'.Voiced scp := by
  cases hdoes with
  | quiet _ heff =>
    refine ⟨heff.statements.2 ▸ h.history, ?_⟩
    cases heff with
    | confirmPrepared _ _ _ _ hconf => cases hconf; exact h.current
    | stay => exact h.current
  | publish s1 _ heff hinv hpub =>
    obtain ⟨st, hst, hvalid, hold⟩ := hpub.valid (hrec.effect heff) (heff.statements.2 ▸ h.history)
    have hvalues := ((validateValues_iff st).mp hvalid).2
    refine ⟨fun st' hst' => ?_, fun b hb => ?_⟩
    · rcases hold st' hst' with rfl | hmem
      · exact hvalid
      · exact h.history st' (heff.statements.2 ▸ hmem)
    · obtain ⟨-, -, hcurrent, -⟩ := hpub.registers
      exact hvalues _ (current_mem_values ((checkInvariants_iff s1).mp hinv) (hcurrent ▸ hb) hst)

theorem voiced_invariant : Invariant scp (Event.FromOther scp)
    (fun s => (Recorded s ∧ Deciding scp s) ∧ s.Voiced scp) where
  happens := by
    intro s e s' ⟨hdec, h⟩ hs he happens
    refine ⟨deciding_invariant.happens s e s' hdec hs he happens, ?_⟩
    cases happens with
    | ignored _ => exact h
    | receive st hadmits =>
      refine ⟨fun st' hst' => ?_, h.current⟩
      rcases mem_append.mp hst' with hmem | hmem
      · exact h.history st' hmem
      · cases mem_singleton.mp hmem
        simp only [admits, Bool.and_eq_true, decide_eq_true_eq] at hadmits
        exact hadmits.2
    | candidate value => exact ⟨h.history, h.current⟩
    | bump _ ballot _ hb hdoes => exact h.does hdec.1 hdoes
  move := by
    intro s s' ⟨hdec, h⟩ hs hmove
    refine ⟨deciding_invariant.move s s' hdec hs hmove, ?_⟩
    cases hmove with
    | act a _ _ hdoes => exact h.does hdec.1 hdoes
    | heard heard => exact ⟨h.history, h.current⟩

theorem fresh_voiced : (fresh scp).Voiced scp := ⟨by simp [fresh], by simp [fresh]⟩

theorem abandonValue_isSome {b : SCPBallot} (hb : s.mCurrentBallot = some b) (hne : b.value ≠ []) :
    s.abandonValue.isSome := by
  unfold abandonValue
  split
  · rfl
  · simp [hb, hne]

end Core

namespace BallotProtocol
variable {scp : SCP}

variable {s : BallotProtocol}

/-! ### The loop -/

theorem emitAfter_worked (processSelf : ProcessSelf) (s : BallotProtocol) (didWork : Bool) (core : Core) :
    Meets (emitAfter scp processSelf s didWork core)
      (fun (worked, s') => worked = didWork ∧ (didWork = false → s'.toCore = core)) fun _ => True := by
  unfold emitAfter
  cases didWork with
  | false => exact ⟨rfl, fun _ => rfl⟩
  | true =>
    cases emitCurrentStateStatement scp processSelf { s with toCore := core } with
    | error f => exact trivial
    | ok s' => exact ⟨rfl, fun h => nomatch h⟩

theorem attemptBump_stays (processSelf : ProcessSelf) (s : BallotProtocol) :
    Meets (attemptBump scp processSelf s)
      (fun (didBump, s') => didBump = false → s'.toCore = s.toCore ∧
        (s.mPhase = .externalize ∨ s.findBump scp = none ∨ ¬s.HasBump)) fun _ => True := by
  unfold attemptBump
  split
  · next hphase => exact fun _ => ⟨rfl, .inl hphase⟩
  · next hphase =>
    split
    · next n hfound =>
      have hahead := (findBump_isLeast hfound).2
      unfold abandonBallot
      split
      · next hnone =>
        refine fun _ => ⟨rfl, .inr (.inr fun hbump => ?_)⟩
        obtain ⟨v, hv, -⟩ := hbump
        rw [hnone] at hv
        cases hv
      · next v hv =>
        rw [if_neg (uint32_ne_zero_of_lt hahead), bumpStateTo, if_neg hphase]
        by_cases hcommit : ∀ c, s.mCommit = some c → c.value = s.mValueOverride.getD v
        · have hmoves : Meets (s.updateCurrentValue (s.bumpBallot v n)) (fun (updated, _) => updated = true) fun _ => True :=
            updateCurrentValue_moves hphase hahead hcommit
          refine bind hmoves ?_
          rintro ⟨updated, core⟩ hupdated
          refine bind (emitAfter_worked processSelf s updated core) ?_
          rintro ⟨worked, s'⟩ ⟨hworked, -⟩
          exact fun h => absurd (h.symm.trans (hworked.trans hupdated)) (by decide)
        · refine bind ((updateCurrentValue_meets s.toCore (s.bumpBallot v n)).anyFault) ?_
          rintro ⟨updated, core⟩ hupdated
          refine bind (emitAfter_worked processSelf s updated core) ?_
          rintro ⟨worked, s'⟩ ⟨hworked, hcore⟩
          intro hstays
          have hnot : ¬s.HasBump := by
            rintro ⟨v', hv', hcommit'⟩
            rw [hv] at hv'
            cases hv'
            exact hcommit hcommit'
          rcases hupdated with ⟨hfalse, hsame⟩ | ⟨htrue, _⟩
          · refine ⟨?_, .inr (.inr hnot)⟩
            rw [if_neg (by rw [hstays]; decide)]
            exact (hcore hfalse).trans hsame
          · exact absurd (hstays.symm.trans (hworked.trans htrue)) (by decide)
    · next hnone => exact fun _ => ⟨rfl, .inr (.inl hnone)⟩

theorem bumpLoop_ends (processSelf : ProcessSelf) (n : Nat) (s : BallotProtocol) :
    Meets (bumpLoop scp processSelf n s)
      (fun (_, s') => s'.mPhase = .externalize ∨ s'.findBump scp = none ∨ ¬s'.HasBump) fun _ => True := by
  induction n generalizing s with
  | zero => exact trivial
  | succ n ih =>
    refine bind (attemptBump_stays processSelf s) ?_
    rintro ⟨didBump, s1⟩ hstays
    cases didBump with
    | true => exact bind (ih s1) fun _ h => h
    | false =>
      obtain ⟨hcore, hends⟩ := hstays rfl
      rw [← hcore] at hends
      exact hends

section Rounds
variable {processSelf : ProcessSelf} (hself : SelfMoving scp (fun _ => True) processSelf)
include hself

theorem attemptBump_round {s : BallotProtocol} (hs : s.Sound scp) :
    Meets (attemptBump scp processSelf s)
      (fun (didBump, s') => didBump = true → BumpRound scp s.toCore s'.toCore) fun _ => True := by
  unfold attemptBump
  split
  · exact fun h => nomatch h
  · next hphase =>
    split
    · next n hfound =>
      obtain ⟨hleast, hahead⟩ := findBump_isLeast hfound
      unfold abandonBallot
      split
      · exact fun h => nomatch h
      · next v hv =>
        rw [if_neg (uint32_ne_zero_of_lt hahead)]
        refine (bumpStateTo_meets hself (settling_true scp) hs trivial hphase v fun _ => uint32_ne_zero_of_lt hahead).mono ?_
          fun _ _ => trivial
        intro ⟨didBump, s'⟩ ⟨_, s1, heff, hframe⟩ hbump
        cases hbump
        exact ⟨n, v, s1, hleast, hahead, hv, heff, hframe⟩
    · exact fun h => nomatch h

theorem bumpLoop_rounds (n : Nat) {s : BallotProtocol} (hs : s.Sound scp) :
    Meets (bumpLoop scp processSelf n s)
      (fun (_, s') => ReflTransGen (BumpRound scp) s.toCore s'.toCore) fun _ => True := by
  induction n generalizing s with
  | zero => exact trivial
  | succ n ih =>
    refine bind ((((attemptBump_meets hself (settling_true scp) hs trivial).and (attemptBump_round hself hs)).and
      (attemptBump_stays processSelf s)).anyFault) ?_
    rintro ⟨didBump, s1⟩ ⟨⟨⟨⟨hmoves, -, -⟩, -⟩, hround⟩, hstays⟩
    cases didBump with
    | true => exact bind (ih (hs.moves hmoves)) fun _ h => .head (hround rfl) h
    | false =>
      show ReflTransGen (BumpRound scp) s.toCore s1.toCore
      rw [(hstays rfl).1]

end Rounds

theorem checkHeardFromQuorum_eq (scp : SCP) (s : BallotProtocol) :
    ∃ heard, (s.checkHeardFromQuorum scp).toCore = { s.toCore with mHeardFromQuorum := heard } := by
  unfold checkHeardFromQuorum
  split
  · exact ⟨s.mHeardFromQuorum, rfl⟩
  · split
    · exact ⟨true, rfl⟩
    · exact ⟨false, rfl⟩

theorem not_faulty_bumpLoop {s : Core} : ¬Faulty scp s .bumpLoop := by
  intro h
  cases h with
  | act _ _ _ _ _ hact =>
    cases hact with
    | update _ hupdate => cases hupdate
    | publish _ _ _ hpublish => cases hpublish

/-- At the outermost level `advanceSlot` makes its attempts and then goes through the loop. -/
theorem advanceSlot_rounds (depth : Nat) {hint : SCPStatement} (hs : s.Sound scp)
    (hhint : hint ∈ s.mStatementsHistory) (hlatest : s.mLatestEnvelopes.lookup hint.nodeID = some hint)
    (hlevel : s.mCurrentMessageLevel = 0) :
    Meets (advanceSlot scp (processSelf scp depth) s hint)
      (fun s' => ∃ s1 s2 heard, Moves scp s.toCore s1 ∧ ReflTransGen (BumpRound scp) s1 s2 ∧
        s'.toCore = { s2 with mHeardFromQuorum := heard } ∧
        (s2.mPhase = .externalize ∨ s2.findBump scp = none ∨ ¬s2.HasBump)) fun _ => True := by
  have hself := processSelf_moving (settling_true scp) depth
  unfold advanceSlot
  dsimp only
  split
  · exact trivial
  · refine bind (attempts_moving hself (settling_true scp)
      (s := { s with mCurrentMessageLevel := s.mCurrentMessageLevel + 1 }) hs hhint hlatest trivial).anyFault ?_
    rintro ⟨attempted, s1⟩ ⟨hmoves, -, hlevel1⟩
    have hone : s1.mCurrentMessageLevel = 1 := by
      rw [hlevel1]
      rw [hlevel]
    rw [bumps, if_pos hone]
    refine bind (Q := fun (_, s3) => ∃ s2 : BallotProtocol, s3 = s2.checkHeardFromQuorum scp ∧
      ReflTransGen (BumpRound scp) s1.toCore s2.toCore ∧
      (s2.mPhase = .externalize ∨ s2.findBump scp = none ∨ ¬s2.HasBump)) ?_ ?_
    · refine bind (((bumpLoop_rounds hself bumpLoopBound (hs.moves hmoves)).and
        (bumpLoop_ends (processSelf scp depth) bumpLoopBound s1)).anyFault) ?_
      exact fun ⟨_, s2⟩ ⟨hrounds, hends⟩ => ⟨s2, rfl, hrounds, hends⟩
    · intro ⟨bumped, s3⟩ ⟨s2, hs3, hrounds, hends⟩
      obtain ⟨heard, hcore⟩ := checkHeardFromQuorum_eq scp s2
      subst hs3
      split
      · exact ⟨s1.toCore, s2.toCore, heard, hmoves, hrounds, (sendLatestEnvelope_toCore _).trans hcore, hends⟩
      · exact ⟨s1.toCore, s2.toCore, heard, hmoves, hrounds, hcore, hends⟩

theorem run_sound {events : List Event} (hother : ∀ e ∈ events, e.FromOther scp)
    (hrun : run scp (fresh scp) events = .ok s) : s.Sound scp :=
  ((run_settles (settling_true scp) hother (fun _ _ _ _ => trivial) fresh_sound trivial).of_ok hrun).1

/-- Registers in which `hint` has just been recorded, after a run of events. -/
def Follows (scp : SCP) (events : List Event) (hint : SCPStatement) (s : Core) : Prop :=
  ∃ s0, run scp (fresh scp) events = .ok s0 ∧ s0.admits scp hint false = true ∧ s = s0.recordEnvelope hint

/-- There is a ballot to bump to, if what the node was told is of one value each time. -/
theorem hasBump_of_oneValue (hempty : scp.driver.validateValue [] false = .kInvalidValue) {depth : Nat}
    {events : List Event} {hint : SCPStatement} (hother : ∀ e ∈ .receive hint :: events, e.FromOther scp)
    (hone : ∀ st, .receive st ∈ .receive hint :: events → st.OneValue) (h : Follows scp events hint s.toCore) :
    Meets (advanceSlot scp (processSelf scp depth) s hint)
      (fun s' => s'.mCurrentBallot.isSome → s'.HasBump) fun _ => True := by
  obtain ⟨s0, hrun, hadmits, hs0⟩ := h
  have hhint : hint.nodeID ≠ scp.localNode.mNodeID := hother _ (.head _)
  have hevents : ∀ e ∈ events, e.FromOther scp := fun e he => hother e (.tail _ he)
  have hrecord (st : SCPStatement) (hst : st.OneValue) (s : Core) (h : s.Complete scp True ∧ s.Holds) :
      (s.recordEnvelope st).Pending scp True st ∧ (s.recordEnvelope st).Holds :=
    ⟨h.1.record st fun _ _ _ hsupports => .inr (hst.value_eq hsupports), h.2.with _ _ _ _⟩
  obtain ⟨hsound, hdone⟩ := (run_settles holds_settling hevents (fun st hst => hrecord st (hone st (.tail _ hst)))
    fresh_sound ⟨fresh_complete, fresh_holds⟩).of_ok hrun
  have hvoiced := ((run_meets (@voiced_invariant scp) (fun _ h => h) events hevents fresh_sound
    ⟨fresh_deciding, fresh_voiced⟩).of_ok hrun).2
  have hs : s.Sound scp := hs0 ▸ hsound.record_other hhint
  have hmem : hint ∈ s.mStatementsHistory := by simp [hs0, recordEnvelope]
  have hlatest : s.mLatestEnvelopes.lookup hint.nodeID = some hint := by
    rw [hs0]
    exact s0.lookup_record_self hint
  have htodo := hrecord hint (hone hint (.head _)) s0.toCore hdone
  refine (advanceSlot_meets (processSelf_moving holds_settling depth) holds_settling hs hmem hlatest
    (hs0 ▸ htodo)).mono ?_ fun _ _ => trivial
  rintro s' ⟨hmoves, hsettled, -⟩ hsome
  obtain ⟨b, hb⟩ := Option.isSome_iff_exists.mp hsome
  have hrecorded : (Recorded s.toCore ∧ Deciding scp s.toCore) ∧ Voiced scp s.toCore := by
    rw [hs0]
    exact voiced_invariant.happens _ (.receive hint) _ hvoiced hsound hhint (.receive hint hadmits)
  have hvalid := (voiced_invariant.moves hs hrecorded hmoves).2.current b hb
  have hne : b.value ≠ [] := fun hnil => hvalid (hnil ▸ hempty)
  obtain ⟨v, hv⟩ := Option.isSome_iff_exists.mp (abandonValue_isSome hb hne)
  refine ⟨v, hv, fun c hc => ?_⟩
  rw [(hsettled.2.bound c hc).override]
  rfl

/-- Node 7 prepares (1, y) and the node follows; its timer expires three times; and node 7 votes for
(5, y), having prepared (3, x). -/
def overtaken : List Event :=
  [heardPrepare ⟨1, [2]⟩ (some ⟨1, [2]⟩) none, .timerExpired, .timerExpired, .timerExpired,
    heardPrepare ⟨5, [2]⟩ (some ⟨3, [1]⟩) none]

def started : List Event := [.bumpState [2] true]

def aheadVote : SCPStatement := ⟨7, .prepare ⟨1, ⟨3, [2]⟩, none, none, 0, 0⟩⟩

theorem aheadVote_heard : ∃ s, run listener (fresh listener) started = .ok s ∧
    s.mCurrentBallot = some ⟨1, [2]⟩ ∧ s.admits listener aheadVote false = true ∧ s.mCurrentMessageLevel = 0 ∧
    Meets (advanceSlot listener (processSelf listener 9) { s with toCore := s.recordEnvelope aheadVote } aheadVote)
      (fun s' => s'.mPhase = .prepare ∧ s'.mCurrentBallot = some ⟨3, [2]⟩) fun _ => False :=
  exists_ok (r := run listener (fresh listener) started)
    (Q := fun s => s.mCurrentBallot = some ⟨1, [2]⟩ ∧ s.admits listener aheadVote false = true ∧
      s.mCurrentMessageLevel = 0 ∧
      Meets (advanceSlot listener (processSelf listener 9) { s with toCore := s.recordEnvelope aheadVote } aheadVote)
        (fun s' => s'.mPhase = .prepare ∧ s'.mCurrentBallot = some ⟨3, [2]⟩) fun _ => False) (by decide +kernel)

end BallotProtocol
end Diamnet.Scp
