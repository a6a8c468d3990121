import Diamnet.Scp.Nomination
import Diamnet.Scp.Validity

/-! The orders of the statements of a node.

Statements of the ballot protocol are ordered as their ranks are, nominations as pairs of sets are by
inclusion. Of statements any two of which can be compared, the greatest is the one that stays
recorded, in whatever order they arrive (`latest_congr`). In EXTERNALIZE a node refuses statements with
another value than its own, so that there the order does matter. -/
open Diamnet.Scp.Core

namespace Diamnet.Scp
open List

/-! ### What stays recorded -/

section
variable {α β : Type} [PartialOrder β] {rank : α → β} {newer : α → α → Bool} {l l' : List α}

def Comparable (newer : α → α → Bool) (l : List α) : Prop :=
  ∀ a ∈ l, ∀ b ∈ l, a ≠ b → newer a b = true ∨ newer b a = true

def takeNewer (newer : α → α → Bool) (latest : Option α) (a : α) : Option α :=
  if latest.all (newer · a) then some a else latest

variable (hcomp : Comparable newer l) (hrank : ∀ a ∈ l, ∀ b ∈ l, (newer a b = true ↔ rank a < rank b))
include hcomp hrank

theorem exists_latest (hsub : l' ⊆ l) (hne : l' ≠ []) :
    ∃ m ∈ l', l'.foldl (takeNewer newer) none = some m ∧ ∀ a ∈ l', rank a ≤ rank m := by
  induction l' using reverseRecOn with
  | nil => exact absurd rfl hne
  | append_singleton l' b ih =>
    have hb : b ∈ l := hsub (by simp)
    rw [foldl_append, foldl_cons, foldl_nil, takeNewer]
    rcases eq_or_ne l' [] with rfl | hl
    · exact ⟨b, by simp, rfl, by simp⟩
    · obtain ⟨m, hm, hlatest, hmax⟩ := ih (fun a ha => hsub (by simp [ha])) hl
      have hml : m ∈ l := hsub (by simp [hm])
      rw [hlatest, Option.all_some]
      by_cases hnewer : newer m b = true
      · have hlt := (hrank m hml b hb).mp hnewer
        exact ⟨b, by simp, if_pos hnewer, forall_mem_append.mpr ⟨fun a ha => (hmax a ha).trans hlt.le, by simp⟩⟩
      · have hle : rank b ≤ rank m := by
          by_cases heq : b = m
          · rw [heq]
          · exact ((hrank b hb m hml).mp ((hcomp b hb m hml heq).resolve_right hnewer)).le
        exact ⟨m, by simp [hm], if_neg hnewer, forall_mem_append.mpr ⟨hmax, by simpa using hle⟩⟩

/-- **The order of arrival does not matter.** -/
theorem latest_congr (hsame : ∀ a, a ∈ l' ↔ a ∈ l) :
    l'.foldl (takeNewer newer) none = l.foldl (takeNewer newer) none := by
  rcases eq_or_ne l [] with rfl | hne
  · rw [eq_nil_iff_forall_not_mem.mpr fun a ha => not_mem_nil ((hsame a).mp ha)]
  · obtain ⟨m, hm, hlatest, hmax⟩ := exists_latest hcomp hrank (Subset.refl l) hne
    obtain ⟨m', hm', hlatest', hmax'⟩ := exists_latest hcomp hrank (fun a => (hsame a).mp)
      (ne_nil_of_mem ((hsame m).mpr hm))
    rw [hsame] at hm'
    have heq : rank m = rank m' := le_antisymm (hmax' m ((hsame m).mpr hm)) (hmax m' hm')
    have hself : m = m' := by
      by_contra hne'
      rcases hcomp m hm m' hm' hne' with h | h
      · exact ((hrank m hm m' hm').mp h).ne heq
      · exact ((hrank m' hm' m hm).mp h).ne' heq
    rw [hlatest, hlatest', hself]

end

/-! ### Ballots -/

/-- What statements are ordered by: their type, b, p, p' and h. The p of CONFIRM has the value of b. -/
def SCPPledges.rank : SCPPledges → ℕ ×ₗ SCPBallot ×ₗ List SCPBallot ×ₗ List SCPBallot ×ₗ UInt32
  | .prepare p => toLex (0, toLex (p.ballot, toLex (p.prepared.toList, toLex (p.preparedPrime.toList, p.nH))))
  | .confirm c => toLex (1, toLex (c.ballot, toLex ([⟨c.nPrepared, c.ballot.value⟩], toLex ([], c.nH))))
  | .externalize _ => toLex (2, toLex (default, toLex ([], toLex ([], 0))))

theorem compareBallotPtrs_lt {a b : Option SCPBallot} : compareBallotPtrs a b < 0 ↔ a.toList < b.toList := by
  cases a <;> cases b <;> simp [compareBallotPtrs, cons_lt_cons_iff]

theorem compareBallotPtrs_eq {a b : Option SCPBallot} : compareBallotPtrs a b = 0 ↔ a.toList = b.toList := by
  cases a <;> cases b <;> simp [compareBallotPtrs]

theorem isNewerStatement_iff {x y : SCPStatement} : isNewerStatement x y = true ↔ x.pledges.rank < y.pledges.rank := by
  obtain ⟨n, x⟩ := x
  obtain ⟨m, y⟩ := y
  cases x <;> cases y <;> simp [isNewerStatement, SCPPledges.rank, SCPPledges.type, Prod.Lex.toLex_lt_toLex,
    compareBallotPtrs_lt, compareBallotPtrs_eq, cons_lt_cons_iff]
  next old c =>
    refine or_congr_right (and_congr_right fun hb => ?_)
    have hlt := @SCPBallot.lt_iff_of_value ⟨old.nPrepared, c.ballot.value⟩ ⟨c.nPrepared, c.ballot.value⟩ rfl
    rw [hb, hlt]
    by_cases hp : old.nPrepared = c.nPrepared <;> simp [hp]

namespace BallotProtocol
variable {scp : SCP} {s s' : BallotProtocol} {st : SCPStatement} {id : NodeID}

theorem externalized_invariant : Invariant scp (Event.FromOther scp) (fun s => s.mPhase = .externalize) where
  happens := by
    intro s e s' h _ _ happens
    cases happens with
    | ignored | receive | candidate => exact h
    | bump _ ballot _ hb _ => exact absurd (Event.taken_of_bumps hb) (@not_taken scp _ _ h)
  move := by
    intro s s' h _ hmove
    cases hmove with
    | act a _ enabled _ => exact absurd enabled.taken (not_taken h)
    | heard => exact h

variable (scp id) in
/-- A statement of node `id` that nothing is wrong with. -/
def Acceptable (st : SCPStatement) : Prop :=
  st.nodeID = id ∧ isStatementSane scp st false = true ∧ validateValues scp st ≠ .kInvalidValue

/-- Short of EXTERNALIZE, `processEnvelope` records what is newer and nothing else of that node. -/
theorem handle_records (hs : s.Sound scp) (hid : id ≠ scp.localNode.mNodeID) (hst : Acceptable scp id st)
    (hok : handle scp s (.receive st) = .ok s') (hphase : s'.mPhase ≠ .externalize) :
    s'.mLatestEnvelopes.lookup id = takeNewer isNewerStatement (s.mLatestEnvelopes.lookup id) st := by
  obtain ⟨rfl, hsane, hvalid⟩ := hst
  have hadmits : s.admits scp st false = (s.mLatestEnvelopes.lookup st.nodeID).all (isNewerStatement · st) := by
    simp [admits, hsane, hvalid, isNewer]
  rw [handle, processEnvelope] at hok
  have hmeets : Meets (processEnvelopeWith scp (processSelf scp maxAdvanceSlotRecursion) st false s) _ _ :=
    processEnvelopeWith_meets (processSelf_moving (settling_true scp) maxAdvanceSlotRecursion) (settling_true scp)
      (hs.record_other hid) trivial
  generalize processEnvelopeWith _ _ _ _ _ = r at hok hmeets
  cases r with
  | error f => cases hok
  | ok x =>
    cases hok
    rcases hmeets with ⟨-, hcore, hrefused | ⟨_, hext, -⟩⟩ | ⟨-, hadmitted, hreaches⟩
    · rw [hcore, takeNewer, ← hadmits, hrefused, if_neg Bool.false_ne_true]
    · exact absurd ((congrArg Core.mPhase hcore).trans hext) hphase
    · rw [hreaches.moves.frame.others _ hid, takeNewer, ← hadmits, hadmitted, if_pos rfl]
      exact AList.lookup_insert _

theorem run_records (hid : id ≠ scp.localNode.mNodeID) {l : List SCPStatement} (hl : ∀ st ∈ l, Acceptable scp id st)
    (hs : s.Sound scp) (hok : run scp s (l.map .receive) = .ok s') (hphase : s'.mPhase ≠ .externalize) :
    s'.mLatestEnvelopes.lookup id = l.foldl (takeNewer isNewerStatement) (s.mLatestEnvelopes.lookup id) := by
  induction l generalizing s with
  | nil =>
    cases hok
    rfl
  | cons st rest ih =>
    have hother : ∀ e ∈ (st :: rest).map Event.receive, e.FromOther scp := by
      intro e he
      obtain ⟨st', hst', rfl⟩ := mem_map.mp he
      exact fun h => hid ((hl st' hst').1 ▸ h)
    obtain ⟨s1, hfirst, hrest⟩ := bind_eq_ok.mp hok
    have hs1 : s1.Sound scp := by
      obtain ⟨s0, happens, hmoves⟩ := (handle_meets hs (hother _ (.head _))).of_ok hfirst
      exact (happens.sound hs (hother _ (.head _))).moves hmoves
    have hphase1 : s1.mPhase ≠ .externalize := by
      intro hext
      have hmeets := run_meets externalized_invariant (fun _ h => h) (rest.map .receive)
        (fun e he => hother e (.tail _ he)) hs1 hext
      exact hphase (hmeets.of_ok hrest).2
    rw [ih (fun st' hst' => hl st' (.tail _ hst')) hs1 hrest, foldl_cons,
      handle_records hs hid (hl st (.head _)) hfirst hphase1]

end BallotProtocol

/-! ### Nominations -/

namespace NominationProtocol

theorem isIncreasing_iff : ∀ {l : List Value}, isIncreasing l = true ↔ l.IsChain (· < ·)
  | [] => by simp [isIncreasing]
  | [_] => by simp [isIncreasing]
  | a :: b :: l => by simp [isIncreasing, @isIncreasing_iff (b :: l)]

theorem isSubsetHelper_eq {p v : List Value} (hp : p.Pairwise (· < ·)) (hv : v.Pairwise (· < ·)) :
    isSubsetHelper p v = (decide (p ⊆ v), decide ¬(p ⊆ v ∧ v ⊆ p)) := by
  by_cases h : p ⊆ v
  · have hne : (⟨p, hp⟩ : OrderedSet Value) ≠ ⟨v, hv⟩ ↔ ¬v ⊆ p :=
      not_congr ⟨fun he => (OrderedSet.mk.inj he) ▸ Subset.refl p, @OrderedSet.Subset.antisymm _ _ ⟨p, hp⟩ ⟨v, hv⟩ h⟩
    rw [@isSubsetHelper_elems ⟨p, hp⟩ ⟨v, hv⟩ h]
    simp only [hne, h, true_and, decide_true]
  · simp [isSubsetHelper, h, mt (includes_iff hv hp).mp h]

/-- A nomination is newer if its sets contain those of the other, and not the other way round. -/
theorem isNewerStatement_iff {x y : SCPNomination} (hx : isSane x = true) (hy : isSane y = true) :
    isNewerStatement x y = true ↔ x.votes ⊆ y.votes ∧ x.accepted ⊆ y.accepted ∧
      (¬y.votes ⊆ x.votes ∨ ¬y.accepted ⊆ x.accepted) := by
  simp only [isSane, Bool.and_eq_true, isIncreasing_iff, isChain_iff_pairwise] at hx hy
  rw [isNewerStatement, isSubsetHelper_eq hx.1.2 hy.1.2, isSubsetHelper_eq hx.2 hy.2]
  by_cases hvotes : x.votes ⊆ y.votes <;> by_cases haccepted : x.accepted ⊆ y.accepted <;> simp [hvotes, haccepted]

def sets (nom : SCPNomination) : Set Value × Set Value := ({v | v ∈ nom.votes}, {v | v ∈ nom.accepted})

theorem isNewerStatement_iff_sets {x y : SCPNomination} (hx : isSane x = true) (hy : isSane y = true) :
    isNewerStatement x y = true ↔ sets x < sets y := by
  rw [isNewerStatement_iff hx hy, lt_iff_le_not_ge, ← not_and_or, ← and_assoc]
  rfl

section
variable {scp : SCP} {processSelf : ProcessSelf} {id : NodeID} {s s' : NominationProtocol} {nom : SCPNomination}

/-- A call that leaves the latest nomination of node `id` alone. -/
def LeavesLatest (id : NodeID) (processSelf : ProcessSelf) : Prop :=
  ∀ nom s state s', processSelf nom s = .ok (state, s') → s'.mLatestNominations.lookup id = s.mLatestNominations.lookup id

theorem promote_latest (hself : LeavesLatest id processSelf) {nodeID : NodeID}
    (hok : promote scp processSelf nodeID nom s = .ok s') :
    s'.mLatestNominations.lookup id = s.mLatestNominations.lookup id := by
  have hgrows := (acceptVotes_grows scp nom.votes s).trans (ratifyAccepted_grows scp (acceptVotes scp nom.votes s).2)
  obtain ⟨⟨tookVote, s₃⟩, htook, hok⟩ := bind_eq_ok.mp hok
  have hlatest := (hgrows.trans ((takeLeaderVote_meets _ nodeID nom).of_ok htook)).latest
  have hfinish (newCandidates : Bool) (s₄ : NominationProtocol) :
      (bumpComposite scp newCandidates s₄).mLatestNominations = s₄.mLatestNominations := by
    unfold bumpComposite
    split <;> rfl
  rw [← hlatest]
  dsimp only at hok
  split at hok
  · obtain ⟨s₄, hemit, hok⟩ := bind_eq_ok.mp hok
    obtain ⟨⟨state, s₅⟩, hcall, hemit⟩ := bind_eq_ok.mp hemit
    cases hok
    rw [hfinish, ← hself _ _ _ _ hcall]
    cases state with
    | invalid => cases hemit
    | valid =>
      dsimp only at hemit
      split at hemit <;> cases hemit <;> rfl
  · cases hok
    rw [hfinish]

theorem processSelf_leavesLatest (hid : id ≠ scp.localNode.mNodeID) (n : Nat) : LeavesLatest id (NominationProtocol.processSelf scp n) := by
  induction n with
  | zero => exact fun _ _ _ _ hok => nomatch hok
  | succ n ih =>
    intro nom s state s' hok
    change processEnvelopeWith scp (NominationProtocol.processSelf scp n) scp.localNode.mNodeID nom s = _ at hok
    unfold processEnvelopeWith at hok
    split at hok
    · cases hok
      rfl
    · have hlookup : (s.recordEnvelope scp.localNode.mNodeID nom).mLatestNominations.lookup id =
          s.mLatestNominations.lookup id := AList.lookup_insert_ne hid
      split at hok
      · obtain ⟨s₁, hpromote, hok⟩ := bind_eq_ok.mp hok
        cases hok
        exact (promote_latest ih hpromote).trans hlookup
      · cases hok
        exact hlookup

theorem run_records (hid : id ≠ scp.localNode.mNodeID) {fuel : Nat} {l : List SCPNomination}
    (hl : ∀ nom ∈ l, isSane nom = true) (hok : run scp fuel s (l.map (.receive id)) = .ok s') :
    s'.mLatestNominations.lookup id = l.foldl (takeNewer isNewerStatement) (s.mLatestNominations.lookup id) := by
  induction l generalizing s with
  | nil =>
    cases hok
    rfl
  | cons nom rest ih =>
    obtain ⟨s1, hfirst, hrest⟩ := bind_eq_ok.mp hok
    rw [ih (fun nom' hnom' => hl nom' (.tail _ hnom')) hrest, foldl_cons]
    congr 1
    obtain ⟨⟨state, s2⟩, hfirst, hpure⟩ := bind_eq_ok.mp hfirst
    cases hpure
    unfold processEnvelope processEnvelopeWith at hfirst
    rw [hl nom (.head _), Bool.not_true, Bool.or_false] at hfirst
    rw [takeNewer, ← isNewer]
    split at hfirst
    · next hnewer =>
      cases hfirst
      rw [if_neg (by simpa using hnewer)]
    · next hnewer =>
      rw [if_pos (by simpa using hnewer)]
      split at hfirst
      · obtain ⟨s3, hpromote, hfirst⟩ := bind_eq_ok.mp hfirst
        cases hfirst
        exact (promote_latest (processSelf_leavesLatest hid fuel) hpromote).trans (AList.lookup_insert _)
      · cases hfirst
        exact AList.lookup_insert _

end

end NominationProtocol

def confirmsX : SCPStatement := ⟨7, .confirm ⟨⟨1, [1]⟩, 1, 1, 1, 1⟩⟩

def externalizesY : SCPStatement := ⟨7, .externalize ⟨⟨1, [2]⟩, 1, 1⟩⟩

def votesY (n : UInt32) : SCPStatement := ⟨7, .prepare ⟨1, ⟨n, [2]⟩, none, none, 0, 0⟩⟩

end Diamnet.Scp
