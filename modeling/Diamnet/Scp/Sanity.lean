import Diamnet.Scp.QuorumSet
import Diamnet.Util.Outcome

/-! What `isQuorumSetSane` accepts.

The checker walks the quorum set once and carries the nodes seen and their number. A quorum
set is sane if every level of it is (`Levels`), if no node occurs twice and if it has between 1
and 1000 of them (`isQuorumSetSane_iff`). -/
namespace Diamnet.Scp
open LocalNode List

/-- Every level of a quorum set that starts at this depth has a threshold that its entries can
meet. -/
inductive Levels (extraChecks : Bool) : Nat → SCPQuorumSet → Prop where
  | mk {depth : Nat} {q : SCPQuorumSet} (nesting : depth ≤ maximumQuorumNestingLevel) (threshold_pos : 1 ≤ q.threshold)
      (threshold_le : q.threshold.toNat ≤ q.validators.length + q.innerSets.length)
      (majority : extraChecks = true → q.validators.length + q.innerSets.length - q.threshold.toNat + 1 ≤ q.threshold.toNat)
      (inner : ∀ i ∈ q.innerSets, Levels extraChecks (depth + 1) i) : Levels extraChecks depth q

namespace Levels
variable {extraChecks : Bool} {depth : Nat} {q : SCPQuorumSet}

theorem threshold_pos (h : Levels extraChecks depth q) : 1 ≤ q.threshold.toNat := by
  cases h with
  | mk _ hpos _ _ _ => exact UInt32.le_iff_toNat_le.mp hpos

theorem threshold_ne_zero (h : Levels extraChecks depth q) : q.threshold ≠ 0 := by
  intro h0
  have hpos := h.threshold_pos
  rw [h0] at hpos
  exact absurd hpos (by decide)

theorem threshold_le (h : Levels extraChecks depth q) :
    q.threshold.toNat ≤ q.validators.length + q.innerSets.length := by
  cases h with
  | mk _ _ hle _ _ => exact hle

theorem inner (h : Levels extraChecks depth q) : ∀ i ∈ q.innerSets, Levels extraChecks (depth + 1) i := by
  cases h with
  | mk _ _ _ _ hinner => exact hinner

theorem due_eq (h : Levels extraChecks depth q) : due q.threshold = q.threshold.toNat := if_neg h.threshold_ne_zero

theorem mono (h : Levels extraChecks depth q) {depth' : Nat} (hle : depth' ≤ depth) : Levels extraChecks depth' q := by
  induction h generalizing depth' with
  | mk hnesting hpos hthreshold hmajority _ ih =>
    exact ⟨hle.trans hnesting, hpos, hthreshold, hmajority, fun i hi => ih i hi (Nat.succ_le_succ hle)⟩

end Levels

theorem forAllInnerNodes_eq (innerSets : List SCPQuorumSet) :
    forAllInnerNodes innerSets = innerSets.flatMap forAllNodes := by
  induction innerSets with
  | nil => rfl
  | cons inner rest ih => rw [forAllInnerNodes, ih, flatMap_cons]

theorem forAllNodes_eq (q : SCPQuorumSet) : forAllNodes q = q.validators ++ q.innerSets.flatMap forAllNodes := by
  obtain ⟨threshold, validators, innerSets⟩ := q
  rw [forAllNodes, forAllInnerNodes_eq]

theorem length_forAllNodes (q : SCPQuorumSet) :
    (forAllNodes q).length = q.validators.length + (q.innerSets.map fun i => (forAllNodes i).length).sum := by
  rw [forAllNodes_eq, length_append, length_flatMap]

variable {q : SCPQuorumSet}

theorem length_forAllNodes_inner {i : SCPQuorumSet} (hi : i ∈ q.innerSets) :
    (forAllNodes i).length ≤ (forAllNodes q).length := by
  have hmem : (forAllNodes i).length ∈ q.innerSets.map fun i => (forAllNodes i).length := mem_map.mpr ⟨i, hi, rfl⟩
  rw [length_forAllNodes q]
  exact (single_le_sum (fun _ _ => Nat.zero_le _) _ hmem).trans (Nat.le_add_left _ _)

variable {extraChecks : Bool} {depth : Nat}

theorem Levels.entries_le (h : Levels extraChecks depth q) :
    q.validators.length + q.innerSets.length ≤ (forAllNodes q).length := by
  induction h with
  | @mk depth q _ hpos hthreshold _ hinner ih =>
    have hone : ∀ i ∈ q.innerSets, 1 ≤ (forAllNodes i).length := fun i hi =>
      ((hinner i hi).threshold_pos.trans (hinner i hi).threshold_le).trans (ih i hi)
    have hsum : q.innerSets.length ≤ (q.innerSets.map fun i => (forAllNodes i).length).sum := by
      refine le_trans (le_of_eq ?_) (sum_le_sum fun i hi => hone i hi)
      simp
    rw [length_forAllNodes]
    omega

/-! ### The checker -/

/-- The walk over a quorum set succeeds, and has seen these nodes. -/
def Walks (r : Except String (List NodeID × Nat)) (seen : List NodeID) (count : Nat) : Prop :=
  ∃ known, r = .ok (known, count) ∧ known.Perm seen

variable {known : List NodeID}

theorem checkSanityInner_walks {innerSets : List SCPQuorumSet}
    (ih : ∀ i ∈ innerSets, ∀ known count, (forAllNodes i ++ known).Nodup → Walks (checkSanity extraChecks depth known count i) (forAllNodes i ++ known) (count + (forAllNodes i).length))
    (count : Nat) (hnodup : (innerSets.flatMap forAllNodes ++ known).Nodup) :
    Walks (checkSanityInner extraChecks depth known count innerSets) (innerSets.flatMap forAllNodes ++ known)
      (count + (innerSets.flatMap forAllNodes).length) := by
  induction innerSets generalizing known count with
  | nil => exact ⟨known, rfl, .refl _⟩
  | cons inner rest ihrest =>
    rw [flatMap_cons, append_assoc] at hnodup
    have hperm : (forAllNodes inner ++ (rest.flatMap forAllNodes ++ known)).Perm
        (rest.flatMap forAllNodes ++ (forAllNodes inner ++ known)) := by
      rw [← append_assoc, ← append_assoc]
      exact perm_append_comm.append_right known
    have hrest := hperm.nodup_iff.mp hnodup
    obtain ⟨known₁, hrun, hperm₁⟩ := ih inner (.head _) known count (nodup_append.mp hrest).2.1
    have hnodup₁ := (hperm₁.append_left (rest.flatMap forAllNodes)).nodup_iff.mpr hrest
    obtain ⟨known₂, hrun₂, hperm₂⟩ := ihrest (fun i hi => ih i (.tail _ hi)) _ hnodup₁
    refine ⟨known₂, ?_, ?_⟩
    · rw [checkSanityInner, hrun]
      refine hrun₂.trans ?_
      rw [flatMap_cons, length_append, Nat.add_assoc]
    · rw [flatMap_cons, append_assoc]
      exact (hperm₂.trans (hperm₁.append_left _)).trans hperm.symm

theorem Levels.checkSanity {extraChecks : Bool} {depth : Nat} {q : SCPQuorumSet} (h : Levels extraChecks depth q)
    {known : List NodeID} (count : Nat) (hnodup : (forAllNodes q ++ known).Nodup) :
    Walks (checkSanity extraChecks depth known count q) (forAllNodes q ++ known) (count + (forAllNodes q).length) := by
  induction h generalizing known count with
  | @mk depth q hnesting hpos hthreshold hmajority _ ih =>
    obtain ⟨threshold, validators, innerSets⟩ := q
    rw [forAllNodes_eq] at hnodup ⊢
    have hperm : (validators ++ innerSets.flatMap forAllNodes ++ known).Perm
        (innerSets.flatMap forAllNodes ++ (validators ++ known)) := by
      rw [← append_assoc]
      exact perm_append_comm.append_right known
    have hnodup' := hperm.nodup_iff.mp hnodup
    have hmajor : ¬(extraChecks && decide (threshold.toNat < validators.length + innerSets.length - threshold.toNat + 1)) =
        true := by
      simp only [Bool.and_eq_true, decide_eq_true_eq, not_and, not_lt]
      exact hmajority
    obtain ⟨known', hrun, hknown⟩ := checkSanityInner_walks (fun i hi known count => ih i hi count)
      (count + validators.length) hnodup'
    refine ⟨known', ?_, hknown.trans hperm.symm⟩
    rw [Scp.checkSanity, if_neg (not_lt.mpr hnesting), if_neg (not_lt.mpr hpos)]
    rw [if_neg (not_lt.mpr hthreshold), if_neg hmajor, if_pos (nodup_append.mp hnodup').2.1, hrun,
      length_append, Nat.add_assoc]

theorem levels_of_checkSanityInner {innerSets : List SCPQuorumSet}
    (ih : ∀ i ∈ innerSets, ∀ known count r, checkSanity extraChecks depth known count i = .ok r → known.Nodup → Levels extraChecks depth i ∧ (forAllNodes i ++ known).Nodup)
    {count : Nat} {r : List NodeID × Nat} (hknown : known.Nodup)
    (h : checkSanityInner extraChecks depth known count innerSets = .ok r) :
    (∀ i ∈ innerSets, Levels extraChecks depth i) ∧ (innerSets.flatMap forAllNodes ++ known).Nodup := by
  induction innerSets generalizing known count with
  | nil => exact ⟨fun i hi => (not_mem_nil hi).elim, hknown⟩
  | cons inner rest ihrest =>
    rw [checkSanityInner] at h
    cases hrun : checkSanity extraChecks depth known count inner with
    | error e =>
      rw [hrun] at h
      cases h
    | ok s =>
      obtain ⟨hlevels, hnodup⟩ := ih inner (.head _) known count s hrun hknown
      obtain ⟨known₁, hrun₁, hperm₁⟩ := hlevels.checkSanity count hnodup
      cases hrun.symm.trans hrun₁
      rw [hrun] at h
      obtain ⟨hrest, hnodup₁⟩ := ihrest (fun i hi => ih i (.tail _ hi)) (hperm₁.nodup_iff.mpr hnodup) h
      refine ⟨fun i hi => ?_, ?_⟩
      · rcases mem_cons.mp hi with rfl | hi
        · exact hlevels
        · exact hrest i hi
      · have hnodup₂ := (hperm₁.append_left (rest.flatMap forAllNodes)).nodup_iff.mp hnodup₁
        rw [flatMap_cons, append_assoc]
        refine Perm.nodup_iff ?_ |>.mp hnodup₂
        rw [← append_assoc, ← append_assoc]
        exact perm_append_comm.append_right known

theorem levels_of_checkSanity {count : Nat} {r : List NodeID × Nat}
    (h : checkSanity extraChecks depth known count q = .ok r) (hknown : known.Nodup) :
    Levels extraChecks depth q ∧ (forAllNodes q ++ known).Nodup := by
  induction q using SCPQuorumSet.induction generalizing depth known count r with
  | h q ih =>
    obtain ⟨threshold, validators, innerSets⟩ := q
    obtain ⟨hnesting, h⟩ := refuse_eq_ok.mp h
    obtain ⟨hpos, h⟩ := refuse_eq_ok.mp h
    obtain ⟨hthreshold, h⟩ := refuse_eq_ok.mp h
    obtain ⟨hmajor, h⟩ := refuse_eq_ok.mp h
    split at h
    · next hnodup =>
      obtain ⟨hinner, hall⟩ := levels_of_checkSanityInner (fun i hi known count r hr hk => ih i hi hr hk) hnodup h
      simp only [Bool.and_eq_true, decide_eq_true_eq, not_and, not_lt] at hmajor
      refine ⟨⟨not_lt.mp hnesting, not_lt.mp hpos, not_lt.mp hthreshold, hmajor, hinner⟩, ?_⟩
      rw [forAllNodes_eq]
      refine Perm.nodup_iff ?_ |>.mp hall
      rw [← append_assoc]
      exact perm_append_comm.append_right known
    · cases h

/-- **What a sane quorum set is.** -/
theorem isQuorumSetSane_iff (q : SCPQuorumSet) (extraChecks : Bool) :
    isQuorumSetSane q extraChecks = true ↔
      Levels extraChecks 0 q ∧ (forAllNodes q).Nodup ∧ 1 ≤ (forAllNodes q).length ∧ (forAllNodes q).length ≤ 1000 := by
  have hrange : ∀ n : Nat, (decide (n < 1) || decide (n > 1000)) = true ↔ ¬(1 ≤ n ∧ n ≤ 1000) := by
    intro n
    simp only [Bool.or_eq_true, decide_eq_true_eq]
    omega
  constructor
  · intro h
    unfold isQuorumSetSane checkQuorumSet at h
    cases hrun : checkSanity extraChecks 0 [] 0 q with
    | error e =>
      rw [hrun] at h
      cases h
    | ok r =>
      obtain ⟨hlevels, hnodup⟩ := levels_of_checkSanity hrun nodup_nil
      obtain ⟨known, hrun', -⟩ := hlevels.checkSanity 0 hnodup
      cases hrun.symm.trans hrun'
      rw [append_nil] at hnodup
      refine ⟨hlevels, hnodup, ?_⟩
      by_contra hcount
      rw [hrun, ok_bind] at h
      dsimp only at h
      rw [Nat.zero_add, if_pos ((hrange _).mpr hcount)] at h
      cases h
  · rintro ⟨hlevels, hnodup, hcount⟩
    obtain ⟨known, hrun, -⟩ := @Levels.checkSanity _ _ _ hlevels [] 0 (by rwa [append_nil])
    unfold isQuorumSetSane checkQuorumSet
    rw [hrun, ok_bind]
    dsimp only
    rw [Nat.zero_add, if_neg (mt (hrange _).mp (not_not.mpr hcount))]
    rfl

end Diamnet.Scp
