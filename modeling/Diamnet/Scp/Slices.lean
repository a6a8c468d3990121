import Diamnet.Federated.Choices
import Diamnet.Scp.Sanity

/-! Quorum slices.

A slice of a quorum set takes as many of its entries as the threshold says, and a slice of each
inner set taken. For quorum sets with sane levels the two nested counters of `LocalNode` decide
what they are for: `isQuorumSlice` whether a set contains a slice, `isVBlocking` whether it meets
every slice. -/
namespace Diamnet.Scp
open LocalNode Federated List

mutual
/-- The slices of a quorum set. -/
def slices : SCPQuorumSet → List (List NodeID)
  | ⟨threshold, validators, innerSets⟩ =>
    choices threshold.toNat (validators.map (fun v => [[v]]) ++ innerSlices innerSets)

def innerSlices : List SCPQuorumSet → List (List (List NodeID))
  | [] => []
  | inner :: rest => slices inner :: innerSlices rest
end

theorem innerSlices_eq (innerSets : List SCPQuorumSet) : innerSlices innerSets = innerSets.map slices := by
  induction innerSets with
  | nil => rfl
  | cons inner rest ih => rw [innerSlices, ih, map_cons]

theorem slices_eq (q : SCPQuorumSet) :
    slices q = choices q.threshold.toNat (q.validators.map (fun v => [[v]]) ++ q.innerSets.map slices) := by
  obtain ⟨threshold, validators, innerSets⟩ := q
  rw [slices, innerSlices_eq]

def ContainsSlice (q : SCPQuorumSet) (S : List NodeID) : Prop := ∃ slice ∈ slices q, ∀ n ∈ slice, n ∈ S

theorem within_singleton {U : NodeID → Prop} {v : NodeID} : Within U [[v]] ↔ U v := by
  simp [Within]

theorem within_slices_iff (U : NodeID → Prop) [DecidablePred U] (q : SCPQuorumSet) :
    Within U (slices q) ↔ q.threshold.toNat ≤
      q.validators.countP (fun v => decide (U v)) + q.innerSets.countP fun i => decide (Within U (slices i)) := by
  rw [slices_eq, exists_choice_iff, countP_append, countP_map, countP_map]
  simp only [Function.comp_def, within_singleton]

/-- **`isQuorumSlice` finds a slice in the set.** -/
theorem Levels.isQuorumSlice_iff {extraChecks : Bool} {depth : Nat} {q : SCPQuorumSet} (h : Levels extraChecks depth q)
    (S : List NodeID) : isQuorumSlice q S = true ↔ ContainsSlice q S := by
  induction h with
  | @mk depth q hnesting hpos hthreshold hmajority hinner ih =>
    have hlevels : Levels extraChecks depth q := ⟨hnesting, hpos, hthreshold, hmajority, hinner⟩
    rw [LocalNode.isQuorumSlice_iff, hlevels.due_eq, ContainsSlice]
    refine Iff.trans ?_ (within_slices_iff (· ∈ S) q).symm
    have hcount : q.innerSets.countP (isQuorumSlice · S) = q.innerSets.countP fun i => decide (Within (· ∈ S) (slices i)) := by
      refine countP_congr fun i hi => ?_
      rw [decide_eq_true_iff]
      exact ih i hi
    rw [entriesMet, hcount]

theorem countP_compl {α : Type} {p q : α → Bool} {l : List α} (h : ∀ a ∈ l, p a = true ↔ ¬q a = true) :
    l.countP p + l.countP q = l.length := by
  have hcongr : l.countP p = l.countP fun a => !q a := by
    refine countP_congr fun a ha => ?_
    rw [h a ha, Bool.not_eq_true']
    simp
  rw [hcongr, Nat.add_comm]
  exact (length_eq_countP_add_countP q).symm ▸ by simp

/-- **`isVBlocking` asks whether no slice avoids the set.** -/
theorem Levels.isVBlocking_iff {extraChecks : Bool} {depth : Nat} {q : SCPQuorumSet} (h : Levels extraChecks depth q)
    (S : List NodeID) : isVBlocking q S = true ↔ ¬Within (· ∉ S) (slices q) := by
  induction h with
  | @mk depth q hnesting hpos hthreshold hmajority hinner ih =>
    have hlevels : Levels extraChecks depth q := ⟨hnesting, hpos, hthreshold, hmajority, hinner⟩
    have hvalidators : q.validators.countP (fun v => decide (v ∈ S)) + q.validators.countP (fun v => decide (v ∉ S)) =
        q.validators.length := countP_compl fun v _ => by simp
    have hinnerSets : q.innerSets.countP (isVBlocking · S) +
        q.innerSets.countP (fun i => decide (Within (· ∉ S) (slices i))) = q.innerSets.length :=
      countP_compl fun i hi => by rw [decide_eq_true_iff]; exact ih i hi
    rw [LocalNode.isVBlocking_iff, within_slices_iff, entriesMet]
    constructor
    · rintro ⟨-, -, hblock⟩
      omega
    · intro hfew
      exact ⟨hlevels.threshold_ne_zero, by omega, by omega⟩

theorem mem_forAllNodes_of_slice {q : SCPQuorumSet} {slice : List NodeID} (hslice : slice ∈ slices q) {n : NodeID}
    (hn : n ∈ slice) : n ∈ forAllNodes q := by
  induction q using SCPQuorumSet.induction generalizing slice with
  | h q ih =>
    rw [slices_eq] at hslice
    obtain ⟨alternatives, hmem, a, ha, hna⟩ := mem_of_mem_choices hslice hn
    rw [forAllNodes_eq, mem_append, mem_flatMap]
    rcases mem_append.mp hmem with hmem | hmem
    · obtain ⟨v, hv, rfl⟩ := mem_map.mp hmem
      rw [mem_singleton.mp ha, mem_singleton] at hna
      exact .inl (hna ▸ hv)
    · obtain ⟨i, hi, rfl⟩ := mem_map.mp hmem
      exact .inr ⟨i, hi, ih i hi ha hna⟩

/-! ### Duality -/

theorem not_within_iff {S : List NodeID} {alternatives : List (List NodeID)} :
    ¬Within (· ∉ S) alternatives ↔ ∀ slice ∈ alternatives, ∃ n ∈ slice, n ∈ S := by
  simp [Within]

/-- **Blocking sets are those that meet every slice**, which are those whose complement contains
none. -/
theorem isVBlocking_dual (q : SCPQuorumSet) (extraChecks : Bool) (hsane : isQuorumSetSane q extraChecks = true)
    (S : List NodeID) :
    (isVBlocking q S = true ↔ ∀ slice ∈ slices q, ∃ n ∈ slice, n ∈ S) ∧
    (isVBlocking q S = true ↔ isQuorumSlice q ((forAllNodes q).filter (· ∉ S)) = false) ∧
    ∀ A, isQuorumSlice q A = true → (∀ n ∈ A, n ∉ S) → isVBlocking q S = false := by
  obtain ⟨hlevels, -⟩ := (isQuorumSetSane_iff q extraChecks).mp hsane
  have hblock := hlevels.isVBlocking_iff S
  refine ⟨hblock.trans not_within_iff, hblock.trans ?_, fun A hA hdisjoint => ?_⟩
  · rw [Bool.eq_false_iff, ne_eq, hlevels.isQuorumSlice_iff]
    refine not_congr ⟨fun ⟨slice, hslice, havoid⟩ => ⟨slice, hslice, fun n hn => ?_⟩,
      fun ⟨slice, hslice, hsub⟩ => ⟨slice, hslice, fun n hn => ?_⟩⟩
    · exact mem_filter.mpr ⟨mem_forAllNodes_of_slice hslice hn, by simpa using havoid n hn⟩
    · simpa using (mem_filter.mp (hsub n hn)).2
  · rw [Bool.eq_false_iff]
    exact fun hS => not_slice_of_blocking hdisjoint q hA hS

def twoAndInner : SCPQuorumSet := ⟨2, [1, 2], [⟨1, [3, 4], []⟩]⟩

theorem isVBlocking_dual_inner : isQuorumSetSane twoAndInner false = true ∧
    (isVBlocking twoAndInner [1, 3, 4] = true ↔ ∀ slice ∈ slices twoAndInner, ∃ n ∈ slice, n ∈ [1, 3, 4]) :=
  ⟨by decide +kernel, (isVBlocking_dual twoAndInner false (by decide +kernel) [1, 3, 4]).1⟩

/-! ### Quorums -/

abbrev SaneQuorumSet := { q : SCPQuorumSet // isQuorumSetSane q false = true }

section Quorum
variable {σ : Type} (map : Latest σ) (qfun : σ → Option SaneQuorumSet) (filter : σ → Bool)

/-- All nodes of the set have a statement that passes the filter and a known quorum set of which
the set contains a slice. -/
def IsQuorumSet (U : List NodeID) : Prop :=
  ∀ n ∈ U, ∃ st q, map.lookup n = some st ∧ filter st = true ∧ qfun st = some q ∧ ContainsSlice q.1 U

/-- One pass of the loop of `isQuorum` keeps these. -/
def keepsNode (nodes : List NodeID) (nodeID : NodeID) : Bool :=
  (map.lookup nodeID).any fun st => ((qfun st).map Subtype.val).any (isQuorumSlice · nodes)

/-- **`isQuorum` finds a quorum if there is one**, and its loop ends. -/
theorem isQuorum_correct (q : SaneQuorumSet) :
    (isQuorum q.1 map (fun st => (qfun st).map Subtype.val) filter = true ↔
      ∃ U, IsQuorumSet map qfun filter U ∧ ContainsSlice q.1 U) ∧
    ∃ k ≤ (filteredNodes map filter).length,
      (passes (keepsNode map qfun) (filteredNodes map filter) (k + 1)).length =
        (passes (keepsNode map qfun) (filteredNodes map filter) k).length ∧
      isQuorum q.1 map (fun st => (qfun st).map Subtype.val) filter =
        isQuorumSlice q.1 (passes (keepsNode map qfun) (filteredNodes map filter) (k + 1)) := by
  have hslice : ∀ (q : SaneQuorumSet) (U : List NodeID), isQuorumSlice q.1 U = true ↔ ContainsSlice q.1 U :=
    fun q U => ((isQuorumSetSane_iff q.1 false).mp q.2).1.isQuorumSlice_iff U
  constructor
  · rw [isQuorum_iff]
    refine exists_congr fun U => and_congr (forall₂_congr fun n _ => ?_) (hslice q U)
    constructor
    · rintro ⟨st, q', hst, hfilter, hq', hU⟩
      obtain ⟨known, hknown, rfl⟩ := Option.map_eq_some_iff.mp hq'
      exact ⟨st, known, hst, hfilter, hknown, (hslice known U).mp hU⟩
    · rintro ⟨st, known, hst, hfilter, hknown, hU⟩
      exact ⟨st, known.1, hst, hfilter, Option.map_eq_some_iff.mpr ⟨known, hknown, rfl⟩, (hslice known U).mpr hU⟩
  · obtain ⟨k, hk, -, hstop, heq⟩ := contract_passes (keepsNode map qfun) (filteredNodes map filter)
    refine ⟨k, hk, hstop, ?_⟩
    rw [← heq]
    rfl

end Quorum

end Diamnet.Scp
