import Diamnet.Scp.Nomination
import Diamnet.Scp.NodeRemoval
import Diamnet.Scp.Slices

/-! The search for round leaders (`NominationProtocol::updateRoundLeaders`).

The search goes on until there is one leader for the local node and one for each node of its quorum
set without it, or until a round adds a leader. A round adds nodes of highest priority, and a
node without weight has none. Taking the local node out of a quorum set lowers the threshold, and
a threshold of zero leaves the other nodes of its level without weight: then there are never
enough leaders. `updateRoundLeaders_ends_iff` says when the search ends. -/
namespace Diamnet.Scp
open LocalNode List OrderedSet

/-! ### Weights -/

/-- No threshold is above the number of entries. -/
inductive Bounded : SCPQuorumSet → Prop where
  | mk {q : SCPQuorumSet} (threshold_le : q.threshold.toNat ≤ q.validators.length + q.innerSets.length)
      (inner : ∀ i ∈ q.innerSets, Bounded i) : Bounded q

theorem getInnerWeight_isSome {nodeID : NodeID} {d n : Nat} (hle : n ≤ d) {innerSets : List SCPQuorumSet}
    (h : ∀ i ∈ innerSets, (getNodeWeight nodeID i).isSome = true) : (getInnerWeight nodeID d n innerSets).isSome = true := by
  induction innerSets with
  | nil => rfl
  | cons i rest ih =>
    obtain ⟨w, hw⟩ := Option.isSome_iff_exists.mp (h i (.head _))
    rw [getInnerWeight, hw]
    show (if w ≠ 0 then computeWeight w d n else getInnerWeight nodeID d n rest).isSome = true
    split
    · rw [computeWeight, if_pos hle]
      rfl
    · exact ih fun j hj => h j (.tail _ hj)

variable {q : SCPQuorumSet}

theorem Bounded.getNodeWeight_isSome (h : Bounded q) (nodeID : NodeID) : (getNodeWeight nodeID q).isSome = true := by
  induction h with
  | @mk q hle _ ih =>
    obtain ⟨threshold, validators, innerSets⟩ := q
    dsimp only at hle ih
    have hle : threshold.toNat ≤ innerSets.length + validators.length := by omega
    rw [getNodeWeight]
    split
    · rw [computeWeight, if_pos hle]
      rfl
    · exact getInnerWeight_isSome hle ih

theorem Bounded.level {threshold : UInt32} {validators : List NodeID} {innerSets : List SCPQuorumSet}
    (hle : threshold.toNat ≤ validators.length + innerSets.length) (hinner : ∀ i ∈ innerSets, Bounded i) :
    Bounded (level threshold validators innerSets) := by
  cases innerSets with
  | nil => exact ⟨hle, hinner⟩
  | cons i rest =>
    cases rest with
    | cons j rest => exact ⟨hle, hinner⟩
    | nil =>
      rw [Scp.level]
      split
      · exact hinner i (mem_singleton_self i)
      · exact ⟨hle, hinner⟩

theorem length_kept (hnodup : q.validators.Nodup) (id : NodeID) :
    q.validators.length - (kept (some id) q).length ≤ 1 ∧ (kept (some id) q).length ≤ q.validators.length := by
  have hsplit : q.validators.count id + (kept (some id) q).length = q.validators.length := by
    rw [← countP_eq_length_filter, count]
    exact countP_compl fun v _ => by simp
  have hone := nodup_iff_count_le_one.mp hnodup id
  omega

theorem Levels.bounded_simplify {extraChecks : Bool} {depth : Nat} (h : Levels extraChecks depth q)
    (hnodup : (forAllNodes q).Nodup) (id : NodeID) : Bounded (normalizeQSetSimplify (some id) q) := by
  induction h with
  | @mk depth q hnesting hpos hthreshold hmajority hinner ih =>
    have hlevels : Levels extraChecks depth q := ⟨hnesting, hpos, hthreshold, hmajority, hinner⟩
    rw [forAllNodes_eq, nodup_append] at hnodup
    obtain ⟨hone, hle⟩ := length_kept hnodup.1 id
    have hinnerNodup : ∀ i ∈ q.innerSets, (forAllNodes i).Nodup := (nodup_flatMap.mp hnodup.2.1).1
    have hentries := length_merged_nested (q.innerSets.map (normalizeQSetSimplify (some id)))
    rw [length_map] at hentries
    have hpos := hlevels.threshold_pos
    rw [normalizeQSetSimplify_eq]
    refine Bounded.level ?_ fun i hi => ?_
    · set removed := q.validators.length - (kept (some id) q).length with hremoved
      have hof : (UInt32.ofNat removed).toNat = removed := UInt32.toNat_ofNat_of_lt' (lt_of_le_of_lt hone (by decide))
      rw [UInt32.toNat_sub_of_le _ _ (by rw [UInt32.le_iff_toNat_le, hof]; omega), hof, length_append]
      omega
    · obtain ⟨i', hi', rfl⟩ := mem_map.mp (mem_filter.mp hi).1
      exact ih i' hi' (hinnerNodup i' hi')

theorem Bounded.reorder (h : Bounded q) : Bounded (normalizeQuorumSetReorder q) := by
  induction h with
  | @mk q hle _ ih =>
    rw [normalizeQuorumSetReorder_eq]
    refine ⟨?_, fun i hi => ?_⟩
    · rw [(perm_insertionSort _ _).length_eq, (inOrder_perm _).length_eq, length_map]
      exact hle
    · obtain ⟨i', hi', rfl⟩ := mem_map.mp ((inOrder_perm _).mem_iff.mp hi)
      exact ih i' hi'

theorem forAllNodes_reorder (q : SCPQuorumSet) : (forAllNodes (normalizeQuorumSetReorder q)).Perm (forAllNodes q) := by
  induction q using SCPQuorumSet.induction with
  | h q ih =>
    rw [normalizeQuorumSetReorder_eq, forAllNodes_eq, forAllNodes_eq q]
    refine (perm_insertionSort _ _).append (((inOrder_perm _).flatMap_right _).trans ?_)
    rw [flatMap_map]
    exact Perm.flatMap_left _ ih

theorem normalizeQSet_some (hsane : isQuorumSetSane q false = true) (id : NodeID) :
    Bounded (normalizeQSet q (some id)) ∧ id ∉ forAllNodes (normalizeQSet q (some id)) := by
  obtain ⟨hlevels, hnodup, -⟩ := (isQuorumSetSane_iff q false).mp hsane
  refine ⟨(hlevels.bounded_simplify hnodup id).reorder, fun h => ?_⟩
  exact (mem_forAllNodes_of_simplify ((forAllNodes_reorder _).mem_iff.mp h)).2 rfl

/-! ### One round -/

namespace NominationProtocol
variable (scp : SCP) (previousValue : Value) (qset : SCPQuorumSet)

def weightOf (v : NodeID) : Nat := if v = scp.localNode.mNodeID then 2 ^ 64 - 1 else (getNodeWeight v qset).getD 0

def priorityAt (round : Int) (v : NodeID) : UInt64 :=
  if 0 < weightOf scp qset v ∧ (scp.driver.computeHashNode previousValue false round v).toNat ≤ weightOf scp qset v then
    scp.driver.computeHashNode previousValue true round v
  else 0

variable {scp previousValue qset} {s : NominationProtocol}

theorem getNodePriority_eq (hprev : s.mPreviousValue ≠ []) (hbounded : Bounded qset) (v : NodeID) :
    getNodePriority scp s v qset = .ok (priorityAt scp s.mPreviousValue qset s.mRoundNumber v) := by
  have hweight : priorityWeight scp v qset = .ok (weightOf scp qset v) := by
    obtain ⟨w, hw⟩ := Option.isSome_iff_exists.mp (hbounded.getNodeWeight_isSome v)
    unfold priorityWeight weightOf
    split
    · rfl
    · rw [hw]
      rfl
  unfold getNodePriority priorityAt
  rw [hweight, ok_bind]
  unfold hashNode
  by_cases hpos : 0 < weightOf scp qset v
  · rw [if_pos hpos, if_neg hprev, if_neg hprev]
    show (if _ then _ else _) = _
    by_cases hle : (scp.driver.computeHashNode s.mPreviousValue false s.mRoundNumber v).toNat ≤ weightOf scp qset v
    · rw [if_pos hle, if_pos ⟨hpos, hle⟩]
      rfl
    · rw [if_neg hle, if_neg fun h => hle h.2]
      rfl
  · rw [if_neg hpos, if_neg fun h => hpos h.1]
    rfl

/-- What the search through the nodes knows after some of them: the highest priority so far, and
who has it. -/
structure Searched (priority : NodeID → UInt64) (localID : NodeID) (visited : List NodeID)
    (top : UInt64 × OrderedSet NodeID) : Prop where
  visited_le : ∀ u ∈ visited, priority u ≤ top.1
  local_le : priority localID ≤ top.1
  nonempty : ∃ u, u ∈ top.2
  leaders : ∀ u, u ∈ top.2 ↔ (u ∈ visited ∧ priority u = top.1 ∧ 0 < priority u) ∨ (u = localID ∧ priority localID = top.1)

variable {priority : NodeID → UInt64} {localID : NodeID} {visited : List NodeID} {top : UInt64 × OrderedSet NodeID}

theorem Searched.visit (h : Searched priority localID visited top) (cur : NodeID) :
    Searched priority localID (visited ++ [cur])
      (let next := if priority cur > top.1 then (priority cur, (∅ : OrderedSet NodeID)) else top
       (next.1, if priority cur = next.1 ∧ priority cur > 0 then next.2.insert cur else next.2)) := by
  by_cases hgt : priority cur > top.1
  · have hpos : 0 < priority cur := lt_of_le_of_lt (UInt64.le_iff_toNat_le.mpr (Nat.zero_le _)) hgt
    dsimp only
    rw [if_pos hgt, if_pos ⟨rfl, hpos⟩]
    refine ⟨fun u hu => ?_, h.local_le.trans hgt.le, ⟨cur, mem_insert.mpr (.inl rfl)⟩, fun u => ?_⟩
    · rcases mem_append.mp hu with hu | hu
      · exact (h.visited_le u hu).trans hgt.le
      · rw [mem_singleton.mp hu]
    · simp only [mem_insert, not_mem_empty, or_false, mem_append, mem_singleton]
      constructor
      · rintro rfl
        exact .inl ⟨.inr rfl, rfl, hpos⟩
      · rintro (⟨hu | rfl, heq, -⟩ | ⟨-, heq⟩)
        · exact absurd (h.visited_le u hu) (not_le.mpr (heq ▸ hgt))
        · rfl
        · exact absurd h.local_le (not_le.mpr (heq ▸ hgt))
  · dsimp only
    rw [if_neg hgt]
    refine ⟨fun u hu => ?_, h.local_le, ?_, fun u => ?_⟩
    · rcases mem_append.mp hu with hu | hu
      · exact h.visited_le u hu
      · rw [mem_singleton.mp hu]
        exact not_lt.mp hgt
    · obtain ⟨u, hu⟩ := h.nonempty
      split
      · exact ⟨u, mem_insert.mpr (.inr hu)⟩
      · exact ⟨u, hu⟩
    · by_cases hcur : priority cur = top.1 ∧ priority cur > 0
      · rw [if_pos hcur]
        simp only [mem_insert, h.leaders u, mem_append, mem_singleton]
        constructor
        · rintro (rfl | h | h)
          · exact .inl ⟨.inr rfl, hcur⟩
          · exact .inl ⟨.inl h.1, h.2⟩
          · exact .inr h
        · rintro (⟨hu | rfl, h⟩ | h)
          · exact .inr (.inl ⟨hu, h⟩)
          · exact .inl rfl
          · exact .inr (.inr h)
      · rw [if_neg hcur]
        simp only [h.leaders u, mem_append, mem_singleton]
        constructor
        · rintro (h | h)
          · exact .inl ⟨.inl h.1, h.2⟩
          · exact .inr h
        · rintro (⟨hu | rfl, h⟩ | h)
          · exact .inl ⟨hu, h⟩
          · exact absurd h hcur
          · exact .inr h

theorem Searched.priority_eq (h : Searched priority localID visited top) {u : NodeID} (hu : u ∈ top.2) :
    priority u = top.1 := by
  rcases (h.leaders u).mp hu with hu | ⟨rfl, hu⟩
  · exact hu.2.1
  · exact hu

theorem Searched.mem_of_highest {v : NodeID} (h : Searched priority localID visited top) (hv : v ∈ visited)
    (hlocal : priority localID < priority v) (hother : ∀ u ∈ visited, u ≠ v → priority u < priority v) :
    v ∈ top.2 := by
  obtain ⟨u, hu⟩ := h.nonempty
  have hle : priority v ≤ priority u := h.priority_eq hu ▸ h.visited_le v hv
  rcases (h.leaders u).mp hu with ⟨hmem, -⟩ | ⟨rfl, -⟩
  · by_cases huv : u = v
    · exact huv ▸ hu
    · exact absurd (hother u hmem huv) (not_lt.mpr hle)
  · exact absurd hlocal (not_lt.mpr hle)

theorem Searched.local_mem (h : Searched priority localID visited top)
    (hle : ∀ u ∈ visited, priority u ≤ priority localID) : localID ∈ top.2 := by
  obtain ⟨u, hu⟩ := h.nonempty
  refine (h.leaders localID).mpr (.inr ⟨rfl, le_antisymm h.local_le ?_⟩)
  rw [← h.priority_eq hu]
  rcases (h.leaders u).mp hu with ⟨hmem, -⟩ | ⟨rfl, -⟩
  · exact hle u hmem
  · exact le_rfl

/-- **The leaders of a round**: the nodes of highest priority, if they have any, and the local node
if no other is before it. -/
theorem newRoundLeaders_eq (scp : SCP) (s : NominationProtocol) (hprev : s.mPreviousValue ≠ []) (hbounded : Bounded qset) :
    ∃ leaders, newRoundLeaders scp s qset = .ok leaders ∧ ∃ top,
      Searched (priorityAt scp s.mPreviousValue qset s.mRoundNumber) scp.localNode.mNodeID (forAllNodes qset) (top, leaders) := by
  set priority := priorityAt scp s.mPreviousValue qset s.mRoundNumber
  have hvisit : ∀ nodes visited top, Searched priority scp.localNode.mNodeID visited top →
      ∃ top', nodes.foldlM (visitLeader scp s qset) top = .ok top' ∧
        Searched priority scp.localNode.mNodeID (visited ++ nodes) top' := by
    intro nodes
    induction nodes with
    | nil => exact fun visited top h => ⟨top, rfl, by rwa [append_nil]⟩
    | cons cur rest ih =>
      intro visited top h
      obtain ⟨top', hrun, hsearched⟩ := ih _ _ (h.visit cur)
      refine ⟨top', ?_, by rwa [append_assoc] at hsearched⟩
      rw [foldlM_cons, visitLeader, getNodePriority_eq hprev hbounded]
      exact hrun
  have hfirst : Searched priority scp.localNode.mNodeID []
      (priority scp.localNode.mNodeID, (∅ : OrderedSet NodeID).insert scp.localNode.mNodeID) :=
    ⟨fun u hu => (not_mem_nil hu).elim, le_rfl, ⟨scp.localNode.mNodeID, by simp⟩, fun u => by simp⟩
  obtain ⟨⟨top, leaders⟩, hrun, hsearched⟩ := hvisit (forAllNodes qset) [] _ hfirst
  refine ⟨leaders, ?_, top, hsearched⟩
  rw [newRoundLeaders, getNodePriority_eq hprev hbounded, ok_bind, hrun]
  rfl

/-! ### The search -/

theorem mem_foldl_insert {u : NodeID} (leaders : List NodeID) (set : OrderedSet NodeID) :
    u ∈ leaders.foldl (fun set node => set.insert node) set ↔ u ∈ leaders ∨ u ∈ set := by
  induction leaders generalizing set with
  | nil => simp
  | cons l rest ih =>
    rw [foldl_cons, ih, mem_insert, mem_cons]
    tauto

theorem expands_iff (leaders set : OrderedSet NodeID) :
    (leaders.elems.foldl (fun set node => set.insert node) set).elems.length ≠ set.elems.length ↔
      ∃ u, u ∈ leaders ∧ u ∉ set := by
  have hsub : set ⊆ leaders.elems.foldl (fun set node => set.insert node) set :=
    fun u hu => (mem_foldl_insert _ _).mpr (.inr hu)
  constructor
  · intro hne
    by_contra hall
    push Not at hall
    have heq : set = leaders.elems.foldl (fun set node => set.insert node) set := by
      refine Subset.antisymm hsub fun u hu => ?_
      exact ((mem_foldl_insert _ _).mp hu).elim (hall u) id
    exact hne (heq ▸ rfl)
  · intro ⟨u, hu, hnot⟩ hlen
    have heq := eq_of_length hsub hlen.symm
    exact hnot (heq ▸ (mem_foldl_insert _ _).mpr (.inl hu))

variable (scp qset) in
def Adds (s : NominationProtocol) : Prop :=
  ∃ leaders, newRoundLeaders scp s qset = .ok leaders ∧ ∃ u, u ∈ leaders ∧ u ∉ s.mRoundLeaders

def later (s : NominationProtocol) (n : Nat) : NominationProtocol := { s with mRoundNumber := s.mRoundNumber + n }

theorem later_zero (s : NominationProtocol) : s.later 0 = s := by
  cases s
  simp [later]

theorem later_succ (s : NominationProtocol) (n : Nat) : (s.later 1).later n = s.later (n + 1) := by
  simp only [later, NominationProtocol.mk.injEq, and_true]
  push_cast
  ring

theorem searchLeaders_succ (hprev : s.mPreviousValue ≠ []) (hbounded : Bounded qset) {maxLeaderCount : Nat}
    (hlt : s.mRoundLeaders.elems.length < maxLeaderCount) (fuel : Nat) :
    (Adds scp qset s ∧ ∃ s', searchLeaders scp qset maxLeaderCount (fuel + 1) s = .ok s') ∨
      (¬Adds scp qset s ∧ searchLeaders scp qset maxLeaderCount (fuel + 1) s =
        searchLeaders scp qset maxLeaderCount fuel (s.later 1)) := by
  obtain ⟨leaders, hleaders, -⟩ := newRoundLeaders_eq scp s hprev hbounded
  rw [searchLeaders, if_pos hlt, hleaders, ok_bind]
  by_cases hadds : ∃ u, u ∈ leaders ∧ u ∉ s.mRoundLeaders
  · rw [if_pos ((expands_iff _ _).mpr hadds)]
    exact .inl ⟨⟨leaders, hleaders, hadds⟩, _, rfl⟩
  · rw [if_neg fun h => hadds ((expands_iff _ _).mp h)]
    refine .inr ⟨fun hadds' => ?_, rfl⟩
    obtain ⟨l, hl, h⟩ := hadds'
    rw [hleaders, Except.ok.injEq] at hl
    exact hadds (hl ▸ h)

/-- **When the search ends**: there are enough leaders, or some round from here on adds one. -/
theorem searchLeaders_ends_iff (hprev : s.mPreviousValue ≠ []) (hbounded : Bounded qset) (maxLeaderCount : Nat) :
    (∃ fuel s', searchLeaders scp qset maxLeaderCount fuel s = .ok s') ↔
      maxLeaderCount ≤ s.mRoundLeaders.elems.length ∨ ∃ n, Adds scp qset (s.later n) := by
  rcases Nat.lt_or_ge s.mRoundLeaders.elems.length maxLeaderCount with hlt | hge
  · rw [or_iff_right (by omega)]
    constructor
    · intro ⟨fuel, s', h⟩
      induction fuel generalizing s with
      | zero => cases h
      | succ fuel ih =>
        rcases searchLeaders_succ hprev hbounded hlt fuel with ⟨hadds, -⟩ | ⟨-, hstep⟩
        · exact ⟨0, by rwa [later_zero]⟩
        · obtain ⟨n, hn⟩ := ih (s := s.later 1) hprev hlt (hstep ▸ h)
          exact ⟨n + 1, later_succ s n ▸ hn⟩
    · intro ⟨n, hadds⟩
      refine ⟨n + 1, ?_⟩
      induction n generalizing s with
      | zero =>
        rcases searchLeaders_succ hprev hbounded hlt 0 with ⟨-, hends⟩ | ⟨hnot, -⟩
        · exact hends
        · exact absurd (later_zero s ▸ hadds) hnot
      | succ n ih =>
        rcases searchLeaders_succ hprev hbounded hlt (n + 1) with ⟨-, hends⟩ | ⟨-, hstep⟩
        · exact hends
        · rw [hstep]
          exact ih (s := s.later 1) hprev hlt (later_succ s n ▸ hadds)
  · refine iff_of_true ⟨1, s, ?_⟩ (.inl hge)
    rw [searchLeaders, if_neg (by omega)]
    rfl

variable (scp previousValue qset) in
/-- A node has, in a round, the strictly highest priority. -/
def Highest (round : Int) (v : NodeID) : Prop :=
  ∀ u ∈ scp.localNode.mNodeID :: forAllNodes qset, u ≠ v →
    priorityAt scp previousValue qset round u < priorityAt scp previousValue qset round v

variable (scp previousValue qset) in
/-- Each node with a weight has, in infinitely many rounds, the strictly highest priority. -/
def OftenHighest : Prop :=
  ∀ v ∈ forAllNodes qset, getNodeWeight v qset ≠ some 0 →
    ∀ round, ∃ round' ≥ round, Highest scp previousValue qset round' v

theorem weight_ne_zero {round : Int} {v : NodeID} (hv : v ≠ scp.localNode.mNodeID)
    (hpos : 0 < priorityAt scp previousValue qset round v) : getNodeWeight v qset ≠ some 0 := by
  intro hzero
  have hweight : weightOf scp qset v = 0 := by
    rw [weightOf, if_neg hv, hzero]
    rfl
  rw [priorityAt, hweight, if_neg fun h => absurd h.1 (lt_irrefl 0)] at hpos
  exact lt_irrefl _ hpos

theorem exists_adds_iff (hprev : s.mPreviousValue ≠ []) (hbounded : Bounded qset)
    (hlocal : scp.localNode.mNodeID ∉ forAllNodes qset) (hoften : OftenHighest scp s.mPreviousValue qset) :
    (∃ n, Adds scp qset (s.later n)) ↔
      (∃ v ∈ forAllNodes qset, getNodeWeight v qset ≠ some 0 ∧ v ∉ s.mRoundLeaders) ∨
      (scp.localNode.mNodeID ∉ s.mRoundLeaders ∧ ∃ round ≥ s.mRoundNumber, ∀ u ∈ forAllNodes qset,
        priorityAt scp s.mPreviousValue qset round u ≤ priorityAt scp s.mPreviousValue qset round scp.localNode.mNodeID) := by
  constructor
  · intro ⟨n, leaders, hleaders, u, hu, hnot⟩
    obtain ⟨leaders', hleaders', top, hsearched⟩ := newRoundLeaders_eq scp (s.later n) hprev hbounded
    rw [hleaders, Except.ok.injEq] at hleaders'
    subst hleaders'
    rcases (hsearched.leaders u).mp hu with ⟨hmem, -, hpos⟩ | ⟨rfl, htop⟩
    · exact .inl ⟨u, hmem, weight_ne_zero (fun h => hlocal (h ▸ hmem)) hpos, hnot⟩
    · exact .inr ⟨hnot, s.mRoundNumber + n, by omega, fun v hv => htop ▸ hsearched.visited_le v hv⟩
  · -- the round `round` is `n` rounds from here
    have hround (round : Int) (hge : round ≥ s.mRoundNumber) :
        ∃ n, (s.later n).mRoundNumber = round := by
      refine ⟨(round - s.mRoundNumber).toNat, ?_⟩
      show s.mRoundNumber + ((round - s.mRoundNumber).toNat : Int) = round
      omega
    rintro (⟨v, hv, hweight, hnot⟩ | ⟨hnot, round, hge, hle⟩)
    · obtain ⟨round, hge, hhighest⟩ := hoften v hv hweight s.mRoundNumber
      obtain ⟨n, rfl⟩ := hround round hge
      obtain ⟨leaders, hleaders, top, hsearched⟩ := newRoundLeaders_eq scp (s.later n) hprev hbounded
      refine ⟨n, leaders, hleaders, v, hsearched.mem_of_highest hv ?_ fun u hu hne => ?_, hnot⟩
      · exact hhighest _ (.head _) fun h => hlocal (h ▸ hv)
      · exact hhighest u (.tail _ hu) hne
    · obtain ⟨n, rfl⟩ := hround round hge
      obtain ⟨leaders, hleaders, top, hsearched⟩ := newRoundLeaders_eq scp (s.later n) hprev hbounded
      exact ⟨n, leaders, hleaders, _, hsearched.local_mem hle, hnot⟩

/-- **When the search for leaders ends.** -/
theorem updateRoundLeaders_ends_iff (scp : SCP) (s : NominationProtocol)
    (hsane : isQuorumSetSane scp.localNode.mQSet false = true) (hprev : s.mPreviousValue ≠ [])
    (hoften : OftenHighest scp s.mPreviousValue (normalizeQSet scp.localNode.mQSet (some scp.localNode.mNodeID))) :
    let qset := normalizeQSet scp.localNode.mQSet (some scp.localNode.mNodeID)
    (∃ fuel s', updateRoundLeaders scp fuel s = .ok s') ↔
      1 + (forAllNodes qset).length ≤ s.mRoundLeaders.elems.length ∨
      (∃ v ∈ forAllNodes qset, getNodeWeight v qset ≠ some 0 ∧ v ∉ s.mRoundLeaders) ∨
      (scp.localNode.mNodeID ∉ s.mRoundLeaders ∧ ∃ round ≥ s.mRoundNumber, ∀ u ∈ forAllNodes qset,
        priorityAt scp s.mPreviousValue qset round u ≤
          priorityAt scp s.mPreviousValue qset round scp.localNode.mNodeID) := by
  obtain ⟨hbounded, hlocal⟩ := normalizeQSet_some hsane scp.localNode.mNodeID
  show (∃ fuel s', searchLeaders scp _ _ fuel s = .ok s') ↔ _
  rw [searchLeaders_ends_iff hprev hbounded, exists_adds_iff hprev hbounded hlocal hoften]

/-- A node with its quorum set; every node's hash is one more than its number. -/
def rankedNode (qset : SCPQuorumSet) : SCP where
  localNode := ⟨0, true, qset, 1⟩
  driver := { bothOfTwo.driver with computeHashNode := fun _ _ _ nodeID => nodeID.toUInt64 + 1 }

/-- A slot whose only leader so far is node 0, on its second timeout. -/
def ledByZero : NominationProtocol := {
  mRoundNumber := 2
  mRoundLeaders := (∅ : OrderedSet NodeID).insert 0
  mPreviousValue := [1]
  mFullyValidated := true }

/-- In the set {0, 7} with threshold two node 7 is always above node 0, and becomes a leader. -/
theorem updateRoundLeaders_ends_twoNodes :
    ∃ fuel s', updateRoundLeaders (rankedNode ⟨2, [0, 7], []⟩) fuel ledByZero = .ok s' := by
  refine (updateRoundLeaders_ends_iff (rankedNode ⟨2, [0, 7], []⟩) ledByZero (by decide +kernel) (by decide) ?_).mpr
    (.inr (.inl ⟨7, by decide +kernel, by decide +kernel, by decide +kernel⟩))
  have hnodes : forAllNodes (normalizeQSet ⟨2, [0, 7], []⟩ (some 0)) = [7] := by decide +kernel
  intro v hv _ round
  obtain rfl : v = 7 := mem_singleton.mp (hnodes ▸ hv)
  refine ⟨round, le_rfl, ?_⟩
  show Highest (rankedNode ⟨2, [0, 7], []⟩) [1] _ 0 7
  unfold Highest
  decide +kernel

/-- **A search that never ends.** In the set {0, 1, 2} with threshold one the nodes 1 and 2 are left
with threshold zero and no weight: after node 0 there is no other leader. -/
theorem oneOfThree_never_ends :
    let scp := rankedNode ⟨1, [0, 1, 2], []⟩
    let qset := normalizeQSet scp.localNode.mQSet (some scp.localNode.mNodeID)
    isQuorumSetSane scp.localNode.mQSet false = true ∧ scp.localNode.mNodeID ∈ forAllNodes scp.localNode.mQSet ∧
    OftenHighest scp ledByZero.mPreviousValue qset ∧
    ¬∃ fuel s', updateRoundLeaders scp fuel ledByZero = .ok s' := by
  have hweightless : ∀ v ∈ forAllNodes (normalizeQSet ⟨1, [0, 1, 2], []⟩ (some 0)),
      getNodeWeight v (normalizeQSet ⟨1, [0, 1, 2], []⟩ (some 0)) = some 0 := by decide +kernel
  have hsane : isQuorumSetSane ⟨1, [0, 1, 2], []⟩ false = true := by decide +kernel
  have hoften : OftenHighest (rankedNode ⟨1, [0, 1, 2], []⟩) ledByZero.mPreviousValue
      (normalizeQSet ⟨1, [0, 1, 2], []⟩ (some 0)) := fun v hv hweight => absurd (hweightless v hv) hweight
  obtain ⟨hbounded, hlocal⟩ := normalizeQSet_some hsane 0
  refine ⟨hsane, by decide, hoften, fun hends => ?_⟩
  rcases (searchLeaders_ends_iff (by decide) hbounded _).mp hends with henough | hadds
  · revert henough
    decide +kernel
  · rcases (exists_adds_iff (by decide) hbounded hlocal hoften).mp hadds with ⟨v, hv, hweight, -⟩ | ⟨hnot, -⟩
    · exact hweight (hweightless v hv)
    · revert hnot
      decide +kernel

end NominationProtocol

end Diamnet.Scp
