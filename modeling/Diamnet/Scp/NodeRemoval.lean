import Diamnet.Scp.NormalForm

/-! A quorum set without a node (`normalizeQSet` with a node to remove).

The node leaves the level that lists it and the threshold of that level goes down by one. For the
slice test this is the node agreeing, except where the threshold was 1: the level was met by the
node alone, and a threshold of 0 is met by nothing, since the test counts down before it compares
(`isQuorumSlice_remove_iff`). -/
namespace Diamnet.Scp
open LocalNode List SCPQuorumSet

/-- A level that lists the node asks for one entry only. -/
inductive Sole (id : NodeID) : SCPQuorumSet → Prop where
  | here {q : SCPQuorumSet} (listed : id ∈ q.validators) (threshold : q.threshold = 1) : Sole id q
  | inner {q i : SCPQuorumSet} (mem : i ∈ q.innerSets) (h : Sole id i) : Sole id q

variable {q : SCPQuorumSet}

theorem Sole.mem {id : NodeID} (h : Sole id q) : id ∈ forAllNodes q := by
  induction h with
  | here listed _ =>
    rw [forAllNodes_eq]
    exact mem_append_left _ listed
  | inner mem _ ih =>
    rw [forAllNodes_eq]
    exact mem_append_right _ (mem_flatMap.mpr ⟨_, mem, ih⟩)

variable {n : NodeID}

theorem mem_forAllNodes_inner {i : SCPQuorumSet} (hi : i ∈ q.innerSets) (hn : n ∈ forAllNodes i) :
    n ∈ forAllNodes q := by
  rw [forAllNodes_eq]
  exact mem_append_right _ (mem_flatMap.mpr ⟨i, hi, hn⟩)

/-! ### The slice test -/

variable {S : List NodeID}

theorem isQuorumSlice_congr {T : List NodeID} (h : ∀ n ∈ forAllNodes q, n ∈ S ↔ n ∈ T) :
    isQuorumSlice q S = isQuorumSlice q T := by
  induction q using induction with
  | h q ih =>
    have hvalidators : q.validators.countP (fun v => decide (v ∈ S)) = q.validators.countP (fun v => decide (v ∈ T)) := by
      refine countP_congr fun v hv => ?_
      rw [decide_eq_true_iff, decide_eq_true_iff]
      refine h v ?_
      rw [forAllNodes_eq]
      exact mem_append_left _ hv
    have hinner : q.innerSets.countP (isQuorumSlice · S) = q.innerSets.countP (isQuorumSlice · T) :=
      countP_congr fun i hi => by rw [ih i hi fun n hn => h n (mem_forAllNodes_inner hi hn)]
    rw [Bool.eq_iff_iff, isQuorumSlice_iff, isQuorumSlice_iff, entriesMet, entriesMet, hvalidators, hinner]

theorem isQuorumSlice_eq_false (h : ∀ n ∈ forAllNodes q, n ∉ S) : isQuorumSlice q S = false := by
  rw [isQuorumSlice_congr (T := []) fun n hn => iff_of_false (h n hn) not_mem_nil]
  exact isQuorumSlice_nil q

theorem Levels.isQuorumSlice {extraChecks : Bool} {depth : Nat} (h : Levels extraChecks depth q)
    (hall : ∀ n ∈ forAllNodes q, n ∈ S) : isQuorumSlice q S = true := by
  induction q using induction generalizing depth with
  | h q ih =>
    have hvalidators : q.validators.countP (fun v => decide (v ∈ S)) = q.validators.length := by
      refine countP_eq_length.mpr fun v hv => decide_eq_true (hall v ?_)
      rw [forAllNodes_eq]
      exact mem_append_left _ hv
    have hinner :=
      countP_eq_length.mpr fun i hi => ih i hi (h.inner i hi) fun n hn => hall n (mem_forAllNodes_inner hi hn)
    rw [LocalNode.isQuorumSlice_iff, h.due_eq, entriesMet, hvalidators, hinner]
    exact h.threshold_le

theorem isQuorumSlice_level (threshold : UInt32) (validators : List NodeID) (innerSets : List SCPQuorumSet) :
    isQuorumSlice (level threshold validators innerSets) S = true ↔
      due threshold ≤ validators.countP (fun v => decide (v ∈ S)) + innerSets.countP (isQuorumSlice · S) := by
  have hplain : isQuorumSlice ⟨threshold, validators, innerSets⟩ S = true ↔
      due threshold ≤ validators.countP (fun v => decide (v ∈ S)) + innerSets.countP (isQuorumSlice · S) :=
    isQuorumSlice_iff _ S
  cases innerSets with
  | nil => exact hplain
  | cons i rest =>
    cases rest with
    | cons j rest => exact hplain
    | nil =>
      rw [level]
      split
      · next hlone =>
        obtain ⟨rfl, rfl⟩ := hlone
        by_cases h : isQuorumSlice i S = true <;> simp [due, h]
      · exact hplain

theorem isQuorumSlice_reorder (q : SCPQuorumSet) (S : List NodeID) :
    isQuorumSlice (normalizeQuorumSetReorder q) S = isQuorumSlice q S := by
  induction q using induction with
  | h q ih =>
    have hinner : (q.innerSets.map normalizeQuorumSetReorder).countP (isQuorumSlice · S) =
        q.innerSets.countP (isQuorumSlice · S) := by
      rw [countP_map]
      exact countP_congr fun i hi => by rw [Function.comp_apply, ih i hi]
    rw [Bool.eq_iff_iff, normalizeQuorumSetReorder_eq, isQuorumSlice_iff, entriesMet_sorted, hinner, isQuorumSlice_iff,
      entriesMet]

/-! ### One level -/

section Level
variable {q : SCPQuorumSet} {S : List NodeID} {id : NodeID}

theorem isQuorumSlice_simplify (q : SCPQuorumSet) (S : List NodeID) (id : NodeID) :
    isQuorumSlice (normalizeQSetSimplify (some id) q) S = true ↔
      due (q.threshold - UInt32.ofNat (q.validators.length - (kept (some id) q).length)) ≤
        (kept (some id) q).countP (fun v => decide (v ∈ S)) +
          q.innerSets.countP fun i => isQuorumSlice (normalizeQSetSimplify (some id) i) S := by
  rw [normalizeQSetSimplify_eq, isQuorumSlice_level, countP_append, Nat.add_assoc,
    countP_merged_nested (isQuorumSlice · S) fun v => isQuorumSlice_singleton v S, countP_map]
  rfl

theorem kept_of_not_mem (h : id ∉ q.validators) : kept (some id) q = q.validators := by
  refine filter_eq_self.mpr fun n hn => decide_eq_true ?_
  intro heq
  cases heq
  exact h hn

theorem perm_kept (hnodup : q.validators.Nodup) (h : id ∈ q.validators) : q.validators.Perm (id :: kept (some id) q) := by
  have herase : q.validators.erase id = kept (some id) q := by
    rw [hnodup.erase_eq_filter]
    refine filter_congr fun n _ => ?_
    rw [Bool.eq_iff_iff]
    simp
  rw [← herase]
  exact perm_cons_erase h

theorem countP_kept (q : SCPQuorumSet) (S : List NodeID) (id : NodeID) :
    (kept (some id) q).countP (fun v => decide (v ∈ id :: S)) = (kept (some id) q).countP fun v => decide (v ∈ S) := by
  refine countP_congr fun v hv => ?_
  have hne : v ≠ id := by simpa using (mem_filter.mp hv).2
  simp [hne]

/-- **One level without the node**: it asks for what the level with the node agreeing asks for, unless
the level lists the node and asks for one entry only. -/
theorem level_iff (hnodup : q.validators.Nodup) (hpos : q.threshold ≠ 0)
    (hsole : ¬(id ∈ q.validators ∧ q.threshold = 1)) (inner : Nat) :
    due (q.threshold - UInt32.ofNat (q.validators.length - (kept (some id) q).length)) ≤
        (kept (some id) q).countP (fun v => decide (v ∈ S)) + inner ↔
      due q.threshold ≤ q.validators.countP (fun v => decide (v ∈ id :: S)) + inner := by
  by_cases hmem : id ∈ q.validators
  · have hperm := perm_kept hnodup hmem
    have hone : q.threshold ≠ 1 := fun h => hsole ⟨hmem, h⟩
    have hlt : 1 < q.threshold.toNat := by
      have h0 : q.threshold.toNat ≠ 0 := fun h => hpos (UInt32.toNat_inj.mp h)
      have h1 : q.threshold.toNat ≠ 1 := fun h => hone (UInt32.toNat_inj.mp h)
      omega
    have hsub : (q.threshold - 1).toNat = q.threshold.toNat - 1 :=
      UInt32.toNat_sub_of_le _ _ (UInt32.le_iff_toNat_le.mpr hlt.le)
    have hsub_ne : q.threshold - 1 ≠ 0 := by
      intro h
      rw [h] at hsub
      have : (0 : UInt32).toNat = 0 := rfl
      omega
    have hremoved : UInt32.ofNat (q.validators.length - (kept (some id) q).length) = 1 := by
      rw [hperm.length_eq, length_cons, Nat.add_sub_cancel_left]
      rfl
    rw [hremoved, due, if_neg hsub_ne, due, if_neg hpos, hsub, hperm.countP_eq, countP_cons, countP_kept]
    simp only [mem_cons, true_or, decide_true, if_true]
    omega
  · have hkept := kept_of_not_mem hmem
    have hcount := countP_kept q S id
    rw [hkept] at hcount ⊢
    rw [Nat.sub_self, hcount, show q.threshold - UInt32.ofNat 0 = q.threshold by simp]

end Level

/-! ### The whole quorum set -/

variable {extraChecks : Bool} {depth : Nat} {q : SCPQuorumSet} {id : NodeID}

theorem nodup_validators (hnodup : (forAllNodes q).Nodup) : q.validators.Nodup := by
  rw [forAllNodes_eq] at hnodup
  exact (nodup_append.mp hnodup).1

theorem nodup_inner (hnodup : (forAllNodes q).Nodup) {i : SCPQuorumSet} (hi : i ∈ q.innerSets) : (forAllNodes i).Nodup := by
  rw [forAllNodes_eq] at hnodup
  exact (nodup_flatMap.mp (nodup_append.mp hnodup).2.1).1 i hi

theorem Levels.isQuorumSlice_remove (h : Levels extraChecks depth q) (hnodup : (forAllNodes q).Nodup) (hsole : ¬Sole id q)
    (S : List NodeID) :
    LocalNode.isQuorumSlice (normalizeQSetSimplify (some id) q) S = LocalNode.isQuorumSlice q (id :: S) := by
  induction q using induction generalizing depth with
  | h q ih =>
    have hinner : q.innerSets.countP (fun i => LocalNode.isQuorumSlice (normalizeQSetSimplify (some id) i) S) =
        q.innerSets.countP (LocalNode.isQuorumSlice · (id :: S)) :=
      countP_congr fun i hi => by
        rw [ih i hi (h.inner i hi) (nodup_inner hnodup hi) fun hs => hsole (.inner hi hs)]
    rw [Bool.eq_iff_iff, isQuorumSlice_simplify, hinner,
      level_iff (nodup_validators hnodup) h.threshold_ne_zero fun hs => hsole (.here hs.1 hs.2), LocalNode.isQuorumSlice_iff,
      entriesMet]

theorem mem_forAllNodes_level {threshold : UInt32} {validators : List NodeID} {innerSets : List SCPQuorumSet}
    (h : n ∈ forAllNodes (level threshold validators innerSets)) :
    n ∈ validators ∨ ∃ i ∈ innerSets, n ∈ forAllNodes i := by
  have hplain : n ∈ forAllNodes ⟨threshold, validators, innerSets⟩ → n ∈ validators ∨ ∃ i ∈ innerSets, n ∈ forAllNodes i := by
    intro h
    rw [forAllNodes_eq, mem_append, mem_flatMap] at h
    exact h
  cases innerSets with
  | nil => exact hplain h
  | cons i rest =>
    cases rest with
    | cons j rest => exact hplain h
    | nil =>
      rw [level] at h
      split at h
      · exact .inr ⟨i, mem_singleton_self i, h⟩
      · exact hplain h

theorem mem_forAllNodes_of_simplify (h : n ∈ forAllNodes (normalizeQSetSimplify (some id) q)) :
    n ∈ forAllNodes q ∧ n ≠ id := by
  induction q using induction generalizing n with
  | h q ih =>
    have hinner : ∀ i ∈ q.innerSets, n ∈ forAllNodes (normalizeQSetSimplify (some id) i) → n ∈ forAllNodes q ∧ n ≠ id := by
      intro i hi hn
      exact ⟨mem_forAllNodes_inner hi (ih i hi hn).1, (ih i hi hn).2⟩
    rw [normalizeQSetSimplify_eq] at h
    rcases mem_forAllNodes_level h with h | ⟨i, hi, hn⟩
    · rcases mem_append.mp h with h | h
      · obtain ⟨hmem, hne⟩ := mem_filter.mp h
        refine ⟨?_, by simpa using hne⟩
        rw [forAllNodes_eq]
        exact mem_append_left _ hmem
      · obtain ⟨i, hi, hs⟩ := mem_filterMap.mp h
        obtain ⟨i', hi', rfl⟩ := mem_map.mp hi
        refine hinner i' hi' ?_
        rw [single?_eq_some.mp hs]
        exact mem_singleton_self n
    · obtain ⟨i', hi', rfl⟩ := mem_map.mp (mem_filter.mp hi).1
      exact hinner i' hi' hn

/-! ### Where it differs -/

theorem exists_entries {validators : List NodeID} {innerSets : List SCPQuorumSet}
    (hnodup : (validators ++ innerSets.flatMap forAllNodes).Nodup) (hlevels : ∀ i ∈ innerSets, Levels extraChecks depth i)
    {k : Nat} (hk : k ≤ validators.length + innerSets.length) :
    ∃ S : List NodeID, (∀ n ∈ S, n ∈ validators ++ innerSets.flatMap forAllNodes) ∧
      ∀ U : List NodeID, (∀ n ∈ validators ++ innerSets.flatMap forAllNodes, n ∈ U ↔ n ∈ S) →
        validators.countP (fun v => decide (v ∈ U)) + innerSets.countP (isQuorumSlice · U) = k := by
  -- the first validators, then the first inner sets
  have hvalidators := take_append_drop k validators
  have hinner := take_append_drop (k - validators.length) innerSets
  obtain ⟨hnodup_v, hnodup_i, hapart⟩ := nodup_append.mp hnodup
  refine ⟨validators.take k ++ (innerSets.take (k - validators.length)).flatMap forAllNodes, ?_, ?_⟩
  · intro n hn
    rcases mem_append.mp hn with hn | hn
    · exact mem_append_left _ (mem_of_mem_take hn)
    · obtain ⟨i, hi, hn⟩ := mem_flatMap.mp hn
      exact mem_append_right _ (mem_flatMap.mpr ⟨i, mem_of_mem_take hi, hn⟩)
  intro U hU
  have htaken_v : (validators.take k).countP (fun v => decide (v ∈ U)) = (validators.take k).length := by
    refine countP_eq_length.mpr fun v hv => decide_eq_true ?_
    exact (hU v (mem_append_left _ (mem_of_mem_take hv))).mpr (mem_append_left _ hv)
  have hleft_v : (validators.drop k).countP (fun v => decide (v ∈ U)) = 0 := by
    refine countP_eq_zero.mpr fun v hv hmem => ?_
    have hv' := mem_of_mem_drop hv
    rcases mem_append.mp ((hU v (mem_append_left _ hv')).mp (of_decide_eq_true hmem)) with hin | hin
    · rw [← hvalidators] at hnodup_v
      exact (nodup_append.mp hnodup_v).2.2 v hin v hv rfl
    · obtain ⟨i, hi, hin⟩ := mem_flatMap.mp hin
      exact hapart v hv' v (mem_flatMap.mpr ⟨i, mem_of_mem_take hi, hin⟩) rfl
  have htaken_i : (innerSets.take (k - validators.length)).countP (isQuorumSlice · U) =
      (innerSets.take (k - validators.length)).length := by
    refine countP_eq_length.mpr fun i hi => (hlevels i (mem_of_mem_take hi)).isQuorumSlice fun n hn => ?_
    exact (hU n (mem_append_right _ (mem_flatMap.mpr ⟨i, mem_of_mem_take hi, hn⟩))).mpr
      (mem_append_right _ (mem_flatMap.mpr ⟨i, hi, hn⟩))
  have hleft_i : (innerSets.drop (k - validators.length)).countP (isQuorumSlice · U) = 0 := by
    refine countP_eq_zero.mpr fun i hi => ?_
    rw [Bool.not_eq_true]
    refine isQuorumSlice_eq_false fun n hn hmem => ?_
    have hall := mem_flatMap.mpr ⟨i, mem_of_mem_drop hi, hn⟩
    rcases mem_append.mp ((hU n (mem_append_right _ hall)).mp hmem) with hin | hin
    · exact hapart n (mem_of_mem_take hin) n hall rfl
    · rw [← hinner, flatMap_append] at hnodup_i
      exact (nodup_append.mp hnodup_i).2.2 n hin n (mem_flatMap.mpr ⟨i, hi, hn⟩) rfl
  rw [← hvalidators, countP_append, htaken_v, hleft_v, ← hinner, countP_append, htaken_i, hleft_i,
    length_take, length_take]
  omega

/-- There is a set for which the node is decisive, and after its removal nothing is in its place. -/
theorem Sole.exists_decisive (hs : Sole id q) (h : Levels extraChecks depth q) (hnodup : (forAllNodes q).Nodup) :
    ∃ S, (∀ n ∈ S, n ∈ forAllNodes q) ∧ isQuorumSlice q (id :: S) = true ∧
      isQuorumSlice (normalizeQSetSimplify (some id) q) S = false := by
  induction hs generalizing depth with
  | @here q listed hone =>
    refine ⟨[], fun n hn => (not_mem_nil hn).elim, ?_, isQuorumSlice_nil _⟩
    have hpos : 0 < q.validators.countP fun v => decide (v ∈ [id]) :=
      countP_pos_iff.mpr ⟨id, listed, decide_eq_true (mem_singleton_self id)⟩
    rw [LocalNode.isQuorumSlice_iff, h.due_eq, hone, entriesMet]
    have : (1 : UInt32).toNat = 1 := rfl
    omega
  | @inner q i hi hs ih =>
    obtain ⟨T, hT, hslice, hnone⟩ := ih (h.inner i hi) (nodup_inner hnodup hi)
    obtain ⟨before, after, hsplit⟩ := append_of_mem hi
    have hperm : q.innerSets.Perm (i :: (before ++ after)) := by
      rw [hsplit]
      exact perm_middle
    -- the nodes of the other entries, and those of `i`
    have hapart : (q.validators ++ (before ++ after).flatMap forAllNodes ++ forAllNodes i).Nodup := by
      rw [forAllNodes_eq] at hnodup
      refine Perm.nodup_iff ?_ |>.mp hnodup
      rw [append_assoc]
      refine Perm.append_left _ ((hperm.flatMap_right _).trans ?_)
      exact perm_append_comm
    obtain ⟨hothers, -, hdisjoint⟩ := nodup_append.mp hapart
    have hlevels : ∀ j ∈ before ++ after, Levels extraChecks (depth + 1) j := fun j hj =>
      h.inner j (hperm.mem_iff.mpr (.tail _ hj))
    have hlength := hperm.length_eq
    rw [length_cons] at hlength
    have hle := h.threshold_le
    obtain ⟨S, hS, hcount⟩ := exists_entries hothers hlevels (k := q.threshold.toNat - 1) (by omega)
    have hid := hs.mem
    have hU : ∀ n ∈ q.validators ++ (before ++ after).flatMap forAllNodes, n ∈ id :: (S ++ T) ↔ n ∈ S := by
      intro n hn
      have hnot : n ∉ forAllNodes i := fun hin => hdisjoint n hn n hin rfl
      rw [mem_cons, mem_append]
      constructor
      · intro hmem
        rcases hmem with rfl | hmem | hmem
        · exact absurd hid hnot
        · exact hmem
        · exact absurd (hT n hmem) hnot
      · exact fun hmem => .inr (.inl hmem)
    have hmet := hcount _ hU
    have hi_nodes : ∀ n ∈ forAllNodes i, n ∈ S ++ T ↔ n ∈ T := by
      intro n hn
      rw [mem_append]
      exact or_iff_right fun hmem => hdisjoint n (hS n hmem) n hn rfl
    refine ⟨S ++ T, ?_, ?_, ?_⟩
    · intro n hn
      rcases mem_append.mp hn with hn | hn
      · rw [forAllNodes_eq]
        rcases mem_append.mp (hS n hn) with hn | hn
        · exact mem_append_left _ hn
        · obtain ⟨j, hj, hn⟩ := mem_flatMap.mp hn
          exact mem_append_right _
            (mem_flatMap.mpr ⟨j, hperm.mem_iff.mpr (.tail _ hj), hn⟩)
      · exact mem_forAllNodes_inner hi (hT n hn)
    · have hslice' : isQuorumSlice i (id :: (S ++ T)) = true := by
        rw [isQuorumSlice_congr (T := id :: T) fun n hn => by rw [mem_cons, mem_cons, hi_nodes n hn]]
        exact hslice
      rw [LocalNode.isQuorumSlice_iff, h.due_eq, entriesMet, hperm.countP_eq, countP_cons, hslice', if_pos rfl]
      omega
    · have hnot_listed : id ∉ q.validators := fun hmem =>
        hdisjoint id (mem_append_left _ hmem) id hid rfl
      have hkept := kept_of_not_mem hnot_listed
      have hvalidators := countP_kept q (S ++ T) id
      have hgone : isQuorumSlice (normalizeQSetSimplify (some id) i) (S ++ T) = false := by
        rw [isQuorumSlice_congr (T := T) fun n hn => hi_nodes n (mem_forAllNodes_of_simplify hn).1]
        exact hnone
      have hrest : (before ++ after).countP (fun j => isQuorumSlice (normalizeQSetSimplify (some id) j) (S ++ T)) =
          (before ++ after).countP (isQuorumSlice · (id :: (S ++ T))) := by
        refine countP_congr fun j hj => ?_
        have hj' := hperm.mem_iff.mpr (.tail _ hj)
        rw [(h.inner j hj').isQuorumSlice_remove (nodup_inner hnodup hj') fun hsole => ?_]
        exact hdisjoint id (mem_append_right _ (mem_flatMap.mpr ⟨j, hj, hsole.mem⟩)) id hid rfl
      rw [← Bool.not_eq_true, isQuorumSlice_simplify, hkept, Nat.sub_self,
        show q.threshold - UInt32.ofNat 0 = q.threshold by simp, h.due_eq, hperm.countP_eq, countP_cons, hgone,
        if_neg Bool.false_ne_true, hrest]
      rw [hkept] at hvalidators
      have hpos := h.threshold_pos
      omega

/-- **Removing a node is assuming that it agrees, if and only if no level that lists it asks for one
entry only.** -/
theorem isQuorumSlice_remove_iff {q : SCPQuorumSet} {extraChecks : Bool} (hsane : isQuorumSetSane q extraChecks = true)
    (id : NodeID) :
    (∀ S, isQuorumSlice (normalizeQSet q (some id)) S = true ↔ isQuorumSlice q (id :: S) = true) ↔ ¬Sole id q := by
  obtain ⟨hlevels, hnodup, -⟩ := (isQuorumSetSane_iff q extraChecks).mp hsane
  unfold normalizeQSet
  constructor
  · intro hall hsole
    obtain ⟨S, -, hslice, hnone⟩ := hsole.exists_decisive hlevels hnodup
    have hsame := (hall S).mpr hslice
    rw [isQuorumSlice_reorder, hnone] at hsame
    cases hsame
  · intro hsole S
    rw [isQuorumSlice_reorder, hlevels.isQuorumSlice_remove hnodup hsole]

/-- Two of three nodes, one of which is in an inner set that it can meet on its own. -/
def eitherNode : SCPQuorumSet := ⟨2, [1, 2], [⟨1, [3, 4], []⟩]⟩

/-- Node 3 agrees, but without it node 1 is not enough. -/
theorem eitherNode_differs : isQuorumSetSane eitherNode false = true ∧
    isQuorumSlice eitherNode [3, 1] = true ∧ isQuorumSlice (normalizeQSet eitherNode (some 3)) [1] = false := by
  decide +kernel

theorem isQuorumSlice_remove_listed : isQuorumSetSane eitherNode false = true ∧
    ∀ S, isQuorumSlice (normalizeQSet eitherNode (some 1)) S = true ↔ isQuorumSlice eitherNode (1 :: S) = true := by
  have hsane : isQuorumSetSane eitherNode false = true := by decide +kernel
  refine ⟨hsane, (isQuorumSlice_remove_iff hsane 1).mpr ?_⟩
  intro h
  cases h with
  | here _ hone => exact absurd hone (by decide)
  | inner mem h =>
    rw [mem_singleton.mp mem] at h
    exact absurd h.mem (by decide)

end Diamnet.Scp
