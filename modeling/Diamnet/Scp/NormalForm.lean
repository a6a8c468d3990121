import Diamnet.Scp.Sanity
import Diamnet.Util.ThreeWay

/-! The normal form of a quorum set (`normalizeQSet`).

Without a node to remove, normalizing puts inner sets of one validator among the validators,
replaces a level that only asks for one inner set by that set, and sorts what is left. All of it
is bottom up: the normal form of a quorum set is made from the normal forms of its inner sets
(`normalizeQSet_eq`). From this follow that the meaning is kept, that a sane quorum set stays sane,
that a second pass changes nothing, and that the order of validators and inner sets does not
matter. -/
namespace Diamnet.Scp
open LocalNode List SCPQuorumSet

/-! ### Simplification, level by level -/

/-- The validator of a quorum set that asks for one validator only. -/
def single? : SCPQuorumSet → Option NodeID
  | ⟨1, [v], []⟩ => some v
  | _ => none

variable {q : SCPQuorumSet}

theorem single?_eq_some {v : NodeID} : single? q = some v ↔ q = ⟨1, [v], []⟩ := by
  constructor
  · intro h
    unfold single? at h
    split at h
    · cases h
      rfl
    · cases h
  · rintro rfl
    rfl

/-- A level with these validators and inner sets, without nesting that says nothing. -/
def level (threshold : UInt32) (validators : List NodeID) : List SCPQuorumSet → SCPQuorumSet
  | [inner] => if threshold = 1 ∧ validators = [] then inner else ⟨threshold, validators, [inner]⟩
  | innerSets => ⟨threshold, validators, innerSets⟩

/-- The validators of the inner sets that have one only. -/
abbrev merged (innerSets : List SCPQuorumSet) : List NodeID := innerSets.filterMap single?

abbrev nested (innerSets : List SCPQuorumSet) : List SCPQuorumSet := innerSets.filter fun i => (single? i).isNone

section Cons
variable {i : SCPQuorumSet} {rest : List SCPQuorumSet}

theorem merged_cons_some {v : NodeID} (h : single? i = some v) : merged (i :: rest) = v :: merged rest :=
  filterMap_cons_some h

theorem nested_cons_some {v : NodeID} (h : single? i = some v) : nested (i :: rest) = nested rest :=
  filter_cons_of_neg (by simp [h])

theorem merged_cons_none (h : single? i = none) : merged (i :: rest) = merged rest := filterMap_cons_none h

theorem nested_cons_none (h : single? i = none) : nested (i :: rest) = i :: nested rest :=
  filter_cons_of_pos (by simp [h])

end Cons

theorem normalizeInnerSets_eq (idToRemove : Option NodeID) (innerSets : List SCPQuorumSet) :
    normalizeInnerSets idToRemove innerSets =
      (merged (innerSets.map (normalizeQSetSimplify idToRemove)), nested (innerSets.map (normalizeQSetSimplify idToRemove))) := by
  induction innerSets with
  | nil => rfl
  | cons inner rest ih =>
    rw [normalizeInnerSets, ih]
    dsimp only
    generalize hq : normalizeQSetSimplify idToRemove inner = q
    rw [map_cons, hq]
    cases hs : single? q with
    | some v =>
      rw [single?_eq_some.mp hs]
      rfl
    | none =>
      rw [merged_cons_none hs, nested_cons_none hs]
      split
      · cases hs
      · rfl

abbrev kept (idToRemove : Option NodeID) (q : SCPQuorumSet) : List NodeID := q.validators.filter fun n => some n ≠ idToRemove

theorem normalizeQSetSimplify_eq (idToRemove : Option NodeID) (q : SCPQuorumSet) :
    normalizeQSetSimplify idToRemove q =
      level (q.threshold - UInt32.ofNat (q.validators.length - (kept idToRemove q).length))
        (kept idToRemove q ++ merged (q.innerSets.map (normalizeQSetSimplify idToRemove)))
        (nested (q.innerSets.map (normalizeQSetSimplify idToRemove))) := by
  obtain ⟨threshold, validators, innerSets⟩ := q
  rw [normalizeQSetSimplify, normalizeInnerSets_eq]
  cases nested (innerSets.map (normalizeQSetSimplify idToRemove)) with
  | nil => rfl
  | cons i rest => cases rest <;> rfl

theorem normalizeQSetSimplify_none (q : SCPQuorumSet) :
    normalizeQSetSimplify none q = level q.threshold (q.validators ++ merged (q.innerSets.map (normalizeQSetSimplify none)))
      (nested (q.innerSets.map (normalizeQSetSimplify none))) := by
  have hkept : kept none q = q.validators := filter_eq_self.mpr fun n _ => by simp
  rw [normalizeQSetSimplify_eq, hkept, Nat.sub_self, show q.threshold - UInt32.ofNat 0 = q.threshold by simp]

theorem reorderInnerSets_eq (innerSets : List SCPQuorumSet) :
    reorderInnerSets innerSets = innerSets.map normalizeQuorumSetReorder := by
  induction innerSets with
  | nil => rfl
  | cons inner rest ih => rw [reorderInnerSets, ih, map_cons]

abbrev inOrder (innerSets : List SCPQuorumSet) : List SCPQuorumSet :=
  innerSets.insertionSort fun l r => qSetCompareInt l r ≤ 0

theorem normalizeQuorumSetReorder_eq (q : SCPQuorumSet) :
    normalizeQuorumSetReorder q =
      ⟨q.threshold, q.validators.insertionSort (· ≤ ·), inOrder (q.innerSets.map normalizeQuorumSetReorder)⟩ := by
  obtain ⟨threshold, validators, innerSets⟩ := q
  rw [normalizeQuorumSetReorder, reorderInnerSets_eq]

/-! ### The order of quorum sets -/

theorem compareValidators_eq : compareValidators = lexCompare compareInt := by
  funext l r
  induction l generalizing r with
  | nil => cases r <;> rfl
  | cons a l ih =>
    cases r with
    | nil => rfl
    | cons b r =>
      rw [compareValidators, lexCompare, ← ih r, compareInt]
      split
      · simp
      · split <;> simp

theorem compareInnerSets_eq : compareInnerSets = lexCompare qSetCompareInt := by
  funext l r
  induction l generalizing r with
  | nil => cases r <;> rfl
  | cons a l ih =>
    cases r with
    | nil => rfl
    | cons b r => rw [compareInnerSets, lexCompare, ← ih r]

theorem qSetCompareInt_eq : qSetCompareInt =
    compareThen (lexCompare compareInt) (compareThen (lexCompare qSetCompareInt) compareInt Prod.fst Prod.snd)
      validators (fun q => (q.innerSets, q.threshold)) := by
  funext l r
  obtain ⟨threshold, validators, innerSets⟩ := l
  rw [qSetCompareInt, compareValidators_eq, compareInnerSets_eq, compareThen, compareThen]
  have hthreshold : (if threshold < r.threshold then (-1 : Int) else if threshold = r.threshold then 0 else 1) =
      compareInt threshold r.threshold := by
    unfold compareInt
    rcases lt_trichotomy threshold r.threshold with h | h | h
    · rw [if_pos h, if_pos h]
    · simp [h]
    · rw [if_neg h.not_gt, if_neg h.ne', if_neg h.not_gt, if_pos h]
  rw [hthreshold]

/-- **`qSetCompareInt` is a linear order on trees.** -/
theorem ordered_qSetCompareInt (q : SCPQuorumSet) : Ordered qSetCompareInt q := by
  induction q using induction with
  | h q ih =>
    rw [qSetCompareInt_eq]
    refine Ordered.compareThen (Ordered.lexCompare fun v _ => ordered_compareInt v)
      (Ordered.compareThen (Ordered.lexCompare ih) (ordered_compareInt _) fun _ h₁ h₂ => Prod.ext h₁ h₂) ?_
    intro r hvalidators hrest
    obtain ⟨threshold, validators, innerSets⟩ := q
    obtain ⟨threshold', validators', innerSets'⟩ := r
    cases hvalidators
    cases hrest
    rfl

theorem inOrder_eq_of_perm {l l' : List SCPQuorumSet} (h : l.Perm l') : inOrder l = inOrder l' :=
  sort_eq_of_perm ordered_qSetCompareInt h

theorem inOrder_perm (l : List SCPQuorumSet) : (inOrder l).Perm l := perm_insertionSort _ l

/-! ### Bottom up -/

theorem single?_reorder (q : SCPQuorumSet) : single? (normalizeQuorumSetReorder q) = single? q := by
  cases h : single? q with
  | some v =>
    rw [single?_eq_some.mp h]
    rfl
  | none =>
    cases h' : single? (normalizeQuorumSetReorder q) with
    | none => rfl
    | some v =>
      -- sorting neither adds nor removes anything
      exfalso
      have heq := single?_eq_some.mp h'
      rw [normalizeQuorumSetReorder_eq] at heq
      obtain ⟨threshold, validators, innerSets⟩ := q
      obtain ⟨hthreshold, hvalidators, hinner⟩ := mk.inj heq
      have hv : validators = [v] := by
        have := (perm_insertionSort (· ≤ ·) validators).symm
        rw [hvalidators] at this
        exact perm_singleton.mp this
      have hi : innerSets = [] := by
        have := (inOrder_perm (innerSets.map normalizeQuorumSetReorder)).symm
        rw [hinner] at this
        exact map_eq_nil_iff.mp (perm_nil.mp this)
      have hthreshold : threshold = 1 := hthreshold
      rw [hv, hi, hthreshold] at h
      cases h

def sortedLevel (threshold : UInt32) (validators : List NodeID) : List SCPQuorumSet → SCPQuorumSet
  | [inner] => if threshold = 1 ∧ validators = [] then inner else ⟨threshold, validators.insertionSort (· ≤ ·), [inner]⟩
  | innerSets => ⟨threshold, validators.insertionSort (· ≤ ·), inOrder innerSets⟩

theorem reorder_level (threshold : UInt32) (validators : List NodeID) (innerSets : List SCPQuorumSet) :
    normalizeQuorumSetReorder (level threshold validators innerSets) =
      sortedLevel threshold validators (innerSets.map normalizeQuorumSetReorder) := by
  cases innerSets with
  | nil => exact normalizeQuorumSetReorder_eq _
  | cons i rest =>
    cases rest with
    | cons j rest => exact normalizeQuorumSetReorder_eq _
    | nil =>
      rw [level, map_singleton, sortedLevel]
      split
      · rfl
      · exact normalizeQuorumSetReorder_eq _

/-- **The normal form is made from those of the inner sets.** -/
theorem normalizeQSet_eq (q : SCPQuorumSet) :
    normalizeQSet q none = sortedLevel q.threshold (q.validators ++ merged (q.innerSets.map (normalizeQSet · none)))
      (nested (q.innerSets.map (normalizeQSet · none))) := by
  have hmap : q.innerSets.map (normalizeQSet · none) =
      (q.innerSets.map (normalizeQSetSimplify none)).map normalizeQuorumSetReorder := by
    rw [map_map]
    rfl
  have hmerged : merged ((q.innerSets.map (normalizeQSetSimplify none)).map normalizeQuorumSetReorder) =
      merged (q.innerSets.map (normalizeQSetSimplify none)) := by
    rw [merged, filterMap_map]
    exact filterMap_congr fun i _ => single?_reorder i
  have hnested : nested ((q.innerSets.map (normalizeQSetSimplify none)).map normalizeQuorumSetReorder) =
      (nested (q.innerSets.map (normalizeQSetSimplify none))).map normalizeQuorumSetReorder := by
    rw [nested, filter_map]
    refine congrArg _ (filter_congr fun i _ => ?_)
    rw [Function.comp_apply, single?_reorder]
  rw [normalizeQSet, normalizeQSetSimplify_none, reorder_level, hmap, hmerged, hnested]

/-! ### The meaning is kept -/

section Meaning
variable {S : List NodeID}

theorem isVBlocking_singleton (v : NodeID) : isVBlocking ⟨1, [v], []⟩ S = true ↔ v ∈ S := by
  rw [isVBlocking_iff]
  by_cases h : v ∈ S <;> simp [entriesMet, h]

theorem countP_merged_nested (met : SCPQuorumSet → Bool) {P : NodeID → Prop} [DecidablePred P]
    (hsingle : ∀ v, met ⟨1, [v], []⟩ = true ↔ P v) (innerSets : List SCPQuorumSet) :
    (merged innerSets).countP (fun v => decide (P v)) + (nested innerSets).countP met = innerSets.countP met := by
  induction innerSets with
  | nil => rfl
  | cons i rest ih =>
    cases hs : single? i with
    | some v =>
      have hmet : met i = decide (P v) := by
        rw [single?_eq_some.mp hs, Bool.eq_iff_iff, decide_eq_true_iff]
        exact hsingle v
      rw [merged_cons_some hs, nested_cons_some hs, countP_cons,
        countP_cons, hmet, ← ih]
      omega
    | none =>
      rw [merged_cons_none hs, nested_cons_none hs, countP_cons,
        countP_cons, ← ih]
      omega

theorem length_merged_nested (innerSets : List SCPQuorumSet) :
    (merged innerSets).length + (nested innerSets).length = innerSets.length := by
  simpa using countP_merged_nested (P := fun _ => True) (fun _ => true) (by simp) innerSets

/-- The cases of a level in order: a lone inner set, or all entries in some order. -/
theorem sortedLevel_cases (threshold : UInt32) (validators : List NodeID) (innerSets : List SCPQuorumSet) :
    (threshold = 1 ∧ validators = [] ∧ ∃ i, innerSets = [i] ∧ sortedLevel threshold validators innerSets = i) ∨
    (¬(threshold = 1 ∧ validators = [] ∧ innerSets.length = 1) ∧
      sortedLevel threshold validators innerSets = ⟨threshold, validators.insertionSort (· ≤ ·), inOrder innerSets⟩) := by
  cases innerSets with
  | nil => exact .inr ⟨by simp, rfl⟩
  | cons i rest =>
    cases rest with
    | cons j rest => exact .inr ⟨by simp, rfl⟩
    | nil =>
      rw [sortedLevel]
      by_cases h : threshold = 1 ∧ validators = []
      · rw [if_pos h]
        exact .inl ⟨h.1, h.2, i, rfl, rfl⟩
      · rw [if_neg h]
        exact .inr ⟨fun hall => h ⟨hall.1, hall.2.1⟩, rfl⟩

theorem entriesMet_sorted (threshold : UInt32) (validators : List NodeID) (innerSets : List SCPQuorumSet)
    (met : SCPQuorumSet → Bool) :
    entriesMet ⟨threshold, validators.insertionSort (· ≤ ·), inOrder innerSets⟩ S met =
      validators.countP (fun v => decide (v ∈ S)) + innerSets.countP met := by
  rw [entriesMet, (perm_insertionSort _ validators).countP_eq, (inOrder_perm innerSets).countP_eq]

theorem isQuorumSlice_sortedLevel (threshold : UInt32) (validators : List NodeID) (innerSets : List SCPQuorumSet) :
    isQuorumSlice (sortedLevel threshold validators innerSets) S = true ↔
      due threshold ≤ validators.countP (fun v => decide (v ∈ S)) + innerSets.countP (isQuorumSlice · S) := by
  rcases sortedLevel_cases threshold validators innerSets with ⟨rfl, rfl, i, rfl, hlevel⟩ | ⟨-, hlevel⟩
  · rw [hlevel]
    by_cases h : isQuorumSlice i S = true <;> simp [due, h]
  · rw [hlevel, isQuorumSlice_iff, entriesMet_sorted]

theorem isVBlocking_sortedLevel (threshold : UInt32) (validators : List NodeID) (innerSets : List SCPQuorumSet) :
    isVBlocking (sortedLevel threshold validators innerSets) S = true ↔
      threshold ≠ 0 ∧ 1 ≤ validators.countP (fun v => decide (v ∈ S)) + innerSets.countP (isVBlocking · S) ∧
      1 + validators.length + innerSets.length ≤
        threshold.toNat + (validators.countP (fun v => decide (v ∈ S)) + innerSets.countP (isVBlocking · S)) := by
  rcases sortedLevel_cases threshold validators innerSets with ⟨rfl, rfl, i, rfl, hlevel⟩ | ⟨-, hlevel⟩
  · rw [hlevel]
    by_cases h : isVBlocking i S = true <;> simp [h]
  · rw [hlevel, isVBlocking_iff, entriesMet_sorted, (perm_insertionSort _ validators).length_eq,
      (inOrder_perm innerSets).length_eq]

/-- **The same sets satisfy the normal form.** -/
theorem isQuorumSlice_normalizeQSet (q : SCPQuorumSet) (S : List NodeID) :
    isQuorumSlice (normalizeQSet q none) S = isQuorumSlice q S := by
  induction q using induction with
  | h q ih =>
    have hinner : (q.innerSets.map (normalizeQSet · none)).countP (isQuorumSlice · S) =
        q.innerSets.countP (isQuorumSlice · S) := by
      rw [countP_map]
      exact countP_congr fun i hi => by rw [Function.comp_apply, ih i hi]
    rw [Bool.eq_iff_iff, normalizeQSet_eq, isQuorumSlice_sortedLevel, countP_append, Nat.add_assoc,
      countP_merged_nested (isQuorumSlice · S) fun v => isQuorumSlice_singleton v S, hinner, isQuorumSlice_iff]
    rfl

/-- **The same sets block it.** -/
theorem isVBlocking_normalizeQSet (q : SCPQuorumSet) (S : List NodeID) :
    isVBlocking (normalizeQSet q none) S = isVBlocking q S := by
  induction q using induction with
  | h q ih =>
    have hinner : (q.innerSets.map (normalizeQSet · none)).countP (isVBlocking · S) =
        q.innerSets.countP (isVBlocking · S) := by
      rw [countP_map]
      exact countP_congr fun i hi => by rw [Function.comp_apply, ih i hi]
    have hlength := length_merged_nested (q.innerSets.map (normalizeQSet · none))
    rw [length_map] at hlength
    rw [Bool.eq_iff_iff, normalizeQSet_eq, isVBlocking_sortedLevel, countP_append, length_append, Nat.add_assoc,
      countP_merged_nested (isVBlocking · S) isVBlocking_singleton, hinner, isVBlocking_iff, ← Nat.add_assoc 1, Nat.add_assoc (1 + _), hlength]
    rfl

end Meaning

/-! ### Sanity is kept -/

theorem forAllNodes_merged_nested (innerSets : List SCPQuorumSet) :
    (merged innerSets ++ (nested innerSets).flatMap forAllNodes).Perm (innerSets.flatMap forAllNodes) := by
  induction innerSets with
  | nil => exact .refl _
  | cons i rest ih =>
    cases hs : single? i with
    | some v =>
      have hnodes : forAllNodes i = [v] := by
        rw [single?_eq_some.mp hs]
        rfl
      rw [merged_cons_some hs, nested_cons_some hs, flatMap_cons, hnodes]
      exact ih.cons v
    | none =>
      rw [merged_cons_none hs, nested_cons_none hs, flatMap_cons,
        flatMap_cons]
      refine Perm.trans ?_ (ih.append_left (forAllNodes i))
      rw [← append_assoc, ← append_assoc]
      exact perm_append_comm.append_right _

theorem forAllNodes_sortedLevel (threshold : UInt32) (validators : List NodeID) (innerSets : List SCPQuorumSet) :
    (forAllNodes (sortedLevel threshold validators innerSets)).Perm (validators ++ innerSets.flatMap forAllNodes) := by
  rcases sortedLevel_cases threshold validators innerSets with ⟨rfl, rfl, i, rfl, hlevel⟩ | ⟨-, hlevel⟩
  · rw [hlevel]
    simp
  · rw [hlevel, forAllNodes_eq]
    exact (perm_insertionSort _ _).append ((inOrder_perm innerSets).flatMap_right _)

theorem forAllNodes_normalizeQSet (q : SCPQuorumSet) : (forAllNodes (normalizeQSet q none)).Perm (forAllNodes q) := by
  induction q using induction with
  | h q ih =>
    rw [normalizeQSet_eq, forAllNodes_eq q]
    refine (forAllNodes_sortedLevel _ _ _).trans ?_
    rw [append_assoc]
    refine Perm.append_left _ ((forAllNodes_merged_nested _).trans ?_)
    rw [flatMap_map]
    exact Perm.flatMap_left _ ih

variable {extraChecks : Bool}

theorem Levels.sortedLevel {depth : Nat} (h : Levels extraChecks depth q) {validators : List NodeID}
    {innerSets : List SCPQuorumSet}
    (hlength : validators.length + innerSets.length = q.validators.length + q.innerSets.length)
    (hinner : ∀ i ∈ innerSets, Levels extraChecks (depth + 1) i) :
    Levels extraChecks depth (sortedLevel q.threshold validators innerSets) := by
  cases h with
  | mk hnesting hpos hthreshold hmajority _ =>
    rcases sortedLevel_cases q.threshold validators innerSets with ⟨-, -, i, rfl, hlevel⟩ | ⟨-, hlevel⟩
    · rw [hlevel]
      exact (hinner i (mem_singleton_self i)).mono (Nat.le_succ depth)
    · rw [hlevel]
      have hvalidators := (perm_insertionSort (· ≤ ·) validators).length_eq
      have hsets := (inOrder_perm innerSets).length_eq
      refine ⟨hnesting, hpos, ?_, ?_, fun i hi => hinner i ((inOrder_perm innerSets).mem_iff.mp hi)⟩
      · rw [hvalidators, hsets, hlength]
        exact hthreshold
      · rw [hvalidators, hsets, hlength]
        exact hmajority

theorem Levels.normalizeQSet {depth : Nat} (h : Levels extraChecks depth q) :
    Levels extraChecks depth (normalizeQSet q none) := by
  induction h with
  | @mk depth q hnesting hpos hthreshold hmajority hinner ih =>
    have hlevels : Levels extraChecks depth q := ⟨hnesting, hpos, hthreshold, hmajority, hinner⟩
    rw [normalizeQSet_eq]
    refine hlevels.sortedLevel ?_ fun i hi => ?_
    · have hlength := length_merged_nested (q.innerSets.map (Scp.normalizeQSet · none))
      rw [length_map] at hlength
      rw [length_append, Nat.add_assoc, hlength]
    · obtain ⟨i', hi', rfl⟩ := mem_map.mp (mem_filter.mp hi).1
      exact ih i' hi'

theorem isQuorumSetSane_normalizeQSet (h : isQuorumSetSane q extraChecks = true) :
    isQuorumSetSane (normalizeQSet q none) extraChecks = true := by
  obtain ⟨hlevels, hnodup, hcount⟩ := (isQuorumSetSane_iff q extraChecks).mp h
  have hperm := forAllNodes_normalizeQSet q
  refine (isQuorumSetSane_iff _ _).mpr ⟨hlevels.normalizeQSet, hperm.nodup_iff.mpr hnodup, ?_⟩
  rw [hperm.length_eq]
  exact hcount

/-! ### A second pass changes nothing -/

/-- No level of the quorum set can be simplified, and all are in order. -/
inductive Normal : SCPQuorumSet → Prop where
  | mk {q : SCPQuorumSet} (inner : ∀ i ∈ q.innerSets, Normal i) (notSingle : ∀ i ∈ q.innerSets, single? i = none)
      (notLone : ¬(q.threshold = 1 ∧ q.validators = [] ∧ q.innerSets.length = 1))
      (validators : q.validators.insertionSort (· ≤ ·) = q.validators) (inOrder : inOrder q.innerSets = q.innerSets) :
      Normal q

theorem normal_normalizeQSet (q : SCPQuorumSet) : Normal (normalizeQSet q none) := by
  induction q using induction with
  | h q ih =>
    have hinner : ∀ i ∈ nested (q.innerSets.map (normalizeQSet · none)), Normal i ∧ single? i = none := by
      intro i hi
      obtain ⟨hi, hs⟩ := mem_filter.mp hi
      obtain ⟨i', hi', rfl⟩ := mem_map.mp hi
      exact ⟨ih i' hi', by simpa using hs⟩
    rw [normalizeQSet_eq]
    generalize nested (q.innerSets.map (normalizeQSet · none)) = innerSets at hinner ⊢
    generalize q.validators ++ merged (q.innerSets.map (normalizeQSet · none)) = validators
    rcases sortedLevel_cases q.threshold validators innerSets with ⟨-, -, i, rfl, hlevel⟩ | ⟨hlone, hlevel⟩
    · rw [hlevel]
      exact (hinner i (mem_singleton_self i)).1
    · rw [hlevel]
      have hperm := inOrder_perm innerSets
      refine ⟨fun i hi => (hinner i (hperm.mem_iff.mp hi)).1, fun i hi => (hinner i (hperm.mem_iff.mp hi)).2, ?_, ?_, ?_⟩
      · rintro ⟨hthreshold, hvalidators, hlength⟩
        refine hlone ⟨hthreshold, ?_, hperm.length_eq ▸ hlength⟩
        have := (perm_insertionSort (· ≤ ·) validators).symm
        rw [show validators.insertionSort (· ≤ ·) = [] from hvalidators] at this
        exact perm_nil.mp this
      · exact (pairwise_insertionSort (· ≤ ·) validators).insertionSort_eq
      · exact (inOrder_eq_of_perm hperm)

theorem Normal.normalizeQSet (h : Normal q) : normalizeQSet q none = q := by
  induction h with
  | @mk q _ hsingle hlone hvalidators hinOrder ih =>
    have hmap : q.innerSets.map (Scp.normalizeQSet · none) = q.innerSets := by
      refine (map_congr_left fun i hi => ?_).trans (map_id _)
      exact ih i hi
    have hmerged : merged q.innerSets = [] := filterMap_eq_nil_iff.mpr hsingle
    have hnested : nested q.innerSets = q.innerSets := filter_eq_self.mpr fun i hi => by simp [hsingle i hi]
    rw [normalizeQSet_eq, hmap, hmerged, hnested, append_nil]
    rcases sortedLevel_cases q.threshold q.validators q.innerSets with ⟨ht, hv, i, hi, -⟩ | ⟨-, hlevel⟩
    · exact absurd ⟨ht, hv, by rw [hi]; rfl⟩ hlone
    · rw [hlevel, hvalidators, hinOrder]
      cases q
      rfl

/-! ### The order does not matter -/

/-- Validators and inner sets are permuted, at any level. -/
inductive Rearranged : SCPQuorumSet → SCPQuorumSet → Prop where
  | validators {threshold : UInt32} {vs vs' : List NodeID} {is : List SCPQuorumSet} (h : vs.Perm vs') :
      Rearranged ⟨threshold, vs, is⟩ ⟨threshold, vs', is⟩
  | innerSets {threshold : UInt32} {vs : List NodeID} {is is' : List SCPQuorumSet} (h : is.Perm is') :
      Rearranged ⟨threshold, vs, is⟩ ⟨threshold, vs, is'⟩
  | within {threshold : UInt32} {vs : List NodeID} {before after : List SCPQuorumSet} {i i' : SCPQuorumSet}
      (h : Rearranged i i') : Rearranged ⟨threshold, vs, before ++ i :: after⟩ ⟨threshold, vs, before ++ i' :: after⟩
  | trans {q q' q'' : SCPQuorumSet} (h : Rearranged q q') (h' : Rearranged q' q'') : Rearranged q q''

theorem sortedLevel_eq_of_perm {threshold : UInt32} {validators validators' : List NodeID}
    {innerSets innerSets' : List SCPQuorumSet} (hvalidators : validators.Perm validators')
    (hinnerSets : innerSets.Perm innerSets') :
    sortedLevel threshold validators innerSets = sortedLevel threshold validators' innerSets' := by
  have hsorted :=
    Perm.eq_of_pairwise (fun _ _ _ _ => le_antisymm) (pairwise_insertionSort _ _) (pairwise_insertionSort _ _)
      (((perm_insertionSort _ _).trans hvalidators).trans (perm_insertionSort _ _).symm)
  rcases sortedLevel_cases threshold validators innerSets with ⟨ht, rfl, i, rfl, hlevel⟩ | ⟨hlone, hlevel⟩
  · rw [singleton_perm.mp hinnerSets, nil_perm.mp hvalidators]
  · rcases sortedLevel_cases threshold validators' innerSets' with ⟨ht, rfl, i, rfl, -⟩ | ⟨-, hlevel'⟩
    · exact absurd ⟨ht, perm_nil.mp hvalidators, hinnerSets.length_eq⟩ hlone
    · rw [hlevel, hlevel', hsorted, inOrder_eq_of_perm hinnerSets]

theorem Rearranged.normalizeQSet {q' : SCPQuorumSet} (h : Rearranged q q') :
    normalizeQSet q none = normalizeQSet q' none := by
  induction h with
  | validators h =>
    rw [normalizeQSet_eq, normalizeQSet_eq]
    exact sortedLevel_eq_of_perm (h.append_right _) (.refl _)
  | innerSets h =>
    have hmap := h.map (Scp.normalizeQSet · none)
    rw [normalizeQSet_eq, normalizeQSet_eq]
    exact sortedLevel_eq_of_perm ((hmap.filterMap _).append_left _) (hmap.filter _)
  | within _ ih =>
    rw [normalizeQSet_eq, normalizeQSet_eq]
    rw [map_append, map_append, map_cons, map_cons, ih]
  | trans _ _ ih ih' => exact ih.trans ih'

/-- **`normalizeQSet` gives a sane quorum set its normal form**: the same node sets satisfy and
block it, it is sane, it is its own normal form, and it is that of every rearrangement. -/
theorem normalizeQSet_canonical (q : SCPQuorumSet) (extraChecks : Bool) (hsane : isQuorumSetSane q extraChecks = true) :
    (∀ S, isQuorumSlice (normalizeQSet q none) S = isQuorumSlice q S ∧ isVBlocking (normalizeQSet q none) S = isVBlocking q S) ∧
    isQuorumSetSane (normalizeQSet q none) extraChecks = true ∧
    normalizeQSet (normalizeQSet q none) none = normalizeQSet q none ∧
    ∀ q', Rearranged q q' → normalizeQSet q' none = normalizeQSet q none :=
  ⟨fun S => ⟨isQuorumSlice_normalizeQSet q S, isVBlocking_normalizeQSet q S⟩, isQuorumSetSane_normalizeQSet hsane,
    (normal_normalizeQSet q).normalizeQSet, fun _ h => h.normalizeQSet.symm⟩

/-- One of a lone inner set, in which a validator stands alone. -/
def loneInner : SCPQuorumSet := ⟨1, [], [⟨2, [5, 4], [⟨1, [3], []⟩]⟩]⟩

theorem normalizeQSet_canonical_loneInner :
    qSetCompareInt (normalizeQSet loneInner none) ⟨2, [3, 4, 5], []⟩ = 0 ∧
    isQuorumSetSane (normalizeQSet loneInner none) false = true :=
  ⟨by decide +kernel, (normalizeQSet_canonical loneInner false (by decide +kernel)).2.1⟩

end Diamnet.Scp
