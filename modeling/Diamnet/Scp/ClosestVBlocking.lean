import Diamnet.Scp.Slices

/-! The closest v-blocking set (`LocalNode::findClosestVBlocking`).

To block a quorum set as many entries have to be blocked as are left over the threshold, and one
more. Some are blocked already; of the others the cheapest are taken, a validator costing one node
and an inner set what it costs itself. As the validators come first and the inner sets follow by
size, the entries taken are a front part of all costs in order, and any other way to block the
quorum set pays at least as much (`sum_take_le`). -/
namespace Diamnet.Scp
open LocalNode List
namespace LocalNode

/-- The loop over entries: those already blocked are counted down and `none` says that they are
enough, the others are kept. -/
def tally {α β : Type} (f : α → Option β) : List α → UInt64 → Option (UInt64 × List β)
  | [], left => some (left, [])
  | a :: rest, left =>
    match f a with
    | none => if left - 1 = 0 then none else tally f rest (left - 1)
    | some b => (tally f rest left).map fun r => (r.1, b :: r.2)

/-- The loop over the subsets, the smallest ones first. -/
def useSubsets : UInt64 → List (List NodeID) → List NodeID
  | _, [] => []
  | left, v :: rest => if left = 0 then [] else v ++ useSubsets (left - 1) rest

/-- Use the validators to get closer, then the subsets. -/
def getCloser (leftTillBlock : UInt64) (res : List NodeID) (resInternals : List (List NodeID)) : List NodeID :=
  let res := if res.length > leftTillBlock.toNat then res.take leftTillBlock.toNat else res
  let leftTillBlock := leftTillBlock - UInt64.ofNat res.length
  res ++ useSubsets leftTillBlock (resInternals.insertionSort fun v1 v2 => v1.length ≤ v2.length)

mutual
def findClosestVBlocking (nodes : List NodeID) (excluded : Option NodeID) : SCPQuorumSet → List NodeID
  | ⟨threshold, validators, innerSets⟩ =>
    let leftTillBlock := UInt64.ofNat (1 + validators.length + innerSets.length) - threshold.toUInt64
    match tally (fun v => if v ∈ nodes then some v else none) (validators.filter fun v => some v ≠ excluded)
      leftTillBlock with
    | none => []
    | some (leftTillBlock, res) =>
      match tally (fun v => if v.length = 0 then none else some v) (findClosestInner nodes excluded innerSets)
        leftTillBlock with
      | none => []
      | some (leftTillBlock, resInternals) => getCloser leftTillBlock res resInternals

def findClosestInner (nodes : List NodeID) (excluded : Option NodeID) : List SCPQuorumSet → List (List NodeID)
  | [] => []
  | inner :: rest => findClosestVBlocking nodes excluded inner :: findClosestInner nodes excluded rest
end

theorem findClosestInner_eq (nodes : List NodeID) (excluded : Option NodeID) (innerSets : List SCPQuorumSet) :
    findClosestInner nodes excluded innerSets = innerSets.map (findClosestVBlocking nodes excluded) := by
  induction innerSets with
  | nil => rfl
  | cons inner rest ih => rw [findClosestInner, ih, map_cons]

/-! ### The loops -/

theorem uint64_pred {left : UInt64} (h : left ≠ 0) : (left - 1).toNat = left.toNat - 1 := by
  have hpos : left.toNat ≠ 0 := fun h0 => h (UInt64.toNat_inj.mp h0)
  refine UInt64.toNat_sub_of_le left 1 (UInt64.le_iff_toNat_le.mpr ?_)
  show 1 ≤ left.toNat
  omega

theorem tally_eq {α β : Type} (f : α → Option β) (l : List α) {left : UInt64} (h : left ≠ 0) :
    if l.countP (fun a => (f a).isNone) < left.toNat then
      ∃ left', tally f l left = some (left', l.filterMap f) ∧ left'.toNat = left.toNat - l.countP (fun a => (f a).isNone)
    else tally f l left = none := by
  induction l generalizing left with
  | nil =>
    have hpos : left.toNat ≠ 0 := fun h0 => h (UInt64.toNat_inj.mp h0)
    rw [countP_nil, if_pos (by omega)]
    exact ⟨left, rfl, rfl⟩
  | cons a rest ih =>
    cases hf : f a with
    | none =>
      have hpred := uint64_pred h
      rw [countP_cons_of_pos (by simp [hf]), tally, hf]
      by_cases hzero : left - 1 = 0
      · rw [hzero] at hpred
        rw [if_pos hzero, if_neg (by simp at hpred; omega)]
      · have ih := ih hzero
        rw [if_neg hzero, filterMap_cons_none hf]
        by_cases hlt : rest.countP (fun a => (f a).isNone) < (left - 1).toNat
        · rw [if_pos hlt] at ih
          obtain ⟨left', hrun, hleft⟩ := ih
          rw [if_pos (by omega)]
          exact ⟨left', hrun, by omega⟩
        · rw [if_neg hlt] at ih
          rw [if_neg (by omega)]
          exact ih
    | some b =>
      have ih := ih h
      rw [countP_cons_of_neg (by simp [hf]), tally, hf]
      by_cases hlt : rest.countP (fun a => (f a).isNone) < left.toNat
      · rw [if_pos hlt] at ih ⊢
        obtain ⟨left', hrun, hleft⟩ := ih
        refine ⟨left', ?_, hleft⟩
        rw [hrun, filterMap_cons_some hf]
        rfl
      · rw [if_neg hlt] at ih ⊢
        rw [ih]
        rfl

theorem useSubsets_eq (left : UInt64) (subsets : List (List NodeID)) :
    useSubsets left subsets = (subsets.take left.toNat).flatten := by
  induction subsets generalizing left with
  | nil => rw [useSubsets, take_nil, flatten_nil]
  | cons v rest ih =>
    rw [useSubsets]
    by_cases h : left = 0
    · rw [if_pos h, h]
      rfl
    · have hpos : left.toNat ≠ 0 := fun h0 => h (UInt64.toNat_inj.mp h0)
      obtain ⟨k, hk⟩ := Nat.exists_eq_succ_of_ne_zero hpos
      rw [if_neg h, ih, uint64_pred h, hk, Nat.succ_sub_one, take_succ_cons, flatten_cons]

abbrev bySize (subsets : List (List NodeID)) : List (List NodeID) :=
  subsets.insertionSort fun v1 v2 => v1.length ≤ v2.length

theorem bySize_perm (subsets : List (List NodeID)) : (bySize subsets).Perm subsets := perm_insertionSort _ _

theorem getCloser_eq (left : UInt64) (res : List NodeID) (resInternals : List (List NodeID)) :
    getCloser left res resInternals =
      res.take left.toNat ++ ((bySize resInternals).take (left.toNat - res.length)).flatten := by
  have hlt := left.toNat_lt
  unfold getCloser
  dsimp only
  rw [useSubsets_eq]
  by_cases h : res.length > left.toNat
  · have hzero : left - UInt64.ofNat (res.take left.toNat).length = 0 := by
      rw [length_take, min_eq_left h.le, UInt64.ofNat_toNat, UInt64.sub_self]
    rw [if_pos h, hzero, show left.toNat - res.length = 0 by omega]
    rfl
  · have hof := UInt64.toNat_ofNat_of_lt' (lt_of_le_of_lt (not_lt.mp h) hlt)
    have hle : UInt64.ofNat res.length ≤ left := by
      rw [UInt64.le_iff_toNat_le, hof]
      omega
    have hres := take_of_length_le (not_lt.mp h)
    rw [if_neg h, UInt64.toNat_sub_of_le _ _ hle, hof, hres]

/-! ### What is taken -/

variable (S : List NodeID)

abbrev present (q : SCPQuorumSet) : List NodeID := q.validators.filter (· ∈ S)

/-- What it takes to block the inner sets that are not blocked. -/
abbrev unblocked (q : SCPQuorumSet) : List (List NodeID) :=
  (q.innerSets.map (findClosestVBlocking S none)).filter (· ≠ [])

abbrev missing (q : SCPQuorumSet) : Nat :=
  1 + (present S q).length + (unblocked S q).length - q.threshold.toNat

variable {S} {extraChecks : Bool} {depth : Nat} {q : SCPQuorumSet}

theorem countP_absent (l : List NodeID) :
    l.countP (fun v => (if v ∈ S then some v else none : Option NodeID).isNone) + (l.filter (· ∈ S)).length = l.length := by
  rw [← countP_eq_length_filter]
  exact countP_compl fun v _ => by by_cases h : v ∈ S <;> simp [h]

theorem countP_blocked (l : List (List NodeID)) :
    l.countP (fun v => (if v.length = 0 then none else some v : Option (List NodeID)).isNone) + (l.filter (· ≠ [])).length =
      l.length := by
  rw [← countP_eq_length_filter]
  exact countP_compl fun v _ => by cases v <;> simp

/-- **The entries taken are the cheapest**, as many as are missing. -/
theorem findClosestVBlocking_eq (h : Levels extraChecks depth q) (hsize : (forAllNodes q).length ≤ 1000) :
    findClosestVBlocking S none q = (present S q).take (missing S q) ++
      ((bySize (unblocked S q)).take (missing S q - (present S q).length)).flatten := by
  have hentries := h.entries_le.trans hsize
  have hpos := h.threshold_pos
  have hthreshold := h.threshold_le
  obtain ⟨threshold, validators, innerSets⟩ := q
  dsimp only at hentries hpos hthreshold
  have hvalidators := countP_absent (S := S) validators
  have hinner := countP_blocked (innerSets.map (findClosestVBlocking S none))
  rw [length_map] at hinner
  have hfilter : validators.filter (fun v => decide (some v ≠ none)) = validators :=
    filter_eq_self.mpr fun v _ => by simp
  have hkept : validators.filterMap (fun v => if v ∈ S then some v else none) = validators.filter (· ∈ S) := by
    rw [← filterMap_eq_filter]
    exact filterMap_congr fun v _ => by simp [Option.guard]
  have hkept' : ∀ l : List (List NodeID), l.filterMap (fun v => if v.length = 0 then none else some v) = l.filter (· ≠ []) := by
    intro l
    rw [← filterMap_eq_filter]
    refine filterMap_congr fun v _ => ?_
    cases v <;> simp [Option.guard]
  set left := UInt64.ofNat (1 + validators.length + innerSets.length) - threshold.toUInt64 with hleft
  have hleftNat : left.toNat = 1 + validators.length + innerSets.length - threshold.toNat := by
    have hof : (UInt64.ofNat (1 + validators.length + innerSets.length)).toNat = 1 + validators.length + innerSets.length :=
      UInt64.toNat_ofNat_of_lt' (lt_of_le_of_lt (by omega : _ ≤ 1001) (by decide))
    rw [hleft, UInt64.toNat_sub_of_le, hof, UInt32.toNat_toUInt64]
    rw [UInt64.le_iff_toNat_le, hof, UInt32.toNat_toUInt64]
    omega
  have hne : left ≠ 0 := by
    intro h0
    rw [h0] at hleftNat
    simp at hleftNat
    omega
  have htally := tally_eq (fun v => if v ∈ S then some v else none) validators hne
  unfold findClosestVBlocking
  dsimp only
  rw [hfilter, ← hleft, findClosestInner_eq]
  split at htally
  case isFalse hmany =>
    rw [htally]
    have hzero : missing S ⟨threshold, validators, innerSets⟩ = 0 := by
      dsimp only [missing, present, unblocked]
      omega
    rw [hzero, Nat.zero_sub]
    rfl
  case isTrue hfew =>
    obtain ⟨left₁, hrun₁, hleft₁⟩ := htally
    rw [hrun₁, hkept]
    dsimp only
    have hne₁ : left₁ ≠ 0 := by
      intro h0
      rw [h0] at hleft₁
      simp at hleft₁
      omega
    have htally₁ := tally_eq (fun v : List NodeID => if v.length = 0 then none else some v)
      (innerSets.map (findClosestVBlocking S none)) hne₁
    split at htally₁
    case isFalse hmany =>
      rw [htally₁]
      have hzero : missing S ⟨threshold, validators, innerSets⟩ = 0 := by
        dsimp only [missing, present, unblocked]
        omega
      rw [hzero, Nat.zero_sub]
      rfl
    case isTrue hfew₁ =>
      obtain ⟨left₂, hrun₂, hleft₂⟩ := htally₁
      have hmissing : left₂.toNat = missing S ⟨threshold, validators, innerSets⟩ := by
        dsimp only [missing, present, unblocked]
        omega
      rw [hrun₂, hkept']
      dsimp only
      rw [getCloser_eq, hmissing]

/-! ### The cost of blocking -/

theorem sum_take_le {costs paid : List Nat} (hsorted : costs.Pairwise (· ≤ ·)) (hpaid : paid.Sublist costs) {k : Nat}
    (hk : k ≤ paid.length) : (costs.take k).sum ≤ paid.sum := by
  induction hpaid generalizing k with
  | slnil => simp
  | @cons paid costs a hpaid ih =>
    -- the least cost is not paid, but another one is instead
    obtain ⟨hleast, hsorted⟩ := pairwise_cons.mp hsorted
    cases k with
    | zero => simp
    | succ k =>
      have hlt := hk.trans hpaid.length_le
      have ih := ih hsorted hk
      rw [take_succ_eq_append_getElem hlt, sum_append, sum_singleton] at ih
      have := hleast _ (getElem_mem hlt)
      rw [take_succ_cons, sum_cons]
      omega
  | @cons_cons paid costs a hpaid ih =>
    cases k with
    | zero => simp
    | succ k =>
      exact Nat.add_le_add_left (ih (pairwise_cons.mp hsorted).2 (Nat.le_of_succ_le_succ hk)) a

theorem sum_take_le_of_subperm {costs paid : List Nat} (hsorted : costs.Pairwise (· ≤ ·)) (hpaid : paid.Subperm costs)
    {k : Nat} (hk : k ≤ paid.length) : (costs.take k).sum ≤ paid.sum := by
  obtain ⟨paid', hperm, hsub⟩ := hpaid
  rw [← hperm.sum_eq]
  exact sum_take_le hsorted hsub (hperm.length_eq ▸ hk)

/-- What blocking costs: one for each validator, and what the inner sets cost, in order. -/
def costsOf (S : List NodeID) (q : SCPQuorumSet) : List Nat :=
  (present S q).map (fun _ => 1) ++ (bySize (unblocked S q)).map length

theorem costsOf_sorted (S : List NodeID) (q : SCPQuorumSet) : (costsOf S q).Pairwise (· ≤ ·) := by
  have hpos : ∀ c ∈ (bySize (unblocked S q)).map length, 1 ≤ c := by
    intro c hc
    obtain ⟨v, hv, rfl⟩ := mem_map.mp hc
    have hv := (mem_filter.mp ((mem_insertionSort _).mp hv)).2
    exact length_pos_iff.mpr (by simpa using hv)
  refine pairwise_append.mpr ⟨?_, ?_, ?_⟩
  · exact pairwise_map.mpr (pairwise_of_forall fun _ _ => le_rfl)
  · exact pairwise_map.mpr (pairwise_insertionSort _ _)
  · intro a ha b hb
    obtain ⟨_, _, rfl⟩ := mem_map.mp ha
    exact hpos b hb

theorem length_taken (V : List NodeID) (K : List (List NodeID)) (k : Nat) :
    (V.take k ++ (K.take (k - V.length)).flatten).length = ((V.map (fun _ => 1) ++ K.map length).take k).sum := by
  rw [length_append, length_flatten, take_append, sum_append, length_map, ← map_take,
    ← map_take]
  simp

/-! ### What is found -/

/-- Nodes of the set without which it contains no slice, and as few of them as possible. -/
structure Closest (S : List NodeID) (q : SCPQuorumSet) (r : List NodeID) : Prop where
  subperm : r.Subperm (forAllNodes q)
  mem : ∀ n ∈ r, n ∈ S
  blocks : isQuorumSlice q (S.filter (· ∉ r)) = false
  least : ∀ T : List NodeID, isQuorumSlice q (S.filter (· ∉ T)) = false → r.length ≤ (forAllNodes q).countP (· ∈ T)

namespace Closest

theorem eq_nil_iff {r : List NodeID} (h : Closest S q r) : r = [] ↔ isQuorumSlice q S = false := by
  have hnil : S.filter (· ∉ ([] : List NodeID)) = S := filter_eq_self.mpr fun n _ => by simp
  constructor
  · intro hr
    have hblocks := h.blocks
    rwa [hr, hnil] at hblocks
  · intro hS
    have hleast := h.least [] (by rwa [hnil])
    simpa using hleast

/-- Without what is found nothing satisfies the quorum set, whatever else is gone. -/
theorem unsatisfied {r : List NodeID} (h : Closest S q r) {U : List NodeID} (hU : ∀ n ∈ U, n ∈ S ∧ n ∉ r) :
    isQuorumSlice q U = false := by
  rw [Bool.eq_false_iff]
  intro hslice
  refine absurd (isQuorumSlice_mono (fun n hn => ?_) q hslice) (Bool.eq_false_iff.mp h.blocks)
  exact mem_filter.mpr ⟨(hU n hn).1, by simpa using (hU n hn).2⟩

end Closest

theorem flatMap_subperm {α β : Type} {l : List α} {f g : α → List β} (h : ∀ a ∈ l, (f a).Subperm (g a)) :
    (l.flatMap f).Subperm (l.flatMap g) := by
  induction l with
  | nil => exact Subperm.refl []
  | cons a rest ih =>
    exact (h a (.head _)).append (ih fun b hb => h b (.tail _ hb))

theorem countP_notMem_take_le {α : Type} [BEq α] [LawfulBEq α] (l : List α) (k : Nat) :
    l.countP (fun a => decide (a ∉ l.take k)) ≤ l.length - k := by
  calc l.countP (fun a => decide (a ∉ l.take k))
      = (l.take k ++ l.drop k).countP (fun a => decide (a ∉ l.take k)) := by rw [take_append_drop]
    _ = (l.drop k).countP (fun a => decide (a ∉ l.take k)) := by
        rw [countP_append, Nat.add_eq_right]
        exact countP_eq_zero.mpr fun a ha => by simpa using ha
    _ ≤ l.length - k := by
        rw [← length_drop]
        exact countP_le_length

section Step
variable (hinner : ∀ i ∈ q.innerSets, Closest S i (findClosestVBlocking S none i))
include hinner

theorem taken_subperm (k m : Nat) :
    ((present S q).take k ++ ((bySize (unblocked S q)).take m).flatten).Subperm (forAllNodes q) := by
  rw [forAllNodes_eq]
  refine Subperm.append ?_ ?_
  · exact ((take_sublist _ _).trans filter_sublist).subperm
  · have hopen : ((bySize (unblocked S q)).take m).flatten.Subperm (unblocked S q).flatten :=
      ((take_sublist m _).flatten.subperm).trans (bySize_perm _).flatten.subperm
    have hall : (unblocked S q).flatten.Subperm (q.innerSets.flatMap (findClosestVBlocking S none)) := by
      exact filter_sublist.flatten.subperm
    exact (hopen.trans hall).trans (flatMap_subperm fun i hi => (hinner i hi).subperm)

theorem taken_mem (k m : Nat) : ∀ n ∈ (present S q).take k ++ ((bySize (unblocked S q)).take m).flatten, n ∈ S := by
  intro n hn
  rcases mem_append.mp hn with hn | hn
  · simpa using (mem_filter.mp (mem_of_mem_take hn)).2
  · obtain ⟨v, hv, hn⟩ := mem_flatten.mp hn
    have hv := (mem_insertionSort _).mp (mem_of_mem_take hv)
    obtain ⟨i, hi, rfl⟩ := mem_map.mp (mem_filter.mp hv).1
    exact (hinner i hi).mem n hn

theorem entriesMet_taken_le (k m : Nat) {U : List NodeID}
    (hU : ∀ n ∈ U, n ∈ S ∧ n ∉ (present S q).take k ++ ((bySize (unblocked S q)).take m).flatten) :
    entriesMet q U (isQuorumSlice · U) ≤ (present S q).length - k + ((unblocked S q).length - m) := by
  set V := present S q
  set K := unblocked S q with hK
  refine Nat.add_le_add ?_ ?_
  · -- the validators taken are gone
    calc q.validators.countP (fun v => decide (v ∈ U))
        ≤ V.countP (fun v => decide (v ∉ V.take k)) := by
          rw [countP_filter]
          refine countP_mono_left fun v _ hv => ?_
          have hv := hU v (by simpa using hv)
          simp only [Bool.and_eq_true, decide_eq_true_eq]
          exact ⟨fun h => hv.2 (mem_append_left _ h), hv.1⟩
      _ ≤ V.length - k := countP_notMem_take_le V k
  · -- an inner set that is satisfied is not blocked, and what it costs is not taken
    calc q.innerSets.countP (isQuorumSlice · U)
        ≤ K.countP (fun v => decide (v ∉ (bySize K).take m)) := by
          rw [hK, countP_filter, countP_map]
          refine countP_mono_left fun i hi hsat => ?_
          simp only [Function.comp_apply, Bool.and_eq_true, decide_eq_true_eq]
          constructor
          · intro hv
            have := (hinner i hi).unsatisfied fun n hn => ⟨(hU n hn).1, fun hmem =>
              (hU n hn).2 (mem_append_right _ (mem_flatten.mpr ⟨_, hv, hmem⟩))⟩
            rw [this] at hsat
            cases hsat
          · intro hnil
            have := (hinner i hi).unsatisfied fun n hn => ⟨(hU n hn).1, by rw [hnil]; exact not_mem_nil⟩
            rw [this] at hsat
            cases hsat
      _ = (bySize K).countP (fun v => decide (v ∉ (bySize K).take m)) := ((bySize_perm K).countP_eq _).symm
      _ ≤ K.length - m := (bySize_perm K).length_eq ▸ countP_notMem_take_le (bySize K) m

/-- **Blocking costs at least what is taken**: the entries that a set blocks are paid for by its
own nodes. -/
theorem sum_costs_le (hlevels : Levels extraChecks depth q) {T : List NodeID}
    (hT : isQuorumSlice q (S.filter (· ∉ T)) = false) :
    ((costsOf S q).take (missing S q)).sum ≤ (forAllNodes q).countP (· ∈ T) := by
  set U := S.filter (· ∉ T) with hU
  set find := findClosestVBlocking S none
  set I := q.innerSets.filter (fun i => decide (find i ≠ [])) with hI
  have hK : unblocked S q = I.map find := by
    rw [unblocked, filter_map]
    rfl
  set paidV := (present S q).filter (· ∈ T) with hpaidV
  set paidI := I.filter (fun i => !isQuorumSlice i U) with hpaidI
  -- what is left of the entries does not reach the threshold
  have hfew : (present S q).countP (fun v => decide (v ∉ T)) + I.countP (isQuorumSlice · U) < q.threshold.toNat := by
    have hmet : entriesMet q U (isQuorumSlice · U) < q.threshold.toNat := by
      rw [← hlevels.due_eq, ← not_le, ← LocalNode.isQuorumSlice_iff, hT]
      exact Bool.false_ne_true
    refine lt_of_le_of_lt (Nat.add_le_add ?_ filter_sublist.countP_le) hmet
    rw [countP_filter]
    refine countP_mono_left fun v _ hv => ?_
    simp only [Bool.and_eq_true, decide_eq_true_eq] at hv
    simpa [hU] using ⟨hv.2, hv.1⟩
  have hlenV : (present S q).countP (fun v => decide (v ∉ T)) + paidV.length = (present S q).length := by
    rw [hpaidV, ← countP_eq_length_filter]
    exact countP_compl fun v _ => by simp
  have hlenI : I.countP (isQuorumSlice · U) + paidI.length = I.length := by
    rw [hpaidI, ← countP_eq_length_filter]
    exact countP_compl fun i _ => by simp
  have hpaid : (paidV.map (fun _ => 1) ++ paidI.map fun i => (find i).length).Subperm (costsOf S q) := by
    refine Subperm.append (filter_sublist.map _).subperm ?_
    have hperm : ((bySize (unblocked S q)).map length).Perm (I.map fun i => (find i).length) := by
      refine ((bySize_perm _).map _).trans (Perm.of_eq ?_)
      rw [hK, map_map]
      rfl
    exact (filter_sublist.map _).subperm.trans hperm.symm.subperm
  refine (sum_take_le_of_subperm (costsOf_sorted S q) hpaid ?_).trans ?_
  · rw [length_append, length_map, length_map, missing, hK, length_map]
    omega
  · rw [sum_append, forAllNodes_eq, countP_append, countP_flatMap]
    refine Nat.add_le_add ?_ ?_
    · calc (paidV.map fun _ => 1).sum = paidV.length := by simp
        _ = (present S q).countP (fun v => decide (v ∈ T)) := countP_eq_length_filter.symm
        _ ≤ q.validators.countP (fun v => decide (v ∈ T)) := filter_sublist.countP_le
    · calc (paidI.map fun i => (find i).length).sum
          ≤ (paidI.map fun i => (forAllNodes i).countP (fun n => decide (n ∈ T))).sum := by
            refine sum_le_sum fun i hi => ?_
            obtain ⟨hi, hnot⟩ := mem_filter.mp hi
            exact (hinner i (mem_filter.mp hi).1).least T (by rw [← hU]; simpa using hnot)
        _ ≤ (q.innerSets.map fun i => (forAllNodes i).countP (fun n => decide (n ∈ T))).sum := by
            refine Sublist.sum_le_sum ((filter_sublist.trans filter_sublist).map _) fun _ _ => Nat.zero_le _

end Step

/-- **What `findClosestVBlocking` finds**, by induction on the nesting. -/
theorem closest_of_levels (h : Levels extraChecks depth q) (hsize : (forAllNodes q).length ≤ 1000) :
    Closest S q (findClosestVBlocking S none q) := by
  induction h with
  | @mk depth q hnesting hpos hthreshold hmajority hinner ih =>
    have hlevels : Levels extraChecks depth q := ⟨hnesting, hpos, hthreshold, hmajority, hinner⟩
    have hclosest : ∀ i ∈ q.innerSets, Closest S i (findClosestVBlocking S none i) :=
      fun i hi => ih i hi ((length_forAllNodes_inner hi).trans hsize)
    rw [findClosestVBlocking_eq hlevels hsize]
    refine ⟨taken_subperm hclosest _ _, taken_mem hclosest _ _, ?_, fun T hT => ?_⟩
    · rw [Bool.eq_false_iff, ne_eq, LocalNode.isQuorumSlice_iff, hlevels.due_eq, not_le]
      have hmet := entriesMet_taken_le hclosest (missing S q) (missing S q - (present S q).length)
        (U := S.filter (· ∉ (present S q).take (missing S q) ++
          ((bySize (unblocked S q)).take (missing S q - (present S q).length)).flatten))
        fun n hn => by simpa using hn
      have hpos := hlevels.threshold_pos
      refine lt_of_le_of_lt hmet ?_
      dsimp only [missing]
      omega
    · rw [length_taken]
      exact sum_costs_le hclosest hlevels hT

/-- **The set found is a smallest one**: members of the set, none twice, without which the set
satisfies no slice, and no fewer members would do. -/
theorem findClosestVBlocking_least (q : SCPQuorumSet) (extraChecks : Bool) (hsane : isQuorumSetSane q extraChecks = true)
    (S : List NodeID) :
    (findClosestVBlocking S none q).Nodup ∧ (∀ n ∈ findClosestVBlocking S none q, n ∈ S) ∧
    ¬ContainsSlice q (S.filter (· ∉ findClosestVBlocking S none q)) ∧
    (∀ T : Finset NodeID, (∀ n ∈ T, n ∈ S) → ¬ContainsSlice q (S.filter (· ∉ T)) →
      (findClosestVBlocking S none q).length ≤ T.card) ∧
    (findClosestVBlocking S none q = [] ↔ ¬ContainsSlice q S) := by
  obtain ⟨hlevels, hnodup, -, hsize⟩ := (isQuorumSetSane_iff q extraChecks).mp hsane
  have hclosest : Closest S q _ := closest_of_levels hlevels hsize
  obtain ⟨found, hperm, hsub⟩ := hclosest.subperm
  have hslice : ∀ U, isQuorumSlice q U = false ↔ ¬ContainsSlice q U := fun U => by
    rw [← hlevels.isQuorumSlice_iff, Bool.not_eq_true]
  refine ⟨hperm.nodup_iff.mp (hnodup.sublist hsub), hclosest.mem, (hslice _).mp hclosest.blocks, fun T _ hT => ?_,
    hclosest.eq_nil_iff.trans (hslice S)⟩
  have hleast := hclosest.least T.toList ((hslice _).mpr (by simpa using hT))
  refine hleast.trans ?_
  rw [countP_eq_length_filter, ← toFinset_card_of_nodup (hnodup.filter _)]
  refine Finset.card_le_card fun n hn => ?_
  simpa using (mem_filter.mp (mem_toFinset.mp hn)).2

theorem findClosestVBlocking_least_inner :
    findClosestVBlocking [1, 2, 3, 4] none twoAndInner = [1, 2] ∧
    (findClosestVBlocking [1, 3, 4] none twoAndInner).Nodup :=
  ⟨by decide +kernel, (findClosestVBlocking_least twoAndInner false (by decide +kernel) [1, 3, 4]).1⟩

end LocalNode
end Diamnet.Scp
