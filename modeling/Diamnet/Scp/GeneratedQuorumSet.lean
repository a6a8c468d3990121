import Diamnet.Scp.NormalForm
import Mathlib.Data.String.Basic

/-! Quorum sets that are generated from a list of validators (`Config.cpp`).

The validators of a home domain make an inner set, and those of each quality a level that has the
level of the next quality as one of its entries. All thresholds are majorities and there are four
qualities, so the set is sane with extra checks, which is enough for any two node sets that satisfy
it to intersect (`Levels.intersect`). -/
namespace Diamnet.Scp
open LocalNode List

inductive ValidatorQuality where
  | low
  | med
  | high
  | critical
deriving DecidableEq

def ValidatorQuality.toNat : ValidatorQuality → Nat
  | .low => 0
  | .med => 1
  | .high => 2
  | .critical => 3

structure ValidatorEntry where
  mName : String
  mHomeDomain : String
  mQuality : ValidatorQuality
  mKey : NodeID
deriving DecidableEq

inductive ValidationThresholdLevels where
  | simpleMajority
  | byzantineFaultTolerance
  | allRequired
deriving DecidableEq

def computeDefaultThreshold (qset : SCPQuorumSet) (thresholdLevel : ValidationThresholdLevels) : UInt32 :=
  let topSize := qset.validators.length + qset.innerSets.length
  if topSize = 0 then 0
  else if thresholdLevel = .simpleMajority ∧ qset.innerSets = [] then .ofNat (topSize - (topSize - 1) / 2)
  else if thresholdLevel = .allRequired then .ofNat topSize
  else .ofNat (topSize - (topSize - 1) / 3)

/-- The set, with the threshold that is computed for it. -/
def withThreshold (thresholdLevel : ValidationThresholdLevels) (vals : List NodeID) (innerSets : List SCPQuorumSet) :
    SCPQuorumSet :=
  ⟨computeDefaultThreshold ⟨0, vals, innerSets⟩ thresholdLevel, vals, innerSets⟩

def levelOf (curQuality : ValidatorQuality) (innerSets : List SCPQuorumSet) : SCPQuorumSet :=
  withThreshold (if curQuality = .critical then .allRequired else .byzantineFaultTolerance) [] innerSets

def domainOf (domain : List ValidatorEntry) : SCPQuorumSet := withThreshold .simpleMajority (domain.map (·.mKey)) []

/-- The loop over the validators of a quality, with the inner sets so far. -/
def generateQuorumSetHelper (curQuality : ValidatorQuality) (innerSets : List SCPQuorumSet) :
    List ValidatorEntry → Except String SCPQuorumSet
  | [] => pure (levelOf curQuality innerSets)
  | it :: rest =>
    if it.mQuality = curQuality then
      let domain := it :: rest.takeWhile (·.mHomeDomain = it.mHomeDomain)
      match domain.find? (·.mQuality ≠ it.mQuality) with
      | some it2 => throw ("Validators " ++ it.mName ++ " and " ++ it2.mName ++ " must have same quality")
      | none =>
        if domain.length < 3 ∧ (it.mQuality = .high ∨ it.mQuality = .critical) then
          throw ("Critical and High quality validators " ++ it.mName ++ " must have redundancy of at least 3")
        else
          generateQuorumSetHelper curQuality (innerSets ++ [domainOf domain])
            (rest.dropWhile (·.mHomeDomain = it.mHomeDomain))
    else if it.mQuality.toNat > curQuality.toNat then
      throw ("invalid validator quality for " ++ it.mName ++ " (must be ascending)")
    else do
      let lowQ ← generateQuorumSetHelper it.mQuality [] (it :: rest)
      return levelOf curQuality (innerSets ++ [lowQ])
termination_by todo => (todo.length, curQuality.toNat)
decreasing_by
  · exact .left _ _ (Nat.lt_succ_of_le (length_dropWhile_le _ _))
  · have hne : it.mQuality.toNat ≠ curQuality.toNat := by
      cases hq : it.mQuality <;> cases curQuality <;> simp_all [ValidatorQuality.toNat]
    exact .right _ (by omega)

/-- Validators are sorted by quality (desc), homedomain (asc). -/
def ValidatorEntry.place (v : ValidatorEntry) : ℕᵒᵈ ×ₗ String := toLex (.toDual v.mQuality.toNat, v.mHomeDomain)

def generateQuorumSet (validators : List ValidatorEntry) : Except String SCPQuorumSet := do
  let res ← generateQuorumSetHelper .critical [] (validators.insertionSort fun l r => l.place ≤ r.place)
  return normalizeQSet res none

/-! ### Sanity -/

theorem levels_withThreshold {level : ValidationThresholdLevels} {vals : List NodeID} {innerSets : List SCPQuorumSet}
    {depth : Nat} (hdepth : depth ≤ maximumQuorumNestingLevel) (hpos : 0 < vals.length + innerSets.length)
    (hsize : vals.length + innerSets.length < 2 ^ 32) (hinner : ∀ i ∈ innerSets, Levels true (depth + 1) i) :
    Levels true depth (withThreshold level vals innerSets) := by
  have hthreshold : ∃ t, computeDefaultThreshold ⟨0, vals, innerSets⟩ level = .ofNat t ∧
      t ≤ vals.length + innerSets.length ∧ vals.length + innerSets.length - t + 1 ≤ t := by
    unfold computeDefaultThreshold
    dsimp only
    repeat' split
    all_goals exact ⟨_, rfl, by omega, by omega⟩
  obtain ⟨t, ht, hle, hmajority⟩ := hthreshold
  have htoNat : (computeDefaultThreshold ⟨0, vals, innerSets⟩ level).toNat = t := by
    rw [ht, UInt32.toNat_ofNat']
    exact Nat.mod_eq_of_lt (by omega)
  refine .mk hdepth ?_ ?_ (fun _ => ?_) hinner
  · show 1 ≤ (computeDefaultThreshold _ _).toNat
    omega
  · show (computeDefaultThreshold _ _).toNat ≤ vals.length + innerSets.length
    omega
  · show vals.length + innerSets.length - (computeDefaultThreshold _ _).toNat + 1 ≤ (computeDefaultThreshold _ _).toNat
    omega

theorem forAllNodes_levelOf (quality : ValidatorQuality) (innerSets : List SCPQuorumSet) :
    forAllNodes (levelOf quality innerSets) = innerSets.flatMap forAllNodes := by
  rw [forAllNodes_eq]
  rfl

theorem forAllNodes_domainOf (domain : List ValidatorEntry) : forAllNodes (domainOf domain) = domain.map (·.mKey) := by
  exact append_nil _

/-- The levels of the qualities that are left are sane, and hold the validators that are left. -/
theorem generateQuorumSetHelper_sane (curQuality : ValidatorQuality) (innerSets : List SCPQuorumSet)
    (todo : List ValidatorEntry) {q : SCPQuorumSet} (h : generateQuorumSetHelper curQuality innerSets todo = .ok q)
    {depth : Nat} (hdepth : depth + curQuality.toNat ≤ 3) (hinner : ∀ i ∈ innerSets, Levels true (depth + 1) i)
    (hpos : 0 < innerSets.length + todo.length) (hsize : innerSets.length + todo.length < 2 ^ 32) :
    Levels true depth q ∧ (forAllNodes q).Perm (innerSets.flatMap forAllNodes ++ todo.map (·.mKey)) := by
  have hmax : maximumQuorumNestingLevel = 4 := rfl
  fun_induction generateQuorumSetHelper curQuality innerSets todo generalizing depth q with
  | case1 curQuality innerSets =>
    cases h
    rw [forAllNodes_levelOf]
    exact ⟨levels_withThreshold (by omega) (by simpa using hpos) (by simpa using hsize) hinner, by simp⟩
  | case2 => cases h
  | case3 => cases h
  | case4 innerSets it rest domain _ _ =>
    rename_i ih
    have hsplit : domain ++ rest.dropWhile (·.mHomeDomain = it.mHomeDomain) = it :: rest :=
      congrArg _ takeWhile_append_dropWhile
    have hlength := congrArg length hsplit
    have hdomain : 0 < domain.length := Nat.succ_pos _
    simp only [length_append, length_cons] at hlength hsize
    have hlevels : Levels true (depth + 1) (domainOf domain) :=
      levels_withThreshold (by omega) (by simpa using hdomain) (by simp; omega) (by simp)
    obtain ⟨hq, hperm⟩ := ih h hdepth (by simpa [or_imp, forall_and] using ⟨hinner, hlevels⟩) (by simp) (by simp; omega)
    refine ⟨hq, hperm.trans (.of_eq ?_)⟩
    rw [← hsplit]
    simp [forAllNodes_domainOf]
  | case5 => cases h
  | case6 curQuality innerSets it rest hne hle ih =>
    obtain ⟨lowQ, hlow, hres⟩ := bind_eq_ok.mp h
    cases hres
    have hlt : it.mQuality.toNat < curQuality.toNat := by
      refine lt_of_le_of_ne (not_lt.mp hle) ?_
      cases hq : it.mQuality <;> cases curQuality <;> simp_all [ValidatorQuality.toNat]
    obtain ⟨hlevels, hperm⟩ := @ih lowQ hlow (depth + 1) (by omega) (by simp) (by simp) (by simp at hsize ⊢; omega)
    refine ⟨levels_withThreshold (by omega) (by simp) (by simp at hsize ⊢; omega)
      (by simpa [or_imp, forall_and] using ⟨hinner, hlevels⟩), ?_⟩
    rw [forAllNodes_levelOf, flatMap_append]
    exact (by simpa using hperm : (flatMap forAllNodes [lowQ]).Perm _).append_left _

/-! ### Intersection -/

theorem countP_add_countP_le {α : Type} {p q : α → Bool} {l : List α} (h : ∀ a ∈ l, ¬(p a = true ∧ q a = true)) :
    l.countP p + l.countP q ≤ l.length := by
  induction l with
  | nil => simp
  | cons a l ih =>
    cases hp : p a <;> cases hq : q a <;> simp_all <;> omega

/-- **Node sets that satisfy a quorum set all of whose thresholds are majorities intersect.** -/
theorem Levels.intersect {depth : Nat} {q : SCPQuorumSet} (h : Levels true depth q) {S T : List NodeID}
    (hS : isQuorumSlice q S = true) (hT : isQuorumSlice q T = true) : ∃ v ∈ S, v ∈ T := by
  by_contra hdisjoint
  induction h with
  | @mk depth q hnesting hpos hle hmajority hlevels ih =>
    have hdue := (Levels.mk hnesting hpos hle hmajority hlevels).due_eq
    rw [LocalNode.isQuorumSlice_iff, hdue] at hS hT
    have hvalidators : q.validators.countP (fun v => decide (v ∈ S)) + q.validators.countP (fun v => decide (v ∈ T)) ≤
        q.validators.length := countP_add_countP_le fun v _ hv => hdisjoint ⟨v, by simpa using hv.1, by simpa using hv.2⟩
    have hinner := countP_add_countP_le fun i hi hmet => ih i hi hmet.1 hmet.2
    have := hmajority rfl
    unfold entriesMet at hS hT
    omega

/-! ### The order of the list -/

theorem place_eq_iff {v w : ValidatorEntry} :
    v.place = w.place ↔ v.mQuality = w.mQuality ∧ v.mHomeDomain = w.mHomeDomain := by
  have hinj : v.mQuality.toNat = w.mQuality.toNat ↔ v.mQuality = w.mQuality := by
    cases v.mQuality <;> cases w.mQuality <;> decide
  simp [ValidatorEntry.place, hinj]

/-- Two lists that differ in the order of validators with the same quality and home domain. -/
inductive Shuffled : List ValidatorEntry → List ValidatorEntry → Prop where
  | nil : Shuffled [] []
  | block {a a' : ValidatorEntry} {A A' B B' : List ValidatorEntry} (hperm : (a :: A).Perm (a' :: A'))
      (hplace : ∀ v ∈ a :: A, v.place = a.place) (hB : ∀ w ∈ B, w.place ≠ a.place) (h : Shuffled B B') :
      Shuffled (a :: (A ++ B)) (a' :: (A' ++ B'))

theorem sorted_split {l : List ValidatorEntry} {k : ℕᵒᵈ ×ₗ String} (hsorted : l.Pairwise fun v w => v.place ≤ w.place)
    (hk : ∀ v ∈ l, k ≤ v.place) : l = l.filter (·.place = k) ++ l.filter (·.place ≠ k) := by
  induction l with
  | nil => rfl
  | cons a l ih =>
    obtain ⟨ha, hl⟩ := pairwise_cons.mp hsorted
    obtain ⟨hka, hkl⟩ := forall_mem_cons.mp hk
    by_cases heq : a.place = k
    · simpa [heq] using ih hl hkl
    · have hne : ∀ v ∈ a :: l, v.place ≠ k := fun v hv hvk => heq (le_antisymm (by
        rcases mem_cons.mp hv with rfl | hv
        · exact hvk.le
        · exact hvk ▸ ha v hv) hka)
      rw [filter_eq_nil_iff.mpr (by simpa using hne), filter_eq_self.mpr (by simpa using hne), nil_append]

theorem shuffled_of_sorted (n : Nat) {l l' : List ValidatorEntry} (hlen : l.length ≤ n) (hperm : l.Perm l')
    (hl : l.Pairwise fun v w => v.place ≤ w.place) (hl' : l'.Pairwise fun v w => v.place ≤ w.place) : Shuffled l l' := by
  induction n generalizing l l' with
  | zero =>
    obtain rfl := length_eq_zero_iff.mp (Nat.le_zero.mp hlen)
    rw [← hperm.nil_eq]
    exact .nil
  | succ n ih =>
    cases l with
    | nil =>
      rw [← hperm.nil_eq]
      exact .nil
    | cons a t =>
      have hk : ∀ v ∈ a :: t, a.place ≤ v.place := by simpa using (pairwise_cons.mp hl).1
      have hsplit := sorted_split hl hk
      have hsplit' := sorted_split hl' fun v hv => hk v (hperm.mem_iff.mpr hv)
      have hfilter := hperm.filter (·.place = a.place)
      rw [filter_cons_of_pos (by simp)] at hfilter hsplit
      obtain ⟨a', A', hA'⟩ := exists_cons_of_ne_nil (fun h => by simpa [h] using hfilter.length_eq :
        l'.filter (·.place = a.place) ≠ [])
      rw [hA'] at hfilter hsplit'
      have hrest : ((a :: t).filter (·.place ≠ a.place)).length ≤ n := by
        rw [filter_cons_of_neg (by simp)]
        exact (length_filter_le _ t).trans (Nat.le_of_succ_le_succ hlen)
      rw [hsplit, hsplit']
      refine .block hfilter ?_ (by simp) (ih hrest (hperm.filter _) (hl.filter _) (hl'.filter _))
      simp

theorem generateQuorumSetHelper_block {curQuality : ValidatorQuality} {innerSets : List SCPQuorumSet} {a : ValidatorEntry}
    {A B : List ValidatorEntry} (hplace : ∀ v ∈ a :: A, v.place = a.place) (hB : ∀ w ∈ B, w.place ≠ a.place)
    (hquality : a.mQuality = curQuality) (q : SCPQuorumSet) :
    generateQuorumSetHelper curQuality innerSets (a :: (A ++ B)) = .ok q ↔
      (∀ b ∈ B.head?, b.mHomeDomain ≠ a.mHomeDomain) ∧
      ¬((a :: A).length < 3 ∧ (a.mQuality = .high ∨ a.mQuality = .critical)) ∧
      generateQuorumSetHelper curQuality (innerSets ++ [domainOf (a :: A)]) B = .ok q := by
  have hA : ∀ v ∈ A, v.mQuality = a.mQuality ∧ v.mHomeDomain = a.mHomeDomain := fun v hv =>
    place_eq_iff.mp (hplace v (.tail _ hv))
  rw [generateQuorumSetHelper, if_pos hquality, takeWhile_append_of_pos (by simpa using fun v hv => (hA v hv).2),
    dropWhile_append_of_pos (by simpa using fun v hv => (hA v hv).2)]
  have hnone : A.find? (fun x => !decide (x.mQuality = a.mQuality)) = none := by simpa using fun v hv => (hA v hv).1
  cases B with
  | nil => simp [hnone, refuse_eq_ok]
  | cons b B =>
    by_cases hdomain : b.mHomeDomain = a.mHomeDomain
    · have hne : b.mQuality ≠ a.mQuality := fun h => hB b (.head _) (place_eq_iff.mpr ⟨h, hdomain⟩)
      simp [find?_append, hnone, hdomain, hne]
    · simp [hnone, hdomain, refuse_eq_ok]

theorem Shuffled.perm {l l' : List ValidatorEntry} (h : Shuffled l l') : l.Perm l' := by
  induction h with
  | nil => exact .nil
  | block hperm _ _ _ ih => exact hperm.append ih

theorem Shuffled.head {l l' : List ValidatorEntry} (h : Shuffled l l') : ∀ b' ∈ l'.head?, ∃ b ∈ l.head?, b'.place = b.place := by
  cases h with
  | nil => simp
  | block hperm hplace => simpa using hplace _ (hperm.mem_iff.mpr (.head _))

/-- The validators of a domain may come in any order, the inner sets in any form. -/
theorem generateQuorumSetHelper_shuffled {l l' : List ValidatorEntry} (h : Shuffled l l') (curQuality : ValidatorQuality)
    {innerSets innerSets' : List SCPQuorumSet}
    (hinner : innerSets.map (normalizeQSet · none) = innerSets'.map (normalizeQSet · none)) {q : SCPQuorumSet}
    (hq : generateQuorumSetHelper curQuality innerSets l = .ok q) :
    ∃ q', generateQuorumSetHelper curQuality innerSets' l' = .ok q' ∧ normalizeQSet q none = normalizeQSet q' none := by
  have hlevel : ∀ {c : ValidatorQuality} {is is' : List SCPQuorumSet},
      is.map (normalizeQSet · none) = is'.map (normalizeQSet · none) →
      normalizeQSet (levelOf c is) none = normalizeQSet (levelOf c is') none := by
    intro c is is' his
    have hlen : is.length = is'.length := by simpa using congrArg length his
    have hnil : is = [] ↔ is' = [] := by rw [← length_eq_zero_iff, hlen, length_eq_zero_iff]
    rw [normalizeQSet_eq, normalizeQSet_eq]
    simp only [levelOf, withThreshold, computeDefaultThreshold, his, hlen, hnil]
  induction h generalizing curQuality innerSets innerSets' q with
  | nil =>
    rw [generateQuorumSetHelper] at hq ⊢
    cases hq
    exact ⟨_, rfl, hlevel hinner⟩
  | @block a a' A A' B B' hperm hplace hB hrest ih =>
    have ha' := hplace a' (hperm.mem_iff.mpr (.head _))
    obtain ⟨hquality, hdomain⟩ := place_eq_iff.mp ha'
    have hplace' : ∀ v ∈ a' :: A', v.place = a'.place := fun v hv => (hplace v (hperm.mem_iff.mpr hv)).trans ha'.symm
    have hB' : ∀ w ∈ B', w.place ≠ a'.place := fun w hw => ha' ▸ hB w (hrest.perm.mem_iff.mpr hw)
    have hsame : ∀ {is is' : List SCPQuorumSet}, is.map (normalizeQSet · none) = is'.map (normalizeQSet · none) →
        ∀ {q}, generateQuorumSetHelper a.mQuality is (a :: (A ++ B)) = .ok q →
        ∃ q', generateQuorumSetHelper a.mQuality is' (a' :: (A' ++ B')) = .ok q' ∧
          normalizeQSet q none = normalizeQSet q' none := by
      intro is is' his q hq
      obtain ⟨hhead, hlarge, hq⟩ := (generateQuorumSetHelper_block hplace hB rfl q).mp hq
      have hdomains : normalizeQSet (domainOf (a :: A)) none = normalizeQSet (domainOf (a' :: A')) none := by
        have hset : Rearranged (domainOf (a :: A)) (domainOf (a' :: A')) := by
          simp only [domainOf, withThreshold, computeDefaultThreshold, length_map, hperm.length_eq]
          exact .validators (hperm.map _)
        exact hset.normalizeQSet
      have hlist : (is ++ [domainOf (a :: A)]).map (normalizeQSet · none) =
          (is' ++ [domainOf (a' :: A')]).map (normalizeQSet · none) := by simp [his, hdomains]
      obtain ⟨q', hq', hnormal⟩ := ih a.mQuality hlist hq
      refine ⟨q', (generateQuorumSetHelper_block hplace' hB' hquality q').mpr ⟨fun b' hb' => ?_, ?_, hq'⟩, hnormal⟩
      · obtain ⟨b, hb, hbplace⟩ := hrest.head b' hb'
        rw [(place_eq_iff.mp hbplace).2, hdomain]
        exact hhead b hb
      · rwa [← hperm.length_eq, hquality]
    by_cases hcur : a.mQuality = curQuality
    · exact hcur ▸ hsame hinner (hcur ▸ hq)
    · rw [generateQuorumSetHelper, if_neg hcur] at hq
      split at hq
      · cases hq
      · rename_i hgt
        obtain ⟨lowQ, hlow, hres⟩ := bind_eq_ok.mp hq
        cases hres
        obtain ⟨lowQ', hlow', hnormal⟩ := hsame rfl hlow
        refine ⟨levelOf curQuality (innerSets' ++ [lowQ']), ?_, hlevel (by simp [hinner, hnormal])⟩
        rw [generateQuorumSetHelper, hquality, if_neg hcur, if_neg hgt, hlow']
        rfl

theorem generateQuorumSet_perm {validators validators' : List ValidatorEntry} (h : validators.Perm validators')
    {q : SCPQuorumSet} (hq : generateQuorumSet validators = .ok q) : generateQuorumSet validators' = .ok q := by
  obtain ⟨res, hres, hret⟩ := bind_eq_ok.mp hq
  have hsorted := pairwise_insertionSort fun l r : ValidatorEntry => l.place ≤ r.place
  obtain ⟨res', hres', hnormal⟩ := generateQuorumSetHelper_shuffled (shuffled_of_sorted _ le_rfl
    ((perm_insertionSort _ _).trans (h.trans (perm_insertionSort _ _).symm)) (hsorted _) (hsorted _))
    .critical rfl hres
  rw [generateQuorumSet, hres']
  cases hret
  rw [hnormal]
  rfl

/-- `U` satisfies the quorum set of each of its nodes. -/
def IsQuorum (qsets : NodeID → SCPQuorumSet) (U : List NodeID) : Prop :=
  U ≠ [] ∧ ∀ n ∈ U, isQuorumSlice (qsets n) U = true

/-- **Generated quorum sets are safe.** -/
theorem generateQuorumSet_safe {validators : List ValidatorEntry} (hne : validators ≠ [])
    (hmax : validators.length ≤ 1000) (hnodup : (validators.map (·.mKey)).Nodup) {q : SCPQuorumSet}
    (hq : generateQuorumSet validators = .ok q) :
    isQuorumSetSane q true = true ∧ (forAllNodes q).Perm (validators.map (·.mKey)) ∧
    (∀ validators', validators'.Perm validators → generateQuorumSet validators' = .ok q) ∧
    (∀ S T, isQuorumSlice q S = true → isQuorumSlice q T = true → ∃ v ∈ S, v ∈ T) ∧
    ∀ qsets : NodeID → SCPQuorumSet, (∀ n, ∃ l, l.Perm validators ∧ generateQuorumSet l = .ok (qsets n)) →
      ∀ U V, IsQuorum qsets U → IsQuorum qsets V → ∃ v ∈ U, v ∈ V := by
  obtain ⟨res, hres, hret⟩ := bind_eq_ok.mp hq
  cases hret
  have hsort := perm_insertionSort (fun l r : ValidatorEntry => l.place ≤ r.place) validators
  have hpos := length_pos_iff.mpr hne
  obtain ⟨hlevels, hperm⟩ := @generateQuorumSetHelper_sane _ _ _ _ hres 0 (by decide) (by simp)
    (by simpa using hpos) (by simp; omega)
  have hkeys := hperm.trans (by simpa using hsort.map _)
  have hsane : isQuorumSetSane res true = true := by
    refine (isQuorumSetSane_iff res true).mpr ⟨hlevels, hkeys.nodup_iff.mpr hnodup, ?_⟩
    rw [hkeys.length_eq, length_map]
    exact ⟨hpos, hmax⟩
  have hintersect : ∀ S T, isQuorumSlice (normalizeQSet res none) S = true →
      isQuorumSlice (normalizeQSet res none) T = true → ∃ v ∈ S, v ∈ T := by
    intro S T hS hT
    rw [isQuorumSlice_normalizeQSet] at hS hT
    exact hlevels.intersect hS hT
  refine ⟨isQuorumSetSane_normalizeQSet hsane, (forAllNodes_normalizeQSet res).trans hkeys,
    fun _ hv => generateQuorumSet_perm hv.symm hq, hintersect, ?_⟩
  intro qsets hqsets U V ⟨hU, hUslice⟩ ⟨hV, hVslice⟩
  have hall : ∀ n, qsets n = normalizeQSet res none := by
    intro n
    obtain ⟨l, hl, hn⟩ := hqsets n
    exact Except.ok.inj (hn.symm.trans (generateQuorumSet_perm hl.symm hq))
  obtain ⟨u, hu⟩ := exists_mem_of_ne_nil U hU
  obtain ⟨v, hv⟩ := exists_mem_of_ne_nil V hV
  exact hintersect U V (hall u ▸ hUslice u hu) (hall v ▸ hVslice v hv)

def twoValidators : List ValidatorEntry := [⟨"first", "home", .low, 0⟩, ⟨"second", "home", .low, 1⟩]

theorem generateQuorumSet_twoValidators : ∃ q, generateQuorumSet twoValidators = .ok q := by
  have hle : (⟨"first", "home", .low, 0⟩ : ValidatorEntry).place ≤ (⟨"second", "home", .low, 1⟩ : ValidatorEntry).place :=
    le_of_eq rfl
  simp [generateQuorumSet, generateQuorumSetHelper, twoValidators, hle, ValidatorQuality.toNat, pure, Except.pure]

theorem generateQuorumSet_safe_two :
    ∃ q, generateQuorumSet twoValidators = .ok q ∧ isQuorumSetSane q true = true := by
  obtain ⟨q, hq⟩ := generateQuorumSet_twoValidators
  exact ⟨q, hq, (generateQuorumSet_safe (by decide) (by decide) (by decide) hq).1⟩

end Diamnet.Scp
