import Diamnet.Bucket.BucketList

/-! At which ledgers the levels spill.

Level `i` spills at the multiples of `levelHalf i`, so at a ledger where it does all levels
below it do too. A merge that level `i` starts when the level before it spills is due when
that one spills next, and `shouldMergeWithEmptyCurr` says at every ledger in between whether
level `i` spills then as well. -/
namespace Diamnet.Buckets

theorem levelSize_eq (level : Nat) : levelSize level = 2 ^ (2 * level + 2) := by
  rw [levelSize, Nat.one_shiftLeft]
  ring_nf

theorem levelHalf_eq (level : Nat) : levelHalf level = 2 ^ (2 * level + 1) := by
  rw [levelHalf, levelSize_eq, Nat.shiftRight_one, pow_succ, Nat.mul_div_cancel _ two_pos]

theorem levelHalf_pos (level : Nat) : 0 < levelHalf level := by
  rw [levelHalf_eq]
  exact Nat.two_pow_pos _

theorem levelHalf_succ (level : Nat) : levelHalf (level + 1) = 4 * levelHalf level := by
  rw [levelHalf_eq, levelHalf_eq]
  ring

theorem mask_two_pow (v k : Nat) : mask v (2 ^ k) = v - v % 2 ^ k := by
  rw [mask, Nat.and_two_pow_sub_one_eq_mod]

theorem eq_mask_iff (v k : Nat) : v = mask v (2 ^ k) ↔ 2 ^ k ∣ v := by
  rw [mask_two_pow, Nat.dvd_iff_mod_eq_zero]
  have := Nat.mod_le v (2 ^ k)
  omega

theorem levelShouldSpill_iff (ledger level : Nat) :
    levelShouldSpill ledger level = true ↔ level ≠ kNumLevels - 1 ∧ levelHalf level ∣ ledger := by
  unfold levelShouldSpill
  by_cases h : level = kNumLevels - 1
  · simp [h]
  · rw [if_neg h, levelHalf_eq, levelSize_eq]
    simp only [Bool.or_eq_true, decide_eq_true_eq, eq_mask_iff, ne_eq, h, not_false_eq_true, true_and]
    refine or_iff_left_of_imp fun hsize => ?_
    exact (pow_dvd_pow 2 (by omega)).trans hsize

theorem levelShouldSpill_of_succ {ledger level : Nat} (hlevel : level + 1 < kNumLevels)
    (h : levelShouldSpill ledger (level + 1) = true) : levelShouldSpill ledger level = true := by
  obtain ⟨-, hdvd⟩ := (levelShouldSpill_iff _ _).mp h
  refine (levelShouldSpill_iff _ _).mpr ⟨by omega, Dvd.dvd.trans ?_ hdvd⟩
  rw [levelHalf_succ]
  exact Dvd.intro_left 4 rfl

theorem levelHalf_le_of_spill {ledger level : Nat} (hledger : 0 < ledger)
    (h : levelShouldSpill ledger level = true) : levelHalf level ≤ ledger :=
  Nat.le_of_dvd hledger ((levelShouldSpill_iff _ _).mp h).2

theorem mask_add_half (ledger level : Nat) :
    mask ledger (levelHalf level) + levelHalf level = levelHalf level * (ledger / levelHalf level + 1) := by
  rw [levelHalf_eq, mask_two_pow]
  have := Nat.div_add_mod ledger (2 ^ (2 * level + 1))
  rw [mul_add, mul_one]
  omega

theorem shouldMergeWithEmptyCurr_due {ledger level : Nat} (h : levelShouldSpill (ledger + 1) level = true) :
    shouldMergeWithEmptyCurr ledger (level + 1) = levelShouldSpill (ledger + 1) (level + 1) := by
  obtain ⟨-, q, hq⟩ := (levelShouldSpill_iff _ _).mp h
  have hdiv : ledger / levelHalf level + 1 = q := by
    have hq0 : 0 < q := Nat.pos_of_ne_zero fun h0 => by simp [h0] at hq
    obtain ⟨p, rfl⟩ := Nat.exists_eq_add_of_lt hq0
    congr 1
    refine Nat.div_eq_of_lt_le ?_ ?_
    · nlinarith
    · rw [Nat.mul_comm]
      omega
  simp only [shouldMergeWithEmptyCurr, ne_eq, Nat.add_eq_zero_iff, one_ne_zero, and_false, not_false_eq_true, if_true,
    Nat.add_sub_cancel]
  rw [mask_add_half, hdiv, ← hq]

theorem shouldMergeWithEmptyCurr_succ {ledger level : Nat} (hlevel : level ≠ kNumLevels - 1)
    (h : levelShouldSpill (ledger + 1) level = false) :
    shouldMergeWithEmptyCurr (ledger + 1) (level + 1) = shouldMergeWithEmptyCurr ledger (level + 1) := by
  have hndvd : ¬levelHalf level ∣ ledger + 1 := fun hdvd => by
    rw [(levelShouldSpill_iff _ _).mpr ⟨hlevel, hdvd⟩] at h
    cases h
  simp only [shouldMergeWithEmptyCurr, ne_eq, Nat.add_eq_zero_iff, one_ne_zero, and_false, not_false_eq_true, if_true,
    Nat.add_sub_cancel]
  rw [mask_add_half, mask_add_half, Nat.succ_div_of_not_dvd hndvd]

theorem shouldMergeWithEmptyCurr_mask (ledger level : Nat) :
    shouldMergeWithEmptyCurr (mask ledger (levelHalf level)) (level + 1) =
      shouldMergeWithEmptyCurr ledger (level + 1) := by
  have hpos := levelHalf_pos level
  have hmask : mask ledger (levelHalf level) / levelHalf level = ledger / levelHalf level := by
    have h := mask_add_half ledger level
    have : mask ledger (levelHalf level) = levelHalf level * (ledger / levelHalf level) := by
      rw [mul_add, mul_one] at h
      omega
    rw [this, Nat.mul_div_cancel_left _ hpos]
  simp only [shouldMergeWithEmptyCurr, ne_eq, Nat.add_eq_zero_iff, one_ne_zero, and_false, not_false_eq_true, if_true,
    Nat.add_sub_cancel]
  rw [mask_add_half, mask_add_half, hmask]

end Diamnet.Buckets
