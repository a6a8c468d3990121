import Mathlib

/-! Orders and ordered containers.

The machine integers of the core library carry `<` and `≤` but no bundled linear
order; the instances below bundle them, over the same relations. An ordered set
is the list of its elements, without repetition, in the order its owner walks it:
`ascending` from the front, `descending` from the back. -/
namespace Diamnet

instance uint8LinearOrder : LinearOrder UInt8 where
  le_refl := UInt8.le_refl
  le_trans _ _ _ := UInt8.le_trans
  le_antisymm _ _ := UInt8.le_antisymm
  le_total := UInt8.le_total
  lt_iff_le_not_ge a b := by
    simp only [UInt8.lt_iff_toNat_lt, UInt8.le_iff_toNat_le]
    omega
  toDecidableLE := inferInstance
  toDecidableEq := inferInstance
  toDecidableLT := inferInstance

instance uint32LinearOrder : LinearOrder UInt32 where
  le_refl := UInt32.le_refl
  le_trans _ _ _ := UInt32.le_trans
  le_antisymm _ _ := UInt32.le_antisymm
  le_total := UInt32.le_total
  lt_iff_le_not_ge a b := by
    simp only [UInt32.lt_iff_toNat_lt, UInt32.le_iff_toNat_le]
    omega
  toDecidableLE := inferInstance
  toDecidableEq := inferInstance
  toDecidableLT := inferInstance

instance uint64LinearOrder : LinearOrder UInt64 where
  le_refl := UInt64.le_refl
  le_trans _ _ _ := UInt64.le_trans
  le_antisymm _ _ := UInt64.le_antisymm
  le_total := UInt64.le_total
  lt_iff_le_not_ge a b := by
    simp only [UInt64.lt_iff_toNat_lt, UInt64.le_iff_toNat_le]
    omega
  toDecidableLE := inferInstance
  toDecidableEq := inferInstance
  toDecidableLT := inferInstance

theorem uint32_zero_le (n : UInt32) : 0 ≤ n := UInt32.le_iff_toNat_le.mpr (Nat.zero_le _)

theorem uint32_pos {n : UInt32} (h : n ≠ 0) : 0 < n := lt_of_le_of_ne (uint32_zero_le n) (Ne.symm h)

theorem uint32_lt_succ {n : UInt32} (h : n ≠ 4294967295) : n < n + 1 := by
  have hne : n.toNat ≠ 4294967295 := fun he => h (UInt32.toNat_inj.mp he)
  have hlt := n.toNat_lt
  show n.toNat < (n.toNat + 1) % 4294967296
  omega

theorem uint32_ne_zero_of_lt {m n : UInt32} (h : m < n) : n ≠ 0 :=
  fun he => absurd (he ▸ h) (not_lt.mpr (uint32_zero_le m))

section Ordered
variable {α : Type} [LinearOrder α]

/-- The elements of an ordered set, from the smallest. -/
def ascending (l : List α) : List α := l.dedup.insertionSort (· ≤ ·)

/-- The elements of an ordered set, from the largest. -/
def descending (l : List α) : List α := l.dedup.insertionSort (· ≥ ·)

@[simp] theorem mem_ascending {a : α} {l : List α} : a ∈ ascending l ↔ a ∈ l := by
  simp [ascending]

@[simp] theorem mem_descending {a : α} {l : List α} : a ∈ descending l ↔ a ∈ l := by
  simp [descending]

theorem ascending_pairwise (l : List α) : (ascending l).Pairwise (· < ·) := by
  have hsorted := List.pairwise_insertionSort (· ≤ ·) l.dedup
  have hnodup : (ascending l).Nodup := (List.perm_insertionSort _ _).nodup_iff.mpr l.nodup_dedup
  exact hsorted.imp₂ (fun _ _ hle hne => lt_of_le_of_ne hle hne) hnodup

theorem descending_pairwise (l : List α) : (descending l).Pairwise (· > ·) := by
  have hsorted := List.pairwise_insertionSort (· ≥ ·) l.dedup
  have hnodup : (descending l).Nodup := (List.perm_insertionSort _ _).nodup_iff.mpr l.nodup_dedup
  exact hsorted.imp₂ (fun _ _ hle hne => lt_of_le_of_ne hle (Ne.symm hne)) hnodup

end Ordered

end Diamnet
