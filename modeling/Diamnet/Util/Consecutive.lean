import Mathlib

/-! Lists of consecutive machine numbers.

The numbers wrap around, so a list of consecutive ones may pass the largest of them and
may even come back to where it was. It does not if its last number stands nowhere before
the end; then it has no duplicates, and with a number it has all those up to the last. -/
namespace Diamnet

def Consecutive (l : List UInt32) : Prop := l.IsChain fun a b => b = a + 1

namespace Consecutive
variable {l : List UInt32} {n : UInt32}

theorem getElem_eq_add (h : Consecutive l) {i j : Nat} (hij : i ≤ j) (hj : j < l.length) :
    l[j] = l[i] + UInt32.ofNat (j - i) := by
  induction j, hij using Nat.le_induction with
  | base => simp
  | succ k hk ih =>
    have hstep := List.isChain_iff_getElem.mp h k (by omega)
    rw [hstep, ih (by omega), Nat.sub_add_comm hk, UInt32.add_assoc, UInt32.ofNat_add]
    rfl

theorem getElem_last (hn : l.getLast? = some n) (hj : l.length - 1 < l.length) : l[l.length - 1] = n := by
  rw [List.getLast?_eq_getElem?, List.getElem?_eq_getElem hj] at hn
  exact Option.some.inj hn

/-- A list that comes to its last number once only does not go all the way round. -/
theorem length_le (h : Consecutive l) (hn : l.getLast? = some n) (honce : ∀ s ∈ l.dropLast, s ≠ n) :
    l.length ≤ 2 ^ 32 := by
  by_contra hlen
  have hj : l.length - 1 < l.length := by omega
  have hback := h.getElem_eq_add (i := l.length - 1 - 2 ^ 32) (by omega) hj
  rw [show l.length - 1 - (l.length - 1 - 2 ^ 32) = 2 ^ 32 by omega, getElem_last hn hj] at hback
  have hi : l.length - 1 - 2 ^ 32 < l.dropLast.length := by
    rw [List.length_dropLast]
    omega
  refine honce l.dropLast[l.length - 1 - 2 ^ 32] (List.getElem_mem hi) ?_
  rw [List.getElem_dropLast, hback]
  simp

theorem nodup (h : Consecutive l) (hlen : l.length ≤ 2 ^ 32) : l.Nodup := by
  refine List.pairwise_iff_getElem.mpr ?_
  intro i j hi hj hij heq
  have hoff := h.getElem_eq_add (Nat.le_of_lt hij) hj
  rw [← heq] at hoff
  have hzero : UInt32.ofNat (j - i) = 0 := by simpa using hoff
  have hnat := congrArg UInt32.toNat hzero
  simp only [UInt32.toNat_ofNat', UInt32.toNat_zero] at hnat
  omega

theorem mem_of_le (h : Consecutive l) (hn : l.getLast? = some n) (hlen : l.length ≤ 2 ^ 32) {a s : UInt32}
    (ha : a ∈ l) (has : a ≤ s) (hsn : s ≤ n) : s ∈ l := by
  obtain ⟨i, hi, rfl⟩ := List.getElem_of_mem ha
  have hj : l.length - 1 < l.length := by omega
  have hend := h.getElem_eq_add (i := i) (by omega) hj
  rw [getElem_last hn hj] at hend
  -- the distance to the last number is the distance in the list
  have hdist : n.toNat = (l[i].toNat + (l.length - 1 - i)) % 2 ^ 32 := by
    rw [hend, UInt32.toNat_add, UInt32.toNat_ofNat']
    omega
  have has' := UInt32.le_iff_toNat_le.mp has
  have hsn' := UInt32.le_iff_toNat_le.mp hsn
  have hk : i + (s.toNat - l[i].toNat) < l.length := by omega
  refine List.mem_of_getElem (h := hk) ?_
  rw [h.getElem_eq_add (i := i) (by omega) hk, ← UInt32.toNat_inj, UInt32.toNat_add, UInt32.toNat_ofNat']
  omega

end Consecutive
end Diamnet
