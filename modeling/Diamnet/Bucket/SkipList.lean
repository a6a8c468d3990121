import Diamnet.Ledger.Entries
import Mathlib.Tactic.FinCases

/-! The skip list of the ledger headers (`BucketManagerImpl.cpp`).

A header carries four hashes of bucket lists that are ever further back. They move from slot to
slot: at every fiftieth ledger the first slot takes in the hash of that ledger, and at some of
these ledgers what was in it moves on to the second, and so on. `skipList_eq` says of which
ledger each slot has the hash. -/
namespace Diamnet.Buckets
open Ledger (Hash)

def SKIP_1 : Nat := 50

def SKIP_2 : Nat := 5000

def SKIP_3 : Nat := 50000

def SKIP_4 : Nat := 500000

/-- What is read and set of a header. -/
structure LedgerHeader where
  ledgerSeq : UInt32
  bucketListHash : Hash
  skipList : Fin 4 → Hash

/-- `int v = difference; v > 0 && v % skip == 0`, the difference being an unsigned one. -/
def atSkip (difference : UInt32) (skip : Nat) : Bool :=
  let v := difference.toInt32
  decide (0 < v) && decide (v % Int32.ofNat skip = 0)

def calculateSkipValues (currentHeader : LedgerHeader) : LedgerHeader :=
  let seq := currentHeader.ledgerSeq
  let skip1 := UInt32.ofNat SKIP_1
  let skip2 := UInt32.ofNat SKIP_2
  let skip3 := UInt32.ofNat SKIP_3
  let values := currentHeader.skipList
  if seq % skip1 = 0 then
    let values :=
      if atSkip (seq - skip1) SKIP_2 then
        let values :=
          if atSkip (seq - skip2 - skip1) SKIP_3 then
            let values :=
              if atSkip (seq - skip3 - skip2 - skip1) SKIP_4 then Function.update values 3 (values 2)
              else values
            Function.update values 2 (values 1)
          else values
        Function.update values 1 (values 0)
      else values
    { currentHeader with skipList := Function.update values 0 currentHeader.bucketListHash }
  else currentHeader

/-- The hash is that of the bucket list, or zero in a mode that has none. -/
def snapshotLedger (hash : Hash) (currentHeader : LedgerHeader) : LedgerHeader :=
  calculateSkipValues { currentHeader with bucketListHash := hash }

/-- The headers of ledgers 1, 2 and so on, from what precedes them all. -/
def headers (hashes : Nat → Hash) : Nat → LedgerHeader
  | 0 => ⟨0, 0, fun _ => 0⟩
  | n + 1 => snapshotLedger (hashes (n + 1)) { headers hashes n with ledgerSeq := (headers hashes n).ledgerSeq + 1 }

/-! ### When a slot changes -/

def spacing : Fin 4 → Nat
  | 0 => SKIP_1
  | 1 => SKIP_2
  | 2 => SKIP_3
  | 3 => SKIP_4

def delay : Fin 4 → Nat
  | 0 => 0
  | 1 => SKIP_1
  | 2 => SKIP_1 + SKIP_2
  | 3 => SKIP_1 + SKIP_2 + SKIP_3

def Fills (i : Fin 4) (n : Nat) : Prop := delay i < n ∧ spacing i ∣ n - delay i

instance (i : Fin 4) (n : Nat) : Decidable (Fills i n) := inferInstanceAs (Decidable (_ ∧ _))

theorem atSkip_ofNat {n skip : Nat} (hn : n < 2 ^ 31) (hskip : skip < 2 ^ 31) :
    atSkip (UInt32.ofNat n) skip = true ↔ 0 < n ∧ skip ∣ n := by
  rw [atSkip, UInt32.toInt32_ofNat', Bool.and_eq_true, decide_eq_true_eq, decide_eq_true_eq, Int32.lt_iff_toInt_lt,
    ← Int32.toInt_inj, Int32.toInt_mod, Int32.toInt_ofNat_of_lt hn, Int32.toInt_ofNat_of_lt hskip, Int32.toInt_zero,
    Int.tmod_eq_emod_of_nonneg (Int.natCast_nonneg n)]
  omega

theorem spacing_lt (i : Fin 4) : spacing i < 2 ^ 31 := by
  fin_cases i <;> simp [spacing, SKIP_1, SKIP_2, SKIP_3, SKIP_4]

section
variable {n : Nat}

theorem Fills.one (h : Fills 1 n) : Fills 0 n := by
  simp only [Fills, delay, spacing, SKIP_1, SKIP_2] at h ⊢
  omega

theorem Fills.two (h : Fills 2 n) : Fills 1 n := by
  simp only [Fills, delay, spacing, SKIP_1, SKIP_2, SKIP_3] at h ⊢
  omega

theorem Fills.three (h : Fills 3 n) : Fills 2 n := by
  simp only [Fills, delay, spacing, SKIP_1, SKIP_2, SKIP_3, SKIP_4] at h ⊢
  omega

theorem Fills.le {i : Fin 4} (h : Fills i n) : delay i + spacing i ≤ n := by
  have := Nat.le_of_dvd (Nat.sub_pos_of_lt h.1) h.2
  have := h.1
  omega

variable (hn : n < 2 ^ 31)
include hn

theorem mod_skip (hpos : 0 < n) : UInt32.ofNat n % UInt32.ofNat SKIP_1 = 0 ↔ Fills 0 n := by
  have hlt : n < UInt32.size := by
    show n < 2 ^ 32
    omega
  have hmod : (UInt32.ofNat n % UInt32.ofNat SKIP_1).toNat = n % 50 := by
    rw [UInt32.toNat_mod, UInt32.toNat_ofNat_of_lt' hlt]
    rfl
  rw [← UInt32.toNat_inj, hmod]
  simp only [Fills, delay, spacing, SKIP_1, UInt32.toNat_zero]
  omega

theorem atSkip_delay (i : Fin 4) (h : delay i ≤ n) :
    atSkip (UInt32.ofNat (n - delay i)) (spacing i) = true ↔ Fills i n := by
  rw [atSkip_ofNat (by omega) (spacing_lt i), Fills]
  omega

theorem atSkip_one (h : Fills 0 n) : atSkip (UInt32.ofNat n - UInt32.ofNat SKIP_1) SKIP_2 = true ↔ Fills 1 n := by
  have hle : 0 + SKIP_1 ≤ n := h.le
  rw [Nat.zero_add] at hle
  rw [← UInt32.ofNat_sub hle]
  exact atSkip_delay hn 1 hle

theorem atSkip_two (h : Fills 1 n) :
    atSkip (UInt32.ofNat n - UInt32.ofNat SKIP_2 - UInt32.ofNat SKIP_1) SKIP_3 = true ↔ Fills 2 n := by
  have hle : SKIP_1 + SKIP_2 ≤ n := h.le
  rw [← UInt32.ofNat_sub (by omega), ← UInt32.ofNat_sub (by omega), Nat.sub_sub, Nat.add_comm SKIP_2]
  exact atSkip_delay hn 2 hle

theorem atSkip_three (h : Fills 2 n) :
    atSkip (UInt32.ofNat n - UInt32.ofNat SKIP_3 - UInt32.ofNat SKIP_2 - UInt32.ofNat SKIP_1) SKIP_4 = true ↔
      Fills 3 n := by
  have hle : SKIP_1 + SKIP_2 + SKIP_3 ≤ n := h.le
  have hsum : n - SKIP_3 - SKIP_2 - SKIP_1 = n - (SKIP_1 + SKIP_2 + SKIP_3) := by omega
  rw [← UInt32.ofNat_sub (by omega), ← UInt32.ofNat_sub (by omega), ← UInt32.ofNat_sub (by omega), hsum]
  exact atSkip_delay hn 3 hle

end

/-- What a slot holds after a ledger: what it takes in, or what it held. -/
def shifted (h : LedgerHeader) (n : Nat) (i : Fin 4) : Hash :=
  if Fills i n then if i = 0 then h.bucketListHash else h.skipList (i - 1)
  else h.skipList i

/-- **One ledger moves the hashes on by one slot, as far as the slots take in one.** -/
theorem calculateSkipValues_skipList {h : LedgerHeader} {n : Nat} (hseq : h.ledgerSeq = UInt32.ofNat n) (hpos : 0 < n)
    (hn : n < 2 ^ 31) (i : Fin 4) : (calculateSkipValues h).skipList i = shifted h n i := by
  unfold calculateSkipValues
  simp only [hseq, mod_skip hn hpos]
  by_cases h0 : Fills 0 n
  · simp only [h0, if_true, atSkip_one hn h0]
    by_cases h1 : Fills 1 n
    · simp only [h1, if_true, atSkip_two hn h1]
      by_cases h2 : Fills 2 n
      · simp only [h2, if_true, atSkip_three hn h2]
        by_cases h3 : Fills 3 n
        · fin_cases i <;> simp [shifted, h0, h1, h2, h3]
        · fin_cases i <;> simp [shifted, h0, h1, h2, h3]
      · have h3 : ¬Fills 3 n := fun h => h2 h.three
        fin_cases i <;> simp [shifted, h0, h1, h2, h3]
    · have h2 : ¬Fills 2 n := fun h => h1 h.two
      have h3 : ¬Fills 3 n := fun h => h2 h.three
      fin_cases i <;> simp [shifted, h0, h1, h2, h3]
  · have h1 : ¬Fills 1 n := fun h => h0 h.one
    have h2 : ¬Fills 2 n := fun h => h1 h.two
    have h3 : ¬Fills 3 n := fun h => h2 h.three
    fin_cases i <;> simp [shifted, h0, h1, h2, h3]

theorem calculateSkipValues_ledgerSeq (h : LedgerHeader) : (calculateSkipValues h).ledgerSeq = h.ledgerSeq := by
  unfold calculateSkipValues
  dsimp only
  split <;> rfl

theorem calculateSkipValues_bucketListHash (h : LedgerHeader) :
    (calculateSkipValues h).bucketListHash = h.bucketListHash := by
  unfold calculateSkipValues
  dsimp only
  split <;> rfl

/-! ### The whole chain -/

variable (hashes : Nat → Hash)

theorem headers_ledgerSeq (n : Nat) : (headers hashes n).ledgerSeq = UInt32.ofNat n := by
  induction n with
  | zero => rfl
  | succ n ih =>
    rw [headers, snapshotLedger, calculateSkipValues_ledgerSeq, UInt32.ofNat_add]
    exact congrArg (· + 1) ih

theorem headers_bucketListHash (n : Nat) : (headers hashes (n + 1)).bucketListHash = hashes (n + 1) :=
  calculateSkipValues_bucketListHash _

/-- The ledger whose hash a slot of the header of ledger `n` has, if it is positive. -/
def skippedTo (i : Fin 4) (n : Nat) : Int := spacing i * (((n : Int) - delay i) / spacing i)

def hashAt (ledger : Int) : Hash := if 0 < ledger then (headers hashes ledger.toNat).bucketListHash else 0

theorem skippedTo_of_fills {i : Fin 4} {n : Nat} (h : Fills i n) : skippedTo i n = n - delay i := by
  obtain ⟨hlt, hdvd⟩ := h
  have hcast : ((n : Int) - delay i) = ((n - delay i : Nat) : Int) := by omega
  rw [skippedTo, hcast]
  exact Int.mul_ediv_cancel' (Int.natCast_dvd_natCast.mpr hdvd)

theorem skippedTo_le (i : Fin 4) (n : Nat) : skippedTo i n ≤ n - delay i := by
  refine Int.mul_ediv_self_le ?_
  fin_cases i <;> decide

theorem hashAt_of_nonpos {ledger : Int} (h : ledger ≤ 0) : hashAt hashes ledger = 0 :=
  if_neg (not_lt.mpr h)

theorem hashAt_of_not_fills {i : Fin 4} {n : Nat} (h : ¬Fills i (n + 1)) :
    hashAt hashes (skippedTo i (n + 1)) = hashAt hashes (skippedTo i n) := by
  have hnow := skippedTo_le i (n + 1)
  have hbefore := skippedTo_le i n
  by_cases hlate : delay i < n + 1
  · -- no multiple of the spacing is passed
    have hdvd : ¬spacing i ∣ n - delay i + 1 := by
      rw [← Nat.sub_add_comm (Nat.le_of_lt_succ hlate)]
      exact fun hdvd => h ⟨hlate, hdvd⟩
    have hdiv : (((n + 1 : Nat) : Int) - delay i) / spacing i = ((n : Int) - delay i) / spacing i := by
      have hcast : (n : Int) - delay i = ((n - delay i : Nat) : Int) := by omega
      have hcast' : ((n + 1 : Nat) : Int) - delay i = ((n - delay i + 1 : Nat) : Int) := by omega
      rw [hcast, hcast', ← Int.natCast_ediv, ← Int.natCast_ediv, Nat.succ_div_of_not_dvd hdvd]
    rw [skippedTo, hdiv, skippedTo]
  · rw [hashAt_of_nonpos hashes (by omega), hashAt_of_nonpos hashes (by omega)]

theorem skippedTo_pred {i : Fin 4} {n : Nat} (hi : i ≠ 0) (h : Fills i (n + 1)) :
    skippedTo (i - 1) n = ((n + 1 : Nat) : Int) - delay i := by
  obtain ⟨hlt, hdvd⟩ := h
  fin_cases i
  · exact absurd rfl hi
  · simp [skippedTo, delay, spacing, SKIP_1, SKIP_2] at hlt hdvd ⊢
    omega
  · simp [skippedTo, delay, spacing, SKIP_1, SKIP_2, SKIP_3] at hlt hdvd ⊢
    omega
  · simp [skippedTo, delay, spacing, SKIP_1, SKIP_2, SKIP_3, SKIP_4] at hlt hdvd ⊢
    omega

theorem hashAt_succ (n : Nat) : hashAt hashes ((n + 1 : Nat) : Int) = hashes (n + 1) := by
  rw [hashAt, if_pos (by omega), Int.toNat_natCast, headers_bucketListHash]

/-- **The skip list of every header.** -/
theorem skipList_eq (n : Nat) (hn : n < 2 ^ 31) (i : Fin 4) :
    (headers hashes n).skipList i = hashAt hashes (skippedTo i n) := by
  induction n generalizing i with
  | zero =>
    have := skippedTo_le i 0
    rw [hashAt_of_nonpos hashes (by omega)]
    rfl
  | succ n ih =>
    let unset : LedgerHeader := { headers hashes n with
      ledgerSeq := (headers hashes n).ledgerSeq + 1
      bucketListHash := hashes (n + 1) }
    have hseq : unset.ledgerSeq = UInt32.ofNat (n + 1) := by
      rw [UInt32.ofNat_add]
      exact congrArg (· + 1) (headers_ledgerSeq hashes n)
    refine (calculateSkipValues_skipList hseq n.succ_pos hn i).trans ?_
    rw [shifted]
    by_cases hfills : Fills i (n + 1)
    · rw [if_pos hfills, skippedTo_of_fills hfills]
      by_cases hi : i = 0
      · subst hi
        show hashes (n + 1) = hashAt hashes (((n + 1 : Nat) : Int) - 0)
        rw [sub_zero, hashAt_succ]
      · rw [if_neg hi, ← skippedTo_pred hi hfills]
        exact ih (by omega) (i - 1)
    · rw [if_neg hfills, hashAt_of_not_fills hashes hfills]
      exact ih (by omega) i

/-- At ledger 55050 the third slot has the hash of ledger 50000, and the fourth none yet. -/
theorem skipList_eq_third : (headers id 55050).skipList 2 = 50000 ∧ (headers id 55050).skipList 3 = 0 := by
  have hn : 55050 < 2 ^ 31 := by omega
  have h2 : skippedTo 2 55050 = ((49999 + 1 : Nat) : Int) := by decide
  have h3 : skippedTo 3 55050 = 0 := by decide
  constructor
  · rw [skipList_eq id 55050 hn 2, h2, hashAt_succ]
    rfl
  · rw [skipList_eq id 55050 hn 3, h3, hashAt_of_nonpos id le_rfl]

end Diamnet.Buckets
