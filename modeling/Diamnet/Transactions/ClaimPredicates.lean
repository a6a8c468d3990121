import Diamnet.Transactions.ClaimableBalanceOps

/-! Predicates of claimants, from creation to claim.

A predicate that passes on creation is kept with its relative times made absolute, and a claim
evaluates what was kept. `holdsAt_update` says that this is the meaning of the predicate over the
integers, at every time below the largest; the two steps neither overflow nor throw. -/
namespace Diamnet.Transactions
open Ledger ClaimClaimableBalanceOp Int64

/-- What a predicate says of a claim at `now` on a balance made at `created`. -/
def meaning (created now : Int) : ClaimPredicate → Bool
  | .unconditional => true
  | .and [a, b] => meaning created now a && meaning created now b
  | .or [a, b] => meaning created now a || meaning created now b
  | .not (some pred) => !meaning created now pred
  | .beforeAbsoluteTime absBefore => now < absBefore.toInt
  | .beforeRelativeTime relBefore => now < created + relBefore.toInt
  | _ => false

mutual

def absolute : ClaimPredicate → Bool
  | .and preds | .or preds => allAbsolute preds
  | .not (some pred) => absolute pred
  | .beforeRelativeTime _ => false
  | _ => true

def allAbsolute : List ClaimPredicate → Bool
  | [] => true
  | pred :: rest => absolute pred && allAbsolute rest

end

theorem toNat_toUInt64 {x : Int64} (h : 0 ≤ x.toInt) : (x.toUInt64.toNat : Int) = x.toInt := by
  rw [toNat_toUInt64_of_le (le_iff_toInt_le.mpr h)]
  exact Int.toNat_of_nonneg h

theorem relativeToAbsolute_eq (closeTime : Nat) {relative : Int64} (h : 0 ≤ relative.toInt) :
    ∃ absBefore, relativeToAbsolute closeTime relative = .ok absBefore ∧
      absBefore.toInt = min (closeTime + relative.toInt) INT64_MAX := by
  have hlt := relative.toInt_lt
  have hdiff : (maxValue - relative).toInt = 2 ^ 63 - 1 - relative.toInt := by
    rw [toInt_sub, toInt_maxValue]
    exact Int.bmod_eq_of_le (by omega) (by omega)
  have hbound := toNat_toUInt64 (x := maxValue - relative) (by omega)
  have hrelative := toNat_toUInt64 h
  have hmax : INT64_MAX = 2 ^ 63 - 1 := by decide
  have hnot : ¬relative < 0 := fun hneg => not_lt.mpr h (lt_iff_toInt_lt.mp hneg)
  unfold relativeToAbsolute
  rw [if_neg hnot]
  split
  · refine ⟨_, rfl, ?_⟩
    rw [toInt_maxValue]
    omega
  · refine ⟨_, rfl, ?_⟩
    rw [toInt_ofNat_of_lt (by omega)]
    omega

/-- **A kept predicate means what it meant**, and has no relative time. -/
theorem exists_stored {depth : Nat} {pred : ClaimPredicate} (hvalid : wellFormedPredicate depth pred = true)
    (created : Nat) {now : Nat} (hnow : (now : Int) < INT64_MAX) :
    ∃ stored, updatePredicatesForApply created pred = .ok stored ∧ absolute stored = true ∧
      holdsAt now stored = .ok (meaning created now pred) := by
  fun_induction wellFormedPredicate depth pred with
  | case1 depth => exact ⟨_, rfl, rfl, rfl⟩
  | case2 depth a b iha ihb =>
    simp only [Bool.and_eq_true] at hvalid
    obtain ⟨a', ha, ha_abs, ha_holds⟩ := iha hvalid.1.2
    obtain ⟨b', hb, hb_abs, hb_holds⟩ := ihb hvalid.2
    refine ⟨.and [a', b'], ?_, ?_, ?_⟩
    · rw [updatePredicatesForApply, ha, hb]
      rfl
    · simp [absolute, allAbsolute, ha_abs, hb_abs]
    · rw [holdsAt, ha_holds, ok_bind, meaning]
      cases meaning created now a with
      | true => exact hb_holds
      | false => rfl
  | case3 depth a b iha ihb =>
    simp only [Bool.and_eq_true] at hvalid
    obtain ⟨a', ha, ha_abs, ha_holds⟩ := iha hvalid.1.2
    obtain ⟨b', hb, hb_abs, hb_holds⟩ := ihb hvalid.2
    refine ⟨.or [a', b'], ?_, ?_, ?_⟩
    · rw [updatePredicatesForApply, ha, hb]
      rfl
    · simp [absolute, allAbsolute, ha_abs, hb_abs]
    · rw [holdsAt, ha_holds, ok_bind, meaning]
      cases meaning created now a with
      | true => rfl
      | false => exact hb_holds
  | case4 depth pred ih =>
    simp only [Bool.and_eq_true] at hvalid
    obtain ⟨pred', hpred, habs, hholds⟩ := ih hvalid.2
    refine ⟨.not (some pred'), ?_, ?_, ?_⟩
    · rw [updatePredicatesForApply, hpred]
      rfl
    · rw [absolute, habs]
    · rw [holdsAt, hholds, meaning]
      rfl
  | case5 depth absBefore =>
    simp only [Bool.and_eq_true, decide_eq_true_eq] at hvalid
    have hnonneg := le_iff_toInt_le.mp hvalid.2
    have hcast := toNat_toUInt64 hnonneg
    refine ⟨_, rfl, rfl, ?_⟩
    rw [holdsAt, meaning, ← hcast]
    simp only [Nat.cast_lt]
    rfl
  | case6 depth relBefore =>
    simp only [Bool.and_eq_true, decide_eq_true_eq] at hvalid
    have hnonneg : 0 ≤ relBefore.toInt := le_iff_toInt_le.mp hvalid.2
    obtain ⟨absBefore, habs, hsum⟩ := relativeToAbsolute_eq created hnonneg
    have hcast := toNat_toUInt64 (x := absBefore) (by omega)
    refine ⟨.beforeAbsoluteTime absBefore, ?_, rfl, ?_⟩
    · rw [updatePredicatesForApply, habs]
      rfl
    · rw [holdsAt, meaning]
      congr 1
      rw [Bool.eq_iff_iff, decide_eq_true_iff, decide_eq_true_iff]
      omega
  | case7 => cases hvalid

/-- **A predicate is kept and evaluated as it was meant**: a claim at any time is decided by the
predicate over the integers, and of two claimants with opposite predicates exactly one can claim. -/
theorem predicate_decides (pred : ClaimPredicate) (hvalid : wellFormedPredicate 1 pred = true) (created now : Nat)
    (hnow : (now : Int) < INT64_MAX) :
    ∃ stored, updatePredicatesForApply created pred = .ok stored ∧ absolute stored = true ∧
      holdsAt now stored = .ok (meaning created now pred) ∧
      ∃ opposite, updatePredicatesForApply created (.not (some pred)) = .ok opposite ∧
        ∀ (claimants : List Claimant) (a b : AccountID),
          claimants.find? (fun c => c.destination = a) = some ⟨a, stored⟩ →
          claimants.find? (fun c => c.destination = b) = some ⟨b, opposite⟩ →
            ∃ first, canClaim a now claimants = .ok first ∧
              canClaim b now claimants = .ok !first := by
  obtain ⟨stored, hstored, habs, hholds⟩ := exists_stored hvalid created hnow
  refine ⟨stored, hstored, habs, hholds, .not (some stored), ?_, ?_⟩
  · rw [updatePredicatesForApply, hstored]
    rfl
  · intro claimants a b ha hb
    refine ⟨meaning created now pred, ?_, ?_⟩
    · rw [canClaim, ha]
      exact hholds
    · rw [canClaim, hb]
      show holdsAt now (.not (some stored)) = _
      rw [holdsAt, hholds]
      rfl

/-- Within 10 seconds, but not before time 105, on a balance made at 100. -/
theorem predicate_decides_window :
    let pred : ClaimPredicate := .and [.beforeRelativeTime 10, .not (some (.beforeAbsoluteTime 105))]
    ∃ stored, updatePredicatesForApply 100 pred = .ok stored ∧ holdsAt 109 stored = .ok true := by
  intro pred
  obtain ⟨stored, hstored, -, hholds, -⟩ := predicate_decides pred (by decide) 100 109 (by decide)
  exact ⟨stored, hstored, hholds.trans (by decide)⟩

end Diamnet.Transactions
