import Diamnet.Transactions.Accounting

/-! What counting an entry in or out does to the counters. -/
namespace Diamnet.Transactions
open Ledger

/-! ### One account -/

section
variable {acc acc' : AccountEntry} {le : LedgerEntry}

theorem isAccount_eq (h : isClaimableBalance le = false) : isAccount le = !isSubentry le := by
  cases le <;> first | rfl | cases h

theorem computeMultiplier_ne_zero (h : isClaimableBalance le = false) : computeMultiplier le ≠ 0 := by
  cases le <;> simp_all [computeMultiplier, isClaimableBalance]

theorem computeMultiplier_subentry (h : isSubentry le = true) : computeMultiplier le = 1 := by
  cases le <;> first | rfl | cases h

theorem not_isClaimableBalance_of_subentry (h : isSubentry le = true) : isClaimableBalance le = false := by
  cases le <;> first | rfl | cases h

theorem toNat_sub_cast {x y : UInt32} (h : y ≤ x) : ((x - y).toNat : Int) = x.toNat - y.toNat := by
  have hle : y.toNat ≤ x.toNat := h
  rw [UInt32.toNat_sub_of_le _ _ h]
  exact Nat.cast_sub hle

theorem bare_removeEntryWithoutSponsorship (le : LedgerEntry) (acc : AccountEntry) :
    bare (removeEntryWithoutSponsorship le acc) = bare acc := by
  unfold removeEntryWithoutSponsorship
  split <;> rfl

theorem counters_removeEntryWithoutSponsorship (id : AccountID) (h : isClaimableBalance le = false)
    (hcount : isSubentry le = true → 1 ≤ acc.numSubEntries) :
    counters id (removeEntryWithoutSponsorship le acc) =
      counters id acc - tallied id (if isSubentry le then 1 else 0) 0 0 := by
  unfold removeEntryWithoutSponsorship
  rw [isAccount_eq h]
  cases hsub : isSubentry le with
  | false => simp
  | true =>
    simp only [Bool.not_true, Bool.false_eq_true, if_false, if_true, counters, ← tallied_sub,
      toNat_sub_cast (hcount hsub), sub_zero]
    rfl

theorem subNumSponsored_meets {mult : UInt32} (h : mult ≤ getNumSponsored acc) :
    Meets (subNumSponsored mult acc)
      (fun acc' => bare acc' = bare acc ∧ ∀ id, counters id acc' = counters id acc - tallied id 0 0 mult.toNat)
      (fun _ => mult = 0) := by
  unfold subNumSponsored getAccountEntryExtensionV2
  unfold getNumSponsored at h
  cases hext : acc.extV2 with
  | none =>
    rw [hext] at h
    exact UInt32.le_zero_iff.mp h
  | some ext =>
    rw [hext, Option.elim_some] at h
    refine ⟨?_, fun id => ?_⟩
    · simp only [bare, signerSponsors, prepareAccountEntryExtensionV2, hext, Option.getD_some]
    · simp only [counters, getNumSponsored, getNumSponsoring, hext, Option.elim_some, ← tallied_sub, sub_zero]
      rw [toNat_sub_cast h]

theorem subNumSponsoring_meets {mult : UInt32} (h : mult ≤ getNumSponsoring acc) :
    Meets (subNumSponsoring mult acc)
      (fun acc' => bare acc' = bare acc ∧ ∀ id, counters id acc' = counters id acc - tallied id 0 mult.toNat 0)
      (fun _ => mult = 0) := by
  unfold subNumSponsoring getAccountEntryExtensionV2
  unfold getNumSponsoring at h
  cases hext : acc.extV2 with
  | none =>
    rw [hext] at h
    exact UInt32.le_zero_iff.mp h
  | some ext =>
    rw [hext, Option.elim_some] at h
    refine ⟨?_, fun id => ?_⟩
    · simp only [bare, signerSponsors, prepareAccountEntryExtensionV2, hext, Option.getD_some]
    · simp only [counters, getNumSponsored, getNumSponsoring, hext, Option.elim_some, ← tallied_sub, sub_zero]
      rw [toNat_sub_cast h]

end

/-! ### Counting out -/

/-- The counters of the owner and the sponsor of an entry are there to be decreased. -/
def CanUncountWith (s : LedgerTxn) (le : LedgerEntry) (id sponsoringID : AccountID) : Prop :=
  14 ≤ s.header.ledgerVersion ∧ ∃ acc sponsoringAcc,
    s.accounts.lookup id = some acc ∧ s.accounts.lookup sponsoringID = some sponsoringAcc ∧
    isEntryOf le (some acc) = true ∧ (isSubentry le = true → 1 ≤ acc.numSubEntries) ∧
    computeMultiplier le ≤ getNumSponsored acc ∧ computeMultiplier le ≤ getNumSponsoring sponsoringAcc

theorem canRemoveEntryWithSponsorship_meets {le : LedgerEntry} (hclaim : isClaimableBalance le = false)
    (lh : LedgerHeader) (acc sponsoringAcc : AccountEntry) :
    Meets (canRemoveEntryWithSponsorship lh le sponsoringAcc (some acc))
      (fun _ => 14 ≤ lh.ledgerVersion ∧ isEntryOf le (some acc) = true ∧
        (isSubentry le = true → 1 ≤ acc.numSubEntries) ∧ computeMultiplier le ≤ getNumSponsored acc ∧
        computeMultiplier le ≤ getNumSponsoring sponsoringAcc)
      (fun _ => ¬(14 ≤ lh.ledgerVersion ∧ isEntryOf le (some acc) = true ∧
        (isSubentry le = true → 1 ≤ acc.numSubEntries) ∧ computeMultiplier le ≤ getNumSponsored acc ∧
        computeMultiplier le ≤ getNumSponsoring sponsoringAcc)) := by
  have hmult := @computeMultiplier_subentry le
  unfold canRemoveEntryWithSponsorship sponsorshipSupported
  simp only [isAccount_eq hclaim, Option.any_some]
  grind [Meets.bind_iff, Meets.throw_iff, Meets.pure_iff]

theorem removeEntryWithSponsorship_runs {le : LedgerEntry} (hclaim : isClaimableBalance le = false)
    {id sponsoringID : AccountID} (hne : sponsoringID ≠ id) (s : LedgerTxn) :
    Runs (removeEntryWithSponsorship le sponsoringID (some id)) s
      (fun _ s' => CanUncountWith s le id sponsoringID ∧ Tallied s s' (-counted le id (some sponsoringID)))
      (fun _ => ¬CanUncountWith s le id sponsoringID) := by
  have hmult := computeMultiplier_ne_zero hclaim
  unfold removeEntryWithSponsorship findSponsoredAccount changeSponsored changeAccount
  simp only [Runs.bind_iff, runs_getHeader, runs_loadAccount, runs_checked, Runs.pure_iff, runs_storeAccount]
  refine ⟨fun sponsoringAcc hsponsoring => ⟨fun acc hacc => ?_, fun hnone => ?_⟩, fun hnone => ?_⟩
  · refine (canRemoveEntryWithSponsorship_meets hclaim s.header acc sponsoringAcc).mono ?_ ?_
    · rintro - ⟨hv, hentry, hcount, hsponsored, hsponsors⟩
      refine ⟨fun acc' hacc' => ?_, fun hnone => by rw [hacc] at hnone; cases hnone⟩
      rw [hacc] at hacc'
      cases hacc'
      -- the owner first
      have hbare := bare_removeEntryWithoutSponsorship le acc
      have hcounters := counters_removeEntryWithoutSponsorship id hclaim hcount
      have hsponsored' : computeMultiplier le ≤ getNumSponsored (removeEntryWithoutSponsorship le acc) := by
        unfold removeEntryWithoutSponsorship
        split <;> exact hsponsored
      refine (subNumSponsored_meets hsponsored').mono ?_ (fun e he => absurd he hmult)
      rintro acc' ⟨hbare', hcounters'⟩
      have howner := Tallied.store hacc (hbare'.trans hbare)
      -- then the sponsor
      rw [AList.lookup_insert_ne hne, hsponsoring]
      refine ⟨?_, fun hnone => by cases hnone⟩
      rintro _ ⟨⟩
      refine (subNumSponsoring_meets hsponsors).mono ?_ (fun e he => absurd he hmult)
      rintro sponsoringAcc' ⟨hbare'', hcounters''⟩
      refine ⟨⟨hv, acc, sponsoringAcc, hacc, hsponsoring, hentry, hcount, hsponsored, hsponsors⟩, ?_⟩
      have hsponsor := Tallied.store (s := { s with accounts := s.accounts.insert id acc' })
        (show (s.accounts.insert id acc').lookup sponsoringID = some sponsoringAcc by
          rw [AList.lookup_insert_ne hne, hsponsoring]) hbare''
      have heffect : counters id acc' - counters id acc +
          (counters sponsoringID sponsoringAcc' - counters sponsoringID sponsoringAcc) =
          -counted le id (some sponsoringID) := by
        rw [hcounters' id, hcounters, hcounters'' sponsoringID]
        have hsplit := tallied_add id (if isSubentry le then 1 else 0) 0 0 0 0 (computeMultiplier le).toNat
        rw [add_zero, add_zero, zero_add] at hsplit
        simp only [counted, hclaim, Bool.false_eq_true, if_false, hsplit]
        abel
      rw [← heffect]
      exact howner.trans hsponsor
    · rintro e hfails ⟨hv, acc', sponsoringAcc', hacc', hsponsoring', hrest⟩
      rw [hacc] at hacc'
      rw [hsponsoring] at hsponsoring'
      cases hacc'
      cases hsponsoring'
      exact hfails ⟨hv, hrest⟩
  · rintro ⟨-, acc, -, hacc, -⟩
    rw [hnone] at hacc
    cases hacc
  · rintro ⟨-, -, sponsoringAcc, -, hsponsoring, -⟩
    rw [hnone] at hsponsoring
    cases hsponsoring

/-- The counters are there to be decreased: those of the owner, and of the sponsor, which is another
account and none of those `active`. -/
def CanUncount (s : LedgerTxn) (le : LedgerEntry) (id : AccountID) (active : List AccountID) : Prop :=
  match le.sponsoringID with
  | none => ∃ acc, s.accounts.lookup id = some acc ∧ 1 ≤ acc.numSubEntries
  | some sponsoringID => sponsoringID ≠ id ∧ sponsoringID ∉ active ∧ CanUncountWith s le id sponsoringID

theorem removeSubentry_runs {le : LedgerEntry} (hsub : isSubentry le = true) (id : AccountID) (active : List AccountID)
    (s : LedgerTxn) :
    Runs (removeEntryWithPossibleSponsorship le id active) s
      (fun _ s' => CanUncount s le id active ∧ Tallied s s' (-counted le id le.sponsoringID))
      (fun _ => ¬CanUncount s le id active) := by
  have hclaim := not_isClaimableBalance_of_subentry hsub
  unfold removeEntryWithPossibleSponsorship CanUncount
  cases le.sponsoringID with
  | none =>
    simp only [Runs.bind_iff, runs_loadAccount, runs_checked, runs_storeAccount, canRemoveEntryWithoutSponsorship,
      isAccount_eq hclaim, hsub, computeMultiplier_subentry hsub, Bool.not_true, Bool.false_eq_true, not_false_eq_true,
      true_and]
    constructor
    · intro acc hlookup
      split
      · next hlow =>
        rintro ⟨acc', hlookup', hcount⟩
        rw [hlookup] at hlookup'
        cases hlookup'
        exact UInt32.not_le.mpr hlow hcount
      · next hcount =>
        have hcount : 1 ≤ acc.numSubEntries := UInt32.not_lt.mp hcount
        have hstore := Tallied.store hlookup (bare_removeEntryWithoutSponsorship le acc)
        have heffect : counters id (removeEntryWithoutSponsorship le acc) - counters id acc = -counted le id none := by
          rw [counters_removeEntryWithoutSponsorship id hclaim fun _ => hcount]
          abel
        rw [heffect] at hstore
        exact ⟨⟨acc, hlookup, hcount⟩, hstore⟩
    · rintro hlookup ⟨acc, hlookup', -⟩
      rw [hlookup] at hlookup'
      cases hlookup'
  | some sponsoringID =>
    simp only [hclaim, Bool.false_eq_true, if_false]
    split
    · next hself =>
      rw [Runs.bind_iff, runs_check]
      exact ⟨fun hbalance => by simp [hclaim] at hbalance, fun _ h => h.1 hself⟩
    · next hne =>
      simp only [Runs.bind_iff, runs_check]
      refine ⟨fun hactive => ?_, fun hactive h => hactive h.2.1⟩
      refine (removeEntryWithSponsorship_runs hclaim hne s).mono ?_ ?_
      · intro a s' hs'
        exact ⟨⟨hne, hactive, hs'.1⟩, hs'.2⟩
      · intro e hfails h
        exact hfails h.2.2

end Diamnet.Transactions
