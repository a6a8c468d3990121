import Diamnet.Transactions.Accounting

/-! What a change of a balance or of liabilities requires, and what it does. -/
namespace Diamnet.Transactions
open Ledger TrustLineWrapper

section
variable {α : Type} {a a' : α} (store : Int → α) {stored delta most : Int} {lh : LedgerHeader}

theorem getLiabilities_bind {l : Liabilities} {f : Liabilities → Except Fault (Option α)} {P : Prop} (hstore : store stored = a)
    (h : 10 ≤ lh.ledgerVersion → delta ≠ 0 → (f l = .ok (some a') ↔ a' = store (stored + delta) ∧ P)) :
    (getLiabilities lh l >>= fun l => if delta = 0 then pure (some a) else f l) = .ok (some a') ↔
      10 ≤ lh.ledgerVersion ∧ a' = store (stored + delta) ∧ (delta ≠ 0 → P) := by
  unfold getLiabilities
  split
  · next hv => exact ⟨fun h => (nomatch h), fun h => absurd h.1 (not_le.mpr hv)⟩
  · next hv =>
    split
    · next hzero =>
      subst hstore
      simp [hzero, not_lt.mp hv, pure, Except.pure, eq_comm]
    · next hzero => simp [h (not_lt.mp hv) hzero, not_lt.mp hv, hzero]

variable {store}

theorem addBalance_map (hdelta : delta ≠ 0) :
    (addBalance stored delta most >>= fun x? => pure (x?.map store)) = .ok (some a) ↔
      a = store (stored + delta) ∧ 0 ≤ stored ∧ 0 ≤ stored + delta ∧ stored + delta ≤ most := by
  unfold addBalance
  split
  · show Except.ok _ = Except.ok _ ↔ _
    grind
  · exact ⟨fun h => (nomatch h), by grind⟩

theorem int64_addBalance_map (hdelta : delta ≠ 0) :
    (int64 most >>= fun most => addBalance stored delta most >>= fun x? => pure (x?.map store)) = .ok (some a) ↔
      a = store (stored + delta) ∧ 0 ≤ stored ∧ 0 ≤ stored + delta ∧ stored + delta ≤ most ∧ most ≤ INT64_MAX := by
  simp only [bind_eq_ok (x := int64 most), int64_eq_ok, addBalance_map hdelta]
  grind [INT64_MIN]

end

/-! ### On the ledger -/

section
variable {s : LedgerTxn} {Q : Bool → LedgerTxn → Prop} {E : Failure → Prop} {id : AccountID}

theorem updateAccount_runs {acc : AccountEntry}
    {change : LedgerHeader → AccountEntry → Except Fault (Option AccountEntry)} (hacc : s.accounts.lookup id = some acc) :
    Runs (updateAccount id change) s Q E ↔ Meets (change s.header acc)
      (fun r => match r with
        | some acc' => Q true { s with accounts := s.accounts.insert id acc' }
        | none => Q false s)
      (fun f => E (.fault f)) := by
  unfold updateAccount
  simp only [Runs.bind_iff, runs_getHeader, runs_loadAccount, runs_checked, hacc, Option.some.injEq, forall_eq',
    reduceCtorEq, false_implies, and_true]
  cases change s.header acc with
  | error f => rfl
  | ok r => cases r <;> rfl

variable {change : LedgerHeader → TrustLineEntry → Except Fault (Option TrustLineEntry)} {asset : Asset}

theorem updateLine_runs {tl : TrustLineEntry} (htl : s.trustLines.lookup (id, asset) = some tl) :
    Runs ((nonIssuer id asset).update change) s Q E ↔ Meets (change s.header tl)
      (fun r => match r with
        | some tl' => Q true { s with trustLines := s.trustLines.insert (id, asset) tl' }
        | none => Q false s)
      (fun f => E (.fault f)) := by
  unfold update entry
  simp only [Runs.bind_iff, runs_getHeader, runs_findTrustLine, runs_checked, htl, Runs.pure_iff]
  cases change s.header tl with
  | error f => rfl
  | ok r => cases r <;> rfl

variable {what : String} {R : Unit → LedgerTxn → Prop}

theorem mustUpdateAccount_ensures {change : LedgerHeader → AccountEntry → Except Fault (Option AccountEntry)}
    (h : ∀ acc acc', s.accounts.lookup id = some acc → change s.header acc = .ok (some acc') → R () { s with accounts := s.accounts.insert id acc' }) :
    Ensures (must (updateAccount id change) what) s R := by
  rw [Ensures, runs_must]
  cases hacc : s.accounts.lookup id with
  | none =>
    unfold updateAccount
    simp [Runs.bind_iff, hacc]
  | some acc =>
    rw [updateAccount_runs hacc]
    cases hchange : change s.header acc with
    | error f => trivial
    | ok r =>
      cases r with
      | none => simp
      | some acc' => simpa using h acc acc' hacc hchange

theorem mustUpdateAccount_runs {acc acc' : AccountEntry}
    {change : LedgerHeader → AccountEntry → Except Fault (Option AccountEntry)}
    (hacc : s.accounts.lookup id = some acc) (hchange : change s.header acc = .ok (some acc'))
    (h : R () { s with accounts := s.accounts.insert id acc' }) :
    Runs (must (updateAccount id change) what) s R E := by
  rw [runs_must, updateAccount_runs hacc, hchange]
  simpa using h

theorem mustUpdateLine_ensures
    (h : ∀ tl tl', s.trustLines.lookup (id, asset) = some tl → change s.header tl = .ok (some tl') → R () { s with trustLines := s.trustLines.insert (id, asset) tl' }) :
    Ensures (must ((nonIssuer id asset).update change) what) s R := by
  rw [Ensures, runs_must]
  cases htl : s.trustLines.lookup (id, asset) with
  | none =>
    unfold update entry
    simp [Runs.bind_iff, htl]
  | some tl =>
    rw [updateLine_runs htl]
    cases hchange : change s.header tl with
    | error f => trivial
    | ok r =>
      cases r with
      | none => simp
      | some tl' => simpa using h tl tl' htl hchange

theorem mustUpdateLine_runs {tl tl' : TrustLineEntry} (htl : s.trustLines.lookup (id, asset) = some tl)
    (hchange : change s.header tl = .ok (some tl'))
    (h : R () { s with trustLines := s.trustLines.insert (id, asset) tl' }) :
    Runs (must ((nonIssuer id asset).update change) what) s R E := by
  rw [runs_must, updateLine_runs htl, hchange]
  simpa using h

end

/-! ### Accounts -/

namespace AccountEntry

variable {lh : LedgerHeader} {acc acc' : AccountEntry} {delta : Int}

/-- The reserve leaves room for `amount` of selling liabilities. -/
def Reserves (lh : LedgerHeader) (acc : AccountEntry) (amount : Int) : Prop :=
  ∃ minBalance, getMinBalance lh acc = .ok minBalance ∧
    (INT64_MIN ≤ acc.balance - minBalance ∧ acc.balance - minBalance ≤ INT64_MAX) ∧ amount ≤ acc.balance - minBalance

theorem addSellingLiabilities_iff : addSellingLiabilities lh acc delta = .ok (some acc') ↔ 10 ≤ lh.ledgerVersion ∧
    acc' = { acc with liabilities := { acc.liabilities with selling := acc.liabilities.selling + delta } } ∧
    (delta ≠ 0 → 0 ≤ acc.liabilities.selling ∧ 0 ≤ acc.liabilities.selling + delta ∧
      Reserves lh acc (acc.liabilities.selling + delta)) := by
  refine getLiabilities_bind (fun x => { acc with liabilities := { acc.liabilities with selling := x } }) rfl fun _ hdelta => ?_
  constructor
  · intro h
    obtain ⟨minBalance, hm, h⟩ := bind_eq_ok.mp h
    obtain ⟨most, hmost, h⟩ := bind_eq_ok.mp h
    obtain ⟨rfl, hrange⟩ := int64_eq_ok.mp hmost
    split at h
    · cases h
    · obtain ⟨heq, hstored, hlow, hfits⟩ := (addBalance_map hdelta).mp h
      exact ⟨heq, hstored, hlow, minBalance, hm, hrange, hfits⟩
  · rintro ⟨heq, hstored, hlow, minBalance, hm, hrange, hfits⟩
    rw [hm, ok_bind, int64_eq_ok.mpr ⟨rfl, hrange⟩, ok_bind, if_neg (not_lt.mpr (hlow.trans hfits))]
    exact (addBalance_map hdelta).mpr ⟨heq, hstored, hlow, hfits⟩

theorem addBuyingLiabilities_iff : addBuyingLiabilities lh acc delta = .ok (some acc') ↔ 10 ≤ lh.ledgerVersion ∧
    acc' = { acc with liabilities := { acc.liabilities with buying := acc.liabilities.buying + delta } } ∧
    (delta ≠ 0 → 0 ≤ acc.liabilities.buying ∧ 0 ≤ acc.liabilities.buying + delta ∧
      acc.liabilities.buying + delta ≤ INT64_MAX - acc.balance ∧ INT64_MAX - acc.balance ≤ INT64_MAX) := by
  refine getLiabilities_bind (fun x => { acc with liabilities := { acc.liabilities with buying := x } }) rfl fun _ hdelta => ?_
  exact int64_addBalance_map hdelta

end AccountEntry

/-! ### Trust lines -/

namespace TrustLineEntry

variable {lh : LedgerHeader} {tl tl' : TrustLineEntry} {delta : Int}

theorem checkAuthorization_bind {f : Bool → Except Fault (Option TrustLineEntry)} (hv : 10 ≤ lh.ledgerVersion) :
    (checkAuthorization lh tl >>= f) = .ok (some tl') ↔ isAuthorizedToMaintainLiabilities tl = true ∧ f true = .ok (some tl') := by
  rw [checkAuthorization, if_neg (not_lt.mpr hv)]
  split
  · next hauth => simp [hauth]
  · next hauth => exact ⟨fun h => (nomatch h), fun h => absurd h.1 hauth⟩

theorem addSellingLiabilities_iff : addSellingLiabilities lh tl delta = .ok (some tl') ↔ 10 ≤ lh.ledgerVersion ∧
    tl' = { tl with liabilities := { tl.liabilities with selling := tl.liabilities.selling + delta } } ∧
    (delta ≠ 0 → isAuthorizedToMaintainLiabilities tl = true ∧ 0 ≤ tl.liabilities.selling ∧
      0 ≤ tl.liabilities.selling + delta ∧ tl.liabilities.selling + delta ≤ tl.balance) := by
  refine getLiabilities_bind (fun x => { tl with liabilities := { tl.liabilities with selling := x } }) rfl fun hv hdelta => ?_
  rw [checkAuthorization_bind hv, if_pos rfl, addBalance_map hdelta, and_left_comm]

theorem addBuyingLiabilities_iff : addBuyingLiabilities lh tl delta = .ok (some tl') ↔ 10 ≤ lh.ledgerVersion ∧
    tl' = { tl with liabilities := { tl.liabilities with buying := tl.liabilities.buying + delta } } ∧
    (delta ≠ 0 → isAuthorizedToMaintainLiabilities tl = true ∧ 0 ≤ tl.liabilities.buying ∧
      0 ≤ tl.liabilities.buying + delta ∧ tl.liabilities.buying + delta ≤ tl.limit - tl.balance ∧
      tl.limit - tl.balance ≤ INT64_MAX) := by
  refine getLiabilities_bind (fun x => { tl with liabilities := { tl.liabilities with buying := x } }) rfl fun hv hdelta => ?_
  rw [checkAuthorization_bind hv, if_pos rfl, int64_addBalance_map hdelta, and_left_comm]

end TrustLineEntry

end Diamnet.Transactions
