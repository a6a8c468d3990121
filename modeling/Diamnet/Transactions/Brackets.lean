import Diamnet.Transactions.OperationFrame

/-! Sponsorship brackets: what a sequence of BEGIN_SPONSORING_FUTURE_RESERVES and
END_SPONSORING_FUTURE_RESERVES operations keeps of the entries that live within a transaction.

Each counter says how many accounts its account sponsors, and nobody is sponsored while
sponsoring. -/
namespace Diamnet.Transactions
open Ledger AList BeginSponsoringOp Runs

/-- The ledger after an operation is tried: a failed one is rolled back. -/
def OperationFrame.attempt (asDouble : Price → ℚ) (signed : AccountID → AccountEntry → Bool)
    (op : OperationFrame) (ltx : LedgerTxn) : LedgerTxn :=
  match (op.apply asDouble signed).run ltx with
  | .ok (_, ltx') => ltx'
  | .error _ => ltx

def OperationFrame.IsBracket (op : OperationFrame) : Prop :=
  (∃ begin, op.body = .beginSponsoringFutureReserves begin) ∨ op.body = .endSponsoringFutureReserves

def numSponsored (sponsorships : Table AccountID AccountID) (sponsoringID : AccountID) : Int :=
  sponsorships.total fun _ sponsor => if sponsor = sponsoringID then 1 else 0

section
variable (m : Table AccountID AccountID) (id : AccountID)

variable {m id} in
theorem numSponsored_pos_iff : 0 < numSponsored m id ↔ ∃ sponsored, m.lookup sponsored = some id := by
  constructor
  · intro h
    by_contra hnone
    have hzero : numSponsored m id = 0 := by
      apply Table.total_eq_zero
      intro k v hk
      apply if_neg
      rintro rfl
      exact hnone ⟨k, hk⟩
    omega
  · rintro ⟨sponsored, hk⟩
    have hle := Table.le_total m (f := fun _ sponsor => if sponsor = id then 1 else 0)
      (fun k v _ => by split <;> omega) hk
    rw [if_pos rfl] at hle
    exact hle

variable {m} in
theorem numSponsored_insert {sponsored sponsoring : AccountID} (h : m.lookup sponsored = none) :
    numSponsored (m.insert sponsored sponsoring) id =
      numSponsored m id + if sponsoring = id then 1 else 0 := by
  rw [numSponsored, Table.total_insert, Table.at?_of_lookup_none h, sub_zero, numSponsored]

variable {m} in
theorem numSponsored_erase {sponsored sponsoring : AccountID} (h : m.lookup sponsored = some sponsoring) :
    numSponsored (m.erase sponsored) id = numSponsored m id - if sponsoring = id then 1 else 0 := by
  rw [numSponsored, Table.total_erase, Table.at?_of_lookup h, numSponsored]

end

/-- The counters are right, and nobody is sponsored while sponsoring. -/
structure Bracketed (ltx : LedgerTxn) : Prop where
  counted : ∀ id n, ltx.sponsorshipCounters.lookup id = some n →
    0 < n ∧ (n : Int) = numSponsored ltx.sponsorships id
  counts : ∀ id, ltx.sponsorshipCounters.lookup id = none → numSponsored ltx.sponsorships id = 0
  apart : ∀ sponsored sponsoring, ltx.sponsorships.lookup sponsored = some sponsoring →
    ltx.sponsorships.lookup sponsoring = none

namespace Bracketed

theorem empty {ltx : LedgerTxn} (h : ltx.sponsorships = ∅) (h' : ltx.sponsorshipCounters = ∅) : Bracketed ltx where
  counted := by simp [h']
  counts := by simp [h, numSponsored, Table.total]
  apart := by simp [h]

variable {ltx : LedgerTxn}

variable {sponsored sponsoring : AccountID}

theorem counter (h : Bracketed ltx) (hs : ltx.sponsorships.lookup sponsored = some sponsoring) :
    ∃ n, ltx.sponsorshipCounters.lookup sponsoring = some n ∧ 0 < n := by
  have hpos := numSponsored_pos_iff.mpr ⟨sponsored, hs⟩
  cases hn : ltx.sponsorshipCounters.lookup sponsoring with
  | none =>
    have := h.counts sponsoring hn
    omega
  | some n => exact ⟨n, rfl, (h.counted sponsoring n hn).1⟩

theorem open_ (h : Bracketed ltx) (hne : sponsored ≠ sponsoring) (hs : ltx.sponsorships.lookup sponsored = none)
    (hs' : ltx.sponsorships.lookup sponsoring = none) (hc : ltx.sponsorshipCounters.lookup sponsored = none) :
    Bracketed { ltx with
      sponsorships := ltx.sponsorships.insert sponsored sponsoring
      sponsorshipCounters := ltx.sponsorshipCounters.insert sponsoring
        ((ltx.sponsorshipCounters.lookup sponsoring).elim 1 (· + 1)) } where
  counted := by
    intro id n hn
    rw [numSponsored_insert id hs]
    by_cases hid : id = sponsoring
    · subst hid
      rw [lookup_insert] at hn
      rw [if_pos rfl]
      cases hold : ltx.sponsorshipCounters.lookup id with
      | none =>
        rw [hold] at hn
        have := h.counts id hold
        cases hn
        simp only [Option.elim_none]
        omega
      | some k =>
        rw [hold] at hn
        have := h.counted id k hold
        cases hn
        simp only [Option.elim_some]
        omega
    · rw [lookup_insert_ne hid] at hn
      rw [if_neg (Ne.symm hid), add_zero]
      exact h.counted id n hn
  counts := by
    intro id hn
    have hid : id ≠ sponsoring := by
      rintro rfl
      rw [lookup_insert] at hn
      cases hn
    rw [lookup_insert_ne hid] at hn
    rw [numSponsored_insert id hs, if_neg (Ne.symm hid), add_zero]
    exact h.counts id hn
  apart := by
    intro a b hab
    by_cases ha : a = sponsored
    · rw [ha, lookup_insert] at hab
      cases hab
      rw [lookup_insert_ne (Ne.symm hne)]
      exact hs'
    · rw [lookup_insert_ne ha] at hab
      -- the account that is now sponsored sponsors nobody
      have hb : b ≠ sponsored := by
        rintro rfl
        obtain ⟨n, hn, -⟩ := h.counter hab
        rw [hc] at hn
        cases hn
      rw [lookup_insert_ne hb]
      exact h.apart a b hab

theorem close {n : Nat} (h : Bracketed ltx) (hs : ltx.sponsorships.lookup sponsored = some sponsoring)
    (hc : ltx.sponsorshipCounters.lookup sponsoring = some n) :
    Bracketed { ltx with
      sponsorships := ltx.sponsorships.erase sponsored
      sponsorshipCounters := if n = 1 then ltx.sponsorshipCounters.erase sponsoring
        else ltx.sponsorshipCounters.insert sponsoring (n - 1) } where
  counted := by
    intro id k hk
    rw [numSponsored_erase id hs]
    obtain ⟨hpos, hn⟩ := h.counted sponsoring n hc
    by_cases hid : id = sponsoring
    · subst hid
      rw [if_pos rfl]
      split at hk
      · rw [lookup_erase] at hk
        cases hk
      · rw [lookup_insert] at hk
        cases hk
        omega
    · rw [if_neg (Ne.symm hid), sub_zero]
      apply h.counted id k
      split at hk
      · rwa [lookup_erase_ne hid] at hk
      · rwa [lookup_insert_ne hid] at hk
  counts := by
    intro id hk
    rw [numSponsored_erase id hs]
    obtain ⟨hpos, hn⟩ := h.counted sponsoring n hc
    by_cases hid : id = sponsoring
    · subst hid
      rw [if_pos rfl]
      split at hk
      · omega
      · rw [lookup_insert] at hk
        cases hk
    · rw [if_neg (Ne.symm hid), sub_zero]
      apply h.counts id
      split at hk
      · rwa [lookup_erase_ne hid] at hk
      · rwa [lookup_insert_ne hid] at hk
  apart := by
    intro a b hab
    have ha : a ≠ sponsored := by
      rintro rfl
      rw [lookup_erase] at hab
      cases hab
    rw [lookup_erase_ne ha] at hab
    by_cases hb : b = sponsored
    · rw [hb, lookup_erase]
    · rw [lookup_erase_ne hb]
      exact h.apart a b hab

end Bracketed

/-! ### The operations -/

/-- The exceptions a bracket operation does not throw. -/
def badCounter (e : Failure) : Prop :=
  e = .fault (.runtimeError "no sponsorship counter") ∨ e = .fault (.runtimeError "bad sponsorship counter")

variable {ltx : LedgerTxn}

theorem begin_runs (h : Bracketed ltx) (op : BeginSponsoringOp) {source : AccountID} (hne : op.sponsoredID ≠ source) :
    Runs (op.doApply source) ltx (fun _ ltx' => Bracketed ltx') (fun e => ¬badCounter e) := by
  unfold doApply createSponsorship countSponsorship
  simp only [bind_iff, runs_findSponsorship, runs_findSponsorshipCounter, runs_expect, runs_check,
    modify_iff]
  refine ⟨fun hs => ⟨fun hs' => ⟨fun hc => ⟨fun _ => h.open_ hne hs hs' hc, ?_⟩, ?_⟩, ?_⟩, ?_⟩ <;>
    simp [badCounter]

theorem end_runs (h : Bracketed ltx) (source : AccountID) :
    Runs (EndSponsoringOp.doApply source) ltx (fun _ ltx' => Bracketed ltx') (fun e => ¬badCounter e) := by
  unfold EndSponsoringOp.doApply
  rw [bind_iff, runs_findSponsorship]
  cases hs : ltx.sponsorships.lookup source with
  | none => simp [badCounter]
  | some sponsoring =>
    obtain ⟨n, hn, hpos⟩ := h.counter hs
    unfold EndSponsoringOp.uncountSponsorship
    simp only [bind_iff, runs_findSponsorshipCounter, hn, runs_check, modify_iff]
    exact ⟨fun _ => h.close hs hn, fun h0 => absurd hpos (by omega)⟩

theorem checkValid_runs (signed : AccountID → AccountEntry → Bool) (op : OperationFrame) :
    Runs (op.checkValid signed) ltx
      (fun _ ltx' => ltx' = ltx ∧ op.body.doCheckValid op.source ltx.header.ledgerVersion = .ok ())
      (fun e => ∃ code, e = .result code) := by
  unfold OperationFrame.checkValid
  simp only [bind_iff, runs_getHeader, runs_expect, runs_findAccount]
  refine ⟨fun _ => ?_, fun _ => ⟨_, rfl⟩⟩
  cases ltx.accounts.lookup op.source with
  | none => exact ⟨_, rfl⟩
  | some acc =>
    simp only [bind_iff, runs_expect]
    refine ⟨fun _ => ?_, fun _ => ⟨_, rfl⟩⟩
    cases hvalid : op.body.doCheckValid op.source ltx.header.ledgerVersion with
    | ok u => exact ⟨rfl, rfl⟩
    | error code => exact ⟨code, rfl⟩

/-- One bracket operation keeps the brackets, and never finds a counter missing or zero. -/
theorem bracket_runs (h : Bracketed ltx) (asDouble : Price → ℚ) (signed : AccountID → AccountEntry → Bool)
    {op : OperationFrame} (hop : op.IsBracket) :
    Runs (op.apply asDouble signed) ltx (fun _ ltx' => Bracketed ltx') (fun e => ¬badCounter e) := by
  apply bind ((checkValid_runs signed op).mono (fun _ _ hq => hq) ?_)
  · rintro _ _ ⟨rfl, hvalid⟩
    obtain ⟨begin, hbegin⟩ | hend := hop
    · rw [hbegin] at hvalid ⊢
      have hne : begin.sponsoredID ≠ op.source := by
        intro heq
        rw [OperationBody.doCheckValid, doCheckValid, if_pos heq] at hvalid
        cases hvalid
      exact bind (begin_runs h begin hne) fun _ _ h' => h'
    · rw [hend]
      exact bind (end_runs h op.source) fun _ _ h' => h'
  · rintro e ⟨code, rfl⟩
    simp [badCounter]

theorem Bracketed.attempt (h : Bracketed ltx) (asDouble : Price → ℚ) (signed : AccountID → AccountEntry → Bool)
    {op : OperationFrame} (hop : op.IsBracket) : Bracketed (op.attempt asDouble signed ltx) := by
  have hruns : Meets ((op.apply asDouble signed).run ltx) _ _ := bracket_runs h asDouble signed hop
  unfold OperationFrame.attempt
  cases hrun : (op.apply asDouble signed).run ltx with
  | ok p => exact hruns.of_ok hrun
  | error e => exact h

theorem Bracketed.attempts (h : Bracketed ltx) (asDouble : Price → ℚ) (signed : AccountID → AccountEntry → Bool)
    (ops : List OperationFrame) (hops : ∀ op ∈ ops, op.IsBracket) :
    Bracketed (ops.foldl (fun s op => op.attempt asDouble signed s) ltx) := by
  induction ops generalizing ltx with
  | nil => exact h
  | cons op ops ih =>
    obtain ⟨hop, hops⟩ := List.forall_mem_cons.mp hops
    exact ih (h.attempt asDouble signed hop) hops

/-- **After any bracket operations of a transaction, each account has at most one sponsor, an
account has a counter exactly if it sponsors some account, the counter is how many, and nobody
is sponsored while sponsoring; the next such operation throws neither exception about
counters.** -/
theorem brackets_balanced (asDouble : Price → ℚ) (signed : AccountID → AccountEntry → Bool) (ltx : LedgerTxn)
    (ops : List OperationFrame) (hnone : ltx.sponsorships = ∅) (hnone' : ltx.sponsorshipCounters = ∅)
    (hops : ∀ op ∈ ops, op.IsBracket) :
    let ltx' := ops.foldl (fun s op => op.attempt asDouble signed s) ltx
    ltx'.sponsorships.keys.Nodup ∧
    (∀ id, (∃ n, ltx'.sponsorshipCounters.lookup id = some n) ↔
      ∃ sponsored, ltx'.sponsorships.lookup sponsored = some id) ∧
    (∀ id n, ltx'.sponsorshipCounters.lookup id = some n → (n : Int) = numSponsored ltx'.sponsorships id) ∧
    (∀ id, ¬((∃ sponsor, ltx'.sponsorships.lookup id = some sponsor) ∧
      ∃ sponsored, ltx'.sponsorships.lookup sponsored = some id)) ∧
    ∀ op : OperationFrame, op.IsBracket → ∀ e, (op.apply asDouble signed).run ltx' = .error e → ¬badCounter e := by
  intro ltx'
  have h : Bracketed ltx' := (Bracketed.empty hnone hnone').attempts asDouble signed ops hops
  refine ⟨keys_nodup _, fun id => ⟨?_, ?_⟩, fun id n hn => (h.counted id n hn).2, ?_, ?_⟩
  · rintro ⟨n, hn⟩
    obtain ⟨hpos, hcount⟩ := h.counted id n hn
    exact numSponsored_pos_iff.mp (by omega)
  · rintro ⟨sponsored, hs⟩
    obtain ⟨n, hn, -⟩ := h.counter hs
    exact ⟨n, hn⟩
  · rintro id ⟨⟨sponsor, hsponsor⟩, sponsored, hs⟩
    have := h.apart sponsored id hs
    rw [hsponsor] at this
    cases this
  · intro op hop e he
    have hruns : Meets ((op.apply asDouble signed).run ltx') _ _ := bracket_runs h asDouble signed hop
    exact hruns.of_error he

def threeAccounts : LedgerTxn where
  header := ⟨14, 100, 0, 3000, 0, 0, 0, 10, 100, 1000⟩
  accounts := ((∅ : Table AccountID AccountEntry).insert 1 ⟨1000, 1, 0, none, 0, [], {}, [], {}, none, none⟩
    |>.insert 2 ⟨1000, 1, 0, none, 0, [], {}, [], {}, none, none⟩
    |>.insert 3 ⟨1000, 1, 0, none, 0, [], {}, [], {}, none, none⟩)

/-- Account 1 sponsors 2 and 3; that 2 sponsors 1 fails. -/
def nestedBrackets : List OperationFrame :=
  [⟨1, .beginSponsoringFutureReserves ⟨2⟩⟩, ⟨1, .beginSponsoringFutureReserves ⟨3⟩⟩,
    ⟨2, .beginSponsoringFutureReserves ⟨1⟩⟩]

theorem nestedBrackets_balanced :
    let ltx' := nestedBrackets.foldl (fun s op => op.attempt (fun _ => 0) (fun _ _ => true) s) threeAccounts
    ltx'.sponsorshipCounters.lookup 1 = some 2 ∧ ltx'.sponsorshipCounters.lookup 2 = none ∧
    ∀ id n, ltx'.sponsorshipCounters.lookup id = some n → (n : Int) = numSponsored ltx'.sponsorships id := by
  refine ⟨by decide +kernel, by decide +kernel, ?_⟩
  have hops : ∀ op ∈ nestedBrackets, op.IsBracket := by
    intro op hop
    simp only [nestedBrackets, List.mem_cons, List.not_mem_nil, or_false] at hop
    obtain rfl | rfl | rfl := hop <;> exact .inl ⟨_, rfl⟩
  exact (brackets_balanced (fun _ => 0) (fun _ _ => true) threeAccounts nestedBrackets rfl rfl hops).2.2.1

end Diamnet.Transactions
