import Diamnet.Bucket.Bucket

/-! Applying a bucket to the database (`BucketApplicator.cpp`).

The records of a bucket are written in transactions of limited size, one for each call of
`advance`; the iterator keeps the position from one call to the next. A call that stops at its
limit leaves the iterator at the record that it wrote last, and the next call writes that
record again. -/
namespace Diamnet.Buckets
open List

variable {K E : Type}

def LEDGER_ENTRY_BATCH_COMMIT_SIZE : Nat := 0xfff

inductive LedgerEntryType where
  | account
  | trustline
  | offer
  | data
  | claimableBalance
deriving DecidableEq

/-- How many records of each type were applied, since the counters were reset. -/
structure Counters where
  upserts : LedgerEntryType → Nat
  deletes : LedgerEntryType → Nat

namespace Counters

def reset : Counters := ⟨fun _ => 0, fun _ => 0⟩

def mark (typeOf : K → LedgerEntryType) (counters : Counters) (e : BucketEntry K E) : Counters :=
  let type := typeOf e.key
  match e.record with
  | .dead => { counters with deletes := Function.update counters.deletes type (counters.deletes type + 1) }
  | _ => { counters with upserts := Function.update counters.upserts type (counters.upserts type + 1) }

def total (counters : Counters) : Nat :=
  counters.upserts .account + counters.deletes .account + counters.upserts .trustline + counters.deletes .trustline +
    counters.upserts .offer + counters.deletes .offer + counters.upserts .data + counters.deletes .data +
    counters.upserts .claimableBalance + counters.deletes .claimableBalance

theorem total_mark (typeOf : K → LedgerEntryType) (counters : Counters) (e : BucketEntry K E) :
    (counters.mark typeOf e).total = counters.total + 1 := by
  unfold mark total
  cases e.record <;> cases typeOf e.key <;> simp [Function.update] <;> omega

theorem total_foldl_mark (typeOf : K → LedgerEntryType) (counters : Counters) (l : List (BucketEntry K E)) :
    (l.foldl (mark typeOf) counters).total = counters.total + l.length := by
  induction l generalizing counters with
  | nil => rfl
  | cons e rest ih =>
    rw [foldl_cons, ih, total_mark, length_cons]
    omega

end Counters

structure BucketApplicator (K E : Type) where
  maxProtocolVersion : Nat
  /-- The records from the position of the iterator on. -/
  bucketIter : List (BucketEntry K E)
  count : Nat := 0

/-- What a call of `advance` leaves: what its transaction wrote, in order, and how many records
it counted. -/
structure Advanced (K E : Type) where
  writes : List (BucketEntry K E)
  count : Nat
  bucketIter : List (BucketEntry K E)
  counters : Counters

variable (typeOf : K → LedgerEntryType)

namespace BucketApplicator

def new [LinearOrder K] (maxProtocolVersion : Nat) (bucket : Bucket K E) : Except MergeError (BucketApplicator K E) :=
  if bucket.version > maxProtocolVersion then throw .exceedsMaxProtocolVersion
  else pure { maxProtocolVersion, bucketIter := bucket.entries }

def advanceLoop (maxProtocolVersion : Nat) : (count : Nat) → Counters → List (BucketEntry K E) →
    Except MergeError (Advanced K E)
  | count, counters, [] => pure ⟨[], count, [], counters⟩
  | count, counters, e :: rest => do
    checkProtocolLegality e maxProtocolVersion
    let counters := counters.mark typeOf e
    let count := count + 1
    -- the loop is left without a step of the iterator
    if count > LEDGER_ENTRY_BATCH_COMMIT_SIZE then pure ⟨[e], count, e :: rest, counters⟩
    else do
      let done ← advanceLoop maxProtocolVersion count counters rest
      return { done with writes := e :: done.writes }

def advance (applicator : BucketApplicator K E) (counters : Counters) :
    Except MergeError (BucketApplicator K E × Advanced K E) := do
  let done ← advanceLoop typeOf applicator.maxProtocolVersion 0 counters applicator.bucketIter
  return ({ applicator with bucketIter := done.bucketIter, count := applicator.count + done.count }, done)

/-- What a call on these records leaves, if no record is illegal. -/
def batch (count : Nat) (counters : Counters) (l : List (BucketEntry K E)) : Advanced K E :=
  let writes := l.take (LEDGER_ENTRY_BATCH_COMMIT_SIZE - count + 1)
  { writes
    count := count + writes.length
    bucketIter := l.drop (LEDGER_ENTRY_BATCH_COMMIT_SIZE - count)
    counters := writes.foldl (Counters.mark typeOf) counters }

variable {typeOf}

theorem batch_cons_of_lt {count : Nat} (h : count < LEDGER_ENTRY_BATCH_COMMIT_SIZE) (counters : Counters)
    (e : BucketEntry K E) (rest : List (BucketEntry K E)) :
    batch typeOf count counters (e :: rest) =
      { batch typeOf (count + 1) (counters.mark typeOf e) rest with
        writes := e :: (batch typeOf (count + 1) (counters.mark typeOf e) rest).writes } := by
  obtain ⟨left, hleft⟩ := Nat.exists_eq_add_of_lt h
  have hnow : LEDGER_ENTRY_BATCH_COMMIT_SIZE - count = left + 1 := by omega
  have hnext : LEDGER_ENTRY_BATCH_COMMIT_SIZE - (count + 1) = left := by omega
  simp only [batch, hnow, hnext, take_succ_cons, drop_succ_cons, length_cons, foldl_cons]
  congr 1
  omega

theorem batch_cons_of_eq (counters : Counters) (e : BucketEntry K E) (rest : List (BucketEntry K E)) :
    batch typeOf LEDGER_ENTRY_BATCH_COMMIT_SIZE counters (e :: rest) =
      ⟨[e], LEDGER_ENTRY_BATCH_COMMIT_SIZE + 1, e :: rest, counters.mark typeOf e⟩ := by
  simp [batch]

/-- A call takes what its limit allows and steps back by one record, unless a record is illegal. -/
theorem advanceLoop_meets {maxProtocolVersion count : Nat} (hcount : count ≤ LEDGER_ENTRY_BATCH_COMMIT_SIZE)
    (counters : Counters) (l : List (BucketEntry K E)) :
    Meets (advanceLoop typeOf maxProtocolVersion count counters l) (· = batch typeOf count counters l)
      (fun _ => ¬Legal maxProtocolVersion l) := by
  induction l generalizing count counters with
  | nil => simp [advanceLoop, batch]
  | cons e rest ih =>
    rw [advanceLoop, checkProtocolLegality]
    split
    · next hillegal =>
      exact fun hlegal => Nat.not_lt.mpr (hlegal e (.head _) hillegal.2) hillegal.1
    · rw [pure_bind]
      dsimp only
      split
      · next hlast =>
        obtain rfl : count = LEDGER_ENTRY_BATCH_COMMIT_SIZE := by omega
        exact (batch_cons_of_eq counters e rest).symm
      · next hmore =>
        have hnext : count + 1 ≤ LEDGER_ENTRY_BATCH_COMMIT_SIZE := by omega
        refine Meets.bind_iff.mpr ((ih hnext (counters.mark typeOf e)).mono ?_ ?_)
        · intro done hdone
          rw [hdone]
          exact (batch_cons_of_lt hnext counters e rest).symm
        · exact fun _ hrest hlegal => hrest fun e he => hlegal e (.tail _ he)

theorem advance_meets (applicator : BucketApplicator K E) (counters : Counters) :
    Meets (applicator.advance typeOf counters)
      (fun r => r.1.maxProtocolVersion = applicator.maxProtocolVersion ∧ r.1.bucketIter = r.2.bucketIter ∧
        r.2 = batch typeOf 0 counters applicator.bucketIter)
      (fun _ => ¬Legal applicator.maxProtocolVersion applicator.bucketIter) :=
  Meets.bind (advanceLoop_meets (Nat.zero_le _) counters applicator.bucketIter) fun _ hdone => ⟨rfl, rfl, hdone⟩

theorem advance_lt {applicator : BucketApplicator K E} {counters : Counters} {r : BucketApplicator K E × Advanced K E}
    (h : applicator.advance typeOf counters = .ok r) (hmore : applicator.bucketIter ≠ []) :
    r.1.bucketIter.length < applicator.bucketIter.length := by
  obtain ⟨-, hiter, hbatch⟩ := (advance_meets applicator counters).of_ok h
  have hpos := length_pos_iff.mpr hmore
  rw [hiter, hbatch, batch, length_drop, LEDGER_ENTRY_BATCH_COMMIT_SIZE]
  omega

variable (typeOf)

/-- `advance` for as long as there are records: what each call did, and the counters. -/
def applyAll (applicator : BucketApplicator K E) (counters : Counters) :
    Except MergeError (List (Advanced K E) × Counters) :=
  if hmore : applicator.bucketIter = [] then pure ([], counters)
  else
    match h : applicator.advance typeOf counters with
    | .error e => throw e
    | .ok r =>
      have : r.1.bucketIter.length < applicator.bucketIter.length := advance_lt h hmore
      do
        let (calls, counters) ← applyAll r.1 r.2.counters
        return (r.2 :: calls, counters)
termination_by applicator.bucketIter.length

/-! ### What is written -/

/-- The transactions in which records are written: each begins with the record that the one
before it ended with. -/
inductive Drains : List (BucketEntry K E) → List (Advanced K E) → Counters → Counters → Prop where
  | nil (counters : Counters) : Drains [] [] counters counters
  | cons {l : List (BucketEntry K E)} {calls : List (Advanced K E)} {counters after : Counters} (hmore : l ≠ [])
      (hrest : Drains (l.drop LEDGER_ENTRY_BATCH_COMMIT_SIZE) calls (batch typeOf 0 counters l).counters after) :
      Drains l (batch typeOf 0 counters l :: calls) counters after

variable {typeOf}

/-- **Applying a bucket ends**, with all records written unless one of them is illegal. -/
theorem applyAll_meets (applicator : BucketApplicator K E) (counters : Counters) :
    Meets (applicator.applyAll typeOf counters) (fun r => Drains typeOf applicator.bucketIter r.1 counters r.2)
      (fun _ => ¬Legal applicator.maxProtocolVersion applicator.bucketIter) := by
  induction hn : applicator.bucketIter.length using Nat.strong_induction_on generalizing applicator counters with
  | _ n ih =>
    rw [applyAll]
    split
    · next hnone =>
      rw [hnone]
      exact .nil counters
    · next hmore =>
      have hmeets : Meets (applicator.advance typeOf counters) _ _ := advance_meets applicator counters
      split
      · next e he => exact hmeets.of_error he
      · next r hr =>
        obtain ⟨hmax, hiter, hbatch⟩ := hmeets.of_ok hr
        have hlt := advance_lt hr hmore
        have hdrop : r.1.bucketIter = applicator.bucketIter.drop LEDGER_ENTRY_BATCH_COMMIT_SIZE := by
          rw [hiter, hbatch]
          rfl
        refine Meets.bind_iff.mpr ((ih _ (hn ▸ hlt) r.1 r.2.counters rfl).mono ?_ ?_)
        · intro rest hrest
          rw [hdrop, hbatch] at hrest
          rw [hbatch]
          exact .cons hmore hrest
        · intro _ hillegal hlegal
          rw [hmax, hdrop] at hillegal
          exact hillegal fun e he => hlegal e (mem_of_mem_drop he)

namespace Drains
variable {l : List (BucketEntry K E)} {calls : List (Advanced K E)} {counters after : Counters}

theorem count_eq (h : Drains typeOf l calls counters after) :
    (calls.map (·.count)).sum = (calls.flatMap (·.writes)).length := by
  induction h with
  | nil => rfl
  | cons _ _ ih =>
    rw [map_cons, sum_cons, ih, flatMap_cons, length_append]
    exact congrArg (· + _) (Nat.zero_add _)

theorem total_eq (h : Drains typeOf l calls counters after) :
    after.total = counters.total + (calls.flatMap (·.writes)).length := by
  induction h with
  | nil => rfl
  | @cons l calls counters after _ _ ih =>
    rw [ih, flatMap_cons, length_append]
    show ((l.take _).foldl _ counters).total + _ = _
    rw [Counters.total_foldl_mark, Nat.add_assoc]
    rfl

theorem length_writes (h : Drains typeOf l calls counters after) :
    (calls.flatMap (·.writes)).length = l.length + (l.length - 1) / LEDGER_ENTRY_BATCH_COMMIT_SIZE := by
  induction h with
  | nil => simp
  | @cons l calls counters after _ _ ih =>
    rw [flatMap_cons, length_append, ih]
    show (l.take _).length + _ = _
    rw [length_take, length_drop, LEDGER_ENTRY_BATCH_COMMIT_SIZE]
    omega

theorem writes_eq (h : Drains typeOf l calls counters after) (hlen : l.length ≤ LEDGER_ENTRY_BATCH_COMMIT_SIZE) :
    calls.flatMap (·.writes) = l := by
  cases h with
  | nil => rfl
  | cons _ hrest =>
    rw [drop_of_length_le hlen] at hrest
    cases hrest with
    | nil =>
      show l.take _ ++ [] = l
      rw [append_nil]
      exact take_of_length_le (Nat.le_succ_of_le hlen)
    | cons hmore _ => exact absurd rfl hmore

end Drains

/-- Every record once and in order, and the number of records as the sum of the counts that are
returned and in the counters. -/
structure ExactlyOnce (entries : List (BucketEntry K E)) (calls : List (Advanced K E)) (after : Counters) : Prop where
  writes : calls.flatMap (·.writes) = entries
  count : (calls.map (·.count)).sum = entries.length
  counters : after.total = entries.length

theorem Drains.exactlyOnce_iff {entries : List (BucketEntry K E)} {calls : List (Advanced K E)} {after : Counters}
    (h : Drains typeOf entries calls Counters.reset after) :
    ExactlyOnce entries calls after ↔ entries.length ≤ LEDGER_ENTRY_BATCH_COMMIT_SIZE := by
  have hlength := h.length_writes
  constructor
  · intro honce
    rw [honce.writes, LEDGER_ENTRY_BATCH_COMMIT_SIZE] at hlength
    rw [LEDGER_ENTRY_BATCH_COMMIT_SIZE]
    omega
  · intro hlen
    have hwrites := h.writes_eq hlen
    exact ⟨hwrites, by rw [h.count_eq, hwrites], by rw [h.total_eq, hwrites]; exact Nat.zero_add _⟩

theorem applyAll_drains [LinearOrder K] (typeOf : K → LedgerEntryType) {maxProtocolVersion : Nat} {bucket : Bucket K E}
    (hversion : bucket.version ≤ maxProtocolVersion) (counters : Counters) : ∃ applicator calls after,
      BucketApplicator.new maxProtocolVersion bucket = .ok applicator ∧
      applicator.applyAll typeOf counters = .ok (calls, after) ∧
      Drains typeOf bucket.entries calls counters after := by
  let applicator : BucketApplicator K E := { maxProtocolVersion, bucketIter := bucket.entries }
  have hlegal : Legal maxProtocolVersion bucket.entries := fun e he hinit => (bucket.legal e he hinit).trans hversion
  have hmeets : Meets (applicator.applyAll typeOf counters) _ _ := applyAll_meets applicator counters
  obtain ⟨⟨calls, after⟩, hrun, hdrains⟩ := (hmeets.mono (fun _ h => h) fun _ h => h hlegal).exists_ok
  exact ⟨applicator, calls, after, if_neg (Nat.not_lt.mpr hversion), hrun, hdrains⟩

/-- **The records of a bucket are applied exactly once if and only if they fit into one
transaction.** Of a larger bucket, the last record of each transaction but the last is applied
and counted again. -/
theorem applyAll_exactlyOnce_iff [LinearOrder K] (typeOf : K → LedgerEntryType) {maxProtocolVersion : Nat}
    {bucket : Bucket K E} (hversion : bucket.version ≤ maxProtocolVersion) : ∃ applicator calls after,
      BucketApplicator.new maxProtocolVersion bucket = .ok applicator ∧
      applicator.applyAll typeOf Counters.reset = .ok (calls, after) ∧
      (ExactlyOnce bucket.entries calls after ↔ bucket.entries.length ≤ LEDGER_ENTRY_BATCH_COMMIT_SIZE) := by
  obtain ⟨applicator, calls, after, hnew, hrun, hdrains⟩ := applyAll_drains typeOf hversion Counters.reset
  exact ⟨applicator, calls, after, hnew, hrun, hdrains.exactlyOnce_iff⟩

def updates (n : Nat) : Bucket Nat Nat where
  metadata := none
  entries := (range n).map fun k => ⟨k, .live k⟩
  sorted := pairwise_map.mpr pairwise_lt_range
  legal := by
    intro e he hinit
    obtain ⟨k, -, rfl⟩ := mem_map.mp he
    cases hinit

theorem version_updates (n : Nat) : (updates n).version ≤ 12 := Nat.zero_le 12

/-- Of 4096 records one is applied twice. -/
theorem applyAll_again : ∃ applicator calls after,
    BucketApplicator.new 12 (updates 4096) = .ok applicator ∧
    applicator.applyAll (fun _ => .account) Counters.reset = .ok (calls, after) ∧
    (calls.map (·.count)).sum = 4097 ∧ after.total = 4097 ∧
    (calls.flatMap (·.writes)).length = 4097 ∧ (updates 4096).entries.length = 4096 := by
  obtain ⟨applicator, calls, after, hnew, hrun, hdrains⟩ :=
    applyAll_drains (fun _ => .account) (version_updates 4096) Counters.reset
  have hlen : (updates 4096).entries.length = 4096 := by simp [updates]
  have hwrites : (calls.flatMap (·.writes)).length = 4097 := by
    rw [hdrains.length_writes, hlen]
    rfl
  refine ⟨applicator, calls, after, hnew, hrun, ?_, ?_, hwrites, hlen⟩
  · rw [hdrains.count_eq, hwrites]
  · rw [hdrains.total_eq, hwrites]
    rfl

/-- A bucket with two records is applied exactly once. -/
theorem applyAll_exactlyOnce_two : ∃ applicator calls after,
    BucketApplicator.new 12 (updates 2) = .ok applicator ∧
    applicator.applyAll (fun _ => .account) Counters.reset = .ok (calls, after) ∧
    ExactlyOnce (updates 2).entries calls after := by
  obtain ⟨applicator, calls, after, hnew, hrun, hiff⟩ :=
    applyAll_exactlyOnce_iff (fun _ => .account) (version_updates 2)
  exact ⟨applicator, calls, after, hnew, hrun, hiff.mpr (by decide)⟩

/-! ### What is left in the database -/

/-- A record as `createOrUpdateWithoutLoading` or `eraseWithoutLoading` writes it. -/
def write [DecidableEq K] (m : K → Option E) (e : BucketEntry K E) : K → Option E :=
  Function.update m e.key e.record.entry?

theorem Drains.foldl_write [DecidableEq K] {l : List (BucketEntry K E)} {calls : List (Advanced K E)}
    {counters after : Counters} (h : Drains typeOf l calls counters after) (m : K → Option E) :
    (calls.flatMap (·.writes)).foldl write m = l.foldl write m := by
  induction h generalizing m with
  | nil => rfl
  | @cons l calls counters after _ _ ih =>
    rw [flatMap_cons, foldl_append, ih]
    show (l.drop _).foldl write ((l.take (LEDGER_ENTRY_BATCH_COMMIT_SIZE + 1)).foldl write m) = _
    generalize LEDGER_ENTRY_BATCH_COMMIT_SIZE = n
    conv_rhs => rw [← take_append_drop n l, foldl_append]
    rw [take_add_one, foldl_append, ← head?_drop]
    cases l.drop n with
    | nil => rfl
    | cons e rest => simp [write]

/-- **What is written twice leaves no trace**: over any database, the calls leave what writing each record
once leaves. -/
theorem applyAll_writes [DecidableEq K] (applicator : BucketApplicator K E) (counters : Counters) :
    Meets (applicator.applyAll typeOf counters)
      (fun r => ∀ m, (r.1.flatMap (·.writes)).foldl write m = applicator.bucketIter.foldl write m)
      (fun _ => ¬Legal applicator.maxProtocolVersion applicator.bucketIter) :=
  (applyAll_meets applicator counters).mono (fun _ h => h.foldl_write) fun _ h => h

end BucketApplicator
end Diamnet.Buckets
