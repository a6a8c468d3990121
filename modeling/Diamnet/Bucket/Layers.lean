import Diamnet.Bucket.Merge
import Diamnet.Bucket.Schedule

/-! The records of a key over a list of buckets.

The buckets of the list, read from the youngest on, hold for each key a list of records.
Taking the result of a due merge replaces two neighbouring buckets by their merge
(`mergeOf_step`): the records stay a lifecycle with the same value, provided that a record
dropped for a shadow is still covered by a younger one, in which case what was covered
stays covered. -/
namespace Diamnet.Buckets
open FutureBucket Record

variable {K E : Type} [LinearOrder K]

def records (buckets : List (Bucket K E)) (k : K) : List (Record E) := buckets.filterMap (·.find? k)

@[simp] theorem records_nil (k : K) : records ([] : List (Bucket K E)) k = [] := rfl

theorem records_cons (b : Bucket K E) (l : List (Bucket K E)) (k : K) :
    records (b :: l) k = (b.find? k).toList ++ records l k := by
  unfold records
  cases h : b.find? k <;> simp [h]

theorem records_append (l l' : List (Bucket K E)) (k : K) : records (l ++ l') k = records l k ++ records l' k :=
  List.filterMap_append

@[simp] theorem records_cons_empty (l : List (Bucket K E)) (k : K) :
    records (Bucket.empty :: l) k = records l k := by
  rfl

theorem exists_of_mem_records {buckets : List (Bucket K E)} {k : K} {r : Record E} (h : r ∈ records buckets k) :
    ∃ b ∈ buckets, b.find? k = some r := List.mem_filterMap.mp h

namespace MergeInputs

def version (inputs : MergeInputs K E) : Nat := mergeProtocolVersion inputs.curr inputs.snap inputs.shadows

def isShadowed (inputs : MergeInputs K E) (k : K) : Bool := inputs.shadows.any fun si => (si.find? k).isSome

end MergeInputs

/-- The version in the metadata of the result of a merge. -/
def writtenVersion (version : Nat) : Nat :=
  if FIRST_PROTOCOL_SUPPORTING_INITENTRY_AND_METAENTRY ≤ version then version else 0

theorem mergeOf_version {maxProtocolVersion i : Nat} {inputs : MergeInputs K E} {b : Bucket K E}
    (h : mergeOf maxProtocolVersion i inputs = .ok b) : b.version = writtenVersion inputs.version :=
  Bucket.merge_version h

theorem exists_combine {upper lower : List (Bucket K E)} {snap curr : Bucket K E}
    (h : ∀ k, Lifecycle (records (upper ++ snap :: curr :: lower) k)) (k : K) :
    ∃ r, combine (curr.find? k) (snap.find? k) = some r ∧
      Lifecycle (records upper k ++ (r.toList ++ records lower k)) ∧
      value (records upper k ++ (r.toList ++ records lower k)) =
        value (records (upper ++ snap :: curr :: lower) k) := by
  have hk := h k
  rw [records_append, records_cons, records_cons] at hk ⊢
  obtain ⟨r, hr, hlife, hvalue⟩ := hk.of_append.combine
  exact ⟨r, hr, hk.replace (fun _ => hlife) hvalue, value_append_congr hvalue _⟩

theorem mergeOf_eq {maxProtocolVersion i : Nat} {inputs : MergeInputs K E}
    (hmax : inputs.version ≤ maxProtocolVersion)
    (hshadows : FIRST_PROTOCOL_SHADOWS_REMOVED ≤ inputs.version → inputs.shadows = [])
    (hcombine : ∀ k, ∃ r, combine (inputs.curr.find? k) (inputs.snap.find? k) = some r) :
    ∃ b, mergeOf maxProtocolVersion i inputs = .ok b ∧ b.version = writtenVersion inputs.version ∧
      ∀ k, b.find? k = (combine (inputs.curr.find? k) (inputs.snap.find? k)).join.filter fun r =>
        !dropped inputs.version (keepDeadEntries i) (inputs.isShadowed k) r :=
  Bucket.merge_eq hmax (Nat.lt_or_ge _ _ |>.imp_right hshadows) hcombine

/-- **Two neighbouring buckets are replaced by their merge.** -/
theorem mergeOf_step {maxProtocolVersion i : Nat} {inputs : MergeInputs K E} {upper lower : List (Bucket K E)}
    (hmax : inputs.version ≤ maxProtocolVersion)
    (hshadows : FIRST_PROTOCOL_SHADOWS_REMOVED ≤ inputs.version → inputs.shadows = [])
    (hcovered : ∀ k r, combine (inputs.curr.find? k) (inputs.snap.find? k) = some (some r) →
      shadowedOut inputs.version (inputs.isShadowed k) r = true → Covered (records upper k))
    (hlast : keepDeadEntries i = false → ∀ k, records lower k = [])
    (hlife : ∀ k, Lifecycle (records (upper ++ inputs.snap :: inputs.curr :: lower) k)) :
    ∃ b, mergeOf maxProtocolVersion i inputs = .ok b ∧ b.version = writtenVersion inputs.version ∧
      (∀ k, Lifecycle (records (upper ++ b :: lower) k)) ∧
      (∀ k, value (records (upper ++ b :: lower) k) =
        value (records (upper ++ inputs.snap :: inputs.curr :: lower) k)) ∧
      (keepDeadEntries i = true → ∀ k, Covered (records (upper ++ [inputs.snap, inputs.curr]) k) →
        Covered (records (upper ++ [b]) k)) := by
  have hcombine := exists_combine hlife
  obtain ⟨b, hb, hversion, hfind⟩ := mergeOf_eq (i := i) hmax hshadows fun k => (hcombine k).imp fun _ h => h.1
  -- what happens to one key
  have hkey : ∀ k, Lifecycle (records (upper ++ b :: lower) k) ∧
      value (records (upper ++ b :: lower) k) =
        value (records (upper ++ inputs.snap :: inputs.curr :: lower) k) ∧
      (keepDeadEntries i = true → Covered (records (upper ++ [inputs.snap, inputs.curr]) k) →
        Covered (records (upper ++ [b]) k)) := by
    intro k
    obtain ⟨r, hr, hl, hv⟩ := hcombine k
    have hcover : Covered (records (upper ++ [inputs.snap, inputs.curr]) k) →
        Covered (records upper k ++ r.toList) := by
      intro hc
      refine Covered.combine ?_ hr
      simpa [records_append, records_cons] using hc
    have hfindk := hfind k
    rw [hr] at hfindk
    rw [records_append, records_append upper [b], records_cons, records_cons, records_nil, List.append_nil]
    cases r with
    | none =>
      rw [hfindk]
      exact ⟨hl, hv, fun _ => hcover⟩
    | some r =>
      rw [Option.join_some, Option.filter_some] at hfindk
      by_cases hdropped : dropped inputs.version (keepDeadEntries i) (inputs.isShadowed k) r = true
      · simp only [hdropped, Bool.not_true, Bool.false_eq_true, if_false] at hfindk
        rw [hfindk]
        by_cases hout : shadowedOut inputs.version (inputs.isShadowed k) r = true
        · -- dropped for a shadow
          have hupper := hcovered k r hr hout
          obtain ⟨hl', hv'⟩ := hl.drop hupper
          exact ⟨hl', hv'.trans hv, fun _ _ => by simpa using hupper⟩
        · -- a deletion dropped on the last level
          simp only [dropped, hout, Bool.false_or, Bool.and_eq_true, Bool.not_eq_true'] at hdropped
          obtain ⟨hkeep, hdead⟩ := hdropped
          have hr' : r = .dead := by
            cases r <;> first | rfl | cases hdead
          subst hr'
          rw [hlast hkeep k] at hl hv ⊢
          obtain ⟨hl', hv'⟩ := hl.drop_dead
          exact ⟨hl', hv'.trans hv, fun hkeep' => absurd (hkeep.symm.trans hkeep') Bool.false_ne_true⟩
      · simp only [hdropped, Bool.not_false, if_true] at hfindk
        rw [hfindk]
        exact ⟨hl, hv, fun _ => hcover⟩
  exact ⟨b, hb, hversion, fun k => (hkey k).1, fun k => (hkey k).2.1, fun hkeep k => (hkey k).2.2 hkeep⟩

end Diamnet.Buckets
