import Mathlib.Data.Multiset.AddSub
import Diamnet.Util.Table

/-! The map of finished merges (`BucketMergeMap.cpp`).

Three maps are kept in step, two of them multimaps: a merge that is recorded again is listed again, with
its inputs, and forgetting an output takes every listing away. -/
namespace Diamnet.Buckets

variable {Hash : Type}

structure MergeKey (Hash : Type) where
  mKeepDeadEntries : Bool
  mInputCurrBucket : Hash
  mInputSnapBucket : Hash
  mInputShadowBuckets : List Hash
deriving DecidableEq

def MergeKey.inputs (key : MergeKey Hash) : List Hash :=
  key.mInputCurrBucket :: key.mInputSnapBucket :: key.mInputShadowBuckets

variable [DecidableEq Hash]

def getMergeKeyHashes (key : MergeKey Hash) : List Hash := key.inputs.dedup

/-- The multimaps are lists of their entries. -/
structure BucketMergeMap (Hash : Type) where
  mMergeKeyToOutput : Table (MergeKey Hash) Hash := ∅
  mInputToOutput : List (Hash × Hash) := []
  mOutputToMergeKey : List (Hash × MergeKey Hash) := []

namespace BucketMergeMap

/-- The entries of `mInputToOutput` for one merge. -/
def uses (merge : Hash × MergeKey Hash) : List (Hash × Hash) := (getMergeKeyHashes merge.2).map (·, merge.1)

def recordMerge (input : MergeKey Hash) (output : Hash) (map : BucketMergeMap Hash) : BucketMergeMap Hash where
  -- `emplace` keeps the output that is there
  mMergeKeyToOutput := if input ∈ map.mMergeKeyToOutput then map.mMergeKeyToOutput
    else map.mMergeKeyToOutput.insert input output
  mInputToOutput := uses (output, input) ++ map.mInputToOutput
  mOutputToMergeKey := (output, input) :: map.mOutputToMergeKey

/-- For each merge listed under the output, one entry of each of its inputs is erased. -/
def forgetAllMergesProducing (outputBeingDropped : Hash) (map : BucketMergeMap Hash) :
    BucketMergeMap Hash × List (MergeKey Hash) :=
  let merges := map.mOutputToMergeKey.filter (·.1 = outputBeingDropped)
  ({ mMergeKeyToOutput := merges.foldl (fun outputs merge => outputs.erase merge.2) map.mMergeKeyToOutput
     mInputToOutput := merges.foldl (fun pairs merge => (uses merge).foldl List.erase pairs) map.mInputToOutput
     mOutputToMergeKey := map.mOutputToMergeKey.filter (·.1 ≠ outputBeingDropped) },
    (merges.map (·.2)).dedup)

def findMergeFor (input : MergeKey Hash) (map : BucketMergeMap Hash) : Option Hash := map.mMergeKeyToOutput.lookup input

def getOutputsUsingInput (input : Hash) (map : BucketMergeMap Hash) : List Hash :=
  ((map.mInputToOutput.filter (·.1 = input)).map (·.2)).dedup

/-! ### Runs -/

inductive Call (Hash : Type) where
  | record (input : MergeKey Hash) (output : Hash)
  | forget (output : Hash)

def call (map : BucketMergeMap Hash) : Call Hash → BucketMergeMap Hash
  | .record input output => map.recordMerge input output
  | .forget output => (map.forgetAllMergesProducing output).1

def run (calls : List (Call Hash)) : BucketMergeMap Hash := calls.foldr (fun last map => map.call last) {}

/-- The merge was recorded, and its output not forgotten since. -/
def Remembered (calls : List (Call Hash)) (key : MergeKey Hash) (output : Hash) : Prop :=
  ∃ since earlier, calls = since ++ .record key output :: earlier ∧ .forget output ∉ since

section
variable {calls : List (Call Hash)} {last : Call Hash} {map : BucketMergeMap Hash} {key : MergeKey Hash} {output : Hash}

omit [DecidableEq Hash] in
theorem remembered_cons : Remembered (last :: calls) key output ↔
    last = .record key output ∨ last ≠ .forget output ∧ Remembered calls key output := by
  constructor
  · rintro ⟨since, earlier, hcalls, hsince⟩
    cases since with
    | nil => exact .inl (List.cons.inj hcalls).1
    | cons c since =>
      obtain ⟨rfl, rfl⟩ := List.cons.inj hcalls
      rw [List.mem_cons, not_or] at hsince
      exact .inr ⟨Ne.symm hsince.1, since, earlier, rfl, hsince.2⟩
  · rintro (rfl | ⟨hne, since, earlier, rfl, hsince⟩)
    · exact ⟨[], calls, rfl, List.not_mem_nil⟩
    · exact ⟨last :: since, earlier, rfl, by simp [hne.symm, hsince]⟩

/-- How the maps agree with each other and with the calls made. -/
structure Consistent (calls : List (Call Hash)) (map : BucketMergeMap Hash) : Prop where
  merges : ∀ key output, (output, key) ∈ map.mOutputToMergeKey ↔ Remembered calls key output
  outputs : ∀ key output, map.mMergeKeyToOutput.lookup key = some output ↔ (output, key) ∈ map.mOutputToMergeKey
  inputs : map.mInputToOutput.Perm (map.mOutputToMergeKey.flatMap uses)

theorem Consistent.recordMerge (h : Consistent calls map)
    (hsame : ∀ output', Remembered calls key output' → output' = output) :
    Consistent (.record key output :: calls) (map.recordMerge key output) where
  merges key' output' := by
    rw [remembered_cons, ← h.merges]
    simp [BucketMergeMap.recordMerge, and_comm, eq_comm]
  outputs key' output' := by
    simp only [BucketMergeMap.recordMerge, List.mem_cons, Prod.mk.injEq]
    split
    · next hmem =>
      obtain ⟨listed, hlisted⟩ := Option.isSome_iff_exists.mp (AList.lookup_isSome.mpr hmem)
      obtain rfl := hsame listed ((h.merges _ _).mp ((h.outputs _ _).mp hlisted))
      rw [← h.outputs, or_iff_right_of_imp]
      rintro ⟨rfl, rfl⟩
      exact hlisted
    · next hmem =>
      rw [← h.outputs]
      by_cases hkey : key' = key
      · subst hkey
        rw [AList.lookup_insert, AList.lookup_eq_none.mpr hmem]
        simp [eq_comm]
      · rw [AList.lookup_insert_ne hkey]
        simp [hkey]
  inputs := h.inputs.append_left (uses (output, key))

theorem foldl_erase_perm (merges : List (Hash × MergeKey Hash)) {pairs rest : List (Hash × Hash)}
    (h : pairs.Perm (merges.flatMap uses ++ rest)) :
    (merges.foldl (fun pairs merge => (uses merge).foldl List.erase pairs) pairs).Perm rest := by
  induction merges generalizing pairs with
  | nil => exact h
  | cons merge merges ih =>
    apply ih
    show ((uses merge).foldl List.erase pairs).Perm _
    rw [List.flatMap_cons, List.append_assoc] at h
    rw [← List.diff_eq_foldl, List.perm_iff_count]
    intro pair
    rw [List.count_diff, h.count_eq, List.count_append, Nat.add_sub_cancel_left]

theorem lookup_foldl_erase (merges : List (Hash × MergeKey Hash)) (outputs : Table (MergeKey Hash) Hash) :
    (merges.foldl (fun outputs merge => outputs.erase merge.2) outputs).lookup key =
      if key ∈ merges.map (·.2) then none else outputs.lookup key := by
  induction merges generalizing outputs with
  | nil => rfl
  | cons merge merges ih =>
    rw [List.foldl_cons, ih]
    by_cases hkey : key = merge.2
    · simp [← hkey, AList.lookup_erase]
    · simp only [AList.lookup_erase_ne hkey, List.map_cons, List.mem_cons, hkey, false_or]

theorem Consistent.forgetAllMergesProducing (h : Consistent calls map) :
    Consistent (.forget output :: calls) (map.forgetAllMergesProducing output).1 where
  merges key' output' := by
    rw [remembered_cons, ← h.merges]
    simp [BucketMergeMap.forgetAllMergesProducing, and_comm, @eq_comm _ output]
  outputs key' output' := by
    simp only [BucketMergeMap.forgetAllMergesProducing, lookup_foldl_erase]
    -- the listed outputs of a key are all the same
    have hsame (hlisted : (output, key') ∈ map.mOutputToMergeKey) (hlisted' : (output', key') ∈ map.mOutputToMergeKey) :
        output = output' :=
      Option.some.inj (((h.outputs _ _).mpr hlisted).symm.trans ((h.outputs _ _).mpr hlisted'))
    split
    · next hmem =>
      simp at hmem ⊢
      exact fun hlisted' => (hsame hmem hlisted').symm
    · next hmem =>
      simp [h.outputs] at hmem ⊢
      rintro hlisted rfl
      exact hmem hlisted
  inputs := by
    apply foldl_erase_perm
    rw [← List.flatMap_append]
    refine h.inputs.trans (List.Perm.flatMap_right _ ?_)
    simpa [BucketMergeMap.forgetAllMergesProducing] using
      (List.filter_append_perm (·.1 = output) map.mOutputToMergeKey).symm

theorem run_consistent (h : ∀ key output output', .record key output ∈ calls → .record key output' ∈ calls →
    output = output') : Consistent calls (run calls) := by
  induction calls with
  | nil => exact ⟨by simp [run, Remembered], by simp [run], .refl _⟩
  | cons last calls ih =>
    have hrun := ih fun key output output' hmem hmem' => h key output output' (.tail _ hmem) (.tail _ hmem')
    cases last with
    | record key output =>
      refine hrun.recordMerge fun output' hremembered => ?_
      obtain ⟨since, earlier, rfl, -⟩ := hremembered
      exact h key output' output (by simp) (.head _)
    | forget output => exact hrun.forgetAllMergesProducing

/-- **What the merge map remembers.** -/
theorem run_remembers (h : ∀ key output output', .record key output ∈ calls → .record key output' ∈ calls →
      output = output') :
    (∀ key output, (run calls).findMergeFor key = some output ↔ Remembered calls key output) ∧
    (∀ input output, output ∈ (run calls).getOutputsUsingInput input ↔
      ∃ key, Remembered calls key output ∧ input ∈ key.inputs) ∧
    ∀ output key, key ∈ ((run calls).forgetAllMergesProducing output).2 ↔ Remembered calls key output := by
  have hrun := run_consistent h
  refine ⟨fun key output => (hrun.outputs key output).trans (hrun.merges key output), ?_, ?_⟩
  · intro input output
    simp only [getOutputsUsingInput, List.mem_dedup, List.mem_map, List.mem_filter, hrun.inputs.mem_iff, ← hrun.merges]
    simp [uses, getMergeKeyHashes]
  · intro output key
    simp [forgetAllMergesProducing, ← hrun.merges]

end

/-- Of two merges with one output, which was forgotten between them, the later is found. -/
theorem run_remembers_swapped :
    (run [.record ⟨true, 1, 2, []⟩ 3, .forget 3, .record ⟨true, 2, 1, []⟩ 3]).findMergeFor ⟨true, 1, 2, []⟩ = some 3 := by
  refine ((run_remembers ?_).1 _ _).mpr ⟨[], _, rfl, List.not_mem_nil⟩
  intro key output output' hmem hmem'
  simp only [List.mem_cons, Call.record.injEq] at hmem hmem'
  grind

end BucketMergeMap
end Diamnet.Buckets
