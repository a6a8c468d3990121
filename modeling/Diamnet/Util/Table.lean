import Mathlib.Algebra.BigOperators.Group.Finset.Basic
import Mathlib.Algebra.BigOperators.Ring.Finset
import Mathlib.Data.List.AList
import Mathlib.Tactic.Ring
import Mathlib.Algebra.Order.BigOperators.Group.List

/-! Tables with a total.

A table is a finite map kept as a list of entries with distinct keys. `total` adds up
a measure over the entries; writing or erasing one entry changes it by that entry
alone, and two tables that differ by posted amounts key by key have totals that differ
by the sum of the amounts posted. -/
namespace Diamnet
open AList

abbrev Table (κ ν : Type) := AList (fun _ : κ => ν)

namespace Table

variable {κ ν : Type}

def total (m : Table κ ν) (f : κ → ν → Int) : Int := (m.entries.map fun e => f e.1 e.2).sum

theorem total_add (m : Table κ ν) (f g : κ → ν → Int) :
    total m (fun k v => f k v + g k v) = total m f + total m g := by
  simp only [total, List.sum_map_add]

theorem total_sub (m : Table κ ν) (f g : κ → ν → Int) :
    total m (fun k v => f k v - g k v) = total m f - total m g := by
  have hadd := total_add m (fun k v => f k v - g k v) g
  simp only [sub_add_cancel] at hadd
  exact eq_sub_of_add_eq hadd.symm

variable [DecidableEq κ]

def at? (m : Table κ ν) (k : κ) (f : ν → Int) : Int := (m.lookup k).elim 0 f

theorem at?_of_lookup {m : Table κ ν} {k : κ} {v : ν} (h : m.lookup k = some v) (f : ν → Int) :
    at? m k f = f v := by
  rw [at?, h, Option.elim_some]

theorem at?_of_lookup_none {m : Table κ ν} {k : κ} (h : m.lookup k = none) (f : ν → Int) : at? m k f = 0 := by
  rw [at?, h, Option.elim_none]

theorem mem_keys_of_lookup {m : Table κ ν} {k : κ} {v : ν} (h : m.lookup k = some v) : k ∈ m.keys :=
  mem_keys.mp (lookup_isSome.mp (by rw [h]; rfl))

section
variable {m : Table κ ν} {k : κ} {P : κ → ν → Prop} (hm : ∀ k' v, m.lookup k' = some v → P k' v)
include hm

theorem forall_insert {v : ν} (hv : P k v) : ∀ k' v', (m.insert k v).lookup k' = some v' → P k' v' := by
  intro k' v' h
  by_cases hk : k' = k
  · subst hk
    rw [lookup_insert] at h
    cases h
    exact hv
  · rw [lookup_insert_ne hk] at h
    exact hm k' v' h

theorem forall_erase : ∀ k' v', (m.erase k).lookup k' = some v' → P k' v' := by
  intro k' v' h
  by_cases hk : k' = k
  · rw [hk, lookup_erase] at h
    cases h
  · rw [lookup_erase_ne hk] at h
    exact hm k' v' h

end

/-- What is said of all entries of a table can be checked. -/
instance decidableForall (m : Table κ ν) (P : κ → ν → Prop) [∀ k v, Decidable (P k v)] :
    Decidable (∀ k v, m.lookup k = some v → P k v) :=
  decidable_of_iff (∀ e ∈ m.entries, P e.1 e.2)
    ⟨fun h k v hk => h ⟨k, v⟩ (mem_lookup_iff.mp hk), fun h e he => h e.1 e.2 (mem_lookup_iff.mpr he)⟩

theorem total_erase (m : Table κ ν) (k : κ) (f : κ → ν → Int) :
    total (m.erase k) f = total m f - at? m k (f k) := by
  show ((List.kerase k m.entries).map fun e => f e.1 e.2).sum = total m f - at? m k (f k)
  cases hk : m.lookup k with
  | none =>
    have hmem : k ∉ m.keys := fun h => (lookup_eq_none.mp hk) (mem_keys.mpr h)
    rw [at?_of_lookup_none hk, List.kerase_of_notMem_keys hmem, sub_zero, total]
  | some v =>
    have hmem : k ∈ m.keys := mem_keys.mp (lookup_isSome.mp (by simp [hk]))
    obtain ⟨w, l₁, l₂, -, hl, he⟩ := List.exists_of_kerase hmem
    have hw : w = v := by
      have hent : (⟨k, w⟩ : Sigma fun _ : κ => ν) ∈ m.entries := by simp [hl]
      have hlookup := mem_lookup_iff.mpr hent
      rw [hk] at hlookup
      exact (Option.some.inj hlookup).symm
    rw [at?_of_lookup hk, he, total, hl, hw]
    simp only [List.map_append, List.map_cons, List.sum_append, List.sum_cons]
    ring

theorem total_insert (m : Table κ ν) (k : κ) (v : ν) (f : κ → ν → Int) :
    total (m.insert k v) f = total m f - at? m k (f k) + f k v := by
  have herase : ((List.kerase k m.entries).map fun e => f e.1 e.2).sum = total m f - at? m k (f k) :=
    total_erase m k f
  rw [total, entries_insert, List.map_cons, List.sum_cons, herase]
  ring

theorem total_congr (m : Table κ ν) {f g : κ → ν → Int}
    (h : ∀ k v, m.lookup k = some v → f k v = g k v) : total m f = total m g := by
  rw [total, total, List.map_congr_left]
  intro e he
  exact h e.1 e.2 (mem_lookup_iff.mpr he)

theorem total_nonneg (m : Table κ ν) {f : κ → ν → Int} (h : ∀ k v, m.lookup k = some v → 0 ≤ f k v) :
    0 ≤ total m f := by
  apply List.sum_nonneg
  intro x hx
  obtain ⟨e, he, rfl⟩ := List.mem_map.mp hx
  exact h e.1 e.2 (mem_lookup_iff.mpr he)

theorem le_total (m : Table κ ν) {f : κ → ν → Int} (h : ∀ k v, m.lookup k = some v → 0 ≤ f k v) {k : κ} {v : ν}
    (hk : m.lookup k = some v) : f k v ≤ total m f := by
  have hrest : 0 ≤ total (m.erase k) f := by
    apply total_nonneg
    intro k' v' hk'
    by_cases hkk : k' = k
    · rw [hkk, lookup_erase] at hk'
      cases hk'
    · exact h k' v' (by rwa [lookup_erase_ne hkk] at hk')
  rw [total_erase, at?_of_lookup hk] at hrest
  omega

theorem total_eq_zero (m : Table κ ν) {f : κ → ν → Int} (h : ∀ k v, m.lookup k = some v → f k v = 0) :
    total m f = 0 := by
  rw [total_congr m h, total]
  simp

theorem total_mono (m : Table κ ν) {f g : κ → ν → Int} (h : ∀ k v, m.lookup k = some v → f k v ≤ g k v) :
    total m f ≤ total m g := by
  apply List.sum_le_sum
  intro e he
  exact h e.1 e.2 (mem_lookup_iff.mpr he)

theorem total_single (m : Table κ ν) (k : κ) (f : ν → Int) :
    total m (fun k' v => if k' = k then f v else 0) = at? m k f := by
  have hrest : total (m.erase k) (fun k' v => if k' = k then f v else 0) = 0 := by
    apply total_eq_zero
    intro k' v hk'
    apply if_neg
    rintro rfl
    rw [lookup_erase] at hk'
    cases hk'
  rw [total_erase, sub_eq_zero] at hrest
  simpa using hrest

theorem total_eq_sum (m : Table κ ν) (f : κ → ν → Int) {S : Finset κ} (hS : ∀ k ∈ m.keys, k ∈ S) :
    total m f = ∑ k ∈ S, at? m k (f k) := by
  have hkeys : total m f = ∑ k ∈ m.keys.toFinset, at? m k (f k) := by
    rw [List.sum_toFinset _ (keys_nodup m), total]
    show _ = ((m.entries.map Sigma.fst).map fun k => at? m k (f k)).sum
    rw [List.map_map]
    congr 1
    apply List.map_congr_left
    intro e he
    exact (at?_of_lookup (mem_lookup_iff.mpr he) (f e.1)).symm
  rw [hkeys]
  apply Finset.sum_subset
  · intro k hk
    exact hS k (List.mem_toFinset.mp hk)
  · intro k _ hk
    apply at?_of_lookup_none
    rw [lookup_eq_none]
    exact fun h => hk (List.mem_toFinset.mpr (mem_keys.mp h))

def map {ν' : Type} (m : Table κ ν) (f : ν → ν') : Table κ ν' where
  entries := m.entries.map fun e => ⟨e.1, f e.2⟩
  nodupKeys := by
    have hkeys : (m.entries.map fun e => (⟨e.1, f e.2⟩ : Sigma fun _ : κ => ν')).keys = m.entries.keys := by
      simp [List.keys, List.map_map, Function.comp_def]
    rw [List.NodupKeys, hkeys]
    exact m.nodupKeys

@[simp] theorem lookup_map {ν' : Type} (m : Table κ ν) (f : ν → ν') (k : κ) :
    (m.map f).lookup k = (m.lookup k).map f := by
  cases hk : m.lookup k with
  | some v =>
    have hmem : (⟨k, v⟩ : Sigma fun _ : κ => ν) ∈ m.entries := mem_lookup_iff.mp hk
    exact mem_lookup_iff.mpr (List.mem_map.mpr ⟨_, hmem, rfl⟩)
  | none =>
    cases hk' : (m.map f).lookup k with
    | none => rfl
    | some v' =>
      obtain ⟨e, he, heq⟩ := List.mem_map.mp (mem_lookup_iff.mp hk')
      cases heq
      rw [mem_lookup_iff.mpr he] at hk
      cases hk

theorem total_bind {ν' : Type} (m : Table κ ν) (m' : Table κ ν') (g : κ → ν → Option ν') (f : κ → ν' → Int)
    (h : ∀ k, m'.lookup k = (m.lookup k).bind (g k)) : total m' f = total m (fun k v => (g k v).elim 0 (f k)) := by
  have hsub : ∀ k ∈ m'.keys, k ∈ m.keys.toFinset := by
    intro k hk
    rw [List.mem_toFinset, ← mem_keys, ← lookup_isSome]
    have hsome := lookup_isSome.mpr (mem_keys.mpr hk)
    rw [h] at hsome
    cases hk : m.lookup k with
    | none => rw [hk] at hsome; cases hsome
    | some v => rfl
  rw [total_eq_sum m' f hsub, total_eq_sum m _ (fun k hk => List.mem_toFinset.mpr hk)]
  apply Finset.sum_congr rfl
  intro k _
  unfold at?
  rw [h]
  cases m.lookup k <;> rfl

end Table

/-- The element of the list that no other is better than; of several, the last listed. -/
def best? {α : Type} (better : α → α → Bool) : List α → Option α
  | [] => none
  | a :: l =>
    match best? better l with
    | none => some a
    | some b => if better a b then some a else some b

theorem best?_mem {α : Type} {better : α → α → Bool} {l : List α} {a : α} (h : best? better l = some a) :
    a ∈ l := by
  induction l generalizing a with
  | nil => cases h
  | cons b l ih =>
    rw [best?] at h
    split at h
    · cases h
      exact .head _
    · next c hc =>
      split at h
      · cases h
        exact .head _
      · cases h
        exact .tail _ (ih hc)

theorem best?_eq_none {α : Type} {better : α → α → Bool} {l : List α} : best? better l = none ↔ l = [] := by
  cases l with
  | nil => simp [best?]
  | cons a l =>
    simp only [best?, reduceCtorEq, iff_false]
    split
    · simp
    · split <;> simp

end Diamnet
