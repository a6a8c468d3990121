import Mathlib.Data.List.AList
import Mathlib.Logic.Function.Basic

/-! Changes kept over a map.

An overlay records for some keys what is now there, a value or nothing; read over a base it is a
map again (`onto`). Recording a change reads as updating that map (`over_put`), also when the record
of a key that the base does not have is dropped, and recording all of one overlay in another reads
as reading the one over the other (`over_putAll`). -/
namespace Diamnet
open Function AList

abbrev Overlay {κ : Type} (β : κ → Type) := AList fun k => Option (β k)

namespace Overlay

variable {κ : Type} [DecidableEq κ] {β : κ → Type}

def onto (changes : Overlay β) (base : ∀ k, Option (β k)) (k : κ) : Option (β k) :=
  match changes.lookup k with
  | some v => v
  | none => base k

@[simp] theorem over_empty (base : ∀ k, Option (β k)) : onto (∅ : Overlay β) base = base := by
  funext k
  rw [onto, lookup_empty]

theorem over_of_lookup {changes : Overlay β} {base : ∀ k, Option (β k)} {k : κ} {v : Option (β k)}
    (h : changes.lookup k = some v) : changes.onto base k = v := by
  rw [onto, h]

theorem over_of_lookup_none {changes : Overlay β} {base : ∀ k, Option (β k)} {k : κ}
    (h : changes.lookup k = none) : changes.onto base k = base k := by
  rw [onto, h]

theorem over_insert (changes : Overlay β) (base : ∀ k, Option (β k)) (k : κ) (v : Option (β k)) :
    onto (changes.insert k v) base = update (changes.onto base) k v := by
  funext k'
  by_cases h : k' = k
  · subst h
    rw [update_self, over_of_lookup (lookup_insert _)]
  · rw [update_of_ne h, onto, lookup_insert_ne h, onto]

theorem over_erase (changes : Overlay β) (base : ∀ k, Option (β k)) (k : κ) :
    onto (changes.erase k) base = update (changes.onto base) k (base k) := by
  funext k'
  by_cases h : k' = k
  · subst h
    rw [update_self, over_of_lookup_none (lookup_erase _ _)]
  · rw [update_of_ne h, onto, lookup_erase_ne h, onto]

/-- Record a change; nothing is recorded of a key that neither the base nor the change has. -/
def put (base : ∀ k, Option (β k)) (changes : Overlay β) (k : κ) (v : Option (β k)) : Overlay β :=
  if v.isNone && (base k).isNone then changes.erase k else changes.insert k v

theorem over_put (base : ∀ k, Option (β k)) (changes : Overlay β) (k : κ) (v : Option (β k)) :
    onto (put base changes k v) base = update (changes.onto base) k v := by
  unfold put
  split
  · next h =>
    rw [Bool.and_eq_true, Option.isNone_iff_eq_none, Option.isNone_iff_eq_none] at h
    rw [over_erase, h.1, h.2]
  · exact over_insert changes base k v

/-- Nothing is recorded as erased that the base does not have. -/
def Tight (base : ∀ k, Option (β k)) (changes : Overlay β) : Prop :=
  ∀ k, changes.lookup k = some none → base k ≠ none

theorem tight_empty (base : ∀ k, Option (β k)) : Tight base (∅ : Overlay β) := by
  intro k h
  cases h

theorem Tight.insert {base : ∀ k, Option (β k)} {changes : Overlay β} (h : Tight base changes) {k : κ}
    {v : Option (β k)} (hv : v = none → base k ≠ none) : Tight base (changes.insert k v) := by
  intro k' hk'
  by_cases hk : k' = k
  · subst hk
    rw [lookup_insert, Option.some.injEq] at hk'
    exact hv hk'
  · rw [lookup_insert_ne hk] at hk'
    exact h k' hk'

theorem Tight.erase {base : ∀ k, Option (β k)} {changes : Overlay β} (h : Tight base changes) (k : κ) :
    Tight base (changes.erase k) := by
  intro k' hk'
  by_cases hk : k' = k
  · rw [hk, lookup_erase] at hk'
    cases hk'
  · rw [lookup_erase_ne hk] at hk'
    exact h k' hk'

theorem Tight.put {base : ∀ k, Option (β k)} {changes : Overlay β} (h : Tight base changes) (k : κ) (v : Option (β k)) :
    Tight base (put base changes k v) := by
  unfold Overlay.put
  split
  · exact h.erase k
  · next hkeep =>
    refine h.insert fun hv hbase => hkeep ?_
    rw [hv, hbase]
    rfl

def putAll (base : ∀ k, Option (β k)) (changes child : Overlay β) : Overlay β :=
  child.entries.foldl (fun l e => put base l e.1 e.2) changes

theorem Tight.putAll {base : ∀ k, Option (β k)} {changes : Overlay β} (h : Tight base changes) (child : Overlay β) :
    Tight base (putAll base changes child) :=
  List.foldlRecOn child.entries _ h fun _ h e _ => h.put e.1 e.2

/-- What is read after steps for distinct keys, of which only the one for some key counts. -/
theorem read_foldl {σ ρ : Type} {k : κ} (read : σ → ρ) (update : ρ → β k → ρ) {step : σ → Sigma β → σ}
    (hself : ∀ s v, read (step s ⟨k, v⟩) = update (read s) v) (hother : ∀ s e, e.1 ≠ k → read (step s e) = read s)
    {entries : List (Sigma β)} (hnodup : entries.NodupKeys) (s : σ) :
    read (entries.foldl step s) = match entries.dlookup k with
      | some v => update (read s) v
      | none => read s := by
  induction entries generalizing s with
  | nil => rfl
  | cons e entries ih =>
    obtain ⟨k', v⟩ := e
    obtain ⟨hfresh, hnodup⟩ := List.nodupKeys_cons.mp hnodup
    rw [List.foldl_cons, ih hnodup]
    by_cases hk : k' = k
    · subst hk
      rw [List.dlookup_eq_none.mpr hfresh, List.dlookup_cons_eq]
      exact hself s v
    · rw [List.dlookup_cons_ne _ _ fun h => hk h.symm]
      cases entries.dlookup k with
      | none => exact hother s ⟨k', v⟩ hk
      | some v => exact congrArg (update · v) (hother s ⟨k', _⟩ hk)

theorem over_put_none (base : ∀ k, Option (β k)) (changes : Overlay β) (k : κ) (v : Option (β k)) :
    onto (put base changes k v) (fun _ => none) = update (changes.onto fun _ => none) k v := by
  unfold put
  split
  · next h =>
    rw [Bool.and_eq_true, Option.isNone_iff_eq_none] at h
    rw [over_erase, h.1]
  · exact over_insert changes _ k v

theorem putAll_of_put {base base' : ∀ k, Option (β k)}
    (hput : ∀ (m : Overlay β) k v, onto (put base m k v) base' = update (m.onto base') k v)
    (changes child : Overlay β) : onto (putAll base changes child) base' = child.onto (changes.onto base') := by
  funext k
  have hself (m : Overlay β) (v : Option (β k)) : onto (put base m k v) base' k = v := by
    rw [hput, update_self]
  have hother (m : Overlay β) (e : Sigma fun k => Option (β k)) (hk : e.1 ≠ k) :
      onto (put base m e.1 e.2) base' k = onto m base' k := by
    rw [hput, update_of_ne hk.symm]
  refine (read_foldl (fun m => onto m base' k) (fun _ v => v) hself hother child.nodupKeys changes).trans ?_
  unfold onto lookup
  cases child.entries.dlookup k <;> rfl

theorem over_putAll (base : ∀ k, Option (β k)) (changes child : Overlay β) :
    onto (putAll base changes child) base = child.onto (changes.onto base) :=
  putAll_of_put (over_put base) changes child

theorem over_putAll_none (base : ∀ k, Option (β k)) (changes child : Overlay β) :
    onto (putAll base changes child) (fun _ => none) = child.onto (changes.onto fun _ => none) :=
  putAll_of_put (over_put_none base) changes child

def write (m : AList β) (k : κ) : Option (β k) → AList β
  | some v => m.insert k v
  | none => m.erase k

theorem lookup_write_self (m : AList β) (k : κ) (v : Option (β k)) : (write m k v).lookup k = v := by
  cases v with
  | none => exact lookup_erase _ _
  | some v => exact lookup_insert _

theorem lookup_write_ne (m : AList β) {k k' : κ} (h : k' ≠ k) (v : Option (β k)) :
    (write m k v).lookup k' = m.lookup k' := by
  cases v with
  | none => exact lookup_erase_ne h
  | some v => exact lookup_insert_ne h

def mapValues (f : ∀ k, β k → β k) (changes : Overlay β) : Overlay β where
  entries := changes.entries.map fun e => ⟨e.1, e.2.map (f e.1)⟩
  nodupKeys := by
    have hkeys : (changes.entries.map fun e => (⟨e.1, e.2.map (f e.1)⟩ : Sigma fun k => Option (β k))).keys =
        changes.entries.keys := by
      simp [List.keys, comp_def]
    unfold List.NodupKeys
    rw [hkeys]
    exact changes.nodupKeys

theorem lookup_mapValues (f : ∀ k, β k → β k) (changes : Overlay β) (k : κ) :
    (mapValues f changes).lookup k = (changes.lookup k).map (Option.map (f k)) :=
  List.dlookup_map₂ (f := fun k => Option.map (f k)) k

theorem Tight.mapValues {base : ∀ k, Option (β k)} {changes : Overlay β} (h : Tight base changes) (f : ∀ k, β k → β k) :
    Tight base (mapValues f changes) := by
  intro k hk
  rw [lookup_mapValues, Option.map_eq_some_iff] at hk
  obtain ⟨v, hv, hnone⟩ := hk
  rw [Option.map_eq_none_iff] at hnone
  exact h k (hnone ▸ hv)

end Overlay
end Diamnet
