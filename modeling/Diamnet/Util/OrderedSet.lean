import Diamnet.Util.Order

/-! Ordered sets, and the walk that tests one for inclusion in another.

`OrderedSet` keeps its elements in increasing order. `includes` walks two sequences
side by side, as `std::includes` does; on the elements of ordered sets it decides
inclusion. -/
namespace Diamnet

variable {α : Type} [LinearOrder α]

/-- Whether the walk down `v` meets every element of `p` in turn. -/
def includes : List α → List α → Bool
  | _, [] => true
  | [], _ :: _ => false
  | a :: v, b :: p => if b < a then false else if a < b then includes v (b :: p) else includes v p

theorem includes_iff {v p : List α} (hv : v.Pairwise (· < ·)) (hp : p.Pairwise (· < ·)) :
    includes v p = true ↔ ∀ x ∈ p, x ∈ v := by
  induction v generalizing p with
  | nil =>
    cases p with
    | nil => simp [includes]
    | cons b p => exact iff_of_false (by simp [includes]) fun h => List.not_mem_nil (h b (.head _))
  | cons a v ih =>
    cases p with
    | nil => simp [includes]
    | cons b p =>
      obtain ⟨ha, hv'⟩ := List.pairwise_cons.mp hv
      obtain ⟨hb, hp'⟩ := List.pairwise_cons.mp hp
      rw [includes]
      split
      · next hlt =>
        simp only [Bool.false_eq_true, false_iff, not_forall]
        refine ⟨b, .head _, ?_⟩
        intro hmem
        rcases List.mem_cons.mp hmem with rfl | hmem
        · exact lt_irrefl _ hlt
        · exact lt_asymm hlt (ha b hmem)
      · next hnlt =>
        split
        · next hlt =>
          rw [ih hv' hp]
          refine forall₂_congr fun x hx => ?_
          have hne : x ≠ a := by
            rcases List.mem_cons.mp hx with rfl | hx
            · exact hlt.ne'
            · exact (hlt.trans (hb x hx)).ne'
          simp [hne]
        · next hnlt' =>
          have hab : a = b := le_antisymm (not_lt.mp hnlt) (not_lt.mp hnlt')
          subst hab
          rw [ih hv' hp', List.forall_mem_cons]
          simp only [List.mem_cons, true_or, true_and]
          refine forall₂_congr fun x hx => ?_
          simp [(hb x hx).ne']

variable (α) in
/-- A set of elements in increasing order. -/
structure OrderedSet where
  elems : List α
  sorted : elems.Pairwise (· < ·)
deriving DecidableEq

namespace OrderedSet

instance : Membership α (OrderedSet α) := ⟨fun s a => a ∈ s.elems⟩

instance : EmptyCollection (OrderedSet α) := ⟨[], List.Pairwise.nil⟩

instance : HasSubset (OrderedSet α) := ⟨fun s t => ∀ a ∈ s, a ∈ t⟩

instance (a : α) (s : OrderedSet α) : Decidable (a ∈ s) := inferInstanceAs (Decidable (a ∈ s.elems))

instance (s t : OrderedSet α) : Decidable (s ⊆ t) := inferInstanceAs (Decidable (∀ a ∈ s.elems, a ∈ t.elems))

def insert (a : α) (s : OrderedSet α) : OrderedSet α :=
  ⟨ascending (a :: s.elems), ascending_pairwise _⟩

@[simp] theorem mem_insert {a b : α} {s : OrderedSet α} : b ∈ s.insert a ↔ b = a ∨ b ∈ s := by
  show b ∈ ascending (a :: s.elems) ↔ b = a ∨ b ∈ s.elems
  simp

@[simp] theorem not_mem_empty (a : α) : a ∉ (∅ : OrderedSet α) := List.not_mem_nil

@[simp] theorem subset_refl (s : OrderedSet α) : s ⊆ s := fun _ h => h

theorem Subset.trans {s t u : OrderedSet α} (h : s ⊆ t) (h' : t ⊆ u) : s ⊆ u := fun a ha => h' a (h a ha)

theorem subset_insert (a : α) (s : OrderedSet α) : s ⊆ s.insert a := fun _ h => mem_insert.mpr (.inr h)

theorem ext {s t : OrderedSet α} (h : ∀ a, a ∈ s ↔ a ∈ t) : s = t := by
  obtain ⟨s, hs⟩ := s
  obtain ⟨t, ht⟩ := t
  have hnodup {l : List α} (hl : l.Pairwise (· < ·)) : l.Nodup := hl.imp fun h => h.ne
  have hperm : s.Perm t := (List.perm_ext_iff_of_nodup (hnodup hs) (hnodup ht)).mpr h
  have heq : s = t := hperm.eq_of_pairwise (fun a b _ _ hab hba => absurd hab (lt_asymm hba)) hs ht
  subst heq
  rfl

theorem Subset.antisymm {s t : OrderedSet α} (h : s ⊆ t) (h' : t ⊆ s) : s = t :=
  ext fun a => ⟨h a, h' a⟩

theorem insert_ne {a : α} {s : OrderedSet α} (h : a ∉ s) : s ≠ s.insert a := by
  intro he
  exact h (he ▸ mem_insert.mpr (.inl rfl))

theorem insert_eq {a : α} {s : OrderedSet α} (h : a ∈ s) : s.insert a = s := by
  refine Subset.antisymm ?_ (subset_insert a s)
  intro b hb
  rcases mem_insert.mp hb with rfl | hb
  · exact h
  · exact hb

theorem length_le {s t : OrderedSet α} (h : s ⊆ t) : s.elems.length ≤ t.elems.length :=
  (List.Nodup.subperm (s.sorted.imp fun h => h.ne) h).length_le

theorem eq_of_length {s t : OrderedSet α} (h : s ⊆ t) (hlen : s.elems.length = t.elems.length) : s = t := by
  have hperm := (List.Nodup.subperm (s.sorted.imp fun h => h.ne) h).perm_of_length_le hlen.ge
  exact ext fun a => hperm.mem_iff

theorem includes_elems {s t : OrderedSet α} : includes t.elems s.elems = true ↔ s ⊆ t :=
  includes_iff t.sorted s.sorted

end OrderedSet

end Diamnet
