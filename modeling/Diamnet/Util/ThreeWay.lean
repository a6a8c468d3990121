import Mathlib

/-! Three-way comparisons.

A comparison returns a negative number, zero or a positive one. `Ordered cmp a` says that `cmp`
behaves as an order does as far as `a` takes part. It is stated for one element, so that the
comparison of a tree can be shown to be ordered by induction on the tree. -/
namespace Diamnet
variable {α β γ : Type}

/-- As far as `a` takes part, `cmp` is a linear order. -/
structure Ordered (cmp : α → α → Int) (a : α) : Prop where
  swap : ∀ b, cmp b a = -cmp a b
  eq : ∀ b, cmp a b = 0 → a = b
  trans : ∀ b c, cmp a b ≤ 0 → cmp b c ≤ 0 → cmp a c ≤ 0

def compareInt [LinearOrder α] (a b : α) : Int := if a < b then -1 else if b < a then 1 else 0

theorem ordered_compareInt [LinearOrder α] (a : α) : Ordered compareInt a where
  swap := by
    intro b
    unfold compareInt
    rcases lt_trichotomy a b with h | h | h
    · simp [h, h.not_gt]
    · simp [h]
    · simp [h, h.not_gt]
  eq := by
    intro b h
    unfold compareInt at h
    split at h
    · cases h
    · split at h
      · cases h
      · next hab hba => exact le_antisymm (not_lt.mp hba) (not_lt.mp hab)
  trans := by
    have hle : ∀ x y : α, compareInt x y ≤ 0 ↔ x ≤ y := by
      intro x y
      unfold compareInt
      rcases lt_trichotomy x y with h | h | h
      · simp [h, h.le]
      · simp [h]
      · simp [h, h.not_gt]
    intro b c hab hbc
    exact (hle a c).mpr (((hle a b).mp hab).trans ((hle b c).mp hbc))

def compareThen (c₁ : β → β → Int) (c₂ : γ → γ → Int) (f : α → β) (g : α → γ) (a b : α) : Int :=
  if c₁ (f a) (f b) ≠ 0 then c₁ (f a) (f b) else c₂ (g a) (g b)

theorem Ordered.compareThen {c₁ : β → β → Int} {c₂ : γ → γ → Int} {f : α → β} {g : α → γ} {a : α}
    (h₁ : Ordered c₁ (f a)) (h₂ : Ordered c₂ (g a)) (hinj : ∀ b, f a = f b → g a = g b → a = b) :
    Ordered (compareThen c₁ c₂ f g) a where
  swap := by
    intro b
    unfold Diamnet.compareThen
    have hswap := h₁.swap (f b)
    by_cases h : c₁ (f a) (f b) = 0
    · rw [if_neg (not_not.mpr h), if_neg (by omega)]
      exact h₂.swap (g b)
    · rw [if_pos h, if_pos (by omega)]
      exact hswap
  eq := by
    intro b h
    unfold Diamnet.compareThen at h
    split at h
    · next hne => exact absurd h hne
    · next heq => exact hinj b (h₁.eq _ (not_not.mp heq)) (h₂.eq _ h)
  trans := by
    intro b c hab hbc
    unfold Diamnet.compareThen at hab hbc ⊢
    have htrans := h₁.trans (f b) (f c)
    by_cases h : c₁ (f a) (f b) = 0
    · -- equal so far: `b` takes the place of `a`
      have heq := h₁.eq _ h
      rw [if_neg (not_not.mpr h)] at hab
      rw [heq]
      by_cases h' : c₁ (f b) (f c) = 0
      · rw [if_neg (not_not.mpr h')] at hbc ⊢
        exact h₂.trans _ _ hab hbc
      · rw [if_pos h'] at hbc ⊢
        exact hbc
    · rw [if_pos h] at hab
      have hbc' : c₁ (f b) (f c) ≤ 0 := by
        by_cases h' : c₁ (f b) (f c) = 0
        · exact h'.le
        · rwa [if_pos h'] at hbc
      have hac := htrans hab hbc'
      have hne : c₁ (f a) (f c) ≠ 0 := by
        intro hzero
        have hswap := h₁.swap (f b)
        rw [← h₁.eq _ hzero] at hbc'
        omega
      rw [if_pos hne]
      exact hac

def lexCompare (cmp : α → α → Int) : List α → List α → Int
  | [], [] => 0
  | [], _ :: _ => -1
  | _ :: _, [] => 1
  | a :: l, b :: r => if cmp a b ≠ 0 then cmp a b else lexCompare cmp l r

theorem Ordered.lexCompare {cmp : α → α → Int} {l : List α} (h : ∀ a ∈ l, Ordered cmp a) : Ordered (lexCompare cmp) l := by
  induction l with
  | nil =>
    refine ⟨fun r => ?_, fun r hr => ?_, fun r s _ _ => ?_⟩
    · cases r <;> rfl
    · cases r with
      | nil => rfl
      | cons b r => cases hr
    · cases s with
      | nil => exact le_rfl
      | cons c s => exact (by decide : (-1 : Int) ≤ 0)
  | cons a l ih =>
    have ha := h a (.head _)
    have ih := ih fun b hb => h b (.tail _ hb)
    -- on lists that are not empty it compares the heads, then the tails
    have hthen : ∀ b r, Ordered (Diamnet.compareThen cmp (Diamnet.lexCompare cmp) Prod.fst Prod.snd) ((a, l) : α × List α) ∧
        Diamnet.lexCompare cmp (a :: l) (b :: r) =
          Diamnet.compareThen cmp (Diamnet.lexCompare cmp) Prod.fst Prod.snd ((a, l) : α × List α) (b, r) :=
      fun b r => ⟨Ordered.compareThen ha ih fun _ h₁ h₂ => Prod.ext h₁ h₂, rfl⟩
    have hordered := (hthen a l).1
    refine ⟨fun r => ?_, fun r hr => ?_, fun r s hr hs => ?_⟩
    · cases r with
      | nil => rfl
      | cons b r => exact hordered.swap (b, r)
    · cases r with
      | nil => cases hr
      | cons b r =>
        have heq := hordered.eq (b, r) hr
        rw [(Prod.mk.inj heq).1, (Prod.mk.inj heq).2]
    · cases r with
      | nil => exact absurd hr (by decide : ¬(1 : Int) ≤ 0)
      | cons b r =>
        cases s with
        | nil => exact absurd hs (by decide : ¬(1 : Int) ≤ 0)
        | cons c s => exact hordered.trans (b, r) (c, s) hr hs

/-! ### Sorting by a comparison -/

section Sorting
variable {cmp : α → α → Int} (h : ∀ a, Ordered cmp a)
include h

theorem pairwise_sort (l : List α) : (l.insertionSort fun a b => cmp a b ≤ 0).Pairwise fun a b => cmp a b ≤ 0 := by
  have : Std.Total fun a b : α => cmp a b ≤ 0 := ⟨fun a b => by have := (h a).swap b; omega⟩
  have : IsTrans α fun a b => cmp a b ≤ 0 := ⟨fun a b c => (h a).trans b c⟩
  exact List.pairwise_insertionSort _ l

theorem sort_eq_of_perm {l l' : List α} (hperm : l.Perm l') :
    (l.insertionSort fun a b => cmp a b ≤ 0) = l'.insertionSort fun a b => cmp a b ≤ 0 := by
  have hanti : Std.Antisymm fun a b : α => cmp a b ≤ 0 :=
    ⟨fun a b hab hba => (h a).eq b (by have := (h a).swap b; omega)⟩
  refine List.Perm.eq_of_pairwise (fun a b _ _ => hanti.antisymm a b) (pairwise_sort h l) (pairwise_sort h l') ?_
  exact ((List.perm_insertionSort _ l).trans hperm).trans (List.perm_insertionSort _ l').symm

end Sorting

end Diamnet
