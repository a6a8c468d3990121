import Mathlib.Data.List.Sort
import Mathlib.Order.WithBot
import Diamnet.Util.Table

/-! Lists that ascend by a rank.

A sorted list can be kept as a beginning of it, which grows by what ranks above its last element
(`above_getLast`). The first element above a bound is found in the beginning if it is there at all
(`above_append`), and it is the best of those above the bound (`best?_eq_head?`). -/
namespace Diamnet
open List

variable {α κ : Type} [LinearOrder κ] (rank : α → κ)

def Ascending (l : List α) : Prop := l.Pairwise fun a b => rank a < rank b

/-- The list from the first element above a bound on. -/
def above (bound : WithBot κ) (l : List α) : List α := l.dropWhile fun a => !decide (bound < rank a)

variable {rank}

theorem above_bot (l : List α) : above rank ⊥ l = l := by
  cases l with
  | nil => rfl
  | cons a l => exact dropWhile_cons_of_neg (by simp [WithBot.bot_lt_coe])

theorem above_of_le {bound : WithBot κ} {a : α} (h : ↑(rank a) ≤ bound) (l : List α) :
    above rank bound (a :: l) = above rank bound l :=
  dropWhile_cons_of_pos (by simpa using h)

theorem above_of_lt {bound : WithBot κ} {a : α} (h : bound < rank a) (l : List α) :
    above rank bound (a :: l) = a :: l :=
  dropWhile_cons_of_neg (by simpa using h)

theorem above_eq_filter {l : List α} (h : Ascending rank l) (bound : WithBot κ) :
    above rank bound l = l.filter fun a => decide (bound < rank a) := by
  induction l with
  | nil => rfl
  | cons a l ih =>
    obtain ⟨ha, h⟩ := pairwise_cons.mp h
    by_cases hbound : bound < rank a
    · have hl : ∀ b ∈ l, decide (bound < rank b) = true := fun b hb =>
        decide_eq_true (hbound.trans (WithBot.coe_lt_coe.mpr (ha b hb)))
      rw [above_of_lt hbound, filter_cons_of_pos (by simpa using hbound), filter_eq_self.mpr hl]
    · rw [above_of_le (not_lt.mp hbound), filter_cons_of_neg (by simpa using hbound), ih h]

/-- The first element above the bound is in a beginning of the list, or behind it. -/
theorem above_append (bound : WithBot κ) (xs ys : List α) : above rank bound (xs ++ ys) =
    if above rank bound xs = [] then above rank bound ys else above rank bound xs ++ ys := by
  unfold above
  rw [dropWhile_append]
  simp only [List.isEmpty_iff]

theorem above_getLast {xs ys : List α} (h : Ascending rank (xs ++ ys)) {x : α} (hx : xs.getLast? = some x) :
    above rank (rank x) (xs ++ ys) = ys := by
  obtain ⟨init, rfl⟩ := List.getLast?_eq_some_iff.mp hx
  obtain ⟨hxs, hys, hbelow⟩ := pairwise_append.mp h
  have hfront : above rank (rank x) (init ++ [x]) = [] := by
    rw [above_eq_filter hxs, filter_eq_nil_iff]
    intro a ha
    rw [decide_eq_true_eq, WithBot.coe_lt_coe, not_lt]
    cases mem_append.mp ha with
    | inl ha => exact ((pairwise_append.mp hxs).2.2 a ha x (.head _)).le
    | inr ha => exact (mem_singleton.mp ha) ▸ le_rfl
  rw [above_append, if_pos hfront]
  cases ys with
  | nil => rfl
  | cons y ys => exact above_of_lt (WithBot.coe_lt_coe.mpr (hbelow x (by simp) y (.head _))) ys

theorem Ascending.eq_of_perm {l l' : List α} (h : Ascending rank l) (h' : Ascending rank l') (hperm : l.Perm l') :
    l = l' :=
  hperm.eq_of_pairwise (fun _ _ _ _ hab hba => absurd hab hba.not_gt) h h'

theorem ascending_of_sorted {l : List α} (h : l.Pairwise fun a b => rank a ≤ rank b) (hnodup : (l.map rank).Nodup) :
    Ascending rank l :=
  h.imp₂ (fun _ _ hle hne => lt_of_le_of_ne hle hne) (pairwise_map.mp hnodup)

theorem best?_le {l : List α} {a : α} (h : best? (fun a b => decide (rank a < rank b)) l = some a) :
    ∀ b ∈ l, rank a ≤ rank b := by
  induction l generalizing a with
  | nil => cases h
  | cons c l ih =>
    rw [best?] at h
    intro b hb
    split at h
    · next hnone =>
      cases h
      rw [best?_eq_none.mp hnone] at hb
      exact (mem_singleton.mp hb) ▸ le_rfl
    · next d hd =>
      split at h
      · next hlt =>
        cases h
        cases hb with
        | head => exact le_rfl
        | tail _ hb => exact (of_decide_eq_true hlt).le.trans (ih hd b hb)
      · next hnlt =>
        cases h
        cases hb with
        | head => exact not_lt.mp fun hlt => hnlt (decide_eq_true hlt)
        | tail _ hb => exact ih hd b hb

theorem best?_eq_head? {l l' : List α} (hperm : l.Perm l') (h : Ascending rank l') :
    best? (fun a b => decide (rank a < rank b)) l = l'.head? := by
  cases hbest : best? (fun a b => decide (rank a < rank b)) l with
  | none =>
    rw [best?_eq_none.mp hbest, nil_perm] at hperm
    rw [hperm]
    rfl
  | some a =>
    have ha := hperm.mem_iff.mp (best?_mem hbest)
    cases l' with
    | nil => cases ha
    | cons x l' =>
      cases ha with
      | head => rfl
      | tail _ ha =>
        have hx := best?_le hbest x (hperm.mem_iff.mpr (.head _))
        exact absurd (rel_of_pairwise_cons h ha) hx.not_gt

theorem mem_take_iff {l : List α} (h : Ascending rank l) {a : α} (ha : a ∈ l) (n : ℕ) :
    a ∈ l.take n ↔ (l.filter fun b => decide (rank b < rank a)).length < n := by
  induction l generalizing n with
  | nil => cases ha
  | cons b l ih =>
    obtain ⟨hb, h⟩ := pairwise_cons.mp h
    cases n with
    | zero => simp
    | succ n =>
      rw [take_succ_cons]
      cases ha with
      | head =>
        have hnone : l.filter (fun b => decide (rank b < rank a)) = [] :=
          filter_eq_nil_iff.mpr fun c hc => by simpa using (hb c hc).le
        simp [hnone]
      | tail _ ha =>
        have hlt := hb a ha
        have hne : a ≠ b := fun hab => hlt.ne (hab ▸ rfl)
        rw [mem_cons, or_iff_right hne, ih h ha, filter_cons_of_pos (by simpa using hlt), length_cons]
        omega

theorem Ascending.eq_of_mem_iff {l l' : List α} (h : Ascending rank l) (h' : Ascending rank l')
    (hmem : ∀ a, a ∈ l ↔ a ∈ l') : l = l' := by
  have hnodup : l.Nodup := h.imp fun hlt heq => hlt.ne (congrArg rank heq)
  have hnodup' : l'.Nodup := h'.imp fun hlt heq => hlt.ne (congrArg rank heq)
  exact h.eq_of_perm h' ((perm_ext_iff_of_nodup hnodup hnodup').mpr hmem)

end Diamnet
