import Mathlib

/-! Lists grouped by a key.

A list is cut into one group for each key (`groups`), or is made of queues none of which has
a key in common with another (`Separate`). What is said here is how the elements of one key
are found back in the whole, and how sums and orders behave when a part is taken. -/
namespace Diamnet
open List

variable {α κ : Type} [DecidableEq κ]

/-! ### Groups -/

def withKey (key : α → κ) (k : κ) (l : List α) : List α := l.filter fun a => key a = k

theorem mem_withKey {key : α → κ} {k : κ} {l : List α} {a : α} : a ∈ withKey key k l ↔ a ∈ l ∧ key a = k := by
  simp [withKey]

theorem withKey_append (key : α → κ) (k : κ) (l l' : List α) :
    withKey key k (l ++ l') = withKey key k l ++ withKey key k l' :=
  filter_append _ _

theorem withKey_cons_self (key : α → κ) (a : α) (l : List α) : withKey key (key a) (a :: l) = a :: withKey key (key a) l :=
  filter_cons_of_pos (by simp)

theorem withKey_cons_ne {key : α → κ} {k : κ} {a : α} (h : key a ≠ k) (l : List α) :
    withKey key k (a :: l) = withKey key k l :=
  filter_cons_of_neg (by simpa using h)

theorem withKey_perm {key : α → κ} {l l' : List α} (h : l.Perm l') (k : κ) : (withKey key k l).Perm (withKey key k l') :=
  h.filter _

theorem withKey_eq_nil {key : α → κ} {k : κ} {l : List α} (h : ∀ a ∈ l, key a ≠ k) : withKey key k l = [] :=
  filter_eq_nil_iff.mpr fun a ha hk => h a ha (of_decide_eq_true hk)

theorem withKey_eq_self {key : α → κ} {k : κ} {l : List α} (h : ∀ a ∈ l, key a = k) : withKey key k l = l :=
  filter_eq_self.mpr fun a ha => decide_eq_true (h a ha)

theorem flatMap_withKey_perm (key : α → κ) {keys : List κ} (hkeys : keys.Nodup) {l : List α} (hl : ∀ a ∈ l, key a ∈ keys) :
    (keys.flatMap fun k => withKey key k l).Perm l := by
  induction l with
  | nil => simp [withKey]
  | cons a l ih =>
    obtain ⟨ha, hl⟩ := forall_mem_cons.mp hl
    obtain ⟨s, t, rfl⟩ := append_of_mem ha
    obtain ⟨-, ht, hst⟩ := nodup_append.mp hkeys
    have hs : ∀ k ∈ s, withKey key k (a :: l) = withKey key k l := fun k hk =>
      withKey_cons_ne (fun hak => hst k hk (key a) (.head _) hak.symm) l
    have ht : ∀ k ∈ t, withKey key k (a :: l) = withKey key k l := fun k hk =>
      withKey_cons_ne (fun hak : key a = k => (nodup_cons.mp ht).1 (hak.symm ▸ hk)) l
    have ih := ih hl
    rw [flatMap_append, flatMap_cons] at ih ⊢
    rw [flatMap_congr hs, flatMap_congr ht, withKey_cons_self, cons_append]
    exact perm_middle.trans (ih.cons a)

theorem withKey_flatMap {key : α → κ} {keys : List κ} (hkeys : keys.Nodup) {f : κ → List α}
    (hf : ∀ k, ∀ a ∈ f k, key a = k) (k : κ) : withKey key k (keys.flatMap f) = if k ∈ keys then f k else [] := by
  induction keys with
  | nil => rfl
  | cons k' keys ih =>
    obtain ⟨hk', hkeys⟩ := nodup_cons.mp hkeys
    rw [flatMap_cons, withKey_append, ih hkeys]
    by_cases h : k = k'
    · subst h
      rw [if_neg hk', if_pos (.head _), append_nil, withKey_eq_self (hf k)]
    · rw [withKey_eq_nil fun a ha hak => h (hak.symm.trans (hf k' a ha)), nil_append]
      simp [h]

/-! ### Queues without a common key -/

def Separate (key : α → κ) (queues : List (List α)) : Prop :=
  queues.Pairwise fun q q' => ∀ a ∈ q, ∀ b ∈ q', key a ≠ key b

omit [DecidableEq κ] in
theorem separate_map {key : α → κ} {keys : List κ} (hkeys : keys.Nodup) {f : κ → List α}
    (hf : ∀ k, ∀ a ∈ f k, key a = k) : Separate key (keys.map f) := by
  refine pairwise_map.mpr (hkeys.imp fun {k k'} hne a ha b hb hab => hne ?_)
  rw [← hf k a ha, ← hf k' b hb, hab]

omit [DecidableEq κ] in
theorem Separate.perm {key : α → κ} {queues queues' : List (List α)} (h : Separate key queues)
    (hperm : queues.Perm queues') : Separate key queues' :=
  hperm.pairwise h fun hab a ha b hb heq => hab b hb a ha heq.symm

theorem Separate.withKey_flatten {key : α → κ} {queues queues' : List (List α)} (h : Separate key queues)
    (hperm : queues.Perm queues') (k : κ) : withKey key k queues.flatten = withKey key k queues'.flatten := by
  induction hperm with
  | nil => rfl
  | cons q _ ih => rw [flatten_cons, flatten_cons, withKey_append, withKey_append, ih (pairwise_cons.mp h).2]
  | swap q q' l =>
    have hdisjoint := (pairwise_cons.mp h).1 q (.head _)
    rw [flatten_cons, flatten_cons, flatten_cons, flatten_cons, withKey_append, withKey_append,
      withKey_append, withKey_append]
    by_cases hq : ∃ a ∈ q', key a = k
    · obtain ⟨a, ha, rfl⟩ := hq
      rw [withKey_eq_nil (l := q) fun b hb => (hdisjoint a ha b hb).symm]
      rfl
    · rw [withKey_eq_nil (l := q') fun a ha hk => hq ⟨a, ha, hk⟩]
      rfl
  | trans h₁ _ ih₁ ih₂ => exact (ih₁ h).trans (ih₂ (h.perm h₁))

omit [DecidableEq κ] in
theorem Separate.tail {key : α → κ} {q : List α} {queues : List (List α)} (h : Separate key (q :: queues)) :
    Separate key queues := (pairwise_cons.mp h).2

omit [DecidableEq κ] in
theorem Separate.shorten {key : α → κ} {q q' : List α} {queues : List (List α)} (h : Separate key (q :: queues))
    (hq : q' ⊆ q) : Separate key (q' :: queues) :=
  pairwise_cons.mpr ⟨fun p hp a ha => (pairwise_cons.mp h).1 p hp a (hq ha), h.tail⟩

theorem Separate.withKey_tail {key : α → κ} {q : List α} {queues : List (List α)} (h : Separate key (q :: queues))
    (k : κ) : withKey key k queues.flatten <+: withKey key k (q :: queues).flatten := by
  rw [flatten_cons, withKey_append]
  by_cases hq : ∃ a ∈ q, key a = k
  · obtain ⟨a, ha, rfl⟩ := hq
    have hnil : withKey key (key a) queues.flatten = [] := by
      refine withKey_eq_nil fun b hb hba => ?_
      obtain ⟨p, hp, hb⟩ := mem_flatten.mp hb
      exact (pairwise_cons.mp h).1 p hp a ha b hb hba.symm
    rw [hnil]
    exact nil_prefix
  · rw [withKey_eq_nil (l := q) fun a ha hk => hq ⟨a, ha, hk⟩]
    exact prefix_refl _

/-! ### Orders -/

omit [DecidableEq κ] in
theorem pairwise_insertionSort_key [LinearOrder κ] (key : α → κ) (l : List α) :
    (l.insertionSort fun a b => key a ≤ key b).Pairwise fun a b => key a ≤ key b := by
  exact pairwise_insertionSort _ _

omit [DecidableEq κ] in
theorem eq_of_perm_of_strict [LinearOrder κ] {key : α → κ} {l l' : List α} (hl : l.Pairwise fun a b => key a < key b)
    (hl' : l'.Pairwise fun a b => key a ≤ key b) (h : l'.Perm l) : l' = l := by
  have hkeys : (l.map key).Nodup := pairwise_map.mpr (hl.imp fun h => h.ne)
  refine h.eq_of_pairwise (fun a b ha hb hab hba => ?_) hl' (hl.imp fun h => h.le)
  exact inj_on_of_nodup_map hkeys (h.mem_iff.mp ha) hb (le_antisymm hab hba)

/-! ### Parts -/

theorem foldl_eraseP_perm {key : α → κ} {l kept removed : List α} (hkeys : (l.map key).Nodup)
    (h : l.Perm (kept ++ removed)) :
    (removed.foldl (fun l a => l.eraseP fun b => key b = key a) l).Perm kept := by
  induction removed generalizing l with
  | nil => simpa using h
  | cons a removed ih =>
    have hother : l.Pairwise fun b c => (decide (key b = key a) : Prop) → (decide (key c = key a) : Prop) → False :=
      (pairwise_map.mp hkeys).imp fun hne hb hc => hne ((of_decide_eq_true hb).trans (of_decide_eq_true hc).symm)
    have herase := Perm.eraseP _ hother (h.trans perm_middle)
    rw [eraseP_cons_of_pos (by simp)] at herase
    exact ih (hkeys.sublist (eraseP_sublist.map key)) herase

theorem foldl_eraseP_sublist {key : α → κ} (l removed : List α) :
    (removed.foldl (fun l a => l.eraseP fun b => key b = key a) l).Sublist l := by
  induction removed generalizing l with
  | nil => exact Sublist.refl l
  | cons a removed ih => exact (ih _).trans eraseP_sublist

omit [DecidableEq κ] in
theorem sum_map_le_of_subperm {f : α → Int} {l l' : List α} (h : l.Subperm l') (hf : ∀ a ∈ l', 0 ≤ f a) :
    (l.map f).sum ≤ (l'.map f).sum := by
  obtain ⟨l'', hperm, hsub⟩ := h
  rw [← (hperm.map f).sum_eq]
  refine (hsub.map f).sum_le_sum fun x hx => ?_
  obtain ⟨a, ha, rfl⟩ := mem_map.mp hx
  exact hf a ha

end Diamnet
