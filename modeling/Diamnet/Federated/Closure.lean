import Mathlib

/-! The largest self-supporting part of a list.

`contract keep nodes` filters `nodes` by `keep nodes` again and again until a pass
removes nothing. When `keep` is monotone in its list the result is the largest
sublist each of whose members the sublist itself keeps: it is closed
(`contract_closed`) and contains every closed part of the start
(`subset_contract`). -/
namespace Diamnet.Federated

variable {α : Type}

/-- Passes of the filter, at most `n`, until one removes nothing. -/
def contractN (keep : List α → α → Bool) : Nat → List α → List α
  | 0, nodes => nodes
  | n + 1, nodes =>
    let kept := nodes.filter (keep nodes)
    if kept.length = nodes.length then kept else contractN keep n kept

/-- Each pass that goes on shortens the list, so its length bounds the passes. -/
def contract (keep : List α → α → Bool) (nodes : List α) : List α :=
  contractN keep (nodes.length + 1) nodes

def passes (keep : List α → α → Bool) (nodes : List α) : Nat → List α
  | 0 => nodes
  | n + 1 => (passes keep nodes n).filter (keep (passes keep nodes n))

variable {keep : List α → α → Bool}

theorem passes_succ (nodes : List α) (n : Nat) :
    passes keep nodes (n + 1) = passes keep (nodes.filter (keep nodes)) n := by
  induction n with
  | zero => rfl
  | succ n ih => rw [passes, ih, passes]

theorem contractN_passes (n : Nat) (nodes : List α) (hn : nodes.length < n) :
    ∃ k ≤ nodes.length, (∀ j < k, (passes keep nodes (j + 1)).length < (passes keep nodes j).length) ∧
      (passes keep nodes (k + 1)).length = (passes keep nodes k).length ∧
      contractN keep n nodes = passes keep nodes (k + 1) := by
  induction n generalizing nodes with
  | zero => omega
  | succ n ih =>
    by_cases hlen : (nodes.filter (keep nodes)).length = nodes.length
    · refine ⟨0, Nat.zero_le _, fun j hj => absurd hj (Nat.not_lt_zero j), hlen, ?_⟩
      rw [contractN, if_pos hlen]
      rfl
    · have hshort := List.length_filter_le (keep nodes) nodes
      obtain ⟨k, hk, hlong, hstop, heq⟩ := ih (nodes.filter (keep nodes)) (by omega)
      refine ⟨k + 1, by omega, fun j hj => ?_, ?_, ?_⟩
      · cases j with
        | zero => exact lt_of_le_of_ne hshort hlen
        | succ j =>
          rw [passes_succ nodes (j + 1), passes_succ nodes j]
          exact hlong j (by omega)
      · rw [passes_succ nodes (k + 1), passes_succ nodes k]
        exact hstop
      · rw [contractN, if_neg hlen, passes_succ]
        exact heq

/-- **The passes end**: after finitely many of them one removes nothing, and `contract` is what is
left after the first such pass. -/
theorem contract_passes (keep : List α → α → Bool) (nodes : List α) :
    ∃ k ≤ nodes.length, (∀ j < k, (passes keep nodes (j + 1)).length < (passes keep nodes j).length) ∧
      (passes keep nodes (k + 1)).length = (passes keep nodes k).length ∧
      contract keep nodes = passes keep nodes (k + 1) :=
  contractN_passes _ nodes (Nat.lt_succ_self _)

theorem contractN_subset (n : Nat) (nodes : List α) : ∀ a ∈ contractN keep n nodes, a ∈ nodes := by
  induction n generalizing nodes with
  | zero => exact fun _ h => h
  | succ n ih =>
    intro a ha
    simp only [contractN] at ha
    split at ha
    · exact (List.mem_filter.mp ha).1
    · exact (List.mem_filter.mp (ih _ a ha)).1

theorem contract_subset (nodes : List α) : ∀ a ∈ contract keep nodes, a ∈ nodes :=
  contractN_subset _ nodes

theorem contractN_closed (n : Nat) (nodes : List α) (hn : nodes.length < n) :
    ∀ a ∈ contractN keep n nodes, keep (contractN keep n nodes) a = true := by
  induction n generalizing nodes with
  | zero => omega
  | succ n ih =>
    simp only [contractN]
    split
    · next hlen =>
      have hsame : nodes.filter (keep nodes) = nodes :=
        List.filter_eq_self.mpr (List.length_filter_eq_length_iff.mp hlen)
      intro a ha
      rw [hsame]
      exact (List.mem_filter.mp ha).2
    · next hlen =>
      have hshort := List.length_filter_le (keep nodes) nodes
      exact ih _ (by omega)

theorem contract_closed (nodes : List α) :
    ∀ a ∈ contract keep nodes, keep (contract keep nodes) a = true :=
  contractN_closed _ nodes (Nat.lt_succ_self _)

theorem subset_contractN (hmono : ∀ S T a, (∀ b ∈ S, b ∈ T) → keep S a = true → keep T a = true)
    {U : List α} (hU : ∀ a ∈ U, keep U a = true) (n : Nat) (nodes : List α)
    (hsub : ∀ a ∈ U, a ∈ nodes) : ∀ a ∈ U, a ∈ contractN keep n nodes := by
  induction n generalizing nodes with
  | zero => exact hsub
  | succ n ih =>
    have hkept : ∀ a ∈ U, a ∈ nodes.filter (keep nodes) := fun a ha =>
      List.mem_filter.mpr ⟨hsub a ha, hmono U nodes a hsub (hU a ha)⟩
    simp only [contractN]
    split
    · exact hkept
    · exact ih _ hkept

theorem subset_contract (hmono : ∀ S T a, (∀ b ∈ S, b ∈ T) → keep S a = true → keep T a = true)
    {U nodes : List α} (hU : ∀ a ∈ U, keep U a = true) (hsub : ∀ a ∈ U, a ∈ nodes) :
    ∀ a ∈ U, a ∈ contract keep nodes :=
  subset_contractN hmono hU _ nodes hsub

end Diamnet.Federated
