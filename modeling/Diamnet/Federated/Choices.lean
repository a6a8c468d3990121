import Mathlib

/-! Choosing some of several entries.

Each entry offers alternatives, and each alternative is a list of members. `choices k` are the
ways to take one alternative from each of `k` of the entries. Some choice lies within a set if and
only if `k` of the entries have an alternative that does (`exists_choice_iff`). -/
namespace Diamnet.Federated
open List
variable {α : Type}

/-- One alternative of each of `k` entries, joined. -/
def choices : Nat → List (List (List α)) → List (List α)
  | 0, _ => [[]]
  | _ + 1, [] => []
  | k + 1, alternatives :: rest =>
    (alternatives.flatMap fun a => (choices k rest).map (a ++ ·)) ++ choices (k + 1) rest

def Within (U : α → Prop) (alternatives : List (List α)) : Prop := ∃ a ∈ alternatives, ∀ x ∈ a, U x

instance (U : α → Prop) [DecidablePred U] (alternatives : List (List α)) : Decidable (Within U alternatives) :=
  inferInstanceAs (Decidable (∃ a ∈ alternatives, ∀ x ∈ a, U x))

theorem within_choices_cons {U : α → Prop} {k : Nat} {alternatives : List (List α)} {rest : List (List (List α))} :
    Within U (choices (k + 1) (alternatives :: rest)) ↔
      Within U alternatives ∧ Within U (choices k rest) ∨ Within U (choices (k + 1) rest) := by
  simp only [Within, choices, mem_append, mem_flatMap, mem_map]
  constructor
  · rintro ⟨s, ⟨a, ha, c, hc, rfl⟩ | hs, hU⟩
    · exact .inl ⟨⟨a, ha, fun x hx => hU x (mem_append_left c hx)⟩,
        ⟨c, hc, fun x hx => hU x (mem_append_right a hx)⟩⟩
    · exact .inr ⟨s, hs, hU⟩
  · rintro (⟨⟨a, ha, haU⟩, ⟨c, hc, hcU⟩⟩ | ⟨s, hs, hU⟩)
    · exact ⟨a ++ c, .inl ⟨a, ha, c, hc, rfl⟩, fun x hx => (mem_append.mp hx).elim (haU x) (hcU x)⟩
    · exact ⟨s, .inr hs, hU⟩

/-- **Some choice lies within a set if and only if enough entries can.** -/
theorem exists_choice_iff (U : α → Prop) [DecidablePred U] (k : Nat) (entries : List (List (List α))) :
    Within U (choices k entries) ↔ k ≤ entries.countP fun alternatives => decide (Within U alternatives) := by
  induction entries generalizing k with
  | nil =>
    cases k with
    | zero => exact iff_of_true ⟨[], mem_singleton_self [], fun x hx => (not_mem_nil hx).elim⟩ le_rfl
    | succ k => exact iff_of_false (fun ⟨_, hs, _⟩ => not_mem_nil hs) (by simp)
  | cons alternatives rest ih =>
    cases k with
    | zero =>
      refine iff_of_true ⟨[], ?_, fun x hx => (not_mem_nil hx).elim⟩ (Nat.zero_le _)
      exact mem_singleton_self []
    | succ k =>
      rw [within_choices_cons, ih, ih, countP_cons]
      by_cases h : Within U alternatives
      · simp only [h, true_and, decide_true, if_true]
        omega
      · simp only [h, false_and, false_or, decide_false, Bool.false_eq_true, if_false, Nat.add_zero]

theorem mem_of_mem_choices {k : Nat} {entries : List (List (List α))} {s : List α} (hs : s ∈ choices k entries) {x : α}
    (hx : x ∈ s) : ∃ alternatives ∈ entries, ∃ a ∈ alternatives, x ∈ a := by
  induction entries generalizing k s with
  | nil =>
    cases k with
    | zero =>
      rw [choices, mem_singleton] at hs
      rw [hs] at hx
      exact (not_mem_nil hx).elim
    | succ k => exact (not_mem_nil hs).elim
  | cons alternatives rest ih =>
    have hrest : ∀ {k s}, s ∈ choices k rest → x ∈ s → ∃ alternatives' ∈ alternatives :: rest, ∃ a ∈ alternatives', x ∈ a := by
      intro k s hs hx
      obtain ⟨alternatives', hmem, h⟩ := ih hs hx
      exact ⟨alternatives', .tail _ hmem, h⟩
    cases k with
    | zero =>
      rw [choices, mem_singleton] at hs
      rw [hs] at hx
      exact (not_mem_nil hx).elim
    | succ k =>
      rcases mem_append.mp hs with hs | hs
      · obtain ⟨a, ha, hs⟩ := mem_flatMap.mp hs
        obtain ⟨c, hc, rfl⟩ := mem_map.mp hs
        rcases mem_append.mp hx with hx | hx
        · exact ⟨alternatives, .head _, a, ha, hx⟩
        · exact hrest hc hx
      · exact hrest hs hx

end Diamnet.Federated
