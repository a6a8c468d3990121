import Mathlib.Algebra.Order.Ring.Int
import Mathlib.Data.Finset.Max
import Mathlib.Data.Prod.Lex
import Mathlib.Logic.Embedding.Basic

/-! Who leads by a score, and how the leaders change with the scores.

Of those with the highest scores before a change, as many more are known as there are changes. That
is enough to find those that lead after it whose score has not grown (`leads_before`), but not
those whose score has grown: these may have been too far behind. Totals that are too low for some
give the leaders exactly if they are right for the leaders (`Underestimates.leads_iff`). -/
namespace Diamnet
open Finset

variable {δ κ : Type} [LinearOrder κ] (key : δ ↪ κ)

def standing (score : δ → ℤ) (x : δ) : ℤ ×ₗ κ := toLex (score x, key x)

def Leads (score : δ → ℤ) (among : Finset δ) (n : ℕ) (x : δ) : Prop :=
  x ∈ among ∧ {y ∈ among | standing key score x < standing key score y}.card < n

instance [DecidableEq δ] (score : δ → ℤ) (among : Finset δ) (n : ℕ) (x : δ) : Decidable (Leads key score among n x) :=
  inferInstanceAs (Decidable (_ ∧ _))

def contenders (U : Finset δ) (score : δ → ℤ) (threshold : ℤ) : Finset δ := {x ∈ U | 0 < score x ∧ threshold ≤ score x}

section
variable {key}

theorem standing_le {s s' : δ → ℤ} {x : δ} (h : s x ≤ s' x) : standing key s x ≤ standing key s' x := by
  unfold standing
  rw [Prod.Lex.toLex_le_toLex]
  cases h.lt_or_eq with
  | inl h => exact .inl h
  | inr h => exact .inr ⟨h, le_rfl⟩

theorem score_le_of_standing_lt {s : δ → ℤ} {x y : δ} (h : standing key s x < standing key s y) : s x ≤ s y := by
  unfold standing at h
  rw [Prod.Lex.toLex_lt_toLex] at h
  cases h with
  | inl h => exact h.le
  | inr h => exact h.1.le

theorem standing_congr {s s' : δ → ℤ} {x : δ} (h : s x = s' x) : standing key s x = standing key s' x :=
  (standing_le h.le).antisymm (standing_le h.ge)

/-! ### Leaders -/

section
variable {s : δ → ℤ} {among : Finset δ} {n : ℕ} {x y : δ}

theorem Leads.mono {n' : ℕ} (h : Leads key s among n x) (hn : n ≤ n') : Leads key s among n' x :=
  ⟨h.1, h.2.trans_le hn⟩

theorem Leads.standing_lt (hy : Leads key s among n y) (hx : x ∈ among) (hnot : ¬Leads key s among n x) :
    standing key s x < standing key s y := by
  rw [← not_le]
  intro hle
  have hsubset : {z ∈ among | standing key s x < standing key s z} ⊆
      {z ∈ among | standing key s y < standing key s z} :=
    monotone_filter_right among fun _ _ hz => hle.trans_lt hz
  exact hnot ⟨hx, (card_le_card hsubset).trans_lt hy.2⟩

theorem le_card_leaders [DecidableEq δ] (hx : x ∈ among) (hnot : ¬Leads key s among n x) :
    n ≤ {y ∈ among | Leads key s among n y}.card := by
  obtain ⟨y, hy, hmax⟩ := exists_max_image {y ∈ among | ¬Leads key s among n y} (standing key s)
    ⟨x, mem_filter.mpr ⟨hx, hnot⟩⟩
  obtain ⟨hy, hnot⟩ := mem_filter.mp hy
  -- all above the highest of the others lead
  have hsubset : {z ∈ among | standing key s y < standing key s z} ⊆ {z ∈ among | Leads key s among n z} := by
    intro z hz
    obtain ⟨hz, hlt⟩ := mem_filter.mp hz
    refine mem_filter.mpr ⟨hz, ?_⟩
    by_contra hznot
    exact absurd (hmax z (mem_filter.mpr ⟨hz, hznot⟩)) hlt.not_ge
  by_contra hfew
  exact hnot ⟨hy, (card_le_card hsubset).trans_lt (not_le.mp hfew)⟩

end

/-! ### Changes -/

variable [DecidableEq δ] {U : Finset δ} {before change : δ → ℤ} {m : ℕ} {t t' : ℤ}

omit [DecidableEq δ] in
theorem mem_contenders {score : δ → ℤ} {x : δ} : x ∈ contenders U score t ↔ x ∈ U ∧ 0 < score x ∧ t ≤ score x :=
  mem_filter

/-- Who leads after the change without having gained led before, with as many more as there are changes. -/
theorem leads_before (ht : ∀ p, 0 < p → t ≤ p → t' ≤ p) {x : δ}
    (h : Leads key (fun y => before y + change y) (contenders U (fun y => before y + change y) t) m x)
    (hchange : change x ≤ 0) :
    Leads key before (contenders U before t') (m + {y ∈ U | change y ≠ 0}.card) x := by
  obtain ⟨hx, hcard⟩ := h
  obtain ⟨hU, hpos, hthreshold⟩ := mem_contenders.mp hx
  have hle : before x + change x ≤ before x := by omega
  refine ⟨mem_contenders.mpr ⟨hU, by omega, ht _ (by omega) (by omega)⟩, ?_⟩
  have hsubset : {y ∈ contenders U before t' | standing key before x < standing key before y} ⊆
      {y ∈ contenders U (fun y => before y + change y) t |
        standing key (fun y => before y + change y) x < standing key (fun y => before y + change y) y} ∪
      {y ∈ U | change y ≠ 0} := by
    intro y hy
    obtain ⟨hy, hlt⟩ := mem_filter.mp hy
    obtain ⟨hyU, -, -⟩ := mem_contenders.mp hy
    have hscore := score_le_of_standing_lt hlt
    rw [mem_union]
    by_cases hsame : change y = 0
    · -- one whose score is the same stands higher after the change, too
      have hyle : before y ≤ before y + change y := by omega
      refine .inl (mem_filter.mpr ⟨mem_contenders.mpr ⟨hyU, by omega, by omega⟩, ?_⟩)
      exact (standing_le hle).trans_lt (hlt.trans_le (standing_le hyle))
    · exact .inr (mem_filter.mpr ⟨hyU, hsame⟩)
  have hunion := (card_le_card hsubset).trans (card_union_le _ _)
  omega

/-- Totals of some that estimate their scores from below. -/
structure Underestimates (score total : δ → ℤ) (candidates : Finset δ) (t : ℤ) : Prop where
  threshold : ∀ x ∈ candidates, t ≤ total x
  le : ∀ x ∈ candidates, total x ≤ score x

section
variable {score total : δ → ℤ} {candidates : Finset δ} (h : Underestimates score total candidates t)
  (hU : ∀ x, 0 < score x → x ∈ U)
include h hU

omit [DecidableEq δ] in
theorem Underestimates.leads_total {x : δ} (hx : Leads key score (contenders U score t) m x) (hmem : x ∈ candidates)
    (htotal : total x = score x) : Leads key total candidates m x := by
  have hpos := (mem_contenders.mp hx.1).2.1
  have hsubset : {y ∈ candidates | standing key total x < standing key total y} ⊆
      {y ∈ contenders U score t | standing key score x < standing key score y} := by
    intro y hy
    obtain ⟨hy, hlt⟩ := mem_filter.mp hy
    have hscore := score_le_of_standing_lt hlt
    have hle := h.le y hy
    have hthreshold := h.threshold y hy
    refine mem_filter.mpr ⟨mem_contenders.mpr ⟨hU y (by omega), by omega, by omega⟩, ?_⟩
    calc standing key score x
      _ = standing key total x := (standing_congr htotal).symm
      _ < standing key total y := hlt
      _ ≤ standing key score y := standing_le hle
  exact ⟨hmem, (card_le_card hsubset).trans_lt hx.2⟩

/-- Who leads by the totals leads: otherwise the leaders, whose totals are right, stand above. -/
theorem Underestimates.leads_score (ht : 0 < t)
    (hcond : ∀ x, Leads key score (contenders U score t) m x → x ∈ candidates ∧ total x = score x) {x : δ}
    (hx : Leads key total candidates m x) : Leads key score (contenders U score t) m x := by
  have hle := h.le x hx.1
  have hthreshold := h.threshold x hx.1
  have hcontender : x ∈ contenders U score t := mem_contenders.mpr ⟨hU x (by omega), by omega, by omega⟩
  by_contra hnot
  have hsubset : {y ∈ contenders U score t | Leads key score (contenders U score t) m y} ⊆
      {y ∈ candidates | standing key total x < standing key total y} := by
    intro y hy
    obtain ⟨-, hy⟩ := mem_filter.mp hy
    obtain ⟨hmem, htotal⟩ := hcond y hy
    refine mem_filter.mpr ⟨hmem, ?_⟩
    calc standing key total x
      _ ≤ standing key score x := standing_le hle
      _ < standing key score y := hy.standing_lt hcontender hnot
      _ = standing key total y := (standing_congr htotal).symm
  have hcard := (le_card_leaders hcontender hnot).trans (card_le_card hsubset)
  exact absurd hx.2 hcard.not_gt

/-- **When the leaders are found.** The totals give those that lead, with their scores, exactly if the total
of each of these is right. -/
theorem Underestimates.leads_iff (ht : 0 < t) :
    (∀ x v, (Leads key total candidates m x ∧ total x = v) ↔ (Leads key score (contenders U score t) m x ∧ score x = v)) ↔
    ∀ x, Leads key score (contenders U score t) m x → x ∈ candidates ∧ total x = score x := by
  constructor
  · intro hsame x hx
    obtain ⟨hlead, htotal⟩ := (hsame x _).mpr ⟨hx, rfl⟩
    exact ⟨hlead.1, htotal⟩
  · intro hcond x v
    constructor
    · intro ⟨hx, htotal⟩
      have hlead := h.leads_score hU ht hcond hx
      exact ⟨hlead, (hcond x hlead).2.symm.trans htotal⟩
    · intro ⟨hx, hv⟩
      obtain ⟨hmem, htotal⟩ := hcond x hx
      exact ⟨h.leads_total hU hx hmem htotal, htotal.trans hv⟩

end

end

end Diamnet
