import Mathlib

/-! Records of the creations, updates and deletions of one key.

A store that is written in layers keeps for a key a list of records, newest first; the
value of the key is what the newest record says. Layers are merged by combining
neighbouring records into one. A creation and a deletion right after it combine to
nothing, which is sound only if the key did not exist before the creation: this is
`Lifecycle`, kept by every combination. A record may also be dropped where a newer one,
not a creation, stands right above it (`Covered`). -/
namespace Diamnet

/-- What a layer says of a key. -/
inductive Record (E : Type) where
  | init (e : E)
  | live (e : E)
  | dead
deriving DecidableEq

namespace Record
variable {E : Type}

def isInit : Record E → Bool
  | .init _ => true
  | _ => false

def isLive : Record E → Bool
  | .live _ => true
  | _ => false

def isDead : Record E → Bool
  | .dead => true
  | _ => false

def entry? : Record E → Option E
  | .init e => some e
  | .live e => some e
  | .dead => none

/-- The one record for an older and a newer one; `none` if the two cannot follow each other. -/
def combine : (old new : Option (Record E)) → Option (Option (Record E))
  | old, none => some old
  | none, some r => some (some r)
  | some .dead, some (.init x) => some (some (.live x))
  | some _, some (.init _) => none
  | some (.init _), some (.live y) => some (some (.init y))
  | some (.init _), some .dead => some none
  | some _, some r => some (some r)

/-! ### Histories -/

/-- The value of a key with these records, newest first. -/
def value (l : List (Record E)) : Option E := l.head?.bind entry?

def Lifecycle : List (Record E) → Prop
  | [] => True
  | r :: t => (r.isInit = true → value t = none) ∧ Lifecycle t

@[simp] theorem value_nil : value ([] : List (Record E)) = none := rfl

@[simp] theorem value_cons (r : Record E) (t : List (Record E)) : value (r :: t) = r.entry? := rfl

@[simp] theorem lifecycle_nil : Lifecycle ([] : List (Record E)) := trivial

theorem lifecycle_cons {r : Record E} {t : List (Record E)} :
    Lifecycle (r :: t) ↔ (r.isInit = true → value t = none) ∧ Lifecycle t := Iff.rfl

theorem value_append_congr {x y : List (Record E)} (hv : value y = value x) (u : List (Record E)) :
    value (u ++ y) = value (u ++ x) := by
  cases u with
  | nil => exact hv
  | cons r u => rfl

theorem Lifecycle.replace {u x y : List (Record E)} (h : Lifecycle (u ++ x)) (hy : Lifecycle x → Lifecycle y)
    (hv : value y = value x) : Lifecycle (u ++ y) := by
  induction u with
  | nil => exact hy h
  | cons r u ih =>
    obtain ⟨hr, h⟩ := h
    refine lifecycle_cons.mpr ⟨fun hinit => ?_, ih h⟩
    exact (value_append_congr hv u).trans (hr hinit)

theorem Lifecycle.of_append {u x : List (Record E)} (h : Lifecycle (u ++ x)) : Lifecycle x := by
  induction u with
  | nil => exact h
  | cons r u ih => exact ih (lifecycle_cons.mp h).2

/-! ### Combining neighbours -/

/-- **Neighbouring records of a lifecycle combine, and the combination keeps the value and
the lifecycle.** -/
theorem Lifecycle.combine {old new : Option (Record E)} {t : List (Record E)}
    (h : Lifecycle (new.toList ++ (old.toList ++ t))) :
    ∃ r, combine old new = some r ∧ Lifecycle (r.toList ++ t) ∧
      value (r.toList ++ t) = value (new.toList ++ (old.toList ++ t)) := by
  cases new with
  | none => exact ⟨old, rfl, h, rfl⟩
  | some n =>
    cases old with
    | none => exact ⟨some n, rfl, h, rfl⟩
    | some o =>
      obtain ⟨hn, ho, ht⟩ : (n.isInit = true → value (o :: t) = none) ∧ (o.isInit = true → value t = none) ∧
        Lifecycle t := h
      cases n with
      | init x =>
        cases o with
        | dead => exact ⟨some (.live x), rfl, ⟨fun h => (nomatch h), ht⟩, rfl⟩
        | init y => cases hn rfl
        | live y => cases hn rfl
      | live x =>
        cases o with
        | init y => exact ⟨some (.init x), rfl, ⟨fun _ => ho rfl, ht⟩, rfl⟩
        | live y => exact ⟨some (.live x), rfl, ⟨fun h => (nomatch h), ht⟩, rfl⟩
        | dead => exact ⟨some (.live x), rfl, ⟨fun h => (nomatch h), ht⟩, rfl⟩
      | dead =>
        cases o with
        | init y => exact ⟨none, rfl, ht, ho rfl⟩
        | live y => exact ⟨some .dead, rfl, ⟨fun h => (nomatch h), ht⟩, rfl⟩
        | dead => exact ⟨some .dead, rfl, ⟨fun h => (nomatch h), ht⟩, rfl⟩

theorem isInit_of_combine {old new : Option (Record E)} {r : Record E} (h : combine old new = some (some r))
    (hr : r.isInit = true) : (∃ o, old = some o ∧ o.isInit = true) ∨ ∃ n, new = some n ∧ n.isInit = true := by
  cases new with
  | none =>
    cases h
    exact .inl ⟨r, rfl, hr⟩
  | some n =>
    cases old with
    | none =>
      cases h
      exact .inr ⟨r, rfl, hr⟩
    | some o =>
      cases n with
      | init x => exact .inr ⟨_, rfl, rfl⟩
      | live x =>
        cases o with
        | init y => exact .inl ⟨_, rfl, rfl⟩
        | live y => cases h; cases hr
        | dead => cases h; cases hr
      | dead =>
        cases o with
        | init y => cases h
        | live y => cases h; cases hr
        | dead => cases h; cases hr

/-- An update on top of a creation that is above it all says that the newest of the two
combined records is no deletion; so a creation cannot stand right above them. -/
theorem Lifecycle.not_init_above {u : List (Record E)} {c : Record E} {old new : Option (Record E)}
    {t : List (Record E)} (h : Lifecycle (u ++ c :: (new.toList ++ (old.toList ++ t))))
    {r : Record E} (hr : Record.combine old new = some (some r)) (hlive : r.isLive = true) : c.isInit = false := by
  refine Bool.eq_false_iff.mpr fun hc => ?_
  obtain ⟨habove, h⟩ := lifecycle_cons.mp h.of_append
  obtain ⟨r', hr', -, hvalue⟩ := h.combine
  rw [hr] at hr'
  cases hr'
  rw [habove hc] at hvalue
  cases r <;> cases hlive
  cases hvalue

/-! ### Composing records

A creation stands right above a deletion and nothing else does: what the records of one key look
like if every layer was written by transactions. -/

/-- What an older and a newer record of a key amount to. -/
def compose : (old new : Option (Record E)) → Option (Record E)
  | old, none => old
  | none, some r => some r
  | some (.init _), some (.live y) => some (.init y)
  | some (.init _), some .dead => none
  | some .dead, some (.init x) => some (.live x)
  | some _, some r => some r

/-- Of neighbouring records, newest first, exactly the creations stand above deletions. -/
def Alternates (l : List (Record E)) : Prop := l.IsChain fun new old => new.isInit = old.isDead

theorem combine_eq_compose {old new : Option (Record E)} (h : Alternates (new.toList ++ old.toList)) :
    combine old new = some (compose old new) := by
  rcases old with _ | (_ | _ | _) <;> rcases new with _ | (_ | _ | _) <;>
    simp_all [Alternates, combine, compose, isInit, isDead]

theorem Alternates.compose_assoc {a b c : Option (Record E)} (h : Alternates (c.toList ++ b.toList ++ a.toList)) :
    Alternates (b.toList ++ a.toList) ∧ Alternates (c.toList ++ b.toList) ∧
      Alternates (c.toList ++ (compose a b).toList) ∧ Alternates ((compose b c).toList ++ a.toList) ∧
      compose (compose a b) c = compose a (compose b c) := by
  rcases a with _ | (_ | _ | _) <;> rcases b with _ | (_ | _ | _) <;> rcases c with _ | (_ | _ | _) <;>
    simp_all [Alternates, compose, isInit, isDead]

/-! ### Dropping records -/

def Covered (l : List (Record E)) : Prop := ∃ c, l.getLast? = some c ∧ c.isInit = false

theorem covered_append_of_ne_nil {u t : List (Record E)} (ht : t ≠ []) : Covered (u ++ t) ↔ Covered t := by
  unfold Covered
  rw [List.getLast?_append_of_ne_nil u ht]

theorem Covered.of_forall {l : List (Record E)} (hne : l ≠ []) (h : ∀ r ∈ l, r.isInit = false) : Covered l := by
  obtain ⟨c, hc⟩ := Option.ne_none_iff_exists'.mp (mt List.getLast?_eq_none_iff.mp hne)
  exact ⟨c, hc, h c (List.mem_of_getLast? hc)⟩

theorem Lifecycle.drop {u : List (Record E)} {r : Record E} {t : List (Record E)} (h : Lifecycle (u ++ r :: t))
    (hc : Covered u) : Lifecycle (u ++ t) ∧ value (u ++ t) = value (u ++ r :: t) := by
  obtain ⟨c, hlast, hc⟩ := hc
  obtain ⟨u, rfl⟩ := List.getLast?_eq_some_iff.mp hlast
  rw [List.append_assoc, List.append_assoc, List.singleton_append, List.singleton_append] at *
  refine ⟨h.replace ?_ rfl, value_append_congr (x := c :: r :: t) (y := c :: t) rfl u⟩
  intro hx
  exact ⟨fun hinit => absurd (hc.symm.trans hinit) Bool.false_ne_true, hx.2.2⟩

theorem Lifecycle.drop_dead {u : List (Record E)} (h : Lifecycle (u ++ [.dead])) :
    Lifecycle (u ++ []) ∧ value (u ++ []) = value (u ++ [.dead]) :=
  ⟨h.replace (fun _ => lifecycle_nil) rfl, value_append_congr (x := [.dead]) (y := []) rfl u⟩

theorem Covered.combine {u : List (Record E)} {old new r : Option (Record E)}
    (h : Covered (u ++ (new.toList ++ old.toList))) (hr : combine old new = some r) : Covered (u ++ r.toList) := by
  cases new with
  | none =>
    cases hr
    exact h
  | some n =>
    cases old with
    | none =>
      cases hr
      exact h
    | some o =>
      rw [covered_append_of_ne_nil (by simp)] at h
      obtain ⟨c, hlast, hc⟩ := h
      cases hlast
      have hrest : ∃ s, r = some s ∧ s.isInit = false := by
        cases n <;> cases o <;> cases hc <;> cases hr <;> exact ⟨_, rfl, rfl⟩
      obtain ⟨s, rfl, hs⟩ := hrest
      rw [covered_append_of_ne_nil (by simp)]
      exact ⟨s, rfl, hs⟩

theorem Covered.append_mono {x y : List (Record E)} (h : Covered x → Covered y) (t : List (Record E)) :
    Covered (x ++ t) → Covered (y ++ t) := by
  cases t with
  | nil => simpa using h
  | cons r t =>
    rw [covered_append_of_ne_nil (List.cons_ne_nil r t), covered_append_of_ne_nil (List.cons_ne_nil r t)]
    exact id

end Record
end Diamnet
