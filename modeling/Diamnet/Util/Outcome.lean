import Mathlib

/-! Postconditions for fallible computations.

`Meets r Q E` says what a computation in `Except` owes: `Q` of the value if it
returns one, `E` of the fault if it stops with one. The rules below follow the
way such computations are built (return, fault, sequence, branch), so that one
lemma per function, stated with `Meets`, is all its callers need. -/
namespace Diamnet

variable {ε α β : Type}

@[simp] theorem ok_bind (a : α) (f : α → Except ε β) : (Except.ok a >>= f) = f a := rfl

theorem bind_eq_ok {x : Except ε α} {f : α → Except ε β} {b : β} :
    (x >>= f) = .ok b ↔ ∃ a, x = .ok a ∧ f a = .ok b := by
  cases x with
  | ok a => exact ⟨fun h => ⟨a, rfl, h⟩, fun ⟨_, ha, h⟩ => Except.ok.inj ha ▸ h⟩
  | error e => exact ⟨fun h => (nomatch h), fun ⟨_, ha, _⟩ => (nomatch ha)⟩

theorem refuse_eq_ok {p : Prop} [Decidable p] {e : ε} {x : Except ε α} {a : α} :
    (if p then throw e else x) = .ok a ↔ ¬p ∧ x = .ok a := by
  by_cases hp : p
  · rw [if_pos hp]
    exact ⟨fun h => (nomatch h), fun h => absurd hp h.1⟩
  · rw [if_neg hp]
    exact ⟨fun h => ⟨hp, h⟩, fun h => h.2⟩

/-- A loop that fails does so at one of its rounds. -/
theorem foldlM_eq_error {f : β → α → Except ε β} {l : List α} {b : β} {e : ε} (h : l.foldlM f b = .error e) :
    ∃ before a after b', l = before ++ a :: after ∧ before.foldlM f b = .ok b' ∧ f b' a = .error e := by
  induction l generalizing b with
  | nil => cases h
  | cons a rest ih =>
    rw [List.foldlM_cons] at h
    cases hfirst : f b a with
    | error e' =>
      rw [hfirst] at h
      cases h
      exact ⟨[], a, rest, b, rfl, rfl, hfirst⟩
    | ok b₁ =>
      rw [hfirst, ok_bind] at h
      obtain ⟨before, a', after, b', rfl, hbefore, hstop⟩ := ih h
      refine ⟨a :: before, a', after, b', rfl, ?_, hstop⟩
      rw [List.foldlM_cons, hfirst, ok_bind, hbefore]

theorem exists_of_map_fst {σ : Type} {x : Except ε (α × σ)} {a : α} (h : x.map Prod.fst = .ok a) :
    ∃ s, x = .ok (a, s) := by
  cases x with
  | error e => cases h
  | ok r =>
    cases h
    exact ⟨r.2, rfl⟩

/-- Two computations whose results agree go on to results that agree, whatever else they carry. -/
theorem map_fst_bind {σ τ : Type} {x y : Except ε (α × σ)} {g g' : α × σ → Except ε (β × τ)}
    (h : x.map Prod.fst = y.map Prod.fst) (hg : ∀ a s s', (g (a, s)).map Prod.fst = (g' (a, s')).map Prod.fst) :
    (x >>= g).map Prod.fst = (y >>= g').map Prod.fst := by
  cases x with
  | error e =>
    cases y with
    | error e' =>
      cases h
      rfl
    | ok r' => cases h
  | ok r =>
    cases y with
    | error e' => cases h
    | ok r' =>
      obtain ⟨a, s⟩ := r
      obtain ⟨a', s'⟩ := r'
      cases (Except.ok.inj h : a = a')
      exact hg a s s'

/-- What a computation owes of its value and of its fault. -/
def Meets (r : Except ε α) (Q : α → Prop) (E : ε → Prop) : Prop :=
  match r with
  | .ok a => Q a
  | .error e => E e

namespace Meets

@[simp] theorem ok_iff {a : α} {Q : α → Prop} {E : ε → Prop} : Meets (.ok a) Q E ↔ Q a := Iff.rfl

@[simp] theorem pure_iff {a : α} {Q : α → Prop} {E : ε → Prop} :
    Meets (pure a : Except ε α) Q E ↔ Q a := Iff.rfl

@[simp] theorem error_iff {e : ε} {Q : α → Prop} {E : ε → Prop} : Meets (.error e) Q E ↔ E e := Iff.rfl

@[simp] theorem throw_iff {e : ε} {Q : α → Prop} {E : ε → Prop} :
    Meets (throw e : Except ε α) Q E ↔ E e := Iff.rfl

theorem bind_iff {x : Except ε α} {f : α → Except ε β} {Q : β → Prop} {E : ε → Prop} :
    Meets (x >>= f) Q E ↔ Meets x (fun a => Meets (f a) Q E) E := by
  cases x <;> rfl

theorem mono {r : Except ε α} {Q Q' : α → Prop} {E E' : ε → Prop} (h : Meets r Q E)
    (hQ : ∀ a, Q a → Q' a) (hE : ∀ e, E e → E' e) : Meets r Q' E' := by
  cases r with
  | ok a => exact hQ a h
  | error e => exact hE e h

theorem anyFault {r : Except ε α} {Q : α → Prop} {E : ε → Prop} (h : Meets r Q E) : Meets r Q fun _ => True :=
  h.mono (fun _ hq => hq) fun _ _ => trivial

theorem and {r : Except ε α} {Q Q' : α → Prop} {E E' : ε → Prop} (h : Meets r Q E) (h' : Meets r Q' E') :
    Meets r (fun a => Q a ∧ Q' a) fun e => E e ∧ E' e := by
  cases r with
  | ok a => exact ⟨h, h'⟩
  | error e => exact ⟨h, h'⟩

theorem bind {x : Except ε α} {f : α → Except ε β} {Q : α → Prop} {R : β → Prop} {E : ε → Prop}
    (hx : Meets x Q E) (hf : ∀ a, Q a → Meets (f a) R E) : Meets (x >>= f) R E :=
  bind_iff.mpr (hx.mono hf fun _ h => h)

theorem of_ok {r : Except ε α} {a : α} {Q : α → Prop} {E : ε → Prop} (h : Meets r Q E)
    (hr : r = .ok a) : Q a := by
  rw [hr] at h
  exact h

theorem of_error {r : Except ε α} {e : ε} {Q : α → Prop} {E : ε → Prop} (h : Meets r Q E)
    (hr : r = .error e) : E e := by
  rw [hr] at h
  exact h

theorem foldlM {f : β → α → Except ε β} {I : β → Prop} {E : ε → Prop} (l : List α)
    (hf : ∀ b, I b → ∀ a ∈ l, Meets (f b a) I E) {b : β} (hb : I b) : Meets (l.foldlM f b) I E := by
  induction l generalizing b with
  | nil => exact hb
  | cons a l ih =>
    refine (hf b hb a (.head _)).bind ?_
    intro b' hb'
    exact ih (fun c hc a' ha' => hf c hc a' (.tail _ ha')) hb'

theorem exists_ok {r : Except ε α} {Q : α → Prop} (h : Meets r Q fun _ => False) :
    ∃ a, r = .ok a ∧ Q a := by
  cases r with
  | ok a => exact ⟨a, rfl, h⟩
  | error e => exact h.elim

theorem eq_error {r : Except ε α} {e : ε} (h : Meets r (fun _ => False) (· = e)) : r = .error e := by
  cases r with
  | ok a => exact h.elim
  | error e' => exact congrArg Except.error h

instance decidable {r : Except ε α} {Q : α → Prop} {E : ε → Prop} [DecidablePred Q] [DecidablePred E] :
    Decidable (Meets r Q E) :=
  match r with
  | .ok a => inferInstanceAs (Decidable (Q a))
  | .error e => inferInstanceAs (Decidable (E e))

end Meets

end Diamnet
