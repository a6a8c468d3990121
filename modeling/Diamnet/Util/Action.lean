import Diamnet.Util.Outcome

/-! Postconditions for fallible computations on a state.

`Runs x s Q E` says what the action `x` owes when run from `s`: `Q` of its value and
the state it leaves, or `E` of what it stops with; a stopped action leaves no state.
`Ensures` is the same with nothing owed of a stop. -/
namespace Diamnet

abbrev Action (σ ε : Type) := StateT σ (Except ε)

variable {σ ε α β : Type}

def require (c : Prop) [Decidable c] (e : ε) : Action σ ε Unit := if c then pure () else throw e

/-- What an action owes of its value and final state, and of what it stops with. -/
def Runs (x : Action σ ε α) (s : σ) (Q : α → σ → Prop) (E : ε → Prop) : Prop :=
  Meets (x.run s) (fun p => Q p.1 p.2) E

def Ensures (x : Action σ ε α) (s : σ) (Q : α → σ → Prop) : Prop := Runs x s Q fun _ => True

namespace Runs

variable {s : σ} {E : ε → Prop}

@[simp] theorem pure_iff {a : α} {Q : α → σ → Prop} : Runs (pure a : Action σ ε α) s Q E ↔ Q a s := Iff.rfl

@[simp] theorem throw_iff {e : ε} {Q : α → σ → Prop} : Runs (throw e : Action σ ε α) s Q E ↔ E e := Iff.rfl

@[simp] theorem get_iff {Q : σ → σ → Prop} : Runs (get : Action σ ε σ) s Q E ↔ Q s s := Iff.rfl

@[simp] theorem modify_iff {f : σ → σ} {Q : PUnit → σ → Prop} :
    Runs (modify f : Action σ ε PUnit) s Q E ↔ Q ⟨⟩ (f s) := Iff.rfl

theorem bind_iff {x : Action σ ε α} {f : α → Action σ ε β} {Q : β → σ → Prop} :
    Runs (x >>= f) s Q E ↔ Runs x s (fun a s' => Runs (f a) s' Q E) E := by
  unfold Runs
  rw [StateT.run_bind, Meets.bind_iff]

@[simp] theorem require_iff {c : Prop} [Decidable c] {e : ε} {Q : Unit → σ → Prop} :
    Runs (require c e : Action σ ε Unit) s Q E ↔ (c → Q () s) ∧ (¬c → E e) := by
  unfold require
  by_cases h : c <;> simp [h]

theorem mono {x : Action σ ε α} {Q Q' : α → σ → Prop} {E' : ε → Prop} (h : Runs x s Q E)
    (hQ : ∀ a s', Q a s' → Q' a s') (hE : ∀ e, E e → E' e) : Runs x s Q' E' :=
  Meets.mono h (fun p hp => hQ p.1 p.2 hp) hE

theorem bind {x : Action σ ε α} {f : α → Action σ ε β} {Q : α → σ → Prop} {R : β → σ → Prop}
    (hx : Runs x s Q E) (hf : ∀ a s', Q a s' → Runs (f a) s' R E) : Runs (x >>= f) s R E :=
  bind_iff.mpr (hx.mono hf fun _ h => h)

theorem of_total {x : Action σ ε α} {Q : α → σ → Prop} {P : Prop} (hx : Ensures x s Q)
    (htotal : P → Runs x s (fun _ _ => True) fun _ => False) : Runs x s Q fun _ => ¬P := by
  unfold Ensures Runs at *
  cases hrun : x.run s with
  | ok p =>
    rw [hrun] at hx
    exact hx
  | error e =>
    rw [hrun] at htotal
    exact htotal

end Runs

namespace Ensures

variable {s : σ}

theorem bind {x : Action σ ε α} {f : α → Action σ ε β} {Q : α → σ → Prop} {R : β → σ → Prop}
    (hx : Ensures x s Q) (hf : ∀ a s', Q a s' → Ensures (f a) s' R) : Ensures (x >>= f) s R :=
  Runs.bind hx hf

end Ensures

end Diamnet
