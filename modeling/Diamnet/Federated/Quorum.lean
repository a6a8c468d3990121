import Mathlib

/-! Quorums in a system where each node chooses whom it needs.

`satisfied v U` says that the nodes in `U` are enough for `v`. With the nodes of
`B` out of the way (they may do anything, so they count as always willing) a
quorum is a set that is enough for each of its members. When any two such quorums
meet, two things that were each backed by a quorum are both held by one node
(`Backed.common`), which is all an agreement proof asks of the network. -/
namespace Diamnet.Federated

variable {Node : Type*} (satisfied : Node → Set Node → Prop)

/-- A quorum of the nodes `V` once `B` is deleted. -/
structure QuorumDespite (V B U : Set Node) : Prop where
  nonempty : U.Nonempty
  subset : U ⊆ V \ B
  satisfied : ∀ v ∈ U, satisfied v (U ∪ B)

/-- `B` can be dispensed with: the other nodes' quorums meet, and they are
themselves a quorum (or there are none). -/
structure DispensableSet (V B : Set Node) : Prop where
  intersection : ∀ U U', QuorumDespite satisfied V B U → QuorumDespite satisfied V B U' →
    (U ∩ U').Nonempty
  availability : ∀ v ∈ V \ B, satisfied v (V \ B)

/-- `v` is in a quorum all of whose nodes hold `P`. -/
def Backed (V B : Set Node) (P : Node → Prop) (v : Node) : Prop :=
  ∃ U, v ∈ U ∧ QuorumDespite satisfied V B U ∧ ∀ u ∈ U, P u

variable {satisfied} {V B : Set Node}

theorem Backed.mono {P Q : Node → Prop} {v : Node} (h : Backed satisfied V B P v)
    (hPQ : ∀ u ∈ V \ B, P u → Q u) : Backed satisfied V B Q v := by
  obtain ⟨U, hv, hU, hP⟩ := h
  exact ⟨U, hv, hU, fun u hu => hPQ u (hU.subset hu) (hP u hu)⟩

/-- A node that sees `P` from enough nodes is backed, if each of those it sees is
either content with the set it saw or already backed. -/
theorem Backed.of_seen (hmono : ∀ v U U', U ⊆ U' → satisfied v U → satisfied v U')
    {P : Node → Prop} {v : Node} {U : Set Node} (hv : v ∈ V \ B) (hPv : P v) (hU : U \ B ⊆ V)
    (hsat : satisfied v U)
    (hseen : ∀ u ∈ U \ B, (P u ∧ satisfied u U) ∨ Backed satisfied V B P u) :
    Backed satisfied V B P v := by
  -- everything seen that is content with it, and every node already backed
  let W : Set Node := {w | w = v ∨ (w ∈ U \ B ∧ P w ∧ satisfied w U) ∨ Backed satisfied V B P w}
  have hUW : U ⊆ W ∪ B := by
    intro u hu
    by_cases hB : u ∈ B
    · exact .inr hB
    · rcases hseen u ⟨hu, hB⟩ with ⟨hP, hs⟩ | hback
      · exact .inl (.inr (.inl ⟨⟨hu, hB⟩, hP, hs⟩))
      · exact .inl (.inr (.inr hback))
  refine ⟨W, .inl rfl, ⟨⟨v, .inl rfl⟩, ?_, ?_⟩, ?_⟩
  · rintro w (rfl | ⟨hw, _⟩ | ⟨U', hw, hU', _⟩)
    · exact hv
    · exact ⟨hU hw, hw.2⟩
    · exact hU'.subset hw
  · rintro w (rfl | ⟨_, _, hs⟩ | ⟨U', hw, hU', hP'⟩)
    · exact hmono _ _ _ hUW hsat
    · exact hmono _ _ _ hUW hs
    · refine hmono _ _ _ ?_ (hU'.satisfied w hw)
      rintro u (hu | hu)
      · exact .inl (.inr (.inr ⟨U', hu, hU', hP'⟩))
      · exact .inr hu
  · rintro w (rfl | ⟨_, hP, _⟩ | ⟨U', hw, _, hP'⟩)
    · exact hPv
    · exact hP
    · exact hP' w hw

/-- **Two things backed by quorums are both held by one node.** -/
theorem Backed.common (hB : DispensableSet satisfied V B) {P Q : Node → Prop} {v w : Node}
    (hv : Backed satisfied V B P v) (hw : Backed satisfied V B Q w) : ∃ u ∈ V \ B, P u ∧ Q u := by
  obtain ⟨U, _, hU, hP⟩ := hv
  obtain ⟨U', _, hU', hQ⟩ := hw
  obtain ⟨u, hu, hu'⟩ := hB.intersection U U' hU hU'
  exact ⟨u, hU.subset hu, hP u hu, hQ u hu'⟩

end Diamnet.Federated
