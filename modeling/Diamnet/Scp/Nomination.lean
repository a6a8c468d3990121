import Diamnet.Scp.NominationProtocol

/-! The sets of the nomination protocol.

Candidates are accepted values and accepted values are votes, and the three sets only
grow. A node reports its votes and accepted values whenever they have changed, and
its latest nomination is then that of its sets; so the next one is newer than it,
however deeply the emissions nest. -/
namespace Diamnet.Scp.NominationProtocol
open OrderedSet Meets

/-! ### Newer nominations -/

theorem isSubsetHelper_elems {X Y : OrderedSet Value} (h : X ⊆ Y) :
    isSubsetHelper X.elems Y.elems = (true, decide (X ≠ Y)) := by
  have hlen : X.elems.length ≠ Y.elems.length ↔ X ≠ Y := by
    constructor
    · intro hne he
      exact hne (by rw [he])
    · intro hne he
      exact hne (eq_of_length h he)
  simp only [isSubsetHelper, length_le h, if_true, includes_elems.mpr h, hlen]

theorem isNewerStatement_elems {X X' Y Y' : OrderedSet Value} {hash hash' : Hash} (hX : X ⊆ X')
    (hY : Y ⊆ Y') (hne : X ≠ X' ∨ Y ≠ Y') :
    isNewerStatement ⟨hash, X.elems, Y.elems⟩ ⟨hash', X'.elems, Y'.elems⟩ = true := by
  simp only [isNewerStatement, isSubsetHelper_elems hX, isSubsetHelper_elems hY, Bool.or_eq_true,
    decide_eq_true_eq]
  exact hne

theorem isIncreasing_of_pairwise {l : List Value} (h : l.Pairwise (· < ·)) : isIncreasing l = true := by
  induction l with
  | nil => rfl
  | cons a l ih =>
    obtain ⟨ha, hl⟩ := List.pairwise_cons.mp h
    cases l with
    | nil => rfl
    | cons b l => simp [isIncreasing, ha b (.head _), ih hl]

variable {scp : SCP}

variable {s : NominationProtocol}

theorem nomination_sane {v : Value} (hv : v ∈ s.mVotes) : isSane (s.nomination scp) = true := by
  have hne : s.mVotes.elems ≠ [] := List.ne_nil_of_mem hv
  simp [isSane, nomination, isIncreasing_of_pairwise s.mVotes.sorted,
    isIncreasing_of_pairwise s.mAccepted.sorted, hne]

/-! ### The invariant -/

/-- Candidates are accepted, and accepted values are votes. -/
structure Nested (s : NominationProtocol) : Prop where
  candidates : s.mCandidates ⊆ s.mAccepted
  accepted : s.mAccepted ⊆ s.mVotes

/-- The sets of `s'` contain those of `s`. -/
structure Extends (s s' : NominationProtocol) : Prop where
  votes : s.mVotes ⊆ s'.mVotes
  accepted : s.mAccepted ⊆ s'.mAccepted
  candidates : s.mCandidates ⊆ s'.mCandidates

theorem Extends.refl (s : NominationProtocol) : Extends s s := ⟨subset_refl _, subset_refl _, subset_refl _⟩

variable {s' : NominationProtocol}

theorem Extends.trans {s'' : NominationProtocol} (h : Extends s s') (h' : Extends s' s'') : Extends s s'' :=
  ⟨Subset.trans h.votes h'.votes, Subset.trans h.accepted h'.accepted,
    Subset.trans h.candidates h'.candidates⟩

variable (scp)

def own (s : NominationProtocol) : Option SCPNomination := s.mLatestNominations.lookup scp.localNode.mNodeID

/-- The node's latest nomination is of the sets `X` and `Y`. -/
def Reports (s : NominationProtocol) (X Y : OrderedSet Value) : Prop :=
  match own scp s with
  | some nom => nom = ⟨scp.localNode.mQSetHash, X.elems, Y.elems⟩
  | none => X = ∅

/-- The node's own nominations, in the order they were handed to it. -/
def ownNominations (s : NominationProtocol) : List SCPNomination :=
  s.mStatementsHistory.filterMap fun e => if e.1 = scp.localNode.mNodeID then some e.2 else none

/-- Each of them is newer than the one before, and the last is the latest. -/
structure Increasing (s : NominationProtocol) : Prop where
  newer : (ownNominations scp s).IsChain fun old nom => isNewerStatement old nom = true
  last : (ownNominations scp s).getLast? = own scp s

structure Inv (s : NominationProtocol) : Prop extends Nested s, Increasing scp s where
  reports : Reports scp s s.mVotes s.mAccepted

/-- The sets have grown since the node's latest nomination. -/
structure Ahead (s : NominationProtocol) : Prop extends Nested s, Increasing scp s where
  reports : ∃ X Y, Reports scp s X Y ∧ X ⊆ s.mVotes ∧ Y ⊆ s.mAccepted ∧ (X ≠ s.mVotes ∨ Y ≠ s.mAccepted)

/-- Not the exception over a nomination of one's own. -/
def Tolerable (f : NominationFault) : Prop := ∀ nom, f ≠ .badState nom

variable {scp}

theorem Inv.congr (h : Inv scp s) (hv : s'.mVotes = s.mVotes) (ha : s'.mAccepted = s.mAccepted)
    (hc : s'.mCandidates = s.mCandidates) (hM : s'.mLatestNominations = s.mLatestNominations)
    (hH : s'.mStatementsHistory = s.mStatementsHistory) : Inv scp s' := by
  obtain ⟨⟨hcand, hacc⟩, ⟨hnewer, hlast⟩, hrep⟩ := h
  refine ⟨⟨by rwa [hc, ha], by rwa [ha, hv]⟩, ⟨?_, ?_⟩, ?_⟩
  · rwa [ownNominations, hH]
  · rwa [ownNominations, own, hH, hM]
  · rwa [Reports, own, hM, hv, ha]

/-! ### Growing -/

/-- A step that adds to the sets, and says whether it added votes or accepted values. -/
structure Grows (s : NominationProtocol) (modified : Bool) (s' : NominationProtocol) : Prop
    extends Extends s s' where
  nested : Nested s → Nested s'
  modified : modified = true ↔ s.mVotes ≠ s'.mVotes ∨ s.mAccepted ≠ s'.mAccepted
  latest : s'.mLatestNominations = s.mLatestNominations
  history : s'.mStatementsHistory = s.mStatementsHistory

theorem Grows.refl (s : NominationProtocol) : Grows s false s :=
  ⟨Extends.refl s, id, by simp, rfl, rfl⟩

private theorem ne_of_step {X Y W : OrderedSet Value} (hXY : X ⊆ Y) (hYW : Y ⊆ W) :
    X ≠ W ↔ X ≠ Y ∨ Y ≠ W := by
  constructor
  · intro hne
    by_cases h : X = Y
    · exact .inr (h ▸ hne)
    · exact .inl h
  · rintro (hne | hne) he
    · exact hne (Subset.antisymm hXY (he ▸ hYW))
    · exact hne (Subset.antisymm hYW (he ▸ hXY))

theorem Grows.trans {s'' : NominationProtocol} {m m' : Bool} (h : Grows s m s') (h' : Grows s' m' s'') :
    Grows s (m || m') s'' where
  toExtends := h.toExtends.trans h'.toExtends
  nested hs := h'.nested (h.nested hs)
  modified := by
    rw [Bool.or_eq_true, h.modified, h'.modified, ne_of_step h.votes h'.votes,
      ne_of_step h.accepted h'.accepted]
    tauto
  latest := h'.latest.trans h.latest
  history := h'.history.trans h.history

theorem Grows.vote {v : Value} (hv : v ∉ s.mVotes) : Grows s true { s with mVotes := s.mVotes.insert v } :=
  ⟨⟨subset_insert v _, subset_refl _, subset_refl _⟩,
    fun h => ⟨h.candidates, Subset.trans h.accepted (subset_insert v _)⟩, by simp [insert_ne hv], rfl, rfl⟩

theorem Increasing.congr (h : Increasing scp s) (hM : s'.mLatestNominations = s.mLatestNominations)
    (hH : s'.mStatementsHistory = s.mStatementsHistory) : Increasing scp s' := by
  refine ⟨?_, ?_⟩
  · rw [ownNominations, hH]
    exact h.newer
  · rw [ownNominations, own, hH, hM]
    exact h.last

theorem Grows.of_inv {m : Bool} (h : Grows s m s') (hs : Inv scp s) : if m then Ahead scp s' else Inv scp s' := by
  have hinc := hs.toIncreasing.congr h.latest h.history
  have hrep : Reports scp s' s.mVotes s.mAccepted := by
    rw [Reports, own, h.latest]
    exact hs.reports
  cases m with
  | true =>
    exact ⟨h.nested hs.toNested, hinc, s.mVotes, s.mAccepted, hrep, h.votes, h.accepted,
      h.modified.mp rfl⟩
  | false =>
    have hsame : ¬(s.mVotes ≠ s'.mVotes ∨ s.mAccepted ≠ s'.mAccepted) := by
      rw [← h.modified]
      decide
    rw [not_or, not_not, not_not] at hsame
    refine ⟨h.nested hs.toNested, hinc, ?_⟩
    rw [← hsame.1, ← hsame.2]
    exact hrep

/-! ### The steps -/

variable (scp) in
theorem acceptVote_grows (s : NominationProtocol) (v : Value) :
    Grows s (acceptVote scp s v).1 (acceptVote scp s v).2 := by
  unfold acceptVote
  split
  · exact Grows.refl s
  · next hv =>
    split
    · split
      · refine ⟨⟨subset_insert v _, subset_insert v _, subset_refl _⟩, ?_, by simp [insert_ne hv], rfl, rfl⟩
        intro h
        refine ⟨Subset.trans h.candidates (subset_insert v _), ?_⟩
        intro a ha
        rcases mem_insert.mp ha with rfl | ha
        · exact mem_insert.mpr (.inl rfl)
        · exact mem_insert.mpr (.inr (h.accepted a ha))
      · split
        · next toVote _ =>
          by_cases hmem : toVote ∈ s.mVotes
          · simp only [hmem, not_true_eq_false, decide_false, insert_eq hmem]
            exact Grows.refl s
          · simp only [hmem, not_false_eq_true, decide_true]
            exact Grows.vote hmem
        · exact Grows.refl s
    · exact Grows.refl s

variable (scp) in
theorem acceptVotes_grows (votes : List Value) (s : NominationProtocol) :
    Grows s (acceptVotes scp votes s).1 (acceptVotes scp votes s).2 := by
  induction votes generalizing s with
  | nil => exact Grows.refl s
  | cons v rest ih => exact (acceptVote_grows scp s v).trans (ih _)

variable (scp) in
theorem ratifyAccepted_spec (values : List Value) (s : NominationProtocol) :
    ∃ Z, (ratifyAccepted scp values s).2 = { s with mCandidates := Z } ∧ s.mCandidates ⊆ Z ∧
      ∀ a ∈ Z, a ∈ s.mCandidates ∨ a ∈ values := by
  induction values generalizing s with
  | nil => exact ⟨s.mCandidates, rfl, subset_refl _, fun a ha => .inl ha⟩
  | cons v rest ih =>
    rw [ratifyAccepted]
    split
    · obtain ⟨Z, hZ, hsub, hfrom⟩ := ih { s with mCandidates := s.mCandidates.insert v }
      refine ⟨Z, hZ, Subset.trans (subset_insert v _) hsub, ?_⟩
      intro a ha
      rcases hfrom a ha with h | h
      · rcases mem_insert.mp h with rfl | h
        · exact .inr (.head _)
        · exact .inl h
      · exact .inr (.tail _ h)
    · obtain ⟨Z, hZ, hsub, hfrom⟩ := ih s
      refine ⟨Z, hZ, hsub, ?_⟩
      intro a ha
      rcases hfrom a ha with h | h
      · exact .inl h
      · exact .inr (.tail _ h)

variable (scp) in
theorem ratifyAccepted_grows (s : NominationProtocol) :
    Grows s false (ratifyAccepted scp s.mAccepted.elems s).2 := by
  obtain ⟨Z, hZ, hsub, hfrom⟩ := ratifyAccepted_spec scp s.mAccepted.elems s
  rw [hZ]
  refine ⟨⟨subset_refl _, subset_refl _, hsub⟩, ?_, by simp, rfl, rfl⟩
  intro h
  refine ⟨?_, h.accepted⟩
  intro a ha
  rcases hfrom a ha with ha | ha
  · exact h.candidates a ha
  · exact ha

theorem getNewValueFromNomination_meets (s : NominationProtocol) (nom : SCPNomination) :
    Meets (getNewValueFromNomination scp s nom) (fun newVote => ∀ v, newVote = some v → v ∉ s.mVotes)
      Tolerable := by
  unfold getNewValueFromNomination
  rw [bind_iff]
  refine foldlM (I := fun best : Option Value × UInt64 => ∀ v, best.1 = some v → v ∉ s.mVotes)
    _ ?_ (by simp)
  intro best hbest value _
  unfold visitValue
  dsimp only
  split
  · exact hbest
  · next v _ =>
    split
    · exact hbest
    · next hv =>
      unfold hashValue
      split
      · intro nom he
        cases he
      · show ∀ w, (if _ ≥ best.2 then (some v, _) else best).1 = some w → w ∉ s.mVotes
        split
        · intro w hw
          cases hw
          exact hv
        · exact hbest

theorem takeLeaderVote_meets (s : NominationProtocol) (nodeID : NodeID) (nom : SCPNomination) :
    Meets (takeLeaderVote scp s nodeID nom) (fun (took, s') => Grows s took s') Tolerable := by
  unfold takeLeaderVote
  split
  · rw [bind_iff]
    refine (getNewValueFromNomination_meets s nom).mono ?_ fun _ h => h
    intro newVote hnew
    cases newVote with
    | none => exact Grows.refl s
    | some v => exact Grows.vote (hnew v rfl)
  · exact Grows.refl s

theorem takeLeaderVotes_meets (leaders : List NodeID) (s : NominationProtocol) :
    Meets (takeLeaderVotes scp leaders s) (fun (took, s') => Grows s took s') Tolerable := by
  induction leaders generalizing s with
  | nil => exact Grows.refl s
  | cons leader rest ih =>
    rw [takeLeaderVotes]
    split
    · exact ih s
    · next nom _ =>
      rw [bind_iff]
      refine (getNewValueFromNomination_meets s nom).mono ?_ fun _ h => h
      intro newVote hnew
      cases newVote with
      | none => exact ih s
      | some v =>
        rw [bind_iff]
        refine (ih _).mono ?_ fun _ h => h
        rintro ⟨took, s'⟩ h
        exact (Grows.vote (hnew v rfl)).trans h

/-! ### Own nominations -/

theorem Ahead.isNewer (h : Ahead scp s) : s.isNewer scp.localNode.mNodeID (s.nomination scp) = true := by
  obtain ⟨X, Y, hrep, hX, hY, hne⟩ := h.reports
  unfold NominationProtocol.isNewer
  unfold Reports own at hrep
  split at hrep
  · next nom hown =>
    rw [hown, hrep]
    exact isNewerStatement_elems hX hY hne
  · next hown =>
    rw [hown]
    rfl

theorem Ahead.exists_vote (h : Ahead scp s) : ∃ v, v ∈ s.mVotes := by
  obtain ⟨X, Y, -, hX, hY, hne⟩ := h.reports
  by_contra hnone
  have hempty : ∀ a, a ∉ s.mVotes := fun a ha => hnone ⟨a, ha⟩
  rcases hne with hne | hne
  · exact hne (Subset.antisymm hX fun a ha => absurd ha (hempty a))
  · exact hne (Subset.antisymm hY fun a ha => absurd (h.accepted a ha) (hempty a))

variable (scp) in
theorem own_recordEnvelope (s : NominationProtocol) (nodeID : NodeID) (nom : SCPNomination) :
    own scp (s.recordEnvelope nodeID nom) =
      if nodeID = scp.localNode.mNodeID then some nom else own scp s := by
  by_cases h : nodeID = scp.localNode.mNodeID
  · rw [if_pos h, own, recordEnvelope, ← h]
    exact AList.lookup_insert _
  · rw [if_neg h, own, recordEnvelope]
    exact AList.lookup_insert_ne (Ne.symm h)

variable (scp) in
theorem ownNominations_recordEnvelope (s : NominationProtocol) (nodeID : NodeID) (nom : SCPNomination) :
    ownNominations scp (s.recordEnvelope nodeID nom) =
      ownNominations scp s ++ if nodeID = scp.localNode.mNodeID then [nom] else [] := by
  by_cases h : nodeID = scp.localNode.mNodeID <;> simp [ownNominations, recordEnvelope, h]

theorem Ahead.recordEnvelope (h : Ahead scp s) :
    Inv scp (s.recordEnvelope scp.localNode.mNodeID (s.nomination scp)) := by
  have hown := own_recordEnvelope scp s scp.localNode.mNodeID (s.nomination scp)
  rw [if_pos rfl] at hown
  refine ⟨⟨h.candidates, h.accepted⟩, ⟨?_, ?_⟩, ?_⟩
  · rw [ownNominations_recordEnvelope, if_pos rfl, List.isChain_append]
    refine ⟨h.newer, List.IsChain.singleton _, ?_⟩
    intro old hold nom hnom
    rw [h.last] at hold
    simp only [List.head?_cons, Option.mem_def, Option.some.injEq] at hnom
    have hnewer := h.isNewer
    unfold NominationProtocol.isNewer at hnewer
    rw [show s.mLatestNominations.lookup scp.localNode.mNodeID = some old from hold] at hnewer
    rw [← hnom]
    exact hnewer
  · rw [hown, ownNominations_recordEnvelope, if_pos rfl, List.getLast?_concat]
  · rw [Reports, hown]
    rfl

theorem Inv.recordEnvelope (h : Inv scp s) {nodeID : NodeID} (hn : nodeID ≠ scp.localNode.mNodeID)
    (nom : SCPNomination) : Inv scp (s.recordEnvelope nodeID nom) := by
  have hown := own_recordEnvelope scp s nodeID nom
  have hnoms := ownNominations_recordEnvelope scp s nodeID nom
  rw [if_neg hn] at hown
  rw [if_neg hn, List.append_nil] at hnoms
  refine ⟨⟨h.candidates, h.accepted⟩, ⟨?_, ?_⟩, ?_⟩
  · rw [hnoms]
    exact h.newer
  · rw [hnoms, hown]
    exact h.last
  · rw [Reports, hown]
    exact h.reports

/-! ### Nested emissions -/

variable (scp) in
/-- A call that takes the next nomination of a node ahead of its latest one in, and
leaves it with its sets reported. -/
def Takes (processSelf : ProcessSelf) : Prop :=
  ∀ s, Ahead scp s → Meets (processSelf (s.nomination scp) s)
    (fun (state, s') => state = .valid ∧ Inv scp s' ∧ Extends s s') Tolerable

section Emitting
variable {processSelf : ProcessSelf}

variable {s : NominationProtocol}

theorem emitNomination_meets (htakes : Takes scp processSelf) (h : Ahead scp s) :
    Meets (emitNomination scp processSelf s) (fun s' => Inv scp s' ∧ Extends s s') Tolerable := by
  unfold emitNomination
  rw [bind_iff]
  refine (htakes s h).mono ?_ fun _ hf => hf
  rintro ⟨state, s'⟩ ⟨rfl, hinv, hext⟩
  dsimp only
  split
  · exact ⟨hinv.congr rfl rfl rfl rfl rfl, hext.votes, hext.accepted, hext.candidates⟩
  · exact ⟨hinv, hext⟩

theorem promote_meets (htakes : Takes scp processSelf) (nodeID : NodeID) (nom : SCPNomination) (h : Inv scp s) :
    Meets (promote scp processSelf nodeID nom s) (fun s' => Inv scp s' ∧ Extends s s') Tolerable := by
  unfold promote
  have hacc := acceptVotes_grows scp nom.votes s
  generalize acceptVotes scp nom.votes s = accepted at hacc
  obtain ⟨acceptedSome, s₁⟩ := accepted
  dsimp only at hacc ⊢
  have hrat := ratifyAccepted_grows scp s₁
  generalize ratifyAccepted scp s₁.mAccepted.elems s₁ = ratified at hrat ⊢
  obtain ⟨newCandidates, s₂⟩ := ratified
  -- after the emission, if any
  have hfinish : ∀ s₄, Inv scp s₄ ∧ Extends s s₄ →
      Inv scp (bumpComposite scp newCandidates s₄) ∧ Extends s (bumpComposite scp newCandidates s₄) := by
    intro s₄ hs₄
    unfold bumpComposite
    split
    · exact ⟨hs₄.1.congr rfl rfl rfl rfl rfl, hs₄.2.votes, hs₄.2.accepted, hs₄.2.candidates⟩
    · exact hs₄
  rw [bind_iff]
  refine (takeLeaderVote_meets s₂ nodeID nom).mono ?_ fun _ hf => hf
  rintro ⟨tookVote, s₃⟩ htook
  have hgrows : Grows s (acceptedSome || tookVote) s₃ := by
    have hall := (hacc.trans hrat).trans htook
    rwa [Bool.or_false] at hall
  have hs₃ := hgrows.of_inv h
  split
  · next hm =>
    rw [hm] at hs₃
    refine (emitNomination_meets htakes hs₃).bind ?_
    intro s₄ hs₄
    exact hfinish s₄ ⟨hs₄.1, hgrows.toExtends.trans hs₄.2⟩
  · next hm =>
    rw [Bool.not_eq_true] at hm
    rw [hm] at hs₃
    exact hfinish s₃ ⟨hs₃, hgrows.toExtends⟩

theorem processEnvelopeWith_meets (htakes : Takes scp processSelf) (nodeID : NodeID) (nom : SCPNomination)
    (h : Inv scp (s.recordEnvelope nodeID nom)) (hnewer : s.isNewer nodeID nom = true) (hsane : isSane nom = true) :
    Meets (processEnvelopeWith scp processSelf nodeID nom s)
      (fun (state, s') => state = .valid ∧ Inv scp s' ∧ Extends s s') Tolerable := by
  unfold processEnvelopeWith
  rw [hnewer, hsane]
  simp only [Bool.not_true, Bool.or_self, Bool.false_eq_true, if_false]
  split
  · rw [bind_iff]
    refine (promote_meets htakes nodeID nom h).mono ?_ fun _ hf => hf
    rintro s' ⟨hinv, hext⟩
    exact ⟨rfl, hinv, hext.votes, hext.accepted, hext.candidates⟩
  · exact ⟨rfl, h, subset_refl _, subset_refl _, subset_refl _⟩

end Emitting

theorem processSelf_takes (n : Nat) : Takes scp (processSelf scp n) := by
  induction n with
  | zero =>
    intro s _ nom he
    cases he
  | succ n ih =>
    intro s hs
    obtain ⟨v, hv⟩ := hs.exists_vote
    exact processEnvelopeWith_meets ih _ _ hs.recordEnvelope hs.isNewer (nomination_sane hv)

/-! ### Events -/

theorem processEnvelope_meets (fuel : Nat) (h : Inv scp s) {nodeID : NodeID} (hn : nodeID ≠ scp.localNode.mNodeID)
    (nom : SCPNomination) :
    Meets (processEnvelope scp fuel s nodeID nom) (fun (_, s') => Inv scp s' ∧ Extends s s') Tolerable := by
  by_cases hok : s.isNewer nodeID nom = true ∧ isSane nom = true
  · refine (processEnvelopeWith_meets (processSelf_takes fuel) nodeID nom (h.recordEnvelope hn nom) hok.1
      hok.2).mono ?_ fun _ hf => hf
    rintro ⟨state, s'⟩ ⟨-, hs'⟩
    exact hs'
  · have hinvalid : (!s.isNewer nodeID nom || !isSane nom) = true := by
      rw [not_and_or] at hok
      simpa using hok
    rw [processEnvelope, processEnvelopeWith, if_pos hinvalid]
    exact ⟨h, Extends.refl s⟩

theorem hashNode_meets (s : NominationProtocol) (isPriority : Bool) (nodeID : NodeID) :
    Meets (hashNode scp s isPriority nodeID) (fun _ => True) Tolerable := by
  unfold hashNode
  split
  · intro nom he
    cases he
  · trivial

theorem priorityWeight_meets (nodeID : NodeID) (qset : SCPQuorumSet) :
    Meets (priorityWeight scp nodeID qset) (fun _ => True) Tolerable := by
  unfold priorityWeight
  split
  · trivial
  · split
    · trivial
    · intro nom he
      cases he

theorem getNodePriority_meets (s : NominationProtocol) (nodeID : NodeID) (qset : SCPQuorumSet) :
    Meets (getNodePriority scp s nodeID qset) (fun _ => True) Tolerable := by
  refine (priorityWeight_meets nodeID qset).bind ?_
  intro w _
  split
  · refine (hashNode_meets s false nodeID).bind ?_
    intro hash _
    split
    · exact hashNode_meets s true nodeID
    · trivial
  · trivial

theorem newRoundLeaders_meets (s : NominationProtocol) (qset : SCPQuorumSet) :
    Meets (newRoundLeaders scp s qset) (fun _ => True) Tolerable := by
  refine (getNodePriority_meets s _ qset).bind ?_
  intro topPriority _
  rw [bind_iff]
  refine (foldlM (I := fun _ => True) _ ?_ trivial).mono (fun _ _ => trivial) fun _ hf => hf
  intro top _ cur _
  unfold visitLeader
  rw [bind_iff]
  exact (getNodePriority_meets s cur qset).mono (fun _ _ => trivial) fun _ hf => hf

theorem searchLeaders_meets (qset : SCPQuorumSet) (maxLeaderCount fuel : Nat) (s : NominationProtocol) :
    Meets (searchLeaders scp qset maxLeaderCount fuel s)
      (fun s' => ∃ round leaders, s' = { s with mRoundNumber := round, mRoundLeaders := leaders }) Tolerable := by
  induction fuel generalizing s with
  | zero =>
    intro nom he
    cases he
  | succ n ih =>
    rw [searchLeaders]
    split
    · refine (newRoundLeaders_meets s qset).bind ?_
      intro leaders _
      dsimp only
      split
      · exact ⟨_, _, rfl⟩
      · refine (ih _).mono ?_ fun _ hf => hf
        rintro s' ⟨round, leaders, rfl⟩
        exact ⟨round, leaders, rfl⟩
    · exact ⟨_, _, rfl⟩

theorem nominate_meets (fuel : Nat) (h : Inv scp s) (value previousValue : Value) (timedout : Bool) :
    Meets (nominate scp fuel s value previousValue timedout) (fun (_, s') => Inv scp s' ∧ Extends s s')
      Tolerable := by
  unfold nominate
  split
  · exact ⟨h, Extends.refl s⟩
  · refine (searchLeaders_meets _ _ fuel _).bind ?_
    rintro _ ⟨round, leaders, rfl⟩
    generalize hs₁ : { s with
      mNominationStarted := true, mPreviousValue := previousValue
      mRoundNumber := round, mRoundLeaders := leaders } = s₁
    have hinv : Inv scp s₁ := hs₁ ▸ h.congr rfl rfl rfl rfl rfl
    have hext : Extends s s₁ := hs₁ ▸ ⟨subset_refl _, subset_refl _, subset_refl _⟩
    dsimp only
    have hours : Grows s₁ (decide (scp.localNode.mNodeID ∈ s₁.mRoundLeaders ∧ value ∉ s₁.mVotes))
        (if decide (scp.localNode.mNodeID ∈ s₁.mRoundLeaders ∧ value ∉ s₁.mVotes) = true then
          { s₁ with mVotes := s₁.mVotes.insert value } else s₁) := by
      split
      · next hm =>
        rw [hm]
        exact Grows.vote (of_decide_eq_true hm).2
      · next hm =>
        rw [Bool.not_eq_true] at hm
        rw [hm]
        exact Grows.refl s₁
    rw [bind_iff]
    refine (takeLeaderVotes_meets _ _).mono ?_ fun _ hf => hf
    rintro ⟨theirs, s₃⟩ htheirs
    have hgrows := hours.trans htheirs
    have hs₃ := hgrows.of_inv hinv
    split
    · next hm =>
      rw [hm] at hs₃
      refine (emitNomination_meets (processSelf_takes fuel) hs₃).bind ?_
      intro s₄ hs₄
      exact ⟨hs₄.1, hext.trans (hgrows.toExtends.trans hs₄.2)⟩
    · next hm =>
      rw [Bool.not_eq_true] at hm
      rw [hm] at hs₃
      exact ⟨hs₃, hext.trans hgrows.toExtends⟩

/-- The node that sent what the event delivers is another one. -/
def Event.FromOther (scp : SCP) : Event → Prop
  | .receive nodeID _ => nodeID ≠ scp.localNode.mNodeID
  | .nominate _ _ _ => True
  | .stopNomination => True

theorem handle_meets (fuel : Nat) (h : Inv scp s) {e : Event} (he : e.FromOther scp) :
    Meets (handle scp fuel s e) (fun s' => Inv scp s' ∧ Extends s s') Tolerable := by
  cases e with
  | receive nodeID nom =>
    rw [handle, bind_iff]
    exact processEnvelope_meets fuel h he nom
  | nominate value previousValue timedout =>
    rw [handle, bind_iff]
    exact nominate_meets fuel h value previousValue timedout
  | stopNomination => exact ⟨h.congr rfl rfl rfl rfl rfl, subset_refl _, subset_refl _, subset_refl _⟩

theorem run_meets (fuel : Nat) (es : List Event) (hes : ∀ e ∈ es, e.FromOther scp) (h : Inv scp s) :
    Meets (run scp fuel s es) (fun s' => Inv scp s' ∧ Extends s s') Tolerable := by
  induction es generalizing s with
  | nil => exact ⟨h, Extends.refl s⟩
  | cons e es ih =>
    obtain ⟨he, hes⟩ := List.forall_mem_cons.mp hes
    refine (handle_meets fuel h he).bind ?_
    rintro s' ⟨hs', hext⟩
    refine (ih hes hs').mono ?_ fun _ hf => hf
    rintro s'' ⟨hs'', hext'⟩
    exact ⟨hs'', hext.trans hext'⟩

theorem fresh_inv (scp : SCP) : Inv scp (fresh scp) :=
  ⟨⟨subset_refl _, subset_refl _⟩, ⟨List.IsChain.nil, rfl⟩, rfl⟩

theorem run_append (fuel : Nat) (s : NominationProtocol) (es es' : List Event) :
    run scp fuel s (es ++ es') = run scp fuel s es >>= fun s' => run scp fuel s' es' := by
  induction es generalizing s with
  | nil => rfl
  | cons e es ih =>
    simp only [List.cons_append, run, ih, bind_assoc]

/-- In a run on the nominations of other nodes, candidates are accepted values, accepted
values are votes, the three sets only grow, every nomination of the node's own is newer than
the one before it, and none is rejected. -/
theorem run_nomination (scp : SCP) (fuel : Nat) (es : List Event) (hes : ∀ e ∈ es, e.FromOther scp) :
    (∀ s, run scp fuel (fresh scp) es = .ok s →
      s.mCandidates ⊆ s.mAccepted ∧ s.mAccepted ⊆ s.mVotes ∧
      (ownNominations scp s).IsChain (fun old nom => isNewerStatement old nom = true)) ∧
    (∀ es₁ es₂ s₁ s, es = es₁ ++ es₂ → run scp fuel (fresh scp) es₁ = .ok s₁ →
      run scp fuel (fresh scp) es = .ok s →
      s₁.mVotes ⊆ s.mVotes ∧ s₁.mAccepted ⊆ s.mAccepted ∧ s₁.mCandidates ⊆ s.mCandidates) ∧
    ∀ nom, run scp fuel (fresh scp) es ≠ .error (.badState nom) := by
  have hrun := fun es (hes : ∀ e ∈ es, e.FromOther scp) => run_meets fuel es hes (fresh_inv scp)
  refine ⟨?_, ?_, ?_⟩
  · intro s hs
    obtain ⟨hinv, -⟩ := (hrun es hes).of_ok hs
    exact ⟨hinv.candidates, hinv.accepted, hinv.newer⟩
  · rintro es₁ es₂ s₁ s rfl hs₁ hs
    rw [List.forall_mem_append] at hes
    obtain ⟨hinv, -⟩ := (hrun es₁ hes.1).of_ok hs₁
    rw [run_append, hs₁] at hs
    obtain ⟨-, hext⟩ := (run_meets fuel es₂ hes.2 hinv).of_ok hs
    exact ⟨hext.votes, hext.accepted, hext.candidates⟩
  · intro nom hbad
    exact (hrun es hes).of_error hbad nom rfl

/-! ### Two nodes that need each other -/

/-- Node 0, whose only slice is itself with node 7. -/
def bothOfTwo : SCP where
  localNode := ⟨0, true, ⟨2, [0, 7], []⟩, 1⟩
  driver := {
    getQSet := fun h => if h = 1 then some ⟨2, [0, 7], []⟩ else none
    validateValue := fun _ _ => .kFullyValidatedValue
    extractValidValue := fun _ => none
    computeHashNode := fun _ _ _ _ => 0
    computeValueHash := fun _ _ _ => 0
    combineCandidates := fun candidates => candidates.flatten }

instance Event.decidableFromOther (scp : SCP) : DecidablePred (Event.FromOther scp)
  | .receive nodeID _ => inferInstanceAs (Decidable (nodeID ≠ scp.localNode.mNodeID))
  | .nominate _ _ _ | .stopNomination => .isTrue trivial

/-- A nomination under the node's own name is recorded as its own; its next one does not
contain it. -/
theorem bothOfTwo_badState :
    run bothOfTwo 9 (fresh bothOfTwo) [.receive 0 ⟨1, [[2], [3]], []⟩, .nominate [1] [9] false] =
      .error (.badState ⟨1, [[1], [3]], []⟩) := by
  apply eq_error
  decide +kernel

/-- A value both nodes vote for becomes a candidate, over two nominations of node 0. -/
theorem run_nomination_bothOfTwo :
    ∃ s, run bothOfTwo 9 (fresh bothOfTwo) [.nominate [1] [9] false, .receive 7 ⟨1, [[1]], [[1]]⟩] = .ok s ∧
      s.mCandidates.elems = [[1]] ∧ (ownNominations bothOfTwo s).length = 2 ∧
      s.mCandidates ⊆ s.mAccepted ∧ s.mAccepted ⊆ s.mVotes ∧
      (ownNominations bothOfTwo s).IsChain (fun old nom => isNewerStatement old nom = true) := by
  obtain ⟨s, hrun, hcand, hown⟩ := exists_ok
    (r := run bothOfTwo 9 (fresh bothOfTwo) [.nominate [1] [9] false, .receive 7 ⟨1, [[1]], [[1]]⟩])
    (Q := fun s => s.mCandidates.elems = [[1]] ∧ (ownNominations bothOfTwo s).length = 2) (by decide +kernel)
  exact ⟨s, hrun, hcand, hown, (run_nomination bothOfTwo 9 _ (by decide)).1 s hrun⟩

end Diamnet.Scp.NominationProtocol
