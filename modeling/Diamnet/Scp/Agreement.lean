import Diamnet.Federated.Quorum
import Diamnet.Scp.Commitment

/-! A network of nodes that run the ballot protocol for one slot.

Every event at every node is one entry of a schedule: a delivery, a call of
`bumpState`, a timer. A node outside `illBehaved` runs `BallotProtocol`; a node in
it may have sent anything to anyone. Statements are signed, so what is delivered
in another node's name is something that node has said. Schedules are arbitrary,
so messages may be lost, late, repeated and out of order. -/
open Diamnet.Federated Diamnet.Scp.BallotProtocol Diamnet.Scp.Core

namespace Diamnet.Scp
open Function LocalNode

structure Network where
  nodes : Finset NodeID
  illBehaved : Finset NodeID
  /-- Each node's configuration and driver. -/
  scp : NodeID → SCP
  nodeID : ∀ v ∈ nodes \ illBehaved, (scp v).localNode.mNodeID = v
  sane : ∀ v ∈ nodes \ illBehaved, isQuorumSetSane (scp v).localNode.mQSet false = true
  /-- A hash stands for one quorum set, if the driver knows it. -/
  hash : ∀ u ∈ nodes \ illBehaved, ∀ v ∈ nodes \ illBehaved, ∀ q,
    (scp v).driver.getQSet (scp u).localNode.mQSetHash = some q → q = (scp u).localNode.mQSet

namespace Network

abbrev World := NodeID → BallotProtocol

variable (net : Network)

def init : World := fun v => fresh (net.scp v)

/-- What may happen at `v`: of deliveries, those of other nodes' statements that
their node has made, or might have if it is ill-behaved. -/
def canHappen (w : World) (v : NodeID) : Event → Bool
  | .receive st => decide (st.nodeID ≠ v) && (decide (st.nodeID ∈ net.illBehaved) ||
      decide (st.nodeID ∈ net.nodes) && decide (st ∈ (w st.nodeID).mStatementsHistory))
  | _ => true

/-- One event at one node. A call that faults takes its process down; the world is
then left as it was. -/
def step (w : World) (entry : NodeID × Event) : World :=
  let (v, e) := entry
  if v ∈ net.nodes \ net.illBehaved ∧ net.canHappen w v e then
    match handle (net.scp v) (w v) e with
    | .ok s => update w v s
    | .error _ => w
  else w

def run (schedule : List (NodeID × Event)) : World := schedule.foldl net.step net.init

def satisfied (v : NodeID) (U : Set NodeID) : Prop :=
  ∃ nodes : List NodeID, (∀ n ∈ nodes, n ∈ U) ∧
    isQuorumSlice (net.scp v).localNode.mQSet nodes = true

/-- The network enjoys quorum intersection and availability despite its ill-behaved nodes. -/
def Dispensable : Prop := DispensableSet net.satisfied net.nodes net.illBehaved

variable {net}

theorem satisfied_mono (v : NodeID) (U U' : Set NodeID) (h : U ⊆ U') (hs : net.satisfied v U) :
    net.satisfied v U' := by
  obtain ⟨nodes, hnodes, hslice⟩ := hs
  exact ⟨nodes, fun n hn => h (hnodes n hn), hslice⟩

/-! ### What holds of every world -/

def Confirms (net : Network) (w : World) (x : Value) (v : NodeID) : Prop :=
  SaysConfirm (net.scp v) (w v).toCore x

/-- Each node is in order, and what is recorded in a node's name it has said. -/
structure Authentic (net : Network) (w : World) : Prop where
  sound : ∀ v ∈ net.nodes \ net.illBehaved, (w v).Sound (net.scp v)
  deciding : ∀ v ∈ net.nodes \ net.illBehaved,
    Recorded (w v).toCore ∧ Deciding (net.scp v) (w v).toCore
  said : ∀ v ∈ net.nodes \ net.illBehaved, ∀ st ∈ (w v).mStatementsHistory,
    st.nodeID ∈ net.illBehaved ∨ st.nodeID ∈ net.nodes ∧ st ∈ (w st.nodeID).mStatementsHistory

structure Consistent (net : Network) (w : World) : Prop extends Authentic net w where
  /-- A node that has externalized `x` is in a quorum that accepts the commit of `x`. -/
  backed : ∀ v ∈ net.nodes \ net.illBehaved, (w v).mPhase = .externalize →
    ∀ x, Committed (net.scp v) (w v).toCore x →
      Backed net.satisfied net.nodes net.illBehaved (Confirms net w x) v

theorem init_consistent (net : Network) : Consistent net net.init where
  sound _ _ := fresh_sound
  deciding _ _ := fresh_deciding
  said _ _ st hst := by simp [init, fresh] at hst
  backed _ _ hphase := by simp [init, fresh] at hphase

variable {scp : SCP} {s : Core}

theorem Committed.value_unique {x y : Value} (hx : Committed scp s x) (hy : Committed scp s y) : x = y :=
  Option.some.inj (hx.override.symm.trans hy.override)

theorem committed_of_confirm (h : Deciding scp s) {con : SCPConfirm} (hsay : Says scp s (.confirm con)) :
    Committed scp s con.ballot.value ∧
      con.quorumSetHash = scp.localNode.mQSetHash := by
  have hphase : s.mPhase ≠ .prepare := by
    intro hphase
    cases h with
    | prepare _ hconfirm _ => exact hconfirm con hsay
    | confirm _ hp _ | externalize _ hp _ _ =>
      rw [hphase] at hp
      cases hp
  obtain ⟨x, hx⟩ := h.committed hphase
  obtain ⟨hv, hhash⟩ := hx.confirm con hsay
  exact ⟨hv ▸ hx, hhash⟩

theorem committed_of_externalize (h : Deciding scp s) {ext : SCPExternalize} (hsay : Says scp s (.externalize ext)) :
    Committed scp s ext.commit.value ∧ s.mPhase = .externalize := by
  have hphase : s.mPhase ≠ .prepare := by
    intro hphase
    cases h with
    | prepare _ _ hext => exact hext ext hsay
    | confirm _ hp _ | externalize _ hp _ _ =>
      rw [hphase] at hp
      cases hp
  obtain ⟨x, hx⟩ := h.committed hphase
  obtain ⟨hext, hv⟩ := hx.externalize ext hsay
  exact ⟨hv ▸ hx, hext⟩

variable {w : World} {v : NodeID} {e : Event}

theorem fromOther_of_canHappen (hv : v ∈ net.nodes \ net.illBehaved) (he : net.canHappen w v e = true) :
    e.FromOther (net.scp v) := by
  cases e with
  | receive st =>
    simp only [canHappen, Bool.and_eq_true, decide_eq_true_eq] at he
    rw [Event.FromOther, net.nodeID v hv]
    exact he.1
  | _ => trivial

theorem mem_update {s : BallotProtocol} (hgrow : ∀ st ∈ (w v).mStatementsHistory, st ∈ s.mStatementsHistory)
    {u : NodeID} {st : SCPStatement} (hst : st ∈ (w u).mStatementsHistory) :
    st ∈ (update w v s u).mStatementsHistory := by
  by_cases hu : u = v
  · subst hu
    rw [update_self]
    exact hgrow st hst
  · rw [update_of_ne hu]
    exact hst

/-- A well-behaved node goes on to `s`, with more said and, of others, only what may be delivered. -/
theorem Authentic.update (h : Authentic net w) {s : BallotProtocol} (hv : v ∈ net.nodes \ net.illBehaved)
    (he : net.canHappen w v e = true) (hsound : s.Sound (net.scp v))
    (hdec : Recorded s.toCore ∧ Deciding (net.scp v) s.toCore)
    (hgrow : ∀ st ∈ (w v).mStatementsHistory, st ∈ s.mStatementsHistory)
    (hnew : ∀ st ∈ s.mStatementsHistory, st ∈ (w v).mStatementsHistory ∨ st.nodeID = (net.scp v).localNode.mNodeID ∨ e = .receive st) :
    Authentic net (Function.update w v s) := by
  have hold : ∀ st : SCPStatement, st.nodeID ∈ net.illBehaved ∨ st.nodeID ∈ net.nodes ∧
      st ∈ (w st.nodeID).mStatementsHistory → st.nodeID ∈ net.illBehaved ∨ st.nodeID ∈ net.nodes ∧
        st ∈ (Function.update w v s st.nodeID).mStatementsHistory := by
    rintro st (hB | ⟨hV, hmem⟩)
    · exact .inl hB
    · exact .inr ⟨hV, mem_update hgrow hmem⟩
  constructor
  · intro u hu
    by_cases huv : u = v
    · subst huv
      rwa [update_self]
    · rw [update_of_ne huv]
      exact h.sound u hu
  · intro u hu
    by_cases huv : u = v
    · subst huv
      rwa [update_self]
    · rw [update_of_ne huv]
      exact h.deciding u hu
  · intro u hu st hst
    by_cases huv : u = v
    · subst huv
      rw [update_self] at hst
      rcases hnew st hst with hst' | hself | hreceived
      · exact hold st (h.said u hu st hst')
      · rw [net.nodeID u hu] at hself
        refine .inr ⟨hself ▸ (Finset.mem_sdiff.mp hu).1, ?_⟩
        rw [hself, update_self]
        exact hst
      · subst hreceived
        simp only [canHappen, Bool.and_eq_true, Bool.or_eq_true, decide_eq_true_eq] at he
        exact hold st he.2
    · rw [update_of_ne huv] at hst
      exact hold st (h.said u hu st hst)

/-- **The statements that justify externalizing come from a quorum**: each node that
made one accepts the commit and is content with those seen, or was backed itself. -/
theorem Authentic.backed (h : Authentic net w) {x : Value} (hv : v ∈ net.nodes \ net.illBehaved)
    (hsaid : Confirms net w x v) (hjust : Justified (net.scp v) (w v).toCore x)
    (hback : ∀ n ∈ net.nodes \ net.illBehaved, n ≠ v → (w n).mPhase = .externalize → Committed (net.scp n) (w n).toCore x → Backed net.satisfied net.nodes net.illBehaved (Confirms net w x) n) :
    Backed net.satisfied net.nodes net.illBehaved (Confirms net w x) v := by
  obtain ⟨U, hslice, hU⟩ := hjust
  have hsay : ∀ (n : NodeID) (pledges : SCPPledges), n ∉ net.illBehaved →
      ⟨n, pledges⟩ ∈ (w v).mStatementsHistory →
        n ∈ net.nodes \ net.illBehaved ∧ Says (net.scp n) (w n).toCore pledges := by
    intro n pledges hn hst
    obtain ⟨hV, hmem⟩ := (h.said v hv _ hst).resolve_left hn
    have hnode : n ∈ net.nodes \ net.illBehaved := Finset.mem_sdiff.mpr ⟨hV, hn⟩
    refine ⟨hnode, ?_⟩
    rw [Says, net.nodeID n hnode]
    exact hmem
  refine Backed.of_seen satisfied_mono (U := {n | n ∈ U}) (by simpa using hv) hsaid ?_
    ⟨U, fun _ hn => hn, hslice⟩ ?_
  · rintro n ⟨hn, hnB⟩
    rcases hU n hn with ⟨con, q, hst, _⟩ | ⟨_, ext, hst, _⟩
    · exact (Finset.mem_sdiff.mp (hsay n _ hnB hst).1).1
    · exact (Finset.mem_sdiff.mp (hsay n _ hnB hst).1).1
  · rintro n ⟨hn, hnB⟩
    rcases hU n hn with ⟨con, q, hst, hcv, hq, hsl⟩ | ⟨hne, ext, hst, hev⟩
    · obtain ⟨hnode, hcon⟩ := hsay n _ hnB hst
      obtain ⟨_, hhash⟩ := committed_of_confirm (h.deciding n hnode).2 hcon
      rw [hhash] at hq
      have hqset := net.hash n hnode v hv q hq
      exact .inl ⟨⟨con, hcon, hcv, hhash⟩, U, fun _ hn => hn, hqset ▸ hsl⟩
    · obtain ⟨hnode, hext⟩ := hsay n _ hnB hst
      obtain ⟨hcommitted, hphase⟩ := committed_of_externalize (h.deciding n hnode).2 hext
      rw [net.nodeID v hv] at hne
      exact .inr (hback n hnode hne hphase (hev ▸ hcommitted))

theorem Consistent.event (h : Consistent net w) {s : BallotProtocol} (hv : v ∈ net.nodes \ net.illBehaved)
    (he : net.canHappen w v e = true) (hs : handle (net.scp v) (w v) e = .ok s) :
    Consistent net (update w v s) := by
  obtain ⟨hsound, hdec, s1, happens, hmoves⟩ := (deciding_invariant.handle (fun _ h => h)
    (fromOther_of_canHappen hv he) (h.sound v hv) (h.deciding v hv)).of_ok hs
  obtain ⟨hgrow, hnew⟩ := handle_history happens hmoves
  have hauth := h.toAuthentic.update hv he hsound hdec hgrow hnew
  refine ⟨hauth, ?_⟩
  -- nodes that were backed still are
  have hback : ∀ n ∈ net.nodes \ net.illBehaved, n ≠ v →
      (update w v s n).mPhase = .externalize →
      ∀ x, Committed (net.scp n) (update w v s n).toCore x →
        Backed net.satisfied net.nodes net.illBehaved (Confirms net (update w v s) x) n := by
    intro n hn hne hphase x hx
    rw [update_of_ne hne] at hphase hx
    refine (h.backed n hn hphase x hx).mono ?_
    rintro m _ ⟨con, hsay, hcon⟩
    exact ⟨con, mem_update hgrow hsay, hcon⟩
  intro u hu hphase x hx
  by_cases huv : u = v
  · subst huv
    refine hauth.backed hu hx.said ?_ fun n hn hne hp hc => hback n hn hne hp x hc
    rw [update_self] at hphase hx ⊢
    cases hdec.2 with
    | prepare hp _ _ | confirm _ hp _ =>
      rw [hphase] at hp
      cases hp
    | externalize y _ hy hjust => exact Committed.value_unique hy hx ▸ hjust
  · exact hback u hu huv hphase x hx

theorem Consistent.step (h : Consistent net w) (entry : NodeID × Event) : Consistent net (net.step w entry) := by
  unfold Network.step
  dsimp only
  split
  · next hcan =>
    split
    · next s hs => exact h.event hcan.1 hcan.2 hs
    · exact h
  · exact h

theorem run_consistent (net : Network) (schedule : List (NodeID × Event)) :
    Consistent net (net.run schedule) := by
  unfold run
  induction schedule using List.reverseRecOn with
  | nil => exact init_consistent net
  | append_singleton schedule entry ih =>
    rw [List.foldl_append]
    exact ih.step entry

/-- **Agreement**: whatever the schedule, two nodes that externalize do so on one value. -/
theorem agreement (net : Network) (hB : net.Dispensable) (schedule : List (NodeID × Event))
    (v u : NodeID) (hv : v ∈ net.nodes \ net.illBehaved) (hu : u ∈ net.nodes \ net.illBehaved)
    (hvphase : (net.run schedule v).mPhase = .externalize)
    (huphase : (net.run schedule u).mPhase = .externalize) (c c' : SCPBallot)
    (hc : (net.run schedule v).mCommit = some c) (hc' : (net.run schedule u).mCommit = some c') :
    c.value = c'.value := by
  have h := run_consistent net schedule
  -- the value each has externalized, as its registers have it
  have hvalue : ∀ n ∈ net.nodes \ net.illBehaved, (net.run schedule n).mPhase = .externalize →
      ∀ b, (net.run schedule n).mCommit = some b →
        Committed (net.scp n) (net.run schedule n).toCore b.value := by
    intro n hn hphase b hb
    obtain ⟨x, hx⟩ := (h.deciding n hn).2.committed (by simp [hphase])
    obtain ⟨b', hb', hbx⟩ := hx.commit
    rw [hb] at hb'
    cases hb'
    exact hbx ▸ hx
  have hback := h.backed v hv hvphase _ (hvalue v hv hvphase c hc)
  have hback' := h.backed u hu huphase _ (hvalue u hu huphase c' hc')
  obtain ⟨m, hm, ⟨con, hsay, hcon, _⟩, ⟨con', hsay', hcon', _⟩⟩ := hback.common hB hback'
  have hm : m ∈ net.nodes \ net.illBehaved := by simpa using hm
  have hbound := (committed_of_confirm (h.deciding m hm).2 hsay).1
  have hbound' := (committed_of_confirm (h.deciding m hm).2 hsay').1
  rw [← hcon, ← hcon']
  exact Committed.value_unique hbound hbound'

/-! ### Decisions last -/

theorem Consistent.history (h : Consistent net w) (more : List (NodeID × Event)) {st : SCPStatement}
    (hst : st ∈ (w v).mStatementsHistory) : st ∈ (more.foldl net.step w v).mStatementsHistory := by
  induction more generalizing w with
  | nil => exact hst
  | cons entry more ih =>
    refine ih (h.step entry) ?_
    simp only [Network.step]
    split_ifs with hcan
    · cases hs : handle (net.scp entry.1) (w entry.1) entry.2 with
      | ok s =>
        obtain ⟨_, _, s1, happens, hmoves⟩ := (deciding_invariant.handle (fun _ h => h)
          (fromOther_of_canHappen hcan.1 hcan.2) (h.sound _ hcan.1) (h.deciding _ hcan.1)).of_ok hs
        exact mem_update (handle_history happens hmoves).1 hst
      | error _ => exact hst
    · exact hst

/-- **A decision lasts**: once a node has externalized `x`, every node that externalizes later is bound to
`x`, however the schedule goes on. -/
theorem run_decision (hB : net.Dispensable) (schedule more : List (NodeID × Event)) {u : NodeID} {x : Value}
    (hv : v ∈ net.nodes \ net.illBehaved) (hphase : (net.run schedule v).mPhase = .externalize)
    (hx : Committed (net.scp v) (net.run schedule v).toCore x) (hu : u ∈ net.nodes \ net.illBehaved)
    (hlater : (net.run (schedule ++ more) u).mPhase = .externalize) :
    Committed (net.scp u) (net.run (schedule ++ more) u).toCore x := by
  have hold := run_consistent net schedule
  have h := run_consistent net (schedule ++ more)
  rw [run, List.foldl_append] at h hlater ⊢
  obtain ⟨y, hy⟩ := (h.deciding u hu).2.committed (by simp [hlater])
  -- the quorum behind `x` still is one
  have hback := (hold.backed v hv hphase x hx).mono fun m _ ⟨con, hsay, hcon⟩ =>
    (⟨con, hold.history more hsay, hcon⟩ : Confirms net _ x m)
  obtain ⟨m, hm, ⟨_, hsay, rfl, _⟩, ⟨_, hsay', rfl, _⟩⟩ := hback.common hB (h.backed u hu hlater y hy)
  have hdec := (h.deciding m (by simpa using hm)).2
  exact Committed.value_unique (committed_of_confirm hdec hsay').1 (committed_of_confirm hdec hsay).1 ▸ hy

/-! #### Two nodes that need each other, beside a third that equivocates -/

def bothNodes : SCPQuorumSet := ⟨2, [0, 1], []⟩

def pairScp (v : NodeID) : SCP where
  localNode := ⟨v, true, bothNodes, 0⟩
  driver :=
    { getQSet := fun h => if h = 0 then some bothNodes else none
      validateValue := fun v _ => if v = [] then .kInvalidValue else .kFullyValidatedValue
      extractValidValue := fun _ => none
      computeHashNode := fun _ _ _ _ => 0
      computeValueHash := fun _ _ _ => 0
      combineCandidates := fun _ => [] }

def pair : Network where
  nodes := {0, 1, 2}
  illBehaved := {2}
  scp := pairScp
  nodeID _ _ := rfl
  sane _ _ := by
    show isQuorumSetSane bothNodes false = true
    decide
  hash _ _ _ _ _ h := (Option.some.inj h).symm

theorem bothNodes_mem {nodes : List NodeID} (h : isQuorumSlice bothNodes nodes = true) :
    0 ∈ nodes ∧ 1 ∈ nodes := by
  rw [isQuorumSlice_iff] at h
  by_cases h0 : 0 ∈ nodes <;> by_cases h1 : 1 ∈ nodes <;>
    simp_all [entriesMet, bothNodes, due]

theorem pair_dispensable : pair.Dispensable where
  intersection U U' hU hU' := by
    have hzero : ∀ W, QuorumDespite pair.satisfied pair.nodes pair.illBehaved W → 0 ∈ W := by
      intro W hW
      obtain ⟨v, hv⟩ := hW.nonempty
      obtain ⟨nodes, hnodes, hslice⟩ := hW.satisfied v hv
      rcases hnodes 0 (bothNodes_mem hslice).1 with h | h
      · exact h
      · simp [pair] at h
    exact ⟨0, hzero U hU, hzero U' hU'⟩
  availability _ _ := by
    refine ⟨[0, 1], by simp [pair], ?_⟩
    show isQuorumSlice bothNodes [0, 1] = true
    decide

/-- Both nodes bump to [1] and talk; the third tells each that it has externalized something else. -/
def pairSchedule : List (NodeID × Event) :=
  [(0, .bumpState [1] false), (1, .bumpState [1] false),
    (0, .receive ⟨2, .externalize ⟨⟨1, [8]⟩, 1, 0⟩⟩), (1, .receive ⟨2, .externalize ⟨⟨1, [9]⟩, 1, 0⟩⟩),
    (1, .receive ⟨0, .prepare ⟨0, ⟨1, [1]⟩, none, none, 0, 0⟩⟩),
    (0, .receive ⟨1, .prepare ⟨0, ⟨1, [1]⟩, some ⟨1, [1]⟩, none, 0, 0⟩⟩),
    (1, .receive ⟨0, .prepare ⟨0, ⟨1, [1]⟩, some ⟨1, [1]⟩, none, 1, 1⟩⟩),
    (0, .receive ⟨1, .confirm ⟨⟨1, [1]⟩, 1, 1, 1, 0⟩⟩),
    (1, .receive ⟨0, .externalize ⟨⟨1, [1]⟩, 1, 0⟩⟩)]

theorem agreement_pair : ∃ c c',
    (pair.run pairSchedule 0).mPhase = .externalize ∧ (pair.run pairSchedule 0).mCommit = some c ∧
    (pair.run pairSchedule 1).mPhase = .externalize ∧ (pair.run pairSchedule 1).mCommit = some c' ∧
    c.value = c'.value := by
  have h0 : (pair.run pairSchedule 0).mPhase = .externalize ∧
      (pair.run pairSchedule 0).mCommit = some ⟨1, [1]⟩ := by decide +kernel
  have h1 : (pair.run pairSchedule 1).mPhase = .externalize ∧
      (pair.run pairSchedule 1).mCommit = some ⟨1, [1]⟩ := by decide +kernel
  exact ⟨_, _, h0.1, h0.2, h1.1, h1.2, agreement pair pair_dispensable pairSchedule 0 1
    (by decide) (by decide) h0.1 h1.1 _ _ h0.2 h1.2⟩

theorem run_decision_pair : ∃ x,
    Committed (pairScp 1) (pair.run (pairSchedule ++ [(0, .timerExpired)]) 1).toCore x := by
  have h0 : (pair.run pairSchedule 0).mPhase = .externalize := by decide +kernel
  obtain ⟨x, hx⟩ := ((run_consistent pair pairSchedule).deciding 0 (by decide)).2.committed (by simp [h0])
  exact ⟨x, run_decision pair_dispensable _ _ (by decide) h0 hx (by decide) (by decide +kernel)⟩

end Network
end Diamnet.Scp
