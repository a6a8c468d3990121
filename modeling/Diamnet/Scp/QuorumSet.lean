import Diamnet.Util.Order
import Diamnet.Federated.Closure

/-! Quorum sets and the tests a node makes with them (`LocalNode.cpp`,
`QuorumSetUtils.cpp`).

A quorum set asks for a threshold of its entries, an entry being a validator or
an inner quorum set. `isQuorumSlice` and `isVBlocking` walk the entries and count
down from the threshold (from one more than the entries that can be missing); the
counting lemmas say which counts those loops accept, and
`not_slice_of_blocking` that a set avoiding a slice does not block it. -/
namespace Diamnet.Scp
open List

/-- A node's public key. Keys are only ever compared. -/
abbrev NodeID := Nat

abbrev Hash := Nat

structure SCPQuorumSet where
  threshold : UInt32
  validators : List NodeID
  innerSets : List SCPQuorumSet

namespace SCPQuorumSet

theorem induction {P : SCPQuorumSet → Prop} (h : ∀ q, (∀ i ∈ q.innerSets, P i) → P q) :
    ∀ q, P q := by
  intro q
  refine SCPQuorumSet.rec (motive_1 := P) (motive_2 := fun l => ∀ i ∈ l, P i) ?_ ?_ ?_ q
  · exact fun t vs is ih => h ⟨t, vs, is⟩ ih
  · exact fun i hi => absurd hi not_mem_nil
  · intro head tail hhead htail i hi
    rcases mem_cons.mp hi with rfl | hi
    · exact hhead
    · exact htail i hi

end SCPQuorumSet

namespace LocalNode

/-! ### Counting down -/

/-- For each hit, `thresholdLeft--` and stop once it is zero. -/
def countdown : UInt32 → List Bool → Bool
  | _, [] => false
  | left, false :: rest => countdown left rest
  | left, true :: rest => left - 1 == 0 || countdown (left - 1) rest

/-- For each hit, `leftTillBlock--` and stop once it is not positive. -/
def countdownSigned : Int → List Bool → Bool
  | _, [] => false
  | left, false :: rest => countdownSigned left rest
  | left, true :: rest => decide (left - 1 ≤ 0) || countdownSigned (left - 1) rest

/-- How many hits end the unsigned countdown: it passes zero when started there. -/
def due (left : UInt32) : Nat := if left = 0 then 2 ^ 32 else left.toNat

theorem countdown_iff (left : UInt32) (hits : List Bool) :
    countdown left hits = true ↔ due left ≤ hits.count true := by
  induction hits generalizing left with
  | nil =>
    have : 0 < due left := by
      unfold due
      split
      · decide
      · next h =>
        have := UInt32.lt_iff_toNat_lt.mp (uint32_pos h)
        simpa using this
    simp [countdown]
    omega
  | cons hit rest ih =>
    cases hit with
    | false => simp [countdown, ih]
    | true =>
      simp only [countdown, Bool.or_eq_true, beq_iff_eq, ih, count_cons_self]
      by_cases h1 : left = 1
      · subst h1
        simp [due]
      · have hne : left - 1 ≠ 0 := by
          intro h
          apply h1
          have := congrArg (· + 1) h
          simpa using this
        have hdue : due (left - 1) + 1 = due left := by
          by_cases h0 : left = 0
          · subst h0
            decide
          · have h2 : 1 ≤ left := by
              have := UInt32.lt_iff_toNat_lt.mp (uint32_pos h0)
              exact UInt32.le_iff_toNat_le.mpr this
            have := UInt32.toNat_sub_of_le left 1 h2
            have hpos := UInt32.le_iff_toNat_le.mp h2
            simp only [due, hne, h0, if_false]
            simp at this hpos
            omega
        simp only [hne, false_or]
        omega

theorem countdownSigned_iff (left : Int) (hits : List Bool) :
    countdownSigned left hits = true ↔ 1 ≤ hits.count true ∧ left ≤ hits.count true := by
  induction hits generalizing left with
  | nil => simp [countdownSigned]
  | cons hit rest ih =>
    cases hit with
    | false => simp [countdownSigned, ih]
    | true =>
      simp only [countdownSigned, Bool.or_eq_true, decide_eq_true_eq, ih, count_cons_self]
      omega

/-! ### Slices and blocking sets -/

mutual
/-- `isQuorumSliceInternal`: the validators first, then the inner sets. -/
def isQuorumSliceInternal (nodeSet : List NodeID) : SCPQuorumSet → Bool
  | ⟨threshold, validators, innerSets⟩ =>
    countdown threshold
      (validators.map (fun v => decide (v ∈ nodeSet)) ++ isQuorumSliceInner nodeSet innerSets)

def isQuorumSliceInner (nodeSet : List NodeID) : List SCPQuorumSet → List Bool
  | [] => []
  | inner :: rest => isQuorumSliceInternal nodeSet inner :: isQuorumSliceInner nodeSet rest
end

def isQuorumSlice (qSet : SCPQuorumSet) (nodeSet : List NodeID) : Bool :=
  isQuorumSliceInternal nodeSet qSet

mutual
/-- `isVBlockingInternal`. There is no v-blocking set for a threshold of zero. -/
def isVBlockingInternal (nodeSet : List NodeID) : SCPQuorumSet → Bool
  | ⟨threshold, validators, innerSets⟩ =>
    if threshold = 0 then false
    else
      let leftTillBlock : Int := (1 + validators.length + innerSets.length : Nat) - (threshold.toNat : Int)
      countdownSigned leftTillBlock
        (validators.map (fun v => decide (v ∈ nodeSet)) ++ isVBlockingInner nodeSet innerSets)

def isVBlockingInner (nodeSet : List NodeID) : List SCPQuorumSet → List Bool
  | [] => []
  | inner :: rest => isVBlockingInternal nodeSet inner :: isVBlockingInner nodeSet rest
end

def isVBlocking (qSet : SCPQuorumSet) (nodeSet : List NodeID) : Bool :=
  isVBlockingInternal nodeSet qSet

theorem isQuorumSliceInner_eq (nodeSet : List NodeID) (innerSets : List SCPQuorumSet) :
    isQuorumSliceInner nodeSet innerSets = innerSets.map (isQuorumSlice · nodeSet) := by
  induction innerSets with
  | nil => rfl
  | cons inner rest ih => simp only [isQuorumSliceInner, map_cons, ih, isQuorumSlice]

theorem isVBlockingInner_eq (nodeSet : List NodeID) (innerSets : List SCPQuorumSet) :
    isVBlockingInner nodeSet innerSets = innerSets.map (isVBlocking · nodeSet) := by
  induction innerSets with
  | nil => rfl
  | cons inner rest ih => simp only [isVBlockingInner, map_cons, ih, isVBlocking]

/-- The entries of `q` met by `S`: its validators in `S` and the inner sets `met` holds of. -/
def entriesMet (q : SCPQuorumSet) (S : List NodeID) (met : SCPQuorumSet → Bool) : Nat :=
  q.validators.countP (fun v => decide (v ∈ S)) + q.innerSets.countP met

private theorem count_map_true {α : Type} (f : α → Bool) (l : List α) :
    (l.map f).count true = l.countP f := by
  simp [count, countP_map, Function.comp_def]

theorem isQuorumSlice_iff (q : SCPQuorumSet) (S : List NodeID) :
    isQuorumSlice q S = true ↔ due q.threshold ≤ entriesMet q S (isQuorumSlice · S) := by
  obtain ⟨t, vs, is⟩ := q
  simp only [isQuorumSlice, isQuorumSliceInternal, isQuorumSliceInner_eq, countdown_iff,
    count_append, count_map_true, entriesMet]

theorem isVBlocking_iff (q : SCPQuorumSet) (S : List NodeID) :
    isVBlocking q S = true ↔ q.threshold ≠ 0 ∧ 1 ≤ entriesMet q S (isVBlocking · S) ∧
      1 + q.validators.length + q.innerSets.length ≤
        q.threshold.toNat + entriesMet q S (isVBlocking · S) := by
  obtain ⟨t, vs, is⟩ := q
  simp only [isVBlocking, isVBlockingInternal, isVBlockingInner_eq, entriesMet]
  split
  · next h => simp [h]
  · next h =>
    simp only [countdownSigned_iff, count_append, count_map_true, ne_eq, h, not_false_eq_true, true_and]
    omega

variable {S T : List NodeID}

theorem entriesMet_mono {q : SCPQuorumSet} {met met' : SCPQuorumSet → Bool} (hsub : ∀ n ∈ S, n ∈ T)
    (hmet : ∀ i ∈ q.innerSets, met i = true → met' i = true) : entriesMet q S met ≤ entriesMet q T met' := by
  apply Nat.add_le_add
  · exact countP_mono_left fun v _ h => by simpa using hsub v (by simpa using h)
  · exact countP_mono_left hmet

theorem isQuorumSlice_mono (hsub : ∀ n ∈ S, n ∈ T) (q : SCPQuorumSet) :
    isQuorumSlice q S = true → isQuorumSlice q T = true := by
  induction q using SCPQuorumSet.induction with
  | h q ih =>
    simp only [isQuorumSlice_iff]
    exact fun h => h.trans (entriesMet_mono hsub ih)

theorem isVBlocking_mono (hsub : ∀ n ∈ S, n ∈ T) (q : SCPQuorumSet) :
    isVBlocking q S = true → isVBlocking q T = true := by
  induction q using SCPQuorumSet.induction with
  | h q ih =>
    simp only [isVBlocking_iff]
    intro ⟨h0, h1, h2⟩
    have : entriesMet q S (isVBlocking · S) ≤ entriesMet q T (isVBlocking · T) := entriesMet_mono hsub ih
    exact ⟨h0, by omega, by omega⟩

private theorem countP_disjoint {α : Type} (p q : α → Bool) (l : List α)
    (h : ∀ a ∈ l, p a = true → q a = true → False) : l.countP p + l.countP q ≤ l.length := by
  induction l with
  | nil => simp
  | cons a rest ih =>
    have hrest := ih fun b hb => h b (.tail _ hb)
    cases hp : p a <;> cases hq : q a <;> simp_all <;> omega

theorem not_slice_of_blocking {W : List NodeID} (hdisjoint : ∀ n ∈ S, n ∉ W) (q : SCPQuorumSet) :
    isQuorumSlice q S = true → isVBlocking q W = true → False := by
  induction q using SCPQuorumSet.induction with
  | h q ih =>
    rw [isQuorumSlice_iff, isVBlocking_iff]
    intro hslice ⟨hne, _, hblock⟩
    have hvalidators := countP_disjoint (fun v => decide (v ∈ S)) (fun v => decide (v ∈ W))
      q.validators fun v _ hs hw => hdisjoint v (by simpa using hs) (by simpa using hw)
    have hinner := countP_disjoint (isQuorumSlice · S) (isVBlocking · W) q.innerSets ih
    simp only [due, hne, if_false, entriesMet] at hslice hblock
    omega

theorem isQuorumSlice_nil (q : SCPQuorumSet) : isQuorumSlice q [] = false := by
  induction q using SCPQuorumSet.induction with
  | h q ih =>
    rw [Bool.eq_false_iff, ne_eq, isQuorumSlice_iff]
    have hpos : 0 < due q.threshold := by
      unfold due
      split
      · decide
      · next h => simpa using UInt32.lt_iff_toNat_lt.mp (uint32_pos h)
    have hmet : entriesMet q [] (isQuorumSlice · []) = 0 := by
      have hinner : q.innerSets.countP (isQuorumSlice · []) = 0 :=
        countP_eq_zero.mpr fun i hi => by rw [ih i hi]; decide
      simp [entriesMet, hinner]
    omega

theorem isVBlocking_nil (q : SCPQuorumSet) : isVBlocking q [] = false := by
  induction q using SCPQuorumSet.induction with
  | h q ih =>
    rw [Bool.eq_false_iff, ne_eq, isVBlocking_iff]
    have hinner : q.innerSets.countP (isVBlocking · []) = 0 :=
      countP_eq_zero.mpr fun i hi => by rw [ih i hi]; decide
    simp [entriesMet, hinner]

def buildSingletonQSet (nodeID : NodeID) : SCPQuorumSet := ⟨1, [nodeID], []⟩

theorem isQuorumSlice_singleton (nodeID : NodeID) (S : List NodeID) :
    isQuorumSlice (buildSingletonQSet nodeID) S = true ↔ nodeID ∈ S := by
  rw [isQuorumSlice_iff]
  by_cases h : nodeID ∈ S <;> simp [buildSingletonQSet, entriesMet, due, h]

/-! ### Tests over the latest statements -/

section Latest
variable {σ : Type}

abbrev Latest (σ : Type) := AList fun _ : NodeID => σ

/-- The nodes whose latest statement passes the filter. -/
def filteredNodes (map : Latest σ) (filter : σ → Bool) : List NodeID :=
  (map.entries.filter fun e => filter e.2).map (·.1)

def isVBlockingMap (qSet : SCPQuorumSet) (map : Latest σ) (filter : σ → Bool) : Bool :=
  isVBlocking qSet (filteredNodes map filter)

/-- `isQuorum`: drop the nodes whose quorum set the rest does not satisfy until none
is dropped, then ask whether the local quorum set is satisfied. -/
def isQuorum (qSet : SCPQuorumSet) (map : Latest σ) (qfun : σ → Option SCPQuorumSet)
    (filter : σ → Bool) : Bool :=
  let pNodes := Federated.contract
    (fun nodes nodeID => (map.lookup nodeID).any fun st => (qfun st).any (isQuorumSlice · nodes))
    (filteredNodes map filter)
  isQuorumSlice qSet pNodes

variable {map : Latest σ} {filter : σ → Bool}

theorem mem_filteredNodes {n : NodeID} :
    n ∈ filteredNodes map filter ↔ ∃ st, map.lookup n = some st ∧ filter st = true := by
  simp only [filteredNodes, mem_map, mem_filter]
  constructor
  · rintro ⟨⟨m, st⟩, ⟨hmem, hf⟩, rfl⟩
    exact ⟨st, AList.mem_lookup_iff.mpr hmem, hf⟩
  · rintro ⟨st, hlookup, hf⟩
    exact ⟨⟨n, st⟩, ⟨AList.mem_lookup_iff.mp hlookup, hf⟩, rfl⟩

/-- `U` satisfies, for each of its nodes, the quorum set behind that node's latest
statement, and all those statements pass the filter. -/
def SelfSupporting (map : Latest σ) (qfun : σ → Option SCPQuorumSet) (filter : σ → Bool)
    (U : List NodeID) : Prop :=
  ∀ n ∈ U, ∃ st q, map.lookup n = some st ∧ filter st = true ∧ qfun st = some q ∧
    isQuorumSlice q U = true

variable {qSet : SCPQuorumSet}

/-- `isQuorum` finds a self-supporting set that satisfies the local quorum set if there is one. -/
theorem isQuorum_iff {qfun : σ → Option SCPQuorumSet} :
    isQuorum qSet map qfun filter = true ↔
      ∃ U, SelfSupporting map qfun filter U ∧ isQuorumSlice qSet U = true := by
  constructor
  · intro h
    refine ⟨_, ?_, h⟩
    intro n hn
    have hkept := Federated.contract_closed _ n hn
    obtain ⟨st, hst, hf⟩ := mem_filteredNodes.mp (Federated.contract_subset _ n hn)
    rw [hst, Option.any_some, Option.any_eq_true] at hkept
    obtain ⟨q, hq, hslice⟩ := hkept
    exact ⟨st, q, hst, hf, hq, hslice⟩
  · rintro ⟨U, hU, hslice⟩
    refine isQuorumSlice_mono (Federated.subset_contract ?_ ?_ ?_) qSet hslice
    · intro S T n hsub hS
      simp only [Option.any_eq_true] at hS ⊢
      obtain ⟨st, hst, q, hq, hslice⟩ := hS
      exact ⟨st, hst, q, hq, isQuorumSlice_mono hsub q hslice⟩
    · intro n hn
      obtain ⟨st, q, hst, _, hq, hslice⟩ := hU n hn
      simp [hst, hq, hslice]
    · intro n hn
      obtain ⟨st, _, hst, hf, _⟩ := hU n hn
      exact mem_filteredNodes.mpr ⟨st, hst, hf⟩

/-- Statements that pass one filter in one map and another in another keep a quorum. -/
theorem isQuorum_mono {map' : Latest σ} {qfun : σ → Option SCPQuorumSet} {filter' : σ → Bool}
    (hkeep : ∀ n st, map.lookup n = some st → filter st = true → map'.lookup n = some st ∧ filter' st = true)
    (h : isQuorum qSet map qfun filter = true) : isQuorum qSet map' qfun filter' = true := by
  obtain ⟨U, hU, hslice⟩ := isQuorum_iff.mp h
  refine isQuorum_iff.mpr ⟨U, fun n hn => ?_, hslice⟩
  obtain ⟨st, q, hst, hf, hq, hs⟩ := hU n hn
  obtain ⟨hst', hf'⟩ := hkeep n st hst hf
  exact ⟨st, q, hst', hf', hq, hs⟩

theorem isVBlockingMap_mono {map' : Latest σ} {filter' : σ → Bool}
    (hkeep : ∀ n st, map.lookup n = some st → filter st = true → map'.lookup n = some st ∧ filter' st = true)
    (h : isVBlockingMap qSet map filter = true) : isVBlockingMap qSet map' filter' = true := by
  refine isVBlocking_mono (fun n hn => ?_) qSet h
  obtain ⟨st, hst, hf⟩ := mem_filteredNodes.mp hn
  obtain ⟨hst', hf'⟩ := hkeep n st hst hf
  exact mem_filteredNodes.mpr ⟨st, hst', hf'⟩

end Latest

end LocalNode

/-! ### Sanity -/

def maximumQuorumNestingLevel : Nat := 4

mutual
/-- `QuorumSetSanityChecker::checkSanity`, threading the nodes seen so far and the
running count of validators. -/
def checkSanity (extraChecks : Bool) (depth : Nat) (known : List NodeID) (count : Nat) :
    SCPQuorumSet → Except String (List NodeID × Nat)
  | ⟨threshold, validators, innerSets⟩ =>
    if depth > maximumQuorumNestingLevel then throw "Maximum quorum nesting level exceeded"
    else if threshold < 1 then throw "Threshold must be greater than 0"
    else
      let totEntries := validators.length + innerSets.length
      if threshold.toNat > totEntries then throw "Threshold exceeds total number of entries"
      else if extraChecks && decide (threshold.toNat < totEntries - threshold.toNat + 1) then
        throw "Threshold is lower than the v-blocking size (< 51%)."
      else if (validators ++ known).Nodup then
        checkSanityInner extraChecks (depth + 1) (validators ++ known) (count + validators.length) innerSets
      else throw "Duplicate node found in quorum configuration"

def checkSanityInner (extraChecks : Bool) (depth : Nat) (known : List NodeID) (count : Nat) :
    List SCPQuorumSet → Except String (List NodeID × Nat)
  | [] => pure (known, count)
  | inner :: rest => do
    let (known, count) ← checkSanity extraChecks depth known count inner
    checkSanityInner extraChecks depth known count rest
end

/-- `isQuorumSetSane`, with the message left in `errString` when it is not. -/
def checkQuorumSet (qSet : SCPQuorumSet) (extraChecks : Bool) : Except String Unit := do
  let (_, count) ← checkSanity extraChecks 0 [] 0 qSet
  if count < 1 || count > 1000 then
    throw "Total number of nodes in a quorum must be within 1 and 1000"

def isQuorumSetSane (qSet : SCPQuorumSet) (extraChecks : Bool) : Bool :=
  (checkQuorumSet qSet extraChecks).isOk

/-! ### Normal form -/

mutual
/-- `normalizeQSetSimplify`: without the node to remove, and without nesting that says
nothing. -/
def normalizeQSetSimplify (idToRemove : Option NodeID) : SCPQuorumSet → SCPQuorumSet
  | ⟨threshold, validators, innerSets⟩ =>
    let kept := validators.filter fun n => some n ≠ idToRemove
    let threshold := threshold - UInt32.ofNat (validators.length - kept.length)
    let (merged, inner) := normalizeInnerSets idToRemove innerSets
    let simplified : SCPQuorumSet := ⟨threshold, kept ++ merged, inner⟩
    -- simplify quorum set if needed
    match inner with
    | [t] => if threshold = 1 ∧ kept ++ merged = [] then t else simplified
    | _ => simplified

/-- The inner sets, those of a single validator apart: they join the validators. -/
def normalizeInnerSets (idToRemove : Option NodeID) : List SCPQuorumSet → List NodeID × List SCPQuorumSet
  | [] => ([], [])
  | inner :: rest =>
    let q := normalizeQSetSimplify idToRemove inner
    let (merged, kept) := normalizeInnerSets idToRemove rest
    match q with
    | ⟨1, [v], []⟩ => (v :: merged, kept)
    | q => (merged, q :: kept)
end

def compareValidators : List NodeID → List NodeID → Int
  | [], [] => 0
  | [], _ :: _ => -1
  | _ :: _, [] => 1
  | a :: l, b :: r => if a < b then -1 else if b < a then 1 else compareValidators l r

mutual
/-- `qSetCompareInt`: validators, then inner sets, then the threshold. -/
def qSetCompareInt : SCPQuorumSet → SCPQuorumSet → Int
  | ⟨threshold, validators, innerSets⟩, r =>
    let res := compareValidators validators r.validators
    if res ≠ 0 then res
    else
      let res := compareInnerSets innerSets r.innerSets
      if res ≠ 0 then res
      else if threshold < r.threshold then -1
      else if threshold = r.threshold then 0
      else 1

def compareInnerSets : List SCPQuorumSet → List SCPQuorumSet → Int
  | [], [] => 0
  | [], _ :: _ => -1
  | _ :: _, [] => 1
  | a :: l, b :: r =>
    let c := qSetCompareInt a b
    if c ≠ 0 then c else compareInnerSets l r
end

mutual
def normalizeQuorumSetReorder : SCPQuorumSet → SCPQuorumSet
  | ⟨threshold, validators, innerSets⟩ =>
    ⟨threshold, validators.insertionSort (· ≤ ·),
      (reorderInnerSets innerSets).insertionSort fun l r => qSetCompareInt l r ≤ 0⟩

def reorderInnerSets : List SCPQuorumSet → List SCPQuorumSet
  | [] => []
  | inner :: rest => normalizeQuorumSetReorder inner :: reorderInnerSets rest
end

def normalizeQSet (qSet : SCPQuorumSet) (idToRemove : Option NodeID) : SCPQuorumSet :=
  normalizeQuorumSetReorder (normalizeQSetSimplify idToRemove qSet)

namespace LocalNode

mutual
def forAllNodes : SCPQuorumSet → List NodeID
  | ⟨_, validators, innerSets⟩ => validators ++ forAllInnerNodes innerSets

def forAllInnerNodes : List SCPQuorumSet → List NodeID
  | [] => []
  | inner :: rest => forAllNodes inner ++ forAllInnerNodes rest
end

/-- `computeWeight`: m * threshold / total, rounded up; none if the assertion fails. -/
def computeWeight (m total threshold : Nat) : Option Nat :=
  if threshold ≤ total then some ((m * threshold + total - 1) / total) else none

mutual
/-- `getNodeWeight`, of the node's first occurrence. -/
def getNodeWeight (nodeID : NodeID) : SCPQuorumSet → Option Nat
  | ⟨threshold, validators, innerSets⟩ =>
    let d := innerSets.length + validators.length
    if nodeID ∈ validators then computeWeight (2 ^ 64 - 1) d threshold.toNat
    else getInnerWeight nodeID d threshold.toNat innerSets

def getInnerWeight (nodeID : NodeID) (d n : Nat) : List SCPQuorumSet → Option Nat
  | [] => some 0
  | inner :: rest => do
    let leafW ← getNodeWeight nodeID inner
    if leafW ≠ 0 then computeWeight leafW d n else getInnerWeight nodeID d n rest
end

end LocalNode

end Diamnet.Scp
