import Diamnet.Bucket.Layers

/-! What holds of the bucket list after every ledger.

The work of a ledger goes from the oldest level down, so in the middle of it the levels above
are as after the ledger and those below as before it (`Spilling`). One step of the loop is one
merge taken and one started (`Spilling.step`). The invariant carries, for each pending merge,
that its inputs still are the two buckets it will replace, and that what it dropped for a
shadow is still covered by younger records.

`valid` stands for: every batch fitted the map before it; `mono` for: the protocol never went
down; `modern` for: it was never below 12. If `valid`, merges fail only for a bucket of a later
protocol, and not if `mono`. -/
namespace Diamnet.Buckets
open FutureBucket List Levels Record Bucket Nat

variable {K E : Type} [LinearOrder K]

def New (b : Bucket K E) : Prop := FIRST_PROTOCOL_SHADOWS_REMOVED ≤ b.version

instance (b : Bucket K E) : Decidable (New b) := inferInstanceAs (Decidable (_ ≤ _))

/-- A younger bucket is of such a protocol if an older one is. -/
def NewFirst (buckets : List (Bucket K E)) : Prop := buckets.Pairwise fun young old => New old → New young

/-- The merge that a level waits for, running or done. -/
def IsMergeOf (maxProtocolVersion i : Nat) (inputs : MergeInputs K E) (next : FutureBucket K E) : Prop :=
  next = startMerge maxProtocolVersion i inputs ∨
    ∃ b, mergeOf maxProtocolVersion i inputs = .ok b ∧ next = .liveOutput b

/-- **A merge that drops nothing it must not**: under the rules before protocol 11, no shadow of
a protocol without shadows has a key of the merge. -/
def Safe (inputs : MergeInputs K E) : Prop :=
  inputs.version < FIRST_PROTOCOL_SUPPORTING_INITENTRY_AND_METAENTRY → ∀ si ∈ inputs.shadows, New si →
    ∀ e ∈ si.entries, inputs.curr.find? e.key = none ∧ inputs.snap.find? e.key = none

instance [DecidableEq E] (inputs : MergeInputs K E) : Decidable (Safe inputs) :=
  inferInstanceAs (Decidable (_ → ∀ si ∈ inputs.shadows, New si → ∀ e ∈ si.entries, _ ∧ _))

variable (valid mono modern : Prop)

/-- A merge of level `j + 1`, after a ledger of protocol `p`: its inputs are still in place,
below the buckets `upper`. -/
structure Waiting (ledger p j : Nat) (upper : List (Bucket K E)) (snap curr : Bucket K E) (inputs : MergeInputs K E)
    (maxProtocolVersion : Nat) : Prop where
  due : levelHalf j ≤ ledger
  snap : inputs.snap = snap
  curr : inputs.curr = if shouldMergeWithEmptyCurr ledger (j + 1) then .empty else curr
  version : mono → inputs.version ≤ maxProtocolVersion ∧ maxProtocolVersion ≤ p
  shadows : FIRST_PROTOCOL_SHADOWS_REMOVED ≤ inputs.version → inputs.shadows = []
  modern : modern → inputs.shadows = []
  covered : valid → ∀ k r, combine (inputs.curr.find? k) (inputs.snap.find? k) = some (some r) →
    shadowedOut inputs.version (inputs.isShadowed k) r = true → Covered (records upper k)

/-- The level `j + 1`, above which are the buckets `upper` and then `snap` of the level before;
`snapped` says that its own `curr` was just taken away. -/
structure LevelOk (snapped : Prop) (ledger p j : Nat) (upper : List (Bucket K E)) (snap : Bucket K E)
    (level : BucketLevel K E) : Prop where
  pending : (level.next = .clear ∧ ledger < levelHalf j ∧ snap = .empty) ∨
    ∃ inputs maxProtocolVersion, IsMergeOf maxProtocolVersion (j + 1) inputs level.next ∧
      Waiting valid mono modern ledger p j upper snap level.curr inputs maxProtocolVersion
  snapNew : modern → levelHalf j ≤ ledger → New snap
  currNew : modern → ¬snapped → 2 * levelHalf j ≤ ledger → New level.curr

/-- The levels above the buckets `upper` and `snap`, from `j + 1` on. -/
def OlderOk (ledger p : Nat) : List (Bucket K E) → Bucket K E → Nat → Levels K E → Prop
  | _, _, _, [] => True
  | upper, snap, j, level :: rest =>
    LevelOk valid mono modern False ledger p j upper snap level ∧
      OlderOk ledger p (upper ++ [snap, level.curr]) level.snap (j + 1) rest

/-- The youngest level has no merge in the background. -/
structure ZeroOk (snapped : Prop) (ledger : Nat) (level : BucketLevel K E) : Prop where
  clear : level.next = .clear
  currNew : modern → ¬snapped → 0 < ledger → New level.curr

/-- A level and those below it, the nearest first. -/
def YoungerOk (ledger p : Nat) : Prop → BucketLevel K E → Levels K E → Prop
  | snapped, level, [] => ZeroOk modern snapped ledger level
  | snapped, level, prev :: rest =>
    LevelOk valid mono modern snapped ledger p rest.length (flat rest.reverse ++ [prev.curr]) prev.snap level ∧
      YoungerOk ledger p False prev rest

/-- All buckets together: they represent the map `m`, at protocol `p`. -/
structure Represents (p : Nat) (m : K → Option E) (buckets : List (Bucket K E)) : Prop where
  lifecycle : valid → ∀ k, Lifecycle (records buckets k)
  value : valid → ∀ k, value (records buckets k) = m k
  new : ∀ b ∈ buckets, New b → FIRST_PROTOCOL_SHADOWS_REMOVED ≤ p
  version : mono → ∀ b ∈ buckets, b.version ≤ p
  sorted : mono → buckets.Pairwise fun young old => New young → old.version ≤ young.version

/-- In the middle of the ledger after `ledger`, which takes the protocol from `p` to `p'`, at
`level`. -/
structure Spilling (ledger p p' : Nat) (m : K → Option E) (younger : Levels K E) (level : BucketLevel K E)
    (older : Levels K E) : Prop where
  youngerOk : YoungerOk valid mono modern ledger p (levelShouldSpill (ledger + 1) younger.length = true) level younger
  olderOk : OlderOk valid mono modern (ledger + 1) p' (flat younger.reverse ++ [level.curr]) level.snap
    younger.length older
  represents : Represents valid mono p m (flat younger.reverse ++ level.curr :: level.snap :: flat older)
  newFirst : NewFirst (flat younger.reverse ++
    ((if levelShouldSpill (ledger + 1) younger.length then [] else [level.curr]) ++ level.snap :: flat older))
  emptied : levelShouldSpill (ledger + 1) younger.length = true → level.curr = .empty
  length : younger.length + older.length + 1 = kNumLevels
  last : ∀ top ∈ (level :: older).getLast?, top.snap = .empty

/-- After a ledger. -/
structure Closed (ledger p : Nat) (m : K → Option E) (level : BucketLevel K E) (older : Levels K E) : Prop where
  zero : ZeroOk modern False ledger level
  olderOk : OlderOk valid mono modern ledger p [level.curr] level.snap 0 older
  represents : Represents valid mono p m (level.curr :: level.snap :: flat older)
  newFirst : NewFirst (level.curr :: level.snap :: flat older)
  length : older.length + 1 = kNumLevels
  last : ∀ top ∈ (level :: older).getLast?, top.snap = .empty

/-- What is covered by `upper` is covered by `upper'`. -/
def CoversAs (upper upper' : List (Bucket K E)) : Prop :=
  ∀ k, Covered (records upper k) → Covered (records upper' k)

/-- After the merge of a level was taken: `level` has its next `curr`, and the `snap` of the
level before it is no longer needed. -/
structure Taken (ledger p : Nat) (m : K → Option E) (prev : BucketLevel K E) (younger : Levels K E)
    (old : BucketLevel K E) (older : Levels K E) (level : BucketLevel K E) : Prop where
  clear : level.next = .clear
  snap : level.snap = old.snap
  represents : Represents valid mono p m
    (flat younger.reverse ++ [prev.curr] ++ level.curr :: old.snap :: flat older)
  newFirst : NewFirst (flat younger.reverse ++ [prev.curr] ++ level.curr :: old.snap :: flat older)
  covers : valid → older ≠ [] → CoversAs (flat younger.reverse ++ [prev.curr] ++ [prev.snap, old.curr])
    (flat younger.reverse ++ [prev.curr] ++ [level.curr])
  currNew : modern → 2 * levelHalf younger.length ≤ ledger + 1 → New level.curr

/-- What the merge of a level gives when it is due. -/
structure Merged (inputs : MergeInputs K E) (maxProtocolVersion : Nat) (keepDead : Bool) (upper : List (Bucket K E))
    (snap curr : Bucket K E) (lower : List (Bucket K E)) (b : Bucket K E) : Prop where
  version : b.version = writtenVersion inputs.version
  max : inputs.version ≤ maxProtocolVersion
  lifecycle : valid → ∀ k, Lifecycle (records (upper ++ b :: lower) k)
  value : valid → ∀ k, value (records (upper ++ b :: lower) k) =
    value (records (upper ++ snap :: curr :: lower) k)
  covers : valid → keepDead = true → CoversAs (upper ++ [snap, curr]) (upper ++ [b])

def OnlyVersion (e : MergeError) : Prop := valid → e = .exceedsMaxProtocolVersion ∧ ¬mono

variable {valid mono modern}

/-! ### Small facts -/

@[simp] theorem flat_cons (level : BucketLevel K E) (rest : Levels K E) :
    flat (level :: rest) = level.curr :: level.snap :: flat rest := rfl

theorem flat_append (l l' : Levels K E) : flat (l ++ l') = flat l ++ flat l' :=
  flatMap_append

theorem flat_reverse_cons (prev : BucketLevel K E) (rest : Levels K E) :
    flat (prev :: rest).reverse = flat rest.reverse ++ [prev.curr, prev.snap] := by
  rw [reverse_cons, flat_append]
  rfl

variable {b : Bucket K E}

theorem new_iff_writtenVersion {v : Nat} (h : b.version = writtenVersion v) :
    New b ↔ FIRST_PROTOCOL_SHADOWS_REMOVED ≤ v := by
  unfold New
  rw [h, writtenVersion]
  by_cases hv : FIRST_PROTOCOL_SUPPORTING_INITENTRY_AND_METAENTRY ≤ v
  · rw [if_pos hv]
  · rw [if_neg hv]
    simp only [FIRST_PROTOCOL_SHADOWS_REMOVED, FIRST_PROTOCOL_SUPPORTING_INITENTRY_AND_METAENTRY] at *
    omega

theorem writtenVersion_le (v : Nat) : writtenVersion v ≤ v := by
  unfold writtenVersion
  split
  · exact le_rfl
  · exact zero_le v

theorem writtenVersion_of_new {v : Nat} (h : FIRST_PROTOCOL_SHADOWS_REMOVED ≤ v) : writtenVersion v = v :=
  if_pos ((le_succ 11).trans h)

theorem not_new_empty : ¬New (empty : Bucket K E) := not_succ_le_zero 11

variable {inputs : MergeInputs K E}

theorem new_of_version (h : FIRST_PROTOCOL_SHADOWS_REMOVED ≤ inputs.version) : New inputs.curr ∨ New inputs.snap := by
  by_contra hnot
  rw [not_or] at hnot
  have hle : inputs.version ≤ FIRST_PROTOCOL_SHADOWS_REMOVED - 1 :=
    mergeProtocolVersion_le (Nat.le_sub_one_of_lt (Nat.not_le.mp hnot.1))
      (Nat.le_sub_one_of_lt (Nat.not_le.mp hnot.2)) fun si _ hsi => Nat.le_sub_one_of_lt hsi
  simp only [FIRST_PROTOCOL_SHADOWS_REMOVED] at h hle
  omega

theorem version_of_new_snap (h : New inputs.snap) : FIRST_PROTOCOL_SHADOWS_REMOVED ≤ inputs.version :=
  h.trans (new_le_mergeProtocolVersion _ _ _)

variable {level : BucketLevel K E} {i ledger : Nat} {snap : Bucket K E} {shadows : List (Bucket K E)}

theorem inputs_shadows_of_new (h : New snap) : (level.inputs i ledger snap shadows).shadows = [] := if_pos h

theorem inputs_shadows_of_not_new (h : ¬New snap) : (level.inputs i ledger snap shadows).shadows = shadows := if_neg h

theorem mem_of_mem_inputs_shadows : ∀ si ∈ (level.inputs i ledger snap shadows).shadows, si ∈ shadows := by
  intro si hsi
  by_cases h : New snap
  · rw [inputs_shadows_of_new h] at hsi
    cases hsi
  · rwa [inputs_shadows_of_not_new h] at hsi

theorem prepare_eq (i ledger p : Nat) (snap : Bucket K E) (shadows : List (Bucket K E))
    (h : level.next.isMerging = false) : level.prepare i ledger p snap shadows =
      .ok ⟨level.curr, level.snap, startMerge p i (level.inputs i ledger snap shadows)⟩ := by
  unfold BucketLevel.prepare FutureBucket.new
  rw [h, if_neg Bool.false_ne_true, if_neg]
  · rfl
  · exact fun hinvalid => hinvalid.2 (inputs_shadows_of_new hinvalid.1)

/-! ### Covered records stay covered -/

variable {upper upper' : List (Bucket K E)}

theorem CoversAs.append (h : CoversAs upper upper') (l : List (Bucket K E)) :
    CoversAs (upper ++ l) (upper' ++ l) := by
  intro k
  rw [records_append, records_append]
  exact Covered.append_mono (h k) _

variable {j p : Nat}

theorem LevelOk.mono_upper {snapped : Prop} (h : LevelOk valid mono modern snapped ledger p j upper snap level)
    (hc : valid → CoversAs upper upper') : LevelOk valid mono modern snapped ledger p j upper' snap level where
  pending := h.pending.imp_right fun ⟨inputs, version, hmerge, hw⟩ =>
    ⟨inputs, version, hmerge, { hw with covered := fun hv k r hr hout => hc hv k (hw.covered hv k r hr hout) }⟩
  snapNew := h.snapNew
  currNew := h.currNew

variable {older : Levels K E}

theorem OlderOk.mono_upper (h : OlderOk valid mono modern ledger p upper snap j older)
    (hc : valid → CoversAs upper upper') : OlderOk valid mono modern ledger p upper' snap j older := by
  induction older generalizing upper upper' snap j with
  | nil => trivial
  | cons level rest ih => exact ⟨h.1.mono_upper hc, ih h.2 fun hv => (hc hv).append _⟩

/-! ### Taking the merge of a level -/

variable {maxProtocolVersion : Nat}

theorem IsMergeOf.isLive {next : FutureBucket K E} (h : IsMergeOf maxProtocolVersion i inputs next) :
    next.isLive = true := by
  rcases h with rfl | ⟨b, -, rfl⟩ <;> rfl

theorem IsMergeOf.resolve {next : FutureBucket K E} (h : IsMergeOf maxProtocolVersion i inputs next) :
    next.resolve = mergeOf maxProtocolVersion i inputs := by
  rcases h with rfl | ⟨b, hb, rfl⟩
  · rfl
  · exact hb.symm

theorem mergeOf_exceeds (h : ¬inputs.version ≤ maxProtocolVersion) :
    mergeOf maxProtocolVersion i inputs = .error .exceedsMaxProtocolVersion := by
  have hversion : calculateMergeProtocolVersion maxProtocolVersion inputs.curr inputs.snap inputs.shadows =
      .error .exceedsMaxProtocolVersion := if_pos (not_le.mp h)
  unfold mergeOf Bucket.merge
  rw [hversion]
  rfl

variable {curr : Bucket K E}

/-- The `curr` that a due merge takes in is the level's, which is empty if it was just snapshotted. -/
theorem Waiting.curr_due (h : Waiting valid mono modern ledger p j upper snap curr inputs maxProtocolVersion)
    (hspill : levelShouldSpill (ledger + 1) j = true)
    (hemptied : levelShouldSpill (ledger + 1) (j + 1) = true → curr = .empty) : inputs.curr = curr := by
  rw [h.curr, shouldMergeWithEmptyCurr_due hspill]
  split
  · exact (hemptied ‹_›).symm
  · rfl

theorem LevelOk.takeSnap {snapped snapped' : Prop}
    (h : LevelOk valid mono modern snapped ledger p j upper snap level) (hj : j + 1 < kNumLevels)
    (hspill : levelShouldSpill (ledger + 1) (j + 1) = true) (hsnapped : snapped') :
    LevelOk valid mono modern snapped' ledger p j upper snap level.takeSnap where
  pending := h.pending.imp_right fun ⟨inputs, version, hmerge, hw⟩ => by
    refine ⟨inputs, version, hmerge, { hw with curr := ?_ }⟩
    have hdue := shouldMergeWithEmptyCurr_due (levelShouldSpill_of_succ hj hspill)
    rw [hw.curr, hdue, hspill]
    rfl
  snapNew := h.snapNew
  currNew := fun _ hnot => absurd hsnapped hnot

variable {p' : Nat}

theorem LevelOk.skip {snapped : Prop} (h : LevelOk valid mono modern snapped ledger p j upper snap level)
    (hj : j + 1 < kNumLevels) (hspill : levelShouldSpill (ledger + 1) j = false) (hsnapped : ¬snapped)
    (hp : mono → p ≤ p') : LevelOk valid mono modern False (ledger + 1) p' j upper snap level := by
  have hj' : j ≠ kNumLevels - 1 := by omega
  have hndvd : ¬levelHalf j ∣ ledger + 1 := fun hdvd => by
    rw [(levelShouldSpill_iff _ _).mpr ⟨hj', hdvd⟩] at hspill
    cases hspill
  have hne : ledger + 1 ≠ levelHalf j := fun h => hndvd (h ▸ dvd_rfl)
  have hne2 : ledger + 1 ≠ 2 * levelHalf j := fun h => hndvd (h ▸ Dvd.intro_left 2 rfl)
  refine ⟨?_, fun hm hle => h.snapNew hm (by omega), fun hm _ hle => h.currNew hm hsnapped (by omega)⟩
  rcases h.pending with ⟨hclear, hlt, hsnap⟩ | ⟨inputs, version, hmerge, hw⟩
  · exact .inl ⟨hclear, by omega, hsnap⟩
  · refine .inr ⟨inputs, version, hmerge,
      { hw with
        due := hw.due.trans (le_succ ledger)
        curr := ?_
        version := fun hm => ⟨(hw.version hm).1, (hw.version hm).2.trans (hp hm)⟩ }⟩
    rw [shouldMergeWithEmptyCurr_succ hj' hspill]
    exact hw.curr

/-! ### One step of the loop -/

variable {lower : List (Bucket K E)}

theorem NewFirst.replace {hole : List (Bucket K E)} {s : Bucket K E} (h : NewFirst (upper ++ s :: (hole ++ lower)))
    (hb : New b → New s ∨ ∃ c ∈ hole, New c) (hs : New s → New b) : NewFirst (upper ++ b :: lower) := by
  unfold NewFirst at *
  rw [pairwise_append, pairwise_cons] at h ⊢
  obtain ⟨hupper, ⟨hsnap, hlower⟩, hacross⟩ := h
  have hbs : New b → New s := fun hb' => (hb hb').elim id fun ⟨c, hc, hnew⟩ =>
    hsnap c (mem_append_left lower hc) hnew
  refine ⟨hupper, ⟨fun y hy hnew => hs (hsnap y (mem_append_right hole hy) hnew),
    (pairwise_append.mp hlower).2.1⟩, fun x hx y hy hnew => ?_⟩
  rcases mem_cons.mp hy with rfl | hy
  · exact hacross x hx s (.head _) (hbs hnew)
  · exact hacross x hx y (.tail _ (mem_append_right hole hy)) hnew

theorem records_insert_empty (upper lower : List (Bucket K E)) (k : K) :
    records (upper ++ empty :: lower) k = records (upper ++ lower) k := by
  rw [records_append, records_append, records_cons_empty]

variable {m : K → Option E}

theorem represents_insert_empty :
    Represents valid mono p m (upper ++ .empty :: lower) ↔ Represents valid mono p m (upper ++ lower) := by
  have hsub : (upper ++ lower).Sublist (upper ++ empty :: lower) :=
    Sublist.append_left (sublist_cons_self _ _) _
  have hmem : ∀ b ∈ upper ++ empty :: lower, b = .empty ∨ b ∈ upper ++ lower := by
    intro b hb
    simp only [mem_append, mem_cons] at hb ⊢
    tauto
  have hrecords := records_insert_empty upper lower
  constructor
  · intro h
    refine ⟨fun hv k => hrecords k ▸ h.lifecycle hv k, fun hv k => hrecords k ▸ h.value hv k,
      fun b hb => h.new b (hsub.mem hb), fun hm b hb => h.version hm b (hsub.mem hb), fun hm => (h.sorted hm).sublist hsub⟩
  · intro h
    refine ⟨fun hv k => (hrecords k).symm ▸ h.lifecycle hv k, fun hv k => (hrecords k).symm ▸ h.value hv k,
      fun b hb hnew => ?_, fun hm b hb => ?_, fun hm => ?_⟩
    · rcases hmem b hb with rfl | hb
      · exact absurd hnew not_new_empty
      · exact h.new b hb hnew
    · rcases hmem b hb with rfl | hb
      · exact zero_le p
      · exact h.version hm b hb
    · obtain ⟨hupper, hlower, hacross⟩ := pairwise_append.mp (h.sorted hm)
      refine pairwise_append.mpr ⟨hupper,
        pairwise_cons.mpr ⟨fun _ _ hnew => absurd hnew not_new_empty, hlower⟩, fun a ha b hb hnew => ?_⟩
      rcases mem_cons.mp hb with rfl | hb
      · exact zero_le _
      · exact hacross a ha b hb hnew

theorem curr_of_clear (hlt : ledger < levelHalf j) (hspill : levelShouldSpill (ledger + 1) j = true) :
    ledger + 1 = levelHalf j ∧ levelShouldSpill (ledger + 1) (j + 1) = false := by
  have hle := levelHalf_le_of_spill (succ_pos ledger) hspill
  have heq : ledger + 1 = levelHalf j := by omega
  refine ⟨heq, Bool.eq_false_iff.mpr fun h => ?_⟩
  have hle' := levelHalf_le_of_spill (succ_pos ledger) h
  rw [levelHalf_succ] at hle'
  omega

theorem Waiting.merged (h : Waiting valid mono modern ledger p j upper snap curr inputs maxProtocolVersion)
    (hcurr : inputs.curr = curr)
    (hlife : valid → ∀ k, Lifecycle (records (upper ++ snap :: curr :: lower) k))
    (hlast : keepDeadEntries (j + 1) = false → ∀ k, records lower k = []) :
    Meets (mergeOf maxProtocolVersion (j + 1) inputs)
      (Merged valid inputs maxProtocolVersion (keepDeadEntries (j + 1)) upper snap curr lower) (OnlyVersion valid mono) := by
  by_cases hmax : inputs.version ≤ maxProtocolVersion
  swap
  · rw [mergeOf_exceeds hmax]
    exact fun _ => ⟨rfl, fun hm => hmax (h.version hm).1⟩
  by_cases hv : valid
  · obtain ⟨b, hb, hversion, hlife', hvalue, hcovers⟩ := @mergeOf_step K E _ maxProtocolVersion (j + 1) inputs upper lower
      hmax h.shadows (h.covered hv) hlast (by rw [h.snap, hcurr]; exact hlife hv)
    rw [h.snap, hcurr] at hvalue hcovers
    rw [hb]
    exact ⟨hversion, hmax, fun _ => hlife', fun _ => hvalue, fun _ => hcovers⟩
  · cases hb : mergeOf maxProtocolVersion (j + 1) inputs with
    | error e => exact fun hv' => absurd hv' hv
    | ok b => exact ⟨mergeOf_version hb, hmax, fun h => absurd h hv, fun h => absurd h hv, fun h => absurd h hv⟩

theorem Represents.replace {keepDead : Bool} (h : Represents valid mono p m (upper ++ snap :: curr :: lower))
    (hsnap : inputs.snap = snap) (hcurr : inputs.curr = curr)
    (hb : Merged valid inputs maxProtocolVersion keepDead upper snap curr lower b)
    (hp : mono → maxProtocolVersion ≤ p) : Represents valid mono p m (upper ++ b :: lower) := by
  have hbnew : New b → New curr ∨ New snap := fun hnew =>
    hcurr ▸ hsnap ▸ new_of_version ((new_iff_writtenVersion hb.version).mp hnew)
  have hle : b.version ≤ inputs.version := hb.version ▸ writtenVersion_le _
  have hmem : ∀ x ∈ upper ++ b :: lower, x = b ∨ x ∈ upper ++ snap :: curr :: lower := by
    intro x hx
    simp only [mem_append, mem_cons] at hx ⊢
    tauto
  refine ⟨hb.lifecycle, fun hv k => (hb.value hv k).trans (h.value hv k), fun x hx hxnew => ?_, fun hm x hx => ?_,
    fun hm => ?_⟩
  · rcases hmem x hx with rfl | hx
    · exact (hbnew hxnew).elim (h.new _ (by simp)) (h.new _ (by simp))
    · exact h.new x hx hxnew
  · rcases hmem x hx with rfl | hx
    · exact hle.trans (hb.max.trans (hp hm))
    · exact h.version hm x hx
  · obtain ⟨hupper, hlower, hacross⟩ := pairwise_append.mp (h.sorted hm)
    obtain ⟨hsnapLe, hlower⟩ := pairwise_cons.mp hlower
    obtain ⟨hcurrLe, hlower⟩ := pairwise_cons.mp hlower
    refine pairwise_append.mpr ⟨hupper, pairwise_cons.mpr ⟨fun y hy hnew => ?_, hlower⟩, fun x hx y hy hxnew => ?_⟩
    · have hv : inputs.version ≤ b.version := by
        have hnew' := (new_iff_writtenVersion hb.version).mp hnew
        rw [hb.version, writtenVersion_of_new hnew']
      refine le_trans ?_ hv
      rcases hbnew hnew with hc | hs
      · exact (hcurrLe y hy hc).trans (hcurr ▸ old_le_mergeProtocolVersion _ _ _)
      · exact (hsnapLe y (.tail _ hy) hs).trans (hsnap ▸ new_le_mergeProtocolVersion _ _ _)
    · rcases mem_cons.mp hy with rfl | hy
      · refine hle.trans (mergeProtocolVersion_le ?_ ?_ fun si _ hsi => hsi.le.trans hxnew)
        · exact hcurr ▸ hacross x hx curr (by simp) hxnew
        · exact hsnap ▸ hacross x hx snap (by simp) hxnew
      · exact hacross x hx y (.tail _ (.tail _ hy)) hxnew

theorem Spilling.commit {ledger p p' : Nat} {m : K → Option E} {prev : BucketLevel K E} {younger : Levels K E}
    {level : BucketLevel K E} {older : Levels K E}
    (h : Spilling valid mono modern ledger p p' m (prev :: younger) level older)
    (hspill : levelShouldSpill (ledger + 1) younger.length = true) :
    Meets level.commit (Taken valid mono modern ledger p m prev younger level older) (OnlyVersion valid mono) := by
  have hflat : flat (prev :: younger).reverse = flat younger.reverse ++ [prev.curr] ++ [prev.snap] := by
    rw [flat_reverse_cons]
    simp
  have hrep := h.represents
  have hnew := h.newFirst
  rw [hflat, append_assoc _ [prev.snap], singleton_append] at hrep hnew
  obtain ⟨hlevel, -⟩ := h.youngerOk
  have hlen : younger.length + 1 + older.length + 1 = kNumLevels := h.length
  rcases hlevel.pending with ⟨hclear, hlt, hempty⟩ | ⟨inputs, version, hmerge, hw⟩
  · -- the level was never reached: there is nothing to take
    obtain ⟨heq, hnot⟩ := curr_of_clear hlt hspill
    have hcommit : level.commit = .ok level := by
      unfold BucketLevel.commit
      rw [hclear]
      rfl
    have hhole : levelShouldSpill (ledger + 1) (prev :: younger).length = false := hnot
    rw [hhole] at hnew
    rw [hcommit]
    refine ⟨hclear, rfl, ?_, ?_, ?_, fun _ hle => absurd hle (by omega)⟩
    · rw [hempty] at hrep
      exact represents_insert_empty.mp hrep
    · exact hnew.sublist (Sublist.append_left (sublist_cons_self _ _) _)
    · intro _ _ k hc
      rw [hempty] at hc
      rwa [records_insert_empty] at hc
  · have hcurr := hw.curr_due hspill h.emptied
    have hcommit : level.commit = (mergeOf version (younger.length + 1) inputs >>= fun b => pure (level.setCurr b)) := by
      unfold BucketLevel.commit
      rw [if_pos hmerge.isLive, hmerge.resolve]
    rw [hcommit]
    refine (hw.merged hcurr hrep.lifecycle fun hkeep k => ?_).bind fun b hb => ?_
    · have hkeep' : ¬younger.length + 1 < kNumLevels - 1 := of_decide_eq_false hkeep
      obtain rfl : older = [] := length_eq_zero_iff.mp (by omega)
      rw [h.last level (by simp)]
      rfl
    have hnewb : New prev.snap → New b := fun hnew' =>
      (new_iff_writtenVersion hb.version).mpr (version_of_new_snap (hw.snap ▸ hnew'))
    refine ⟨rfl, rfl, hrep.replace hw.snap hcurr hb fun hm => (hw.version hm).2, ?_, fun hv hne => ?_,
      fun hm hle => hnewb (hlevel.snapNew hm (by omega))⟩
    · refine hnew.replace (fun hb' => ?_) hnewb
      rcases hcurr ▸ hw.snap ▸ new_of_version ((new_iff_writtenVersion hb.version).mp hb') with hc | hs
      · refine .inr ⟨level.curr, ?_, hc⟩
        have hhole : levelShouldSpill (ledger + 1) (prev :: younger).length = false :=
          Bool.eq_false_iff.mpr fun hs => not_new_empty (h.emptied hs ▸ hc)
        rw [hhole]
        exact .head _
      · exact .inl hs
    · have := length_pos_iff.mpr hne
      exact hb.covers hv (decide_eq_true (by omega))

variable {prev : BucketLevel K E} {younger : Levels K E}

theorem YoungerOk.currNew_of_spill (h : YoungerOk valid mono modern ledger p False prev younger)
    (hspill : levelShouldSpill (ledger + 1) younger.length = true) (hm : modern) : New prev.curr := by
  have hle := levelHalf_le_of_spill (succ_pos ledger) hspill
  cases younger with
  | nil =>
    have htwo : levelHalf 0 = 2 := rfl
    rw [length_nil, htwo] at hle
    exact h.currNew hm id (by omega)
  | cons q rest =>
    rw [length_cons, levelHalf_succ] at hle
    exact h.1.currNew hm id (by omega)

/-- What the inputs of a new merge hold, with the bucket that they leave in the list. -/
theorem records_inputs (level : BucketLevel K E) (i ledger : Nat) (snap : Bucket K E) (shadows upper lower : List (Bucket K E))
    (k : K) : ∃ lower', records (upper ++ snap :: level.curr :: lower) k =
      records upper k ++ (((level.inputs i ledger snap shadows).snap.find? k).toList ++
        (((level.inputs i ledger snap shadows).curr.find? k).toList ++ lower')) := by
  unfold BucketLevel.inputs
  by_cases hempty : shouldMergeWithEmptyCurr ledger i = true
  · refine ⟨records (level.curr :: lower) k, ?_⟩
    rw [records_append, records_cons, hempty]
    rfl
  · refine ⟨records lower k, ?_⟩
    rw [records_append, records_cons, records_cons]
    simp [hempty]

theorem covered_of_shadowedOut {k : K} {r : Record E} {lower : List (Record E)} (hsafe : Safe inputs)
    (hshadows : ∀ si ∈ inputs.shadows, si ∈ upper) (hall : inputs.shadows ≠ [] → inputs.shadows = upper)
    (hlife : Lifecycle (records upper k ++ ((inputs.snap.find? k).toList ++ ((inputs.curr.find? k).toList ++ lower))))
    (hr : combine (inputs.curr.find? k) (inputs.snap.find? k) = some (some r))
    (hout : shadowedOut inputs.version (inputs.isShadowed k) r = true) : Covered (records upper k) := by
  simp only [shadowedOut, Bool.and_eq_true, Bool.not_eq_true', keepsShadowedLifecycleEntries] at hout
  obtain ⟨hshadowed, hkeep⟩ := hout
  obtain ⟨si, hsi, hfind⟩ := any_eq_true.mp hshadowed
  obtain ⟨r', hr'⟩ := Option.isSome_iff_exists.mp hfind
  have hne : records upper k ≠ [] := ne_nil_of_mem (mem_filterMap.mpr ⟨si, hshadows si hsi, hr'⟩)
  by_cases hversion : FIRST_PROTOCOL_SUPPORTING_INITENTRY_AND_METAENTRY ≤ inputs.version
  · -- only an update is dropped, and right above it there is no creation
    have hlive : r.isLive = true := by simpa [hversion] using hkeep
    obtain ⟨c, hc⟩ := Option.ne_none_iff_exists'.mp (mt getLast?_eq_none_iff.mp hne)
    obtain ⟨u, hu⟩ := getLast?_eq_some_iff.mp hc
    rw [hu, append_assoc, singleton_append] at hlife
    exact ⟨c, hc, hlife.not_init_above hr hlive⟩
  · -- the shadows are of protocols without creations
    rw [not_le] at hversion
    refine Covered.of_forall hne fun c hc => Bool.eq_false_iff.mpr fun hinit => ?_
    obtain ⟨b, hb, hbfind⟩ := exists_of_mem_records hc
    rw [← hall (ne_nil_of_mem hsi)] at hb
    have hold : ¬New b := fun hnew => by
      obtain ⟨e, he, rfl, -⟩ := exists_of_recordOf hbfind
      obtain ⟨hcurr, hsnap⟩ := hsafe hversion b hb hnew e he
      rw [hcurr, hsnap] at hr
      cases hr
    have hle : b.version ≤ inputs.version := shadow_le_mergeProtocolVersion hb (not_le.mp hold)
    exact absurd ((b.legal_find hbfind hinit).trans hle) (not_le.mpr hversion)

theorem Taken.waiting {old : BucketLevel K E} (ht : Taken valid mono modern ledger p m prev younger old older level)
    (hspill : levelShouldSpill (ledger + 1) younger.length = true) (hp : mono → p ≤ p')
    (hprev : modern → New prev.curr)
    (hsafe : modern ∨ Safe (level.inputs (younger.length + 1) (ledger + 1) prev.curr (flat younger.reverse))) :
    Waiting valid mono modern (ledger + 1) p' younger.length (flat younger.reverse ++ [.empty]) prev.curr level.curr
      (level.inputs (younger.length + 1) (ledger + 1) prev.curr (flat younger.reverse)) p' := by
  have hrep := ht.represents
  have hnew := ht.newFirst
  rw [append_assoc, singleton_append] at hrep hnew
  have hcurr : (level.inputs (younger.length + 1) (ledger + 1) prev.curr (flat younger.reverse)).curr = .empty ∨
      (level.inputs (younger.length + 1) (ledger + 1) prev.curr (flat younger.reverse)).curr = level.curr :=
    ite_eq_or_eq _ _ _
  refine ⟨levelHalf_le_of_spill (succ_pos ledger) hspill, rfl, rfl, fun hm => ⟨?_, le_rfl⟩, fun hversion => ?_,
    fun hm => inputs_shadows_of_new (hprev hm), fun hv k r hr hout => ?_⟩
  · have hall := hrep.version hm
    refine (mergeProtocolVersion_le (p := p) ?_ ?_ fun si hsi _ => ?_).trans (hp hm)
    · rcases hcurr with hc | hc
      · rw [hc]
        exact zero_le p
      · rw [hc]
        exact hall _ (by simp)
    · exact hall prev.curr (by simp)
    · exact hall si (mem_append_left _ (mem_of_mem_inputs_shadows si hsi))
  · rcases new_of_version hversion with hc | hs
    · rcases hcurr with hc' | hc'
      · exact absurd (hc' ▸ hc) not_new_empty
      · refine inputs_shadows_of_new ?_
        rw [hc'] at hc
        exact rel_of_pairwise_cons (pairwise_append.mp hnew).2.1 (.head _) hc
    · exact inputs_shadows_of_new hs
  · rw [records_append, records_cons_empty, records_nil, append_nil]
    rcases hsafe with hm | hsafe
    · rw [shadowedOut, MergeInputs.isShadowed, inputs_shadows_of_new (hprev hm)] at hout
      cases hout
    · obtain ⟨lower, hlower⟩ := records_inputs level (younger.length + 1) (ledger + 1) prev.curr
        (flat younger.reverse) (flat younger.reverse) (old.snap :: flat older) k
      refine covered_of_shadowedOut hsafe mem_of_mem_inputs_shadows (fun hne => ?_) (hlower ▸ hrep.lifecycle hv k) hr hout
      exact inputs_shadows_of_not_new fun hs => hne (inputs_shadows_of_new hs)

/-- **One step of the loop**: after the merge of a level is taken the next one is started. -/
theorem Spilling.prepare {old : BucketLevel K E}
    (h : Spilling valid mono modern ledger p p' m (prev :: younger) old older)
    (hspill : levelShouldSpill (ledger + 1) younger.length = true) (hp : mono → p ≤ p')
    (ht : Taken valid mono modern ledger p m prev younger old older level)
    (hsafe : modern ∨ Safe (level.inputs (younger.length + 1) (ledger + 1) prev.curr (flat younger.reverse))) :
    Meets (level.prepare (younger.length + 1) (ledger + 1) p' prev.curr (flat younger.reverse))
      (fun level' => Spilling valid mono modern ledger p p' m younger prev.takeSnap (level' :: older))
      (OnlyVersion valid mono) := by
  have hprev := h.youngerOk.2.currNew_of_spill hspill
  have hw := ht.waiting hspill hp hprev hsafe
  have hlen : younger.length + 1 + older.length + 1 = kNumLevels := h.length
  rw [prepare_eq _ _ _ _ _ (by rw [ht.clear]; rfl)]
  refine ⟨?_, ⟨⟨.inr ⟨_, _, .inl rfl, hw⟩, fun hm _ => hprev hm, fun hm _ => ht.currNew hm⟩, ?_⟩, ?_, ?_, fun _ => rfl,
    ?_, ?_⟩
  · -- the levels below are as they were, but for the `curr` of the next one
    have hyounger := h.youngerOk.2
    cases younger with
    | nil => exact ⟨hyounger.clear, fun _ hnot => absurd hspill hnot⟩
    | cons q rest => exact ⟨hyounger.1.takeSnap (by simp only [length_cons] at hlen; omega) hspill hspill, hyounger.2⟩
  · cases hold : older with
    | nil => trivial
    | cons next rest =>
      have hcovers := fun hv => ht.covers hv (hold ▸ cons_ne_nil next rest)
      have holder := h.olderOk
      rw [flat_reverse_cons] at holder
      rw [ht.snap, ← hold]
      refine holder.mono_upper ?_
      intro hv k hc
      have hc' := hcovers hv k (by simpa using hc)
      rw [show BucketLevel.curr prev.takeSnap = empty from rfl, append_assoc, singleton_append,
        records_insert_empty]
      simpa [BucketLevel.takeSnap] using hc'
  · have hrep := ht.represents
    show Represents valid mono p m (flat younger.reverse ++ empty :: prev.curr :: level.curr :: level.snap ::
      flat older)
    rw [ht.snap]
    rw [represents_insert_empty]
    rwa [append_assoc, singleton_append] at hrep
  · have hnew := ht.newFirst
    rw [append_assoc, singleton_append] at hnew
    rw [if_pos hspill, nil_append]
    rwa [ht.snap]
  · simp only [length_cons]
    omega
  · intro top htop
    have hlast := h.last
    cases older with
    | nil =>
      obtain rfl := Option.some.inj (htop : some _ = some top)
      exact ht.snap.trans (hlast old (by simp))
    | cons next rest => exact hlast top (by simpa using htop)

theorem Spilling.skip (h : Spilling valid mono modern ledger p p' m (prev :: younger) level older)
    (hspill : levelShouldSpill (ledger + 1) younger.length = false) (hp : mono → p ≤ p') :
    Spilling valid mono modern ledger p p' m younger prev (level :: older) := by
  have hlen : younger.length + 1 + older.length + 1 = kNumLevels := h.length
  have hself : levelShouldSpill (ledger + 1) (prev :: younger).length = false := by
    refine Bool.eq_false_iff.mpr fun hs => ?_
    rw [levelShouldSpill_of_succ (by omega) hs] at hspill
    cases hspill
  obtain ⟨hlevel, hyounger⟩ := h.youngerOk
  refine ⟨?_, ⟨hlevel.skip (by omega) hspill (by rw [hself]; exact Bool.false_ne_true) hp, ?_⟩, ?_, ?_, ?_, ?_, ?_⟩
  · rw [hspill]
    simpa using hyounger
  · have holder := h.olderOk
    rw [flat_reverse_cons] at holder
    simpa using holder
  · have hrep := h.represents
    rw [flat_reverse_cons] at hrep
    simpa using hrep
  · have hnew := h.newFirst
    rw [flat_reverse_cons, hself] at hnew
    rw [hspill]
    simpa using hnew
  · rw [hspill]
    exact fun hs => absurd hs Bool.false_ne_true
  · simp only [length_cons]
    omega
  · simpa using h.last

def SpillsSafely (currLedger : Nat) : Levels K E → BucketLevel K E → Prop
  | [], _ => True
  | prev :: younger, level =>
    if levelShouldSpill currLedger younger.length then
      Meets level.commit (fun level' =>
        Safe (level'.inputs (younger.length + 1) currLedger prev.curr (flat younger.reverse))) (fun _ => True) ∧
      SpillsSafely currLedger younger prev.takeSnap
    else SpillsSafely currLedger younger prev

/-- **The loop over the levels**, by induction on the levels that are left. -/
theorem spill_meets (h : Spilling valid mono modern ledger p p' m younger level older) (hp : mono → p ≤ p')
    (hsafe : modern ∨ SpillsSafely (ledger + 1) younger level) :
    Meets (spill (ledger + 1) p' younger level older)
      (fun r => Spilling valid mono modern ledger p p' m [] r.1 r.2) (OnlyVersion valid mono) := by
  induction younger generalizing level older with
  | nil => exact h
  | cons prev younger ih =>
    unfold spill
    unfold SpillsSafely at hsafe
    cases hspill : levelShouldSpill (ledger + 1) younger.length with
    | false =>
      rw [hspill] at hsafe
      exact ih (h.skip hspill hp) hsafe
    | true =>
      rw [hspill, if_pos rfl] at hsafe
      cases hcommit : level.commit with
      | error e => exact (h.commit hspill).of_error hcommit
      | ok level₁ =>
        have ht := (h.commit hspill).of_ok hcommit
        refine (h.prepare hspill hp ht (hsafe.imp_right fun hs => hs.1.of_ok hcommit)).bind ?_
        intro level₂ hlevel₂
        exact ih hlevel₂ (hsafe.imp_right fun hs => hs.2)

end Diamnet.Buckets
