import Diamnet.Bucket.Invariant

/-! The bucket list represents the ledger.

One ledger (`Closed.addBatch`): the loop over the levels keeps the map, the youngest level
takes in the batch, and results of merges are taken without changing a bucket. The run over
any number of ledgers follows by induction. -/
namespace Diamnet.Buckets
open FutureBucket Levels Record Option BucketList Bucket BucketLevel

variable {K E : Type} [LinearOrder K]

/-! ### What the ledgers do to the map -/

namespace Batch

def keys (batch : Batch K E) : List K :=
  batch.initEntries.map Prod.fst ++ batch.liveEntries.map Prod.fst ++ batch.deadEntries

def apply (batch : Batch K E) (m : K → Option E) (k : K) : Option E :=
  match (batch.initEntries ++ batch.liveEntries).find? fun e => e.1 = k with
  | some e => some e.2
  | none => if batch.deadEntries.any fun dead => dead = k then none else m k

/-- What the batch of a ledger is to the map before it. -/
structure Valid (m : K → Option E) (batch : Batch K E) : Prop where
  init : ∀ e ∈ batch.initEntries, m e.1 = none
  live : ∀ e ∈ batch.liveEntries, m e.1 ≠ none
  dead : ∀ k ∈ batch.deadEntries, m k ≠ none
  distinct : batch.keys.Nodup

instance [DecidableEq E] (m : K → Option E) (batch : Batch K E) : Decidable (Valid m batch) :=
  decidable_of_iff ((∀ e ∈ batch.initEntries, m e.1 = none) ∧ (∀ e ∈ batch.liveEntries, m e.1 ≠ none) ∧
      (∀ k ∈ batch.deadEntries, m k ≠ none) ∧ batch.keys.Nodup)
    ⟨fun ⟨hinit, hlive, hdead, hdistinct⟩ => ⟨hinit, hlive, hdead, hdistinct⟩,
      fun h => ⟨h.init, h.live, h.dead, h.distinct⟩⟩

end Batch

def mapAfter (m : K → Option E) : List (Close K E) → K → Option E
  | [] => m
  | c :: rest => mapAfter (c.batch.apply m) rest

def protocolAfter : Nat → List (Close K E) → Nat
  | p, [] => p
  | _, c :: rest => protocolAfter c.protocol rest

def ValidFrom (m : K → Option E) : List (Close K E) → Prop
  | [] => True
  | c :: rest => c.batch.Valid m ∧ ValidFrom (c.batch.apply m) rest

instance validFromDecidable [DecidableEq E] (m : K → Option E) : (cs : List (Close K E)) → Decidable (ValidFrom m cs)
  | [] => inferInstanceAs (Decidable True)
  | c :: rest => @instDecidableAnd _ _ inferInstance (validFromDecidable (c.batch.apply m) rest)

/-- The newest record of a key in the order `curr0, snap0, curr1, …`. -/
def newest (levels : Levels K E) (k : K) : Option (Record E) := (flat levels).findSome? (·.find? k)

def Agrees (levels : Levels K E) (m : K → Option E) : Prop := ∀ k, (newest levels k).bind entry? = m k

def FutureBucket.fault? : FutureBucket K E → Option MergeError
  | .liveInputs _ (.error e) => some e
  | _ => none

/-! ### The batch as a bucket -/

theorem recordOf_append (l l' : List (BucketEntry K E)) (k : K) :
    recordOf (l ++ l') k = (recordOf l k).or (recordOf l' k) := by
  unfold recordOf
  rw [List.find?_append]
  cases l.find? fun e => e.key = k <;> rfl

theorem recordOf_map {α : Type} (f : α → BucketEntry K E) (l : List α) (k : K) :
    recordOf (l.map f) k = (l.find? fun a => (f a).key = k).map fun a => (f a).record := by
  unfold recordOf
  rw [List.find?_map, map_map]
  rfl

namespace Batch

omit [LinearOrder K] in
theorem distinct_entries {batch : Batch K E} (h : batch.keys.Nodup) (p : Nat) :
    (batch.entries p).Pairwise fun a b => a.key ≠ b.key := by
  have hkeys : (batch.entries p).map (·.key) = batch.keys := by
    simp [entries, keys, Function.comp_def]
  rw [← hkeys] at h
  exact List.pairwise_map.mp h

theorem Valid.init_absent {m : K → Option E} {batch : Batch K E} (h : batch.Valid m) {p : Nat} {k : K} {r : Record E}
    (hr : recordOf (batch.entries p) k = some r) (hinit : r.isInit = true) : m k = none := by
  obtain ⟨e, he, rfl, rfl⟩ := exists_of_recordOf hr
  rcases List.mem_append.mp he with he | he
  · rcases List.mem_append.mp he with he | he
    · obtain ⟨a, ha, rfl⟩ := List.mem_map.mp he
      exact h.init a ha
    · obtain ⟨a, -, rfl⟩ := List.mem_map.mp he
      cases hinit
  · obtain ⟨a, -, rfl⟩ := List.mem_map.mp he
    cases hinit

theorem value_entries (batch : Batch K E) (p : Nat) {m : K → Option E} {k : K} {t : List (Record E)}
    (ht : value t = m k) : value ((recordOf (batch.entries p) k).toList ++ t) = batch.apply m k := by
  unfold entries apply
  rw [recordOf_append, recordOf_append, recordOf_map, recordOf_map, recordOf_map, List.find?_append]
  cases hinit : batch.initEntries.find? fun e => e.1 = k with
  | some e => by_cases hp : FIRST_PROTOCOL_SUPPORTING_INITENTRY_AND_METAENTRY ≤ p <;> simp [hp, entry?]
  | none =>
    cases hlive : batch.liveEntries.find? fun e => e.1 = k with
    | some e => simp [Record.entry?]
    | none =>
      by_cases hdead : k ∈ batch.deadEntries
      · have hfind : batch.deadEntries.find? (fun a => a = k) = some k := by
          obtain ⟨a, ha⟩ := isSome_iff_exists.mp
            (List.find?_isSome.mpr ⟨k, hdead, by simp⟩ : (batch.deadEntries.find? fun a => a = k).isSome = true)
          rw [ha, show a = k by simpa using List.find?_some ha]
        simp [hfind, hdead, entry?]
      · have hfind : batch.deadEntries.find? (fun a => a = k) = none :=
          List.find?_eq_none.mpr fun a ha hak => hdead (of_decide_eq_true hak ▸ ha)
        simp [hfind, hdead, ht]

end Batch

variable {valid mono modern : Prop}

/-! ### From the youngest level to the oldest -/

variable {ledger p : Nat} {level : BucketLevel K E} {older : Levels K E}

theorem YoungerOk.of_olderOk {younger : Levels K E}
    (hyounger : YoungerOk valid mono modern ledger p False level younger)
    (holder : OlderOk valid mono modern ledger p (flat younger.reverse ++ [level.curr]) level.snap younger.length older)
    {top : BucketLevel K E} {rest : Levels K E} (htop : (younger.reverse ++ level :: older).reverse = top :: rest) :
    YoungerOk valid mono modern ledger p False top rest := by
  induction older generalizing younger level with
  | nil =>
    rw [List.reverse_append, List.reverse_reverse] at htop
    cases htop
    exact hyounger
  | cons next older ih =>
    have hnext : YoungerOk valid mono modern ledger p False next (level :: younger) := ⟨holder.1, hyounger⟩
    refine ih hnext ?_ (by simpa using htop)
    rw [flat_reverse_cons]
    simpa using holder.2

variable {m : K → Option E}

theorem Closed.spilling (h : Closed valid mono modern ledger p m level older) (p' : Nat) {top : BucketLevel K E}
    {younger : Levels K E} (htop : (level :: older).reverse = top :: younger) :
    Spilling valid mono modern ledger p p' m younger top [] := by
  have hlevels : level :: older = younger.reverse ++ [top] := by
    rw [← List.reverse_reverse (level :: older), htop, List.reverse_cons]
  have hlen : younger.length + 1 = kNumLevels := by
    have := congrArg List.length htop
    simp only [List.length_reverse, List.length_cons] at this
    exact this.symm.trans h.length
  have hflat : flat (level :: older) = flat younger.reverse ++ [top.curr, top.snap] := by
    rw [hlevels, flat_append]
    rfl
  have hspill : levelShouldSpill (ledger + 1) younger.length = false :=
    Bool.eq_false_iff.mpr fun hs => ((levelShouldSpill_iff _ _).mp hs).1 (by omega)
  refine ⟨?_, trivial, ?_, ?_, ?_, by simpa using hlen, ?_⟩
  · rw [hspill, eq_false Bool.false_ne_true]
    have hzero : YoungerOk valid mono modern ledger p False level [] := h.zero
    exact hzero.of_olderOk h.olderOk htop
  · exact hflat ▸ h.represents
  · rw [hspill]
    exact hflat ▸ h.newFirst
  · rw [hspill]
    exact fun hs => absurd hs Bool.false_ne_true
  · intro top' htop'
    refine h.last top' ?_
    rw [hlevels, List.getLast?_concat]
    exact htop'

/-! ### The youngest level -/

theorem inputs_zero (level : BucketLevel K E) (ledger : Nat) (fresh : Bucket K E) :
    level.inputs 0 ledger fresh [] = ⟨level.curr, fresh, []⟩ := by
  unfold inputs
  rw [ite_self]
  rfl

variable {batch : Batch K E} {fresh : Bucket K E}

theorem find?_fresh (h : batch.keys.Nodup) (hfresh : Bucket.fresh p batch = .ok fresh) (k : K) :
    fresh.find? k = recordOf (batch.entries p) k := by
  obtain ⟨b, hb, -, hfind⟩ := fresh_eq (Batch.distinct_entries h p)
  rw [hfresh] at hb
  exact Except.ok.inj hb ▸ hfind k

theorem addFresh_eq (hclear : level.next = .clear) (hfresh : Bucket.fresh p batch = .ok fresh) :
    addFresh ledger p batch level = (mergeOf p 0 ⟨level.curr, fresh, []⟩ >>= fun b => pure (level.setCurr b)) := by
  unfold addFresh
  rw [hfresh, ok_bind, prepare_eq _ _ _ _ _ (by rw [hclear]; rfl), inputs_zero, ok_bind]
  rfl

theorem Spilling.mergeFresh {p' : Nat} (h : Spilling valid mono modern ledger p p' m [] level older)
    (hvalid : valid → batch.Valid m) (hp : mono → p ≤ p') (hfresh : Bucket.fresh p' batch = .ok fresh) :
    Meets (mergeOf p' 0 ⟨level.curr, fresh, []⟩)
      (Merged valid ⟨level.curr, fresh, []⟩ p' true [] fresh level.curr (level.snap :: flat older))
      (OnlyVersion valid mono) := by
  have hrep : Represents valid mono p m (level.curr :: level.snap :: flat older) := h.represents
  by_cases hmax : (⟨level.curr, fresh, []⟩ : MergeInputs K E).version ≤ p'
  swap
  · rw [mergeOf_exceeds hmax]
    refine fun _ => ⟨rfl, fun hm => hmax (mergeProtocolVersion_le ?_ ?_ fun si hsi => (nomatch hsi))⟩
    · exact (hrep.version hm _ (.head _)).trans (hp hm)
    · exact (fresh_version hfresh).trans_le (writtenVersion_le p')
  by_cases hv : valid
  · have hlife : ∀ k, Lifecycle (records (fresh :: level.curr :: level.snap :: flat older) k) := by
      intro k
      rw [records_cons, find?_fresh (hvalid hv).distinct hfresh]
      cases hr : recordOf (batch.entries p') k with
      | none => exact hrep.lifecycle hv k
      | some r => exact ⟨fun hinit => (hrep.value hv k).trans ((hvalid hv).init_absent hr hinit), hrep.lifecycle hv k⟩
    obtain ⟨b, hb, hbversion, hblife, hbvalue, hcovers⟩ := @mergeOf_step K E _ p' 0 ⟨level.curr, fresh, []⟩ []
      (level.snap :: flat older) hmax (fun _ => rfl)
      (fun k r _ hout => by rw [shadowedOut, MergeInputs.isShadowed] at hout; cases hout) (fun hkeep => by cases hkeep)
      hlife
    rw [hb]
    exact ⟨hbversion, hmax, fun _ => hblife, fun _ => hbvalue, fun _ => hcovers⟩
  · cases hb : mergeOf p' 0 ⟨level.curr, fresh, []⟩ with
    | error e => exact fun hv' => absurd hv' hv
    | ok b => exact ⟨mergeOf_version hb, hmax, fun h => absurd h hv, fun h => absurd h hv, fun h => absurd h hv⟩

theorem Spilling.addFresh {p' : Nat} (h : Spilling valid mono modern ledger p p' m [] level older)
    (hvalid : valid → batch.Valid m) (hp : mono → p ≤ p')
    (hnew : FIRST_PROTOCOL_SHADOWS_REMOVED ≤ p → FIRST_PROTOCOL_SHADOWS_REMOVED ≤ p')
    (hmodern : modern → FIRST_PROTOCOL_SHADOWS_REMOVED ≤ p') :
    Meets (addFresh (ledger + 1) p' batch level)
      (fun level' => Closed valid mono modern (ledger + 1) p' (batch.apply m) level' older) (OnlyVersion valid mono) := by
  cases hfresh : fresh p' batch with
  | error e =>
    unfold Buckets.addFresh
    rw [hfresh]
    intro hv
    obtain ⟨fresh, hok, -⟩ := fresh_eq (Batch.distinct_entries (hvalid hv).distinct p')
    rw [hok] at hfresh
    cases hfresh
  | ok fresh =>
  have hfreshNew : New fresh ↔ FIRST_PROTOCOL_SHADOWS_REMOVED ≤ p' := new_iff_writtenVersion (Bucket.fresh_version hfresh)
  have hrep : Represents valid mono p m (level.curr :: level.snap :: flat older) := h.represents
  rw [addFresh_eq h.youngerOk.clear hfresh]
  refine (h.mergeFresh hvalid hp hfresh).bind fun b hb => ?_
  have hbnew : New b → FIRST_PROTOCOL_SHADOWS_REMOVED ≤ p' := fun hnew' =>
    ((new_iff_writtenVersion hb.version).mp hnew').trans hb.max
  have hnewb : FIRST_PROTOCOL_SHADOWS_REMOVED ≤ p' → New b := fun hp' =>
    (new_iff_writtenVersion hb.version).mpr (version_of_new_snap (hfreshNew.mpr hp'))
  have hrest : ∀ x ∈ level.snap :: flat older, x ∈ level.curr :: level.snap :: flat older :=
    fun x hx => .tail _ hx
  refine ⟨⟨rfl, fun hm _ _ => hnewb (hmodern hm)⟩, ?_, ⟨hb.lifecycle, fun hv k => ?_, ?_, fun hm => ?_, fun hm => ?_⟩, ?_,
    by simpa using h.length, ?_⟩
  · refine h.olderOk.mono_upper fun hv k hc => hb.covers hv rfl k ?_
    have hne : records [level.curr] k ≠ [] := by
      obtain ⟨c, hlast, -⟩ := hc
      exact List.ne_nil_of_mem (List.mem_of_getLast? hlast)
    rw [List.nil_append, records_cons, covered_append_of_ne_nil hne]
    exact hc
  · refine (hb.value hv k).trans ?_
    rw [List.nil_append, records_cons, find?_fresh (hvalid hv).distinct hfresh]
    exact batch.value_entries p' (hrep.value hv k)
  · exact List.forall_mem_cons.mpr ⟨hbnew, fun x hx hxnew => hnew (hrep.new x (hrest x hx) hxnew)⟩
  · refine List.forall_mem_cons.mpr ⟨?_, fun x hx => (hrep.version hm x (hrest x hx)).trans (hp hm)⟩
    exact (hb.version ▸ writtenVersion_le _ : b.version ≤ _).trans hb.max
  · refine List.pairwise_cons.mpr ⟨fun x hx hbnew' => ?_, (List.pairwise_cons.mp (hrep.sorted hm)).2⟩
    have hfreshLe : p' ≤ b.version := by
      have hfresh' : fresh.version = p' := (fresh_version hfresh).trans (writtenVersion_of_new (hbnew hbnew'))
      rw [hb.version, writtenVersion_of_new ((new_iff_writtenVersion hb.version).mp hbnew')]
      exact hfresh'.ge.trans (new_le_mergeProtocolVersion _ _ _)
    exact ((hrep.version hm x (hrest x hx)).trans (hp hm)).trans hfreshLe
  · refine List.pairwise_cons.mpr ⟨fun x hx hxnew => hnewb (hnew (hrep.new x (hrest x hx) hxnew)), ?_⟩
    exact h.newFirst.sublist (List.sublist_append_right _ _)
  · intro top htop
    have hlast := h.last
    cases older with
    | nil =>
      obtain rfl := some.inj (htop : some _ = some top)
      exact hlast level rfl
    | cons next rest => exact hlast top (by simpa using htop)

/-! ### Taking results of merges -/

variable {j : Nat} {upper : List (Bucket K E)} {snap : Bucket K E}

theorem Waiting.mergeOf_meets {curr : Bucket K E} {inputs : MergeInputs K E} {maxProtocolVersion : Nat}
    (h : Waiting valid mono modern ledger p j upper snap curr inputs maxProtocolVersion) {lower : List (Bucket K E)}
    (hlife : valid → ∀ k, Lifecycle (records (upper ++ snap :: curr :: lower) k)) :
    Meets (mergeOf maxProtocolVersion (j + 1) inputs) (fun _ => True) (OnlyVersion valid mono) := by
  by_cases hv : valid
  swap
  · cases mergeOf maxProtocolVersion (j + 1) inputs with
    | ok b => trivial
    | error e => exact fun hv' => absurd hv' hv
  by_cases hmax : inputs.version ≤ maxProtocolVersion
  · have hcombine : ∀ k, ∃ r, combine (inputs.curr.find? k) (inputs.snap.find? k) = some r := by
      intro k
      rw [h.curr, h.snap]
      split
      · rw [Bucket.find?_empty]
        cases snap.find? k <;> exact ⟨_, rfl⟩
      · obtain ⟨r, hr, -⟩ := exists_combine (hlife hv) k
        exact ⟨r, hr⟩
    obtain ⟨b, hb, -⟩ := mergeOf_eq (i := j + 1) hmax h.shadows hcombine
    rw [hb]
    trivial
  · rw [mergeOf_exceeds hmax]
    exact fun _ => ⟨rfl, fun hm => hmax (h.version hm).1⟩

theorem LevelOk.resolveIfReady (h : LevelOk valid mono modern False ledger p j upper snap level)
    {lower : List (Bucket K E)}
    (hlife : valid → ∀ k, Lifecycle (records (upper ++ snap :: level.curr :: lower) k)) (ready : Bool) :
    Meets (level.resolveIfReady ready) (fun level' => LevelOk valid mono modern False ledger p j upper snap level' ∧
      level'.buckets = level.buckets) (OnlyVersion valid mono) := by
  unfold BucketLevel.resolveIfReady
  by_cases hready : (level.next.isMerging && ready) = true
  · rw [if_pos hready]
    rcases h.pending with ⟨hclear, -⟩ | ⟨inputs, version, hmerge, hw⟩
    · rw [hclear] at hready
      cases hready
    · rw [hmerge.resolve]
      have hmeets := hw.mergeOf_meets hlife
      cases hb : mergeOf version (j + 1) inputs with
      | error e => exact hmeets.of_error hb
      | ok b => exact ⟨⟨.inr ⟨inputs, version, .inr ⟨b, hb, rfl⟩, hw⟩, h.snapNew, h.currNew⟩, rfl⟩
  · rw [if_neg hready]
    exact ⟨h, rfl⟩

theorem OlderOk.resolveAnyReadyFutures (h : OlderOk valid mono modern ledger p upper snap j older)
    (hlife : valid → ∀ k, Lifecycle (records (upper ++ snap :: flat older) k)) (ready : Nat → Bool)
    (i : Nat) :
    Meets (resolveAnyReadyFutures ready i older) (fun older' => OlderOk valid mono modern ledger p upper snap j older' ∧
      older'.map (·.buckets) = older.map (·.buckets)) (OnlyVersion valid mono) := by
  induction older generalizing upper snap j i with
  | nil => exact ⟨trivial, rfl⟩
  | cons level rest ih =>
    unfold Buckets.resolveAnyReadyFutures
    refine (h.1.resolveIfReady hlife (ready i)).bind ?_
    rintro level' ⟨hlevel', hbuckets⟩
    refine (ih h.2 (by simpa using hlife) (i + 1)).bind ?_
    rintro rest' ⟨hrest', hmap⟩
    obtain ⟨hcurr, hsnap⟩ : level'.curr = level.curr ∧ level'.snap = level.snap := by
      simpa [buckets] using hbuckets
    refine ⟨⟨hlevel', ?_⟩, by simp [hbuckets, hmap]⟩
    rw [hcurr, hsnap]
    exact hrest'

theorem flat_congr {l l' : Levels K E} (h : l'.map (·.buckets) = l.map (·.buckets)) : flat l' = flat l := by
  unfold flat
  rw [List.flatMap_def, List.flatMap_def, h]

theorem last_congr {l l' : Levels K E} (h : l'.map (·.buckets) = l.map (·.buckets))
    (hl : ∀ top ∈ l.getLast?, top.snap = .empty) : ∀ top ∈ l'.getLast?, top.snap = .empty := by
  intro top htop
  have hlast := congrArg List.getLast? h
  rw [List.getLast?_map, List.getLast?_map, mem_def.mp htop] at hlast
  obtain ⟨top', htop', hbuckets⟩ := map_eq_some_iff.mp hlast.symm
  have hsnap : top'.snap = top.snap := by
    have := congrArg (fun l => List.getLast? l) hbuckets
    simpa [buckets] using this
  exact hsnap ▸ hl top' htop'

theorem Closed.resolveAnyReadyFutures (h : Closed valid mono modern ledger p m level older) (ready : Nat → Bool) :
    Meets (resolveAnyReadyFutures ready 0 (level :: older)) (fun levels => ∃ older', levels = level :: older' ∧
      Closed valid mono modern ledger p m level older') (OnlyVersion valid mono) := by
  have hzero : level.resolveIfReady (ready 0) = .ok level := by
    unfold resolveIfReady
    rw [h.zero.clear]
    rfl
  unfold Buckets.resolveAnyReadyFutures
  rw [hzero, ok_bind]
  refine (h.olderOk.resolveAnyReadyFutures h.represents.lifecycle ready 1).bind ?_
  rintro older' ⟨hok, hmap⟩
  have hflat := flat_congr hmap
  have hlen : older'.length = older.length := by simpa using congrArg List.length hmap
  exact ⟨older', rfl, ⟨h.zero, hok, hflat ▸ h.represents, hflat ▸ h.newFirst, hlen ▸ h.length,
    last_congr (l := level :: older) (by simp [hmap]) h.last⟩⟩

/-! ### Ledgers -/

variable (valid mono modern)

/-- After ledger `n`, at protocol `p`, the list represents the map `m`. -/
def LevelsOk (n p : Nat) (m : K → Option E) (levels : Levels K E) : Prop :=
  ∃ level older, levels = level :: older ∧ Closed valid mono modern n p m level older

variable {valid mono modern}

def SafeAt (currLedger : Nat) (levels : Levels K E) : Prop :=
  match levels.reverse with
  | [] => True
  | level :: younger => SpillsSafely currLedger younger level

def SafeFrom : Nat → List (Close K E) → Levels K E → Prop
  | _, [], _ => True
  | n, c :: rest, levels =>
    SafeAt (n + 1) levels ∧ Meets (addBatch (n + 1) c levels) (SafeFrom (n + 1) rest) (fun _ => True)

variable {n : Nat} {levels : Levels K E}

/-- **One ledger.** -/
theorem LevelsOk.addBatch (h : LevelsOk valid mono modern n p m levels) {c : Close K E}
    (hvalid : valid → c.batch.Valid m) (hp : mono → p ≤ c.protocol)
    (hnew : FIRST_PROTOCOL_SHADOWS_REMOVED ≤ p → FIRST_PROTOCOL_SHADOWS_REMOVED ≤ c.protocol)
    (hmodern : modern → FIRST_PROTOCOL_SHADOWS_REMOVED ≤ c.protocol) (hsafe : modern ∨ SafeAt (n + 1) levels) :
    Meets (addBatch (n + 1) c levels) (LevelsOk valid mono modern (n + 1) c.protocol (c.batch.apply m)) (OnlyVersion valid mono) := by
  obtain ⟨level, older, rfl, h⟩ := h
  unfold Buckets.addBatch spillLevels
  unfold SafeAt at hsafe
  rw [if_neg (Nat.succ_ne_zero n)]
  cases htop : (level :: older).reverse with
  | nil => simp at htop
  | cons top younger =>
    rw [htop] at hsafe
    refine (spill_meets (h.spilling c.protocol htop) hp hsafe).bind ?_
    rintro ⟨level₁, older₁⟩ h₁
    refine (h₁.addFresh hvalid hp hnew hmodern).bind ?_
    intro level₂ h₂
    refine (h₂.resolveAnyReadyFutures c.ready).mono ?_ fun _ he => he
    rintro levels₃ ⟨older₃, rfl, h₃⟩
    exact ⟨level₂, older₃, rfl, h₃⟩

/-- **Any number of ledgers**, at protocols that never go down or never are below 12. -/
theorem LevelsOk.closeLedgers {cs : List (Close K E)} (h : LevelsOk valid mono modern n p m levels)
    (hvalid : valid → ValidFrom m cs) (hmono : mono → (p :: cs.map (·.protocol)).IsChain (· ≤ ·))
    (hmodern : modern → ∀ c ∈ cs, FIRST_PROTOCOL_SHADOWS_REMOVED ≤ c.protocol) (hor : mono ∨ modern)
    (hsafe : modern ∨ SafeFrom n cs levels) :
    Meets (closeLedgers n cs levels) (LevelsOk valid mono modern (n + cs.length) (protocolAfter p cs) (mapAfter m cs))
      (OnlyVersion valid mono) := by
  induction cs generalizing n p m levels with
  | nil => exact h
  | cons c rest ih =>
    unfold Buckets.closeLedgers
    have hp : mono → p ≤ c.protocol := fun hm => (List.isChain_cons_cons.mp (hmono hm)).1
    have hm' : modern → FIRST_PROTOCOL_SHADOWS_REMOVED ≤ c.protocol := fun hm => hmodern hm c (.head _)
    have hstep := h.addBatch (fun hv => (hvalid hv).1) hp (fun hle => hor.elim (fun hm => hle.trans (hp hm)) hm') hm'
      (hsafe.imp_right fun hs => hs.1)
    cases hrun : Buckets.addBatch (n + 1) c levels with
    | error e => exact hstep.of_error hrun
    | ok levels' =>
      have := ih (hstep.of_ok hrun) (fun hv => (hvalid hv).2) (fun hm => (List.isChain_cons_cons.mp (hmono hm)).2)
        (fun hm c' hc' => hmodern hm c' (.tail _ hc')) (hsafe.imp_right fun hs => hs.2.of_ok hrun)
      rw [List.length_cons, Nat.add_comm rest.length, ← Nat.add_assoc]
      exact this

/-! ### The empty list -/

theorem eq_empty_of_mem_flat_new {b : Bucket K E} (h : b ∈ flat (List.replicate n (.new : BucketLevel K E))) :
    b = .empty := by
  obtain ⟨level, hlevel, hb⟩ := List.mem_flatMap.mp h
  rw [List.eq_of_mem_replicate hlevel] at hb
  simpa [BucketLevel.buckets, BucketLevel.new] using hb

theorem olderOk_new (p n j : Nat) (upper : List (Bucket K E)) :
    OlderOk valid mono modern 0 p upper .empty j (List.replicate n .new) := by
  induction n generalizing upper j with
  | zero => trivial
  | succ n ih =>
    have hpos := levelHalf_pos j
    exact ⟨⟨.inl ⟨rfl, hpos, rfl⟩, fun _ hle => absurd hle (by omega), fun _ _ hle => absurd hle (by omega)⟩, ih _ _⟩

theorem levelsOk_new : LevelsOk valid mono modern 0 0 (fun _ => none) (new : Levels K E) := by
  have hempty : ∀ b ∈ flat (List.replicate kNumLevels (.new : BucketLevel K E)), b = .empty :=
    fun b => eq_empty_of_mem_flat_new
  have hrecords : ∀ k, records (flat (List.replicate kNumLevels (.new : BucketLevel K E))) k = [] :=
    fun k => List.filterMap_eq_nil_iff.mpr fun b hb => hempty b hb ▸ rfl
  refine ⟨.new, List.replicate 10 .new, rfl, ⟨⟨rfl, fun _ _ h => absurd h (lt_irrefl 0)⟩, olderOk_new _ _ _ _,
    ⟨fun _ k => ?_, fun _ k => ?_, fun b hb hnew => ?_, fun _ b hb => ?_, fun _ => ?_⟩, ?_, rfl, ?_⟩⟩
  · exact (hrecords k).symm ▸ lifecycle_nil
  · exact congrArg value (hrecords k)
  · exact absurd (hempty b hb ▸ hnew) not_new_empty
  · exact (hempty b hb).symm ▸ le_rfl
  · exact List.pairwise_of_forall_mem_list fun a ha b _ hnew => absurd (hempty a ha ▸ hnew) not_new_empty
  · exact List.pairwise_of_forall_mem_list fun a _ b hb hnew => absurd (hempty b hb ▸ hnew) not_new_empty
  · intro top htop
    obtain rfl := some.inj (htop : some _ = some top)
    rfl

/-! ### What the list says of the ledger -/

theorem LevelsOk.agrees (h : LevelsOk valid mono modern n p m levels) (hv : valid) : Agrees levels m := by
  obtain ⟨level, older, rfl, h⟩ := h
  intro k
  unfold newest
  rw [← List.head?_filterMap]
  exact h.represents.value hv k

theorem OlderOk.no_malformed (h : OlderOk valid mono modern ledger p upper snap j older) (hv : valid)
    (hlife : valid → ∀ k, Lifecycle (records (upper ++ snap :: flat older) k)) :
    ∀ level ∈ older, level.next.fault? ≠ some .malformedBucket := by
  induction older generalizing upper snap j with
  | nil => exact fun _ hlevel => (nomatch hlevel)
  | cons level rest ih =>
    refine List.forall_mem_cons.mpr ⟨?_, ih h.2 (by simpa using hlife)⟩
    rcases h.1.pending with ⟨hclear, -⟩ | ⟨inputs, version, hmerge, hw⟩
    · rw [hclear]
      exact some_ne_none _ |>.symm
    · have hmeets := hw.mergeOf_meets hlife
      rcases hmerge with hnext | ⟨b, -, hnext⟩ <;> rw [hnext]
      · unfold startMerge
        cases hb : mergeOf version (j + 1) inputs with
        | ok b => exact some_ne_none _ |>.symm
        | error e =>
          intro hfault
          obtain rfl := some.inj (hfault : some e = some _)
          exact absurd (hmeets.of_error hb hv).1 (by decide)
      · exact some_ne_none _ |>.symm

theorem LevelsOk.no_malformed (h : LevelsOk valid mono modern n p m levels) (hv : valid) :
    ∀ level ∈ levels, level.next.fault? ≠ some .malformedBucket := by
  obtain ⟨level, older, rfl, h⟩ := h
  refine List.forall_mem_cons.mpr ⟨?_, h.olderOk.no_malformed hv h.represents.lifecycle⟩
  rw [h.zero.clear]
  exact some_ne_none _ |>.symm

/-- **The list represents the ledger**: from protocol 12 on, whenever merges are found ready, the
newest record of each key is what the map says, and no merge finds a malformed bucket. The work
of a ledger stops only where the protocol went down. -/
theorem closeLedgers_represents (cs : List (Close K E)) (hvalid : ValidFrom (fun _ => none) cs)
    (hprotocol : ∀ c ∈ cs, FIRST_PROTOCOL_SHADOWS_REMOVED ≤ c.protocol) :
    Meets (closeLedgers 0 cs new)
      (fun levels => Agrees levels (mapAfter (fun _ => none) cs) ∧
        ∀ level ∈ levels, level.next.fault? ≠ some .malformedBucket)
      (fun e => e = .exceedsMaxProtocolVersion ∧ ¬(cs.map (·.protocol)).IsChain (· ≤ ·)) := by
  have hrun := (@levelsOk_new K E _ True ((cs.map (·.protocol)).IsChain (· ≤ ·)) True).closeLedgers
    (fun _ => hvalid) (fun hm => List.isChain_cons.mpr ⟨fun _ _ => Nat.zero_le _, hm⟩) (fun _ => hprotocol) (.inr trivial)
    (.inl trivial)
  refine hrun.mono ?_ fun _ he => he trivial
  intro levels hlevels
  exact ⟨hlevels.agrees trivial, hlevels.no_malformed trivial⟩

def closeAt (protocol : Nat) (initEntries liveEntries : List (Nat × Nat)) (deadEntries : List Nat) : Close Nat Nat :=
  ⟨protocol, ⟨initEntries, liveEntries, deadEntries⟩, fun _ => true⟩

theorem closeLedgers_represents_recreated :
    ValidFrom (fun _ => none) [closeAt 12 [(1, 100)] [] [], closeAt 12 [] [] [1], closeAt 13 [(1, 200)] [] []] ∧
    Meets (closeLedgers 0 [closeAt 12 [(1, 100)] [] [], closeAt 12 [] [] [1], closeAt 13 [(1, 200)] [] []] new)
      (fun levels => Agrees levels
          (mapAfter (fun _ => none) [closeAt 12 [(1, 100)] [] [], closeAt 12 [] [] [1], closeAt 13 [(1, 200)] [] []]) ∧
        ∀ level ∈ levels, level.next.fault? ≠ some .malformedBucket)
      (fun e => e = .exceedsMaxProtocolVersion ∧ ¬[12, 12, 13].IsChain (· ≤ ·)) :=
  ⟨by decide, closeLedgers_represents _ (by decide) (by decide)⟩

/-- **Over protocol upgrades the list represents the ledger as long as no merge under the rules
before protocol 11 is shadowed by a bucket of protocol 12 or later with one of its keys.** -/
theorem closeLedgers_represents_of_safe (cs : List (Close K E)) (hvalid : ValidFrom (fun _ => none) cs)
    (hprotocol : (cs.map (·.protocol)).IsChain (· ≤ ·)) (hsafe : SafeFrom 0 cs new) :
    ∃ levels, closeLedgers 0 cs new = .ok levels ∧ Agrees levels (mapAfter (fun _ => none) cs) := by
  have hrun := (@levelsOk_new K E _ True True False).closeLedgers (fun _ => hvalid)
    (fun _ => List.isChain_cons.mpr ⟨fun _ _ => Nat.zero_le _, hprotocol⟩) (fun h => h.elim) (.inl trivial) (.inr hsafe)
  refine (hrun.mono ?_ fun _ he => (he trivial).2 trivial).exists_ok
  intro levels hlevels
  exact hlevels.agrees trivial

instance spillsSafelyDecidable [DecidableEq E] (currLedger : Nat) : (younger : Levels K E) → (level : BucketLevel K E) →
    Decidable (SpillsSafely currLedger younger level)
  | [], _ => inferInstanceAs (Decidable True)
  | prev :: younger, level =>
    have := spillsSafelyDecidable currLedger younger prev
    have := spillsSafelyDecidable currLedger younger prev.takeSnap
    inferInstanceAs (Decidable (if levelShouldSpill currLedger younger.length then
      Meets level.commit (fun level' =>
        Safe (level'.inputs (younger.length + 1) currLedger prev.curr (flat younger.reverse))) (fun _ => True) ∧
      SpillsSafely currLedger younger prev.takeSnap
      else SpillsSafely currLedger younger prev))

instance [DecidableEq E] (currLedger : Nat) (levels : Levels K E) : Decidable (SafeAt currLedger levels) :=
  match h : levels.reverse with
  | [] => isTrue (by rw [SafeAt, h]; trivial)
  | level :: younger => decidable_of_iff (SpillsSafely currLedger younger level) (by rw [SafeAt, h])

instance safeFromDecidable [DecidableEq E] : (n : Nat) → (cs : List (Close K E)) → (levels : Levels K E) →
    Decidable (SafeFrom n cs levels)
  | _, [], _ => inferInstanceAs (Decidable True)
  | n, c :: rest, levels =>
    have : DecidablePred (SafeFrom (n + 1) rest) := safeFromDecidable (n + 1) rest
    inferInstanceAs (Decidable (SafeAt (n + 1) levels ∧
      Meets (addBatch (n + 1) c levels) (SafeFrom (n + 1) rest) fun _ => True))

/-- A key that lives at protocol 10, and is deleted and created again at 12. -/
def upgradedLedgers : List (Close Nat Nat) :=
  closeAt 10 [(1, 100)] [] [] :: List.replicate 7 (closeAt 10 [] [] []) ++
    [closeAt 11 [] [(1, 101)] [], closeAt 12 [] [] [1], closeAt 12 [(1, 102)] [] []]

theorem closeLedgers_represents_of_safe_upgraded :
    ∃ levels, closeLedgers 0 upgradedLedgers new = .ok levels ∧
      Agrees levels (mapAfter (fun _ => none) upgradedLedgers) :=
  closeLedgers_represents_of_safe _ (by decide +kernel) (by decide +kernel) (by decide +kernel)

/-- A key is created at ledger 1 and deleted at ledger 33, both at protocol 10; at protocol 12
it is created again at ledger 39 and deleted at ledger 41. -/
def recreatedLedgers : List (Close Nat Nat) :=
  closeAt 10 [(1, 100)] [] [] :: List.replicate 31 (closeAt 10 [] [] []) ++
    closeAt 10 [] [] [1] :: List.replicate 2 (closeAt 10 [] [] []) ++ List.replicate 3 (closeAt 12 [] [] []) ++
    [closeAt 12 [(1, 200)] [] [], closeAt 12 [] [] [], closeAt 12 [] [] [1]] ++ List.replicate 7 (closeAt 12 [] [] [])

/-- **The deleted key lives again at ledger 48.** The merge started at ledger 40 under the rules
of protocol 10 drops the old deletion, shadowed by the new creation; the creation and the new
deletion then cancel each other, and the record of ledger 1 is the newest. -/
theorem deleted_key_lives_again :
    ValidFrom (fun _ => none) recreatedLedgers ∧ (recreatedLedgers.map (·.protocol)).IsChain (· ≤ ·) ∧
    mapAfter (fun _ => none) recreatedLedgers 1 = none ∧
    Meets (closeLedgers 0 recreatedLedgers new) (fun levels => newest levels 1 = some (.live 100))
      (fun _ => False) := by
  decide +kernel

end Diamnet.Buckets
