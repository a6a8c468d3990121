import Diamnet.Bucket.Run

/-! A bucket list that is read back goes on as the one it was taken from.

Of a level its two buckets are kept, and of its pending merge the inputs, the output or
nothing. From protocol 12 on a merge has no shadows, so `restartMerges` finds its inputs in
the levels themselves: what the invariant says of them at ledger `n` is what `prepare` reads at
the ledger where the merge began (`OlderOk.restart`). Two lists with the same buckets and the
same pending merges take every further ledger alike, whenever results are found ready
(`Twins.closeLedgers`). -/
namespace Diamnet.Buckets
open FutureBucket List BucketLevel Levels

variable {K E : Type} [LinearOrder K]

/-! ### Lists with the same buckets and merges -/

/-- Two pending merges of level `i` with the same inputs and the same result, or none. -/
def SameNext (i : Nat) (next next' : FutureBucket K E) : Prop :=
  (next = .clear ∧ next' = .clear) ∨ ∃ inputs maxProtocolVersion maxProtocolVersion',
    IsMergeOf maxProtocolVersion i inputs next ∧ IsMergeOf maxProtocolVersion' i inputs next' ∧
      mergeOf maxProtocolVersion i inputs = mergeOf maxProtocolVersion' i inputs

structure SameLevel (i : Nat) (level level' : BucketLevel K E) : Prop where
  curr : level'.curr = level.curr
  snap : level'.snap = level.snap
  next : SameNext i level.next level'.next

def SameFrom : Nat → Levels K E → Levels K E → Prop
  | _, [], [] => True
  | i, level :: rest, level' :: rest' => SameLevel i level level' ∧ SameFrom (i + 1) rest rest'
  | _, _, _ => False

/-- What matters of two levels for the ledgers to come. -/
structure Alike (level level' : BucketLevel K E) : Prop where
  curr : level'.curr = level.curr
  snap : level'.snap = level.snap
  next : level'.next = level.next ∨
    level.next.isLive = true ∧ level'.next.isLive = true ∧ level'.next.resolve = level.next.resolve

/-- Two lists whose levels are alike; the youngest has no merge in the background. -/
structure Twins (levels levels' : Levels K E) : Prop where
  alike : Forall₂ Alike levels levels'
  zero : ∀ level ∈ levels.head?, level.next = .clear
  zero' : ∀ level ∈ levels'.head?, level.next = .clear

/-- Ledgers with the same contents, at any speed of the merges. -/
structure SameClose (c c' : Close K E) : Prop where
  protocol : c'.protocol = c.protocol
  batch : c'.batch = c.batch

/-- The level that a kept level is read back as, before its merge is restarted. -/
def HistoryStateBucket.level (has : HistoryStateBucket K E) : BucketLevel K E := ⟨has.curr, has.snap, has.next⟩

variable {i : Nat} {level level' : BucketLevel K E}

theorem SameLevel.alike (h : SameLevel i level level') : Alike level level' := by
  refine ⟨h.curr, h.snap, ?_⟩
  rcases h.next with ⟨hclear, hclear'⟩ | ⟨inputs, version, version', hmerge, hmerge', heq⟩
  · exact .inl (hclear'.trans hclear.symm)
  · exact .inr ⟨hmerge.isLive, hmerge'.isLive, by rw [hmerge.resolve, hmerge'.resolve, heq]⟩

variable {levels levels' : Levels K E}

theorem SameFrom.alike (h : SameFrom i levels levels') : Forall₂ Alike levels levels' := by
  induction levels generalizing i levels' with
  | nil =>
    cases levels' with
    | nil => exact .nil
    | cons _ _ => exact h.elim
  | cons level rest ih =>
    cases levels' with
    | nil => exact h.elim
    | cons level' rest' => exact .cons h.1.alike (ih h.2)

/-! ### Alike levels take a ledger alike -/

namespace Alike

theorem refl (level : BucketLevel K E) : Alike level level := ⟨rfl, rfl, .inl rfl⟩

theorem takeSnap {level level' : BucketLevel K E} (h : Alike level level') : Alike level.takeSnap level'.takeSnap :=
  ⟨rfl, h.curr, h.next⟩

theorem eq_of_next {level level' : BucketLevel K E} (h : Alike level level') (hnext : level'.next = level.next) :
    level' = level := by
  obtain ⟨curr, snap, next⟩ := level
  obtain ⟨rfl, rfl, -⟩ := h
  cases hnext
  rfl

theorem commit {level level' : BucketLevel K E} (h : Alike level level') : level'.commit = level.commit := by
  rcases h.next with hnext | ⟨hlive, hlive', hresolve⟩
  · rw [h.eq_of_next hnext]
  · unfold BucketLevel.commit BucketLevel.setCurr
    rw [if_pos hlive, if_pos hlive', hresolve, h.snap]

end Alike

theorem flat_alike {l l' : Levels K E} (h : Forall₂ Alike l l') : flat l' = flat l := by
  induction h with
  | nil => rfl
  | cons hlevel _ ih => rw [flat_cons, flat_cons, hlevel.curr, hlevel.snap, ih]

variable {currLedger p : Nat} {older younger : Levels K E}

theorem spill_alike {younger' older' : Levels K E} (hyounger : Forall₂ Alike younger younger')
    (hlevel : Alike level level') (holder : Forall₂ Alike older older') {out : BucketLevel K E × Levels K E}
    (h : spill currLedger p younger level older = .ok out) :
    ∃ out', spill currLedger p younger' level' older' = .ok out' ∧ Alike out.1 out'.1 ∧ Forall₂ Alike out.2 out'.2 := by
  induction hyounger generalizing level level' older older' with
  | nil =>
    cases h
    exact ⟨_, rfl, hlevel, holder⟩
  | @cons prev prev' younger younger' hprev hyounger ih =>
    unfold spill at h ⊢
    have hlen := hyounger.length_eq.symm
    have hflat := flat_alike (forall₂_reverse_iff.mpr hyounger)
    rw [hlen, hflat, hlevel.commit]
    by_cases hspill : levelShouldSpill currLedger younger.length = true
    · rw [if_pos hspill] at h ⊢
      obtain ⟨level₁, hcommit, h⟩ := bind_eq_ok.mp h
      obtain ⟨level₂, hprepare, h⟩ := bind_eq_ok.mp h
      obtain ⟨out', hout', hsame⟩ := ih hprev.takeSnap (.cons (Alike.refl level₂) holder) h
      refine ⟨out', ?_, hsame⟩
      rw [hcommit, ok_bind, show prev'.takeSnap.snap = prev.takeSnap.snap from hprev.curr, hprepare]
      exact hout'
    · rw [if_neg hspill] at h ⊢
      exact ih hprev (.cons hlevel holder) h

theorem spill_zero {out : BucketLevel K E × Levels K E} (h : spill currLedger p younger level older = .ok out)
    (hzero : ∀ z ∈ (level :: younger).getLast?, z.next = .clear) : out.1.next = .clear := by
  induction younger generalizing level older with
  | nil =>
    cases h
    exact hzero level rfl
  | cons prev younger ih =>
    unfold spill at h
    split at h
    · obtain ⟨level₁, -, h⟩ := bind_eq_ok.mp h
      obtain ⟨level₂, -, h⟩ := bind_eq_ok.mp h
      refine ih h ?_
      cases younger with
      | nil =>
        intro z hz
        obtain rfl := Option.some.inj (hz : some _ = some z)
        exact hzero prev rfl
      | cons q rest => simpa only [getLast?_cons_cons] using hzero
    · exact ih h hzero

theorem resolveIfReady_alike {level₁ : BucketLevel K E} {ready : Bool} (h : level.resolveIfReady ready = .ok level₁) :
    Alike level₁ level := by
  unfold resolveIfReady at h
  split at h
  · rename_i hready
    obtain ⟨output, houtput, h⟩ := bind_eq_ok.mp h
    cases h
    refine ⟨rfl, rfl, .inr ⟨rfl, ?_, houtput⟩⟩
    cases hnext : level.next <;> first | rfl | (rw [hnext] at hready; cases hready)
  · cases h
    exact Alike.refl level

theorem Alike.trans {a b c : BucketLevel K E} (h : Alike a b) (h' : Alike b c) : Alike a c := by
  refine ⟨h'.curr.trans h.curr, h'.snap.trans h.snap, ?_⟩
  rcases h.next with hn | ⟨hl, hl', hr⟩
  · rw [← hn]
    exact h'.next
  · rcases h'.next with hn' | ⟨-, hl'', hr'⟩
    · rw [hn']
      exact .inr ⟨hl, hl', hr⟩
    · exact .inr ⟨hl, hl'', hr'.trans hr⟩

variable {next : FutureBucket K E} {e : MergeError}

theorem fault_of_resolve (hlive : next.isLive = true) (h : next.resolve = .error e) : next.fault? = some e := by
  cases next with
  | liveInputs inputs future =>
    cases (h : future = .error e)
    rfl
  | liveOutput output => cases h
  | clear => cases hlive
  | hashInputs inputs => cases hlive
  | hashOutput output => cases hlive

/-- A result is taken on one side or on both, or is a failure that the other side still waits for. -/
theorem Alike.resolveIfReady (h : Alike level level') (ready : Bool) :
    Meets (level'.resolveIfReady ready) (Alike level) (fun e => level.next.fault? = some e) := by
  cases hrun : level'.resolveIfReady ready with
  | ok level₁ =>
    have h₁ := resolveIfReady_alike hrun
    refine ⟨h₁.curr.symm.trans h.curr, h₁.snap.symm.trans h.snap, ?_⟩
    rcases h₁.next with hn | ⟨hl, hl', hr⟩
    · rw [← hn]
      exact h.next
    · rcases h.next with hn' | ⟨hl'', -, hr'⟩
      · exact .inr ⟨hn' ▸ hl', hl, hr.symm.trans (by rw [hn'])⟩
      · exact .inr ⟨hl'', hl, hr.symm.trans hr'⟩
  | error e =>
    unfold BucketLevel.resolveIfReady at hrun
    split at hrun
    · rename_i hready
      have hlive : level'.next.isLive = true := by
        cases hnext : level'.next <;> first | rfl | (rw [hnext] at hready; cases hready)
      have hresolve : level'.next.resolve = .error e := by
        cases hb : level'.next.resolve with
        | ok b =>
          rw [hb] at hrun
          cases hrun
        | error e' =>
          rw [hb] at hrun
          cases hrun
          rfl
      rcases h.next with hn | ⟨hl, -, hr⟩
      · exact hn ▸ fault_of_resolve hlive hresolve
      · exact fault_of_resolve hl (hr ▸ hresolve)
    · cases hrun

/-- Some merge of the list has failed, and nobody has asked for its result yet. -/
def Faulty (levels : Levels K E) (e : MergeError) : Prop := ∃ level ∈ levels, level.next.fault? = some e

variable {out : Levels K E} {ready : Nat → Bool}

theorem resolveAnyReadyFutures_alike (h : Forall₂ Alike levels levels')
    (hrun : resolveAnyReadyFutures ready i levels = .ok out) (ready' : Nat → Bool) :
    Meets (resolveAnyReadyFutures ready' i levels') (Forall₂ Alike out) (Faulty out) := by
  induction h generalizing i out with
  | nil =>
    cases hrun
    exact Forall₂.nil
  | cons hlevel _ ih =>
    obtain ⟨level₁, hlevel₁, hrun⟩ := bind_eq_ok.mp hrun
    obtain ⟨rest₁, hrest₁, hrun⟩ := bind_eq_ok.mp hrun
    cases hrun
    have halike := (resolveIfReady_alike hlevel₁).trans hlevel
    refine Meets.bind ((halike.resolveIfReady (ready' i)).mono (fun _ h => h) fun e he => ?_) fun level₁' hlevel₁' => ?_
    · exact ⟨level₁, .head _, he⟩
    · refine Meets.bind ((ih hrest₁).mono (fun _ h => h) fun e he => ?_) fun rest₁' hrest₁' => ?_
      · exact he.imp fun l hl => ⟨.tail _ hl.1, hl.2⟩
      · exact Forall₂.cons hlevel₁' hrest₁'

theorem spill_faulty {out : BucketLevel K E × Levels K E} (h : spill currLedger p younger level older = .ok out)
    (hfault : Faulty (younger ++ level :: older) e) : Faulty (out.1 :: out.2) e := by
  induction younger generalizing level older with
  | nil =>
    cases h
    exact hfault
  | cons prev younger ih =>
    unfold spill at h
    obtain ⟨l, hl, hfault⟩ := hfault
    have hl' : l = prev ∨ l ∈ younger ∨ l = level ∨ l ∈ older := by simpa using hl
    split at h
    · obtain ⟨level₁, hcommit, h⟩ := bind_eq_ok.mp h
      obtain ⟨level₂, -, h⟩ := bind_eq_ok.mp h
      rcases hl' with rfl | hl | rfl | hl
      · exact ih h ⟨l.takeSnap, by simp, hfault⟩
      · exact ih h ⟨l, by simp [hl], hfault⟩
      · -- the level would have been asked for its result
        unfold commit at hcommit
        cases hnext : l.next with
        | liveInputs inputs future =>
          rw [hnext] at hfault hcommit
          cases future with
          | ok b => cases hfault
          | error e' => cases hcommit
        | _ => rw [hnext] at hfault; cases hfault
      · exact ih h ⟨l, by simp [hl], hfault⟩
    · refine ih h ⟨l, ?_, hfault⟩
      rcases hl' with rfl | hl | rfl | hl <;> simp [*]

theorem resolveAnyReadyFutures_faulty (h : resolveAnyReadyFutures ready i levels = .ok out)
    (hfault : Faulty levels e) : Faulty out e := by
  induction levels generalizing i out with
  | nil => exact absurd hfault fun ⟨_, hl, _⟩ => (nomatch hl)
  | cons level rest ih =>
    obtain ⟨level₁, hlevel₁, h⟩ := bind_eq_ok.mp h
    obtain ⟨rest₁, hrest₁, h⟩ := bind_eq_ok.mp h
    cases h
    obtain ⟨l, hl, hfault⟩ := hfault
    rcases mem_cons.mp hl with rfl | hl
    · have halike := resolveIfReady_alike hlevel₁
      refine ⟨level₁, .head _, ?_⟩
      rcases halike.next with hn | ⟨hl, hl', hr⟩
      · exact hn ▸ hfault
      · refine fault_of_resolve hl (hr ▸ ?_)
        cases hnext : l.next with
        | liveInputs inputs future =>
          rw [hnext] at hfault
          cases future with
          | ok b => cases hfault
          | error e' => exact congrArg Except.error (Option.some.inj hfault)
        | _ => rw [hnext] at hfault; cases hfault
    · exact (ih hrest₁ ⟨l, hl, hfault⟩).imp fun l hl => ⟨.tail _ hl.1, hl.2⟩

/-! ### Twins -/

theorem addFresh_clear {batch : Batch K E} {level₂ : BucketLevel K E}
    (h : addFresh currLedger p batch level = .ok level₂) : level.next.isMerging = false ∧ level₂.next = .clear := by
  obtain ⟨fresh, -, h⟩ := bind_eq_ok.mp h
  obtain ⟨level₁, hprepare, h⟩ := bind_eq_ok.mp h
  cases hmerging : level.next.isMerging with
  | true =>
    unfold prepare at hprepare
    rw [hmerging] at hprepare
    cases hprepare
  | false =>
    rw [prepare_eq _ _ _ _ _ hmerging] at hprepare
    cases hprepare
    obtain ⟨b, -, h⟩ := bind_eq_ok.mp h
    cases h
    exact ⟨rfl, rfl⟩

variable {rest : Levels K E}

theorem resolveAnyReadyFutures_zero (h : resolveAnyReadyFutures ready i (level :: rest) = .ok out)
    (hclear : level.next = .clear) : ∀ z ∈ out.head?, z.next = .clear := by
  unfold resolveAnyReadyFutures resolveIfReady at h
  rw [hclear] at h
  obtain ⟨level₁, hlevel₁, h⟩ := bind_eq_ok.mp h
  obtain ⟨rest₁, -, h⟩ := bind_eq_ok.mp h
  cases hlevel₁
  cases h
  intro z hz
  obtain rfl := Option.some.inj (hz : some _ = some z)
  exact hclear

variable {n : Nat}

theorem addBatch_faulty {c : Close K E} (h : addBatch n c levels = .ok out) (hfault : Faulty levels e) :
    Faulty out e := by
  unfold addBatch spillLevels at h
  obtain ⟨-, h⟩ := refuse_eq_ok.mp h
  obtain ⟨⟨level₁, older₁⟩, hspill, h⟩ := bind_eq_ok.mp h
  obtain ⟨level₂, hfresh, h⟩ := bind_eq_ok.mp h
  have hspilled : Faulty (level₁ :: older₁) e := by
    cases htop : levels.reverse with
    | nil =>
      rw [htop] at hspill
      cases hspill
    | cons top younger =>
      rw [htop] at hspill
      refine spill_faulty hspill ?_
      obtain ⟨l, hl, hfault⟩ := hfault
      refine ⟨l, ?_, hfault⟩
      rw [← mem_reverse, htop] at hl
      simp only [mem_append, mem_cons] at hl ⊢
      tauto
  obtain ⟨l, hl, hfault⟩ := hspilled
  rcases mem_cons.mp hl with rfl | hl
  · -- a merge in the youngest level would have stopped the batch
    have hmerging := (addFresh_clear hfresh).1
    cases hnext : l.next with
    | liveInputs inputs future =>
      rw [hnext] at hmerging
      cases hmerging
    | _ => rw [hnext] at hfault; cases hfault
  · exact resolveAnyReadyFutures_faulty h ⟨l, .tail _ hl, hfault⟩

theorem closeLedgers_faulty {cs : List (Close K E)} (h : closeLedgers n cs levels = .ok out)
    (hfault : Faulty levels e) : Faulty out e := by
  induction cs generalizing n levels with
  | nil =>
    cases h
    exact hfault
  | cons c rest ih =>
    obtain ⟨levels₁, hbatch, h⟩ := bind_eq_ok.mp h
    exact ih h (addBatch_faulty hbatch hfault)

theorem Twins.addBatch {c c' : Close K E} (h : Twins levels levels') (hc : SameClose c c')
    (hrun : addBatch n c levels = .ok out) : Meets (addBatch n c' levels') (Twins out) (Faulty out) := by
  unfold Buckets.addBatch spillLevels at *
  obtain ⟨hn, hrun⟩ := refuse_eq_ok.mp hrun
  rw [if_neg hn, hc.protocol, hc.batch]
  obtain ⟨⟨level₁, older₁⟩, hspill, hafter⟩ := bind_eq_ok.mp hrun
  obtain ⟨level₂, hfresh, hresolved⟩ := bind_eq_ok.mp hafter
  have hreverse := forall₂_reverse_iff.mpr h.alike
  have hlast : ∀ l : Levels K E, l.reverse.getLast? = l.head? := fun l => getLast?_reverse
  have hzero := h.zero
  have hzero' := h.zero'
  rw [← hlast] at hzero hzero'
  generalize levels.reverse = l at *
  generalize levels'.reverse = l' at *
  cases hreverse with
  | nil => cases hspill
  | cons htop hyounger =>
    obtain ⟨⟨level₁', older₁'⟩, hspill', hlevel₁, holder₁⟩ := spill_alike hyounger htop .nil hspill
    have hclear := spill_zero hspill hzero
    have hclear' := spill_zero hspill' hzero'
    obtain rfl : level₁' = level₁ := hlevel₁.eq_of_next (hclear'.trans hclear.symm)
    have hclear₂ := (addFresh_clear hfresh).2
    have halike : Forall₂ Alike (level₂ :: older₁) (level₂ :: older₁') := .cons (Alike.refl level₂) holder₁
    have hresolve := resolveAnyReadyFutures_alike halike hresolved c'.ready
    simp only [hspill', ok_bind, hfresh]
    cases hrun' : resolveAnyReadyFutures c'.ready 0 (level₂ :: older₁') with
    | error e => exact hresolve.of_error hrun'
    | ok out' =>
      exact ⟨hresolve.of_ok hrun', resolveAnyReadyFutures_zero hresolved hclear₂, resolveAnyReadyFutures_zero hrun' hclear₂⟩

/-- **Any number of ledgers**: where one list gets to, the other gets with the same buckets, unless
it stops at a failed merge that the first has not asked for. -/
theorem Twins.closeLedgers {cs cs' : List (Close K E)} (h : Twins levels levels')
    (hcs : Forall₂ SameClose cs cs') (hrun : closeLedgers n cs levels = .ok out) :
    Meets (closeLedgers n cs' levels') (Twins out) (Faulty out) := by
  induction hcs generalizing n levels levels' with
  | nil =>
    cases hrun
    exact h
  | @cons c c' rest rest' hc _ ih =>
    obtain ⟨levels₁, hbatch, hrun⟩ := bind_eq_ok.mp hrun
    have hstep := h.addBatch hc hbatch
    unfold Buckets.closeLedgers
    cases hbatch' : Buckets.addBatch (n + 1) c' levels' with
    | error e => exact closeLedgers_faulty hrun (hstep.of_error hbatch')
    | ok levels₁' => exact ih (hstep.of_ok hbatch') hrun

/-! ### Reading a list back -/

def Keeps : FutureBucket K E → FutureBucket K E → Prop
  | _, .clear => True
  | .liveInputs inputs _, .hashInputs inputs' => inputs' = inputs
  | .liveInputs _ future, .hashOutput output => future = .ok output
  | .liveOutput output, .hashOutput output' => output' = output
  | _, _ => False

/-- What may be kept of a level. -/
structure KeepsLevel (level : BucketLevel K E) (has : HistoryStateBucket K E) : Prop where
  curr : has.curr = level.curr
  snap : has.snap = level.snap
  next : Keeps level.next has.next

theorem mergeOf_max {inputs : MergeInputs K E} {a b : Nat} (ha : inputs.version ≤ a) (hb : inputs.version ≤ b) (i : Nat) :
    mergeOf a i inputs = mergeOf b i inputs := by
  have hcalc : calculateMergeProtocolVersion a inputs.curr inputs.snap inputs.shadows =
      calculateMergeProtocolVersion b inputs.curr inputs.snap inputs.shadows := by
    unfold calculateMergeProtocolVersion
    simp only [gt_iff_lt, if_neg (Nat.not_lt.mpr (show mergeProtocolVersion _ _ _ ≤ a from ha)),
      if_neg (Nat.not_lt.mpr (show mergeProtocolVersion _ _ _ ≤ b from hb))]
  unfold mergeOf Bucket.merge
  rw [hcalc]

theorem isEmpty_of_new {b : Bucket K E} (h : New b) : b.isEmpty = false := by
  unfold Bucket.isEmpty
  cases hmeta : b.metadata with
  | some v => rfl
  | none =>
    have hversion : b.version = 0 := by
      unfold Bucket.version
      rw [hmeta]
      rfl
    unfold New at h
    rw [hversion] at h
    cases h

theorem keeps_clear (h : Keeps .clear next) : next = .clear := by
  cases next <;> first | rfl | exact h.elim

variable {ledger maxProtocolVersion : Nat} {prev : BucketLevel K E}

theorem restartMerges_clear (h : level.next = .clear) :
    restartMerges maxProtocolVersion ledger i (some prev) (level :: rest) =
      if prev.snap.isEmpty then pure (level :: rest)
      else if prev.snap.version < FIRST_PROTOCOL_SHADOWS_REMOVED then throw .clearFutureWithOldSnap
      else do
        let level ← level.prepare i (mask ledger (levelHalf (i - 1))) prev.snap.version prev.snap []
        return level :: (← restartMerges maxProtocolVersion ledger (i + 1) (some level) rest) := by
  conv => lhs; unfold restartMerges
  rw [h]

theorem restartMerges_hash {kept : FutureBucket K E} (h : level.next = kept)
    (hnext : makeLive maxProtocolVersion i kept = .ok next) :
    restartMerges maxProtocolVersion ledger i (some prev) (level :: rest) = do
      return ⟨level.curr, level.snap, next⟩ :: (← restartMerges maxProtocolVersion ledger (i + 1) (some level) rest) := by
  conv => lhs; unfold restartMerges
  rw [h]
  cases kept with
  | hashInputs inputs =>
    cases hnext
    rfl
  | hashOutput output =>
    cases hnext
    rfl
  | _ => cases hnext

variable {valid mono modern : Prop}

variable {j : Nat} {upper : List (Bucket K E)} {snap : Bucket K E} {has : List (HistoryStateBucket K E)}

theorem OlderOk.unreached (h : OlderOk valid mono modern ledger p upper snap j older) (hj : ledger < levelHalf j)
    (hhas : Forall₂ KeepsLevel older has) : SameFrom (j + 1) older (has.map (·.level)) := by
  induction hhas generalizing upper snap j with
  | nil => trivial
  | cons hlevel _ ih =>
    refine ⟨⟨hlevel.curr, hlevel.snap, .inl ?_⟩, ih h.2 (by rw [levelHalf_succ]; omega)⟩
    rcases h.1.pending with ⟨hclear, -⟩ | ⟨inputs, version, -, hw⟩
    · exact ⟨hclear, keeps_clear (hclear ▸ hlevel.next)⟩
    · exact absurd hw.due (Nat.not_le.mpr hj)

theorem Waiting.inputs_eq {inputs : MergeInputs K E}
    (h : Waiting valid mono modern ledger p j upper snap level.curr inputs maxProtocolVersion) (hm : modern) :
    inputs = level.inputs (j + 1) (mask ledger (levelHalf j)) snap [] := by
  have hcurr := h.curr
  have hsnap := h.snap
  have hshadows := h.modern hm
  obtain ⟨curr', snap', shadows'⟩ := inputs
  subst hcurr hsnap hshadows
  unfold inputs
  rw [shouldMergeWithEmptyCurr_mask, ite_self]

/-- **The merges are restarted as they were.** -/
theorem OlderOk.restart (h : OlderOk valid mono modern ledger p upper snap j older) (hmono : mono)
    (hmodern : modern)
    (hsorted : (snap :: flat older).Pairwise fun young old => New young → old.version ≤ young.version)
    (hmax : p ≤ maxProtocolVersion) (hhas : Forall₂ KeepsLevel older has) (hprev : prev.snap = snap) :
    ∃ levels', restartMerges maxProtocolVersion ledger (j + 1) (some prev) (has.map (·.level)) = .ok levels' ∧
      SameFrom (j + 1) older levels' := by
  induction hhas generalizing upper snap j prev with
  | nil => exact ⟨[], rfl, trivial⟩
  | @cons level kept rest krest hlevel hrest ih =>
    have hunreached := fun hj => h.unreached hj (.cons hlevel hrest)
    obtain ⟨hok, holder⟩ := h
    obtain ⟨hcurrLe, hsorted⟩ := pairwise_cons.mp hsorted
    have ih' : ∀ prev : BucketLevel K E, prev.snap = level.snap → _ := fun prev hprev =>
      ih holder (pairwise_cons.mp hsorted).2 hprev
    rw [map_cons]
    rcases hok.pending with ⟨hclear, hlt, hempty⟩ | ⟨inputs, version, hmerge, hw⟩
    · have hkept : kept.level.next = .clear := keeps_clear (hclear ▸ hlevel.next)
      refine ⟨_, ?_, hunreached hlt⟩
      rw [restartMerges_clear hkept, hprev, hempty]
      rfl
    · have hsnap := hok.snapNew hmodern hw.due
      have hcurr := hw.inputs_eq hmodern
      have hversion : inputs.version ≤ snap.version := by
        refine mergeProtocolVersion_le ?_ (hw.snap ▸ le_rfl) fun si hsi => ?_
        · rw [hw.curr]
          split
          · exact Nat.zero_le _
          · exact hcurrLe level.curr (.head _) hsnap
        · rw [hw.modern hmodern] at hsi
          cases hsi
      have hsame : ∀ {maxProtocolVersion' : Nat} {next : FutureBucket K E}, IsMergeOf maxProtocolVersion' (j + 1) inputs next →
          inputs.version ≤ maxProtocolVersion' → SameLevel (j + 1) level ⟨kept.curr, kept.snap, next⟩ :=
        fun hnext hle => ⟨hlevel.curr, hlevel.snap, .inr ⟨inputs, version, _, hmerge, hnext,
          mergeOf_max (hw.version hmono).1 hle _⟩⟩
      cases hkept : kept.level.next with
      | clear =>
        -- the merge is found from the levels
        obtain ⟨rest', hrest', hsameRest⟩ := ih' ⟨kept.curr, kept.snap,
          startMerge snap.version (j + 1) (kept.level.inputs (j + 1) (mask ledger (levelHalf j)) snap [])⟩ hlevel.snap
        have hinputs : kept.level.inputs (j + 1) (mask ledger (levelHalf j)) snap [] = inputs := by
          rw [hcurr]
          unfold BucketLevel.inputs
          rw [show kept.level.curr = level.curr from hlevel.curr]
        refine ⟨⟨kept.curr, kept.snap, startMerge snap.version (j + 1) inputs⟩ :: rest', ?_,
          hsame (.inl rfl) hversion, hsameRest⟩
        rw [hinputs] at hrest'
        rw [restartMerges_clear hkept, hprev, isEmpty_of_new hsnap, if_neg Bool.false_ne_true,
          if_neg (Nat.not_lt.mpr hsnap), Nat.add_sub_cancel, prepare_eq _ _ _ _ _ (by rw [hkept]; rfl), ok_bind, hinputs]
        exact bind_eq_ok.mpr ⟨rest', hrest', rfl⟩
      | hashInputs inputs' =>
        obtain ⟨rest', hrest', hsameRest⟩ := ih' kept.level hlevel.snap
        have hinputs : inputs' = inputs := by
          have hnext := hlevel.next
          rw [show kept.next = .hashInputs inputs' from hkept] at hnext
          rcases hmerge with hstart | ⟨b, -, hout⟩
          · rw [hstart] at hnext
            exact hnext
          · rw [hout] at hnext
            exact hnext.elim
        subst hinputs
        refine ⟨⟨kept.curr, kept.snap, startMerge maxProtocolVersion (j + 1) inputs'⟩ :: rest', ?_,
          hsame (.inl rfl) ((hw.version hmono).1.trans ((hw.version hmono).2.trans hmax)), hsameRest⟩
        rw [restartMerges_hash hkept rfl, hrest']
        rfl
      | hashOutput output =>
        obtain ⟨rest', hrest', hsameRest⟩ := ih' kept.level hlevel.snap
        have houtput : mergeOf version (j + 1) inputs = .ok output := by
          have hnext := hlevel.next
          rw [show kept.next = .hashOutput output from hkept] at hnext
          rcases hmerge with hstart | ⟨b, hb, hout⟩
          · rw [hstart] at hnext
            exact hnext
          · rw [hout] at hnext
            rw [hb, show output = b from hnext]
        refine ⟨⟨kept.curr, kept.snap, .liveOutput output⟩ :: rest', ?_,
          hsame (.inr ⟨output, houtput, rfl⟩) (hw.version hmono).1, hsameRest⟩
        rw [restartMerges_hash hkept rfl, hrest']
        rfl
      | liveInputs inputs' future =>
        have hnext := hlevel.next
        rw [show kept.next = .liveInputs inputs' future from hkept] at hnext
        cases hl : level.next <;> rw [hl] at hnext <;> exact hnext.elim
      | liveOutput output =>
        have hnext := hlevel.next
        rw [show kept.next = .liveOutput output from hkept] at hnext
        cases hl : level.next <;> rw [hl] at hnext <;> exact hnext.elim

theorem LevelsOk.assumeState {m : K → Option E} (h : LevelsOk valid mono modern n p m levels) (hmono : mono)
    (hmodern : modern) (hmax : p ≤ maxProtocolVersion) (hhas : Forall₂ KeepsLevel levels has) :
    ∃ levels', assumeState maxProtocolVersion n has = .ok levels' ∧ SameFrom 0 levels levels' ∧ Twins levels levels' := by
  obtain ⟨level, older, rfl, h⟩ := h
  cases hhas with
  | @cons _ kept _ krest hlevel hrest =>
    have hkept : kept.level.next = .clear := keeps_clear (h.zero.clear ▸ hlevel.next)
    have hsorted := (pairwise_cons.mp (h.represents.sorted hmono)).2
    obtain ⟨rest', hrest', hsame⟩ := h.olderOk.restart hmono hmodern hsorted hmax hrest (show kept.level.snap = level.snap from hlevel.snap)
    have hall : SameFrom 0 (level :: older) (kept.level :: rest') :=
      ⟨⟨hlevel.curr, hlevel.snap, .inl ⟨h.zero.clear, hkept⟩⟩, hsame⟩
    refine ⟨kept.level :: rest', ?_, hall, hall.alike, ?_, ?_⟩
    · show restartMerges maxProtocolVersion n 0 none (kept.level :: krest.map (·.level)) = _
      unfold restartMerges
      rw [hkept]
      simp only [hrest']
      rfl
    · intro z hz
      obtain rfl := Option.some.inj (hz : some _ = some z)
      exact h.zero.clear
    · intro z hz
      obtain rfl := Option.some.inj (hz : some _ = some z)
      exact hkept

/-- **A node that restarts goes on with the same buckets**: from protocol 12 on, whatever is kept of
each pending merge, the list that is read back has on each level a merge with the same inputs and
the same result, and further ledgers give both lists the same buckets. -/
theorem assumeState_same (cs : List (Close K E)) (hprotocol : ∀ c ∈ cs, FIRST_PROTOCOL_SHADOWS_REMOVED ≤ c.protocol)
    (hmono : (cs.map (·.protocol)).IsChain (· ≤ ·)) {levels : Levels K E}
    (hrun : closeLedgers 0 cs BucketList.new = .ok levels) {maxProtocolVersion : Nat}
    (hmax : protocolAfter 0 cs ≤ maxProtocolVersion) {has : List (HistoryStateBucket K E)}
    (hhas : Forall₂ KeepsLevel levels has) :
    ∃ levels', assumeState maxProtocolVersion cs.length has = .ok levels' ∧ SameFrom 0 levels levels' ∧
      ∀ further further', Forall₂ SameClose further further' →
        ∀ out, closeLedgers cs.length further levels = .ok out →
          Meets (closeLedgers cs.length further' levels') (fun out' => flat out' = flat out) (Faulty out) := by
  have hlevels := ((@levelsOk_new K E _ False True True).closeLedgers (fun h => h.elim)
    (fun _ => isChain_cons.mpr ⟨fun _ _ => Nat.zero_le _, hmono⟩) (fun _ => hprotocol) (.inl trivial)
    (.inl trivial)).of_ok hrun
  rw [Nat.zero_add] at hlevels
  obtain ⟨levels', hassume, hsame, htwins⟩ := hlevels.assumeState trivial trivial hmax hhas
  refine ⟨levels', hassume, hsame, fun further further' hfurther out hout => ?_⟩
  exact (htwins.closeLedgers hfurther hout).mono (fun out' h => flat_alike h.alike) fun _ he => he

def withoutMerges (levels : Levels K E) : List (HistoryStateBucket K E) :=
  levels.map fun level => ⟨level.curr, .clear, level.snap⟩

theorem assumeState_same_withoutMerges :
    ∃ levels, closeLedgers 0 (replicate 9 (closeAt 12 [] [(1, 5)] [2])) BucketList.new = .ok levels ∧
      ∃ levels', assumeState 12 9 (withoutMerges levels) = .ok levels' ∧ SameFrom 0 levels levels' ∧
        ∀ further further', Forall₂ SameClose further further' →
          ∀ out, closeLedgers 9 further levels = .ok out →
            Meets (closeLedgers 9 further' levels') (fun out' => flat out' = flat out) (Faulty out) := by
  have hmeets : Meets (closeLedgers 0 (replicate 9 (closeAt 12 [] [(1, 5)] [2])) BucketList.new) (fun _ => True)
      (fun _ => False) := by decide +kernel
  obtain ⟨levels, hrun, -⟩ := hmeets.exists_ok
  refine ⟨levels, hrun, assumeState_same (replicate 9 (closeAt 12 [] [(1, 5)] [2])) (by decide) (by decide) hrun
    (by decide) ?_⟩
  exact forall₂_map_right_iff.mpr (forall₂_same.mpr fun level _ => ⟨rfl, rfl, by cases level.next <;> trivial⟩)

/-- **The speed of the merges does not matter**: the same ledgers leave the same buckets, unless one
node stops at a failed merge that the other has pending. -/
theorem closeLedgers_alike {cs cs' : List (Close K E)} (hcs : Forall₂ SameClose cs cs') {out : Levels K E}
    (hrun : closeLedgers 0 cs BucketList.new = .ok out) :
    Meets (closeLedgers 0 cs' BucketList.new) (fun out' => flat out' = flat out) (Faulty out) := by
  have hclear : ∀ level ∈ (BucketList.new : Levels K E).head?, level.next = .clear := by
    rintro _ ⟨⟩
    rfl
  have htwins : Twins (BucketList.new : Levels K E) BucketList.new :=
    ⟨forall₂_same.mpr fun level _ => .refl level, hclear, hclear⟩
  exact (htwins.closeLedgers hcs hrun).mono (fun _ h => flat_alike h.alike) fun _ he => he

theorem closeLedgers_alike_late : ∃ out, closeLedgers 0 (replicate 9 (closeAt 12 [] [(1, 5)] [2])) BucketList.new = .ok out ∧
    Meets (closeLedgers 0 (replicate 9 ⟨12, ⟨[], [(1, 5)], [2]⟩, fun _ => false⟩) BucketList.new)
      (fun out' => flat out' = flat out) (Faulty out) := by
  have hmeets : Meets (closeLedgers 0 (replicate 9 (closeAt 12 [] [(1, 5)] [2])) BucketList.new) (fun _ => True)
      (fun _ => False) := by decide +kernel
  obtain ⟨out, hrun, -⟩ := hmeets.exists_ok
  exact ⟨out, hrun, closeLedgers_alike (by simpa [replicate] using ⟨rfl, rfl⟩) hrun⟩

end Diamnet.Buckets
