import Diamnet.Nested.Edits

/-! What a level over the root reports as changed.

`getAllEntries` classifies what a level has recorded by looking at its parent only. Over the root
this is right: nothing is recorded as erased that the root does not have (`OuterTight`), whatever
the children of the level did before they were committed, so each recorded key is of one of three
kinds, and a key that is not recorded has not changed. -/
namespace Diamnet.Nested
open Ledger List Level Overlay

/-! ### Nothing superfluous is recorded as erased -/

section
variable {parent : View}

theorem tight_edit {m : EntryMap} (h : m.Tight parent) (result : Result) {call : LevelCall}
    (hcall : ∀ k, call ≠ .eraseWithoutLoading k) : (call.edit parent m result).Tight parent := by
  unfold LevelCall.edit
  split
  · exact h.put _ _
  · exact h.put _ _
  · exact h.put _ _
  · split
    · exact h
    · exact h.put _ _
  · split
    · exact h
    · exact tight_rerecord h _
  · exact tight_rerecord h _
  · exact h.put _ _
  · next k => exact absurd rfl (hcall k)
  · split
    · exact h.put _ _
    · exact h
  · exact h

theorem tight_released {l : Level} (h : l.mEntry.Tight parent) : (l.released parent).Tight parent :=
  foldlRecOn l.mActive.keys _ h fun _ h k _ => tight_rerecord h k

theorem tight_sealed {l : Level} (h : l.mEntry.Tight parent) : l.sealed.mEntry.Tight parent := by
  unfold sealed
  split
  · exact h
  · unfold maybeUpdateLastModified
    split
    · exact h.mapValues _
    · exact h

end

/-- The level over the root has nothing recorded as erased that the root does not have. -/
def OuterTight (root : Root) : List Level → Prop
  | [] => True
  | [l] => l.mEntry.Tight root.getNewestVersion
  | _ :: l :: rest => OuterTight root (l :: rest)

namespace Call

def depth (n : Nat) : Call → Nat
  | .onLevel _ => n
  | .openChild _ => n + 1
  | .commit => n - 1
  | .rollback => n - 1

/-- The level over the root does not itself erase entries without loading them. -/
def ErasesInChild (n : Nat) : Call → Prop
  | .onLevel (.eraseWithoutLoading _) => 2 ≤ n
  | _ => True

end Call

/-- Entries are erased without loading them in children of the level over the root only. -/
def ErasesInChildren (n : Nat) : List Call → Prop
  | [] => True
  | call :: calls => call.ErasesInChild n ∧ ErasesInChildren (call.depth n) calls

section
variable {root : Root} {levels : List Level} {call : Call} {result : Result} {s : Stack}

theorem Stepped.length_levels (h : Stepped root levels call result s) : s.levels.length = call.depth levels.length := by
  cases h <;> rfl

theorem Stepped.outerTight (h : Stepped root levels call result s) (htight : OuterTight root levels)
    (herases : call.ErasesInChild levels.length) : OuterTight s.root s.levels := by
  cases h with
  | @onLevel l l' rest call result hcalled =>
    cases rest with
    | nil =>
      show l'.mEntry.Tight _
      rw [hcalled.mEntry]
      refine tight_edit htight result fun k hk => ?_
      rw [hk] at herases
      exact absurd (show 2 ≤ 1 from herases) (by decide)
    | cons parent rest => exact htight
  | openFirst updates => exact tight_empty _
  | @openChild l rest updates books hsealed =>
    cases rest with
    | nil => exact tight_released htight
    | cons parent rest => exact htight
  | @commit l parent rest books worst =>
    cases rest with
    | nil => exact Tight.putAll htight _
    | cons outer rest => exact htight
  | commitRoot hroot => trivial
  | @rollback l rest =>
    cases rest with
    | nil => trivial
    | cons parent rest => exact htight

end

/-- Whatever its children do, the level over the root records no superfluous erasure. -/
theorem run_outerTight {asDouble : Price → ℚ} {calls : List Call} {results : List Result} {s s' : Stack}
    (hrun : s.run asDouble calls = .ok (results, s')) (htight : OuterTight s.root s.levels)
    (herases : ErasesInChildren s.levels.length calls) : OuterTight s'.root s'.levels := by
  induction calls generalizing s results with
  | nil =>
    cases hrun
    exact htight
  | cons call calls ih =>
    obtain ⟨⟨result, s₁⟩, hstep, hrun⟩ := bind_eq_ok.mp hrun
    obtain ⟨⟨results₁, s₂⟩, hrun, h⟩ := bind_eq_ok.mp hrun
    cases h
    have hstepped := Stack.step_stepped hstep
    refine ih hrun (hstepped.outerTight htight herases.1) ?_
    rw [hstepped.length_levels]
    exact herases.2

/-! ### The three kinds -/

/-- The key of a ledger entry, if it is that of one. -/
def GeneralizedLedgerKey.ledgerKey? : GeneralizedLedgerKey → Option LedgerKey
  | .ledgerKey key => some key
  | _ => none

section
variable {parent : View} {l : Level} {key : LedgerKey}

theorem mem_recorded {e previous : Option (EntryOf key)} : ⟨key, e, previous⟩ ∈ l.recorded parent ↔
    l.mEntry.lookup (.ledgerKey key) = some e ∧ parent (.ledgerKey key) = previous := by
  constructor
  · intro h
    obtain ⟨x, hx, hlisted⟩ := mem_filterMap.mp h
    split at hlisted
    · cases hlisted
      exact ⟨AList.mem_lookup_iff.mpr hx, rfl⟩
    · cases hlisted
  · intro ⟨hx, hprevious⟩
    subst hprevious
    exact mem_filterMap.mpr ⟨⟨.ledgerKey key, e⟩, AList.mem_lookup_iff.mp hx, rfl⟩

theorem recorded_keys_nodup : ((l.recorded parent).map Sigma.fst).Nodup := by
  have hkeys : (l.recorded parent).map Sigma.fst = l.mEntry.keys.filterMap GeneralizedLedgerKey.ledgerKey? := by
    unfold recorded AList.keys keys
    rw [map_filterMap, filterMap_map]
    refine filterMap_congr fun x _ => ?_
    obtain ⟨k, e⟩ := x
    cases k <;> rfl
  rw [hkeys]
  refine l.mEntry.keys_nodup.filterMap fun k k' key hk hk' => ?_
  cases k <;> cases k' <;> cases hk <;> cases hk'
  rfl

end

namespace AllEntries

def writes (all : AllEntries) : List (Sigma fun key => Option (EntryOf key)) :=
  all.initEntries.map (fun e => ⟨e.1, some e.2⟩) ++ (all.liveEntries.map (fun e => ⟨e.1, some e.2⟩) ++
    all.deadEntries.map fun key => ⟨key, none⟩)

def keys (all : AllEntries) : List LedgerKey := all.writes.keys

def applyTo (all : AllEntries) (database : AList EntryOf) : AList EntryOf :=
  all.writes.foldl (fun database e => write database e.1 e.2) database

end AllEntries

section
variable {entries : List Recorded} {key : LedgerKey}

theorem mem_initEntries {e : EntryOf key} : ⟨key, e⟩ ∈ (classify entries).initEntries ↔ ⟨key, some e, none⟩ ∈ entries := by
  constructor
  · intro h
    obtain ⟨x, hx, hlisted⟩ := mem_filterMap.mp h
    split at hlisted
    · cases hlisted
      exact hx
    · cases hlisted
  · intro h
    exact mem_filterMap.mpr ⟨_, h, rfl⟩

theorem mem_liveEntries {e : EntryOf key} :
    ⟨key, e⟩ ∈ (classify entries).liveEntries ↔ ∃ previous, ⟨key, some e, some previous⟩ ∈ entries := by
  constructor
  · intro h
    obtain ⟨x, hx, hlisted⟩ := mem_filterMap.mp h
    split at hlisted
    · cases hlisted
      exact ⟨_, hx⟩
    · cases hlisted
  · intro ⟨previous, h⟩
    exact mem_filterMap.mpr ⟨_, h, rfl⟩

theorem mem_deadEntries :
    key ∈ (classify entries).deadEntries ↔ ∃ previous, ⟨key, none, previous⟩ ∈ entries := by
  constructor
  · intro h
    obtain ⟨x, hx, hlisted⟩ := mem_filterMap.mp h
    split at hlisted
    · cases hlisted
      exact ⟨_, hx⟩
    · cases hlisted
  · intro ⟨previous, h⟩
    exact mem_filterMap.mpr ⟨_, h, rfl⟩

theorem writes_perm (entries : List Recorded) :
    (classify entries).writes.Perm (entries.map fun x => ⟨x.1, x.2.1⟩) := by
  induction entries with
  | nil => exact .nil
  | cons x entries ih =>
    obtain ⟨key, e, previous⟩ := x
    cases e with
    | none =>
      refine .trans ?_ (ih.cons ⟨key, none⟩)
      refine .trans (Perm.append_left _ perm_middle) ?_
      exact perm_middle
    | some e =>
      cases previous with
      | none => exact ih.cons ⟨key, some e⟩
      | some previous => exact perm_middle.trans (ih.cons ⟨key, some e⟩)

end

/-! ### What is listed is what has changed -/

/-- The ledger entries that are visible at a level over the root. -/
def Level.ledgerView (l : Level) (root : Root) (key : LedgerKey) : Option (EntryOf key) :=
  l.getNewestVersion root.getNewestVersion (.ledgerKey key)

/-- The three lists tell what has become of the root's entries at a level, which was sealed for it. -/
structure Classifies (root : Root) (outer : Level) (all : AllEntries) : Prop where
  init : ∀ key e, ⟨key, e⟩ ∈ all.initEntries ↔
    outer.sealed.ledgerView root key = some e ∧ root.database.lookup key = none
  live : ∀ key e, ⟨key, e⟩ ∈ all.liveEntries →
    outer.sealed.ledgerView root key = some e ∧ root.database.lookup key ≠ none
  dead : ∀ key, key ∈ all.deadEntries ↔
    outer.sealed.ledgerView root key = none ∧ root.database.lookup key ≠ none
  once : all.keys.Nodup
  changed : ∀ key, outer.ledgerView root key ≠ root.database.lookup key ∨
    outer.sealed.ledgerView root key ≠ root.database.lookup key → key ∈ all.keys
  applied : ∀ key, (all.applyTo root.database).lookup key = outer.sealed.ledgerView root key

section
variable {root : Root} {l : Level}

theorem ledgerView_of_recorded {key : LedgerKey} {e : Option (EntryOf key)}
    (h : l.mEntry.lookup (.ledgerKey key) = some e) : l.ledgerView root key = e :=
  over_of_lookup h

theorem ledgerView_of_not_recorded {key : LedgerKey} (h : l.mEntry.lookup (.ledgerKey key) = none) :
    l.ledgerView root key = root.database.lookup key :=
  over_of_lookup_none h

theorem recorded_of_ledgerView {key : LedgerKey} (h : l.ledgerView root key ≠ root.database.lookup key) :
    l.mEntry.lookup (.ledgerKey key) = some (l.ledgerView root key) := by
  cases hrecorded : l.mEntry.lookup (.ledgerKey key) with
  | none => exact absurd (ledgerView_of_not_recorded hrecorded) h
  | some e => exact congrArg some (ledgerView_of_recorded hrecorded).symm

theorem recorded_sealed {k : GeneralizedLedgerKey} {e : Option (GeneralizedLedgerEntry k)}
    (h : l.mEntry.lookup k = some e) : ∃ e', l.sealed.mEntry.lookup k = some e' := by
  unfold sealed
  split
  · exact ⟨e, h⟩
  · unfold maybeUpdateLastModified
    split
    · exact ⟨_, by rw [lookup_mapValues, h]; rfl⟩
    · exact ⟨e, h⟩

variable (root l)

theorem writes_nodupKeys : (classify (l.recorded root.getNewestVersion)).writes.NodupKeys := by
  refine (perm_nodupKeys (writes_perm _)).mpr ?_
  unfold NodupKeys keys
  rw [map_map]
  exact recorded_keys_nodup

theorem dlookup_writes (key : LedgerKey) : (classify (l.recorded root.getNewestVersion)).writes.dlookup key =
    l.mEntry.lookup (.ledgerKey key) := by
  refine Option.ext fun e => ?_
  rw [← Option.mem_def, mem_dlookup_iff (writes_nodupKeys root l), (writes_perm _).mem_iff, mem_map]
  constructor
  · intro ⟨x, hx, hxe⟩
    cases hxe
    exact (mem_recorded.mp hx).1
  · intro h
    exact ⟨⟨key, e, _⟩, mem_recorded.mpr ⟨h, rfl⟩, rfl⟩

variable {root l}

theorem mem_keys {key : LedgerKey} : key ∈ (classify (l.recorded root.getNewestVersion)).keys ↔
    ∃ e, l.mEntry.lookup (.ledgerKey key) = some e := by
  rw [← dlookup_writes root l key, ← Option.isSome_iff_exists]
  exact dlookup_isSome.symm

theorem classifies (htight : l.mEntry.Tight root.getNewestVersion) :
    Classifies root l (l.getAllEntries root.getNewestVersion).1 where
  init key e := by
    refine mem_initEntries.trans (mem_recorded.trans ?_)
    constructor
    · intro ⟨hrecorded, hroot⟩
      exact ⟨ledgerView_of_recorded hrecorded, hroot⟩
    · intro ⟨hview, hroot⟩
      refine ⟨?_, hroot⟩
      rw [← hview]
      refine recorded_of_ledgerView fun hsame => ?_
      rw [hview, hroot] at hsame
      cases hsame
  live key e h := by
    obtain ⟨previous, hlisted⟩ := mem_liveEntries.mp h
    obtain ⟨hrecorded, hroot⟩ := mem_recorded.mp hlisted
    refine ⟨ledgerView_of_recorded hrecorded, fun hnone => ?_⟩
    cases hnone.symm.trans hroot
  dead key := by
    refine mem_deadEntries.trans ?_
    constructor
    · intro ⟨previous, hlisted⟩
      have hrecorded := (mem_recorded.mp hlisted).1
      exact ⟨ledgerView_of_recorded hrecorded, tight_sealed htight _ hrecorded⟩
    · intro ⟨hview, hroot⟩
      refine ⟨_, mem_recorded.mpr ⟨?_, rfl⟩⟩
      rw [← hview]
      refine recorded_of_ledgerView fun hsame => ?_
      rw [hview] at hsame
      exact hroot hsame.symm
  once := writes_nodupKeys root l.sealed
  changed key hdiffers := by
    cases hdiffers with
    | inl hdiffers => exact mem_keys.mpr (recorded_sealed (recorded_of_ledgerView hdiffers))
    | inr hdiffers => exact mem_keys.mpr ⟨_, recorded_of_ledgerView hdiffers⟩
  applied key := by
    have hlookup := read_foldl (fun (m : AList EntryOf) => m.lookup key) (fun _ v => v)
      (fun m v => lookup_write_self m key v) (fun m e hk => lookup_write_ne m hk.symm e.2)
      (writes_nodupKeys root l.sealed) root.database
    rw [dlookup_writes] at hlookup
    refine hlookup.trans ?_
    cases hrecorded : l.sealed.mEntry.lookup (.ledgerKey key) with
    | none => exact (ledgerView_of_not_recorded hrecorded).symm
    | some e => exact (ledgerView_of_recorded hrecorded).symm

end

/-! ### Deltas and changes -/

def LedgerTxnDelta.recorded (delta : LedgerTxnDelta) : List Recorded :=
  delta.entry.filterMap fun
    | ⟨.ledgerKey key, e⟩ => some ⟨key, e⟩
    | _ => none

def allEntriesOf (changes : List LedgerEntryChange) : AllEntries where
  initEntries := changes.filterMap fun
    | .created e => some e
    | _ => none
  liveEntries := changes.filterMap fun
    | .updated e => some e
    | _ => none
  deadEntries := changes.filterMap fun
    | .removed key => some key
    | _ => none

/-- The entries that changes tell to have been there before. -/
def statesOf (changes : List LedgerEntryChange) : List (Sigma EntryOf) :=
  changes.filterMap fun
    | .state e => some e
    | _ => none

theorem changesOf_classify {entries : List Recorded} (h : ∀ key, ⟨key, none, none⟩ ∉ entries) :
    ∃ changes, entries.mapM changesOf = .ok changes ∧ allEntriesOf changes.flatten = classify entries ∧
      statesOf changes.flatten = entries.filterMap fun x => x.2.2.map (Sigma.mk x.1) := by
  induction entries with
  | nil => exact ⟨[], rfl, rfl, rfl⟩
  | cons x entries ih =>
    obtain ⟨changes, hchanges, hall, hstates⟩ := ih fun key hkey => h key (.tail _ hkey)
    rw [mapM_cons, hchanges]
    obtain ⟨key, e, previous⟩ := x
    have hinit := congrArg AllEntries.initEntries hall
    have hlive := congrArg AllEntries.liveEntries hall
    have hdead := congrArg AllEntries.deadEntries hall
    cases e with
    | none =>
      cases previous with
      | none => exact absurd (.head _) (h key)
      | some previous =>
        refine ⟨_, rfl, ?_, congrArg (cons _) hstates⟩
        exact congr (congr (congrArg AllEntries.mk hinit) hlive) (congrArg (cons _) hdead)
    | some e =>
      cases previous with
      | none =>
        refine ⟨_, rfl, ?_, hstates⟩
        exact congr (congr (congrArg AllEntries.mk (congrArg (cons _) hinit)) hlive) hdead
      | some previous =>
        refine ⟨_, rfl, ?_, congrArg (cons _) hstates⟩
        exact congr (congr (congrArg AllEntries.mk hinit) (congrArg (cons _) hlive)) hdead

/-- What a level tells as a delta and as changes, if no deletions may be superfluous, agrees with the
three lists. -/
structure Agrees (root : Root) (outer : Level) (all : AllEntries) (delta : LedgerTxnDelta)
    (changes : List LedgerEntryChange) : Prop where
  deltaEntries : classify delta.recorded = all
  deltaPrevious : ∀ x ∈ delta.recorded, x.2.2 = root.database.lookup x.1
  changeEntries : allEntriesOf changes = all
  changePrevious : ∀ key e, ⟨key, e⟩ ∈ statesOf changes ↔ key ∈ all.keys ∧ root.database.lookup key = some e

section
variable {root : Root} {l : Level}

theorem recorded_of_getDelta (root : Root) (l : Level) (header : LedgerHeader × LedgerHeader) :
    LedgerTxnDelta.recorded ⟨l.mEntry.entries.map fun e => ⟨e.1, e.2, root.getNewestVersion e.1⟩, header⟩ =
      l.recorded root.getNewestVersion := by
  unfold LedgerTxnDelta.recorded
  rw [filterMap_map]
  refine filterMap_congr fun x _ => ?_
  obtain ⟨k, e⟩ := x
  cases k <;> rfl

theorem mem_states {key : LedgerKey} {e : EntryOf key} :
    ⟨key, e⟩ ∈ (l.recorded root.getNewestVersion).filterMap (fun x => x.2.2.map (Sigma.mk x.1)) ↔
      key ∈ (classify (l.recorded root.getNewestVersion)).keys ∧ root.database.lookup key = some e := by
  rw [mem_filterMap, mem_keys]
  constructor
  · intro ⟨x, hx, hstate⟩
    obtain ⟨key', e', previous⟩ := x
    obtain ⟨hrecorded, hroot⟩ := mem_recorded.mp hx
    obtain ⟨state, hprevious, hstate⟩ := Option.map_eq_some_iff.mp hstate
    cases hstate
    exact ⟨⟨e', hrecorded⟩, hroot.trans hprevious⟩
  · intro ⟨⟨e', hrecorded⟩, hroot⟩
    exact ⟨⟨key, e', some e⟩, mem_recorded.mpr ⟨hrecorded, hroot⟩, rfl⟩

theorem agrees (htight : l.mEntry.Tight root.getNewestVersion) (hexact : l.mConsistency = .exact) :
    ∃ delta changes, l.getDelta root.getNewestVersion root.mHeader = .ok (delta, l.sealed) ∧
      l.getChanges root.getNewestVersion = .ok (changes, l.sealed) ∧
      Agrees root l (l.getAllEntries root.getNewestVersion).1 delta changes := by
  have hpasses : l.throwIfNotExactConsistency = .ok () := if_pos hexact
  have hnone (key : LedgerKey) : ⟨key, none, none⟩ ∉ l.sealed.recorded root.getNewestVersion := by
    intro hlisted
    obtain ⟨hrecorded, hroot⟩ := mem_recorded.mp hlisted
    exact tight_sealed htight _ hrecorded hroot
  obtain ⟨changes, hchanges, hall, hstates⟩ := changesOf_classify hnone
  have hdelta := recorded_of_getDelta root l.sealed (l.sealed.mHeader, root.mHeader)
  refine ⟨_, changes.flatten, ?_, ?_, congrArg classify hdelta, ?_, hall, ?_⟩
  · unfold getDelta
    rw [hpasses]
    rfl
  · unfold getChanges
    rw [hpasses]
    show (do let changes ← (l.sealed.recorded root.getNewestVersion).mapM changesOf
             pure (changes.flatten, l.sealed)) = _
    rw [hchanges]
    rfl
  · rw [hdelta]
    intro x hx
    exact (mem_recorded.mp hx).2.symm
  · intro key e
    rw [hstates]
    exact mem_states

theorem silent (hconsistency : l.mConsistency ≠ .exact) (parent : View) (header : LedgerHeader) :
    l.getDelta parent header = .error (.runtimeError "LedgerTxn consistency level is not exact") ∧
      l.getChanges parent = .error (.runtimeError "LedgerTxn consistency level is not exact") := by
  unfold getDelta getChanges throwIfNotExactConsistency
  rw [if_neg hconsistency]
  exact ⟨rfl, rfl⟩

end

section
variable {asDouble : Price → ℚ} {root : Root} {calls : List Call} {results : List Result} {s : Stack} {outer : Level}

/-- **What the level over the root reports as changed.** Whatever its children did, the three lists
are right about the root, and the delta and the changes agree with them where they are told. -/
theorem run_classifies (hrun : Stack.run asDouble ⟨root, []⟩ calls = .ok (results, s))
    (herases : ErasesInChildren 0 calls) (houter : s.levels = [outer]) :
    Classifies s.root outer (outer.getAllEntries s.root.getNewestVersion).1 ∧
      (outer.getAllEntries s.root.getNewestVersion).2 = outer.sealed ∧
      (outer.mConsistency = .exact → ∃ delta changes,
        outer.getDelta s.root.getNewestVersion s.root.mHeader = .ok (delta, outer.sealed) ∧
        outer.getChanges s.root.getNewestVersion = .ok (changes, outer.sealed) ∧
        Agrees s.root outer (outer.getAllEntries s.root.getNewestVersion).1 delta changes) ∧
      (outer.mConsistency ≠ .exact →
        outer.getDelta s.root.getNewestVersion s.root.mHeader =
          .error (.runtimeError "LedgerTxn consistency level is not exact") ∧
        outer.getChanges s.root.getNewestVersion =
          .error (.runtimeError "LedgerTxn consistency level is not exact")) := by
  have htight : OuterTight s.root [outer] := houter ▸ run_outerTight hrun trivial herases
  exact ⟨classifies htight, rfl, agrees htight, fun hconsistency => silent hconsistency _ _⟩

end

def rootOfOne : Root where
  mHeader := ⟨13, 7, 0, 0, 0, 0, 0, 1, 100, 100⟩
  database := AList.insert (.data 2 []) ⟨3, (⟨[], none⟩ : DataEntry)⟩ ∅

/-- A child creates an entry and erases another without loading it. -/
def creatingAndErasing : List Call :=
  [.openChild true, .openChild true, .onLevel (.create (.ledgerKey (.data 1 [])) ⟨0, (⟨[], none⟩ : DataEntry)⟩),
    .onLevel (.eraseWithoutLoading (.ledgerKey (.data 2 []))), .commit]

theorem run_classifies_created : ∃ results s outer,
    Stack.run (fun _ => 0) ⟨rootOfOne, []⟩ creatingAndErasing = .ok (results, s) ∧ s.levels = [outer] ∧
      (outer.getAllEntries s.root.getNewestVersion).1.initEntries.map Sigma.fst = [.data 1 []] ∧
      (outer.getAllEntries s.root.getNewestVersion).1.deadEntries = [.data 2 []] ∧
      Classifies s.root outer (outer.getAllEntries s.root.getNewestVersion).1 :=
  ⟨_, _, _, rfl, rfl, rfl, rfl,
    (run_classifies (show Stack.run (fun _ => 0) ⟨rootOfOne, []⟩ creatingAndErasing = .ok (_, _) from rfl)
      ⟨trivial, trivial, trivial, Nat.le_refl 2, trivial, trivial⟩ rfl).1⟩

end Diamnet.Nested
