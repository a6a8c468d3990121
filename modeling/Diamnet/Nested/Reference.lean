import Diamnet.Nested.Edits

/-! Nested ledger transactions against a stack of complete maps.

In the reference a child starts with a copy of its parent's map, a commit hands the map over to the
parent and a rollback forgets it. What a commit hands over is not quite the map: a level that
updates sequence numbers does so for the entries it touched, and the root keeps ledger entries
only (`handedOver`). With that, loads give what the reference has (`run_replays`). -/
namespace Diamnet.Nested
open Ledger Function Overlay

/-! ### The reference -/

/-- A level of the reference. -/
structure Complete where
  entries : View
  /-- The entries that were loaded to be changed, created or erased. -/
  touched : GeneralizedLedgerKey → Bool
  header : LedgerHeader
  updates : Bool

namespace Complete

def set (r : Complete) (k : GeneralizedLedgerKey) (e : Option (GeneralizedLedgerEntry k)) : Complete :=
  { r with entries := update r.entries k e, touched := update r.touched k true }

def touch (r : Complete) (k : GeneralizedLedgerKey) : Complete :=
  { r with touched := update r.touched k true }

def call (r : Complete) (result : Result) : LevelCall → Complete
  | .create k e => r.set k (some e)
  | .createOrUpdateWithoutLoading k e => r.set k (some e)
  | .modify k e => r.set k (some e)
  | .load k => r.touch k
  | .erase k => r.set k none
  | .eraseWithoutLoading k => r.set k none
  | .modifyHeader header => { r with header := header }
  | .loadBestOffer _ => match result with
    | .offer (some offer) => r.touch (offerKey offer.1)
    | _ => r
  | _ => r

def answer (r : Complete) : LevelCall → Option Result
  | .load k => some (.entry k (r.entries k))
  | .loadWithoutRecord k => some (.entry k (r.entries k))
  | _ => none

/-- The map, with the sequence numbers of touched entries updated. -/
def stamped (r : Complete) : View := fun k =>
  bif r.updates && r.touched k then (r.entries k).map (updateLastModified r.header.ledgerSeq k) else r.entries k

end Complete

def ledgerOnly (view : View) : View
  | .ledgerKey key => view (.ledgerKey key)
  | .sponsorship _ => none
  | .sponsorshipCounter _ => none

/-- What a commit hands over, to the root or to a level. -/
def handedOver (toRoot : Bool) (r : Complete) : View := if toRoot then ledgerOnly r.stamped else r.stamped

structure Reference where
  root : View
  rootHeader : LedgerHeader
  levels : List Complete

/-- What a call does to the reference, with what a commit hands over as a parameter. -/
def Reference.step (handOver : Bool → Complete → View) (s : Reference) (result : Result) (call : Call) : Reference :=
  match call, s.levels with
  | .onLevel call, r :: rest => { s with levels := r.call result call :: rest }
  | .openChild updates, [] => { s with levels := [⟨s.root, fun _ => false, s.rootHeader, updates⟩] }
  | .openChild updates, r :: rest => { s with levels := ⟨r.entries, fun _ => false, r.header, updates⟩ :: r :: rest }
  | .commit, [r] => { root := handOver true r, rootHeader := r.header, levels := [] }
  | .commit, r :: parent :: rest => { s with
      levels := { parent with
        entries := handOver false r
        touched := fun k => parent.touched k || r.touched k
        header := r.header } :: rest }
  | .rollback, _ :: rest => { s with levels := rest }
  | _, [] => s

/-- What the reference gives for a load at its innermost level. -/
def Reference.answer (s : Reference) (call : Call) : Option Result :=
  match call, s.levels with
  | .onLevel call, r :: _ => r.answer call
  | _, _ => none

def Reference.run (handOver : Bool → Complete → View) (s : Reference) : List Call → List Result → Reference
  | call :: calls, result :: results => (s.step handOver result call).run handOver calls results
  | _, _ => s

def Reference.view (s : Reference) : View :=
  match s.levels with
  | [] => s.root
  | r :: _ => r.entries

/-- The results of the calls are those of the reference, where it gives one. -/
def Reference.Replays (handOver : Bool → Complete → View) (s : Reference) : List Call → List Result → Prop
  | [], [] => True
  | call :: calls, result :: results =>
    (∀ answer, s.answer call = some answer → result = answer) ∧ (s.step handOver result call).Replays handOver calls results
  | _, _ => False

def Root.reference (root : Root) : Reference := ⟨root.getNewestVersion, root.mHeader, []⟩

/-! ### Recorded entries -/

/-- Entries recorded over a parent are those of the reference, and they are recorded if touched. -/
structure Models (parent : View) (m : EntryMap) (r : Complete) : Prop where
  entries : m.onto parent = r.entries
  touched : ∀ k, m.onto (fun _ => none) k = bif r.touched k then r.entries k else none

section
variable {parent : View} {m m' : EntryMap} {r : Complete}

theorem Models.set (h : Models parent m r) {k : GeneralizedLedgerKey} {e : Option (GeneralizedLedgerEntry k)}
    (hover : m'.onto parent = update (m.onto parent) k e)
    (hnone : m'.onto (fun _ => none) = update (m.onto fun _ => none) k e) : Models parent m' (r.set k e) where
  entries := by
    rw [hover, h.entries]
    rfl
  touched k' := by
    rw [hnone]
    unfold Complete.set
    dsimp only
    by_cases hk : k' = k
    · subst hk
      rw [update_self, update_self, update_self, cond_true]
    · rw [update_of_ne hk, update_of_ne hk, update_of_ne hk, h.touched]

theorem Models.put (h : Models parent m r) (k : GeneralizedLedgerKey) (e : Option (GeneralizedLedgerEntry k)) :
    Models parent (m.put parent k e) (r.set k e) :=
  h.set (over_put parent m k e) (over_put_none parent m k e)

theorem Models.insert (h : Models parent m r) (k : GeneralizedLedgerKey) (e : Option (GeneralizedLedgerEntry k)) :
    Models parent (AList.insert k e m) (r.set k e) :=
  h.set (over_insert m _ k e) (over_insert m _ k e)

theorem set_self (r : Complete) (k : GeneralizedLedgerKey) : r.set k (r.entries k) = r.touch k := by
  unfold Complete.set Complete.touch
  rw [update_eq_self]

theorem Models.touch (h : Models parent m r) {k : GeneralizedLedgerKey} (hk : r.entries k = none) :
    Models parent m (r.touch k) where
  entries := h.entries
  touched k' := by
    rw [h.touched]
    unfold Complete.touch
    dsimp only
    by_cases hk' : k' = k
    · subst hk'
      rw [update_self, cond_true, hk]
      cases r.touched k' <;> rfl
    · rw [update_of_ne hk']

theorem Models.rerecord (h : Models parent m r) (k : GeneralizedLedgerKey) :
    Models parent (Nested.rerecord parent m k) r where
  entries := (over_rerecord m k).trans h.entries
  touched k' := by
    rw [← h.touched]
    unfold Nested.rerecord
    cases hrecorded : m.lookup k with
    | none => rfl
    | some e =>
      have hk : m.onto (fun _ => none) k = e := over_of_lookup hrecorded
      rw [over_put_none, ← hk, update_eq_self]

theorem Models.foldl_rerecord (h : Models parent m r) (keys : List GeneralizedLedgerKey) :
    Models parent (keys.foldl (Nested.rerecord parent) m) r := by
  induction keys generalizing m with
  | nil => exact h
  | cons k keys ih => exact ih (h.rerecord k)

theorem Models.load (h : Models parent m r) {k : GeneralizedLedgerKey} {e : GeneralizedLedgerEntry k}
    (hk : m.onto parent k = some e) : Models parent (m.put parent k (some e)) (r.touch k) := by
  rw [← set_self, ← h.entries, hk]
  exact h.put k (some e)

theorem Models.edit (h : Models parent m r) {call : LevelCall} {result : Result}
    (hanswers : call.Answers (m.onto parent) result) : Models parent (call.edit parent m result) (r.call result call) := by
  cases call with
  | create k e => exact h.put k (some e)
  | createOrUpdateWithoutLoading k e => exact h.put k (some e)
  | modify k e => exact h.put k (some e)
  | load k =>
    rw [LevelCall.edit]
    cases hview : m.onto parent k with
    | none => exact h.touch (h.entries ▸ hview)
    | some e => exact h.load hview
  | loadWithoutRecord k =>
    rw [LevelCall.edit]
    cases m.onto parent k with
    | none => exact h
    | some e => exact h.rerecord k
  | deactivate k => exact h.rerecord k
  | erase k => exact h.put k none
  | eraseWithoutLoading k => exact h.insert k none
  | loadBestOffer assets =>
    cases result with
    | offer offer =>
      cases offer with
      | none => exact h
      | some offer => exact h.load (hanswers offer rfl)
    | _ => exact h
  | modifyHeader header => exact ⟨h.entries, h.touched⟩
  | _ => exact h

theorem Models.empty (parent : View) (header : LedgerHeader) (updates : Bool) :
    Models parent ∅ ⟨parent, fun _ => false, header, updates⟩ where
  entries := over_empty parent
  touched k := by rw [over_empty]; rfl

end

/-! ### Commits -/

/-- A level is one of the reference. -/
structure ModelsLevel (parent : View) (l : Level) (r : Complete) : Prop where
  entries : Models parent l.mEntry r
  header : l.mHeader = r.header
  updates : l.mShouldUpdateLastModified = r.updates
  unsealed : l.mIsSealed = false

theorem over_sealed {l : Level} (h : l.mIsSealed = false) (base : View) (k : GeneralizedLedgerKey) :
    l.sealed.mEntry.onto base k = match l.mEntry.lookup k with
      | some e => bif l.mShouldUpdateLastModified then e.map (updateLastModified l.mHeader.ledgerSeq k) else e
      | none => base k := by
  unfold Level.sealed
  rw [h, if_neg Bool.false_ne_true]
  unfold Level.maybeUpdateLastModified
  cases l.mShouldUpdateLastModified with
  | false =>
    rw [if_neg Bool.false_ne_true, onto]
    cases l.mEntry.lookup k <;> rfl
  | true =>
    rw [if_pos rfl, onto, lookup_mapValues]
    cases l.mEntry.lookup k <;> rfl

section
variable {base : View} {l : Level} {r : Complete}

theorem stamped_of_not_recorded (h : Models base l.mEntry r) {k : GeneralizedLedgerKey}
    (hrecorded : l.mEntry.lookup k = none) : r.stamped k = base k ∧ (r.touched k = true → base k = none) := by
  have hentries := congrFun h.entries k
  have htouched := h.touched k
  rw [over_of_lookup_none hrecorded] at hentries htouched
  rw [← hentries] at htouched
  unfold Complete.stamped
  rw [← hentries]
  cases hr : r.touched k with
  | false =>
    rw [Bool.and_false]
    exact ⟨rfl, fun h => absurd h Bool.false_ne_true⟩
  | true =>
    rw [hr] at htouched
    have hnone : base k = none := htouched.symm
    rw [hnone]
    exact ⟨by cases r.updates <;> rfl, fun _ => rfl⟩

/-- A key that it has recorded shows that, and is not there unless it was touched. -/
theorem stamped_of_recorded (h : Models base l.mEntry r) {k : GeneralizedLedgerKey}
    {e : Option (GeneralizedLedgerEntry k)} (hrecorded : l.mEntry.lookup k = some e) :
    r.stamped k = (bif r.updates then e.map (updateLastModified r.header.ledgerSeq k) else e) ∧
      (r.touched k = false → e = none) := by
  have hentries := congrFun h.entries k
  have htouched := h.touched k
  rw [over_of_lookup hrecorded] at hentries htouched
  unfold Complete.stamped
  rw [← hentries]
  cases hr : r.touched k with
  | false =>
    rw [hr] at htouched
    have hnone : e = none := htouched
    rw [hnone]
    exact ⟨by cases r.updates <;> rfl, fun _ => rfl⟩
  | true =>
    rw [Bool.and_true]
    exact ⟨rfl, fun h => absurd h.symm Bool.false_ne_true⟩

theorem over_sealed_eq (h : ModelsLevel base l r) : l.sealed.mEntry.onto base = r.stamped := by
  funext k
  rw [over_sealed h.unsealed, h.header, h.updates]
  cases hrecorded : l.mEntry.lookup k with
  | none => exact (stamped_of_not_recorded h.entries hrecorded).1.symm
  | some e => exact (stamped_of_recorded h.entries hrecorded).1.symm

theorem Models.commit {parent : EntryMap} {p : Complete} (hparent : Models base parent p)
    (h : ModelsLevel (parent.onto base) l r) :
    Models base (parent.putAll base l.sealed.mEntry)
      { p with entries := r.stamped, touched := fun k => p.touched k || r.touched k, header := r.header } where
  entries := by rw [over_putAll, over_sealed_eq h]
  touched k := by
    have hpk := hparent.touched k
    rw [over_putAll_none, over_sealed h.unsealed, h.header, h.updates]
    dsimp only
    cases hrecorded : l.mEntry.lookup k with
    | none =>
      obtain ⟨hstamped, hnone⟩ := stamped_of_not_recorded h.entries hrecorded
      rw [hparent.entries] at hstamped hnone
      rw [hstamped]
      rw [hpk]
      cases hr : r.touched k with
      | false => rw [Bool.or_false]
      | true =>
        rw [hnone hr]
        cases p.touched k <;> rfl
    | some e =>
      obtain ⟨hstamped, hnone⟩ := stamped_of_recorded h.entries hrecorded
      rw [hstamped]
      cases hr : r.touched k with
      | true => rw [Bool.or_true, cond_true]
      | false =>
        rw [hnone hr]
        cases p.touched k <;> cases r.updates <;> rfl

end

def applied (database : AList EntryOf) : (Sigma fun k => Option (GeneralizedLedgerEntry k)) → AList EntryOf
  | ⟨.ledgerKey key, e⟩ => write database key e
  | ⟨.sponsorship _, _⟩ => database
  | ⟨.sponsorshipCounter _, _⟩ => database

theorem applyEntry_eq_ok {consistency : LedgerTxnConsistency} {database database' : AList EntryOf}
    {e : Sigma fun k => Option (GeneralizedLedgerEntry k)}
    (h : Root.applyEntry consistency database e = .ok database') : database' = applied database e := by
  obtain ⟨k, e⟩ := e
  cases k with
  | ledgerKey key =>
    cases e with
    | none =>
      unfold Root.applyEntry at h
      dsimp only at h
      split at h
      · cases h
      · cases h
        rfl
    | some e =>
      cases h
      rfl
  | sponsorship sponsoredID =>
    cases h
    rfl
  | sponsorshipCounter sponsoringID =>
    cases h
    rfl

theorem foldlM_applyEntry {consistency : LedgerTxnConsistency}
    {entries : List (Sigma fun k => Option (GeneralizedLedgerEntry k))} {database database' : AList EntryOf}
    (h : entries.foldlM (Root.applyEntry consistency) database = .ok database') :
    database' = entries.foldl applied database := by
  induction entries generalizing database with
  | nil =>
    cases h
    rfl
  | cons e entries ih =>
    obtain ⟨database₁, happly, h⟩ := bind_eq_ok.mp h
    rw [applyEntry_eq_ok happly] at h
    exact ih h

theorem getNewestVersion_commitChild {root root' : Root} {child : Level} (h : root.commitChild child = .ok root') :
    root'.getNewestVersion = ledgerOnly (child.mEntry.onto root.getNewestVersion) ∧ root'.mHeader = child.mHeader := by
  obtain ⟨database, hfold, h⟩ := bind_eq_ok.mp h
  cases h
  refine ⟨?_, rfl⟩
  rw [foldlM_applyEntry hfold]
  funext k
  cases k with
  | ledgerKey key =>
    have hself (database : AList EntryOf) (e : Option (EntryOf key)) :
        (applied database ⟨.ledgerKey key, e⟩).lookup key = e := lookup_write_self database key e
    have hother (database : AList EntryOf) (e : Sigma fun k => Option (GeneralizedLedgerEntry k))
        (hk : e.1 ≠ .ledgerKey key) : (applied database e).lookup key = database.lookup key := by
      obtain ⟨k, e⟩ := e
      cases k with
      | ledgerKey key' =>
        have hne : key ≠ key' := fun h => hk (congrArg GeneralizedLedgerKey.ledgerKey h.symm)
        exact lookup_write_ne database hne e
      | sponsorship sponsoredID => rfl
      | sponsorshipCounter sponsoringID => rfl
    have hread := read_foldl (k := .ledgerKey key) (fun database : AList EntryOf => database.lookup key)
      (fun _ v => v) hself hother child.mEntry.nodupKeys root.database
    refine hread.trans ?_
    show _ = child.mEntry.onto root.getNewestVersion (.ledgerKey key)
    unfold onto AList.lookup
    cases child.mEntry.entries.dlookup (.ledgerKey key) <;> rfl
  | sponsorship sponsoredID => rfl
  | sponsorshipCounter sponsoringID => rfl

/-! ### The simulation -/

/-- Each level models that of the reference. -/
inductive Simulates (root : Root) : List Level → List Complete → Prop
  | nil : Simulates root [] []
  | cons {l : Level} {rest : List Level} {r : Complete} {rrest : List Complete}
      (h : ModelsLevel (getNewestVersion root rest) l r) (hrest : Simulates root rest rrest) :
    Simulates root (l :: rest) (r :: rrest)

/-- The stack and the reference have the same root, and the levels agree. -/
structure Represents (s : Stack) (ref : Reference) : Prop where
  root : ref.root = s.root.getNewestVersion
  rootHeader : ref.rootHeader = s.root.mHeader
  levels : Simulates s.root s.levels ref.levels

theorem Represents.start (root : Root) : Represents ⟨root, []⟩ root.reference := ⟨rfl, rfl, .nil⟩

theorem Represents.view {s : Stack} {ref : Reference} (h : Represents s ref) : s.view = ref.view := by
  obtain ⟨root, levels⟩ := s
  obtain ⟨rroot, rheader, rlevels⟩ := ref
  obtain ⟨hroot, -, hlevels⟩ := h
  cases hlevels with
  | nil => exact hroot.symm
  | cons h hrest => exact h.entries.entries

theorem Called.models {parent : View} {l l' : Level} {call : LevelCall} {result : Result} {r : Complete}
    (h : Called parent l call result l') (hl : ModelsLevel parent l r) :
    ModelsLevel parent l' (r.call result call) where
  entries := h.mEntry ▸ hl.entries.edit h.answers
  header := by
    rw [h.mHeader, hl.header]
    cases call with
    | loadBestOffer assets =>
      unfold Complete.call
      dsimp only
      split <;> rfl
    | _ => rfl
  updates := by
    rw [h.mShouldUpdateLastModified, hl.updates]
    cases call with
    | loadBestOffer assets =>
      unfold Complete.call
      dsimp only
      split <;> rfl
    | _ => rfl
  unsealed := h.mIsSealed.trans hl.unsealed

theorem Called.answer {parent : View} {l l' : Level} {call : LevelCall} {result answer : Result} {r : Complete}
    (h : Called parent l call result l') (hl : ModelsLevel parent l r) (hanswer : r.answer call = some answer) :
    result = answer := by
  have hgiven := h.answers
  rw [hl.entries.entries] at hgiven
  cases call with
  | load k =>
    cases hanswer
    exact hgiven
  | loadWithoutRecord k =>
    cases hanswer
    exact hgiven
  | _ => cases hanswer

theorem header_sealed (l : Level) : l.sealed.mHeader = l.mHeader := by
  unfold Level.sealed
  split <;> rfl

/-- **One call.** -/
theorem Stepped.represents {root : Root} {levels : List Level} {call : Call} {result : Result} {s : Stack}
    (h : Stepped root levels call result s) {ref : Reference} (href : Represents ⟨root, levels⟩ ref) :
    (∀ answer, ref.answer call = some answer → result = answer) ∧
      Represents s (ref.step handedOver result call) := by
  obtain ⟨rroot, rheader, rlevels⟩ := ref
  obtain ⟨hroot, hrootHeader, hlevels⟩ := href
  subst hroot hrootHeader
  cases h with
  | onLevel hcalled =>
    cases hlevels with
    | cons hl hrest =>
      exact ⟨fun answer hanswer => hcalled.answer hl hanswer, rfl, rfl, .cons (hcalled.models hl) hrest⟩
  | openFirst updates =>
    cases hlevels
    exact ⟨fun _ h => (by cases h), rfl, rfl, .cons ⟨.empty _ _ _, rfl, rfl, rfl⟩ .nil⟩
  | @openChild l rest updates books hunsealed =>
    cases hlevels with
    | cons hl hrest =>
      have hreleased := hl.entries.foldl_rerecord l.mActive.keys
      refine ⟨fun _ h => (by cases h), rfl, rfl,
        .cons ⟨?_, hl.header, rfl, rfl⟩ (.cons ⟨hreleased, hl.header, hl.updates, hl.unsealed⟩ hrest)⟩
      rw [← hreleased.entries]
      exact .empty _ _ _
  | @commit l parent rest books worst =>
    cases hlevels with
    | cons hl hrest =>
      cases hrest with
      | cons hparent hrest =>
        exact ⟨fun _ h => (by cases h), rfl, rfl,
          .cons ⟨hparent.entries.commit hl, (header_sealed l).trans hl.header, hparent.updates, hparent.unsealed⟩ hrest⟩
  | @commitRoot l root' hcommit =>
    cases hlevels with
    | cons hl hrest =>
      cases hrest
      obtain ⟨hentries, hheader⟩ := getNewestVersion_commitChild hcommit
      refine ⟨fun _ h => (by cases h), ?_, ?_, .nil⟩
      · rw [hentries]
        exact congrArg ledgerOnly (over_sealed_eq hl).symm
      · rw [hheader, header_sealed]
        exact hl.header.symm
  | rollback =>
    cases hlevels with
    | cons hl hrest => exact ⟨fun _ h => (by cases h), rfl, rfl, hrest⟩

section
variable {asDouble : Price → ℚ}

theorem run_represents {calls : List Call} {results : List Result} {s s' : Stack} {ref : Reference}
    (hrun : s.run asDouble calls = .ok (results, s')) (href : Represents s ref) :
    ref.Replays handedOver calls results ∧ Represents s' (ref.run handedOver calls results) := by
  induction calls generalizing s ref results with
  | nil =>
    cases hrun
    exact ⟨trivial, href⟩
  | cons call calls ih =>
    obtain ⟨⟨result, s₁⟩, hstep, hrun⟩ := bind_eq_ok.mp hrun
    obtain ⟨⟨results₁, s₂⟩, hrun, h⟩ := bind_eq_ok.mp hrun
    cases h
    obtain ⟨hanswer, href⟩ := (Stack.step_stepped hstep).represents href
    obtain ⟨hreplays, href⟩ := ih hrun href
    exact ⟨⟨hanswer, hreplays⟩, href⟩

/-- **Nested ledger transactions are a stack of complete maps.** Every load gives what the reference
has, and what is visible after the calls is the reference's map. -/
theorem run_replays {root : Root} {calls : List Call} {results : List Result} {s : Stack}
    (hrun : Stack.run asDouble ⟨root, []⟩ calls = .ok (results, s)) :
    root.reference.Replays handedOver calls results ∧
      s.view = (root.reference.run handedOver calls results).view := by
  obtain ⟨hreplays, href⟩ := run_represents hrun (.start root)
  exact ⟨hreplays, href.view⟩

end

def emptyRoot : Root where
  mHeader := ⟨13, 7, 0, 0, 0, 0, 0, 1, 100, 100⟩
  database := ∅

/-- An entry is created in a child and loaded after the child was committed. -/
def loadingCommitted : List Call :=
  [.openChild true, .openChild true, .onLevel (.create (.ledgerKey (.data 1 [])) ⟨0, (⟨[], none⟩ : DataEntry)⟩),
    .commit, .onLevel (.load (.ledgerKey (.data 1 [])))]

def Result.lastModifiedLedgerSeq : Result → Option Nat
  | .entry (.ledgerKey _) (some e) => some e.lastModifiedLedgerSeq
  | _ => none

theorem run_replays_committed : ∃ results s,
    Stack.run (fun _ => 0) ⟨emptyRoot, []⟩ loadingCommitted = .ok (results, s) ∧
      emptyRoot.reference.Replays handedOver loadingCommitted results ∧
      s.view = (emptyRoot.reference.run handedOver loadingCommitted results).view :=
  ⟨_, _, rfl, run_replays (show Stack.run (fun _ => 0) ⟨emptyRoot, []⟩ loadingCommitted = .ok (_, _) from rfl)⟩

/-- A commit does not hand over just the map: the entry has a new sequence number. -/
theorem not_replays_copied : ∃ results s,
    Stack.run (fun _ => 0) ⟨emptyRoot, []⟩ loadingCommitted = .ok (results, s) ∧
      ¬emptyRoot.reference.Replays (fun _ r => r.entries) loadingCommitted results := by
  refine ⟨_, _, rfl, fun hreplays => ?_⟩
  have hload := congrArg Result.lastModifiedLedgerSeq (hreplays.2.2.2.2.1 _ rfl)
  exact absurd (show some 7 = some 0 from hload) (by decide)

end Diamnet.Nested
