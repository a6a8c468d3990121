import Diamnet.Nested.Stack

/-! What calls record.

Whatever else a call does, what it does to the recorded entries is one of a few edits (`edit`), and
the fields beside them and the books change in few ways (`Called`). The results on what is visible
and on what a level reports as changed need no more than that. -/
namespace Diamnet.Nested
open Ledger LevelCall

def rerecord (parent : View) (m : EntryMap) (k : GeneralizedLedgerKey) : EntryMap :=
  match m.lookup k with
  | none => m
  | some e => m.put parent k e

namespace LevelCall

/-- What a call that gave the result makes of the recorded entries. -/
def edit (parent : View) (m : EntryMap) (result : Result) : LevelCall → EntryMap
  | .create k e => m.put parent k (some e)
  | .createOrUpdateWithoutLoading k e => m.put parent k (some e)
  | .modify k e => m.put parent k (some e)
  | .load k => match m.onto parent k with
    | none => m
    | some e => m.put parent k (some e)
  | .loadWithoutRecord k => match m.onto parent k with
    | none => m
    | some _ => rerecord parent m k
  | .deactivate k => rerecord parent m k
  | .erase k => m.put parent k none
  | .eraseWithoutLoading k => m.insert k none
  | .loadBestOffer _ => match result with
    | .offer (some offer) => m.put parent (offerKey offer.1) (some offer.2)
    | _ => m
  | _ => m

def Answers (view : View) (result : Result) : LevelCall → Prop
  | .load k => result = .entry k (view k)
  | .loadWithoutRecord k => result = .entry k (view k)
  | .loadBestOffer _ => ∀ offer, result = .offer (some offer) → view (offerKey offer.1) = some offer.2
  | _ => True

def header (old : LedgerHeader) : LevelCall → LedgerHeader
  | .modifyHeader header => header
  | _ => old

def consistency (old : LedgerTxnConsistency) : LevelCall → LedgerTxnConsistency
  | .eraseWithoutLoading _ => .extraDeletes
  | _ => old

end LevelCall

/-- What a call does to a level, the books and the handles apart. -/
structure Called (parent : View) (l : Level) (call : LevelCall) (result : Result) (l' : Level) : Prop where
  mEntry : l'.mEntry = call.edit parent l.mEntry result
  answers : call.Answers (l.mEntry.onto parent) result
  mHeader : l'.mHeader = call.header l.mHeader
  mConsistency : l'.mConsistency = call.consistency l.mConsistency
  mShouldUpdateLastModified : l'.mShouldUpdateLastModified = l.mShouldUpdateLastModified
  mIsSealed : l'.mIsSealed = l.mIsSealed

section
variable {asDouble : Price → ℚ} {parent : View} {root : Root} {rest : List Level} {l l' : Level}

theorem updateEntryIfRecorded_eq (k : GeneralizedLedgerKey) (active : Bool) :
    l.updateEntryIfRecorded asDouble parent k active = { l with
      mEntry := rerecord parent l.mEntry k
      mMultiOrderBook := (l.updateEntryIfRecorded asDouble parent k active).mMultiOrderBook } := by
  unfold Level.updateEntryIfRecorded rerecord
  cases l.mEntry.lookup k <;> rfl

theorem updateWorstBestOffer_eq (assets : AssetPair) (desc : Option OfferDescriptor) :
    l.updateWorstBestOffer asDouble assets desc =
      { l with mWorstBestOffer := (l.updateWorstBestOffer asDouble assets desc).mWorstBestOffer } := by
  unfold Level.updateWorstBestOffer
  cases l.mWorstBestOffer.lookup assets with
  | none => rfl
  | some worst =>
    dsimp only
    split <;> rfl

theorem throwIfSealed_eq_ok (h : l.throwIfSealed = .ok ()) : l.mIsSealed = false := by
  unfold Level.throwIfSealed at h
  split at h
  · cases h
  · next hsealed => exact Bool.eq_false_iff.mpr hsealed

variable {k : GeneralizedLedgerKey} {e : GeneralizedLedgerEntry k} {found : Option (GeneralizedLedgerEntry k)}

theorem Called.create (h : l.create asDouble parent k e = .ok l') : Called parent l (.create k e) .done l' := by
  obtain ⟨-, -, h⟩ := bind_eq_ok.mp h
  split at h
  · cases h
  · cases h
    exact ⟨rfl, trivial, rfl, rfl, rfl, rfl⟩

theorem Called.createOrUpdateWithoutLoading (h : l.createOrUpdateWithoutLoading asDouble parent k e = .ok l') :
    Called parent l (.createOrUpdateWithoutLoading k e) .done l' := by
  obtain ⟨-, -, h⟩ := bind_eq_ok.mp h
  split at h
  · cases h
  · cases h
    exact ⟨rfl, trivial, rfl, rfl, rfl, rfl⟩

theorem Called.modify (h : l.modify k e = .ok l') : Called parent l (.modify k e) .done l' := by
  unfold Level.modify at h
  split at h
  · cases h
    exact ⟨rfl, trivial, rfl, rfl, rfl, rfl⟩
  · cases h

theorem Called.deactivate (h : l.deactivate asDouble parent k = .ok l') : Called parent l (.deactivate k) .done l' := by
  unfold Level.deactivate at h
  split at h
  · cases h
  · rw [updateEntryIfRecorded_eq] at h
    cases h
    exact ⟨rfl, trivial, rfl, rfl, rfl, rfl⟩

theorem Called.erase (h : l.erase asDouble parent k = .ok l') : Called parent l (.erase k) .done l' := by
  obtain ⟨-, -, h⟩ := bind_eq_ok.mp h
  split at h
  · cases h
  · cases h
    exact ⟨rfl, trivial, rfl, rfl, rfl, rfl⟩

theorem Called.eraseWithoutLoading (h : l.eraseWithoutLoading asDouble k = .ok l') :
    Called parent l (.eraseWithoutLoading k) .done l' := by
  obtain ⟨-, -, h⟩ := bind_eq_ok.mp h
  cases h
  exact ⟨rfl, trivial, rfl, rfl, rfl, rfl⟩

theorem Called.load (h : l.load asDouble parent k = .ok (found, l')) : Called parent l (.load k) (.entry k found) l' := by
  obtain ⟨-, -, h⟩ := bind_eq_ok.mp h
  split at h
  · cases h
  · unfold Level.getNewestVersion at h
    cases hview : l.mEntry.onto parent k with
    | none =>
      rw [hview] at h
      cases h
      refine ⟨?_, congrArg _ hview.symm, rfl, rfl, rfl, rfl⟩
      rw [edit, hview]
    | some newest =>
      rw [hview] at h
      cases h
      refine ⟨?_, congrArg _ hview.symm, rfl, rfl, rfl, rfl⟩
      rw [edit, hview]
      rfl

theorem Called.loadWithoutRecord (h : l.loadWithoutRecord asDouble parent k = .ok (found, l')) :
    Called parent l (.loadWithoutRecord k) (.entry k found) l' := by
  obtain ⟨-, -, h⟩ := bind_eq_ok.mp h
  split at h
  · cases h
  · unfold Level.getNewestVersion at h
    cases hview : l.mEntry.onto parent k with
    | none =>
      rw [hview] at h
      cases h
      refine ⟨?_, congrArg _ hview.symm, rfl, rfl, rfl, rfl⟩
      rw [edit, hview]
    | some newest =>
      rw [hview] at h
      dsimp only at h
      rw [updateEntryIfRecorded_eq] at h
      cases h
      refine ⟨?_, congrArg _ hview.symm, rfl, rfl, rfl, rfl⟩
      rw [edit, hview]

theorem Called.loadBestOffer {assets : AssetPair} {offer : Option (Sigma OfferOf)}
    (h : loadBestOffer asDouble root rest l assets = .ok (offer, l')) :
    Called (getNewestVersion root rest) l (.loadBestOffer assets) (.offer offer) l' := by
  obtain ⟨-, -, h⟩ := bind_eq_ok.mp h
  obtain ⟨le, -, h⟩ := bind_eq_ok.mp h
  cases le with
  | none =>
    rw [updateWorstBestOffer_eq] at h
    cases h
    exact ⟨rfl, fun _ hoffer => (by cases hoffer), rfl, rfl, rfl, rfl⟩
  | some le =>
    obtain ⟨⟨found, l₁⟩, hload, h⟩ := bind_eq_ok.mp h
    have hcalled := Called.load hload
    dsimp only at h
    rw [updateWorstBestOffer_eq] at h
    cases h
    obtain ⟨hentry, hanswers, hheader, hconsistency, hupdates, hsealed⟩ := hcalled
    obtain rfl : found = l.mEntry.onto (getNewestVersion root rest) (offerKey le.1) := by
      cases hanswers
      rfl
    refine ⟨?_, ?_, hheader, hconsistency, hupdates, hsealed⟩
    · cases hview : l.mEntry.onto (getNewestVersion root rest) (offerKey le.1) with
      | none =>
        rw [hentry, edit, hview]
        rfl
      | some e =>
        rw [hentry, edit, hview]
        rfl
    · intro offer hoffer
      cases hview : l.mEntry.onto (getNewestVersion root rest) (offerKey le.1) with
      | none =>
        rw [hview] at hoffer
        cases hoffer
      | some e =>
        rw [hview] at hoffer
        cases hoffer
        exact hview

/-- **What a call does to a level.** -/
theorem Level.call_called {call : LevelCall} {result : Result} (h : l.call asDouble root rest call = .ok (result, l')) :
    Called (Nested.getNewestVersion root rest) l call result l' := by
  cases call with
  | create k e =>
    obtain ⟨l₁, hcall, h⟩ := bind_eq_ok.mp h
    cases h
    exact .create hcall
  | createOrUpdateWithoutLoading k e =>
    obtain ⟨l₁, hcall, h⟩ := bind_eq_ok.mp h
    cases h
    exact .createOrUpdateWithoutLoading hcall
  | load k =>
    obtain ⟨⟨found, l₁⟩, hcall, h⟩ := bind_eq_ok.mp h
    cases h
    exact .load hcall
  | loadWithoutRecord k =>
    obtain ⟨⟨found, l₁⟩, hcall, h⟩ := bind_eq_ok.mp h
    cases h
    exact .loadWithoutRecord hcall
  | modify k e =>
    obtain ⟨l₁, hcall, h⟩ := bind_eq_ok.mp h
    cases h
    exact .modify hcall
  | deactivate k =>
    obtain ⟨l₁, hcall, h⟩ := bind_eq_ok.mp h
    cases h
    exact .deactivate hcall
  | erase k =>
    obtain ⟨l₁, hcall, h⟩ := bind_eq_ok.mp h
    cases h
    exact .erase hcall
  | eraseWithoutLoading k =>
    obtain ⟨l₁, hcall, h⟩ := bind_eq_ok.mp h
    cases h
    exact .eraseWithoutLoading hcall
  | loadHeader =>
    obtain ⟨l₁, hcall, h⟩ := bind_eq_ok.mp h
    obtain ⟨-, -, hcall⟩ := bind_eq_ok.mp hcall
    split at hcall
    · cases hcall
    · cases hcall
      cases h
      exact ⟨rfl, trivial, rfl, rfl, rfl, rfl⟩
  | modifyHeader header =>
    obtain ⟨l₁, hcall, h⟩ := bind_eq_ok.mp h
    unfold Level.modifyHeader at hcall
    split at hcall
    · cases hcall
      cases h
      exact ⟨rfl, trivial, rfl, rfl, rfl, rfl⟩
    · cases hcall
  | deactivateHeader =>
    obtain ⟨l₁, hcall, h⟩ := bind_eq_ok.mp h
    unfold Level.deactivateHeader at hcall
    split at hcall
    · cases hcall
      cases h
      exact ⟨rfl, trivial, rfl, rfl, rfl, rfl⟩
    · cases hcall
  | getBestOffer assets worseThan =>
    obtain ⟨offer, -, h⟩ := bind_eq_ok.mp h
    cases h
    exact ⟨rfl, trivial, rfl, rfl, rfl, rfl⟩
  | loadBestOffer assets =>
    obtain ⟨⟨offer, l₁⟩, hcall, h⟩ := bind_eq_ok.mp h
    cases h
    exact .loadBestOffer hcall

/-! ### What is visible and what is recorded -/

theorem over_rerecord (m : EntryMap) (k : GeneralizedLedgerKey) : (rerecord parent m k).onto parent = m.onto parent := by
  unfold rerecord
  cases hrecorded : m.lookup k with
  | none => rfl
  | some e =>
    have hk : m.onto parent k = e := Overlay.over_of_lookup hrecorded
    rw [Overlay.over_put, ← hk, Function.update_eq_self]

theorem tight_rerecord {m : EntryMap} (h : m.Tight parent) (k : GeneralizedLedgerKey) :
    (rerecord parent m k).Tight parent := by
  unfold rerecord
  cases m.lookup k with
  | none => exact h
  | some e => exact h.put k e

end

/-! ### Children -/

section
variable (asDouble : Price → ℚ) (parent : View)

theorem foldl_updateEntryIfRecorded (keys : List GeneralizedLedgerKey) (l : Level) : ∃ books,
    keys.foldl (fun l k => l.updateEntryIfRecorded asDouble parent k false) l =
      { l with mEntry := keys.foldl (rerecord parent) l.mEntry, mMultiOrderBook := books } := by
  induction keys generalizing l with
  | nil => exact ⟨l.mMultiOrderBook, rfl⟩
  | cons k keys ih =>
    rw [List.foldl_cons, updateEntryIfRecorded_eq]
    exact ih _

theorem foldl_updateEntry (entries : List (Sigma fun k => Option (GeneralizedLedgerEntry k))) (l : Level) : ∃ books,
    entries.foldl (fun l e => l.updateEntry asDouble parent e.1 e.2) l = { l with
      mEntry := entries.foldl (fun m e => m.put parent e.1 e.2) l.mEntry
      mMultiOrderBook := books } := by
  induction entries generalizing l with
  | nil => exact ⟨l.mMultiOrderBook, rfl⟩
  | cons e entries ih => exact ih _

theorem foldl_updateWorstBestOffer (bounds : List (Sigma fun _ : AssetPair => Option OfferDescriptor)) (l : Level) :
    ∃ worst, bounds.foldl (fun l e => l.updateWorstBestOffer asDouble e.1 e.2) l = { l with mWorstBestOffer := worst } := by
  induction bounds generalizing l with
  | nil => exact ⟨l.mWorstBestOffer, rfl⟩
  | cons e bounds ih =>
    rw [List.foldl_cons, updateWorstBestOffer_eq]
    exact ih _

def Level.released (l : Level) : EntryMap := l.mActive.keys.foldl (rerecord parent) l.mEntry

variable {asDouble parent} {l l' : Level}

theorem addChild_eq (h : l.addChild asDouble parent = .ok l') : l.mIsSealed = false ∧ ∃ books, l' = { l with
    mEntry := l.released parent, mMultiOrderBook := books, mActive := ∅, mActiveHeader := false } := by
  obtain ⟨_, hsealed, h⟩ := bind_eq_ok.mp h
  obtain ⟨books, hbooks⟩ := foldl_updateEntryIfRecorded asDouble parent l.mActive.keys l
  rw [hbooks] at h
  cases h
  exact ⟨throwIfSealed_eq_ok hsealed, books, rfl⟩

theorem commitChild_eq (l child : Level) : ∃ books worst, l.commitChild asDouble parent child = { l with
    mEntry := l.mEntry.putAll parent child.mEntry
    mHeader := child.mHeader
    mConsistency := joinConsistencyLevels l.mConsistency child.mConsistency
    mMultiOrderBook := books
    mWorstBestOffer := worst } := by
  obtain ⟨books, hbooks⟩ := foldl_updateEntry asDouble parent child.mEntry.entries
    { l with mConsistency := joinConsistencyLevels l.mConsistency child.mConsistency }
  obtain ⟨worst, hworst⟩ := foldl_updateWorstBestOffer asDouble child.mWorstBestOffer.entries
    { l with
      mEntry := l.mEntry.putAll parent child.mEntry
      mConsistency := joinConsistencyLevels l.mConsistency child.mConsistency
      mMultiOrderBook := books }
  refine ⟨books, worst, ?_⟩
  unfold Level.commitChild
  dsimp only
  rw [hbooks]
  exact congrArg (fun l : Level => { l with mHeader := child.mHeader }) hworst

end

/-! ### Steps -/

/-- What a call does to a stack, the books apart. -/
inductive Stepped (root : Root) : List Level → Call → Result → Stack → Prop
  | onLevel {l l' : Level} {rest : List Level} {call : LevelCall} {result : Result}
      (h : Called (getNewestVersion root rest) l call result l') :
    Stepped root (l :: rest) (.onLevel call) result ⟨root, l' :: rest⟩
  | openFirst (updates : Bool) :
    Stepped root [] (.openChild updates) .done
      ⟨root, [{ mHeader := root.mHeader, mShouldUpdateLastModified := updates }]⟩
  | openChild {l : Level} {rest : List Level} (updates : Bool) (books : MultiOrderBook) (h : l.mIsSealed = false) :
    Stepped root (l :: rest) (.openChild updates) .done
      ⟨root, { mHeader := l.mHeader, mShouldUpdateLastModified := updates } ::
        { l with
          mEntry := l.released (getNewestVersion root rest)
          mMultiOrderBook := books
          mActive := ∅
          mActiveHeader := false } :: rest⟩
  | commit {l parent : Level} {rest : List Level} (books : MultiOrderBook)
      (worst : Table AssetPair (Option OfferDescriptor)) :
    Stepped root (l :: parent :: rest) .commit .done
      ⟨root, { parent with
        mEntry := parent.mEntry.putAll (getNewestVersion root rest) l.sealed.mEntry
        mHeader := l.sealed.mHeader
        mConsistency := joinConsistencyLevels parent.mConsistency l.sealed.mConsistency
        mMultiOrderBook := books
        mWorstBestOffer := worst } :: rest⟩
  | commitRoot {l : Level} {root' : Root} (h : root.commitChild l.sealed = .ok root') :
    Stepped root [l] .commit .done ⟨root', []⟩
  | rollback {l : Level} {rest : List Level} : Stepped root (l :: rest) .rollback .done ⟨root, rest⟩

/-- **What a call does to a stack.** -/
theorem Stack.step_stepped {asDouble : Price → ℚ} {s s' : Stack} {call : Call} {result : Result}
    (h : s.step asDouble call = .ok (result, s')) : Stepped s.root s.levels call result s' := by
  obtain ⟨root, levels⟩ := s
  cases call with
  | onLevel call =>
    cases levels with
    | nil => cases h
    | cons l rest =>
      obtain ⟨⟨result, l'⟩, hcall, h⟩ := bind_eq_ok.mp h
      cases h
      exact .onLevel (Level.call_called hcall)
  | openChild updates =>
    obtain ⟨s₁, hopen, h⟩ := bind_eq_ok.mp h
    cases h
    cases levels with
    | nil =>
      cases hopen
      exact .openFirst updates
    | cons l rest =>
      obtain ⟨l', hadd, hopen⟩ := bind_eq_ok.mp hopen
      obtain ⟨hsealed, books, rfl⟩ := addChild_eq hadd
      cases hopen
      exact .openChild updates books hsealed
  | commit =>
    obtain ⟨s₁, hcommit, h⟩ := bind_eq_ok.mp h
    cases h
    cases levels with
    | nil => cases hcommit
    | cons l levels =>
      cases levels with
      | nil =>
        obtain ⟨root', hroot, hcommit⟩ := bind_eq_ok.mp hcommit
        cases hcommit
        exact .commitRoot hroot
      | cons parent rest =>
        obtain ⟨books, worst, hparent⟩ := commitChild_eq parent l.sealed
        unfold Stack.commit at hcommit
        dsimp only at hcommit
        rw [hparent] at hcommit
        cases hcommit
        exact .commit books worst
  | rollback =>
    obtain ⟨s₁, hrollback, h⟩ := bind_eq_ok.mp h
    cases h
    cases levels with
    | nil => cases hrollback
    | cons l rest =>
      cases hrollback
      exact .rollback

end Diamnet.Nested
