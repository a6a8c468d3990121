import Diamnet.Util.Lifecycle
import Diamnet.Util.Outcome

/-! Buckets and their merge (`Bucket.cpp`, `BucketOutputIterator.cpp`).

A bucket holds at most one record for each key, sorted by key, and from protocol 11 on a
metadata entry with the protocol version it was written at. Keys are any linear order
(`BucketEntryIdCmp`), and a bucket stands for its own hash.

Counters, files and the interruption of a merge at shutdown are left out. -/
namespace Diamnet.Buckets
open List

def FIRST_PROTOCOL_SUPPORTING_INITENTRY_AND_METAENTRY : Nat := 11

def FIRST_PROTOCOL_SHADOWS_REMOVED : Nat := 12

/-- What stops a merge, or the work on the list around it. -/
inductive MergeError where
  | unsupportedEntryType
  | exceedsMaxProtocolVersion
  | shadowsNotSupported
  | malformedBucket
  | invalidFutureBucket
  | clearFutureWithOldSnap
  | assertion
deriving DecidableEq

/-- An entry that is not the metadata. -/
structure BucketEntry (K E : Type) where
  key : K
  record : Record E
deriving DecidableEq

/-- A creation is not to be found below protocol 11. -/
def Legal {K E : Type} (version : Nat) (entries : List (BucketEntry K E)) : Prop :=
  ∀ e ∈ entries, e.record.isInit = true → FIRST_PROTOCOL_SUPPORTING_INITENTRY_AND_METAENTRY ≤ version

@[ext] structure Bucket (K E : Type) [LinearOrder K] where
  /-- The version in the metadata entry, if there is one. -/
  metadata : Option Nat
  entries : List (BucketEntry K E)
  sorted : entries.Pairwise fun a b => a.key < b.key
  legal : Legal (metadata.getD 0) entries

variable {K E : Type} [LinearOrder K]

instance [DecidableEq E] : DecidableEq (Bucket K E) := fun a b =>
  decidable_of_iff (a.metadata = b.metadata ∧ a.entries = b.entries)
    ⟨fun h => Bucket.ext h.1 h.2, fun h => h ▸ ⟨rfl, rfl⟩⟩

def recordOf (entries : List (BucketEntry K E)) (k : K) : Option (Record E) :=
  (entries.find? fun e => e.key = k).map (·.record)

namespace Bucket

/-- The bucket without a file, whose hash is zero. -/
def empty : Bucket K E where
  metadata := none
  entries := []
  sorted := .nil
  legal := fun _ h => (nomatch h)

/-- `getBucketVersion`. A bucket without metadata counts as of protocol 0. -/
def version (b : Bucket K E) : Nat := b.metadata.getD 0

/-- Whether the hash is that of the bucket without a file. -/
def isEmpty (b : Bucket K E) : Bool := b.metadata.isNone && b.entries.isEmpty

def find? (b : Bucket K E) (k : K) : Option (Record E) := recordOf b.entries k

end Bucket

/-! ### Writing a bucket -/

structure BucketOutputIterator (K E : Type) [LinearOrder K] where
  keepDeadEntries : Bool
  ledgerVersion : Nat
  /-- The entries put so far, the buffered one first. -/
  buf : List (BucketEntry K E)
  sorted : buf.Pairwise fun a b => b.key < a.key
  legal : Legal ledgerVersion buf

def checkProtocolLegality (entry : BucketEntry K E) (protocolVersion : Nat) : Except MergeError Unit :=
  if protocolVersion < FIRST_PROTOCOL_SUPPORTING_INITENTRY_AND_METAENTRY ∧ entry.record.isInit = true then
    throw .unsupportedEntryType
  else pure ()

namespace BucketOutputIterator

def new (keepDeadEntries : Bool) (ledgerVersion : Nat) : BucketOutputIterator K E where
  keepDeadEntries
  ledgerVersion
  buf := []
  sorted := .nil
  legal := fun _ h => (nomatch h)

def push (out : BucketOutputIterator K E) (e : BucketEntry K E) (buf : List (BucketEntry K E))
    (hbuf : buf.Sublist out.buf) (hlt : ∀ b ∈ buf, b.key < e.key)
    (hlegal : e.record.isInit = true → FIRST_PROTOCOL_SUPPORTING_INITENTRY_AND_METAENTRY ≤ out.ledgerVersion) :
    BucketOutputIterator K E where
  keepDeadEntries := out.keepDeadEntries
  ledgerVersion := out.ledgerVersion
  buf := e :: buf
  sorted := pairwise_cons.mpr ⟨hlt, out.sorted.sublist hbuf⟩
  legal := forall_mem_cons.mpr ⟨hlegal, fun b hb => out.legal b (hbuf.mem hb)⟩

theorem lt_of_mem {out : BucketOutputIterator K E} {b : BucketEntry K E} {rest : List (BucketEntry K E)}
    (hbuf : out.buf = b :: rest) : ∀ a ∈ rest, a.key < b.key := by
  have hsorted := out.sorted
  rw [hbuf] at hsorted
  exact fun a ha => rel_of_pairwise_cons hsorted ha

def put (out : BucketOutputIterator K E) (e : BucketEntry K E) : Except MergeError (BucketOutputIterator K E) :=
  if hlegal : out.ledgerVersion < FIRST_PROTOCOL_SUPPORTING_INITENTRY_AND_METAENTRY ∧ e.record.isInit = true then
    throw .unsupportedEntryType
  else
    have hlegal : e.record.isInit = true → _ := fun h => Nat.not_lt.mp fun hlt => hlegal ⟨hlt, h⟩
    if !out.keepDeadEntries && e.record.isDead then pure out
    else
      match hbuf : out.buf with
      | [] => pure (out.push e [] (nil_sublist _) (fun _ h => (nomatch h)) hlegal)
      | b :: rest =>
        if horder : e.key < b.key then throw .assertion
        else if hflush : b.key < e.key then
          pure (out.push e (b :: rest) (hbuf ▸ Sublist.refl _)
            (forall_mem_cons.mpr ⟨hflush, fun a ha => (lt_of_mem hbuf a ha).trans hflush⟩) hlegal)
        else
          -- the same identity: the entry takes the place of the buffered one
          pure (out.push e rest (hbuf ▸ sublist_cons_self b rest)
            (fun a ha => (lt_of_mem hbuf a ha).trans_le (not_lt.mp horder)) hlegal)

/-- The metadata is written from protocol 11 on; without it and without entries there is
no file. -/
def getBucket (out : BucketOutputIterator K E) : Bucket K E where
  metadata :=
    if FIRST_PROTOCOL_SUPPORTING_INITENTRY_AND_METAENTRY ≤ out.ledgerVersion then some out.ledgerVersion else none
  entries := out.buf.reverse
  sorted := pairwise_reverse.mpr out.sorted
  legal := by
    intro e he hinit
    have hversion := out.legal e (mem_reverse.mp he) hinit
    rwa [if_pos hversion]

end BucketOutputIterator

/-- The entries a ledger adds, changes and deletes. -/
structure Batch (K E : Type) where
  initEntries : List (K × E)
  liveEntries : List (K × E)
  deadEntries : List K

/-- The entries of a batch. Creations are told from updates from protocol 11 on. -/
def Batch.entries (protocolVersion : Nat) (batch : Batch K E) : List (BucketEntry K E) :=
  let useInit := decide (FIRST_PROTOCOL_SUPPORTING_INITENTRY_AND_METAENTRY ≤ protocolVersion)
  batch.initEntries.map (fun e => ⟨e.1, if useInit then .init e.2 else .live e.2⟩) ++
    batch.liveEntries.map (fun e => ⟨e.1, .live e.2⟩) ++ batch.deadEntries.map (fun k => ⟨k, .dead⟩)

/-- Two entries of one key are an error of the caller. -/
def convertToBucketEntry (protocolVersion : Nat) (batch : Batch K E) : Except MergeError (List (BucketEntry K E)) :=
  let bucket := (batch.entries protocolVersion).insertionSort fun a b => a.key ≤ b.key
  if ¬bucket.IsChain (fun a b : BucketEntry K E => a.key < b.key) then throw .assertion else pure bucket

def Bucket.fresh (protocolVersion : Nat) (batch : Batch K E) : Except MergeError (Bucket K E) := do
  let entries ← convertToBucketEntry protocolVersion batch
  let out ← entries.foldlM BucketOutputIterator.put (.new true protocolVersion)
  return out.getBucket

/-! ### Merging buckets -/

/-- Step the iterators over the shadows forward to a key, until one of them has it. -/
def scanShadows (key : K) : List (List (BucketEntry K E)) → List (List (BucketEntry K E)) × Bool
  | [] => ([], false)
  | si :: rest =>
    let si := si.dropWhile fun e => e.key < key
    if si.head?.any (fun e => e.key = key) then (si :: rest, true)
    else
      let (rest, shadowed) := scanShadows key rest
      (si :: rest, shadowed)

/-- Put an entry unless it is shadowed. The creations and deletions of merges from
protocol 11 on are never shadowed out. -/
def maybePut (out : BucketOutputIterator K E) (entry : BucketEntry K E)
    (shadows : List (List (BucketEntry K E))) (keepShadowedLifecycleEntries : Bool) :
    Except MergeError (BucketOutputIterator K E × List (List (BucketEntry K E))) :=
  if keepShadowedLifecycleEntries && !entry.record.isLive then do
    return (← out.put entry, shadows)
  else
    let (shadows, shadowed) := scanShadows entry.key shadows
    if shadowed then pure (out, shadows) else do return (← out.put entry, shadows)

/-- A shadow counts only if it still is of a protocol with shadows. -/
def raiseVersion (version : Nat) (si : Bucket K E) : Nat :=
  if si.version < FIRST_PROTOCOL_SHADOWS_REMOVED then max si.version version else version

/-- The protocol of a merge: the highest of its inputs and of the shadows that count. -/
def mergeProtocolVersion (old new : Bucket K E) (shadows : List (Bucket K E)) : Nat :=
  shadows.foldl raiseVersion (max old.version new.version)

def calculateMergeProtocolVersion (maxProtocolVersion : Nat) (old new : Bucket K E) (shadows : List (Bucket K E)) :
    Except MergeError Nat :=
  let protocolVersion := mergeProtocolVersion old new shadows
  if protocolVersion > maxProtocolVersion then throw .exceedsMaxProtocolVersion
  else if ¬protocolVersion < FIRST_PROTOCOL_SHADOWS_REMOVED ∧ shadows ≠ [] then throw .shadowsNotSupported
  else pure protocolVersion

/-- Whether a merge of this version keeps shadowed creations and deletions. -/
def keepsShadowedLifecycleEntries (protocolVersion : Nat) : Bool :=
  decide (FIRST_PROTOCOL_SUPPORTING_INITENTRY_AND_METAENTRY ≤ protocolVersion)

def acceptEntry (protocolVersion : Nat) (entry : BucketEntry K E) (shadows : List (List (BucketEntry K E)))
    (out : BucketOutputIterator K E) :
    Except MergeError (BucketOutputIterator K E × List (List (BucketEntry K E))) := do
  checkProtocolLegality entry protocolVersion
  maybePut out entry shadows (keepsShadowedLifecycleEntries protocolVersion)

def mergeCasesWithEqualKeys (protocolVersion : Nat) (old new : BucketEntry K E)
    (shadows : List (List (BucketEntry K E))) (out : BucketOutputIterator K E) :
    Except MergeError (BucketOutputIterator K E × List (List (BucketEntry K E))) := do
  checkProtocolLegality old protocolVersion
  checkProtocolLegality new protocolVersion
  match Record.combine (some old.record) (some new.record) with
  | none => throw .malformedBucket
  | some none => pure (out, shadows)
  | some (some r) => maybePut out ⟨new.key, r⟩ shadows (keepsShadowedLifecycleEntries protocolVersion)

/-- The loop over both buckets; each turn takes at least one entry. -/
def mergeLoop (protocolVersion : Nat) : Nat → (old new : List (BucketEntry K E)) →
    List (List (BucketEntry K E)) → BucketOutputIterator K E → Except MergeError (BucketOutputIterator K E)
  | 0, _, _, _, out => pure out
  | _ + 1, [], [], _, out => pure out
  | n + 1, o :: os, [], shadows, out => do
    let (out, shadows) ← acceptEntry protocolVersion o shadows out
    mergeLoop protocolVersion n os [] shadows out
  | n + 1, [], w :: ws, shadows, out => do
    let (out, shadows) ← acceptEntry protocolVersion w shadows out
    mergeLoop protocolVersion n [] ws shadows out
  | n + 1, o :: os, w :: ws, shadows, out =>
    if o.key < w.key then do
      let (out, shadows) ← acceptEntry protocolVersion o shadows out
      mergeLoop protocolVersion n os (w :: ws) shadows out
    else if w.key < o.key then do
      let (out, shadows) ← acceptEntry protocolVersion w shadows out
      mergeLoop protocolVersion n (o :: os) ws shadows out
    else do
      let (out, shadows) ← mergeCasesWithEqualKeys protocolVersion o w shadows out
      mergeLoop protocolVersion n os ws shadows out

def Bucket.merge (maxProtocolVersion : Nat) (old new : Bucket K E) (shadows : List (Bucket K E))
    (keepDeadEntries : Bool) : Except MergeError (Bucket K E) := do
  let protocolVersion ← calculateMergeProtocolVersion maxProtocolVersion old new shadows
  let out ← mergeLoop protocolVersion (old.entries.length + new.entries.length) old.entries new.entries
    (shadows.map (·.entries)) (.new keepDeadEntries protocolVersion)
  return out.getBucket

/-! ### What the entries say of a key -/

@[simp] theorem recordOf_nil (k : K) : recordOf ([] : List (BucketEntry K E)) k = none := rfl

theorem recordOf_cons (e : BucketEntry K E) (l : List (BucketEntry K E)) (k : K) :
    recordOf (e :: l) k = if e.key = k then some e.record else recordOf l k := by
  unfold recordOf
  by_cases h : e.key = k
  · rw [find?_cons_of_pos (by simpa using h), if_pos h]
    rfl
  · rw [find?_cons_of_neg (by simpa using h), if_neg h]

variable {l : List (BucketEntry K E)} {k : K}

theorem recordOf_eq_none (h : ∀ e ∈ l, e.key ≠ k) : recordOf l k = none := by
  unfold recordOf
  rw [find?_eq_none.mpr (by simpa using h)]
  rfl

theorem exists_of_recordOf {r : Record E} (h : recordOf l k = some r) : ∃ e ∈ l, e.key = k ∧ e.record = r := by
  obtain ⟨e, he, rfl⟩ := Option.map_eq_some_iff.mp h
  exact ⟨e, mem_of_find?_eq_some he, by simpa using find?_some he, rfl⟩

theorem recordOf_of_mem (hl : l.Pairwise fun a b => a.key ≠ b.key) {e : BucketEntry K E} (he : e ∈ l) :
    recordOf l e.key = some e.record := by
  induction l with
  | nil => cases he
  | cons a l ih =>
    obtain ⟨ha, hl⟩ := pairwise_cons.mp hl
    rw [recordOf_cons]
    rcases mem_cons.mp he with rfl | he
    · rw [if_pos rfl]
    · rw [if_neg (ha e he), ih hl he]

theorem recordOf_perm {l' : List (BucketEntry K E)} (hl : l.Pairwise fun a b => a.key ≠ b.key) (h : l.Perm l')
    (k : K) : recordOf l k = recordOf l' k := by
  have hl' : l'.Pairwise fun a b => a.key ≠ b.key := (h.pairwise_iff fun hab => Ne.symm hab).mp hl
  cases hr : recordOf l k with
  | none =>
    refine (recordOf_eq_none fun e he hk => ?_).symm
    rw [← hk, recordOf_of_mem hl (h.mem_iff.mpr he)] at hr
    cases hr
  | some r =>
    obtain ⟨e, he, rfl, rfl⟩ := exists_of_recordOf hr
    exact (recordOf_of_mem hl' (h.mem_iff.mp he)).symm

theorem Bucket.legal_find {b : Bucket K E} {r : Record E} (h : b.find? k = some r) (hr : r.isInit = true) :
    FIRST_PROTOCOL_SUPPORTING_INITENTRY_AND_METAENTRY ≤ b.version := by
  obtain ⟨e, he, -, rfl⟩ := exists_of_recordOf h
  exact b.legal e he hr

@[simp] theorem Bucket.find?_empty (k : K) : (Bucket.empty : Bucket K E).find? k = none := rfl

end Diamnet.Buckets
