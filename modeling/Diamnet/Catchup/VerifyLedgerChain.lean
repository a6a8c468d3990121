import Diamnet.Ledger.Entries
import Diamnet.Util.Consecutive
import Diamnet.Util.Outcome

/-! Verifying a chain of downloaded ledger headers (`VerifyLedgerChainWork.cpp`).

The headers of a range of ledgers come in one file per checkpoint. The files are
verified from the highest checkpoint down, each is scanned forward, and the hash and
number that the next lower file has to end with are carried between the scans. The
archive the files come from is not trusted: a file may be missing, end early, start
late, or hold records that are not headers.

`verified_iff` says what a run that succeeds has shown: everything that it should have,
if and only if the file of the lowest checkpoint has the header of the range's first ledger. -/
namespace Diamnet.Catchup
open List
open Ledger (Hash)

/-! ### Headers, ranges and files -/

/-- What is read of a header; `contents` stands for its other fields, which are only hashed. -/
structure LedgerHeader where
  ledgerVersion : UInt32 := 0
  previousLedgerHash : Hash := 0
  ledgerSeq : UInt32 := 0
  contents : Nat := 0
deriving DecidableEq

structure LedgerHeaderHistoryEntry where
  hash : Hash := 0
  header : LedgerHeader := {}
deriving DecidableEq

abbrev LedgerHeaderHistoryEntry.seq (e : LedgerHeaderHistoryEntry) : UInt32 := e.header.ledgerSeq

abbrev LedgerNumHashPair := UInt32 × Option Hash

/-- A half-open range of ledgers. It cannot represent ranges that include the last
`uint32`, and only an empty one starts at zero. -/
structure LedgerRange where
  first : UInt32
  count : UInt32
  pos : count ≠ 0 → 0 < first
  representable : first.toNat + count.toNat < 2 ^ 32

namespace LedgerRange

def limit (r : LedgerRange) : UInt32 := r.first + r.count

/-- The inclusive limit, meaningful only of a range that is not empty. -/
def last (r : LedgerRange) : UInt32 := r.limit - 1

def Contains (r : LedgerRange) (s : UInt32) : Prop := r.first ≤ s ∧ s < r.limit

instance (r : LedgerRange) (s : UInt32) : Decidable (r.Contains s) :=
  inferInstanceAs (Decidable (r.first ≤ s ∧ s < r.limit))

end LedgerRange

/-- A record of a file: a header, or bytes that are not one. -/
inductive Record where
  | entry (e : LedgerHeaderHistoryEntry)
  | malformed
deriving DecidableEq

def CURRENT_LEDGER_PROTOCOL_VERSION : UInt32 := 15

def getCheckpointFrequency (accelerated : Bool) : UInt32 := if accelerated then 8 else 64

def checkpointContainingLedger (accelerated : Bool) (ledger : UInt32) : UInt32 :=
  ((ledger / getCheckpointFrequency accelerated) + 1) * getCheckpointFrequency accelerated - 1

def GENESIS_LEDGER_SEQ : UInt32 := 1

/-- What the work is given: the hash of a header, the range, the last closed ledger, the
pair to trust once it is known, and the downloaded files by checkpoint. -/
structure Job where
  sha256 : LedgerHeader → Hash
  accelerated : Bool
  range : LedgerRange
  lastClosed : UInt32 × Hash
  atOrAfterGenesis : GENESIS_LEDGER_SEQ ≤ lastClosed.1
  trustedMaxLedger : Option LedgerNumHashPair
  files : UInt32 → Option (List Record)

/-- Why a checkpoint is not verified: a status, or an exception. -/
inductive Stop where
  | badHash
  | badLedgerVersion
  | overshot
  | undershot
  | missingEntries
  | fileSystem
  | malformed
  | assertion
  | undershotRange
deriving DecidableEq

namespace Job
variable (job : Job)

/-! ### One checkpoint -/

def verifyLedgerHistoryEntry (hhe : LedgerHeaderHistoryEntry) : Except Stop Unit :=
  if job.sha256 hhe.header ≠ hhe.hash then throw .badHash else pure ()

def verifyLedgerHistoryLink (prev : Hash) (curr : LedgerHeaderHistoryEntry) : Except Stop Unit := do
  job.verifyLedgerHistoryEntry curr
  if prev ≠ curr.header.previousLedgerHash then throw .badHash else pure ()

def verifyLastLedgerInCheckpoint (ledger : LedgerHeaderHistoryEntry) (verifiedAhead : LedgerNumHashPair) :
    Except Stop Unit :=
  if ledger.seq ≠ verifiedAhead.1 then throw .assertion
  else
    match verifiedAhead.2 with
    | none => pure ()
    | some trustedHash => if ledger.hash ≠ trustedHash then throw .badHash else pure ()

/-- The comparison with the last closed ledger, at its number and the one after it. -/
def verifyLastClosed (curr : LedgerHeaderHistoryEntry) : Except Stop Unit :=
  if curr.seq = job.lastClosed.1 then
    if job.sha256 curr.header ≠ job.lastClosed.2 then throw .badHash else pure ()
  else if curr.seq = job.lastClosed.1 + 1 then job.verifyLedgerHistoryLink job.lastClosed.2 curr
  else pure ()

/-- Where a scan is: the first header of the file and the last one read (both as they are
constructed until one is), and every header read, in order. -/
structure Scan where
  beginCheckpoint : Bool := true
  first : LedgerHeaderHistoryEntry := {}
  curr : LedgerHeaderHistoryEntry := {}
  read : List LedgerHeaderHistoryEntry := []

/-- The comparison with the header before it in the file. -/
def verifyNext (scan : Scan) (curr : LedgerHeaderHistoryEntry) : Except Stop Unit :=
  if scan.beginCheckpoint then job.verifyLedgerHistoryEntry curr
  else if curr.seq < scan.curr.seq + 1 then throw .undershot
  else if curr.seq > scan.curr.seq + 1 then throw .overshot
  else job.verifyLedgerHistoryLink scan.curr.hash curr

def Scan.advance (scan : Scan) (curr : LedgerHeaderHistoryEntry) : Scan where
  beginCheckpoint := false
  first := if scan.beginCheckpoint then curr else scan.first
  curr := curr
  read := scan.read ++ [curr]

def verifyHeader (scan : Scan) (curr : LedgerHeaderHistoryEntry) : Except Stop Unit :=
  if curr.header.ledgerVersion > CURRENT_LEDGER_PROTOCOL_VERSION then throw .badLedgerVersion
  else do
    job.verifyLastClosed curr
    job.verifyNext scan curr

/-- The loop over the records of a file. It ends early once the range is covered. -/
def scanFile : List Record → Scan → Except Stop Scan
  | [], scan => pure scan
  | .malformed :: _, _ => throw .malformed
  | .entry curr :: rest, scan => do
    job.verifyHeader scan curr
    if curr.seq = job.range.last then pure (scan.advance curr) else scanFile rest (scan.advance curr)

/-- What is carried between checkpoints, and the headers read so far from the lowest up. -/
structure Work where
  currCheckpoint : UInt32
  verifiedAhead : LedgerNumHashPair := (0, none)
  verifiedMinLedgerPrev : Option LedgerNumHashPair := none
  maxVerifiedLedgerOfMinCheckpoint : LedgerHeaderHistoryEntry := {}
  verifiedLedgers : List LedgerNumHashPair := []
  read : List LedgerHeaderHistoryEntry := []

/-- The hash-link that the last header of a file has to agree with. -/
def incoming (work : Work) (curr : LedgerHeaderHistoryEntry) : Except Stop LedgerNumHashPair :=
  if curr.seq = job.range.last then
    if work.verifiedAhead ≠ (0, none) then throw .assertion
    else
      match job.trustedMaxLedger with
      | none => throw .assertion
      | some trusted => if trusted.1 ≠ curr.seq then throw .assertion else pure trusted
  else if work.verifiedAhead.2 = none ∨ work.verifiedAhead.1 = 0 then throw .assertion
  else pure work.verifiedAhead

/-- The hash-link out of a file, to the ledger before its first. -/
def outgoing (scan : Scan) : LedgerNumHashPair :=
  (scan.first.seq - 1, some scan.first.header.previousLedgerHash)

def isMinCheckpoint (work : Work) : Bool :=
  work.currCheckpoint = checkpointContainingLedger job.accelerated job.range.first

/-- The work after a file was verified. The outgoing link is written once only. -/
def verified (work : Work) (scan : Scan) : Work where
  currCheckpoint := work.currCheckpoint
  verifiedAhead := outgoing scan
  verifiedMinLedgerPrev :=
    if job.isMinCheckpoint work then some (work.verifiedMinLedgerPrev.getD (outgoing scan))
    else work.verifiedMinLedgerPrev
  maxVerifiedLedgerOfMinCheckpoint :=
    if job.isMinCheckpoint work then scan.curr else work.maxVerifiedLedgerOfMinCheckpoint
  verifiedLedgers := work.verifiedLedgers ++ [(scan.curr.seq, some scan.curr.hash)]
  read := scan.read ++ work.read

def verifyHistoryOfSingleCheckpoint (work : Work) : Except Stop Work :=
  match job.files work.currCheckpoint with
  | none => throw .fileSystem
  | some records => do
    let scan ← job.scanFile records {}
    if scan.curr.seq ≠ work.currCheckpoint ∧ scan.curr.seq ≠ job.range.last then throw .missingEntries
    else do
      let link ← job.incoming work scan.curr
      verifyLastLedgerInCheckpoint scan.curr link
      return job.verified work scan

/-! ### The whole work -/

inductive State where
  | running (work : Work)
  | success (work : Work)
  | failure (stop : Stop)

/-- The state after the constructor and `onReset`. -/
def onReset : Work where
  currCheckpoint :=
    if job.range.count = 0 then 0 else checkpointContainingLedger job.accelerated job.range.last

def onRun (work : Work) : State :=
  if job.range.count = 0 then .success work
  else if work.currCheckpoint < checkpointContainingLedger job.accelerated job.range.first then
    .failure .undershotRange
  else
    match job.verifyHistoryOfSingleCheckpoint work with
    | .error stop => .failure stop
    | .ok next =>
      if job.isMinCheckpoint next then .success next
      else .running { next with currCheckpoint := next.currCheckpoint - getCheckpointFrequency job.accelerated }

def crank : Nat → Work → State
  | 0, work => .running work
  | n + 1, work =>
    match job.onRun work with
    | .running next => crank n next
    | done => done

/-! ### What a scan has shown -/

/-- A header that hashes to its hash and agrees with the last closed ledger. -/
structure Agrees (e : LedgerHeaderHistoryEntry) : Prop where
  hash : job.sha256 e.header = e.hash
  lastClosed : e.seq = job.lastClosed.1 → e.hash = job.lastClosed.2
  next : e.seq = job.lastClosed.1 + 1 → e.header.previousLedgerHash = job.lastClosed.2

def Follows (a b : LedgerHeaderHistoryEntry) : Prop :=
  b.seq = a.seq + 1 ∧ b.header.previousLedgerHash = a.hash

/-- The headers of a file as far as they were read. -/
structure Scanned (read : List LedgerHeaderHistoryEntry) : Prop where
  chain : read.IsChain Follows
  agrees : ∀ e ∈ read, job.Agrees e
  before : ∀ e ∈ read.dropLast, e.seq ≠ job.range.last

/-- What a scan knows of itself. -/
structure Scan.Tracks (scan : Scan) : Prop where
  begins : scan.beginCheckpoint = true ↔ scan.read = []
  first : ∀ e, scan.read.head? = some e → scan.first = e
  curr : ∀ e, scan.read.getLast? = some e → scan.curr = e
  unread : scan.read = [] → scan.curr = {}

variable {job}

variable {e : LedgerHeaderHistoryEntry}

theorem verifyLedgerHistoryEntry_ok (h : job.verifyLedgerHistoryEntry e = .ok ()) : job.sha256 e.header = e.hash := by
  exact not_not.mp (refuse_eq_ok.mp h).1

theorem verifyLedgerHistoryLink_ok {prev : Hash} (h : job.verifyLedgerHistoryLink prev e = .ok ()) :
    job.sha256 e.header = e.hash ∧ e.header.previousLedgerHash = prev := by
  obtain ⟨_, hentry, h⟩ := bind_eq_ok.mp h
  exact ⟨verifyLedgerHistoryEntry_ok hentry, (not_not.mp (refuse_eq_ok.mp h).1).symm⟩

theorem verifyLastClosed_ok (h : job.verifyLastClosed e = .ok ()) (hhash : job.sha256 e.header = e.hash) :
    job.Agrees e := by
  unfold verifyLastClosed at h
  have hsucc : job.lastClosed.1 + 1 ≠ job.lastClosed.1 := by simp
  split at h
  case isTrue hseq =>
    refine ⟨hhash, fun _ => ?_, fun hnext => absurd (hnext.symm.trans hseq) hsucc⟩
    exact hhash.symm.trans (not_not.mp (refuse_eq_ok.mp h).1)
  case isFalse hseq =>
    refine ⟨hhash, fun h => absurd h hseq, fun hnext => ?_⟩
    rw [if_pos hnext] at h
    exact (verifyLedgerHistoryLink_ok h).2

variable {scan : Scan}

theorem verifyHeader_ok (h : job.verifyHeader scan e = .ok ()) :
    job.Agrees e ∧ (scan.beginCheckpoint = false → Follows scan.curr e) := by
  obtain ⟨_, h⟩ := refuse_eq_ok.mp h
  obtain ⟨_, hlcl, h⟩ := bind_eq_ok.mp h
  unfold verifyNext at h
  split at h
  case isTrue hbegin =>
    exact ⟨verifyLastClosed_ok hlcl (verifyLedgerHistoryEntry_ok h), fun hb => by simp [hbegin] at hb⟩
  case isFalse =>
    obtain ⟨hunder, h⟩ := refuse_eq_ok.mp h
    obtain ⟨hover, h⟩ := refuse_eq_ok.mp h
    obtain ⟨hhash, hlink⟩ := verifyLedgerHistoryLink_ok h
    refine ⟨verifyLastClosed_ok hlcl hhash, fun _ => ⟨?_, hlink⟩⟩
    exact UInt32.le_antisymm (UInt32.not_lt.mp hover) (UInt32.not_lt.mp hunder)

theorem Scan.Tracks.advance (h : scan.Tracks) (e : LedgerHeaderHistoryEntry) :
    (scan.advance e).Tracks where
  begins := by simp [Scan.advance]
  first := by
    intro a ha
    cases hread : scan.read with
    | nil => simpa [Scan.advance, hread, h.begins.mpr hread] using ha
    | cons b rest =>
      have hbegin : scan.beginCheckpoint = false := by simpa [hread] using h.begins
      have hb : b = a := by simpa [Scan.advance, hread] using ha
      simpa [Scan.advance, hbegin, hb] using h.first b (by simp [hread])
  curr := by
    intro a ha
    simpa [Scan.advance] using ha
  unread := by simp [Scan.advance]

/-- The step of the scan: one more header of the chain, if the range was not covered yet. -/
theorem Scanned.advance (hs : job.Scanned scan.read) (ht : scan.Tracks)
    (hopen : ∀ e ∈ scan.read, e.seq ≠ job.range.last) (h : job.verifyHeader scan e = .ok ()) :
    job.Scanned (scan.advance e).read where
  chain := by
    refine isChain_append.mpr ⟨hs.chain, isChain_singleton _, ?_⟩
    intro a ha b hb
    have hbegin : scan.beginCheckpoint = false := by
      refine Bool.eq_false_iff.mpr fun hb' => ?_
      simp [ht.begins.mp hb'] at ha
    have hb : b = e := by simpa using hb.symm
    rw [hb, ← ht.curr a ha]
    exact (verifyHeader_ok h).2 hbegin
  agrees := by
    intro a ha
    rcases mem_append.mp ha with ha | ha
    · exact hs.agrees a ha
    · rw [mem_singleton.mp ha]
      exact (verifyHeader_ok h).1
  before := by
    simpa [Scan.advance] using hopen

theorem scanFile_ok (records : List Record) {done : Scan} (hs : job.Scanned scan.read) (ht : scan.Tracks)
    (hopen : ∀ e ∈ scan.read, e.seq ≠ job.range.last) (h : job.scanFile records scan = .ok done) :
    job.Scanned done.read ∧ done.Tracks := by
  induction records generalizing scan with
  | nil =>
    cases h
    exact ⟨hs, ht⟩
  | cons record rest ih =>
    cases record with
    | malformed => cases h
    | entry e =>
      obtain ⟨_, hheader, h⟩ := bind_eq_ok.mp h
      have hs' := hs.advance ht hopen hheader
      split at h
      · cases h
        exact ⟨hs', ht.advance e⟩
      · refine ih hs' (ht.advance e) ?_ h
        intro a ha
        rcases mem_append.mp ha with ha | ha
        · exact hopen a ha
        · rwa [mem_singleton.mp ha]

theorem scanned_of_scanFile {records : List Record} (h : job.scanFile records {} = .ok scan) :
    job.Scanned scan.read ∧ scan.Tracks :=
  scanFile_ok records ⟨isChain_nil, by simp, by simp⟩ ⟨by simp, by simp, by simp, fun _ => rfl⟩ (by simp) h

variable (job) in
/-- The headers of a file up to the one of the range's last ledger. -/
def upToLast : List Record → List LedgerHeaderHistoryEntry
  | .entry e :: rest => if e.seq = job.range.last then [e] else e :: upToLast rest
  | _ => []

theorem scanFile_read {records : List Record} {done : Scan} (h : job.scanFile records scan = .ok done) :
    done.read = scan.read ++ job.upToLast records := by
  induction records generalizing scan with
  | nil =>
    cases h
    exact (append_nil _).symm
  | cons record rest ih =>
    cases record with
    | malformed => cases h
    | entry e =>
      obtain ⟨_, -, h⟩ := bind_eq_ok.mp h
      unfold upToLast
      split at h
      · next hlast =>
        cases h
        rw [if_pos hlast]
        rfl
      · next hlast => rw [if_neg hlast, ih h, Scan.advance, append_assoc, singleton_append]

/-! ### What the work has shown so far -/

/-- The headers of the files verified so far: they are linked across the files, only the
last has the number of the range's last ledger and it is the trusted one, and the next
file has to end right below the first of them. -/
structure Linked (work : Work) : Prop where
  scanned : job.Scanned work.read
  last : ∀ e, work.read.getLast? = some e →
    e.seq = job.range.last ∧ ∃ trusted, job.trustedMaxLedger = some trusted ∧ trusted.1 = e.seq ∧
      ∀ h, trusted.2 = some h → e.hash = h
  ahead : work.verifiedAhead =
    match work.read.head? with
    | none => (0, none)
    | some e => (e.seq - 1, some e.header.previousLedgerHash)

variable {work : Work} {link : LedgerNumHashPair}

theorem incoming_last (h : job.incoming work e = .ok link) (hlast : e.seq = job.range.last) :
    work.verifiedAhead = (0, none) ∧ job.trustedMaxLedger = some link := by
  unfold incoming at h
  rw [if_pos hlast] at h
  obtain ⟨hahead, h⟩ := refuse_eq_ok.mp h
  refine ⟨not_not.mp hahead, ?_⟩
  split at h
  · cases h
  · rename_i trusted htrusted
    obtain ⟨_, h⟩ := refuse_eq_ok.mp h
    cases h
    exact htrusted

theorem incoming_ahead (h : job.incoming work e = .ok link) (hlast : e.seq ≠ job.range.last) :
    link = work.verifiedAhead ∧ ∃ hash, link.2 = some hash := by
  unfold incoming at h
  rw [if_neg hlast] at h
  obtain ⟨hset, h⟩ := refuse_eq_ok.mp h
  cases h
  exact ⟨rfl, Option.ne_none_iff_exists'.mp fun hn => hset (.inl hn)⟩

theorem verifyLastLedgerInCheckpoint_ok (h : verifyLastLedgerInCheckpoint e link = .ok ()) :
    e.seq = link.1 ∧ ∀ hash, link.2 = some hash → e.hash = hash := by
  obtain ⟨hseq, h⟩ := refuse_eq_ok.mp h
  refine ⟨not_not.mp hseq, fun hash hhash => ?_⟩
  rw [hhash] at h
  exact not_not.mp (refuse_eq_ok.mp h).1

/-- The file of a checkpoint of the range that ends where it should is not empty. -/
theorem read_ne_nil (ht : scan.Tracks) {c : UInt32} (hc : c ≠ 0) (hlast : job.range.last ≠ 0)
    (h : ¬(scan.curr.seq ≠ c ∧ scan.curr.seq ≠ job.range.last)) : scan.read ≠ [] := by
  intro hnil
  rw [ht.unread hnil] at h
  exact h ⟨hc.symm, hlast.symm⟩

theorem Linked.verified (hl : job.Linked work) (hs : job.Scanned scan.read) (ht : scan.Tracks)
    (hne : scan.read ≠ []) (hin : job.incoming work scan.curr = .ok link)
    (hend : verifyLastLedgerInCheckpoint scan.curr link = .ok ()) : job.Linked (job.verified work scan) := by
  obtain ⟨hseq, hhash⟩ := verifyLastLedgerInCheckpoint_ok hend
  have hcurr : scan.read.getLast? = some scan.curr := by
    obtain ⟨e, he⟩ := Option.ne_none_iff_exists'.mp (mt getLast?_eq_none_iff.mp hne)
    rw [he, ht.curr e he]
  have hfirst : scan.read.head? = some scan.first := by
    obtain ⟨e, he⟩ := Option.ne_none_iff_exists'.mp (mt head?_eq_none_iff.mp hne)
    rw [he, ht.first e he]
  have hahead : (job.verified work scan).verifiedAhead = outgoing scan := rfl
  cases hread : work.read with
  | nil =>
    -- the first file: it has to reach the end of the range
    have hnone : work.verifiedAhead = (0, none) := by rw [hl.ahead, hread]; rfl
    have hlast : scan.curr.seq = job.range.last := by
      by_contra hlast
      obtain ⟨rfl, hash, hsome⟩ := incoming_ahead hin hlast
      rw [hnone] at hsome
      cases hsome
    have hall : (job.verified work scan).read = scan.read := by simp [Job.verified, hread]
    refine ⟨hall ▸ hs, ?_, ?_⟩
    · intro e he
      rw [hall, hcurr] at he
      cases he
      exact ⟨hlast, link, (incoming_last hin hlast).2, hseq.symm, hhash⟩
    · rw [hahead, hall, hfirst]
      rfl
  | cons b rest =>
    -- a lower file: it has to end right below the file before it
    have hset : work.verifiedAhead = (b.seq - 1, some b.header.previousLedgerHash) := by rw [hl.ahead, hread]; rfl
    have hlast : scan.curr.seq ≠ job.range.last := by
      intro hlast
      have hnone := (incoming_last hin hlast).1
      rw [hset] at hnone
      exact absurd (congrArg Prod.snd hnone) (by simp)
    obtain ⟨rfl, -⟩ := incoming_ahead hin hlast
    have hfollows : Follows scan.curr b := by
      rw [hset] at hseq hhash
      exact ⟨by rw [hseq]; simp, (hhash _ rfl).symm⟩
    have hall : (job.verified work scan).read = scan.read ++ b :: rest := by simp [Job.verified, hread]
    refine ⟨⟨?_, ?_, ?_⟩, ?_, ?_⟩
    · rw [hall, isChain_append]
      refine ⟨hs.chain, hread ▸ hl.scanned.chain, ?_⟩
      intro x hx y hy
      rw [hcurr] at hx
      cases hx
      cases hy
      exact hfollows
    · intro e he
      exact (mem_append.mp he).elim (hs.agrees e) (hl.scanned.agrees e)
    · intro e he
      rw [hall, dropLast_append_of_ne_nil (by simp)] at he
      rcases mem_append.mp he with he | he
      · rw [← dropLast_append_getLast? scan.curr hcurr] at he
        rcases mem_append.mp he with he | he
        · exact hs.before e he
        · rwa [mem_singleton.mp he]
      · exact hl.scanned.before e (hread ▸ he)
    · intro e he
      refine hl.last e ?_
      rw [hall, getLast?_append_of_ne_nil _ (by simp)] at he
      rw [hread, he]
    · rw [hahead, hall, head?_append, hfirst]
      rfl

theorem linked_onReset : job.Linked job.onReset where
  scanned := ⟨isChain_nil, by simp [onReset], by simp [onReset]⟩
  last := by simp [onReset]
  ahead := rfl

theorem last_toNat (r : LedgerRange) (h : r.count ≠ 0) : r.last.toNat = r.first.toNat + r.count.toNat - 1 := by
  have hpos := UInt32.lt_iff_toNat_lt.mp (r.pos h)
  have hrep := r.representable
  simp [LedgerRange.last, LedgerRange.limit, UInt32.toNat_add, UInt32.toNat_sub] at hpos ⊢
  omega

theorem last_ne_zero {r : LedgerRange} (hcount : r.count ≠ 0) : r.last ≠ 0 := by
  intro hzero
  have hpos := UInt32.lt_iff_toNat_lt.mp (r.pos hcount)
  have hnat := last_toNat r hcount
  have hcount' : r.count.toNat ≠ 0 := fun h0 => hcount (UInt32.toNat_inj.mp h0)
  rw [hzero] at hnat
  omega

theorem Linked.verifyHistoryOfSingleCheckpoint {next : Work} (hl : job.Linked work) (hcount : job.range.count ≠ 0)
    (hcheckpoint : work.currCheckpoint ≠ 0) (h : job.verifyHistoryOfSingleCheckpoint work = .ok next) :
    job.Linked next := by
  unfold Job.verifyHistoryOfSingleCheckpoint at h
  split at h
  · cases h
  obtain ⟨scan, hscan, h⟩ := bind_eq_ok.mp h
  obtain ⟨hend, h⟩ := refuse_eq_ok.mp h
  obtain ⟨link, hin, h⟩ := bind_eq_ok.mp h
  obtain ⟨_, hverify, h⟩ := bind_eq_ok.mp h
  cases h
  obtain ⟨hs, ht⟩ := scanned_of_scanFile hscan
  exact hl.verified hs ht (read_ne_nil ht hcheckpoint (last_ne_zero hcount) hend) hin hverify

/-! ### Checkpoints -/

theorem getCheckpointFrequency_pos (accelerated : Bool) : 0 < (getCheckpointFrequency accelerated).toNat := by
  cases accelerated <;> decide

/-- The number of the last ledger of checkpoint `k`. -/
def lastOf (accelerated : Bool) (k : Nat) : Nat := (k + 1) * (getCheckpointFrequency accelerated).toNat - 1

theorem checkpointContainingLedger_toNat (accelerated : Bool) (ledger : UInt32) :
    (checkpointContainingLedger accelerated ledger).toNat =
      lastOf accelerated (ledger.toNat / (getCheckpointFrequency accelerated).toNat) := by
  have hlt := ledger.toNat_lt
  cases accelerated <;>
    simp [checkpointContainingLedger, lastOf, getCheckpointFrequency, UInt32.toNat_sub, UInt32.toNat_mul,
      UInt32.toNat_add, UInt32.toNat_div] <;> omega

/-- The work has checkpoint `k` before it; the files above it were verified. -/
structure At (job : Job) (k : Nat) (work : Work) : Prop where
  linked : job.Linked work
  number : work.currCheckpoint.toNat = lastOf job.accelerated k
  lowest : job.range.first.toNat / (getCheckpointFrequency job.accelerated).toNat ≤ k
  highest : k ≤ job.range.last.toNat / (getCheckpointFrequency job.accelerated).toNat
  begun : work.read ≠ [] → k < job.range.last.toNat / (getCheckpointFrequency job.accelerated).toNat

theorem At.onReset (hcount : job.range.count ≠ 0) :
    job.At (job.range.last.toNat / (getCheckpointFrequency job.accelerated).toNat) job.onReset where
  linked := linked_onReset
  number := by
    rw [Job.onReset, if_neg hcount]
    exact checkpointContainingLedger_toNat _ _
  lowest := by
    refine Nat.div_le_div_right ?_
    have hnat := last_toNat job.range hcount
    have hcount' : job.range.count.toNat ≠ 0 := fun h0 => hcount (UInt32.toNat_inj.mp h0)
    omega
  highest := le_rfl
  begun := fun h => absurd rfl h

variable {k : Nat}

theorem lastOf_strictMono (accelerated : Bool) : StrictMono (lastOf accelerated) := by
  intro a b hab
  have hpos := getCheckpointFrequency_pos accelerated
  have hmul := Nat.mul_lt_mul_of_pos_right (Nat.add_lt_add_right hab 1) hpos
  unfold lastOf
  have : 0 < (a + 1) * (getCheckpointFrequency accelerated).toNat := Nat.mul_pos (Nat.succ_pos a) hpos
  omega

theorem At.not_undershot (h : job.At k work) :
    ¬work.currCheckpoint < checkpointContainingLedger job.accelerated job.range.first := by
  rw [UInt32.lt_iff_toNat_lt, h.number, checkpointContainingLedger_toNat, not_lt]
  exact (lastOf_strictMono _).monotone h.lowest

theorem At.checkpoint_ne_zero (h : job.At k work) : work.currCheckpoint ≠ 0 := by
  intro hzero
  have hnumber := h.number
  rw [hzero, lastOf] at hnumber
  have hfreq : 2 ≤ (getCheckpointFrequency job.accelerated).toNat := by cases job.accelerated <;> decide
  have hle : 1 * 2 ≤ (k + 1) * (getCheckpointFrequency job.accelerated).toNat := Nat.mul_le_mul (by omega) hfreq
  simp at hnumber
  omega

/-- Below the highest checkpoint, the checkpoint is below the last ledger of the range. -/
theorem At.checkpoint_lt_last (h : job.At k work) (hread : work.read ≠ []) : work.currCheckpoint < job.range.last := by
  have hpos := getCheckpointFrequency_pos job.accelerated
  have hle : (k + 1) * (getCheckpointFrequency job.accelerated).toNat ≤ job.range.last.toNat :=
    Nat.mul_le_of_le_div _ _ _ (h.begun hread)
  have hsucc : 0 < (k + 1) * (getCheckpointFrequency job.accelerated).toNat := Nat.mul_pos (Nat.succ_pos k) hpos
  rw [UInt32.lt_iff_toNat_lt, h.number, lastOf]
  omega

theorem At.verified {next : Work} (h : job.At k work) (hcount : job.range.count ≠ 0)
    (hverify : job.verifyHistoryOfSingleCheckpoint work = .ok next) :
    job.Linked next ∧ next.currCheckpoint = work.currCheckpoint := by
  refine ⟨h.linked.verifyHistoryOfSingleCheckpoint hcount h.checkpoint_ne_zero hverify, ?_⟩
  unfold Job.verifyHistoryOfSingleCheckpoint at hverify
  split at hverify
  · cases hverify
  obtain ⟨scan, -, hverify⟩ := bind_eq_ok.mp hverify
  obtain ⟨-, hverify⟩ := refuse_eq_ok.mp hverify
  obtain ⟨link, -, hverify⟩ := bind_eq_ok.mp hverify
  obtain ⟨_, -, hverify⟩ := bind_eq_ok.mp hverify
  cases hverify
  rfl

theorem At.next {next : Work} (h : job.At k work) (hcount : job.range.count ≠ 0)
    (hverify : job.verifyHistoryOfSingleCheckpoint work = .ok next) (hmin : ¬job.isMinCheckpoint next = true) :
    job.At (k - 1) { next with currCheckpoint := next.currCheckpoint - getCheckpointFrequency job.accelerated } ∧
      job.range.first.toNat / (getCheckpointFrequency job.accelerated).toNat < k := by
  obtain ⟨hlinked, hcheckpoint⟩ := h.verified hcount hverify
  have hnumber : next.currCheckpoint.toNat = lastOf job.accelerated k := by rw [hcheckpoint, h.number]
  have hlowest := h.lowest
  have hhighest := h.highest
  have hne : k ≠ job.range.first.toNat / (getCheckpointFrequency job.accelerated).toNat := by
    refine mt (fun heq => ?_) hmin
    rw [isMinCheckpoint, decide_eq_true_iff, ← UInt32.toNat_inj, hnumber, checkpointContainingLedger_toNat, heq]
  have hlt := lt_of_le_of_ne hlowest (Ne.symm hne)
  have hkpos : 0 < k := Nat.zero_lt_of_lt hlt
  refine ⟨⟨⟨hlinked.scanned, hlinked.last, hlinked.ahead⟩, ?_, by omega, by omega, fun _ => by omega⟩, hlt⟩
  obtain ⟨j, rfl⟩ : ∃ j, k = j + 1 := ⟨k - 1, by omega⟩
  have hpos := getCheckpointFrequency_pos job.accelerated
  have hsplit : lastOf job.accelerated (j + 1) = lastOf job.accelerated j + (getCheckpointFrequency job.accelerated).toNat := by
    have hmul : 0 < (j + 1) * (getCheckpointFrequency job.accelerated).toNat := Nat.mul_pos (Nat.succ_pos j) hpos
    rw [lastOf, lastOf, Nat.add_mul (j + 1) 1, Nat.one_mul]
    omega
  have hle : getCheckpointFrequency job.accelerated ≤ next.currCheckpoint := by
    rw [UInt32.le_iff_toNat_le, hnumber, hsplit]
    omega
  rw [UInt32.toNat_sub_of_le _ _ hle, hnumber, hsplit, Nat.add_sub_cancel, Nat.add_sub_cancel]

theorem At.onRun_eq (h : job.At k work) (hcount : job.range.count ≠ 0) :
    job.onRun work = match job.verifyHistoryOfSingleCheckpoint work with
      | .error stop => .failure stop
      | .ok next =>
        if job.isMinCheckpoint next then .success next
        else .running { next with currCheckpoint := next.currCheckpoint - getCheckpointFrequency job.accelerated } := by
  rw [Job.onRun, if_neg hcount]
  exact if_neg h.not_undershot

theorem At.crank {n : Nat} {done : Work} (h : job.At k work) (hcount : job.range.count ≠ 0)
    (hok : job.crank n work = .success done) :
    ∃ k prev, job.At k prev ∧ job.verifyHistoryOfSingleCheckpoint prev = .ok done ∧ job.isMinCheckpoint done = true := by
  induction n generalizing k work with
  | zero => cases hok
  | succ n ih =>
    rw [Job.crank, h.onRun_eq hcount] at hok
    cases hverify : job.verifyHistoryOfSingleCheckpoint work with
    | error stop =>
      rw [hverify] at hok
      cases hok
    | ok next =>
      rw [hverify] at hok
      by_cases hmin : job.isMinCheckpoint next = true
      · simp only [hmin, if_true] at hok
        cases hok
        exact ⟨k, work, h, hverify, hmin⟩
      · simp only [hmin] at hok
        exact ih (h.next hcount hverify hmin).1 hok

/-! ### What success means -/

variable (job)

/-- What a verified chain of headers is owed: one header for each ledger of the range,
each with its own hash and its predecessor's, the last with the trusted one, and the
ones next to the last closed ledger in agreement with it. -/
structure Verified (read : List LedgerHeaderHistoryEntry) : Prop where
  once : ∀ s, job.range.Contains s → (read.map (·.seq)).count s = 1
  hash : ∀ e ∈ read, job.sha256 e.header = e.hash
  link : ∀ a ∈ read, ∀ b ∈ read, job.range.Contains a.seq → job.range.Contains b.seq →
    b.seq = a.seq + 1 → b.header.previousLedgerHash = a.hash
  trusted : ∀ e ∈ read, e.seq = job.range.last →
    ∃ trusted, job.trustedMaxLedger = some trusted ∧ trusted.1 = e.seq ∧ ∀ h, trusted.2 = some h → e.hash = h
  lastClosed : ∀ e ∈ read, e.seq = job.lastClosed.1 → e.hash = job.lastClosed.2
  afterLastClosed : ∀ e ∈ read, e.seq = job.lastClosed.1 + 1 →
    e.header.previousLedgerHash = job.lastClosed.2

variable {job}

theorem contains_iff (r : LedgerRange) (h : r.count ≠ 0) (s : UInt32) : r.Contains s ↔ r.first ≤ s ∧ s ≤ r.last := by
  have hnat := last_toNat r h
  have hrep := r.representable
  have hcount : r.count.toNat ≠ 0 := fun h0 => h (UInt32.toNat_inj.mp h0)
  refine and_congr_right fun _ => ?_
  rw [UInt32.lt_iff_toNat_lt, UInt32.le_iff_toNat_le, hnat, LedgerRange.limit, UInt32.toNat_add,
    Nat.mod_eq_of_lt hrep]
  omega

theorem Linked.consecutive (hl : job.Linked work) : Consecutive (work.read.map (·.seq)) :=
  (isChain_map _).mpr (hl.scanned.chain.imp fun _ _ h => h.1)

theorem Linked.end_eq (hl : job.Linked work) (hne : work.read ≠ []) :
    (work.read.map (·.seq)).getLast? = some job.range.last := by
  obtain ⟨z, hz⟩ := Option.ne_none_iff_exists'.mp (mt getLast?_eq_none_iff.mp hne)
  rw [getLast?_map, hz, ← (hl.last z hz).1]
  rfl

theorem Linked.length_le (hl : job.Linked work) (hne : work.read ≠ []) : (work.read.map (·.seq)).length ≤ 2 ^ 32 := by
  refine hl.consecutive.length_le (hl.end_eq hne) ?_
  intro s hs
  rw [← map_dropLast] at hs
  obtain ⟨e, he, rfl⟩ := mem_map.mp hs
  exact hl.scanned.before e he

/-- A chain that reaches back to the first ledger of the range verifies the range. -/
theorem Linked.verified_of_first (hl : job.Linked work) (hcount : job.range.count ≠ 0)
    (hfirst : ∃ e ∈ work.read, e.seq = job.range.first) : job.Verified work.read := by
  obtain ⟨e₀, he₀, hseq₀⟩ := hfirst
  have hne := ne_nil_of_mem he₀
  obtain ⟨z, hz⟩ := Option.ne_none_iff_exists'.mp (mt getLast?_eq_none_iff.mp hne)
  obtain ⟨hzlast, htrusted⟩ := hl.last z hz
  have hnums := hl.consecutive
  have hend := hl.end_eq hne
  have hlen := hl.length_le hne
  have hnodup := hnums.nodup hlen
  have hinj : ∀ a ∈ work.read, ∀ b ∈ work.read, a.seq = b.seq → a = b :=
    fun a ha b hb h => inj_on_of_nodup_map hnodup ha hb h
  refine ⟨?_, fun e he => (hl.scanned.agrees e he).hash, ?_, ?_,
    fun e he => (hl.scanned.agrees e he).lastClosed, fun e he => (hl.scanned.agrees e he).next⟩
  · intro s hs
    obtain ⟨hle, hge⟩ := (contains_iff _ hcount s).mp hs
    refine count_eq_one_of_mem hnodup (hnums.mem_of_le hend hlen (a := job.range.first) ?_ hle hge)
    exact mem_map.mpr ⟨e₀, he₀, hseq₀⟩
  · intro a ha b hb _ hrange hab
    obtain ⟨i, hi, rfl⟩ := getElem_of_mem ha
    by_cases hnext : i + 1 < work.read.length
    · have hfollows := isChain_iff_getElem.mp hl.scanned.chain i hnext
      rw [hinj b hb _ (getElem_mem hnext) (hab.trans hfollows.1.symm)]
      exact hfollows.2
    · -- the last header has no successor in the range
      have hlast : work.read[i] = z := by
        rw [getLast?_eq_getElem?, show work.read.length - 1 = i by omega, getElem?_eq_getElem hi] at hz
        exact Option.some.inj hz
      rw [hab, hlast, hzlast, LedgerRange.last] at hrange
      exact absurd hrange.2 (by simp)
  · intro e he hlast
    rw [hinj e he z (mem_of_getLast? hz) (hlast.trans hzlast.symm)]
    exact htrusted

variable (job) in
/-- The file of the lowest checkpoint has the header of the range's first ledger, not after that of the last. -/
def ReachesBack : Prop :=
  ∃ records, job.files (checkpointContainingLedger job.accelerated job.range.first) = some records ∧
    ∃ e ∈ job.upToLast records, e.seq = job.range.first

theorem first_le_checkpoint (job : Job) : job.range.first ≤ checkpointContainingLedger job.accelerated job.range.first := by
  rw [UInt32.le_iff_toNat_le, checkpointContainingLedger_toNat, lastOf]
  have hlt := Nat.lt_div_mul_add (getCheckpointFrequency_pos job.accelerated) (a := job.range.first.toNat)
  rw [Nat.add_mul]
  omega

/-- Above the lowest checkpoint no header has the number of the first ledger, so it is read if and only
if that file has it. -/
theorem At.read_first_iff {prev : Work} (h : job.At k prev) (hcount : job.range.count ≠ 0)
    (hverify : job.verifyHistoryOfSingleCheckpoint prev = .ok work) (hmin : job.isMinCheckpoint work = true) :
    (∃ e ∈ work.read, e.seq = job.range.first) ↔ job.ReachesBack := by
  obtain ⟨hl, hcheckpoint⟩ := h.verified hcount hverify
  have hlowest : prev.currCheckpoint = checkpointContainingLedger job.accelerated job.range.first :=
    hcheckpoint.symm.trans (of_decide_eq_true hmin)
  unfold Job.verifyHistoryOfSingleCheckpoint at hverify
  split at hverify
  · cases hverify
  next records hfile =>
  obtain ⟨scan, hscan, hverify⟩ := bind_eq_ok.mp hverify
  obtain ⟨hend, hverify⟩ := refuse_eq_ok.mp hverify
  obtain ⟨link, -, hverify⟩ := bind_eq_ok.mp hverify
  obtain ⟨_, -, hverify⟩ := bind_eq_ok.mp hverify
  cases hverify
  have hread : scan.read = job.upToLast records := scanFile_read hscan
  rw [hlowest] at hfile
  constructor
  · intro ⟨e, he, hseq⟩
    rcases mem_append.mp he with he | he
    · exact ⟨records, hfile, e, hread ▸ he, hseq⟩
    · -- the chain from `e` on would have the number of the checkpoint, which the file ends with, again
      exfalso
      have hne := ne_nil_of_mem he
      have ht := (scanned_of_scanFile hscan).2
      have hscanned := read_ne_nil ht h.checkpoint_ne_zero (last_ne_zero hcount) hend
      have hcurr : scan.curr ∈ scan.read := by
        obtain ⟨c, hc⟩ := Option.ne_none_iff_exists'.mp (mt getLast?_eq_none_iff.mp hscanned)
        rw [ht.curr c hc]
        exact mem_of_getLast? hc
      have hcurr_ne : scan.curr.seq ≠ job.range.last := by
        refine hl.scanned.before _ ?_
        show scan.curr ∈ (scan.read ++ prev.read).dropLast
        rw [dropLast_append_of_ne_nil hne]
        exact mem_append_left _ hcurr
      have hnum : scan.curr.seq = prev.currCheckpoint := not_not.mp fun hnot => hend ⟨hnot, hcurr_ne⟩
      have hagain : prev.currCheckpoint ∈ prev.read.map (·.seq) := by
        refine h.linked.consecutive.mem_of_le (h.linked.end_eq hne) (h.linked.length_le hne)
          (mem_map.mpr ⟨e, he, hseq⟩) ?_ (UInt32.le_of_lt (h.checkpoint_lt_last hne))
        rw [hlowest]
        exact first_le_checkpoint job
      have hnodup : ((scan.read ++ prev.read).map (·.seq)).Nodup :=
        hl.consecutive.nodup (hl.length_le (append_ne_nil_of_right_ne_nil _ hne))
      rw [map_append] at hnodup
      exact disjoint_of_nodup_append hnodup (mem_map.mpr ⟨_, hcurr, hnum⟩) hagain
  · intro ⟨records', hfile', e, he, hseq⟩
    cases hfile.symm.trans hfile'
    exact ⟨e, mem_append_left _ (hread ▸ he), hseq⟩

/-- **A work that succeeds has verified its range if and only if the file of the lowest checkpoint
reaches back to the first ledger of the range**, which nothing checks. -/
theorem verified_iff (job : Job) (n : Nat) (work : Work) (h : job.crank n job.onReset = .success work) :
    job.Verified work.read ↔ job.range.count = 0 ∨ job.ReachesBack := by
  by_cases hcount : job.range.count = 0
  · have hread : work.read = [] := by
      cases n with
      | zero => cases h
      | succ n =>
        simp only [Job.crank, Job.onRun, hcount, if_true] at h
        cases h
        rfl
    have hempty : ∀ s, ¬job.range.Contains s := by
      intro s hs
      have hlt := UInt32.lt_of_le_of_lt hs.1 hs.2
      simp [LedgerRange.limit, hcount] at hlt
    simp only [hcount, true_or, iff_true, hread]
    exact ⟨fun s hs => absurd hs (hempty s), by simp, by simp, by simp, by simp, by simp⟩
  · obtain ⟨k, prev, hat, hverify, hmin⟩ := (At.onReset hcount).crank hcount h
    rw [← hat.read_first_iff hcount hverify hmin]
    simp only [hcount, false_or]
    refine ⟨fun hv => ?_, (hat.verified hcount hverify).1.verified_of_first hcount⟩
    have hin : job.range.Contains job.range.first := by
      refine (contains_iff _ hcount _).mpr ⟨UInt32.le_refl _, ?_⟩
      have hcount' : job.range.count.toNat ≠ 0 := fun h0 => hcount (UInt32.toNat_inj.mp h0)
      rw [UInt32.le_iff_toNat_le, last_toNat _ hcount]
      omega
    have hone := hv.once _ hin
    obtain ⟨e, he, hseq⟩ := mem_map.mp (count_pos_iff.mp (hone ▸ Nat.one_pos))
    exact ⟨e, he, hseq⟩

/-! ### Archives that pass -/

/-- A hash without collisions for the runs below: the whole header, in one number. -/
def packed (header : LedgerHeader) : Hash :=
  Nat.pair (Nat.pair header.ledgerVersion.toNat header.previousLedgerHash)
    (Nat.pair header.ledgerSeq.toNat header.contents)

theorem packed_injective : Function.Injective packed := by
  intro a b h
  simp only [packed, Nat.pair_eq_pair, UInt32.toNat_inj] at h
  cases a
  cases b
  simp_all

/-- The header of ledger `s` after one that hashes to `prev`. -/
def headerAfter (prev : Hash) (s : UInt32) : LedgerHeaderHistoryEntry where
  hash := packed { previousLedgerHash := prev, ledgerSeq := s }
  header := { previousLedgerHash := prev, ledgerSeq := s }

def headersAfter (prev : Hash) : List UInt32 → List LedgerHeaderHistoryEntry
  | [] => []
  | s :: rest => headerAfter prev s :: headersAfter (headerAfter prev s).hash rest

/-- Ledgers 2 to 7, all of the first checkpoint of an accelerated node after genesis, with
the hash of the last of the file's headers trusted. -/
def firstCheckpoint (file : List LedgerHeaderHistoryEntry) : Job where
  sha256 := packed
  accelerated := true
  range := ⟨2, 6, by decide, by decide⟩
  lastClosed := (1, (headerAfter 0 1).hash)
  atOrAfterGenesis := by decide
  trustedMaxLedger := some (7, file.getLast?.map (·.hash))
  files := fun c => if c = 7 then some (file.map .entry) else none

def completeFile : List LedgerHeaderHistoryEntry := headersAfter (headerAfter 0 1).hash [2, 3, 4, 5, 6, 7]

theorem verified_iff_complete : ∃ work,
    (firstCheckpoint completeFile).crank 1 (firstCheckpoint completeFile).onReset = .success work ∧
    (firstCheckpoint completeFile).Verified work.read := by
  refine ⟨_, rfl, (verified_iff _ 1 _ rfl).mpr (.inr ⟨_, rfl, ?_⟩)⟩
  decide +kernel

/-- The last header of the checkpoint and nothing else. -/
def truncatedFile : List LedgerHeaderHistoryEntry := [headerAfter 0 7]

/-- **A file that holds only the last header of its checkpoint passes.** Ledgers 2 to 6 are
not read, and the link to the last closed ledger is never compared. -/
theorem truncated_passes : Function.Injective (firstCheckpoint truncatedFile).sha256 ∧ ∃ work,
    (firstCheckpoint truncatedFile).crank 1 (firstCheckpoint truncatedFile).onReset = .success work ∧
    ¬(firstCheckpoint truncatedFile).Verified work.read := by
  refine ⟨packed_injective, _, rfl, fun h => ?_⟩
  have hone := h.once 2 (by decide)
  exact absurd hone (by decide +kernel)

end Job
end Diamnet.Catchup
