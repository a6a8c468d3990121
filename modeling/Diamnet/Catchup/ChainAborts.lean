import Diamnet.Catchup.VerifyLedgerChain

/-! Which archives abort the verification of a chain.

The relations that `verifyHistoryOfSingleCheckpoint` asserts between the file of a checkpoint
and the file above it are checked nowhere else. A file can pass its own scan and yet not
reach up to the one above it, and then the process aborts. `endsGracefully_iff` says that
nothing else makes it abort. -/
namespace Diamnet.Catchup

/-- A status that is returned, or the exception that is caught. -/
def Stop.Caught (stop : Stop) : Prop := stop ≠ .assertion ∧ stop ≠ .malformed ∧ stop ≠ .undershotRange

instance (stop : Stop) : Decidable stop.Caught :=
  inferInstanceAs (Decidable (stop ≠ .assertion ∧ stop ≠ .malformed ∧ stop ≠ .undershotRange))

namespace Job
variable (job : Job)

def WellFormed : Prop := ∀ c records, job.files c = some records → Record.malformed ∉ records

/-- The pair to trust is known, and is about the last ledger of the range. -/
def TrustsLast : Prop := ∃ hash, job.trustedMaxLedger = some (job.range.last, hash)

/-- The work has ended with a status, or with the exception that it catches. -/
def State.Graceful : State → Prop
  | .running _ => False
  | .success _ => True
  | .failure stop => stop.Caught

/-- The file ends where the one above it begins, or at the end of the range. -/
def Joins (work : Work) (scan : Scan) : Prop :=
  match work.read with
  | [] => scan.curr.seq = job.range.last
  | above :: _ => scan.curr.seq = work.currCheckpoint ∧ above.seq = work.currCheckpoint + 1

/-- The file passes its scan and ends at its checkpoint or at the end of the range, but it does
not join the file above it. -/
def Torn (work : Work) : Prop :=
  ∃ records scan, job.files work.currCheckpoint = some records ∧ job.scanFile records {} = .ok scan ∧
    (scan.curr.seq = work.currCheckpoint ∨ scan.curr.seq = job.range.last) ∧ ¬job.Joins work scan

variable {job} {k : Nat} {work : Work}

/-! ### One checkpoint -/

theorem verifyHeader_error {scan : Scan} {e : LedgerHeaderHistoryEntry} :
    Meets (job.verifyHeader scan e) (fun _ => True) Stop.Caught := by
  have hentry : ∀ e, Meets (job.verifyLedgerHistoryEntry e) (fun _ => True)
      Stop.Caught := by
    intro e
    unfold verifyLedgerHistoryEntry
    split
    · decide
    · trivial
  have hlink : ∀ prev e, Meets (job.verifyLedgerHistoryLink prev e) (fun _ => True)
      Stop.Caught := by
    intro prev e
    refine (hentry e).bind fun _ _ => ?_
    split
    · decide
    · trivial
  have hclosed : Meets (job.verifyLastClosed e) (fun _ => True)
      Stop.Caught := by
    unfold verifyLastClosed
    split
    · split
      · decide
      · trivial
    · split
      · exact hlink _ _
      · trivial
  unfold verifyHeader
  split
  · decide
  refine hclosed.bind fun _ _ => ?_
  unfold verifyNext
  split
  · exact hentry e
  split
  · decide
  split
  · decide
  · exact hlink _ _

theorem scanFile_error {records : List Record} (hwf : Record.malformed ∉ records) (scan : Scan) :
    Meets (job.scanFile records scan) (fun _ => True)
      Stop.Caught := by
  induction records generalizing scan with
  | nil => trivial
  | cons record rest ih =>
    cases record with
    | malformed => exact absurd (.head _) hwf
    | entry e =>
      refine verifyHeader_error.bind fun _ _ => ?_
      split
      · trivial
      · exact ih (fun h => hwf (.tail _ h)) _

/-- The links into a file and the comparison with them: the asserted relations hold if and only
if the file joins. -/
theorem At.link_iff (h : job.At k work) (htrusts : job.TrustsLast) {scan : Scan}
    (hend : scan.curr.seq = work.currCheckpoint ∨ scan.curr.seq = job.range.last) :
    Meets (job.incoming work scan.curr >>= verifyLastLedgerInCheckpoint scan.curr) (fun _ => job.Joins work scan)
      (fun stop => stop = .badHash ∧ job.Joins work scan ∨ stop = .assertion ∧ ¬job.Joins work scan) := by
  have hverify : ∀ link : LedgerNumHashPair, link.1 = scan.curr.seq → job.Joins work scan →
      Meets (verifyLastLedgerInCheckpoint scan.curr link) (fun _ => job.Joins work scan)
        (fun stop => stop = .badHash ∧ job.Joins work scan ∨ stop = .assertion ∧ ¬job.Joins work scan) := by
    intro link hlink hjoins
    unfold verifyLastLedgerInCheckpoint
    rw [if_neg (not_not.mpr hlink.symm)]
    split
    · exact hjoins
    · split
      · exact .inl ⟨rfl, hjoins⟩
      · exact hjoins
  have hahead := h.linked.ahead
  unfold incoming
  cases hread : work.read with
  | nil =>
    have hjoins : job.Joins work scan ↔ scan.curr.seq = job.range.last := by rw [Joins, hread]
    have hahead : work.verifiedAhead = (0, none) := by rw [hahead, hread]; rfl
    by_cases hlast : scan.curr.seq = job.range.last
    · obtain ⟨hash, htrusted⟩ := htrusts
      rw [if_pos hlast, if_neg (not_not.mpr hahead), htrusted]
      dsimp only
      rw [if_neg (not_not.mpr hlast.symm)]
      exact hverify _ hlast.symm (hjoins.mpr hlast)
    · rw [if_neg hlast, hahead, if_pos (.inl rfl)]
      exact .inr ⟨rfl, mt hjoins.mp hlast⟩
  | cons above rest =>
    have hjoins : job.Joins work scan ↔ scan.curr.seq = work.currCheckpoint ∧ above.seq = work.currCheckpoint + 1 := by
      rw [Joins, hread]
    have hne := UInt32.ne_of_lt (h.checkpoint_lt_last (by simp [hread]))
    have hahead : work.verifiedAhead = (above.seq - 1, some above.header.previousLedgerHash) := by rw [hahead, hread]; rfl
    rw [hahead]
    by_cases hlast : scan.curr.seq = job.range.last
    · -- only the highest file may reach the end of the range
      rw [if_pos hlast, if_pos (by simp)]
      exact .inr ⟨rfl, fun hj => hne ((hjoins.mp hj).1.symm.trans hlast)⟩
    · have hcurr := hend.resolve_right hlast
      rw [if_neg hlast]
      by_cases habove : above.seq = work.currCheckpoint + 1
      · have hseq : above.seq - 1 = work.currCheckpoint := by simp [habove]
        rw [hseq, if_neg (by simp [h.checkpoint_ne_zero])]
        exact hverify _ hcurr.symm (hjoins.mpr ⟨hcurr, habove⟩)
      · have hseq : above.seq - 1 ≠ work.currCheckpoint := fun heq => habove (by simp [← heq])
        have hnot : ¬job.Joins work scan := fun hj => habove (hjoins.mp hj).2
        split
        · exact .inr ⟨rfl, hnot⟩
        · refine Meets.bind (Q := fun link => link.1 ≠ scan.curr.seq) (by rw [hcurr]; exact hseq) fun link hlink => ?_
          unfold verifyLastLedgerInCheckpoint
          rw [if_pos (Ne.symm hlink)]
          exact .inr ⟨rfl, hnot⟩

theorem torn_iff {records : List Record} {scan : Scan} (hfile : job.files work.currCheckpoint = some records)
    (hscan : job.scanFile records {} = .ok scan) :
    job.Torn work ↔ (scan.curr.seq = work.currCheckpoint ∨ scan.curr.seq = job.range.last) ∧ ¬job.Joins work scan := by
  constructor
  · rintro ⟨records', scan', hfile', hscan', htorn⟩
    cases hfile.symm.trans hfile'
    cases hscan.symm.trans hscan'
    exact htorn
  · exact fun htorn => ⟨records, scan, hfile, hscan, htorn⟩

/-- A checkpoint aborts exactly if its file is torn off; every other stop is returned or caught. -/
theorem At.verifyHistoryOfSingleCheckpoint (h : job.At k work) (hwf : job.WellFormed) (htrusts : job.TrustsLast) :
    Meets (job.verifyHistoryOfSingleCheckpoint work) (fun _ => ¬job.Torn work)
      (fun stop => stop.Caught ∧ ¬job.Torn work ∨ stop = .assertion ∧ job.Torn work) := by
  unfold Job.verifyHistoryOfSingleCheckpoint
  cases hfile : job.files work.currCheckpoint with
  | none =>
    refine .inl ⟨by decide, ?_⟩
    rintro ⟨records, scan, hsome, -⟩
    cases hfile.symm.trans hsome
  | some records =>
    dsimp only
    cases hscan : job.scanFile records {} with
    | error stop =>
      refine .inl ⟨(scanFile_error (hwf _ _ hfile) {}).of_error hscan, ?_⟩
      rintro ⟨records', scan', hfile', hscan', -⟩
      cases hfile.symm.trans hfile'
      cases hscan.symm.trans hscan'
    | ok scan =>
      have htorn := torn_iff hfile hscan
      rw [ok_bind]
      by_cases hend : scan.curr.seq = work.currCheckpoint ∨ scan.curr.seq = job.range.last
      · rw [if_neg (not_and_or.mpr (hend.imp not_not.mpr not_not.mpr)), ← bind_assoc]
        refine ((h.link_iff htrusts hend).mono (fun _ hjoins => hjoins) fun stop hstop => ?_).bind fun _ hjoins => ?_
        · rcases hstop with ⟨rfl, hjoins⟩ | ⟨rfl, hnot⟩
          · exact .inl ⟨by decide, fun ht => (htorn.mp ht).2 hjoins⟩
          · exact .inr ⟨rfl, htorn.mpr ⟨hend, hnot⟩⟩
        · exact fun ht => (htorn.mp ht).2 hjoins
      · rw [if_pos (not_or.mp hend)]
        exact .inl ⟨by decide, fun ht => hend (htorn.mp ht).1⟩

/-! ### The whole work -/

theorem graceful_iff_of_done (done : State) (hdone : ∀ work', done ≠ .running work') (hrun : job.onRun work = done)
    (hiff : done.Graceful ↔ ¬job.Torn work) :
    (∃ n, (job.crank n work).Graceful) ↔ ∀ n work', job.crank n work = .running work' → ¬job.Torn work' := by
  have hcrank : ∀ n, job.crank (n + 1) work = done := by
    intro n
    rw [Job.crank, hrun]
    cases done with
    | running work' => exact absurd rfl (hdone work')
    | success _ => rfl
    | failure _ => rfl
  constructor
  · rintro ⟨n, hn⟩ m work' hm
    cases n with
    | zero => exact hn.elim
    | succ n =>
      cases m with
      | zero =>
        cases hm
        exact hiff.mp (hcrank n ▸ hn)
      | succ m => exact absurd ((hcrank m).symm.trans hm) (hdone work')
  · intro hall
    exact ⟨1, (hcrank 0).symm ▸ hiff.mpr (hall 0 work rfl)⟩

/-- A work that goes on from a checkpoint that is not torn ends well exactly if the rest does. -/
theorem graceful_iff_of_running {next : Work} (hrun : job.onRun work = .running next) (hnot : ¬job.Torn work)
    (ih : (∃ n, (job.crank n next).Graceful) ↔ ∀ n work', job.crank n next = .running work' → ¬job.Torn work') :
    (∃ n, (job.crank n work).Graceful) ↔ ∀ n work', job.crank n work = .running work' → ¬job.Torn work' := by
  have hcrank : ∀ n, job.crank (n + 1) work = job.crank n next := fun n => by rw [Job.crank, hrun]
  constructor
  · rintro ⟨n, hn⟩ m work' hm
    cases n with
    | zero => exact hn.elim
    | succ n =>
      rw [hcrank] at hn
      cases m with
      | zero =>
        cases hm
        exact hnot
      | succ m =>
        rw [hcrank] at hm
        exact ih.mp ⟨n, hn⟩ m work' hm
  · intro hall
    obtain ⟨n, hn⟩ := ih.mpr fun m work' hm => hall (m + 1) work' ((hcrank m).trans hm)
    exact ⟨n + 1, (hcrank n).symm ▸ hn⟩

theorem At.graceful_iff (h : job.At k work) (hcount : job.range.count ≠ 0) (hwf : job.WellFormed)
    (htrusts : job.TrustsLast) :
    (∃ n, (job.crank n work).Graceful) ↔ ∀ n work', job.crank n work = .running work' → ¬job.Torn work' := by
  induction k using Nat.strong_induction_on generalizing work with
  | _ k ih =>
    have hsingle := h.verifyHistoryOfSingleCheckpoint hwf htrusts
    have hrun := h.onRun_eq hcount
    cases hverify : job.verifyHistoryOfSingleCheckpoint work with
    | error stop =>
      rw [hverify] at hrun
      refine graceful_iff_of_done (.failure stop) (fun _ hr => by cases hr) hrun ?_
      rcases hsingle.of_error hverify with ⟨hcaught, hnot⟩ | ⟨rfl, htorn⟩
      · exact iff_of_true hcaught hnot
      · exact iff_of_false (fun hcaught => hcaught.1 rfl) (not_not.mpr htorn)
    | ok next =>
      have hnot := hsingle.of_ok hverify
      rw [hverify] at hrun
      dsimp only at hrun
      by_cases hmin : job.isMinCheckpoint next = true
      · rw [if_pos hmin] at hrun
        exact graceful_iff_of_done (.success next) (fun _ hr => by cases hr) hrun (iff_of_true trivial hnot)
      · rw [if_neg hmin] at hrun
        obtain ⟨hat, hlt⟩ := h.next hcount hverify hmin
        exact graceful_iff_of_running hrun hnot (ih (k - 1) (Nat.sub_lt (Nat.zero_lt_of_lt hlt) Nat.one_pos) hat)

/-- **The work ends with a status, or with the exception that it catches, if and only if no file
that it comes to is torn off** from the one above it. -/
theorem endsGracefully_iff (job : Job) (hwf : job.WellFormed) (htrusts : job.TrustsLast) :
    (∃ n, (job.crank n job.onReset).Graceful) ↔
      job.range.count = 0 ∨ ∀ n work, job.crank n job.onReset = .running work → ¬job.Torn work := by
  by_cases hcount : job.range.count = 0
  · refine iff_of_true ⟨1, ?_⟩ (.inl hcount)
    rw [Job.crank, Job.onRun, if_pos hcount]
    trivial
  · rw [(At.onReset hcount).graceful_iff hcount hwf htrusts]
    exact ⟨.inr, fun h => h.resolve_left hcount⟩

/-- The header of a ledger, where the number of a ledger is its hash. -/
def numbered (s : UInt32) : LedgerHeaderHistoryEntry := ⟨s.toNat, { previousLedgerHash := s.toNat - 1, ledgerSeq := s }⟩

/-- Ledgers 2 to 15, all of the first two checkpoints of an accelerated node. -/
def twoCheckpoints : Job where
  sha256 := fun header => header.ledgerSeq.toNat
  accelerated := true
  range := ⟨2, 14, by decide, by decide⟩
  lastClosed := (1, 1)
  atOrAfterGenesis := by decide
  trustedMaxLedger := some (15, some 15)
  files := fun c =>
    if c = 15 then some ([8, 9, 10, 11, 12, 13, 14, 15].map fun s => .entry (numbered s))
    else if c = 7 then some ([2, 3, 4, 5, 6, 7].map fun s => .entry (numbered s))
    else none

theorem endsGracefully_complete : (∃ n, (twoCheckpoints.crank n twoCheckpoints.onReset).Graceful) ∧
    ∀ n work, twoCheckpoints.crank n twoCheckpoints.onReset = .running work → ¬twoCheckpoints.Torn work := by
  have hwf : twoCheckpoints.WellFormed := by
    intro c records hfile
    unfold twoCheckpoints at hfile
    dsimp only at hfile
    split at hfile
    · cases hfile
      simp
    · split at hfile
      · cases hfile
        simp
      · cases hfile
  have hends : ∃ n, (twoCheckpoints.crank n twoCheckpoints.onReset).Graceful := ⟨2, trivial⟩
  exact ⟨hends, ((endsGracefully_iff twoCheckpoints hwf ⟨_, rfl⟩).mp hends).resolve_left (by decide)⟩

/-- The same ledgers from an archive whose files hold only the last header of their checkpoint. -/
def lastHeaders : Job :=
  { firstCheckpoint [] with
    range := twoCheckpoints.range
    trustedMaxLedger := some (15, some (headerAfter 0 15).hash)
    files := fun c => if c = 15 ∨ c = 7 then some [.entry (headerAfter 0 c)] else none }

/-- **The second file aborts the process**: it ends at ledger 7, and the file above it begins at 15. -/
theorem lastHeaders_aborts : lastHeaders.crank 2 lastHeaders.onReset = .failure .assertion := rfl

end Job
end Diamnet.Catchup
