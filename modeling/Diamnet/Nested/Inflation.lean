import Diamnet.Nested.Levels
import Diamnet.Util.Leaders
import Diamnet.Util.Ranked

/-! Inflation winners through nested ledger transactions.

A level asks its parent for the destinations with the most votes, some more than it was asked for
and some with fewer votes, and corrects them by what it has recorded. The query of the root is
assumed to be right. Votes are summed without overflow: balances add up to the coins there are. -/
namespace Diamnet.Nested
open Ledger

structure InflationWinner where
  accountID : AccountID
  votes : Int
deriving DecidableEq

def minVotesToInclude : Int := 1000000000

/-- `std::map::operator[]` followed by an addition. -/
def addVotes (votes : Table AccountID Int) (accountID : AccountID) (x : Int) : Table AccountID Int :=
  votes.insert accountID ((votes.lookup accountID).getD 0 + x)

def addVote (sign : Int) (votes : Table AccountID Int) (entry : Option AccountEntry) : Table AccountID Int :=
  match entry with
  | none => votes
  | some acc => match acc.inflationDest with
    | none => votes
    | some dest => if minVotesToInclude ≤ acc.balance then addVotes votes dest (sign * acc.balance) else votes

def accountOf (view : View) (id : AccountID) : Option AccountEntry :=
  (view (.ledgerKey (.account id))).map EntryOf.data

/-- What a level's entries change about the votes. -/
def Level.getDeltaVotes (l : Level) (parent : View) : Table AccountID Int :=
  l.mEntry.entries.foldl (fun deltaVotes e => match e with
    | ⟨.ledgerKey (.account id), entry⟩ =>
      addVote (-1) (addVote 1 deltaVotes (entry.map EntryOf.data)) (accountOf parent id)
    | _ => deltaVotes) ∅

def getTotalVotes (parentWinners : List InflationWinner) (deltaVotes : Table AccountID Int) (minVotes : Int) :
    Table AccountID Int :=
  -- an account that is there stays as it is
  let totalVotes := parentWinners.foldl (fun totalVotes (winner : InflationWinner) =>
    if (totalVotes.lookup winner.accountID).isSome then totalVotes
    else AList.insert winner.accountID winner.votes totalVotes) (∅ : Table AccountID Int)
  deltaVotes.entries.foldl (fun totalVotes delta =>
    if (totalVotes.lookup delta.1).isSome ∨ minVotes ≤ delta.2 then addVotes totalVotes delta.1 delta.2
    else totalVotes) totalVotes

section
variable {κ : Type} [LinearOrder κ] (strKey : AccountID ↪ κ)

def winnerRank (w : InflationWinner) : (ℤ ×ₗ κ)ᵒᵈ := OrderDual.toDual (toLex (w.votes, strKey w.accountID))

def enumerateInflationWinners (totalVotes : Table AccountID Int) (maxWinners : Nat) (minVotes : Int) :
    List InflationWinner :=
  let winners := (totalVotes.entries.map fun total => ⟨total.1, total.2⟩).filter fun w : InflationWinner =>
    decide (minVotes ≤ w.votes)
  (winners.insertionSort fun a b => winnerRank strKey a ≤ winnerRank strKey b).take maxWinners

/-! ### What is to be computed -/

def accountIDOf : GeneralizedLedgerKey → Option AccountID
  | .ledgerKey (.account id) => some id
  | _ => none

def accountIDs (root : Root) (levels : List Level) : List AccountID :=
  ((root.database.keys.map GeneralizedLedgerKey.ledgerKey).filterMap accountIDOf ++
    levels.flatMap fun l => l.mEntry.keys.filterMap accountIDOf).dedup

/-- The votes of all visible accounts, by destination. -/
def visibleVotes (root : Root) (levels : List Level) : Table AccountID Int :=
  (accountIDs root levels).foldl (fun votes id => addVote 1 votes (accountOf (getNewestVersion root levels) id)) ∅

def inflationWinners (root : Root) (levels : List Level) (maxWinners : Nat) (minVotes : Int) : List InflationWinner :=
  enumerateInflationWinners strKey (visibleVotes root levels) maxWinners minVotes

/-! ### What is computed -/

/-- How many destinations have other votes than in the parent. -/
def numChanged (deltaVotes : Table AccountID Int) : Nat := deltaVotes.entries.countP fun delta => delta.2 ≠ 0

def maxIncrease (deltaVotes : Table AccountID Int) : Int := deltaVotes.entries.foldl (fun m delta => max m delta.2) 0

def newMinVotes (deltaVotes : Table AccountID Int) (minVotes : Int) : Int :=
  if maxIncrease deltaVotes < minVotes then minVotes - maxIncrease deltaVotes else 0

def getInflationWinners (root : Root) : List Level → Nat → Int → Except Fault (List InflationWinner)
  | [], maxWinners, minVotes => pure (inflationWinners strKey root [] maxWinners minVotes)
  | l :: rest, maxWinners, minVotes =>
    let deltaVotes := l.getDeltaVotes (getNewestVersion root rest)
    if 2 ^ 64 - 1 - numChanged deltaVotes < maxWinners then throw (.runtimeError "max winners overflowed")
    else do
      let parentWinners ← getInflationWinners root rest (maxWinners + numChanged deltaVotes)
        (newMinVotes deltaVotes minVotes)
      pure (enumerateInflationWinners strKey (getTotalVotes parentWinners deltaVotes minVotes) maxWinners minVotes)

end

/-! ### Tables of votes -/

def votesFor (votes : Table AccountID Int) (dest : AccountID) : Int := (votes.lookup dest).getD 0

theorem votesFor_of_lookup {votes : Table AccountID Int} {dest : AccountID} {v : Int} (h : votes.lookup dest = some v) :
    votesFor votes dest = v := by
  rw [votesFor, h]
  rfl

theorem votesFor_empty (dest : AccountID) : votesFor ∅ dest = 0 := by
  rfl

def contribution (entry : Option AccountEntry) (dest : AccountID) : Int :=
  match entry with
  | none => 0
  | some acc => if acc.inflationDest = some dest ∧ minVotesToInclude ≤ acc.balance then acc.balance else 0

theorem contribution_nonneg (entry : Option AccountEntry) (dest : AccountID) : 0 ≤ contribution entry dest := by
  unfold contribution minVotesToInclude
  split
  · exact le_rfl
  · split <;> omega

theorem votesFor_addVotes (votes : Table AccountID Int) (accountID : AccountID) (x : Int) (dest : AccountID) :
    votesFor (addVotes votes accountID x) dest = votesFor votes dest + if dest = accountID then x else 0 := by
  unfold votesFor addVotes
  by_cases h : dest = accountID
  · subst h
    rw [AList.lookup_insert, if_pos rfl]
    rfl
  · rw [AList.lookup_insert_ne h, if_neg h, add_zero]

theorem votesFor_addVote (sign : Int) (votes : Table AccountID Int) (entry : Option AccountEntry) (dest : AccountID) :
    votesFor (addVote sign votes entry) dest = votesFor votes dest + sign * contribution entry dest := by
  unfold addVote contribution
  cases entry with
  | none => simp
  | some acc =>
    dsimp only
    cases acc.inflationDest with
    | none => simp
    | some d =>
      dsimp only
      by_cases hvotes : minVotesToInclude ≤ acc.balance
      · rw [if_pos hvotes, votesFor_addVotes]
        by_cases hd : dest = d
        · simp [hd, hvotes]
        · simp [hd, Ne.symm hd]
      · simp [hvotes]

theorem votesFor_foldl_addVote (ids : List AccountID) (entryOf : AccountID → Option AccountEntry)
    (votes : Table AccountID Int) (dest : AccountID) :
    votesFor (ids.foldl (fun votes id => addVote 1 votes (entryOf id)) votes) dest =
      votesFor votes dest + (ids.map fun id => contribution (entryOf id) dest).sum := by
  induction ids generalizing votes with
  | nil => simp
  | cons id ids ih =>
    rw [List.foldl_cons, ih, votesFor_addVote, List.map_cons, List.sum_cons]
    ring

def Positive (votes : Table AccountID Int) : Prop := ∀ dest v, votes.lookup dest = some v → 0 < v

theorem Positive.addVote {votes : Table AccountID Int} (h : Positive votes) (entry : Option AccountEntry) :
    Positive (addVote 1 votes entry) := by
  unfold Nested.addVote
  split
  · exact h
  · split
    · exact h
    · next acc _ dest _ =>
      split
      · next hvotes =>
        intro d v hv
        unfold addVotes at hv
        by_cases hd : d = dest
        · rw [hd, AList.lookup_insert] at hv
          cases hv
          have hbefore : 0 ≤ (votes.lookup dest).getD 0 := by
            cases hlookup : votes.lookup dest with
            | none => exact le_rfl
            | some w => exact (h dest w hlookup).le
          unfold minVotesToInclude at hvotes
          omega
        · rw [AList.lookup_insert_ne hd] at hv
          exact h d v hv
      · exact h

theorem Positive.lookup_iff {votes : Table AccountID Int} (h : Positive votes) {dest : AccountID} {v : Int} :
    votes.lookup dest = some v ↔ votesFor votes dest = v ∧ 0 < v := by
  constructor
  · intro hv
    exact ⟨votesFor_of_lookup hv, h dest v hv⟩
  · intro ⟨hv, hpos⟩
    cases hlookup : votes.lookup dest with
    | none =>
      rw [votesFor, hlookup] at hv
      exact absurd hv hpos.ne
    | some w => rw [← hv, votesFor_of_lookup hlookup]

/-! ### Lists of winners -/

def candidates (votes : Table AccountID Int) (minVotes : Int) : Finset AccountID :=
  {dest ∈ votes.keys.toFinset | minVotes ≤ votesFor votes dest}

theorem mem_candidates {votes : Table AccountID Int} {minVotes : Int} {dest : AccountID} :
    dest ∈ candidates votes minVotes ↔ ∃ v, votes.lookup dest = some v ∧ minVotes ≤ v := by
  unfold candidates
  rw [Finset.mem_filter, List.mem_toFinset, ← AList.mem_keys, ← AList.lookup_isSome, Option.isSome_iff_exists]
  constructor
  · intro ⟨⟨v, hv⟩, hmin⟩
    rw [votesFor_of_lookup hv] at hmin
    exact ⟨v, hv, hmin⟩
  · intro ⟨v, hv, hmin⟩
    rw [votesFor_of_lookup hv]
    exact ⟨⟨v, hv⟩, hmin⟩

end Diamnet.Nested
