import Diamnet.Nested.Inflation

/-! When inflation winners are found through nested ledger transactions.

A level asks its parent for as many more winners as it has changed destinations, and adds its changes
to what it is told. It is never told too many votes, so it finds the winners exactly if it is told all
that each of them had (`levelWinners_eq_iff`). -/
namespace Diamnet.Nested
open Ledger List InflationWinner

/-! ### Enumeration -/

section
variable {κ : Type} [LinearOrder κ] (strKey : AccountID ↪ κ)

/-- Those with enough votes, in the order of the table. -/
def unsorted (votes : Table AccountID Int) (minVotes : Int) : List InflationWinner :=
  (votes.entries.map fun total => ⟨total.1, total.2⟩).filter fun w : InflationWinner => decide (minVotes ≤ w.votes)

variable {votes : Table AccountID Int} {minVotes : Int}

variable {w : InflationWinner}

theorem mem_unsorted :
    w ∈ unsorted votes minVotes ↔ votes.lookup w.accountID = some w.votes ∧ minVotes ≤ w.votes := by
  unfold unsorted
  rw [mem_filter, mem_map, decide_eq_true_eq, ← Option.mem_def, AList.mem_lookup_iff]
  refine and_congr_left fun _ => ?_
  constructor
  · intro ⟨total, htotal, hw⟩
    rw [← hw]
    exact htotal
  · intro h
    exact ⟨_, h, rfl⟩

variable (votes minVotes) in
theorem unsorted_accountIDs_nodup : ((unsorted votes minVotes).map InflationWinner.accountID).Nodup := by
  refine (filter_sublist.map _).nodup ?_
  rw [map_map]
  exact votes.keys_nodup

def ranking (votes : Table AccountID Int) (minVotes : Int) : List InflationWinner :=
  (unsorted votes minVotes).insertionSort fun a b => winnerRank strKey a ≤ winnerRank strKey b

theorem ranking_perm : (ranking strKey votes minVotes).Perm (unsorted votes minVotes) := perm_insertionSort _ _

theorem ranking_ascending : Ascending (winnerRank strKey) (ranking strKey votes minVotes) := by
  refine ascending_of_sorted (pairwise_insertionSort _ _) ?_
  refine ((ranking_perm strKey).map _).nodup_iff.mpr (Nodup.of_map (fun rank => (ofLex (OrderDual.ofDual rank)).2) ?_)
  rw [map_map]
  have hkeys := (unsorted_accountIDs_nodup votes minVotes).map strKey.injective
  rw [map_map] at hkeys
  exact hkeys

theorem winnerRank_lt {a b : InflationWinner} (ha : votes.lookup a.accountID = some a.votes)
    (hb : votes.lookup b.accountID = some b.votes) : winnerRank strKey b < winnerRank strKey a ↔
      standing strKey (votesFor votes) a.accountID < standing strKey (votesFor votes) b.accountID := by
  unfold winnerRank standing
  rw [OrderDual.toDual_lt_toDual, votesFor_of_lookup ha, votesFor_of_lookup hb]

theorem length_filter_ranking (hw : votes.lookup w.accountID = some w.votes) :
    ((ranking strKey votes minVotes).filter fun b => decide (winnerRank strKey b < winnerRank strKey w)).length =
      {dest ∈ candidates votes minVotes |
        standing strKey (votesFor votes) w.accountID < standing strKey (votesFor votes) dest}.card := by
  rw [((ranking_perm strKey).filter _).length_eq]
  have hnodup : (((unsorted votes minVotes).filter fun b =>
      decide (winnerRank strKey b < winnerRank strKey w)).map accountID).Nodup :=
    (filter_sublist.map _).nodup (unsorted_accountIDs_nodup votes minVotes)
  rw [← length_map accountID, ← toFinset_card_of_nodup hnodup]
  congr 1
  ext dest
  rw [mem_toFinset, mem_map, Finset.mem_filter, mem_candidates]
  constructor
  · intro ⟨b, hb, hdest⟩
    rw [mem_filter, mem_unsorted, decide_eq_true_eq] at hb
    subst hdest
    exact ⟨⟨b.votes, hb.1⟩, (winnerRank_lt strKey hw hb.1.1).mp hb.2⟩
  · intro ⟨⟨v, hv⟩, hlt⟩
    refine ⟨⟨dest, v⟩, ?_, rfl⟩
    rw [mem_filter, mem_unsorted, decide_eq_true_eq]
    exact ⟨hv, (winnerRank_lt strKey hw hv.1).mpr hlt⟩

variable {maxWinners : Nat}

/-- **Who is enumerated.** -/
theorem mem_enumerate :
    w ∈ enumerateInflationWinners strKey votes maxWinners minVotes ↔
      Leads strKey (votesFor votes) (candidates votes minVotes) maxWinners w.accountID ∧
        votesFor votes w.accountID = w.votes := by
  have htake : enumerateInflationWinners strKey votes maxWinners minVotes =
      (ranking strKey votes minVotes).take maxWinners := rfl
  have hmem : w ∈ ranking strKey votes minVotes ↔ votes.lookup w.accountID = some w.votes ∧ minVotes ≤ w.votes :=
    (ranking_perm strKey).mem_iff.trans mem_unsorted
  rw [htake]
  constructor
  · intro h
    have hw := hmem.mp (mem_of_mem_take h)
    rw [mem_take_iff (ranking_ascending strKey) (hmem.mpr hw), length_filter_ranking strKey hw.1] at h
    exact ⟨⟨mem_candidates.mpr ⟨_, hw⟩, h⟩, votesFor_of_lookup hw.1⟩
  · intro ⟨hlead, hw⟩
    obtain ⟨v, hv, hmin⟩ := mem_candidates.mp hlead.1
    obtain rfl : v = w.votes := (votesFor_of_lookup hv).symm.trans hw
    rw [mem_take_iff (ranking_ascending strKey) (hmem.mpr ⟨hv, hmin⟩), length_filter_ranking strKey hv]
    exact hlead.2

theorem enumerate_ascending :
    Ascending (winnerRank strKey) (enumerateInflationWinners strKey votes maxWinners minVotes) :=
  Pairwise.sublist (take_sublist _ _) (ranking_ascending strKey)

theorem enumerate_accountIDs_nodup :
    ((enumerateInflationWinners strKey votes maxWinners minVotes).map accountID).Nodup := by
  refine ((take_sublist _ _).map _).nodup ?_
  exact ((ranking_perm strKey).map _).nodup_iff.mpr (unsorted_accountIDs_nodup votes minVotes)

end

/-! ### Visible votes -/

theorem accountIDOf_eq_some {k : GeneralizedLedgerKey} {id : AccountID} :
    accountIDOf k = some id ↔ k = .ledgerKey (.account id) := by
  constructor
  · intro h
    unfold accountIDOf at h
    split at h
    · cases h
      rfl
    · cases h
  · intro h
    rw [h]
    rfl

theorem accountIDOf_inj {k k' : GeneralizedLedgerKey} {id : AccountID} (h : id ∈ accountIDOf k)
    (h' : id ∈ accountIDOf k') : k = k' :=
  (accountIDOf_eq_some.mp h).trans (accountIDOf_eq_some.mp h').symm

theorem contribution_none (dest : AccountID) : contribution none dest = 0 := rfl

section
variable (root : Root) (levels : List Level)

theorem mem_accountIDs {id : AccountID} : id ∈ accountIDs root levels ↔
    .account id ∈ root.database.keys ∨ ∃ l ∈ levels, .ledgerKey (.account id) ∈ l.mEntry.keys := by
  unfold accountIDs
  rw [mem_dedup, mem_append, mem_filterMap, mem_flatMap]
  refine or_congr ?_ ?_
  · constructor
    · intro ⟨k, hk, hid⟩
      obtain ⟨key, hkey, rfl⟩ := mem_map.mp hk
      cases accountIDOf_eq_some.mp hid
      exact hkey
    · intro h
      exact ⟨_, mem_map_of_mem h, rfl⟩
  · refine exists_congr fun l => and_congr_right fun _ => ?_
    rw [mem_filterMap]
    constructor
    · intro ⟨k, hk, hid⟩
      rw [← accountIDOf_eq_some.mp hid]
      exact hk
    · intro h
      exact ⟨_, h, rfl⟩

theorem accountOf_eq_none {id : AccountID} (h : id ∉ accountIDs root levels) :
    accountOf (getNewestVersion root levels) id = none := by
  refine Option.map_eq_none_iff.mpr ?_
  induction levels with
  | nil =>
    rw [mem_accountIDs, not_or] at h
    exact AList.lookup_eq_none.mpr h.1
  | cons l rest ih =>
    rw [mem_accountIDs, not_or] at h
    have hl := AList.lookup_eq_none.mpr fun hmem => h.2 ⟨l, .head _, hmem⟩
    refine (Overlay.over_of_lookup_none hl).trans (ih ?_)
    rw [mem_accountIDs, not_or]
    exact ⟨h.1, fun ⟨l', hl', hmem⟩ => h.2 ⟨l', .tail _ hl', hmem⟩⟩

theorem visibleVotes_positive : Positive (visibleVotes root levels) := by
  refine foldlRecOn (motive := Positive) _ _ (fun dest v h => ?_) fun votes h id _ => h.addVote _
  cases h

/-- The votes of a destination, summed over any accounts that include all that are known. -/
theorem votesFor_visibleVotes {S : Finset AccountID} (hS : ∀ id ∈ accountIDs root levels, id ∈ S) (dest : AccountID) :
    votesFor (visibleVotes root levels) dest =
      ∑ id ∈ S, contribution (accountOf (getNewestVersion root levels) id) dest := by
  have hnodup : (accountIDs root levels).Nodup := nodup_dedup _
  unfold visibleVotes
  rw [votesFor_foldl_addVote, ← sum_toFinset _ hnodup]
  rw [votesFor_empty, zero_add]
  refine Finset.sum_subset (fun id hid => hS id (mem_toFinset.mp hid)) fun id _ hid => ?_
  rw [accountOf_eq_none root levels (fun h => hid (mem_toFinset.mpr h)), contribution_none]

theorem votesFor_visibleVotes_nonneg (dest : AccountID) : 0 ≤ votesFor (visibleVotes root levels) dest := by
  rw [votesFor_visibleVotes root levels (S := (accountIDs root levels).toFinset) fun id hid => mem_toFinset.mpr hid]
  exact Finset.sum_nonneg fun id _ => contribution_nonneg _ _

end

/-! ### Changes -/

section
variable (root : Root) (l : Level) (rest : List Level)

def changeOf (parent : View) (dest : AccountID) : (Sigma fun k => Option (GeneralizedLedgerEntry k)) → Int
  | ⟨.ledgerKey (.account id), entry⟩ =>
    contribution (entry.map EntryOf.data) dest - contribution (accountOf parent id) dest
  | _ => 0

theorem votesFor_getDeltaVotes (parent : View) (dest : AccountID) :
    votesFor (l.getDeltaVotes parent) dest = (l.mEntry.entries.map (changeOf parent dest)).sum := by
  have hfold (entries : List (Sigma fun k => Option (GeneralizedLedgerEntry k))) (votes : Table AccountID Int) :
      votesFor (entries.foldl (fun deltaVotes e => match e with
        | ⟨.ledgerKey (.account id), entry⟩ =>
          addVote (-1) (addVote 1 deltaVotes (entry.map EntryOf.data)) (accountOf parent id)
        | _ => deltaVotes) votes) dest = votesFor votes dest + (entries.map (changeOf parent dest)).sum := by
    induction entries generalizing votes with
    | nil => simp
    | cons e entries ih =>
      rw [foldl_cons, ih, map_cons, sum_cons, ← add_assoc]
      congr 1
      unfold changeOf
      split
      · rw [votesFor_addVote, votesFor_addVote]
        ring
      · rw [add_zero]
  exact (hfold l.mEntry.entries ∅).trans (by rw [votesFor_empty, zero_add])

/-- What an account gives a destination more at the level than below. -/
def gain (parent : View) (m : EntryMap) (dest : AccountID) (id : AccountID) : Int :=
  contribution (accountOf (m.onto parent) id) dest - contribution (accountOf parent id) dest

theorem gain_of_not_recorded {parent : View} {m : EntryMap} {id : AccountID}
    (h : .ledgerKey (.account id) ∉ m.keys) (dest : AccountID) : gain parent m dest id = 0 := by
  have hover : m.onto parent (.ledgerKey (.account id)) = parent (.ledgerKey (.account id)) :=
    Overlay.over_of_lookup_none (AList.lookup_eq_none.mpr h)
  unfold gain accountOf
  rw [hover, sub_self]

theorem sum_changeOf_of_mem {parent : View} {m : EntryMap} (dest : AccountID)
    {entries : List (Sigma fun k => Option (GeneralizedLedgerEntry k))} (h : ∀ e ∈ entries, e ∈ m.entries) :
    (entries.map (changeOf parent dest)).sum =
      ((entries.keys.filterMap accountIDOf).map (gain parent m dest)).sum := by
  induction entries with
  | nil => rfl
  | cons e entries ih =>
    obtain ⟨k, entry⟩ := e
    obtain ⟨he, h⟩ := forall_mem_cons.mp h
    rw [map_cons, sum_cons, ih h, keys_cons]
    cases hid : accountIDOf k with
    | none =>
      have hzero : changeOf parent dest ⟨k, entry⟩ = 0 := by
        unfold changeOf
        split
        · next heq =>
          cases heq
          cases hid
        · rfl
      rw [hzero, zero_add, filterMap_cons_none hid]
    | some id =>
      cases accountIDOf_eq_some.mp hid
      have hover : m.onto parent (.ledgerKey (.account id)) = entry :=
        Overlay.over_of_lookup (AList.mem_lookup_iff.mpr he)
      have hgain : changeOf parent dest ⟨.ledgerKey (.account id), entry⟩ = gain parent m dest id := by
        unfold gain accountOf
        rw [hover]
        rfl
      rw [filterMap_cons_some hid, map_cons, sum_cons, hgain]

/-- **What a level changes about the votes** of a destination. -/
theorem votesFor_cons : votesFor (visibleVotes root (l :: rest)) = fun dest =>
    votesFor (visibleVotes root rest) dest + votesFor (l.getDeltaVotes (getNewestVersion root rest)) dest := by
  funext dest
  let S := (accountIDs root (l :: rest)).toFinset
  have hrest : ∀ id ∈ accountIDs root rest, id ∈ S := by
    intro id hid
    rw [mem_accountIDs] at hid
    rw [mem_toFinset, mem_accountIDs]
    exact hid.imp_right fun ⟨l', hl', hmem⟩ => ⟨l', .tail _ hl', hmem⟩
  have hdelta : votesFor (l.getDeltaVotes (getNewestVersion root rest)) dest =
      ∑ id ∈ S, gain (getNewestVersion root rest) l.mEntry dest id := by
    have hnodup := l.mEntry.keys_nodup.filterMap fun k k' id => accountIDOf_inj
    rw [votesFor_getDeltaVotes, sum_changeOf_of_mem dest fun e he => he]
    refine (sum_toFinset _ hnodup).symm.trans (Finset.sum_subset ?_ ?_)
    · intro id hid
      obtain ⟨k, hk, hid⟩ := mem_filterMap.mp (mem_toFinset.mp hid)
      rw [accountIDOf_eq_some.mp hid] at hk
      rw [mem_toFinset, mem_accountIDs]
      exact .inr ⟨l, .head _, hk⟩
    · intro id _ hid
      refine gain_of_not_recorded (fun hmem => hid ?_) dest
      exact mem_toFinset.mpr (mem_filterMap.mpr ⟨_, hmem, rfl⟩)
  rw [hdelta, votesFor_visibleVotes root rest hrest,
    votesFor_visibleVotes root (l :: rest) (S := S) fun id hid => mem_toFinset.mpr hid, ← Finset.sum_add_distrib]
  refine Finset.sum_congr rfl fun id _ => ?_
  unfold gain
  rw [add_sub_cancel]
  rfl

end

/-! ### Totals -/

section
variable {parentWinners : List InflationWinner}

theorem lookup_parentWinners (votes : Table AccountID Int) (dest : AccountID) :
    (parentWinners.foldl (fun totalVotes (winner : InflationWinner) =>
      if (totalVotes.lookup winner.accountID).isSome then totalVotes
      else AList.insert winner.accountID winner.votes totalVotes) votes).lookup dest =
    (votes.lookup dest).or ((parentWinners.find? fun w => w.accountID = dest).map InflationWinner.votes) := by
  induction parentWinners generalizing votes with
  | nil => simp
  | cons w parentWinners ih =>
    rw [foldl_cons, ih]
    by_cases hw : w.accountID = dest
    · subst hw
      cases hlookup : votes.lookup w.accountID with
      | none => simp
      | some v => simp [hlookup]
    · rw [find?_cons_of_neg (by simpa using hw)]
      split
      · rfl
      · rw [AList.lookup_insert_ne (Ne.symm hw)]

theorem find?_winner (hnodup : (parentWinners.map accountID).Nodup) {w : InflationWinner}
    (hw : w ∈ parentWinners) : parentWinners.find? (fun w' => w'.accountID = w.accountID) = some w := by
  induction parentWinners with
  | nil => cases hw
  | cons w' parentWinners ih =>
    rw [map_cons, nodup_cons] at hnodup
    cases hw with
    | head => exact find?_cons_of_pos (by simp)
    | tail _ hw =>
      have hne : w'.accountID ≠ w.accountID := fun h => hnodup.1 (h ▸ mem_map_of_mem hw)
      rw [find?_cons_of_neg (by simpa using hne)]
      exact ih hnodup.2 hw

theorem lookup_getTotalVotes (deltaVotes : Table AccountID Int) (minVotes : Int) (dest : AccountID) :
    (getTotalVotes parentWinners deltaVotes minVotes).lookup dest =
      let known := (parentWinners.find? fun w => w.accountID = dest).map InflationWinner.votes
      match deltaVotes.lookup dest with
      | some delta => if known.isSome ∨ minVotes ≤ delta then some (known.getD 0 + delta) else known
      | none => known := by
  have hself (t : Table AccountID Int) (delta : Int) :
      (if (t.lookup dest).isSome ∨ minVotes ≤ delta then addVotes t dest delta else t).lookup dest =
        if (t.lookup dest).isSome ∨ minVotes ≤ delta then some ((t.lookup dest).getD 0 + delta) else t.lookup dest := by
    split
    · exact AList.lookup_insert _
    · rfl
  have hother (t : Table AccountID Int) (delta : Sigma fun _ : AccountID => Int) (h : delta.1 ≠ dest) :
      (if (t.lookup delta.1).isSome ∨ minVotes ≤ delta.2 then addVotes t delta.1 delta.2 else t).lookup dest =
        t.lookup dest := by
    split
    · exact AList.lookup_insert_ne h.symm
    · rfl
  refine (Overlay.read_foldl (fun t : Table AccountID Int => t.lookup dest)
    (fun known delta => if known.isSome ∨ minVotes ≤ delta then some (known.getD 0 + delta) else known)
    hself hother deltaVotes.nodupKeys _).trans ?_
  rw [lookup_parentWinners, AList.lookup_empty, Option.none_or]
  unfold AList.lookup
  cases deltaVotes.entries.dlookup dest <;> rfl

theorem lookup_of_reported (hnodup : (parentWinners.map accountID).Nodup) {w : InflationWinner} (hw : w ∈ parentWinners)
    (deltaVotes : Table AccountID Int) (minVotes : Int) :
    (getTotalVotes parentWinners deltaVotes minVotes).lookup w.accountID =
      some (w.votes + votesFor deltaVotes w.accountID) := by
  rw [lookup_getTotalVotes, find?_winner hnodup hw, votesFor]
  cases deltaVotes.lookup w.accountID with
  | none => simp
  | some delta => simp

theorem lookup_of_not_reported {dest : AccountID} (h : ∀ w ∈ parentWinners, w.accountID ≠ dest)
    (deltaVotes : Table AccountID Int) (minVotes : Int) :
    (getTotalVotes parentWinners deltaVotes minVotes).lookup dest =
      (deltaVotes.lookup dest).filter fun delta => decide (minVotes ≤ delta) := by
  have hnone : parentWinners.find? (fun w => w.accountID = dest) = none :=
    find?_eq_none.mpr fun w hw hdest => h w hw (of_decide_eq_true hdest)
  rw [lookup_getTotalVotes, hnone]
  cases deltaVotes.lookup dest with
  | none => rfl
  | some delta => simp [Option.filter]

end

/-! ### One level -/

section
variable {κ : Type} [LinearOrder κ] (strKey : AccountID ↪ κ) (root : Root)

theorem mem_inflationWinners {levels : List Level} {maxWinners : Nat} {minVotes : Int} {U : Finset AccountID}
    (hU : ∀ dest, 0 < votesFor (visibleVotes root levels) dest → dest ∈ U) {w : InflationWinner} :
    w ∈ inflationWinners strKey root levels maxWinners minVotes ↔
      Leads strKey (votesFor (visibleVotes root levels)) (contenders U (votesFor (visibleVotes root levels)) minVotes)
          maxWinners w.accountID ∧ votesFor (visibleVotes root levels) w.accountID = w.votes := by
  have hcandidates : candidates (visibleVotes root levels) minVotes =
      contenders U (votesFor (visibleVotes root levels)) minVotes := by
    ext dest
    rw [mem_candidates, mem_contenders]
    constructor
    · intro ⟨v, hv, hmin⟩
      obtain ⟨rfl, hpos⟩ := (visibleVotes_positive root levels).lookup_iff.mp hv
      exact ⟨hU dest hpos, hpos, hmin⟩
    · intro ⟨_, hpos, hmin⟩
      exact ⟨_, (visibleVotes_positive root levels).lookup_iff.mpr ⟨rfl, hpos⟩, hmin⟩
  rw [← hcandidates]
  exact mem_enumerate strKey

variable {levels : List Level}

theorem inflationWinners_pos {maxWinners : Nat} {minVotes : Int} {w : InflationWinner}
    (h : w ∈ inflationWinners strKey root levels maxWinners minVotes) : 0 < w.votes := by
  obtain ⟨hlead, hvotes⟩ := (mem_enumerate strKey).mp h
  obtain ⟨v, hv, -⟩ := mem_candidates.mp hlead.1
  have hpos := visibleVotes_positive root levels _ v hv
  rw [votesFor_of_lookup hv] at hvotes
  omega

/-- A list that gives nobody more votes than there are. -/
structure Answer (levels : List Level) (winners : List InflationWinner) : Prop where
  nodup : (winners.map accountID).Nodup
  bounds : ∀ w ∈ winners, 0 ≤ w.votes ∧ w.votes ≤ votesFor (visibleVotes root levels) w.accountID

theorem answer_root (maxWinners : Nat) (minVotes : Int) :
    Answer root [] (inflationWinners strKey root [] maxWinners minVotes) where
  nodup := enumerate_accountIDs_nodup strKey
  bounds _ hw := ⟨(inflationWinners_pos strKey root hw).le, ((mem_enumerate strKey).mp hw).2.ge⟩

def levelWinners (l : Level) (rest : List Level) (maxWinners : Nat) (minVotes : Int)
    (parentWinners : List InflationWinner) : List InflationWinner :=
  enumerateInflationWinners strKey
    (getTotalVotes parentWinners (l.getDeltaVotes (getNewestVersion root rest)) minVotes) maxWinners minVotes

theorem maxIncrease_nonneg (deltaVotes : Table AccountID Int) : 0 ≤ maxIncrease deltaVotes :=
  foldlRecOn (motive := fun m : Int => 0 ≤ m) deltaVotes.entries _ le_rfl fun _ h _ _ => le_max_of_le_left h

theorem newMinVotes_nonneg (deltaVotes : Table AccountID Int) (minVotes : Int) : 0 ≤ newMinVotes deltaVotes minVotes := by
  unfold newMinVotes
  split <;> omega

theorem newMinVotes_le (deltaVotes : Table AccountID Int) {minVotes p : Int} (hpos : 0 < p) (hp : minVotes ≤ p) :
    newMinVotes deltaVotes minVotes ≤ p := by
  have := maxIncrease_nonneg deltaVotes
  unfold newMinVotes
  split <;> omega

theorem card_changed_le (deltaVotes : Table AccountID Int) (U : Finset AccountID) :
    {dest ∈ U | votesFor deltaVotes dest ≠ 0}.card ≤ numChanged deltaVotes := by
  have hsubset : {dest ∈ U | votesFor deltaVotes dest ≠ 0} ⊆
      ((deltaVotes.entries.filter fun delta => delta.2 ≠ 0).map Sigma.fst).toFinset := by
    intro dest hdest
    obtain ⟨-, hne⟩ := Finset.mem_filter.mp hdest
    cases hlookup : deltaVotes.lookup dest with
    | none =>
      rw [votesFor, hlookup] at hne
      exact absurd rfl hne
    | some v =>
      rw [votesFor_of_lookup hlookup] at hne
      refine mem_toFinset.mpr (mem_map.mpr ⟨⟨dest, v⟩, mem_filter.mpr ⟨?_, decide_eq_true hne⟩, rfl⟩)
      exact AList.mem_lookup_iff.mp hlookup
  refine (Finset.card_le_card hsubset).trans ((toFinset_card_le _).trans ?_)
  rw [length_map, numChanged, countP_eq_length_filter]

variable {strKey root} {l : Level} {rest : List Level} {maxWinners : Nat} {minVotes : Int}
  {parentWinners : List InflationWinner}

variable {dest : AccountID}

/-- The destinations with votes, at the level or below. -/
def destinations (root : Root) (l : Level) (rest : List Level) : Finset AccountID :=
  (visibleVotes root (l :: rest)).keys.toFinset ∪ (visibleVotes root rest).keys.toFinset

theorem mem_keys_of_pos (h : 0 < votesFor (visibleVotes root levels) dest) :
    dest ∈ (visibleVotes root levels).keys.toFinset := by
  have hlookup := (visibleVotes_positive root levels).lookup_iff.mpr ⟨rfl, h⟩
  exact mem_toFinset.mpr (AList.mem_keys.mp (AList.lookup_isSome.mp (Option.isSome_of_mem hlookup)))

theorem mem_destinations (h : 0 < votesFor (visibleVotes root (l :: rest)) dest) : dest ∈ destinations root l rest :=
  Finset.mem_union_left _ (mem_keys_of_pos h)

theorem mem_destinations_rest (h : 0 < votesFor (visibleVotes root rest) dest) : dest ∈ destinations root l rest :=
  Finset.mem_union_right _ (mem_keys_of_pos h)

section
variable (h : Answer root rest parentWinners)
include h

theorem underestimates (minVotes : Int) : Underestimates (votesFor (visibleVotes root (l :: rest)))
    (votesFor (getTotalVotes parentWinners (l.getDeltaVotes (getNewestVersion root rest)) minVotes))
    (candidates (getTotalVotes parentWinners (l.getDeltaVotes (getNewestVersion root rest)) minVotes) minVotes)
    minVotes where
  threshold dest hdest := by
    obtain ⟨v, hv, hmin⟩ := mem_candidates.mp hdest
    rw [votesFor_of_lookup hv]
    exact hmin
  le dest hdest := by
    obtain ⟨v, hv, -⟩ := mem_candidates.mp hdest
    have hcons := congrFun (votesFor_cons root l rest) dest
    rw [votesFor_of_lookup hv, hcons]
    by_cases hreported : ∃ w ∈ parentWinners, w.accountID = dest
    · obtain ⟨w, hw, rfl⟩ := hreported
      have hle := (h.bounds w hw).2
      have hsum := Option.some.inj ((lookup_of_reported h.nodup hw _ _).symm.trans hv)
      omega
    · rw [lookup_of_not_reported (by simpa using hreported), Option.filter_eq_some_iff] at hv
      have hnonneg := votesFor_visibleVotes_nonneg root rest dest
      rw [← votesFor_of_lookup hv.1]
      omega

/-- The total of one with enough votes is right if it had none before, or the parent reports what it had. -/
theorem total_right_iff (hpos : 0 < votesFor (visibleVotes root (l :: rest)) dest)
    (hmin : minVotes ≤ votesFor (visibleVotes root (l :: rest)) dest) :
    (dest ∈ candidates (getTotalVotes parentWinners (l.getDeltaVotes (getNewestVersion root rest)) minVotes) minVotes ∧
        votesFor (getTotalVotes parentWinners (l.getDeltaVotes (getNewestVersion root rest)) minVotes) dest =
          votesFor (visibleVotes root (l :: rest)) dest) ↔
      votesFor (visibleVotes root rest) dest = 0 ∨ ⟨dest, votesFor (visibleVotes root rest) dest⟩ ∈ parentWinners := by
  set deltaVotes := l.getDeltaVotes (getNewestVersion root rest)
  have hcons : votesFor (visibleVotes root (l :: rest)) dest =
      votesFor (visibleVotes root rest) dest + votesFor deltaVotes dest := congrFun (votesFor_cons root l rest) dest
  rw [hcons] at hpos hmin ⊢
  by_cases hreported : ∃ w ∈ parentWinners, w.accountID = dest
  · obtain ⟨w, hw, rfl⟩ := hreported
    have hlookup := lookup_of_reported h.nodup hw deltaVotes minVotes
    have hbounds := h.bounds w hw
    rw [mem_candidates, votesFor_of_lookup hlookup]
    constructor
    · intro ⟨_, heq⟩
      refine .inr ?_
      rw [show votesFor (visibleVotes root rest) w.accountID = w.votes by omega]
      exact hw
    · intro hright
      have heq : w.votes = votesFor (visibleVotes root rest) w.accountID := by
        rcases hright with hzero | hmem
        · omega
        · exact congrArg InflationWinner.votes (inj_on_of_nodup_map h.nodup hw hmem rfl)
      exact ⟨⟨_, hlookup, by omega⟩, by omega⟩
  · have hnot : ∀ w ∈ parentWinners, w.accountID ≠ dest := by simpa using hreported
    have hlookup := lookup_of_not_reported hnot deltaVotes minVotes
    constructor
    · intro ⟨hcandidate, heq⟩
      obtain ⟨v, hv, -⟩ := mem_candidates.mp hcandidate
      rw [votesFor_of_lookup hv] at heq
      rw [hlookup, Option.filter_eq_some_iff] at hv
      rw [votesFor_of_lookup hv.1] at heq
      exact .inl (by omega)
    · intro hright
      have hzero := hright.resolve_right fun hmem => hnot _ hmem rfl
      rw [hzero, zero_add] at hpos hmin ⊢
      have hsome : (getTotalVotes parentWinners deltaVotes minVotes).lookup dest = some (votesFor deltaVotes dest) := by
        rw [hlookup]
        cases hdelta : deltaVotes.lookup dest with
        | none =>
          rw [votesFor, hdelta] at hpos
          exact absurd hpos (lt_irrefl _)
        | some delta =>
          rw [votesFor_of_lookup hdelta] at hmin ⊢
          simp [Option.filter, hmin]
      exact ⟨mem_candidates.mpr ⟨_, hsome, hmin⟩, votesFor_of_lookup hsome⟩

theorem levelWinners_answer (hmin : 0 ≤ minVotes) :
    Answer root (l :: rest) (levelWinners strKey root l rest maxWinners minVotes parentWinners) where
  nodup := enumerate_accountIDs_nodup strKey
  bounds w hw := by
    obtain ⟨hlead, hvotes⟩ := (mem_enumerate strKey).mp hw
    have hthreshold := (underestimates h minVotes).threshold _ hlead.1
    have hle := (underestimates h minVotes).le _ hlead.1
    exact ⟨by omega, by omega⟩

/-- A winner is found if it had no votes before, or the parent reports what it had. -/
theorem mem_levelWinners {w : InflationWinner} (hw : w ∈ inflationWinners strKey root (l :: rest) maxWinners minVotes)
    (hright : votesFor (visibleVotes root rest) w.accountID = 0 ∨
      ⟨w.accountID, votesFor (visibleVotes root rest) w.accountID⟩ ∈ parentWinners) :
    w ∈ levelWinners strKey root l rest maxWinners minVotes parentWinners := by
  have hU : ∀ dest, 0 < votesFor (visibleVotes root (l :: rest)) dest → dest ∈ destinations root l rest :=
    fun _ => mem_destinations
  obtain ⟨hlead, hvotes⟩ := (mem_inflationWinners strKey root hU).mp hw
  obtain ⟨-, hpos, hmin⟩ := mem_contenders.mp hlead.1
  obtain ⟨hmem, htotal⟩ := (total_right_iff h hpos hmin).mpr hright
  exact (mem_enumerate strKey).mpr ⟨(underestimates h minVotes).leads_total hU hlead hmem htotal, htotal.trans hvotes⟩

/-- **One level**, over parents that may be wrong about others. -/
theorem levelWinners_eq_iff (hmin : 0 < minVotes) :
    levelWinners strKey root l rest maxWinners minVotes parentWinners =
        inflationWinners strKey root (l :: rest) maxWinners minVotes ↔
      ∀ w ∈ inflationWinners strKey root (l :: rest) maxWinners minVotes,
        votesFor (visibleVotes root rest) w.accountID = 0 ∨
          ⟨w.accountID, votesFor (visibleVotes root rest) w.accountID⟩ ∈ parentWinners := by
  have hU : ∀ dest, 0 < votesFor (visibleVotes root (l :: rest)) dest → dest ∈ destinations root l rest :=
    fun _ => mem_destinations
  have hwinners {w : InflationWinner} := @mem_inflationWinners κ _ strKey root (l :: rest) maxWinners minVotes _ hU w
  have hright {dest : AccountID} (hlead : Leads strKey (votesFor (visibleVotes root (l :: rest)))
      (contenders (destinations root l rest) (votesFor (visibleVotes root (l :: rest))) minVotes) maxWinners dest) :=
    total_right_iff h (mem_contenders.mp hlead.1).2.1 (mem_contenders.mp hlead.1).2.2
  have hiff := @Underestimates.leads_iff _ _ _ strKey _ _ maxWinners _ _ _ _ (underestimates h minVotes) hU hmin
  constructor
  · intro hsame w hw
    have hlead := (hwinners.mp hw).1
    refine (hright hlead).mp (hiff.mp (fun dest v => ?_) w.accountID hlead)
    have hmem : ⟨dest, v⟩ ∈ levelWinners strKey root l rest maxWinners minVotes parentWinners ↔ _ := mem_enumerate strKey
    rw [hsame] at hmem
    exact hmem.symm.trans hwinners
  · intro hfound
    have hall := hiff.mpr fun dest hlead => (hright hlead).mpr
      (hfound ⟨dest, votesFor (visibleVotes root (l :: rest)) dest⟩ (hwinners.mpr ⟨hlead, rfl⟩))
    exact (enumerate_ascending strKey).eq_of_mem_iff (enumerate_ascending strKey) fun w =>
      (mem_enumerate strKey).trans ((hall w.accountID w.votes).trans hwinners.symm)

end

variable (strKey root)

/-! ### Chains -/

/-- No level asks its parent for more winners than can be counted. -/
def Fits : List Level → Nat → Prop
  | [], _ => True
  | l :: rest, maxWinners =>
    let deltaVotes := l.getDeltaVotes (getNewestVersion root rest)
    maxWinners ≤ 2 ^ 64 - 1 - numChanged deltaVotes ∧ Fits rest (maxWinners + numChanged deltaVotes)

/-- Down to where it has no votes, the destination is among the winners that each level should get from its
parent wherever it has gained votes. -/
def Tracked : List Level → Nat → Int → AccountID → Prop
  | [], _, _, _ => True
  | l :: rest, maxWinners, minVotes, dest =>
    let deltaVotes := l.getDeltaVotes (getNewestVersion root rest)
    let asked := maxWinners + numChanged deltaVotes
    votesFor (visibleVotes root rest) dest = 0 ∨
      (0 < votesFor deltaVotes dest →
        dest ∈ (inflationWinners strKey root rest asked (newMinVotes deltaVotes minVotes)).map accountID) ∧
      Tracked rest asked (newMinVotes deltaVotes minVotes) dest

variable {strKey root}

/-- A winner that had votes was among those the parent should report, if it has not gained or is said to be. -/
theorem mem_parent {w : InflationWinner} (hw : w ∈ inflationWinners strKey root (l :: rest) maxWinners minVotes)
    (hgained : 0 < votesFor (l.getDeltaVotes (getNewestVersion root rest)) w.accountID →
      w.accountID ∈ (inflationWinners strKey root rest
        (maxWinners + numChanged (l.getDeltaVotes (getNewestVersion root rest)))
        (newMinVotes (l.getDeltaVotes (getNewestVersion root rest)) minVotes)).map accountID) :
    ⟨w.accountID, votesFor (visibleVotes root rest) w.accountID⟩ ∈ inflationWinners strKey root rest
      (maxWinners + numChanged (l.getDeltaVotes (getNewestVersion root rest)))
      (newMinVotes (l.getDeltaVotes (getNewestVersion root rest)) minVotes) := by
  by_cases hincrease : 0 < votesFor (l.getDeltaVotes (getNewestVersion root rest)) w.accountID
  · obtain ⟨w', hw', hid⟩ := mem_map.mp (hgained hincrease)
    rw [← hid, ((mem_enumerate strKey).mp hw').2]
    exact hw'
  · -- whoever has not gained was ahead before, too
    have hlead := ((mem_inflationWinners strKey root fun _ => mem_destinations).mp hw).1
    rw [votesFor_cons] at hlead
    have hthreshold (p : Int) := @newMinVotes_le (l.getDeltaVotes (getNewestVersion root rest)) minVotes p
    have hbefore := (leads_before hthreshold hlead (not_lt.mp hincrease)).mono
      (Nat.add_le_add_left (card_changed_le _ _) _)
    exact (mem_inflationWinners strKey root fun _ => mem_destinations_rest).mpr ⟨hbefore, rfl⟩

theorem getInflationWinners_cons {winners : List InflationWinner}
    (hlimit : maxWinners ≤ 2 ^ 64 - 1 - numChanged (l.getDeltaVotes (getNewestVersion root rest)))
    (hparent : getInflationWinners strKey root rest
      (maxWinners + numChanged (l.getDeltaVotes (getNewestVersion root rest)))
      (newMinVotes (l.getDeltaVotes (getNewestVersion root rest)) minVotes) = .ok winners) :
    getInflationWinners strKey root (l :: rest) maxWinners minVotes =
      .ok (levelWinners strKey root l rest maxWinners minVotes winners) := by
  unfold getInflationWinners
  rw [if_neg (not_lt.mpr hlimit), hparent]
  rfl

variable (strKey) in
theorem getInflationWinners_answers (hfits : Fits root levels maxWinners) (hmin : 0 ≤ minVotes) :
    ∃ winners, getInflationWinners strKey root levels maxWinners minVotes = .ok winners ∧ Answer root levels winners ∧
      ∀ w ∈ inflationWinners strKey root levels maxWinners minVotes,
        Tracked strKey root levels maxWinners minVotes w.accountID → w ∈ winners := by
  induction levels generalizing maxWinners minVotes with
  | nil => exact ⟨_, rfl, answer_root strKey root maxWinners minVotes, fun w hw _ => hw⟩
  | cons l rest ih =>
    obtain ⟨hlimit, hfits⟩ := hfits
    obtain ⟨parentWinners, hparent, hanswer, hreports⟩ := ih hfits (newMinVotes_nonneg _ _)
    refine ⟨_, getInflationWinners_cons hlimit hparent, levelWinners_answer hanswer hmin, fun w hw htracked => ?_⟩
    refine mem_levelWinners hanswer hw (htracked.imp_right fun ⟨hgained, htracked⟩ => ?_)
    exact hreports _ (mem_parent hw hgained) htracked

end

def voter (balance : Int) (dest : AccountID) : AccountEntry := { balance, seqNum := 0, inflationDest := some dest }

def votingRoot : Root where
  mHeader := ⟨13, 7, 0, 0, 0, 0, 0, 1, 100, 100⟩
  database := AList.insert (.account 1) ⟨0, voter 100000000000 11⟩ <|
    AList.insert (.account 2) ⟨0, voter 90000000000 12⟩ <| AList.insert (.account 3) ⟨0, voter 80000000000 13⟩ ∅

/-- A level that creates an account, which votes for the last of them. -/
def votingLevel (balance : Int) : Level where
  mHeader := votingRoot.mHeader
  mShouldUpdateLastModified := true
  mEntry := AList.insert (.ledgerKey (.account 4)) (some ⟨0, voter balance 13⟩) ∅

end Diamnet.Nested
