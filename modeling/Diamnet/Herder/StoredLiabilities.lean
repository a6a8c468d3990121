import Diamnet.Herder.PrepareAccount
import Diamnet.Transactions.BalanceEffects

/-! How an upgrade stores the liabilities of the offers it keeps. -/
namespace Diamnet.Herder
open Ledger Transactions TrustLineEntry AccountEntry Runs AList

/-- The liabilities an account has stored in an asset. -/
def storedLiabilities (s : LedgerTxn) (id : AccountID) (asset : Asset) : Liabilities :=
  if asset = .native then (s.accounts.lookup id).elim {} (·.liabilities)
  else (s.trustLines.lookup (id, asset)).elim {} (·.liabilities)

def Liabilities64 (l : Liabilities) : Prop :=
  (0 ≤ l.selling ∧ l.selling ≤ INT64_MAX) ∧ 0 ≤ l.buying ∧ l.buying ≤ INT64_MAX

theorem int64_sub {x y : Int} (hx : 0 ≤ x ∧ x ≤ INT64_MAX) (hy : 0 ≤ y ∧ y ≤ INT64_MAX) :
    int64 (x - y) = .ok (x - y) := by
  refine int64_eq_ok.mpr ⟨rfl, ?_⟩
  simp only [INT64_MIN, INT64_MAX] at hx hy ⊢
  omega

/-! ### Native liabilities -/

/-- The selling liabilities stay as they are or the reserve leaves room for them. -/
def NativeFits (lh : LedgerHeader) (acc : AccountEntry) (selling : Int) : Prop :=
  selling = acc.liabilities.selling ∨ Reserves lh acc selling

/-- The account can store the liabilities. -/
structure AccountReady (lh : LedgerHeader) (acc : AccountEntry) (l : Liabilities) : Prop where
  native : NativeFits lh acc l.selling
  amounts : Liabilities64 l
  stored : Liabilities64 acc.liabilities
  balance : 0 ≤ acc.balance
  buying : l.buying ≤ INT64_MAX - acc.balance

section
variable {s : LedgerTxn} {id : AccountID} {l : Liabilities}

theorem setAccountLiabilities_ensures :
    Ensures (setAccountLiabilities id l) s fun _ s' => ∃ acc, s.accounts.lookup id = some acc ∧
      NativeFits s.header acc l.selling ∧
      s' = { s with accounts := s.accounts.insert id { acc with liabilities := l } } := by
  unfold setAccountLiabilities
  rw [Ensures, bind_iff, runs_loadAccount]
  refine ⟨fun acc hacc => ?_, fun _ => trivial⟩
  rw [bind_iff, runs_checked, meets_int64]
  refine ⟨fun _ => ?_, fun _ => trivial⟩
  rw [bind_iff, runs_checked, meets_int64]
  refine ⟨fun _ => ?_, fun _ => trivial⟩
  apply Ensures.bind (mustUpdateAccount_ensures _) fun _ _ h => h
  intro acc' acc₁ hacc' hselling
  rw [hacc] at hacc'
  cases hacc'
  obtain ⟨-, rfl, hroom⟩ := addSellingLiabilities_iff.mp hselling
  apply mustUpdateAccount_ensures
  intro acc' acc₂ hacc' hbuying
  rw [lookup_insert] at hacc'
  cases hacc'
  obtain ⟨-, rfl, -⟩ := addBuyingLiabilities_iff.mp hbuying
  rw [add_sub_cancel] at hroom
  refine ⟨acc, hacc, ?_, by simp [insert_insert]⟩
  by_cases hzero : l.selling = acc.liabilities.selling
  · exact .inl hzero
  · exact .inr (hroom (sub_ne_zero.mpr hzero)).2.2

theorem setAccountLiabilities_total (hv : 10 ≤ s.header.ledgerVersion) {acc : AccountEntry}
    (hacc : s.accounts.lookup id = some acc) (hready : AccountReady s.header acc l) :
    Runs (setAccountLiabilities id l) s (fun _ _ => True) fun _ => False := by
  have hselling : addSellingLiabilities s.header acc (l.selling - acc.liabilities.selling) =
      .ok (some { acc with liabilities := { acc.liabilities with selling := l.selling } }) := by
    refine addSellingLiabilities_iff.mpr ⟨hv, by rw [add_sub_cancel], fun hdelta => ?_⟩
    rw [add_sub_cancel]
    exact ⟨hready.stored.1.1, hready.amounts.1.1, hready.native.resolve_left fun h => hdelta (sub_eq_zero.mpr h)⟩
  have hbuying : addBuyingLiabilities s.header
      { acc with liabilities := { acc.liabilities with selling := l.selling } } (l.buying - acc.liabilities.buying) =
      .ok (some { acc with liabilities := l }) := by
    refine addBuyingLiabilities_iff.mpr ⟨hv, by simp, fun _ => ?_⟩
    have := hready.balance
    rw [add_sub_cancel]
    exact ⟨hready.stored.2.1, hready.amounts.2.1, hready.buying, show INT64_MAX - acc.balance ≤ INT64_MAX by omega⟩
  unfold setAccountLiabilities
  simp only [bind_iff, runs_loadAccount, hacc, Option.some.injEq, forall_eq', runs_checked,
    int64_sub hready.amounts.1 hready.stored.1, int64_sub hready.amounts.2 hready.stored.2, Meets.ok_iff, reduceCtorEq,
    false_implies, and_true]
  exact mustUpdateAccount_runs hacc hselling (mustUpdateAccount_runs (lookup_insert _) hbuying trivial)

theorem setAccountLiabilities_runs (hv : 10 ≤ s.header.ledgerVersion) :
    Runs (setAccountLiabilities id l) s
      (fun _ s' => ∃ acc, s.accounts.lookup id = some acc ∧ NativeFits s.header acc l.selling ∧
        s' = { s with accounts := s.accounts.insert id { acc with liabilities := l } })
      (fun _ => ¬∃ acc, s.accounts.lookup id = some acc ∧ AccountReady s.header acc l) :=
  of_total setAccountLiabilities_ensures fun ⟨_, hacc, hready⟩ => setAccountLiabilities_total hv hacc hready

/-! ### Liabilities in other assets -/

/-- From version 11 on, liabilities only get less. -/
def Lessens (lh : LedgerHeader) (old new : Liabilities) : Prop :=
  10 < lh.ledgerVersion → new.selling ≤ old.selling ∧ new.buying ≤ old.buying

/-- The trust line can store the liabilities. -/
structure LineReady (lh : LedgerHeader) (tl : TrustLineEntry) (l : Liabilities) : Prop where
  lessens : Lessens lh tl.liabilities l
  amounts : Liabilities64 l
  stored : Liabilities64 tl.liabilities
  authorized : isAuthorizedToMaintainLiabilities tl = true
  selling : l.selling ≤ tl.balance
  buying : l.buying ≤ tl.limit - tl.balance
  limit : tl.limit - tl.balance ≤ INT64_MAX

theorem setLineLiabilities_ensures {asset : Asset} (hissuer : getIssuer asset ≠ some id) :
    Ensures (setLineLiabilities id asset l) s fun _ s' => ∃ tl, s.trustLines.lookup (id, asset) = some tl ∧
      Lessens s.header tl.liabilities l ∧
      s' = { s with trustLines := s.trustLines.insert (id, asset) { tl with liabilities := l } } := by
  unfold setLineLiabilities loadTrustLine
  rw [Ensures, bind_iff, runs_getHeader, bind_iff, bind_iff, runs_check]
  refine ⟨fun _ => ?_, fun _ => trivial⟩
  rw [if_neg hissuer, bind_iff, runs_findTrustLine]
  cases htl : s.trustLines.lookup (id, asset) with
  | none => simp [bind_iff, TrustLineWrapper.read]
  | some tl =>
    simp only [pure_iff, bind_iff, TrustLineWrapper.read, TrustLineWrapper.entry, runs_getHeader,
      runs_findTrustLine, htl, runs_checked, runs_check]
    cases hl : getLiabilities s.header tl.liabilities with
    | error f => trivial
    | ok stored =>
      obtain rfl : tl.liabilities = stored := by
        unfold getLiabilities at hl
        split at hl <;> cases hl
        rfl
      refine meets_int64.mpr ⟨fun _ => meets_int64.mpr ⟨fun _ => ⟨fun hlessens => ?_, ?_⟩, ?_⟩, ?_⟩ <;>
        try exact fun _ => trivial
      apply mustUpdateLine_ensures
      intro tl' tl₁ htl' hselling
      rw [htl] at htl'
      cases htl'
      obtain ⟨-, rfl, -⟩ := addSellingLiabilities_iff.mp hselling
      apply mustUpdateLine_ensures
      intro tl' tl₂ htl' hbuying
      rw [lookup_insert] at htl'
      cases htl'
      obtain ⟨-, rfl, -⟩ := addBuyingLiabilities_iff.mp hbuying
      refine ⟨tl, rfl, fun hlate => ?_, by simp [insert_insert]⟩
      omega

theorem setLineLiabilities_total (hv : 10 ≤ s.header.ledgerVersion) {asset : Asset} (hnative : asset ≠ .native)
    (hissuer : getIssuer asset ≠ some id) {tl : TrustLineEntry} (htl : s.trustLines.lookup (id, asset) = some tl)
    (hready : LineReady s.header tl l) :
    Runs (setLineLiabilities id asset l) s (fun _ _ => True) fun _ => False := by
  have hselling : addSellingLiabilities s.header tl (l.selling - tl.liabilities.selling) =
      .ok (some { tl with liabilities := { tl.liabilities with selling := l.selling } }) := by
    refine addSellingLiabilities_iff.mpr ⟨hv, by rw [add_sub_cancel], fun _ => ?_⟩
    rw [add_sub_cancel]
    exact ⟨hready.authorized, hready.stored.1.1, hready.amounts.1.1, hready.selling⟩
  have hbuying : addBuyingLiabilities s.header
      { tl with liabilities := { tl.liabilities with selling := l.selling } } (l.buying - tl.liabilities.buying) =
      .ok (some { tl with liabilities := l }) := by
    refine addBuyingLiabilities_iff.mpr ⟨hv, by simp, fun _ => ?_⟩
    rw [add_sub_cancel]
    exact ⟨hready.authorized, hready.stored.2.1, hready.amounts.2.1, hready.buying, hready.limit⟩
  have hlessens : ¬(s.header.ledgerVersion > 10 ∧
      (l.selling - tl.liabilities.selling > 0 ∨ l.buying - tl.liabilities.buying > 0)) := by
    rintro ⟨hlate, hgrows⟩
    have := hready.lessens hlate
    omega
  have hliabilities : getLiabilities s.header tl.liabilities = .ok tl.liabilities := by
    rw [getLiabilities, if_neg (not_lt.mpr hv)]
    rfl
  unfold setLineLiabilities loadTrustLine
  simp only [bind_iff, runs_getHeader, runs_check, ne_eq, hnative, not_false_eq_true, true_implies, if_neg hissuer,
    runs_findTrustLine, htl, pure_iff, TrustLineWrapper.read, TrustLineWrapper.entry, runs_checked, hliabilities,
    Meets.ok_iff, int64_sub hready.amounts.1 hready.stored.1, int64_sub hready.amounts.2 hready.stored.2, hlessens,
    not_true_eq_false, false_implies, and_true]
  exact mustUpdateLine_runs htl hselling (mustUpdateLine_runs (lookup_insert _) hbuying trivial)

theorem setLineLiabilities_runs (hv : 10 ≤ s.header.ledgerVersion) {asset : Asset} (hnative : asset ≠ .native)
    (hissuer : getIssuer asset ≠ some id) :
    Runs (setLineLiabilities id asset l) s
      (fun _ s' => ∃ tl, s.trustLines.lookup (id, asset) = some tl ∧ Lessens s.header tl.liabilities l ∧
        s' = { s with trustLines := s.trustLines.insert (id, asset) { tl with liabilities := l } })
      (fun _ => ¬∃ tl, s.trustLines.lookup (id, asset) = some tl ∧ LineReady s.header tl l) :=
  of_total (setLineLiabilities_ensures hissuer) fun ⟨_, htl, hready⟩ =>
    setLineLiabilities_total hv hnative hissuer htl hready

end

/-! ### All assets of an account -/

/-- The entry that stores the account's liabilities in the asset is the same. -/
def SameAt (s s' : LedgerTxn) (id : AccountID) (asset : Asset) : Prop :=
  if asset = .native then s'.accounts.lookup id = s.accounts.lookup id
  else s'.trustLines.lookup (id, asset) = s.trustLines.lookup (id, asset)

/-- The entry that stores the account's liabilities in the asset allows these. -/
def FitsAt (s : LedgerTxn) (id : AccountID) (asset : Asset) (l : Liabilities) : Prop :=
  if asset = .native then ∃ acc, s.accounts.lookup id = some acc ∧ NativeFits s.header acc l.selling
  else ∃ tl, s.trustLines.lookup (id, asset) = some tl ∧ Lessens s.header tl.liabilities l

/-- The entry that stores the account's liabilities in the asset can store these. -/
def ReadyAt (s : LedgerTxn) (id : AccountID) (asset : Asset) (l : Liabilities) : Prop :=
  if asset = .native then ∃ acc, s.accounts.lookup id = some acc ∧ AccountReady s.header acc l
  else ∃ tl, s.trustLines.lookup (id, asset) = some tl ∧ LineReady s.header tl l

/-- The liabilities of one account are stored, and nothing else changes. -/
structure Settled (id : AccountID) (entries : List (Sigma fun _ : Asset => Liabilities)) (s s' : LedgerTxn) : Prop where
  framed : Framed s s'
  offers : s'.offers = s.offers
  counters : countersOf s' = countersOf s
  other : ∀ id' asset, ¬(id' = id ∧ asset ∈ entries.keys) → SameAt s s' id' asset
  stored : ∀ e ∈ entries, storedLiabilities s' id e.1 = e.2

section
variable {s s' : LedgerTxn} {id : AccountID} {asset : Asset}

theorem SameAt.trans {s₁ : LedgerTxn} (h : SameAt s s₁ id asset) (h' : SameAt s₁ s' id asset) :
    SameAt s s' id asset := by
  unfold SameAt at *
  split <;> simp_all

theorem SameAt.storedLiabilities_eq (h : SameAt s s' id asset) :
    storedLiabilities s' id asset = storedLiabilities s id asset := by
  unfold SameAt at h
  unfold storedLiabilities
  split <;> simp_all

theorem SameAt.fitsAt_iff (h : SameAt s s' id asset) (hheader : s'.header = s.header) (l : Liabilities) :
    FitsAt s' id asset l ↔ FitsAt s id asset l := by
  unfold SameAt at h
  unfold FitsAt
  split <;> simp_all

theorem SameAt.readyAt_iff (h : SameAt s s' id asset) (hheader : s'.header = s.header) (l : Liabilities) :
    ReadyAt s' id asset l ↔ ReadyAt s id asset l := by
  unfold SameAt at h
  unfold ReadyAt
  split <;> simp_all

theorem setLiabilities_runs (hv : 10 ≤ s.header.ledgerVersion) (hissuer : getIssuer asset ≠ some id)
    (l : Liabilities) :
    Runs (setLiabilities id asset l) s (fun _ s' => FitsAt s id asset l ∧ Settled id [⟨asset, l⟩] s s')
      (fun _ => ¬ReadyAt s id asset l) := by
  unfold setLiabilities FitsAt ReadyAt
  split
  · next hnative =>
    subst hnative
    refine (setAccountLiabilities_runs hv).mono ?_ fun _ h => h
    rintro _ s' ⟨acc, hacc, hfits, rfl⟩
    refine ⟨⟨acc, hacc, hfits⟩, ⟨rfl, fun id' => ?_, fun _ => rfl⟩, rfl, ?_, ?_, ?_⟩
    · by_cases hid : id' = id
      · rw [hid, lookup_insert, hacc]
        rfl
      · rw [lookup_insert_ne hid]
    · funext q
      simp only [countersOf, Table.total_insert, Table.at?_of_lookup hacc]
      show _ - counters id acc q + counters id acc q = _
      ring
    · intro id' asset' hother
      unfold SameAt
      split
      · next hnative =>
        apply lookup_insert_ne
        rintro rfl
        exact hother ⟨rfl, by simp [hnative]⟩
      · rfl
    · simp [storedLiabilities]
  · next hnative =>
    refine (setLineLiabilities_runs hv hnative hissuer).mono ?_ fun _ h => h
    rintro _ s' ⟨tl, htl, hlessens, rfl⟩
    refine ⟨⟨tl, htl, hlessens⟩, ⟨rfl, fun _ => rfl, fun key => ?_⟩, rfl, rfl, ?_, ?_⟩
    · by_cases hkey : key = (id, asset)
      · rw [hkey, lookup_insert, htl]
        rfl
      · rw [lookup_insert_ne hkey]
    · intro id' asset' hother
      unfold SameAt
      split
      · rfl
      · apply lookup_insert_ne
        rintro ⟨⟩
        exact hother ⟨rfl, by simp⟩
    · simp [storedLiabilities, hnative]

theorem Settled.cons {s₁ : LedgerTxn} {e : Sigma fun _ : Asset => Liabilities}
    {rest : List (Sigma fun _ : Asset => Liabilities)} (h : Settled id [e] s s₁) (h' : Settled id rest s₁ s')
    (hnot : e.1 ∉ rest.keys) : Settled id (e :: rest) s s' where
  framed := h.framed.trans h'.framed
  offers := h'.offers.trans h.offers
  counters := h'.counters.trans h.counters
  other id' asset hother := by
    refine (h.other id' asset fun hat => hother ⟨hat.1, ?_⟩).trans (h'.other id' asset fun hat => hother ⟨hat.1, ?_⟩)
    · simp_all
    · simp [hat.2]
  stored := by
    rw [List.forall_mem_cons]
    refine ⟨?_, h'.stored⟩
    rw [(h'.other id e.1 fun hat => hnot hat.2).storedLiabilities_eq]
    exact h.stored e (.head _)

theorem setAll_runs {entries : List (Sigma fun _ : Asset => Liabilities)} (hnodup : entries.keys.Nodup)
    (hissuer : ∀ e ∈ entries, getIssuer e.1 ≠ some id) (hv : 10 ≤ s.header.ledgerVersion) :
    Runs (entries.forM fun e => setLiabilities id e.1 e.2) s
      (fun _ s' => (∀ e ∈ entries, FitsAt s id e.1 e.2) ∧ Settled id entries s s')
      (fun _ => ¬∀ e ∈ entries, ReadyAt s id e.1 e.2) := by
  induction entries generalizing s with
  | nil => exact ⟨by simp, Framed.refl s, rfl, rfl, fun _ _ _ => by unfold SameAt; split <;> rfl, by simp⟩
  | cons e rest ih =>
    rw [List.keys_cons, List.nodup_cons] at hnodup
    obtain ⟨hissuer, hissuers⟩ := List.forall_mem_cons.mp hissuer
    refine bind ((setLiabilities_runs hv hissuer e.2).mono (fun _ _ h => h) ?_) ?_
    · exact fun _ hready h => hready (h e (.head _))
    · rintro _ s₁ ⟨hfits, hsettled⟩
      -- the entries to come are where they were
      have hsame : ∀ e' ∈ rest, SameAt s s₁ id e'.1 := by
        intro e' he'
        apply hsettled.other
        rintro ⟨-, hmem⟩
        have hkey : e'.1 = e.1 := by simpa using hmem
        exact hnodup.1 (hkey ▸ List.mem_keys_of_mem he')
      have hheader := hsettled.framed.header
      refine (ih hnodup.2 hissuers (hheader ▸ hv)).mono ?_ ?_
      · rintro _ s' ⟨hfits', hsettled'⟩
        refine ⟨List.forall_mem_cons.mpr ⟨hfits, ?_⟩, hsettled.cons hsettled' hnodup.1⟩
        exact fun e' he' => ((hsame e' he').fitsAt_iff hheader e'.2).mp (hfits' e' he')
      · intro _ hready h
        apply hready
        intro e' he'
        exact ((hsame e' he').readyAt_iff hheader e'.2).mpr (h e' (.tail _ he'))

end

end Diamnet.Herder
